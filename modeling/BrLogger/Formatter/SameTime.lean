import BrLogger.Formatter.JsonOutput
import BrLogger.Formatter.PatternMeaning

/-!
# One time in two formatters

`PatternFormatter` puts a time together from three operations, which take the
seconds and the microseconds of the clock each in its own way;
`format_timestamp`, and with it `JsonFormatter`, prints it in one call.  The
microseconds come out the same because `(ns / 1000) % 10^6` and
`(ns % 10^9) / 1000` are the same number (`microseconds_eq`), so the texts are
the same (`full_timestampPattern`), whatever `localtime_r` makes of the seconds.
-/

namespace BrLogger

variable {L : Limits}

/-- `%D %T%e`. -/
def timestampPattern : List Byte := ascii "%D %T%e"

theorem microseconds_eq (ns : Nat) : ns / 1000 % 1000000 = ns % 1000000000 / 1000 :=
  (Nat.mod_mul_right_div_self ns 1000 1000000).symm

theorem meaning_timestampPattern (render : OpType → List Byte) :
    meaning render timestampPattern =
      render .date ++ (ascii " " ++ (render .time ++ render .microseconds)) := by
  have hpattern : timestampPattern = [37, 68, 32, 37, 84, 37, 101] := by decide
  rw [hpattern, meaning_percent, meaning_cons (by decide), meaning_percent, meaning_percent, meaning,
    List.append_nil]
  rfl

theorem full_timestampPattern (localtime : LocalTime) (enableColor : Bool) (entry : LogEntry L) :
    PatternFormatter.full localtime ⟨timestampPattern, enableColor⟩ entry = wallText localtime entry.wallClockNs := by
  rw [PatternFormatter.full, meaning_timestampPattern]
  simp only [OpType.rendering, dateText, timeText, wallText, timestampText, decomposeWallNs, microseconds_eq,
    List.append_assoc]

/-- **Both formatters print the same time.**  In buffers with room for them, the text
of `%D %T%e` is the text `format_timestamp` writes, and the one the `ts` of a JSON
line decodes to. -/
theorem sameTime (localtime : LocalTime) (entry : LogEntry L) (enableColor pretty : Bool) (buf tmp line : Region)
    {bufSize tmpSize lineSize : Nat} (hbuf : (wallText localtime entry.wallClockNs).length < bufSize)
    (htmp : (wallText localtime entry.wallClockNs).length < tmpSize)
    (hline : (JsonFormatter.rendering localtime pretty entry).length < lineSize) :
    (PatternFormatter.format localtime ⟨timestampPattern, enableColor⟩ entry buf bufSize).1.bytes
        (PatternFormatter.format localtime ⟨timestampPattern, enableColor⟩ entry buf bufSize).2 =
      (formatTimestamp localtime entry.wallClockNs tmp tmpSize).1.bytes
        (formatTimestamp localtime entry.wallClockNs tmp tmpSize).2 ∧
    ((Json.decode (JsonFormatter.output localtime pretty entry line lineSize)).bind
        (Json.Value.get (ascii "ts"))) =
      some (.str ((formatTimestamp localtime entry.wallClockNs tmp tmpSize).1.bytes
        (formatTimestamp localtime entry.wallClockNs tmp tmpSize).2)) := by
  rw [formatTimestamp_of_fits localtime entry.wallClockNs tmp htmp]
  refine ⟨?_, ?_⟩
  · rw [PatternFormatter.format_bytes (Nat.zero_lt_of_lt hbuf), full_timestampPattern, List.take_of_length_le (by omega)]
  · rw [JsonFormatter.output_of_large hline, JsonFormatter.rendering,
      ((entry.record localtime).derives_text pretty).document.decode]
    rfl

/-- One nanosecond before the last second of the epoch's first day is over. -/
def lateEntry : LogEntry Limits.desktop := { LogEntry.zero Limits.desktop with wallClockNs := 86399999999999 }

theorem sameTime_lateEntry :
    (PatternFormatter.format JsonFormatter.epoch ⟨timestampPattern, false⟩ lateEntry Region.zero 64).1.bytes
        (PatternFormatter.format JsonFormatter.epoch ⟨timestampPattern, false⟩ lateEntry Region.zero 64).2 =
      (formatTimestamp JsonFormatter.epoch 86399999999999 Region.zero 128).1.bytes
        (formatTimestamp JsonFormatter.epoch 86399999999999 Region.zero 128).2 := by
  have hline : (JsonFormatter.rendering JsonFormatter.epoch false lateEntry).length < 512 := by decide +kernel
  exact (sameTime JsonFormatter.epoch lateEntry false false Region.zero Region.zero Region.zero (by decide +kernel)
    (by decide +kernel) hline).1

end BrLogger
