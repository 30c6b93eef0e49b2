import BrLogger.Formatter.PatternFormatter
import BrLogger.Lib.FileSystem

/-!
# Sinks

`sink_interface.hpp`: the formatter, the level and the line buffer every sink
has, and what the two file sinks do with a formatted record, which is two calls
of `write(2)`: the text, then a newline.
-/

namespace BrLogger

variable {L : Limits}

/-- Files by their paths. -/
abbrev Disk := FileSystem (List Byte) Byte

abbrev OpenFile := Descriptor (List Byte)

/-- A value kept in a `size_t`. -/
def sizeT (n : Nat) : Nat := n % 2 ^ 64

structure ILogSink (L : Limits) where
  formatter : Option (IFormatter L)
  minLevel : LogLevel
  formatBuf : Region

namespace ILogSink

/-- A sink as constructed; `junk` is what its buffer happens to hold. -/
def create (L : Limits) (junk : Nat → Byte) : ILogSink L := ⟨none, .trace, .fresh junk⟩

def setFormatter (sink : ILogSink L) (formatter : IFormatter L) : ILogSink L :=
  { sink with formatter := some formatter }

def setLevel (sink : ILogSink L) (level : LogLevel) : ILogSink L := { sink with minLevel := level }

def shouldLog (sink : ILogSink L) (entryLevel : LogLevel) : Bool := sink.minLevel.toNat ≤ entryLevel.toNat

/-- `if (!formatter_) formatter_ = std::make_unique<PatternFormatter>(...);` -/
def withDefault (sink : ILogSink L) (formatter : IFormatter L) : ILogSink L :=
  { sink with formatter := some (sink.formatter.getD formatter) }

/-- `DoFormat(entry)`. -/
def doFormat (sink : ILogSink L) (entry : LogEntry L) : ILogSink L × Nat :=
  match sink.formatter with
  | some formatter =>
    let (buf, len) := formatter.format entry sink.formatBuf 2048
    ({ sink with formatBuf := buf }, len)
  | none => (sink, 0)

/-- The text a sink makes of an entry: `format_buf_[0 .. len)` after `DoFormat`. -/
def text (sink : ILogSink L) (formatter : IFormatter L) (entry : LogEntry L) : List Byte :=
  let (sink, len) := (sink.withDefault formatter).doFormat entry
  sink.formatBuf.bytes len

/-- What a `Write` call has to record: the text, when the entry passes the level
filter and the text is not empty. -/
def record (sink : ILogSink L) (formatter : IFormatter L) (entry : LogEntry L) : Option (List Byte) :=
  if sink.shouldLog entry.level ∧ sink.text formatter entry ≠ [] then some (sink.text formatter entry) else none

theorem doFormat_length_le (sink : ILogSink L) (entry : LogEntry L) : (sink.doFormat entry).2 ≤ 2048 := by
  rw [doFormat]
  split
  · rename_i formatter _
    exact formatter.length_le entry sink.formatBuf 2048 (by decide)
  · exact Nat.zero_le 2048

theorem length_text (sink : ILogSink L) (formatter : IFormatter L) (entry : LogEntry L) :
    (sink.text formatter entry).length = ((sink.withDefault formatter).doFormat entry).2 := by
  rw [text]
  exact Region.length_bytes _ _

theorem length_text_le (sink : ILogSink L) (formatter : IFormatter L) (entry : LogEntry L) :
    (sink.text formatter entry).length ≤ 2048 := by
  rw [length_text]
  exact doFormat_length_le _ entry

theorem record_eq_some_iff {sink : ILogSink L} {formatter : IFormatter L} {entry : LogEntry L} {s : List Byte} :
    sink.record formatter entry = some s ↔
      sink.shouldLog entry.level = true ∧ sink.text formatter entry = s ∧ s ≠ [] := by
  rw [record]
  constructor
  · intro h
    split at h
    · rename_i hpass
      cases h
      exact ⟨hpass.1, rfl, hpass.2⟩
    · cases h
  · intro h
    obtain ⟨hlevel, rfl, hne⟩ := h
    exact if_pos ⟨hlevel, hne⟩

end ILogSink

/-- How the two `write(2)` calls of a record come out. -/
structure LineOutcome where
  text : Option Nat
  newline : Option Nat

/-- Both calls transfer all they are given. -/
def LineOutcome.Full (o : LineOutcome) (len : Nat) : Prop :=
  (∃ n, o.text = some n ∧ len ≤ n) ∧ ∃ n, o.newline = some n ∧ 1 ≤ n

/-! ### Lines -/

/-- Records, each followed by a newline. -/
def lines (rs : List (List Byte)) : List Byte := rs.flatMap (· ++ ascii "\n")

theorem lines_append (rs ts : List (List Byte)) : lines (rs ++ ts) = lines rs ++ lines ts := List.flatMap_append

theorem lines_singleton (r : List Byte) : lines [r] = r ++ ascii "\n" := List.append_nil _

theorem length_lines_singleton (r : List Byte) : (lines [r]).length = r.length + 1 := by
  rw [lines_singleton, List.length_append]
  rfl

end BrLogger
