import BrLogger.Formatter.JsonOutput
import BrLogger.Sink.Interface

/-!
# JSON through a sink

A sink gives its formatter the 2048 bytes of `format_buf_`.  A record that takes
less is obtained whole.  One that does not is cut, and no object any more
(`ILogSink.obtainsObject`), unless the buffer ends inside an escape of its message:
a message of control characters, each written in six bytes, is enough.
-/

namespace BrLogger

variable {L : Limits}

namespace ILogSink

/-- What `DoFormat` leaves in `format_buf_`, up to the length it returns. -/
def formatted (sink : ILogSink L) (entry : LogEntry L) : List Byte :=
  let (sink, len) := sink.doFormat entry
  sink.formatBuf.bytes len

/-- `DoFormat` obtains one complete JSON object. -/
def ObtainsObject (sink : ILogSink L) (entry : LogEntry L) : Prop :=
  ∃ ms, Json.Document (.obj ms) (sink.formatted entry)

variable {sink : ILogSink L} {localtime : LocalTime} {pretty : Bool}

theorem formatted_json (h : sink.formatter = some (JsonFormatter.toIFormatter L localtime pretty)) (entry : LogEntry L) :
    sink.formatted entry = JsonFormatter.output localtime pretty entry sink.formatBuf 2048 := by
  rw [formatted, doFormat, h]
  rfl

/-- **A sink obtains a JSON record that takes less than 2048 bytes**, and no other one
unless it loses an escape of the message. -/
theorem obtainsObject (h : sink.formatter = some (JsonFormatter.toIFormatter L localtime pretty)) (entry : LogEntry L) :
    ((JsonFormatter.rendering localtime pretty entry).length < 2048 → sink.ObtainsObject entry) ∧
      (¬ (entry.record localtime).LosesEscape pretty 2048 → sink.ObtainsObject entry →
        (JsonFormatter.rendering localtime pretty entry).length < 2048) := by
  rw [ObtainsObject, formatted_json h]
  constructor
  · intro hsize
    rw [JsonFormatter.output_of_large hsize]
    exact ⟨_, ((entry.record localtime).derives_text pretty).document⟩
  · intro hkeeps hobject
    obtain ⟨ms, hdoc⟩ := hobject
    exact JsonFormatter.length_rendering_lt (by decide) hkeeps hdoc

/-- A sink that was given a `JsonFormatter`. -/
def jsonSink (pretty : Bool) : ILogSink Limits.desktop :=
  (create _ fun _ => 0).setFormatter (JsonFormatter.toIFormatter _ JsonFormatter.epoch pretty)

theorem obtainsObject_hostileEntry : (jsonSink true).ObtainsObject JsonFormatter.hostileEntry :=
  (obtainsObject (show (jsonSink true).formatter = some (JsonFormatter.toIFormatter _ JsonFormatter.epoch true) from rfl)
    JsonFormatter.hostileEntry).1 (by decide +kernel)

/-- A message as long as may be, of bytes 1. -/
def controlsEntry : LogEntry Limits.desktop :=
  { LogEntry.zero Limits.desktop with
    msgLen := 383
    msg := ⟨List.replicate 383 1 ++ [0], by decide +kernel⟩ }

theorem length_escape_replicate (n : Nat) :
    (BoundedText.escape escapeUnit (List.replicate n 1)).length = 6 * n := by
  induction n with
  | zero => rfl
  | succ n ih =>
    have hunit : (escapeUnit 1).length = 6 := by decide
    rw [List.replicate_succ, BoundedText.escape_cons, List.length_append, ih, hunit]
    omega

/-- **Control characters fill the buffer before the record is closed.** -/
theorem not_obtainsObject_controlsEntry :
    ¬ ∀ (sink : ILogSink Limits.desktop) (localtime : LocalTime) (pretty : Bool) (entry : LogEntry Limits.desktop),
      sink.formatter = some (JsonFormatter.toIFormatter _ localtime pretty) → entry.WellFormed → entry.msg.Terminated →
      (∀ s, entry.fileName = some s ∨ entry.functionName = some s → s.bytes.length ≤ 64) →
      sink.ObtainsObject entry := by
  intro h
  have hwf : controlsEntry.WellFormed := ⟨by decide +kernel, by decide +kernel, by decide +kernel, by decide +kernel⟩
  have hobject := h (jsonSink false) JsonFormatter.epoch false controlsEntry rfl hwf (by decide +kernel)
    (fun s hs => by rcases hs with hs | hs <;> cases hs)
  have hmsg : (controlsEntry.record JsonFormatter.epoch).msg = List.replicate 383 1 := by decide +kernel
  have hhead : (controlsEntry.record JsonFormatter.epoch).headLength false = 133 := by decide +kernel
  have hclosing : (JsonRecord.closing false).length = 2 := by decide
  rw [ObtainsObject, formatted_json (show (jsonSink false).formatter = _ from rfl)] at hobject
  obtain ⟨ms, hdoc⟩ := hobject
  have hsize := JsonFormatter.length_rendering_lt (by decide) ?_ hdoc
  · rw [JsonFormatter.length_rendering, hhead, hclosing, hmsg, length_escape_replicate] at hsize
    omega
  · intro hloses
    obtain ⟨p, c, q, hsplit, _, hfits, hroom⟩ := hloses
    rw [hmsg] at hsplit
    obtain ⟨_, hp, _⟩ := List.replicate_eq_append_iff.mp hsplit
    rw [hhead, hp, length_escape_replicate] at hfits hroom
    rw [hclosing] at hfits
    omega

end ILogSink

end BrLogger
