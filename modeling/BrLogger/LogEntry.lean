import BrLogger.Lib.CString
import BrLogger.Ring.Buffer

/-!
# Platform limits, levels and log entries

`platform.hpp`, `log_level.hpp` and `log_entry.hpp`.  The limits are macros a
build may override, so everything is stated over a `Limits`; `Limits.desktop`
and `Limits.embedded` are the two sets of defaults.
-/

namespace BrLogger

/-- `BR_LOG_RING_SIZE`, `BR_LOG_MAX_MSG_LEN` and the tag constants.  The lengths
are array bounds, so none is zero.  The ring has two slots at least, as both sets of
defaults do: `MPSCRingBuffer` admits one of a single slot, and that one overwrites the
entry it holds (`Ring/CapacityGuard.lean`). -/
structure Limits where
  ringSize : RingCapacity
  maxMsgLen : Nat
  maxTags : Nat
  maxTagKeyLen : Nat
  maxTagValLen : Nat
  ringSize_two_le : 2 ≤ ringSize.val
  maxMsgLen_pos : 0 < maxMsgLen
  maxTags_pos : 0 < maxTags
  maxTagKeyLen_pos : 0 < maxTagKeyLen
  maxTagValLen_pos : 0 < maxTagValLen

def Limits.desktop : Limits where
  ringSize := ⟨8192, by decide, by decide, by decide⟩
  maxMsgLen := 384
  maxTags := 8
  maxTagKeyLen := 32
  maxTagValLen := 64
  ringSize_two_le := by decide
  maxMsgLen_pos := by decide
  maxTags_pos := by decide
  maxTagKeyLen_pos := by decide
  maxTagValLen_pos := by decide

def Limits.embedded : Limits :=
  { Limits.desktop with
    ringSize := ⟨256, by decide, by decide, by decide⟩
    maxMsgLen := 128
    ringSize_two_le := by decide
    maxMsgLen_pos := by decide }

inductive LogLevel
  | trace
  | debug
  | info
  | warn
  | error
  | fatal
  | off
  deriving DecidableEq

/-- The underlying value, by which levels are compared. -/
def LogLevel.toNat : LogLevel → Nat
  | .trace => 0
  | .debug => 1
  | .info => 2
  | .warn => 3
  | .error => 4
  | .fatal => 5
  | .off => 6

/-- `to_short_char(level)`. -/
def LogLevel.toShortChar : LogLevel → Byte
  | .trace => 84
  | .debug => 68
  | .info => 73
  | .warn => 87
  | .error => 69
  | .fatal => 70
  | .off => 79

/-- `to_string(level)`. -/
def LogLevel.toString : LogLevel → List Byte
  | .trace => ascii "TRACE"
  | .debug => ascii "DEBUG"
  | .info => ascii "INFO"
  | .warn => ascii "WARN"
  | .error => ascii "ERROR"
  | .fatal => ascii "FATAL"
  | .off => ascii "OFF"

structure LogTag (L : Limits) where
  key : CharArray L.maxTagKeyLen
  value : CharArray L.maxTagValLen
  deriving DecidableEq

/-- `LogTag tag{}`. -/
def LogTag.zero (L : Limits) : LogTag L := ⟨.zero _, .zero _⟩

/-- A `const char*` is `none` when null. -/
structure LogEntry (L : Limits) where
  timestampNs : UInt64
  wallClockNs : UInt64
  level : LogLevel
  filePath : Option CStr
  fileName : Option CStr
  functionName : Option CStr
  prettyFunction : Option CStr
  line : UInt32
  column : UInt32
  threadId : UInt32
  processId : UInt32
  threadName : CharArray 32
  tagCount : UInt8
  tags : Vector (LogTag L) L.maxTags
  sequenceId : UInt64
  msgLen : UInt16
  msg : CharArray L.maxMsgLen

/-- `LogEntry entry{}`. -/
def LogEntry.zero (L : Limits) : LogEntry L where
  timestampNs := 0
  wallClockNs := 0
  level := .trace
  filePath := none
  fileName := none
  functionName := none
  prettyFunction := none
  line := 0
  column := 0
  threadId := 0
  processId := 0
  threadName := .zero _
  tagCount := 0
  tags := .replicate _ (.zero L)
  sequenceId := 0
  msgLen := 0
  msg := .zero _

namespace LogEntry

variable {L : Limits}

/-- The tags a formatter reads: the first `tag_count`. -/
def usedTags (e : LogEntry L) : List (LogTag L) := e.tags.toList.take e.tagCount.toNat

/-- The message bytes a formatter reads: the first `msg_len`. -/
def message (e : LogEntry L) : List Byte := e.msg.bytes.take e.msgLen.toNat

/-- What the formatters rely on: lengths inside their arrays and terminated strings. -/
structure WellFormed (e : LogEntry L) : Prop where
  msgLen : e.msgLen.toNat < L.maxMsgLen
  tagCount : e.tagCount.toNat ≤ L.maxTags
  threadName : e.threadName.Terminated
  tags : ∀ tag ∈ e.usedTags, tag.key.Terminated ∧ tag.value.Terminated

end LogEntry

end BrLogger
