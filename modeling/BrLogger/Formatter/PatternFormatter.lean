import BrLogger.Formatter.Interface
import BrLogger.Formatter.Timestamp

/-!
# `PatternFormatter`

`pattern_formatter.cpp`.  The constructor compiles the pattern to a list of
operations, and `Format` runs them; each appends through `append_data`, which
cuts what it is given one byte before the end of the buffer and puts a NUL
behind it.
-/

namespace BrLogger

/-- The `OpType`s other than `Literal`. -/
inductive OpType
  | date
  | time
  | microseconds
  | levelFull
  | levelShort
  | fileName
  | filePath
  | funcName
  | prettyFunc
  | line
  | threadId
  | processId
  | threadName
  | sequenceId
  | tags
  | message
  | colorStart
  | colorReset
  deriving DecidableEq

/-- A `FormatOp`: only a `Literal` has a text. -/
inductive FormatOp
  | literal (text : List Byte)
  | field (type : OpType)
  deriving DecidableEq

/-- The cases of the `switch` over the byte behind a `%`, in its order:
`D T e L l f F n N # t P k q g m C R`. -/
def OpType.ofByte : Byte → Option OpType
  | 68 => some .date
  | 84 => some .time
  | 101 => some .microseconds
  | 76 => some .levelFull
  | 108 => some .levelShort
  | 102 => some .fileName
  | 70 => some .filePath
  | 110 => some .funcName
  | 78 => some .prettyFunc
  | 35 => some .line
  | 116 => some .threadId
  | 80 => some .processId
  | 107 => some .threadName
  | 113 => some .sequenceId
  | 103 => some .tags
  | 109 => some .message
  | 67 => some .colorStart
  | 82 => some .colorReset
  | _ => none

/-- The local function `flush_literal`. -/
def flushLiteral (literal : List Byte) (ops : List FormatOp) : List FormatOp :=
  if literal = [] then ops else ops ++ [.literal literal]

/-- The loop of `CompilePattern` on what is left of the pattern. -/
def compileLoop : List Byte → List Byte → List FormatOp → List FormatOp
  | [], literal, ops => flushLiteral literal ops
  | ch :: rest, literal, ops =>
    if ch ≠ 37 then compileLoop rest (literal ++ [ch]) ops
    else
      match rest with
      | [] => compileLoop [] (literal ++ [37]) ops
      | next :: rest =>
        match OpType.ofByte next with
        | some type => compileLoop rest [] (flushLiteral literal ops ++ [.field type])
        | none => compileLoop rest (literal ++ if next = 37 then [37] else [37, next]) ops

def compilePattern (pattern : List Byte) : List FormatOp := compileLoop pattern [] []

/-- The local function `append_data`. -/
def appendData (bufSize : Nat) (c : Cursor) (data : List Byte) : Cursor :=
  if bufSize = 0 ∨ data = [] then c
  else
    let avail := if c.pos < bufSize then sizeSub (sizeSub bufSize 1) c.pos else 0
    if avail = 0 then c
    else
      let toCopy := if data.length < avail then data.length else avail
      ⟨(c.buf.blit c.pos (data.take toCopy)).store (c.pos + toCopy) 0, c.pos + toCopy⟩

/-- The local function `append_cstr`. -/
def appendCstr (bufSize : Nat) (c : Cursor) : Option CStr → Cursor
  | some s => appendData bufSize c s.bytes
  | none => c

/-- `n = snprintf(temp, sizeof(temp), ...); if (n > 0) append_data(temp, n);` for a
call that renders `text`. -/
def appendPrinted (bufSize : Nat) (c : Cursor) (text : List Byte) : Cursor :=
  let (temp, n) := Region.zero.snprintf 128 text
  if 0 < n then appendData bufSize c (temp.bytes n.toNat) else c

variable {L : Limits}

/-- The loop over the tags from index `i` on. -/
def appendTagList (bufSize : Nat) : Nat → List (LogTag L) → Cursor → Cursor
  | _, [], c => c
  | i, tag :: tags, c =>
    let c := if 0 < i then appendData bufSize c (ascii "|") else c
    let c := appendData bufSize c tag.key.cstr
    let c := appendData bufSize c (ascii "=")
    let c := appendData bufSize c tag.value.cstr
    appendTagList bufSize (i + 1) tags c

/-- The escape sequence of a level. -/
def LogLevel.color : LogLevel → List Byte
  | .trace => ascii "\x1b[37m"
  | .debug => ascii "\x1b[36m"
  | .info => ascii "\x1b[32m"
  | .warn => ascii "\x1b[33m"
  | .error => ascii "\x1b[31m"
  | .fatal => ascii "\x1b[1;31m"
  | .off => []

/-- `"%02d:%02d:%02d"`. -/
def timeText (tm : Tm) : List Byte :=
  zeroPadded 2 tm.tmHour.toInt ++ ascii ":" ++ zeroPadded 2 tm.tmMin.toInt ++ ascii ":" ++
    zeroPadded 2 tm.tmSec.toInt

/-- One turn of the loop of `Format`. -/
def appendOp (localtime : LocalTime) (enableColor : Bool) (entry : LogEntry L) (bufSize : Nat) (c : Cursor) :
    FormatOp → Cursor
  | .literal text => appendData bufSize c text
  | .field .date =>
    let (temp, len) := formatDate localtime entry.wallClockNs Region.zero 128
    appendData bufSize c (temp.bytes len)
  | .field .time => appendPrinted bufSize c (timeText (localtime (entry.wallClockNs.toNat / 1000000000)))
  | .field .microseconds =>
    appendPrinted bufSize c
      (ascii "." ++ zeroPadded 6 (UInt32.ofNat (entry.wallClockNs.toNat / 1000 % 1000000)).toNat)
  | .field .levelFull => appendData bufSize c entry.level.toString
  | .field .levelShort => appendData bufSize c [entry.level.toShortChar]
  | .field .fileName => appendCstr bufSize c entry.fileName
  | .field .filePath => appendCstr bufSize c entry.filePath
  | .field .funcName => appendCstr bufSize c entry.functionName
  | .field .prettyFunc => appendCstr bufSize c entry.prettyFunction
  | .field .line => appendPrinted bufSize c (decimal entry.line.toNat)
  | .field .threadId => appendPrinted bufSize c (decimal entry.threadId.toNat)
  | .field .processId => appendPrinted bufSize c (decimal entry.processId.toNat)
  | .field .threadName => appendData bufSize c entry.threadName.cstr
  | .field .sequenceId => appendPrinted bufSize c (decimal entry.sequenceId.toNat)
  | .field .tags =>
    if 0 < entry.tagCount.toNat then
      appendData bufSize (appendTagList bufSize 0 entry.usedTags (appendData bufSize c (ascii "["))) (ascii "]")
    else c
  | .field .message => appendData bufSize c entry.message
  | .field .colorStart => if enableColor then appendData bufSize c entry.level.color else c
  | .field .colorReset => if enableColor then appendData bufSize c (ascii "\x1b[0m") else c

/-- A `PatternFormatter(pattern, enable_color)`. -/
structure PatternFormatter where
  pattern : List Byte
  enableColor : Bool

namespace PatternFormatter

def ops (f : PatternFormatter) : List FormatOp := compilePattern f.pattern

/-- `Format(entry, buf, buf_size)`. -/
def format (localtime : LocalTime) (f : PatternFormatter) (entry : LogEntry L) (buf : Region) (bufSize : Nat) :
    Region × Nat :=
  if bufSize = 0 then (buf, 0)
  else
    let c := f.ops.foldl (appendOp localtime f.enableColor entry bufSize) ⟨buf.store 0 0, 0⟩
    (c.buf, c.pos)

end PatternFormatter

/-! ### The length returned -/

section
variable {bufSize : Nat} {c : Cursor}

theorem appendData_pos_lt (h : c.pos < bufSize) (data : List Byte) : (appendData bufSize c data).pos < bufSize := by
  rw [appendData]
  split
  · exact h
  · simp only [sizeSub_one (Nat.zero_lt_of_lt h), sizeSub_of_le (show c.pos ≤ bufSize - 1 by omega)]
    split
    · exact h
    · simp only
      split <;> omega

theorem appendCstr_pos_lt (h : c.pos < bufSize) (s : Option CStr) : (appendCstr bufSize c s).pos < bufSize := by
  cases s with
  | none => exact h
  | some s => exact appendData_pos_lt h s.bytes

theorem appendPrinted_pos_lt (h : c.pos < bufSize) (text : List Byte) :
    (appendPrinted bufSize c text).pos < bufSize := by
  rw [appendPrinted]
  simp only
  split
  · exact appendData_pos_lt h _
  · exact h

theorem appendTagList_pos_lt (tags : List (LogTag L)) :
    ∀ {c : Cursor} (i : Nat), c.pos < bufSize → (appendTagList bufSize i tags c).pos < bufSize := by
  induction tags with
  | nil => exact fun _ h => h
  | cons tag tags ih =>
    intro c i h
    have hsep : (if 0 < i then appendData bufSize c (ascii "|") else c).pos < bufSize := by
      split
      · exact appendData_pos_lt h _
      · exact h
    exact ih (i + 1) (appendData_pos_lt (appendData_pos_lt (appendData_pos_lt hsep _) _) _)

/-- One operation stays in front of the last byte. -/
theorem appendOp_pos_lt (h : c.pos < bufSize) (localtime : LocalTime) (enableColor : Bool) (entry : LogEntry L)
    (op : FormatOp) : (appendOp localtime enableColor entry bufSize c op).pos < bufSize := by
  cases op with
  | literal text => exact appendData_pos_lt h text
  | field type =>
    cases type with
    | date => exact appendData_pos_lt h _
    | levelFull => exact appendData_pos_lt h _
    | levelShort => exact appendData_pos_lt h _
    | threadName => exact appendData_pos_lt h _
    | message => exact appendData_pos_lt h _
    | fileName => exact appendCstr_pos_lt h _
    | filePath => exact appendCstr_pos_lt h _
    | funcName => exact appendCstr_pos_lt h _
    | prettyFunc => exact appendCstr_pos_lt h _
    | tags =>
      rw [appendOp]
      split
      · exact appendData_pos_lt (appendTagList_pos_lt _ 0 (appendData_pos_lt h _)) _
      · exact h
    | colorStart =>
      rw [appendOp]
      split
      · exact appendData_pos_lt h _
      · exact h
    | colorReset =>
      rw [appendOp]
      split
      · exact appendData_pos_lt h _
      · exact h
    | time => exact appendPrinted_pos_lt h _
    | microseconds => exact appendPrinted_pos_lt h _
    | line => exact appendPrinted_pos_lt h _
    | threadId => exact appendPrinted_pos_lt h _
    | processId => exact appendPrinted_pos_lt h _
    | sequenceId => exact appendPrinted_pos_lt h _

end

namespace PatternFormatter

theorem format_length_lt (localtime : LocalTime) (f : PatternFormatter) (entry : LogEntry L) (buf : Region)
    {bufSize : Nat} (h : 0 < bufSize) : (f.format localtime entry buf bufSize).2 < bufSize := by
  have hops : ∀ (ops : List FormatOp) (c : Cursor), c.pos < bufSize →
      (ops.foldl (appendOp localtime f.enableColor entry bufSize) c).pos < bufSize := by
    intro ops
    induction ops with
    | nil => exact fun _ hc => hc
    | cons op ops ih => exact fun c hc => ih _ (appendOp_pos_lt hc localtime f.enableColor entry op)
  rw [format, if_neg (Nat.ne_of_gt h)]
  exact hops f.ops _ h

/-- The formatter a sink holds. -/
def toIFormatter (L : Limits) (localtime : LocalTime) (f : PatternFormatter) : IFormatter L where
  format := f.format localtime
  length_le entry buf _ h := Nat.le_of_lt (f.format_length_lt localtime entry buf h)

end PatternFormatter

end BrLogger
