import BrLogger.Formatter.Interface
import BrLogger.Formatter.Timestamp
import BrLogger.Lib.BoundedText

/-!
# `JsonFormatter`

`json_formatter.cpp`.  `Format` writes a record by some sixty calls of two
helpers: `safe_append` cuts what it is given at the end of the buffer, and
`append_escaped` leaves a string off before the first escape that does not fit.
`size_t` differences wrap (`sizeSub`), so that a subtraction below zero would
show.

The calls are those of the source, in its order, with the source's guards;
`Cursor` is the buffer together with the local variable `pos`.

Each call puts one piece of text into the `buf_size - 1` bytes before the NUL
(`safeAppend_eq`, `appendEscaped_eq`), so a call of `Format` is a text
assembled there (`BoundedText`).
-/

namespace BrLogger

/-- `safe_append`, and `safe_append_str` on a literal, for the bytes `src`. -/
def safeAppend (bufSize : Nat) (c : Cursor) (src : List Byte) : Cursor :=
  if sizeSub bufSize 1 ≤ c.pos then c
  else
    let avail := sizeSub (sizeSub bufSize 1) c.pos
    let n := if src.length < avail then src.length else avail
    ⟨c.buf.blit c.pos (src.take n), c.pos + n⟩

/-- `hex_digits[n]`. -/
def hexDigit (n : Nat) : Byte := (ascii "0123456789ABCDEF").getD n 0

/-- What one turn of the `switch` writes for the byte `c`. -/
def escapeUnit (c : Byte) : List Byte :=
  if c = 34 then [92, 34]
  else if c = 92 then [92, 92]
  else if c = 10 then ascii "\\n"
  else if c = 13 then ascii "\\r"
  else if c = 9 then ascii "\\t"
  else if c ≤ 0x1F then
    ascii "\\u" ++ [hexDigit (c.toNat >>> 12 &&& 0x0F), hexDigit (c.toNat >>> 8 &&& 0x0F),
      hexDigit (c.toNat >>> 4 &&& 0x0F), hexDigit (c.toNat &&& 0x0F)]
  else [c]

/-- The loop of `EscapeJsonString` at `dst = buf + base`. -/
def escapeLoop (base dstSize : Nat) : Region → List Byte → Nat → Region × Nat
  | dst, [], pos => (dst, pos)
  | dst, c :: src, pos =>
    if dstSize ≤ pos then (dst, pos)
    else if dstSize < pos + (escapeUnit c).length then (dst, pos)
    else escapeLoop base dstSize (dst.blit (base + pos) (escapeUnit c)) src (pos + (escapeUnit c).length)

/-- `EscapeJsonString(src, src_len, buf + base, dst_size)`. -/
def escapeJsonString (src : List Byte) (buf : Region) (base dstSize : Nat) : Region × Nat :=
  if dstSize = 0 then (buf, 0) else escapeLoop base dstSize buf src 0

/-- The local function `append_escaped`. -/
def appendEscaped (bufSize : Nat) (c : Cursor) (src : List Byte) : Cursor :=
  if sizeSub bufSize 1 ≤ c.pos then c
  else
    let avail := sizeSub (sizeSub bufSize 1) c.pos
    let (buf, n) := escapeJsonString src c.buf c.pos avail
    ⟨buf, c.pos + if avail < n then avail else n⟩

/-- `if (s) append_escaped(s, strlen(s));` -/
def appendEscapedStr (bufSize : Nat) (c : Cursor) : Option CStr → Cursor
  | some s => appendEscaped bufSize c s.bytes
  | none => c

/-- `n = snprintf(tmp, sizeof(tmp), "%u", value); if (n > 0) safe_append(tmp, n);`
What `tmp` held before is not read. -/
def appendNumber (bufSize : Nat) (c : Cursor) (value : Nat) : Cursor :=
  let (tmp, n) := Region.zero.snprintf 128 (decimal value)
  if 0 < n then safeAppend bufSize c (tmp.bytes n.toNat) else c

/-- `ts_len = format_timestamp(wall_ns, tmp, sizeof(tmp)); safe_append(tmp, ts_len);` -/
def appendTimestamp (bufSize : Nat) (c : Cursor) (localtime : LocalTime) (wallNs : UInt64) : Cursor :=
  let (tmp, tsLen) := formatTimestamp localtime wallNs Region.zero 128
  safeAppend bufSize c (tmp.bytes tsLen)

variable {L : Limits}

/-- The loop over the tags from index `t` on. -/
def appendTags (bufSize : Nat) (sep : List Byte) : Nat → List (LogTag L) → Cursor → Cursor
  | _, [], c => c
  | t, tag :: tags, c =>
    let c := if 0 < t then safeAppend bufSize c (ascii ",") else c
    let c := safeAppend bufSize c (ascii "\"")
    let c := appendEscaped bufSize c tag.key.cstr
    let c := safeAppend bufSize c (ascii "\"")
    let c := safeAppend bufSize c sep
    let c := safeAppend bufSize c (ascii "\"")
    let c := appendEscaped bufSize c tag.value.cstr
    let c := safeAppend bufSize c (ascii "\"")
    appendTags bufSize sep (t + 1) tags c

namespace JsonFormatter

def nl (pretty : Bool) : List Byte := if pretty then ascii "\n" else []
def ind (pretty : Bool) : List Byte := if pretty then ascii "  " else []
def sep (pretty : Bool) : List Byte := if pretty then ascii ": " else ascii ":"
def comma (pretty : Bool) : List Byte := if pretty then ascii ",\n" else ascii ","

/-- The appends of `Format`, in order. -/
def appends (localtime : LocalTime) (pretty : Bool) (entry : LogEntry L) (bufSize : Nat) (c : Cursor) : Cursor :=
  let nl := nl pretty
  let ind := ind pretty
  let sep := sep pretty
  let comma := comma pretty
  let c := safeAppend bufSize c (ascii "\x7b")
  let c := safeAppend bufSize c nl
  -- ts
  let c := safeAppend bufSize c ind
  let c := safeAppend bufSize c (ascii "\"ts\"")
  let c := safeAppend bufSize c sep
  let c := safeAppend bufSize c (ascii "\"")
  let c := appendTimestamp bufSize c localtime entry.wallClockNs
  let c := safeAppend bufSize c (ascii "\"")
  let c := safeAppend bufSize c comma
  -- level
  let c := safeAppend bufSize c ind
  let c := safeAppend bufSize c (ascii "\"level\"")
  let c := safeAppend bufSize c sep
  let c := safeAppend bufSize c (ascii "\"")
  let c := safeAppend bufSize c entry.level.toString
  let c := safeAppend bufSize c (ascii "\"")
  let c := safeAppend bufSize c comma
  -- file
  let c := safeAppend bufSize c ind
  let c := safeAppend bufSize c (ascii "\"file\"")
  let c := safeAppend bufSize c sep
  let c := safeAppend bufSize c (ascii "\"")
  let c := appendEscapedStr bufSize c entry.fileName
  let c := safeAppend bufSize c (ascii "\"")
  let c := safeAppend bufSize c comma
  -- line
  let c := safeAppend bufSize c ind
  let c := safeAppend bufSize c (ascii "\"line\"")
  let c := safeAppend bufSize c sep
  let c := appendNumber bufSize c entry.line.toNat
  let c := safeAppend bufSize c comma
  -- func
  let c := safeAppend bufSize c ind
  let c := safeAppend bufSize c (ascii "\"func\"")
  let c := safeAppend bufSize c sep
  let c := safeAppend bufSize c (ascii "\"")
  let c := appendEscapedStr bufSize c entry.functionName
  let c := safeAppend bufSize c (ascii "\"")
  let c := safeAppend bufSize c comma
  -- tid
  let c := safeAppend bufSize c ind
  let c := safeAppend bufSize c (ascii "\"tid\"")
  let c := safeAppend bufSize c sep
  let c := appendNumber bufSize c entry.threadId.toNat
  let c := safeAppend bufSize c comma
  -- pid
  let c := safeAppend bufSize c ind
  let c := safeAppend bufSize c (ascii "\"pid\"")
  let c := safeAppend bufSize c sep
  let c := appendNumber bufSize c entry.processId.toNat
  let c := safeAppend bufSize c comma
  -- thread
  let c := safeAppend bufSize c ind
  let c := safeAppend bufSize c (ascii "\"thread\"")
  let c := safeAppend bufSize c sep
  let c := safeAppend bufSize c (ascii "\"")
  let c := appendEscaped bufSize c entry.threadName.cstr
  let c := safeAppend bufSize c (ascii "\"")
  let c := safeAppend bufSize c comma
  -- seq
  let c := safeAppend bufSize c ind
  let c := safeAppend bufSize c (ascii "\"seq\"")
  let c := safeAppend bufSize c sep
  let c := appendNumber bufSize c entry.sequenceId.toNat
  let c := safeAppend bufSize c comma
  -- tags
  let c := safeAppend bufSize c ind
  let c := safeAppend bufSize c (ascii "\"tags\"")
  let c := safeAppend bufSize c sep
  let c := safeAppend bufSize c (ascii "\x7b")
  let c := appendTags bufSize sep 0 entry.usedTags c
  let c := safeAppend bufSize c (ascii "\x7d")
  let c := safeAppend bufSize c comma
  -- msg
  let c := safeAppend bufSize c ind
  let c := safeAppend bufSize c (ascii "\"msg\"")
  let c := safeAppend bufSize c sep
  let c := safeAppend bufSize c (ascii "\"")
  let c := appendEscaped bufSize c entry.message
  let c := safeAppend bufSize c (ascii "\"")
  let c := safeAppend bufSize c nl
  safeAppend bufSize c (ascii "\x7d")

/-- `JsonFormatter(pretty).Format(entry, buf, buf_size)`: the buffer and the length returned. -/
def format (localtime : LocalTime) (pretty : Bool) (entry : LogEntry L) (buf : Region) (bufSize : Nat) :
    Region × Nat :=
  if bufSize = 0 then (buf, 0)
  else
    let c := appends localtime pretty entry bufSize ⟨buf, 0⟩
    (c.buf.store c.pos 0, c.pos)

/-- The bytes a call returns: the first `n` of the buffer, `n` being its result. -/
def output (localtime : LocalTime) (pretty : Bool) (entry : LogEntry L) (buf : Region) (bufSize : Nat) :
    List Byte :=
  (format localtime pretty entry buf bufSize).1.bytes (format localtime pretty entry buf bufSize).2

end JsonFormatter

/-! ## What the helpers append -/

theorem escapeUnit_length (c : Byte) :
    (escapeUnit c).length = 1 ∨ (escapeUnit c).length = 2 ∨ (escapeUnit c).length = 6 := by
  simp only [escapeUnit]
  repeat' split
  all_goals first
    | exact Or.inl rfl
    | exact Or.inr (Or.inl rfl)
    | exact Or.inr (Or.inr rfl)

open BoundedText (Piece put fit escape assemble)

variable {bufSize : Nat}

theorem safeAppend_write (hB : 0 < bufSize) (c : Cursor) (src : List Byte) :
    safeAppend bufSize c src = c.write (src.take (bufSize - 1 - c.pos)) := by
  rw [safeAppend, sizeSub_one hB]
  split
  · rename_i hfull
    rw [Nat.sub_eq_zero_of_le hfull, List.take_zero, Cursor.write_nil]
  · rename_i hroom
    have hn : (if src.length < bufSize - 1 - c.pos then src.length else bufSize - 1 - c.pos) =
        min (bufSize - 1 - c.pos) src.length := by
      split <;> omega
    simp only [sizeSub_of_le (Nat.le_of_not_le hroom), hn, Cursor.write, List.length_take]
    rw [← List.take_eq_take_min]

/-- **The escaping loop writes the escape of the longest prefix that fits.** -/
theorem escapeLoop_eq (base dstSize : Nat) (dst : Region) (src : List Byte) {pos : Nat} (hpos : pos ≤ dstSize) :
    escapeLoop base dstSize dst src pos =
      (dst.blit (base + pos) (escape escapeUnit (fit escapeUnit (dstSize - pos) src)),
        pos + (escape escapeUnit (fit escapeUnit (dstSize - pos) src)).length) := by
  induction src generalizing dst pos with
  | nil => simp [escapeLoop, fit]
  | cons c src ih =>
    have hunit := escapeUnit_length c
    rw [escapeLoop, fit]
    by_cases hfull : dstSize ≤ pos
    · rw [if_pos hfull, if_neg (by omega)]
      simp
    · by_cases hc : dstSize < pos + (escapeUnit c).length
      · rw [if_neg hfull, if_pos hc, if_neg (by omega)]
        simp
      · rw [if_neg hfull, if_neg hc, if_pos (by omega), ih _ (by omega), BoundedText.escape_cons,
          ← Nat.add_assoc, Region.blit_blit, List.length_append, Nat.sub_add_eq, Nat.add_assoc]

theorem fit_escapeUnit_zero (src : List Byte) : fit escapeUnit 0 src = [] := by
  have hlen := BoundedText.length_fit_le escapeUnit 0 src
  cases hfit : fit escapeUnit 0 src with
  | nil => rfl
  | cons d s =>
    have hunit := escapeUnit_length d
    rw [hfit, BoundedText.escape_cons, List.length_append] at hlen
    omega

theorem escapeJsonString_eq (src : List Byte) (buf : Region) (base dstSize : Nat) :
    escapeJsonString src buf base dstSize =
      (buf.blit base (escape escapeUnit (fit escapeUnit dstSize src)),
        (escape escapeUnit (fit escapeUnit dstSize src)).length) := by
  rw [escapeJsonString]
  split
  · rename_i hzero
    rw [hzero, fit_escapeUnit_zero, BoundedText.escape_nil, Region.blit_nil, List.length_nil]
  · rw [escapeLoop_eq _ _ _ _ (Nat.zero_le _), Nat.add_zero, Nat.sub_zero, Nat.zero_add]

theorem appendEscaped_write (hB : 0 < bufSize) (c : Cursor) (src : List Byte) :
    appendEscaped bufSize c src = c.write (escape escapeUnit (fit escapeUnit (bufSize - 1 - c.pos) src)) := by
  rw [appendEscaped, sizeSub_one hB]
  split
  · rename_i hfull
    rw [Nat.sub_eq_zero_of_le hfull, fit_escapeUnit_zero, BoundedText.escape_nil, Cursor.write_nil]
  · rename_i hroom
    have hlen := BoundedText.length_fit_le escapeUnit (bufSize - 1 - c.pos) src
    simp only [sizeSub_of_le (Nat.le_of_not_le hroom), escapeJsonString_eq]
    rw [if_neg (by omega), Cursor.write]

/-- What `Format` has in its buffer once it has appended the text `out`. -/
def written (buf : Region) (out : List Byte) : Cursor := Cursor.write ⟨buf, 0⟩ out

variable {buf : Region} {out : List Byte}

theorem written_pos : (written buf out).pos = out.length := Nat.zero_add _

/-- **`safe_append` puts a raw piece.** -/
theorem safeAppend_eq (hB : 0 < bufSize) (src : List Byte) :
    safeAppend bufSize (written buf out) src = written buf (put escapeUnit (bufSize - 1) out (.raw src)) := by
  rw [safeAppend_write hB, written_pos, written, Cursor.write_write]
  rfl

/-- **`append_escaped` puts an escaped piece.** -/
theorem appendEscaped_eq (hB : 0 < bufSize) (src : List Byte) :
    appendEscaped bufSize (written buf out) src =
      written buf (put escapeUnit (bufSize - 1) out (.escaped src)) := by
  rw [appendEscaped_write hB, written_pos, written, Cursor.write_write]
  rfl

theorem appendEscapedStr_eq (hB : 0 < bufSize) (s : Option CStr) :
    appendEscapedStr bufSize (written buf out) s =
      written buf (put escapeUnit (bufSize - 1) out (.escaped (s.elim [] CStr.bytes))) := by
  cases s with
  | none =>
    rw [appendEscapedStr, Option.elim_none, put, fit, BoundedText.escape_nil, List.append_nil]
  | some s => exact appendEscaped_eq hB s.bytes

theorem appendNumber_eq (hB : 0 < bufSize) {value : Nat} (hvalue : value < 10 ^ 20) :
    appendNumber bufSize (written buf out) value =
      written buf (put escapeUnit (bufSize - 1) out (.raw (decimal value))) := by
  have hlen := length_decimal_le (by decide) hvalue
  have hpos := List.length_pos_iff.mpr (decimal_ne_nil value)
  have hn := Region.zero.snprintf_result 128 (show (decimal value).length < 2 ^ 31 by omega)
  have hread := Region.zero.bytes_snprintf (show (decimal value).length < 128 by omega)
  rw [appendNumber]
  simp only [hn, Int.toNat_natCast, hread]
  rw [if_pos (by omega), safeAppend_eq hB]

theorem appendTimestamp_eq (hB : 0 < bufSize) (localtime : LocalTime) (wallNs : UInt64) :
    appendTimestamp bufSize (written buf out) localtime wallNs =
      written buf (put escapeUnit (bufSize - 1) out (.raw (wallText localtime wallNs))) := by
  have hread := formatTimestamp_text localtime wallNs Region.zero
  rw [appendTimestamp]
  simp only [hread, safeAppend_eq hB]

/-- The pieces of the tags from index `t` on. -/
def tagPieces (sep : List Byte) : Nat → List (List Byte × List Byte) → List Piece
  | _, [] => []
  | t, tag :: tags =>
    .raw ((if 0 < t then ascii "," else []) ++ ascii "\"") :: .escaped tag.1 ::
      .raw (ascii "\"" ++ sep ++ ascii "\"") :: .escaped tag.2 :: .raw (ascii "\"") ::
      tagPieces sep (t + 1) tags

theorem appendTags_eq (hB : 0 < bufSize) (sep : List Byte) (tags : List (LogTag L)) (t : Nat) :
    appendTags bufSize sep t tags (written buf out) =
      written buf (assemble escapeUnit (bufSize - 1) out
        (tagPieces sep t (tags.map fun tag => (tag.key.cstr, tag.value.cstr)))) := by
  induction tags generalizing t out with
  | nil => rfl
  | cons tag tags ih =>
    have hcomma : (if 0 < t then safeAppend bufSize (written buf out) (ascii ",") else written buf out) =
        written buf (put escapeUnit (bufSize - 1) out (.raw (if 0 < t then ascii "," else []))) := by
      split
      · exact safeAppend_eq hB _
      · rw [put, List.take_nil, List.append_nil]
    rw [appendTags]
    simp only [hcomma]
    simp only [safeAppend_eq hB, appendEscaped_eq hB, BoundedText.put_raw_raw]
    rw [ih]
    rfl

end BrLogger
