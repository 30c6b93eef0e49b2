import BrLogger.Formatter.JsonOutput

/-!
# `JsonFormatter` in its buffer

`Format` once more, run on a machine that watches: a difference of two sizes
that would wrap, or a store at `buf_size` or behind it, stops it
(`formatChecked`).  Every helper tests the space before it subtracts, and stores
no more than the difference it got, so whatever the position one call of a
helper is never stopped (`checked_eq`).  `Format` is a sequence of such calls
(`appends_eq_calls`), so it is never stopped either.
-/

namespace BrLogger

open BoundedText (escape fit)

variable {L : Limits}

/-! ### The checked machine -/

/-- A difference of two `size_t` that may not wrap. -/
def checkedSub (a b : Nat) : Option Nat := if b ≤ a then some (a - b) else none

theorem checkedSub_eq {a b : Nat} (h : b ≤ a) : checkedSub a b = some (sizeSub a b) := by
  rw [checkedSub, if_pos h, sizeSub_of_le h]

/-- `safe_append`. -/
def safeAppendChecked (bufSize : Nat) (c : Cursor) (src : List Byte) : Option Cursor := do
  let last ← checkedSub bufSize 1
  if last ≤ c.pos then return c
  let avail ← checkedSub last c.pos
  let n := if src.length < avail then src.length else avail
  let buf ← c.buf.checkedBlit bufSize c.pos (src.take n)
  return ⟨buf, c.pos + n⟩

/-- The loop of `EscapeJsonString`, in a buffer of `limit` bytes. -/
def escapeLoopChecked (limit base dstSize : Nat) : Region → List Byte → Nat → Option (Region × Nat)
  | dst, [], pos => some (dst, pos)
  | dst, c :: src, pos =>
    if dstSize ≤ pos then some (dst, pos)
    else if dstSize < pos + (escapeUnit c).length then some (dst, pos)
    else do
      let dst ← dst.checkedBlit limit (base + pos) (escapeUnit c)
      escapeLoopChecked limit base dstSize dst src (pos + (escapeUnit c).length)

def escapeJsonStringChecked (limit : Nat) (src : List Byte) (buf : Region) (base dstSize : Nat) :
    Option (Region × Nat) :=
  if dstSize = 0 then some (buf, 0) else escapeLoopChecked limit base dstSize buf src 0

/-- `append_escaped`. -/
def appendEscapedChecked (bufSize : Nat) (c : Cursor) (src : List Byte) : Option Cursor := do
  let last ← checkedSub bufSize 1
  if last ≤ c.pos then return c
  let avail ← checkedSub last c.pos
  let (buf, n) ← escapeJsonStringChecked bufSize src c.buf c.pos avail
  return ⟨buf, c.pos + if avail < n then avail else n⟩

/-! ### One call is never stopped -/

section
variable {bufSize : Nat}

/-- The space a helper finds lies in its buffer. -/
theorem add_avail_le (hB : 0 < bufSize) {pos : Nat} (hroom : pos ≤ sizeSub bufSize 1) :
    pos + sizeSub (sizeSub bufSize 1) pos ≤ bufSize := by
  rw [sizeSub_of_le hroom]
  rw [sizeSub_one hB] at hroom ⊢
  omega

theorem safeAppendChecked_eq (hB : 0 < bufSize) (c : Cursor) (src : List Byte) :
    safeAppendChecked bufSize c src = some (safeAppend bufSize c src) := by
  rw [safeAppendChecked, safeAppend, checkedSub_eq hB]
  simp only [Option.bind_eq_bind, Option.bind_some]
  by_cases hfull : sizeSub bufSize 1 ≤ c.pos
  · rw [if_pos hfull, if_pos hfull]
    rfl
  · have hroom := Nat.le_of_not_le hfull
    have hlimit := add_avail_le hB hroom
    rw [if_neg hfull, if_neg hfull, checkedSub_eq hroom]
    simp only [Option.bind_some]
    rw [Region.checkedBlit_eq]
    · rfl
    · rw [List.length_take]
      split <;> omega

theorem escapeLoopChecked_eq {limit base dstSize : Nat} (hlimit : base + dstSize ≤ limit) (dst : Region)
    (src : List Byte) (pos : Nat) :
    escapeLoopChecked limit base dstSize dst src pos = some (escapeLoop base dstSize dst src pos) := by
  induction src generalizing dst pos with
  | nil => rfl
  | cons c src ih =>
    rw [escapeLoopChecked, escapeLoop]
    split
    · rfl
    split
    · rfl
    · rename_i hroom
      rw [Region.checkedBlit_eq _ (by omega)]
      exact ih _ _

theorem appendEscapedChecked_eq (hB : 0 < bufSize) (c : Cursor) (src : List Byte) :
    appendEscapedChecked bufSize c src = some (appendEscaped bufSize c src) := by
  rw [appendEscapedChecked, appendEscaped, checkedSub_eq hB]
  simp only [Option.bind_eq_bind, Option.bind_some]
  by_cases hfull : sizeSub bufSize 1 ≤ c.pos
  · rw [if_pos hfull, if_pos hfull]
    rfl
  · have hroom := Nat.le_of_not_le hfull
    have hlimit := add_avail_le hB hroom
    rw [if_neg hfull, if_neg hfull, checkedSub_eq hroom]
    simp only [Option.bind_some]
    rw [escapeJsonStringChecked, escapeJsonString]
    split
    · rfl
    · rw [escapeLoopChecked_eq hlimit]
      rfl

end

/-! ### `Format` as a sequence of calls -/

/-- A call of `safe_append` or of `append_escaped`. -/
inductive AppendCall
  | safe (src : List Byte)
  | escaped (src : List Byte)

def AppendCall.run (bufSize : Nat) (c : Cursor) : AppendCall → Cursor
  | safe src => safeAppend bufSize c src
  | escaped src => appendEscaped bufSize c src

theorem AppendCall.run_safe (bufSize : Nat) (c : Cursor) (src : List Byte) :
    AppendCall.run bufSize c (safe src) = safeAppend bufSize c src := rfl

theorem AppendCall.run_escaped (bufSize : Nat) (c : Cursor) (src : List Byte) :
    AppendCall.run bufSize c (escaped src) = appendEscaped bufSize c src := rfl

def AppendCall.checked (bufSize : Nat) (c : Cursor) : AppendCall → Option Cursor
  | safe src => safeAppendChecked bufSize c src
  | escaped src => appendEscapedChecked bufSize c src

/-- **A call that is watched is not stopped**, wherever the position is. -/
theorem AppendCall.checked_eq {bufSize : Nat} (hB : 0 < bufSize) (c : Cursor) (call : AppendCall) :
    call.checked bufSize c = some (call.run bufSize c) := by
  cases call with
  | safe src => exact safeAppendChecked_eq hB c src
  | escaped src => exact appendEscapedChecked_eq hB c src

theorem foldlM_checked_eq {bufSize : Nat} (hB : 0 < bufSize) (calls : List AppendCall) (c : Cursor) :
    calls.foldlM (AppendCall.checked bufSize) c = some (calls.foldl (AppendCall.run bufSize) c) := by
  induction calls generalizing c with
  | nil => rfl
  | cons call calls ih =>
    rw [List.foldlM_cons, AppendCall.checked_eq hB, List.foldl_cons]
    exact ih _

namespace JsonFormatter

/-- `n = snprintf(tmp, ...); if (n > 0) safe_append(tmp, n);` -/
def numberCalls (value : Nat) : List AppendCall :=
  let (tmp, n) := Region.zero.snprintf 128 (decimal value)
  if 0 < n then [.safe (tmp.bytes n.toNat)] else []

def timestampCalls (localtime : LocalTime) (wallNs : UInt64) : List AppendCall :=
  let (tmp, tsLen) := formatTimestamp localtime wallNs Region.zero 128
  [.safe (tmp.bytes tsLen)]

def stringCalls : Option CStr → List AppendCall
  | some s => [.escaped s.bytes]
  | none => []

/-- Calls between two quotes. -/
def quotedCalls (calls : List AppendCall) : List AppendCall := .safe (ascii "\"") :: (calls ++ [.safe (ascii "\"")])

def tagCalls (sep : List Byte) : Nat → List (LogTag L) → List AppendCall
  | _, [] => []
  | t, tag :: tags =>
    (if 0 < t then [.safe (ascii ",")] else []) ++ quotedCalls [.escaped tag.key.cstr] ++ [.safe sep] ++
      quotedCalls [.escaped tag.value.cstr] ++ tagCalls sep (t + 1) tags

/-- The indented name of a member and the calls for its value. -/
def memberCalls (pretty : Bool) (name : List Byte) (value : List AppendCall) : List AppendCall :=
  .safe (ind pretty) :: .safe name :: .safe (sep pretty) :: value

/-- The calls of `Format`, in order, by the members they write. -/
def memberGroups (localtime : LocalTime) (pretty : Bool) (entry : LogEntry L) : List (List AppendCall) :=
  [memberCalls pretty (ascii "\"ts\"") (quotedCalls (timestampCalls localtime entry.wallClockNs)),
    memberCalls pretty (ascii "\"level\"") (quotedCalls [.safe entry.level.toString]),
    memberCalls pretty (ascii "\"file\"") (quotedCalls (stringCalls entry.fileName)),
    memberCalls pretty (ascii "\"line\"") (numberCalls entry.line.toNat),
    memberCalls pretty (ascii "\"func\"") (quotedCalls (stringCalls entry.functionName)),
    memberCalls pretty (ascii "\"tid\"") (numberCalls entry.threadId.toNat),
    memberCalls pretty (ascii "\"pid\"") (numberCalls entry.processId.toNat),
    memberCalls pretty (ascii "\"thread\"") (quotedCalls [.escaped entry.threadName.cstr]),
    memberCalls pretty (ascii "\"seq\"") (numberCalls entry.sequenceId.toNat),
    memberCalls pretty (ascii "\"tags\"")
      (.safe (ascii "\x7b") :: (tagCalls (sep pretty) 0 entry.usedTags ++ [.safe (ascii "\x7d")])),
    memberCalls pretty (ascii "\"msg\"") (quotedCalls [.escaped entry.message])]

/-- The groups with a comma between them, in braces. -/
def calls (localtime : LocalTime) (pretty : Bool) (entry : LogEntry L) : List AppendCall :=
  .safe (ascii "\x7b") :: .safe (nl pretty) ::
    ([.safe (comma pretty)].intercalate (memberGroups localtime pretty entry) ++
      [.safe (nl pretty), .safe (ascii "\x7d")])

section
variable (bufSize : Nat) (c : Cursor)

theorem foldl_numberCalls (value : Nat) :
    (numberCalls value).foldl (AppendCall.run bufSize) c = appendNumber bufSize c value := by
  rw [numberCalls, appendNumber]
  simp only
  split <;> rfl

theorem foldl_stringCalls (s : Option CStr) :
    (stringCalls s).foldl (AppendCall.run bufSize) c = appendEscapedStr bufSize c s := by
  cases s <;> rfl

theorem foldl_timestampCalls (localtime : LocalTime) (wallNs : UInt64) :
    (timestampCalls localtime wallNs).foldl (AppendCall.run bufSize) c =
      appendTimestamp bufSize c localtime wallNs := rfl

theorem foldl_tagCalls (sep : List Byte) (tags : List (LogTag L)) (t : Nat) :
    (tagCalls sep t tags).foldl (AppendCall.run bufSize) c = appendTags bufSize sep t tags c := by
  induction tags generalizing t c with
  | nil => rfl
  | cons tag tags ih =>
    rw [tagCalls, List.foldl_append, ih, appendTags]
    split <;> rfl

/-- **`Format` makes these calls.** -/
theorem appends_eq_calls (localtime : LocalTime) (pretty : Bool) (entry : LogEntry L) :
    (calls localtime pretty entry).foldl (AppendCall.run bufSize) c =
      appends localtime pretty entry bufSize c := by
  simp only [calls, memberGroups, List.intercalate_cons_cons, List.intercalate_singleton, memberCalls, quotedCalls,
    List.foldl_append, List.foldl_cons, List.foldl_nil, foldl_numberCalls, foldl_stringCalls, foldl_timestampCalls,
    foldl_tagCalls, AppendCall.run_safe, AppendCall.run_escaped]
  rfl

end

/-- `Format` on the checked machine. -/
def formatChecked (localtime : LocalTime) (pretty : Bool) (entry : LogEntry L) (buf : Region) (bufSize : Nat) :
    Option (Region × Nat) :=
  if bufSize = 0 then some (buf, 0)
  else do
    let c ← (calls localtime pretty entry).foldlM (AppendCall.checked bufSize) ⟨buf, 0⟩
    let buf ← c.buf.checkedBlit bufSize c.pos [0]
    return (buf, c.pos)

/-- **`Format` stays inside its buffer**: no difference wraps and no store is made at
`buf_size` or behind, the length returned leaves room for the NUL, and the NUL is
there. -/
theorem format_inside (localtime : LocalTime) (pretty : Bool) (entry : LogEntry L) (buf : Region) {bufSize : Nat}
    (hB : 1 ≤ bufSize) :
    formatChecked localtime pretty entry buf bufSize = some (format localtime pretty entry buf bufSize) ∧
      (∀ j, bufSize ≤ j → (format localtime pretty entry buf bufSize).1.byte j = buf.byte j) ∧
      (format localtime pretty entry buf bufSize).1.extent ≤ max buf.extent bufSize ∧
      (format localtime pretty entry buf bufSize).2 ≤ bufSize - 1 ∧
      (format localtime pretty entry buf bufSize).1.byte (format localtime pretty entry buf bufSize).2 = 0 := by
  have hlen := format_length_lt localtime pretty entry buf hB
  refine ⟨?_, ?_, (renders localtime pretty).extent entry buf bufSize hB, Nat.le_sub_one_of_lt hlen, ?_⟩
  · rw [formatChecked, format, if_neg (Nat.ne_of_gt hB), if_neg (Nat.ne_of_gt hB)]
    simp only [foldlM_checked_eq hB, appends_eq_calls, Option.bind_eq_bind, Option.bind_some]
    rw [Region.checkedBlit_eq]
    · rfl
    · rw [format, if_neg (Nat.ne_of_gt hB)] at hlen
      exact hlen
  · intro j hj
    rw [format, if_neg (Nat.ne_of_gt hB)] at hlen ⊢
    simp only [appends_eq hB, written_pos] at hlen ⊢
    rw [Region.store, Region.blit_byte_of_ge (by simp only [List.length_singleton]; omega)]
    exact Region.blit_byte_of_ge (by rw [Nat.zero_add]; omega)
  · rw [format, if_neg (Nat.ne_of_gt hB)]
    exact Region.store_byte_self 0

/-- The buffer ends where a tag's value is to be escaped: the escape is left out, and what
comes behind it is cut. -/
theorem format_inside_hostileEntry :
    formatChecked epoch false hostileEntry Region.zero 142 = some (format epoch false hostileEntry Region.zero 142) ∧
      (output epoch false hostileEntry Region.zero 142).drop 125 = ascii "\"tags\":\x7b\"a\":\"\"\x7d," ∧
      (format epoch false hostileEntry Region.zero 142).1.byte (format epoch false hostileEntry Region.zero 142).2 = 0 ∧
      ∀ j, 142 ≤ j → (format epoch false hostileEntry Region.zero 142).1.byte j = 0 := by
  obtain ⟨hchecked, houtside, -, -, hnul⟩ := format_inside epoch false hostileEntry Region.zero (show 1 ≤ 142 by decide)
  exact ⟨hchecked, by decide +kernel, hnul, houtside⟩

end JsonFormatter

end BrLogger
