import BrLogger.Lib.CString
import Mathlib.Algebra.Ring.Nat

/-!
# Memory behind a pointer

A `Region` is what lies at and behind a `char*`: a byte at every offset, and
the `extent` of the stores made so far, one past the highest offset written.
Stores are not checked against a bound, so that a program that writes past its
buffer is a program whose region has too large an extent.
-/

structure Region where
  byte : Nat → Byte
  extent : Nat

namespace Region

variable {r : Region} {pos n : Nat} {src : List Byte}

/-- Memory with nothing stored yet. -/
def fresh (byte : Nat → Byte) : Region := ⟨byte, 0⟩

/-- A zero-initialised buffer. -/
def zero : Region := fresh fun _ => 0

/-- `memcpy(p + pos, src, src.size())`. -/
def blit (r : Region) (pos : Nat) (src : List Byte) : Region where
  byte j := if pos ≤ j then (src[j - pos]?).getD (r.byte j) else r.byte j
  extent := if src = [] then r.extent else max r.extent (pos + src.length)

/-- `p[pos] = b`. -/
def store (r : Region) (pos : Nat) (b : Byte) : Region := r.blit pos [b]

theorem ext {r r' : Region} (hbyte : r.byte = r'.byte) (hextent : r.extent = r'.extent) : r = r' := by
  cases r
  cases r'
  subst hbyte
  subst hextent
  rfl

/-- The first `n` bytes. -/
def bytes (r : Region) (n : Nat) : List Byte := (List.range n).map r.byte

/-- The region read back as the array it started as. -/
def toCharArray (r : Region) (n : Nat) : CharArray n := ⟨r.bytes n, by simp [bytes]⟩

@[simp] theorem blit_nil (r : Region) (pos : Nat) : r.blit pos [] = r := by
  cases r
  simp [blit]

@[simp] theorem length_bytes (r : Region) (n : Nat) : (r.bytes n).length = n := by simp [bytes]

theorem getElem?_bytes {j : Nat} (h : j < n) : (r.bytes n)[j]? = some (r.byte j) := by
  simp [bytes, h]

theorem blit_byte_of_lt {j : Nat} (h : j < pos) : (r.blit pos src).byte j = r.byte j :=
  if_neg (by omega)

theorem blit_byte_of_ge {j : Nat} (h : pos + src.length ≤ j) : (r.blit pos src).byte j = r.byte j := by
  simp only [blit]
  rw [List.getElem?_eq_none (show src.length ≤ j - pos by omega)]
  exact ite_self _

theorem blit_byte_inside (r : Region) (pos : Nat) {j : Nat} {b : Byte} (h : src[j]? = some b) :
    (r.blit pos src).byte (pos + j) = b := by
  simp [blit, h]

@[simp] theorem store_byte_self (b : Byte) : (r.store pos b).byte pos = b := by
  simp [store, blit]

theorem bytes_take {m : Nat} (h : m ≤ n) : (r.bytes n).take m = r.bytes m := by
  rw [bytes, ← List.map_take, List.take_range, Nat.min_eq_left h, bytes]

/-- A copy keeps what lies before it. -/
theorem bytes_blit_of_le (h : n ≤ pos) : (r.blit pos src).bytes n = r.bytes n := by
  apply List.map_congr_left
  intro j hj
  exact blit_byte_of_lt (Nat.lt_of_lt_of_le (List.mem_range.mp hj) h)

/-- **A copy at the end of a prefix appends its source to it.** -/
theorem bytes_blit (r : Region) (pos : Nat) (src : List Byte) :
    (r.blit pos src).bytes (pos + src.length) = r.bytes pos ++ src := by
  apply List.ext_getElem?
  intro j
  by_cases hj : j < pos
  · rw [getElem?_bytes (by omega), blit_byte_of_lt hj, List.getElem?_append_left (by simpa using hj),
      getElem?_bytes hj]
  · rw [List.getElem?_append_right (by simpa using hj), length_bytes]
    obtain ⟨i, rfl⟩ := Nat.exists_eq_add_of_le (Nat.le_of_not_lt hj)
    rw [Nat.add_sub_cancel_left]
    cases hb : src[i]? with
    | some b =>
      have hi := (List.getElem?_eq_some_iff.mp hb).1
      rw [getElem?_bytes (by omega), r.blit_byte_inside pos hb]
    | none =>
      rw [List.getElem?_eq_none_iff, length_bytes]
      have := List.getElem?_eq_none_iff.mp hb
      omega

/-- What was copied to the front is read back. -/
theorem bytes_blit_left (r : Region) (s t : List Byte) : (r.blit 0 (s ++ t)).bytes s.length = s := by
  have hread := congrArg (List.take s.length) (r.bytes_blit 0 (s ++ t))
  rwa [Nat.zero_add, bytes_take (by simp), show r.bytes 0 = [] from rfl, List.nil_append, List.take_left] at hread

/-- Copies one behind the other are one copy. -/
theorem blit_blit (r : Region) (pos : Nat) (s t : List Byte) :
    (r.blit pos s).blit (pos + s.length) t = r.blit pos (s ++ t) := by
  have hbyte : ((r.blit pos s).blit (pos + s.length) t).byte = (r.blit pos (s ++ t)).byte := by
    funext j
    simp only [blit]
    by_cases hs : pos + s.length ≤ j
    · rw [if_pos hs, if_pos (by omega), if_pos (by omega), List.getElem?_append_right (by omega),
        List.getElem?_eq_none (show s.length ≤ j - pos by omega), show j - (pos + s.length) = j - pos - s.length by omega]
      rfl
    · rw [if_neg hs]
      split
      · rw [List.getElem?_append_left (by omega)]
      · rfl
  have hextent : ((r.blit pos s).blit (pos + s.length) t).extent = (r.blit pos (s ++ t)).extent := by
    simp only [blit, List.append_eq_nil_iff, List.length_append]
    by_cases hs : s = [] <;> by_cases ht : t = [] <;> simp [hs, ht]
    omega
  exact ext hbyte hextent

/-- A copy over a shorter one leaves nothing of it. -/
theorem blit_over (r : Region) (pos : Nat) {s t : List Byte} (h : s.length ≤ t.length) :
    (r.blit pos s).blit pos t = r.blit pos t := by
  apply ext
  · funext j
    simp only [blit]
    by_cases hj : pos ≤ j
    · simp only [if_pos hj]
      by_cases ht : j - pos < t.length
      · rw [List.getElem?_eq_getElem ht]
        rfl
      · rw [List.getElem?_eq_none (Nat.le_of_not_lt ht), List.getElem?_eq_none (show s.length ≤ j - pos by omega)]
        rfl
    · simp only [if_neg hj]
  · simp only [blit]
    by_cases ht : t = []
    · rw [ht, List.length_nil, Nat.le_zero, List.length_eq_zero_iff] at h
      rw [if_pos ht, if_pos ht, if_pos h]
    · rw [if_neg ht, if_neg ht]
      split <;> omega

theorem extent_blit_le {m : Nat} (hr : r.extent ≤ m) (h : pos + src.length ≤ m) :
    (r.blit pos src).extent ≤ m := by
  rw [blit]
  split
  · exact hr
  · exact Nat.max_le.mpr ⟨hr, h⟩

theorem extent_store_le {m : Nat} {b : Byte} (hr : r.extent ≤ m) (h : pos < m) :
    (r.store pos b).extent ≤ m := extent_blit_le hr h

/-- A copy that may not reach `limit`. -/
def checkedBlit (limit : Nat) (r : Region) (pos : Nat) (src : List Byte) : Option Region :=
  if src = [] ∨ pos + src.length ≤ limit then some (r.blit pos src) else none

theorem checkedBlit_eq {limit : Nat} (r : Region) (h : pos + src.length ≤ limit) :
    r.checkedBlit limit pos src = some (r.blit pos src) := if_pos (Or.inr h)

/-! ### Library functions that write -/

/-- `snprintf(p, size, ...)` for a call that renders `text`: `size - 1` bytes of it
at most and a NUL.  The result is the length of the whole text, and negative when that
is no `int`. -/
def snprintf (r : Region) (size : Nat) (text : List Byte) : Region × Int :=
  (if size = 0 then r else r.blit 0 (text.take (size - 1) ++ [0]), if text.length < 2 ^ 31 then text.length else -1)

theorem snprintf_result (r : Region) (size : Nat) {text : List Byte} (h : text.length < 2 ^ 31) :
    (r.snprintf size text).2 = text.length := if_pos h

/-- A text shorter than the buffer can be read back. -/
theorem bytes_snprintf (r : Region) {size : Nat} {text : List Byte} (h : text.length < size) :
    (r.snprintf size text).1.bytes text.length = text := by
  rw [snprintf, if_neg (by omega), List.take_of_length_le (by omega)]
  exact r.bytes_blit_left text [0]

end Region
