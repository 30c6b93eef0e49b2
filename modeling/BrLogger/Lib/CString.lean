import Mathlib.Data.List.TakeWhile
import Mathlib.Tactic.Common

/-!
# C strings and character arrays

A `CStr` is what a non-null `const char*` points at: bytes up to, and without,
the terminating NUL.  A `CharArray n` is a `char[n]`; the string it holds is
the part before its first NUL (`CharArray.cstr`).  `strncpy` and `strncmp` are
the library functions, on arrays and on byte sequences read up to their NUL.
-/

abbrev Byte := UInt8

/-- The bytes of a string literal. -/
def ascii (s : String) : List Byte := s.toList.map fun c => UInt8.ofNat c.toNat

/-- A NUL-terminated string, without the NUL. -/
structure CStr where
  bytes : List Byte
  noNul : 0 ∉ bytes
  deriving DecidableEq

/-- A `char[n]`. -/
structure CharArray (n : Nat) where
  bytes : List Byte
  length_bytes : bytes.length = n
  deriving DecidableEq

theorem CStr.ext {s t : CStr} (h : s.bytes = t.bytes) : s = t := by
  cases s
  cases t
  subst h
  rfl

theorem CharArray.ext {n : Nat} {a b : CharArray n} (h : a.bytes = b.bytes) : a = b := by
  cases a
  cases b
  subst h
  rfl

/-- The bytes before the first NUL. -/
def upToNul (l : List Byte) : List Byte := l.takeWhile (· ≠ 0)

theorem upToNul_append_zero {s t : List Byte} (hs : 0 ∉ s) : upToNul (s ++ 0 :: t) = s := by
  induction s with
  | nil => rfl
  | cons b s ih =>
    have hb : b ≠ 0 := fun h => hs (by simp [h])
    have hrest := ih (fun h => hs (List.mem_cons_of_mem b h))
    rw [upToNul] at hrest ⊢
    rw [List.cons_append, List.takeWhile_cons_of_pos (by simpa using hb), hrest]

theorem upToNul_of_noNul {s : List Byte} (hs : 0 ∉ s) : upToNul s = s := by
  rw [upToNul, List.takeWhile_eq_self_iff]
  intro b hb
  have hne : b ≠ 0 := by rintro rfl; exact hs hb
  simpa using hne

theorem length_upToNul_lt {l : List Byte} (h : 0 ∈ l) : (upToNul l).length < l.length := by
  induction l with
  | nil => cases h
  | cons b l ih =>
    by_cases hb : b = 0
    · subst hb
      simp [upToNul]
    · have hmem : (0 : Byte) ∈ l := (List.mem_cons.mp h).resolve_left (Ne.symm hb)
      have := ih hmem
      rw [upToNul] at this ⊢
      rw [List.takeWhile_cons_of_pos (by simpa using hb)]
      simp only [List.length_cons]
      omega

/-! ### `strncmp` -/

/-- The difference of the first bytes that differ, among the first `n` and up
to a common NUL; past its end a sequence reads as its NUL. -/
def strncmp : Nat → List Byte → List Byte → Int
  | 0, _, _ => 0
  | n + 1, s, t =>
    if s.headD 0 ≠ t.headD 0 then (s.headD 0).toNat - (t.headD 0).toNat
    else if s.headD 0 = 0 then 0
    else strncmp n s.tail t.tail

theorem upToNul_take_succ (l : List Byte) (n : Nat) :
    (upToNul l).take (n + 1) =
      if l.headD 0 = 0 then [] else l.headD 0 :: (upToNul l.tail).take n := by
  cases l with
  | nil => rfl
  | cons b l =>
    by_cases hb : b = 0
    · subst hb
      simp [upToNul]
    · rw [upToNul, List.takeWhile_cons_of_pos (by simpa using hb)]
      simp [hb, upToNul]

/-- **`strncmp` returns `0` when the strings agree on their first `n` bytes.** -/
theorem strncmp_eq_zero_iff (n : Nat) (s t : List Byte) :
    strncmp n s t = 0 ↔ (upToNul s).take n = (upToNul t).take n := by
  induction n generalizing s t with
  | zero => simp [strncmp]
  | succ n ih =>
    rw [strncmp, upToNul_take_succ, upToNul_take_succ]
    by_cases hne : s.headD 0 = t.headD 0
    · rw [if_neg (fun h => h hne), hne]
      split
      · simp
      · rw [ih]
        simp
    · rw [if_pos hne]
      constructor
      · intro h
        have hnat : (s.headD 0).toNat = (t.headD 0).toNat := by omega
        exact absurd (UInt8.toNat_inj.mp hnat) hne
      · intro h
        split at h <;> split at h
        · exact absurd (by simp_all) hne
        · cases h
        · cases h
        · exact absurd (List.cons.inj h).1 hne

/-! ### Character arrays -/

namespace CharArray

variable {n : Nat}

/-- A zero-initialised array. -/
def zero (n : Nat) : CharArray n := ⟨List.replicate n 0, List.length_replicate⟩

/-- The string an array holds, `n` bytes long when it has no NUL. -/
def cstr (a : CharArray n) : List Byte := upToNul a.bytes

/-- The array holds a NUL, so that `strlen` stays inside it. -/
def Terminated (a : CharArray n) : Prop := 0 ∈ a.bytes

instance (a : CharArray n) : Decidable a.Terminated := by unfold Terminated; infer_instance

theorem length_cstr_le (a : CharArray n) : a.cstr.length ≤ n := by
  have := (List.takeWhile_sublist (fun b : Byte => decide (b ≠ 0)) (l := a.bytes)).length_le
  rwa [a.length_bytes] at this

theorem Terminated.length_cstr_lt {a : CharArray n} (h : a.Terminated) : a.cstr.length < n := by
  have := length_upToNul_lt h
  rwa [a.length_bytes] at this

/-- `strncpy(dst, src, k)`: the first `k` bytes of the string, padded with NULs. -/
def strncpy (dst : CharArray n) (src : CStr) (k : Nat) (hk : k ≤ n) : CharArray n where
  bytes := (src.bytes ++ List.replicate k 0).take k ++ dst.bytes.drop k
  length_bytes := by
    rw [List.length_append, List.length_take, List.length_append, List.length_replicate,
      List.length_drop, dst.length_bytes]
    omega

/-- `dst[i] = '\0'`. -/
def setNul (dst : CharArray n) (i : Nat) : CharArray n where
  bytes := dst.bytes.set i 0
  length_bytes := by rw [List.length_set, dst.length_bytes]

/-- `strncpy(dst, src, n - 1); dst[n - 1] = '\0';` -/
def assign (dst : CharArray n) (src : CStr) : CharArray n :=
  (dst.strncpy src (n - 1) (Nat.sub_le n 1)).setNul (n - 1)

theorem assign_bytes (hn : 0 < n) (dst : CharArray n) (src : CStr) :
    (dst.assign src).bytes =
      src.bytes.take (n - 1) ++ List.replicate (n - (src.bytes.take (n - 1)).length) 0 := by
  have hlen : ((src.bytes ++ List.replicate (n - 1) 0).take (n - 1)).length = n - 1 := by simp
  obtain ⟨last, hlast⟩ : ∃ b, dst.bytes.drop (n - 1) = [b] := by
    rw [← List.length_eq_one_iff, List.length_drop, dst.length_bytes]
    omega
  show ((src.bytes ++ List.replicate (n - 1) 0).take (n - 1) ++ dst.bytes.drop (n - 1)).set (n - 1) 0 = _
  rw [hlast, List.set_append_right _ _ (by omega), hlen, Nat.sub_self, List.set_cons_zero,
    List.take_append, List.append_assoc, List.take_replicate]
  congr 1
  rw [List.length_take, show ([0] : List Byte) = List.replicate 1 0 from rfl,
    List.replicate_append_replicate]
  congr 1
  omega

/-- **The stored string is the longest prefix that fits**, terminated. -/
theorem assign_spec (hn : 0 < n) (dst : CharArray n) (src : CStr) :
    (dst.assign src).cstr = src.bytes.take (n - 1) ∧ (dst.assign src).Terminated := by
  have hbytes := assign_bytes hn dst src
  have hno : (0 : Byte) ∉ src.bytes.take (n - 1) := fun h => src.noNul (List.mem_of_mem_take h)
  obtain ⟨m, hm⟩ : ∃ m, n - (src.bytes.take (n - 1)).length = m + 1 :=
    ⟨n - (src.bytes.take (n - 1)).length - 1, by rw [List.length_take]; omega⟩
  rw [hm, List.replicate_succ] at hbytes
  refine ⟨?_, ?_⟩
  · rw [cstr, hbytes, upToNul_append_zero hno]
  · rw [Terminated, hbytes]
    simp

/-- Comparing a `char[n]` with a string over `n` bytes compares the stored string
with the first `n` bytes of the other. -/
theorem strncmp_bytes_iff (a : CharArray n) (s : CStr) :
    strncmp n a.bytes s.bytes = 0 ↔ a.cstr = s.bytes.take n := by
  rw [strncmp_eq_zero_iff, upToNul_of_noNul s.noNul]
  show (a.cstr).take n = _ ↔ _
  rw [List.take_of_length_le a.length_cstr_le]

end CharArray
