import Mathlib.Algebra.Ring.Nat
import BrLogger.Lib.CString

/-!
# Decimal numbers

What `printf` writes for an unsigned number (`decimal`, the conversion `%u`)
and for a zero-padded one (`zeroPadded w`, the conversion `%0wd`), and the
number a run of digits reads as (`digitsValue`).
-/

def isDigit (b : Byte) : Bool := 48 ≤ b && b ≤ 57

/-- `%u`. -/
def decimal (n : Nat) : List Byte := (Nat.toDigits 10 n).map fun c => UInt8.ofNat c.toNat

/-- The number with these digits. -/
def digitsValue (l : List Byte) : Nat := l.foldl (fun v b => 10 * v + (b.toNat - 48)) 0

/-- `%0wd`: zeros between the sign and the digits, up to `w` characters in all. -/
def zeroPadded (w : Nat) (n : Int) : List Byte :=
  let digits := decimal n.natAbs
  if n < 0 then 45 :: (List.replicate (w - 1 - digits.length) 48 ++ digits)
  else List.replicate (w - digits.length) 48 ++ digits

theorem toNat_ofNat_of_isDigit {c : Char} (h : c.isDigit = true) :
    (UInt8.ofNat c.toNat).toNat = c.toNat ∧ 48 ≤ c.toNat ∧ c.toNat ≤ 57 := by
  rw [Char.isDigit, Bool.and_eq_true, decide_eq_true_eq, decide_eq_true_eq] at h
  have hlow : 48 ≤ c.toNat := h.1
  have hhigh : c.toNat ≤ 57 := h.2
  refine ⟨?_, hlow, hhigh⟩
  rw [UInt8.toNat_ofNat']
  omega

theorem isDigit_of_mem_decimal {n : Nat} {b : Byte} (h : b ∈ decimal n) : isDigit b = true := by
  obtain ⟨c, hc, rfl⟩ := List.mem_map.mp h
  obtain ⟨heq, hlow, hhigh⟩ :=
    toNat_ofNat_of_isDigit (Nat.isDigit_of_mem_toDigits (by decide) (by decide) hc)
  simp only [isDigit, UInt8.le_iff_toNat_le, heq, Bool.and_eq_true, decide_eq_true_eq]
  exact ⟨hlow, hhigh⟩

@[simp] theorem decimal_ne_nil (n : Nat) : decimal n ≠ [] := by simp [decimal]

theorem length_decimal_le {n k : Nat} (hk : 0 < k) (h : n < 10 ^ k) : (decimal n).length ≤ k := by
  rw [decimal, List.length_map]
  exact (Nat.length_toDigits_le_iff (by decide) hk).mpr h

/-- **Reading a printed number gives it back.** -/
@[simp] theorem digitsValue_decimal (n : Nat) : digitsValue (decimal n) = n := by
  have hfold : ∀ (l : List Char) (v : Nat), (∀ c ∈ l, c.isDigit = true) →
      (l.map fun c => UInt8.ofNat c.toNat).foldl (fun v b => 10 * v + (b.toNat - 48)) v =
        Nat.ofDigitChars 10 l v := by
    intro l
    induction l with
    | nil => simp
    | cons c l ih =>
      intro v hl
      have heq := (toNat_ofNat_of_isDigit (hl c List.mem_cons_self)).1
      rw [List.map_cons, List.foldl_cons, Nat.ofDigitChars_cons, heq]
      exact ih _ fun d hd => hl d (List.mem_cons_of_mem c hd)
  rw [digitsValue, decimal, hfold _ 0 fun c => Nat.isDigit_of_mem_toDigits (by decide) (by decide)]
  exact Nat.ofDigitChars_ten_toDigits

/-- Only zero is printed with a leading zero. -/
theorem decimal_eq_zero_of_head {n : Nat} (h : (decimal n).head? = some 48) : decimal n = [48] := by
  induction n using Nat.strongRecOn with
  | ind n ih =>
    by_cases hn : n < 10
    · rw [decimal, Nat.toDigits_of_lt_base hn] at h ⊢
      simpa using h
    · have hsplit : decimal n = decimal (n / 10) ++ decimal (n % 10) := by
        rw [decimal, Nat.toDigits_of_base_le (by decide) (by omega), List.map_append]
        congr 1
        rw [decimal, Nat.toDigits_of_lt_base (Nat.mod_lt n (by decide)), List.map_singleton]
      have hhead : (decimal (n / 10)).head? = some 48 := by
        obtain ⟨d, ds, hd⟩ := List.exists_cons_of_ne_nil (decimal_ne_nil (n / 10))
        rw [hsplit, hd] at h
        rwa [hd]
      have hzero := congrArg digitsValue (ih (n / 10) (by omega) hhead)
      rw [digitsValue_decimal, show digitsValue [48] = 0 from rfl] at hzero
      omega

theorem mem_zeroPadded {w : Nat} {n : Int} {b : Byte} (h : b ∈ zeroPadded w n) :
    b = 45 ∨ isDigit b = true := by
  have hzero : ∀ k, b ∈ List.replicate k (48 : Byte) → isDigit b = true := fun k hb => by
    rw [List.eq_of_mem_replicate hb]
    decide
  have hdigits : ∀ k m, b ∈ List.replicate k (48 : Byte) ++ decimal m → isDigit b = true := fun k m hb =>
    (List.mem_append.mp hb).elim (hzero k) isDigit_of_mem_decimal
  rw [zeroPadded] at h
  split at h
  · rcases List.mem_cons.mp h with h | h
    · exact Or.inl h
    · exact Or.inr (hdigits _ _ h)
  · exact Or.inr (hdigits _ _ h)

theorem length_zeroPadded_le {w k : Nat} {n : Int} (hk : 0 < k) (h : n.natAbs < 10 ^ k) :
    (zeroPadded w n).length ≤ max w (k + 1) := by
  have hlen := length_decimal_le hk h
  rw [zeroPadded]
  split
  · simp only [List.length_cons, List.length_append, List.length_replicate]
    omega
  · simp only [List.length_append, List.length_replicate]
    omega

/-- A number that fits fills its width. -/
theorem length_zeroPadded_eq {w : Nat} {n : Int} (hw : 0 < w) (h0 : 0 ≤ n) (h : n.natAbs < 10 ^ w) :
    (zeroPadded w n).length = w := by
  have hlen := length_decimal_le hw h
  simp only [zeroPadded]
  rw [if_neg (by omega), List.length_append, List.length_replicate]
  omega

theorem digitsValue_replicate (k : Nat) (l : List Byte) : digitsValue (List.replicate k 48 ++ l) = digitsValue l := by
  induction k with
  | zero => rfl
  | succ k ih => exact ih

/-- A number's text starts with its sign. -/
theorem head_zeroPadded_of_nonneg {w : Nat} {n : Int} (h : 0 ≤ n) {l : List Byte} : zeroPadded w n ≠ 45 :: l := by
  intro he
  simp only [zeroPadded] at he
  rw [if_neg (by omega)] at he
  have hmem : (45 : Byte) ∈ List.replicate (w - (decimal n.natAbs).length) 48 ++ decimal n.natAbs := by
    rw [he]
    exact List.mem_cons_self
  rcases List.mem_append.mp hmem with hmem | hmem
  · exact absurd (List.eq_of_mem_replicate hmem) (by decide)
  · exact absurd (isDigit_of_mem_decimal hmem) (by decide)

/-- **Different numbers have different texts.** -/
theorem zeroPadded_injective {w : Nat} {n m : Int} (h : zeroPadded w n = zeroPadded w m) : n = m := by
  have hvalue : ∀ (k j : Nat) (a b : Int),
      List.replicate k 48 ++ decimal a.natAbs = List.replicate j 48 ++ decimal b.natAbs → a.natAbs = b.natAbs := by
    intro k j a b he
    have := congrArg digitsValue he
    rwa [digitsValue_replicate, digitsValue_replicate, digitsValue_decimal, digitsValue_decimal] at this
  by_cases hn : n < 0
  · by_cases hm : m < 0
    · simp only [zeroPadded, if_pos hn, if_pos hm, List.cons.injEq, true_and] at h
      have := hvalue _ _ _ _ h
      omega
    · simp only [zeroPadded, if_pos hn] at h
      exact absurd h.symm (head_zeroPadded_of_nonneg (by omega))
  · by_cases hm : m < 0
    · rw [zeroPadded.eq_1 w m] at h
      simp only [if_pos hm] at h
      exact absurd h (head_zeroPadded_of_nonneg (by omega))
    · simp only [zeroPadded, if_neg hn, if_neg hm] at h
      have := hvalue _ _ _ _ h
      omega
