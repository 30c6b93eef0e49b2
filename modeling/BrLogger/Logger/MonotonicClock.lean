import Mathlib.Algebra.Ring.Int.Defs
import Mathlib.Algebra.Ring.Nat
import Mathlib.Tactic.Common

/-!
# `monotonic_now_ns` on Windows

`timestamp.cpp`.  The counter is multiplied by `10^9` before it is divided by its
frequency, in 64 bits.  The product is over `2^64` after some 30 minutes of a
counter at 10 MHz, and what is then left of it is too small by at least `2^64`,
which no frequency is as large as: from there on every reading is wrong
(`clockKept_iff`), and the clock goes back where the product starts anew.
-/

namespace BrLogger

/-- `qpc_frequency()`, for the `QuadPart` that `QueryPerformanceFrequency` leaves. -/
def qpcFrequency (freq : Int64) : UInt64 := freq.toUInt64

/-- `monotonic_now_ns()`, for the `QuadPart` of the counter. -/
def monotonicNowNs (freq counter : Int64) : UInt64 :=
  let ticks := counter.toUInt64
  ticks * 1000000000 / qpcFrequency freq

/-- The nanoseconds a counter has run, rounded down. -/
def elapsedNs (freq counter : Int64) : Int := counter.toInt * 1000000000 / freq.toInt

/-- Both readings are the nanoseconds elapsed, and the later one is not the smaller. -/
def ClockKept (freq t₁ t₂ : Int64) : Prop :=
  (monotonicNowNs freq t₁).toNat = elapsedNs freq t₁ ∧ (monotonicNowNs freq t₂).toNat = elapsedNs freq t₂ ∧
    monotonicNowNs freq t₁ ≤ monotonicNowNs freq t₂

/-- Dividing what is left modulo `w` by no more than `w` loses something as soon as
`w` is reached. -/
theorem mod_div_eq_iff {p f w : Nat} (hf : 0 < f) (hfw : f ≤ w) : p % w / f = p / f ↔ p < w := by
  refine ⟨?_, ?_⟩
  · intro h
    by_contra hw
    have hmod : p % w + f ≤ p := by
      have hlost : p % w ≤ p - w := by
        rw [Nat.mod_eq_sub_mod (Nat.le_of_not_lt hw)]
        exact Nat.mod_le _ _
      omega
    have hdiv := Nat.div_le_div_right (c := f) hmod
    rw [Nat.add_div_right _ hf] at hdiv
    omega
  · intro h
    rw [Nat.mod_eq_of_lt h]

theorem toNat_monotonicNowNs {freq counter : Int64} (hfreq : 0 ≤ freq) (hcounter : 0 ≤ counter) :
    (monotonicNowNs freq counter).toNat =
      counter.toNatClampNeg * 1000000000 % 2 ^ 64 / freq.toNatClampNeg := by
  rw [monotonicNowNs, qpcFrequency]
  simp only [UInt64.toNat_div, UInt64.toNat_mul, Int64.toNat_toUInt64_of_le hfreq,
    Int64.toNat_toUInt64_of_le hcounter]
  rfl

/-- **A reading is the time elapsed exactly as long as the product fits.** -/
theorem monotonicNowNs_eq_iff {freq counter : Int64} (hfreq : 1 ≤ freq) (hcounter : 0 ≤ counter) :
    (monotonicNowNs freq counter).toNat = elapsedNs freq counter ↔ counter.toInt * 1000000000 < 2 ^ 64 := by
  have hone : (1 : Int) ≤ freq.toInt := Int64.le_iff_toInt_le.mp hfreq
  have hfreq' : 0 ≤ freq := Int64.le_iff_toInt_le.mpr (Int.le_trans (by decide) hone)
  have hfreqNat := Int64.cast_toNatClampNeg freq hfreq'
  have hfreqLt := freq.toNatClampNeg_lt
  have hquot : (counter.toNatClampNeg : Int) * 1000000000 / freq.toNatClampNeg =
      (counter.toNatClampNeg * 1000000000 / freq.toNatClampNeg : Nat) := by
    rw [Int.natCast_ediv, Int.natCast_mul]
    rfl
  rw [toNat_monotonicNowNs hfreq' hcounter, elapsedNs, ← hfreqNat, ← Int64.cast_toNatClampNeg counter hcounter, hquot,
    Int.natCast_inj, mod_div_eq_iff (by omega) (by omega)]
  omega

/-- **The clock is right and does not go back exactly as long as the later product
fits 64 bits**, whatever the frequency. -/
theorem clockKept_iff {freq t₁ t₂ : Int64} (hfreq : 1 ≤ freq) (h₁ : 0 ≤ t₁) (hle : t₁ ≤ t₂) :
    ClockKept freq t₁ t₂ ↔ t₂.toInt * 1000000000 < 2 ^ 64 := by
  have hint : t₁.toInt ≤ t₂.toInt := Int64.le_iff_toInt_le.mp hle
  have h₂ : 0 ≤ t₂ := Int64.le_trans h₁ hle
  refine ⟨fun h => (monotonicNowNs_eq_iff hfreq h₂).mp h.2.1, ?_⟩
  intro hfits
  have hexact₁ := (monotonicNowNs_eq_iff hfreq h₁).mpr (by omega)
  have hexact₂ := (monotonicNowNs_eq_iff hfreq h₂).mpr hfits
  refine ⟨hexact₁, hexact₂, ?_⟩
  have helapsed : elapsedNs freq t₁ ≤ elapsedNs freq t₂ := by
    have hone : (1 : Int) ≤ freq.toInt := Int64.le_iff_toInt_le.mp hfreq
    exact Int.ediv_le_ediv (by omega) (by omega)
  rw [UInt64.le_iff_toNat_le]
  omega

theorem clockKept_iff_second : ClockKept 10000000 9999999 10000000 ↔ (10000000 : Int64).toInt * 1000000000 < 2 ^ 64 :=
  clockKept_iff (by decide) (by decide) (by decide)

/-- **The clock goes back** between two ticks of a 10 MHz counter, half an hour after
it started, with a result that would have fitted. -/
theorem not_clockKept_half_hour :
    elapsedNs 10000000 18446744074 < 2 ^ 64 ∧ ¬ ClockKept 10000000 18446744073 18446744074 ∧
      monotonicNowNs 10000000 18446744074 < monotonicNowNs 10000000 18446744073 := by
  have hback : monotonicNowNs 10000000 18446744074 < monotonicNowNs 10000000 18446744073 := by decide
  refine ⟨by decide, ?_, hback⟩
  intro h
  exact absurd h.2.2 (UInt64.not_le.mpr hback)

end BrLogger
