import Mathlib.Algebra.Order.BigOperators.Group.Finset
import Mathlib.Data.Multiset.Count

/-!
# Ledgers

A ledger distributes the elements of a multiset over finitely many accounts.
When no element occurs twice in the whole, each is in exactly one account
(`existsUnique_mem_of_sum_eq`).  Changing one account changes the sum by what
that account gains and loses (`sum_add_eq_of_agree`).
-/

namespace Ledger

variable {ι α : Type*} [Fintype ι]

/-- Two families that agree except at `i` differ in their sums as they do at `i`. -/
theorem sum_add_eq_of_agree [DecidableEq ι] {M : Type*} [AddCommMonoid M] {f g : ι → M} (i : ι)
    (h : ∀ j, j ≠ i → f j = g j) : ∑ j, f j + g i = ∑ j, g j + f i := by
  have hrest : ∑ j ∈ Finset.univ.erase i, f j = ∑ j ∈ Finset.univ.erase i, g j :=
    Finset.sum_congr rfl fun j hj => h j (Finset.ne_of_mem_erase hj)
  rw [← Finset.add_sum_erase _ f (Finset.mem_univ i), ← Finset.add_sum_erase _ g (Finset.mem_univ i),
    hrest, add_right_comm, add_comm (f i) (g i), add_right_comm]

/-- **Every element of a ledger without repetitions is in exactly one account.** -/
theorem existsUnique_mem_of_sum_eq {accounts : ι → Multiset α} {m : Multiset α}
    (h : ∑ j, accounts j = m) (hm : m.Nodup) {x : α} (hx : x ∈ m) : ∃! i, x ∈ accounts i := by
  classical
  rw [← h, Multiset.mem_sum] at hx
  obtain ⟨i, -, hi⟩ := hx
  refine ⟨i, hi, ?_⟩
  intro j hj
  by_contra hne
  have hpair : (accounts i).count x + (accounts j).count x ≤ (∑ l, accounts l).count x := by
    rw [Multiset.count_sum', ← Finset.add_sum_erase _ _ (Finset.mem_univ i)]
    have hle := Finset.single_le_sum (f := fun l => (accounts l).count x) (fun _ _ => Nat.zero_le _)
      (Finset.mem_erase.mpr ⟨hne, Finset.mem_univ j⟩)
    omega
  have hone := Multiset.nodup_iff_count_le_one.mp hm x
  rw [h] at hpair
  have hi := Multiset.one_le_count_iff_mem.mpr hi
  have hj := Multiset.one_le_count_iff_mem.mpr hj
  omega

end Ledger
