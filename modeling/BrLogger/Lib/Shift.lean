import Mathlib.Logic.Function.Basic
import Mathlib.Tactic.Common

/-!
# Shifting numbered places

Places `0, 1, 2, …`, each empty or holding something.  `shift moved n` takes
what stands at `n - 1` to `n`, then what stands at `n - 2` to `n - 1`, and so
on down to `0`.  A move whose target is marked in `moved` happens, and replaces
what stands there; the others do nothing, and nor does a move from an empty
place.

`shift_apply` says where everything is in the end.  A thing is lost exactly
when its own move fails and the one behind it does not (`Overwritten`).
-/

namespace Shift

variable {α : Type}

/-- The move from `n` to `n + 1`. -/
def moveUp (moved : Nat → Bool) (f : Nat → Option α) (n : Nat) : Nat → Option α :=
  if moved (n + 1) = true ∧ f n ≠ none then Function.update (Function.update f n none) (n + 1) (f n) else f

def shift (moved : Nat → Bool) : Nat → (Nat → Option α) → Nat → Option α
  | 0, f => f
  | n + 1, f => shift moved n (moveUp moved f n)

variable {moved : Nat → Bool} {f : Nat → Option α} {n k : Nat}

theorem moveUp_of_not (h : ¬ (moved (n + 1) = true ∧ f n ≠ none)) : moveUp moved f n = f := if_neg h

theorem moveUp_apply (h : moved (n + 1) = true ∧ f n ≠ none) (k : Nat) :
    moveUp moved f n k = if k = n + 1 then f n else if k = n then none else f k := by
  rw [moveUp, if_pos h]
  by_cases hk : k = n + 1
  · rw [hk, Function.update_self, if_pos rfl]
  · rw [Function.update_of_ne hk, if_neg hk]
    by_cases hkn : k = n
    · rw [hkn, Function.update_self, if_pos rfl]
    · rw [Function.update_of_ne hkn, if_neg hkn]

theorem shift_of_lt (h : n < k) : shift moved n f k = f k := by
  induction n generalizing f with
  | zero => rfl
  | succ n ih =>
    rw [shift, ih (by omega)]
    by_cases hm : moved (n + 1) = true ∧ f n ≠ none
    · rw [moveUp_apply hm, if_neg (by omega), if_neg (by omega)]
    · rw [moveUp_of_not hm]

/-- **Where everything is in the end.** -/
theorem shift_apply (h : k ≤ n) :
    shift moved n f k =
      if 0 < k ∧ moved k = true ∧ f (k - 1) ≠ none then f (k - 1)
      else if k < n ∧ moved (k + 1) = true then none
      else f k := by
  induction n generalizing f with
  | zero =>
    have hk : k = 0 := by omega
    subst hk
    rfl
  | succ n ih =>
    rw [shift]
    by_cases hk : k = n + 1
    · -- the first move's target is not touched again
      subst hk
      rw [shift_of_lt (Nat.lt_succ_self n)]
      by_cases hm : moved (n + 1) = true ∧ f n ≠ none
      · rw [moveUp_apply hm, if_pos rfl, Nat.add_sub_cancel, if_pos ⟨by omega, hm⟩]
      · rw [moveUp_of_not hm, Nat.add_sub_cancel, if_neg (fun h => hm h.2), if_neg (fun h => Nat.lt_irrefl _ h.1)]
    · rw [ih (by omega)]
      by_cases hm : moved (n + 1) = true ∧ f n ≠ none
      · rw [moveUp_apply hm, moveUp_apply hm, if_neg (show ¬ k - 1 = n + 1 by omega), if_neg hk]
        by_cases hkn : k = n
        · subst hkn
          rw [if_pos rfl, if_neg (show ¬ (k < k ∧ _) from fun h => Nat.lt_irrefl _ h.1),
            if_pos (show k < k + 1 ∧ _ from ⟨by omega, hm.1⟩)]
          by_cases hzero : k = 0
          · rw [if_neg (fun h => absurd h.1 (by omega)), if_neg (fun h => absurd h.1 (by omega))]
          · rw [if_neg (show ¬ k - 1 = k by omega)]
        · rw [if_neg hkn, if_neg (show ¬ k - 1 = n by omega)]
          have hiff : (k < n ∧ moved (k + 1) = true) ↔ (k < n + 1 ∧ moved (k + 1) = true) :=
            ⟨fun h => ⟨by omega, h.2⟩, fun h => ⟨by omega, h.2⟩⟩
          simp only [hiff]
      · rw [moveUp_of_not hm]
        by_cases hkn : k = n
        · subst hkn
          rw [if_neg (show ¬ (k < k ∧ _) from fun h => Nat.lt_irrefl _ h.1)]
          by_cases hmoved : moved (k + 1) = true
          · have hnone : f k = none := by
              by_contra hne
              exact hm ⟨hmoved, hne⟩
            rw [if_pos (show k < k + 1 ∧ _ from ⟨by omega, hmoved⟩), hnone]
          · rw [if_neg (show ¬ (k < k + 1 ∧ _) from fun h => hmoved h.2)]
        · have hiff : (k < n ∧ moved (k + 1) = true) ↔ (k < n + 1 ∧ moved (k + 1) = true) :=
            ⟨fun h => ⟨by omega, h.2⟩, fun h => ⟨by omega, h.2⟩⟩
          simp only [hiff]

/-- When every move happens, everything goes up by one and the first place is left empty. -/
theorem shift_all (hall : ∀ i, moved i = true) (hlast : f n = none) (h : k ≤ n) :
    shift moved n f k = if k = 0 then none else f (k - 1) := by
  rw [shift_apply h]
  by_cases hk : k = 0
  · subst hk
    rw [if_neg (fun h => Nat.lt_irrefl 0 h.1), if_pos rfl]
    by_cases hn : n = 0
    · subst hn
      rw [if_neg (fun h => Nat.lt_irrefl 0 h.1), hlast]
    · rw [if_pos ⟨by omega, hall 1⟩]
  · rw [if_neg hk]
    by_cases hprev : f (k - 1) = none
    · rw [if_neg (fun h => h.2.2 hprev), hprev]
      by_cases hkn : k < n
      · rw [if_pos ⟨hkn, hall _⟩]
      · have heq : k = n := by omega
        rw [if_neg (fun h => hkn h.1), heq, hlast]
    · rw [if_pos ⟨by omega, hall k, hprev⟩]

/-! ### What is lost -/

/-- What stands at `k` stays when its own move fails, and is replaced by what
stands behind it. -/
def Overwritten (moved : Nat → Bool) (n : Nat) (f : Nat → Option α) (k : Nat) : Prop :=
  0 < k ∧ k < n ∧ moved (k + 1) = false ∧ moved k = true ∧ f k ≠ none ∧ f (k - 1) ≠ none

theorem Overwritten.congr {g : Nat → Option α} (h : ∀ j < n, f j = g j) :
    Overwritten moved n f k ↔ Overwritten moved n g k := by
  by_cases hk : k < n
  · rw [Overwritten, Overwritten, h k hk, h (k - 1) (by omega)]
  · exact ⟨fun ho => absurd ho.2.1 hk, fun ho => absurd ho.2.1 hk⟩

/-- **What is not overwritten is still there.** -/
theorem exists_shift_of_not_overwritten {c : α} (hk : k < n) (hc : f k = some c)
    (h : ¬ Overwritten moved n f k) : ∃ j ≤ n, shift moved n f j = some c := by
  by_cases hmoved : moved (k + 1) = true
  · refine ⟨k + 1, hk, ?_⟩
    have harrives : 0 < k + 1 ∧ moved (k + 1) = true ∧ f (k + 1 - 1) ≠ none := by
      refine ⟨Nat.succ_pos k, hmoved, ?_⟩
      rw [Nat.add_sub_cancel, hc]
      exact Option.some_ne_none c
    rw [shift_apply hk, if_pos harrives]
    exact hc
  · have harrives : ¬ (0 < k ∧ moved k = true ∧ f (k - 1) ≠ none) := by
      intro ha
      exact h ⟨ha.1, hk, by simpa using hmoved, ha.2.1, by rw [hc]; exact Option.some_ne_none c, ha.2.2⟩
    refine ⟨k, Nat.le_of_lt hk, ?_⟩
    rw [shift_apply (Nat.le_of_lt hk), if_neg harrives, if_neg (fun ha => hmoved ha.2)]
    exact hc

/-- What stands somewhere in the end stood somewhere before and is not overwritten. -/
theorem exists_of_shift {c : α} (hlast : f n = none) (hk : k ≤ n) (hc : shift moved n f k = some c) :
    ∃ j < n, f j = some c ∧ ¬ Overwritten moved n f j := by
  rw [shift_apply hk] at hc
  by_cases harrives : 0 < k ∧ moved k = true ∧ f (k - 1) ≠ none
  · rw [if_pos harrives] at hc
    refine ⟨k - 1, by omega, hc, ?_⟩
    intro ho
    have := ho.2.2.1
    rw [Nat.sub_add_cancel harrives.1, harrives.2.1] at this
    cases this
  · rw [if_neg harrives] at hc
    by_cases hleft : k < n ∧ moved (k + 1) = true
    · rw [if_pos hleft] at hc
      cases hc
    · rw [if_neg hleft] at hc
      have hkn : k ≠ n := by
        intro he
        rw [he, hlast] at hc
        cases hc
      exact ⟨k, by omega, hc, fun ho => harrives ⟨ho.1, ho.2.2.2.1, ho.2.2.2.2.2⟩⟩

/-- What replaces an overwritten thing is not overwritten itself. -/
theorem Overwritten.pred (h : Overwritten moved n f k) : ¬ Overwritten moved n f (k - 1) := by
  intro hp
  have := hp.2.2.1
  rw [Nat.sub_add_cancel h.1, h.2.2.2.1] at this
  cases this

end Shift
