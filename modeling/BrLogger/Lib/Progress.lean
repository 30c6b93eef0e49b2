import BrLogger.Lib.Machine

/-!
# Bounds on runs

`RunVia M ok s as t` is a run by its actions, each step meeting `ok`.  A
quantity `rank` that every step of interest brings down, and that other steps
bring up only as far as they pay for it, bounds how many steps of interest a
run has: `RunVia.count_le`.  What is paid is counted by a quantity `credit` of
the states, such as the work that arrived meanwhile, and by the
actions that `pays` marks, at a fixed price each.
-/

universe u v

namespace Machine

variable {σ : Type u} {α : Type v} {M : Machine σ α}

inductive RunVia (M : Machine σ α) (ok : σ → α → Prop) : σ → List α → σ → Prop
  | nil {s : σ} : RunVia M ok s [] s
  | cons {s s' t : σ} {a : α} {as : List α} : ok s a → M.step s a = some s' → RunVia M ok s' as t →
      RunVia M ok s (a :: as) t

namespace RunVia

variable {ok ok' : σ → α → Prop} {s t : σ} {as : List α}

theorem mono (himp : ∀ s a, ok s a → ok' s a) (h : RunVia M ok s as t) : RunVia M ok' s as t := by
  induction h with
  | nil => exact .nil
  | cons hok hstep _ ih => exact .cons (himp _ _ hok) hstep ih

theorem reachableVia (h : RunVia M ok s as t) (hs : ReachableVia M ok s) : ReachableVia M ok t := by
  induction h with
  | nil => exact hs
  | cons hok hstep _ ih => exact ih (.step hs hok hstep)

/-- What every step keeps, a run keeps. -/
theorem keeps (Inv : σ → Prop) (hkeep : ∀ s a s', Inv s → ok s a → M.step s a = some s' → Inv s')
    (h : RunVia M ok s as t) (hs : Inv s) : Inv t := by
  induction h with
  | nil => exact hs
  | cons hok hstep _ ih => exact ih (hkeep _ _ _ hs hok hstep)

/-- The states a run starts its steps in, with what they inherit from its start (`Inv`) and
from its end (`Good`). -/
theorem annotate (Inv Good : σ → Prop) (hkeep : ∀ s a s', Inv s → ok s a → M.step s a = some s' → Inv s')
    (hback : ∀ s a s', M.step s a = some s' → Good s' → Good s) (h : RunVia M ok s as t) (hs : Inv s)
    (ht : Good t) : Good s ∧ RunVia M (fun s a => ok s a ∧ Inv s ∧ Good s) s as t := by
  induction h with
  | nil => exact ⟨ht, .nil⟩
  | cons hok hstep _ ih =>
    obtain ⟨hgood, hrun⟩ := ih (hkeep _ _ _ hs hok hstep) ht
    have hgood := hback _ _ _ hstep hgood
    exact ⟨hgood, .cons ⟨hok, hs, hgood⟩ hstep hrun⟩

theorem of_execVia [∀ s a, Decidable (ok s a)] (h : M.execVia ok as s = some t) : RunVia M ok s as t := by
  induction as generalizing s with
  | nil =>
    cases h
    exact .nil
  | cons a as ih =>
    rw [execVia] at h
    split at h
    · obtain ⟨s', hs', hrun⟩ := Option.bind_eq_some_iff.mp h
      exact .cons ‹_› hs' (ih hrun)
    · cases h

/-- **The counting rule**: steps that do `work` are at most what `rank` started with and what
the run paid for. -/
theorem count_le (rank credit : σ → Nat) (work pays : α → Bool) (price : Nat)
    (hstep : ∀ s a s', ok s a → M.step s a = some s' →
      rank s' + (if work a then 1 else 0) + credit s ≤ rank s + credit s' + price * (pays a).toNat)
    (h : RunVia M ok s as t) :
    rank t + as.countP work + credit s ≤ rank s + credit t + price * as.countP pays := by
  induction h with
  | nil => simp
  | @cons s s' t a as hok hs _ ih =>
    have hone := hstep _ _ _ hok hs
    have hpays : (a :: as).countP pays = as.countP pays + (pays a).toNat := by
      cases ha : pays a <;> simp [ha]
    rw [List.countP_cons, hpays, Nat.mul_add]
    omega

end RunVia

end Machine
