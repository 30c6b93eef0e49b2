import Mathlib.Logic.Basic

/-!
# Machines and their runs

A `Machine` is a deterministic transition function on actions: `step s a` is
the state after `a`, or `none` when `a` is not enabled in `s`.  Interleaving
is the freedom in which action comes next, so "every run" is "every list of
actions" and a reachable state is one some list of actions leads to.

`Reachable.induct` is the invariant rule, `ReachableVia.induct` the same rule
for runs all of whose steps meet a condition, and `Reachable.exec` and
`ReachableVia.exec` turn a concrete list of actions into a reachable state.
-/

universe u v

/-- A transition system whose steps are labelled by actions. -/
structure Machine (σ : Type u) (α : Type v) where
  init : σ → Prop
  step : σ → α → Option σ

namespace Machine

variable {σ : Type u} {α : Type v} {M : Machine σ α}

inductive Reachable (M : Machine σ α) : σ → Prop
  | init {s : σ} : M.init s → Reachable M s
  | step {s s' : σ} {a : α} : Reachable M s → M.step s a = some s' → Reachable M s'

/-- Reached through steps that all meet `ok`, a condition on the state before
the step and its action. -/
inductive ReachableVia (M : Machine σ α) (ok : σ → α → Prop) : σ → Prop
  | init {s : σ} : M.init s → ReachableVia M ok s
  | step {s s' : σ} {a : α} : ReachableVia M ok s → ok s a → M.step s a = some s' →
      ReachableVia M ok s'

/-- **The invariant rule.** -/
theorem Reachable.induct (Inv : σ → Prop) (hinit : ∀ s, M.init s → Inv s)
    (hstep : ∀ s a s', Reachable M s → Inv s → M.step s a = some s' → Inv s') {s : σ}
    (h : Reachable M s) : Inv s := by
  induction h with
  | init h => exact hinit _ h
  | step hr h ih => exact hstep _ _ _ hr ih h

/-- **The invariant rule for runs whose steps meet a condition.** -/
theorem ReachableVia.induct {ok : σ → α → Prop} (Inv : σ → Prop) (hinit : ∀ s, M.init s → Inv s)
    (hstep : ∀ s a s', ReachableVia M ok s → ok s a → Inv s → M.step s a = some s' → Inv s') {s : σ}
    (h : ReachableVia M ok s) : Inv s := by
  induction h with
  | init h => exact hinit _ h
  | step hr hok h ih => exact hstep _ _ _ hr hok ih h

/-- A weaker condition allows more runs. -/
theorem ReachableVia.mono {ok ok' : σ → α → Prop} (himp : ∀ s a, ok s a → ok' s a) {s : σ} (h : ReachableVia M ok s) :
    ReachableVia M ok' s := by
  induction h with
  | init h => exact .init h
  | step _ hok h ih => exact .step ih (himp _ _ hok) h

/-! ### Runs given by their actions -/

/-- The state after a list of actions, when each is enabled in its turn. -/
def exec (M : Machine σ α) : List α → σ → Option σ
  | [], s => some s
  | a :: as, s => (M.step s a).bind (M.exec as)

@[simp] theorem exec_nil (s : σ) : M.exec [] s = some s := rfl

theorem exec_cons (a : α) (as : List α) (s : σ) :
    M.exec (a :: as) s = (M.step s a).bind (M.exec as) := rfl

theorem Reachable.exec {s s' : σ} {as : List α} (hs : Reachable M s)
    (h : M.exec as s = some s') : Reachable M s' := by
  induction as generalizing s with
  | nil => exact (Option.some.inj h) ▸ hs
  | cons a as ih =>
    rw [exec_cons] at h
    obtain ⟨t, ht, hts⟩ := Option.bind_eq_some_iff.mp h
    exact ih (.step hs ht) hts

/-- `exec`, stopping at a step that does not meet the condition. -/
def execVia (M : Machine σ α) (ok : σ → α → Prop) [∀ s a, Decidable (ok s a)] : List α → σ → Option σ
  | [], s => some s
  | a :: as, s => if ok s a then (M.step s a).bind (M.execVia ok as) else none

theorem execVia_append {ok : σ → α → Prop} [∀ s a, Decidable (ok s a)] {as bs : List α} {s t u : σ}
    (h : M.execVia ok as s = some t) (h' : M.execVia ok bs t = some u) : M.execVia ok (as ++ bs) s = some u := by
  induction as generalizing s with
  | nil => exact (Option.some.inj h) ▸ h'
  | cons a as ih =>
    rw [execVia] at h
    split at h
    · obtain ⟨r, hr, hrt⟩ := Option.bind_eq_some_iff.mp h
      rw [List.cons_append, execVia, if_pos ‹_›, hr]
      exact ih hrt
    · cases h

theorem ReachableVia.exec {ok : σ → α → Prop} [∀ s a, Decidable (ok s a)] {s s' : σ} {as : List α}
    (hs : ReachableVia M ok s) (h : M.execVia ok as s = some s') : ReachableVia M ok s' := by
  induction as generalizing s with
  | nil => exact (Option.some.inj h) ▸ hs
  | cons a as ih =>
    rw [execVia] at h
    split at h
    · obtain ⟨t, ht, hts⟩ := Option.bind_eq_some_iff.mp h
      exact ih (.step hs ‹_› ht) hts
    · cases h

/-- What is computed of the last state of a run is true of a reachable state. -/
theorem ReachableVia.of_run {β : Type*} {ok : σ → α → Prop} [∀ s a, Decidable (ok s a)] {f : σ → β} {s₀ : σ}
    {as : List α} {b : β} (h : (M.execVia ok as s₀).map f = some b) (hinit : M.init s₀) :
    ∃ s, M.ReachableVia ok s ∧ f s = b := by
  obtain ⟨s, hs, hb⟩ := Option.map_eq_some_iff.mp h
  exact ⟨s, ReachableVia.exec (.init hinit) hs, hb⟩

end Machine
