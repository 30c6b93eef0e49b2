import Mathlib.Logic.Basic

/-!
# Loops that may not return

A loop is a step function and a test that reads a result off a finished state.
`Returns` says some number of steps reaches a result; it is a partial function
of the start (`Returns.unique`), and a set of unfinished states closed under
the step never returns (`not_returns_of_invariant`).
-/

namespace Loop

variable {σ ρ : Type*} {step : σ → σ} {result : σ → Option ρ}

def run (step : σ → σ) (result : σ → Option ρ) : Nat → σ → Option ρ
  | 0, s => result s
  | fuel + 1, s =>
    match result s with
    | some r => some r
    | none => run step result fuel (step s)

def Returns (step : σ → σ) (result : σ → Option ρ) (s : σ) (r : ρ) : Prop :=
  ∃ fuel, run step result fuel s = some r

theorem run_of_result {s : σ} {r : ρ} (h : result s = some r) (fuel : Nat) :
    run step result fuel s = some r := by
  cases fuel with
  | zero => exact h
  | succ fuel => rw [run, h]

theorem Returns.of_result {s : σ} {r : ρ} (h : result s = some r) : Returns step result s r :=
  ⟨0, h⟩

theorem Returns.of_step {s : σ} {r : ρ} (hs : result s = none)
    (h : Returns step result (step s) r) : Returns step result s r := by
  obtain ⟨fuel, hfuel⟩ := h
  exact ⟨fuel + 1, by rw [run, hs]; exact hfuel⟩

theorem Returns.unique {s : σ} {r r' : ρ} (h : Returns step result s r)
    (h' : Returns step result s r') : r = r' := by
  obtain ⟨fuel, hfuel⟩ := h
  obtain ⟨fuel', hfuel'⟩ := h'
  induction fuel generalizing s fuel' with
  | zero =>
    have hs : result s = some r := hfuel
    rw [run_of_result hs] at hfuel'
    exact Option.some.inj hfuel'
  | succ fuel ih =>
    cases hs : result s with
    | some r₀ =>
      rw [run_of_result hs] at hfuel hfuel'
      exact Option.some.inj (hfuel.symm.trans hfuel')
    | none =>
      cases fuel' with
      | zero => rw [run, hs] at hfuel'; cases hfuel'
      | succ fuel' =>
        rw [run, hs] at hfuel hfuel'
        exact ih hfuel fuel' hfuel'

/-- **A loop caught in unfinished states never returns.** -/
theorem not_returns_of_invariant (Inv : σ → Prop) (hresult : ∀ s, Inv s → result s = none)
    (hstep : ∀ s, Inv s → Inv (step s)) {s : σ} (hs : Inv s) (r : ρ) :
    ¬ Returns step result s r := by
  rintro ⟨fuel, hfuel⟩
  induction fuel generalizing s with
  | zero => rw [run, hresult s hs] at hfuel; cases hfuel
  | succ fuel ih =>
    rw [run, hresult s hs] at hfuel
    exact ih (hstep s hs) hfuel

end Loop
