import BrLogger.LogEntry

/-!
# `LOG_ONCE`

The statement keeps a flag and enters `BR_LOG_CALL` on the execution that finds
it clear.  That execution sets the flag before the level is looked at: when the
logger's level keeps the statement out just then, the flag says that it has
logged, and it never will.  So what counts is the level at the first execution
(`run_calls`), and the statement logs once as it should exactly when that
execution is admitted or none is (`logsOnce_iff`).
-/

namespace BrLogger

/-- `SetLevel(level)`, or an execution of the statement. -/
inductive OnceAction
  | setLevel (level : LogLevel)
  | execute
  deriving DecidableEq

/-- `level_`, the statement's `_br_logged`, and the calls of `LogImpl` it has made. -/
structure OnceState where
  level : LogLevel
  brLogged : Bool
  calls : Nat

/-- The logger's level lets the statement's through. -/
def Admits (lvl level : LogLevel) : Prop := level.toNat ≤ lvl.toNat

instance (lvl level : LogLevel) : Decidable (Admits lvl level) := inferInstanceAs (Decidable (_ ≤ _))

variable (activeLevel : Int) (lvl : LogLevel)

/-- `BR_LOG_CALL(lvl, ...)`. -/
def brLogCall (s : OnceState) : OnceState :=
  if activeLevel ≤ lvl.toNat then
    if Admits lvl s.level then { s with calls := s.calls + 1 } else s
  else s

/-- `LOG_ONCE(lvl, ...)`: `exchange` leaves the flag set, whatever it returns. -/
def logOnce (s : OnceState) : OnceState :=
  let old := s.brLogged
  let s := { s with brLogged := true }
  if old then s else brLogCall activeLevel lvl s

def OnceAction.step (s : OnceState) : OnceAction → OnceState
  | setLevel level => { s with level := level }
  | execute => logOnce activeLevel lvl s

/-- The state after these actions, at first with this level and a clear flag. -/
def onceRun (level : LogLevel) (actions : List OnceAction) : OnceState :=
  actions.foldl (OnceAction.step activeLevel lvl) ⟨level, false, 0⟩

/-- The levels of the logger at the executions, in order. -/
def executionLevels : LogLevel → List OnceAction → List LogLevel
  | _, [] => []
  | _, .setLevel level :: actions => executionLevels level actions
  | level, .execute :: actions => level :: executionLevels level actions

/-- The statement logs once if some execution is admitted, and never if none is. -/
def LogsOnce (level : LogLevel) (actions : List OnceAction) : Prop :=
  (onceRun activeLevel lvl level actions).calls = if ∃ l ∈ executionLevels level actions, Admits lvl l then 1 else 0

/-! ### What a run does -/

section
variable {activeLevel lvl}

/-- With the flag set nothing is logged any more. -/
theorem foldl_step_of_logged (actions : List OnceAction) (s : OnceState) (h : s.brLogged = true) :
    (actions.foldl (OnceAction.step activeLevel lvl) s).calls = s.calls := by
  induction actions generalizing s with
  | nil => rfl
  | cons action actions ih =>
    rw [List.foldl_cons]
    cases action with
    | setLevel level => exact ih _ h
    | execute =>
      have hstep : OnceAction.step activeLevel lvl s .execute = { s with brLogged := true } := by
        rw [OnceAction.step, logOnce]
        simp only [h, if_true]
      rw [hstep]
      exact ih _ rfl

theorem logOnce_of_clear (hactive : activeLevel ≤ lvl.toNat) (level : LogLevel) (n : Nat) :
    logOnce activeLevel lvl ⟨level, false, n⟩ = ⟨level, true, if Admits lvl level then n + 1 else n⟩ := by
  rw [logOnce]
  simp only [brLogCall, if_pos hactive, Bool.false_eq_true, if_false]
  split <;> rfl

/-- **The level at the first execution decides**: the statement logs then or never. -/
theorem run_calls (hactive : activeLevel ≤ lvl.toNat) (level : LogLevel) (actions : List OnceAction) :
    (onceRun activeLevel lvl level actions).calls =
      if ∃ l ∈ (executionLevels level actions).head?, Admits lvl l then 1 else 0 := by
  rw [onceRun]
  induction actions generalizing level with
  | nil => simp [executionLevels]
  | cons action actions ih =>
    rw [List.foldl_cons]
    cases action with
    | setLevel next => exact ih next
    | execute =>
      rw [OnceAction.step, logOnce_of_clear hactive, foldl_step_of_logged _ _ rfl, executionLevels]
      simp

/-- **`LOG_ONCE` logs once as it should exactly when its first execution is admitted
or no execution is.** -/
theorem logsOnce_iff (hactive : activeLevel ≤ lvl.toNat) (level : LogLevel) (actions : List OnceAction) :
    LogsOnce activeLevel lvl level actions ↔
      (∃ l ∈ (executionLevels level actions).head?, Admits lvl l) ∨
        ∀ l ∈ executionLevels level actions, ¬ Admits lvl l := by
  have hfirst : (∃ l ∈ (executionLevels level actions).head?, Admits lvl l) →
      ∃ l ∈ executionLevels level actions, Admits lvl l := by
    rintro ⟨l, hl, hadmits⟩
    exact ⟨l, List.mem_of_mem_head? hl, hadmits⟩
  have hnone : (∀ l ∈ executionLevels level actions, ¬ Admits lvl l) ↔
      ¬ ∃ l ∈ executionLevels level actions, Admits lvl l := by
    simp
  rw [LogsOnce, run_calls hactive, hnone]
  by_cases hadmitted : ∃ l ∈ (executionLevels level actions).head?, Admits lvl l
  · rw [if_pos hadmitted, if_pos (hfirst hadmitted)]
    exact iff_of_true rfl (Or.inl hadmitted)
  · rw [if_neg hadmitted]
    by_cases hsome : ∃ l ∈ executionLevels level actions, Admits lvl l
    · rw [if_pos hsome]
      exact iff_of_false (by decide) (not_or.mpr ⟨hadmitted, not_not.mpr hsome⟩)
    · rw [if_neg hsome]
      exact iff_of_true rfl (Or.inr hsome)

end

theorem logsOnce_iff_raised :
    LogsOnce 0 .info .info [.execute, .setLevel .error, .execute] ↔
      (∃ l ∈ (executionLevels .info [.execute, .setLevel .error, .execute]).head?, Admits .info l) ∨
        ∀ l ∈ executionLevels .info [.execute, .setLevel .error, .execute], ¬ Admits .info l :=
  logsOnce_iff (by decide) .info [.execute, .setLevel .error, .execute]

/-- **An execution below the level uses the statement up**: the next one, which the
level admits, does not log. -/
theorem not_logsOnce_lowered :
    ¬ LogsOnce 0 .info .info [.setLevel .warn, .execute, .setLevel .info, .execute] := by
  have hsome : ∃ l ∈ executionLevels .info [.setLevel .warn, .execute, .setLevel .info, .execute], Admits .info l :=
    ⟨.info, by decide, by decide⟩
  rw [LogsOnce, if_pos hsome]
  decide

end BrLogger
