import BrLogger.Lib.Machine

/-!
# Runs that write down what they do

`recording emit` is a machine beside which every step writes down what it emits,
oldest first.  Its runs are those of the machine (`recording_reachable`).  Where
each step adds to a quantity of the state what it emits, the quantity is what
was written down (`recording_eq`); and where each step takes what it emits from the
front of a store and adds behind it, what was written down and the store are
all that was ever added (`recording_append`).
-/

universe u v w

namespace Machine

variable {σ : Type u} {α : Type v} {β γ : Type w}

def recording (M : Machine σ α) (emit : σ → α → List β) : Machine (σ × List β) α where
  init s := M.init s.1 ∧ s.2 = []
  step s a := (M.step s.1 a).map fun t => (t, s.2 ++ emit s.1 a)

variable {M : Machine σ α} {emit : σ → α → List β} {s : σ × List β}

theorem recording_step_iff {a : α} {t : σ × List β} :
    (M.recording emit).step s a = some t ↔ M.step s.1 a = some t.1 ∧ t.2 = s.2 ++ emit s.1 a := by
  obtain ⟨t, written⟩ := t
  rw [recording, Option.map_eq_some_iff]
  constructor
  · rintro ⟨t', ht, he⟩
    cases he
    exact ⟨ht, rfl⟩
  · rintro ⟨ht, rfl⟩
    exact ⟨t, ht, rfl⟩

theorem recording_reachable (ok : σ → α → Prop)
    (h : (M.recording emit).ReachableVia (fun s a => ok s.1 a) s) :
    M.ReachableVia ok s.1 := by
  induction h with
  | init hinit => exact .init hinit.1
  | step _ hok hstep ih => exact .step ih hok (recording_step_iff.mp hstep).1

/-- **A quantity that grows by what is written down** is what was written down. -/
theorem recording_eq (ok : σ → α → Prop) (h : (M.recording emit).ReachableVia (fun s a => ok s.1 a) s)
    (out : σ → List γ) (f : β → γ)
    (hinit : ∀ s, M.init s → out s = [])
    (hstep : ∀ s a s', ok s a → M.step s a = some s' → out s' = out s ++ (emit s a).map f) : out s.1 = s.2.map f := by
  induction h with
  | init h =>
    rw [h.2, hinit _ h.1]
    rfl
  | step _ hok h ih =>
    obtain ⟨hs, hwritten⟩ := recording_step_iff.mp h
    rw [hwritten, List.map_append, ← ih]
    exact hstep _ _ _ hok hs

/-- **What was written down and what is left are the whole**, when each step takes what it
writes down from the front of what is left. -/
theorem recording_append (ok : σ → α → Prop) (h : (M.recording emit).ReachableVia (fun s a => ok s.1 a) s)
    (left whole : σ → List β) (hinit : ∀ s, M.init s → left s = whole s)
    (hstep : ∀ s a s', M.ReachableVia ok s → ok s a → M.step s a = some s' →
      ∃ more, whole s' = whole s ++ more ∧ emit s a ++ left s' = left s ++ more) : s.2 ++ left s.1 = whole s.1 := by
  induction h with
  | init h =>
    rw [h.2]
    exact hinit _ h.1
  | step hr hok h ih =>
    obtain ⟨hs, hwritten⟩ := recording_step_iff.mp h
    obtain ⟨more, hwhole, hleft⟩ := hstep _ _ _ (recording_reachable ok hr) hok hs
    rw [hwritten, hwhole, ← ih, List.append_assoc, List.append_assoc, hleft]

/-- What can be computed from what was written down could have been written down. -/
theorem recording_flatMap (ok : σ → α → Prop) (h : (M.recording emit).ReachableVia (fun s a => ok s.1 a) s)
    (g : β → List γ) {emit' : σ → α → List γ} (he : ∀ s a, emit' s a = (emit s a).flatMap g) :
    (M.recording emit').ReachableVia (fun s a => ok s.1 a) (s.1, s.2.flatMap g) := by
  induction h with
  | init hinit =>
    rw [hinit.2]
    exact .init ⟨hinit.1, rfl⟩
  | step _ hok hstep ih =>
    obtain ⟨hs, hwritten⟩ := recording_step_iff.mp hstep
    rw [hwritten, List.flatMap_append, ← he]
    exact .step ih hok (recording_step_iff.mpr ⟨hs, rfl⟩)

end Machine
