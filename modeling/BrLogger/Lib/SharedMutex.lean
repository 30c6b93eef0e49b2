import BrLogger.Lib.Machine
import Mathlib.Data.List.Nodup
import Mathlib.Logic.Function.Basic
import Mathlib.Tactic.Common

/-!
# Objects behind a readers–writer lock

A `Guarded` object has operations that go through it access by access, each
holding the lock throughout: alone when it is exclusive, beside other readers
when it only reads.  `lockedMachine` interleaves the calls of any number of
threads, access by access, and logs a call when it gives the lock up.

Whatever the interleaving, the object goes through the states it would go
through if the logged calls ran one after the other, and every call returns what
it would return then (`linearizable`): between two exclusive calls a reader sees
one state only, the one the exclusive calls before it left.
-/

universe u v w x y

/-- The operations of an object, cut at their accesses to it. -/
structure Guarded (σ : Type u) (Op : Type v) (Loc : Type w) (Ret : Type x) where
  exclusive : Op → Bool
  enter : Op → Loc
  access : Op → Loc → σ → σ × (Loc ⊕ Ret)
  reads : ∀ op loc value, exclusive op = false → (access op loc value).1 = value

namespace Guarded

variable {σ : Type u} {Op : Type v} {Loc : Type w} {Ret : Type x} {ι : Type y}

/-- Going on from `loc` alone, the operation ends with this value and result. -/
inductive Runs (G : Guarded σ Op Loc Ret) (op : Op) : Loc → σ → σ → Ret → Prop
  | done {loc : Loc} {value value' : σ} {ret : Ret} (h : G.access op loc value = (value', .inr ret)) :
      Runs G op loc value value' ret
  | more {loc : Loc} {value last : σ} {ret : Ret} (loc' : Loc) (value' : σ)
      (h : G.access op loc value = (value', .inl loc')) (hrun : Runs G op loc' value' last ret) : Runs G op loc value last ret

/-- Alone, every operation does what `seq` says. -/
def Implements (G : Guarded σ Op Loc Ret) (seq : Op → σ → σ × Ret) : Prop :=
  ∀ op value, G.Runs op (G.enter op) value (seq op value).1 (seq op value).2

section
variable {G : Guarded σ Op Loc Ret} {seq : Op → σ → σ × Ret} {op : Op}

theorem Runs.unique {loc : Loc} {value last last' : σ} {ret ret' : Ret} (h : G.Runs op loc value last ret)
    (h' : G.Runs op loc value last' ret') : last = last' ∧ ret = ret' := by
  induction h with
  | done h =>
    cases h' with
    | done h' => rw [h] at h'; cases h'; exact ⟨rfl, rfl⟩
    | more _ _ h' => rw [h] at h'; cases h'
  | more _ _ h _ ih =>
    cases h' with
    | done h' => rw [h] at h'; cases h'
    | more _ _ h' hrun => rw [h] at h'; cases h'; exact ih hrun

theorem Implements.eq (h : G.Implements seq) {value last : σ} {ret : Ret}
    (hrun : G.Runs op (G.enter op) value last ret) : last = (seq op value).1 ∧ ret = (seq op value).2 :=
  hrun.unique (h op value)

end

/-! ### The threads -/

inductive Pc (Op : Type v) (Loc : Type w) (Ret : Type x)
  | idle
  | waiting (op : Op)
  | inside (op : Op) (loc : Loc)
  | leaving (op : Op) (ret : Ret)

/-- The lock is held by `owner` alone or by `readers`; the log has the completed calls. -/
structure LockedState (σ : Type u) (Op : Type v) (Loc : Type w) (Ret : Type x) (ι : Type y) where
  value : σ
  owner : Option ι
  readers : List ι
  thread : ι → Pc Op Loc Ret
  log : List (ι × Op × Ret)

inductive LockedAction (Op : Type v) (ι : Type y)
  | call (i : ι) (op : Op)
  | lock (i : ι)
  | access (i : ι)
  | unlock (i : ι)

namespace LockedState

def create (value : σ) : LockedState σ Op Loc Ret ι where
  value := value
  owner := none
  readers := []
  thread _ := .idle
  log := []

variable [DecidableEq ι]

def goto (s : LockedState σ Op Loc Ret ι) (i : ι) (pc : Pc Op Loc Ret) : LockedState σ Op Loc Ret ι :=
  { s with thread := Function.update s.thread i pc }

def call (s : LockedState σ Op Loc Ret ι) (i : ι) (op : Op) : Option (LockedState σ Op Loc Ret ι) :=
  match s.thread i with
  | .idle => some (s.goto i (.waiting op))
  | _ => none

/-- Exclusive: when nobody holds the lock.  Shared: when nobody holds it alone. -/
def lock (G : Guarded σ Op Loc Ret) (s : LockedState σ Op Loc Ret ι) (i : ι) : Option (LockedState σ Op Loc Ret ι) :=
  match s.thread i, s.owner with
  | .waiting op, none =>
    if G.exclusive op then
      if s.readers.isEmpty then some { s.goto i (.inside op (G.enter op)) with owner := some i } else none
    else some { s.goto i (.inside op (G.enter op)) with readers := i :: s.readers }
  | _, _ => none

def access (G : Guarded σ Op Loc Ret) (s : LockedState σ Op Loc Ret ι) (i : ι) : Option (LockedState σ Op Loc Ret ι) :=
  match s.thread i with
  | .inside op loc =>
    match G.access op loc s.value with
    | (value, .inl loc') => some { s.goto i (.inside op loc') with value := value }
    | (value, .inr ret) => some { s.goto i (.leaving op ret) with value := value }
  | _ => none

def unlock (G : Guarded σ Op Loc Ret) (s : LockedState σ Op Loc Ret ι) (i : ι) : Option (LockedState σ Op Loc Ret ι) :=
  match s.thread i with
  | .leaving op ret =>
    some { s.goto i .idle with
      owner := if G.exclusive op then none else s.owner
      readers := if G.exclusive op then s.readers else s.readers.erase i
      log := s.log ++ [(i, op, ret)] }
  | _ => none

def step (G : Guarded σ Op Loc Ret) (s : LockedState σ Op Loc Ret ι) :
    LockedAction Op ι → Option (LockedState σ Op Loc Ret ι)
  | .call i op => s.call i op
  | .lock i => s.lock G i
  | .access i => s.access G i
  | .unlock i => s.unlock G i

end LockedState

def lockedMachine (ι : Type y) [DecidableEq ι] (G : Guarded σ Op Loc Ret) (value : σ) :
    Machine (LockedState σ Op Loc Ret ι) (LockedAction Op ι) where
  init s := s = .create value
  step s a := s.step G a

/-- What a step can do. -/
inductive LockedMove [DecidableEq ι] (G : Guarded σ Op Loc Ret) (s : LockedState σ Op Loc Ret ι) :
    LockedAction Op ι → LockedState σ Op Loc Ret ι → Prop
  | call {i : ι} {op : Op} (hi : s.thread i = .idle) : LockedMove G s (.call i op) (s.goto i (.waiting op))
  | lock {i : ι} {op : Op} (hi : s.thread i = .waiting op) (hop : G.exclusive op = true) (howner : s.owner = none)
      (hreaders : s.readers = []) :
      LockedMove G s (.lock i) { s.goto i (.inside op (G.enter op)) with owner := some i }
  | lockShared {i : ι} {op : Op} (hi : s.thread i = .waiting op) (hop : G.exclusive op = false)
      (howner : s.owner = none) :
      LockedMove G s (.lock i) { s.goto i (.inside op (G.enter op)) with readers := i :: s.readers }
  | access {i : ι} {op : Op} {loc loc' : Loc} {value : σ} (hi : s.thread i = .inside op loc)
      (haccess : G.access op loc s.value = (value, .inl loc')) :
      LockedMove G s (.access i) { s.goto i (.inside op loc') with value := value }
  | finish {i : ι} {op : Op} {loc : Loc} {ret : Ret} {value : σ} (hi : s.thread i = .inside op loc)
      (haccess : G.access op loc s.value = (value, .inr ret)) :
      LockedMove G s (.access i) { s.goto i (.leaving op ret) with value := value }
  | unlock {i : ι} {op : Op} {ret : Ret} (hi : s.thread i = .leaving op ret) (hop : G.exclusive op = true) :
      LockedMove G s (.unlock i) { s.goto i .idle with owner := none, log := s.log ++ [(i, op, ret)] }
  | unlockShared {i : ι} {op : Op} {ret : Ret} (hi : s.thread i = .leaving op ret) (hop : G.exclusive op = false) :
      LockedMove G s (.unlock i)
        { s.goto i .idle with readers := s.readers.erase i, log := s.log ++ [(i, op, ret)] }

section
variable [DecidableEq ι] {G : Guarded σ Op Loc Ret} {s s' : LockedState σ Op Loc Ret ι}

theorem step_cases {a : LockedAction Op ι} (h : s.step G a = some s') : LockedMove G s a s' := by
  cases a with
  | call i op =>
    simp only [LockedState.step, LockedState.call] at h
    split at h <;> cases h
    exact .call ‹_›
  | lock i =>
    simp only [LockedState.step, LockedState.lock] at h
    split at h
    · rename_i op hi howner
      split at h
      · split at h <;> cases h
        exact .lock hi ‹_› howner (List.isEmpty_iff.mp ‹_›)
      · cases h
        exact .lockShared hi (Bool.eq_false_iff.mpr ‹_›) howner
    · cases h
  | access i =>
    simp only [LockedState.step, LockedState.access] at h
    split at h
    · rename_i hi
      split at h <;> cases h
      · exact .access hi ‹_›
      · exact .finish hi ‹_›
    · cases h
  | unlock i =>
    simp only [LockedState.step, LockedState.unlock] at h
    split at h
    · rename_i op ret hi
      cases hop : G.exclusive op with
      | true =>
        simp only [hop, if_true] at h
        cases h
        exact .unlock hi hop
      | false =>
        simp only [hop, Bool.false_eq_true, if_false] at h
        cases h
        exact .unlockShared hi hop
    · cases h

end

/-! ### One state at a time -/

/-- The logged calls, run one after the other from `x`, return what they returned and end at `y`. -/
inductive Explains (G : Guarded σ Op Loc Ret) (x : σ) : List (ι × Op × Ret) → σ → Prop
  | nil : Explains G x [] x
  | snoc {log : List (ι × Op × Ret)} {y z : σ} {i : ι} {op : Op} {ret : Ret} (h : Explains G x log y)
      (hrun : G.Runs op (G.enter op) y z ret) : Explains G x (log ++ [(i, op, ret)]) z

/-- What a thread holds, and how far its call has come from the state `y` the log left. -/
def ThreadAt (G : Guarded σ Op Loc Ret) (s : LockedState σ Op Loc Ret ι) (y : σ) (i : ι) : Pc Op Loc Ret → Prop
  | .inside op loc => (if G.exclusive op then s.owner = some i else i ∈ s.readers) ∧
      ∀ z ret, G.Runs op loc s.value z ret → G.Runs op (G.enter op) y z ret
  | .leaving op ret => (if G.exclusive op then s.owner = some i else i ∈ s.readers) ∧
      G.Runs op (G.enter op) y s.value ret
  | _ => s.owner ≠ some i ∧ i ∉ s.readers

structure LockedInv (G : Guarded σ Op Loc Ret) (x : σ) (s : LockedState σ Op Loc Ret ι) (y : σ) : Prop where
  explains : Explains G x s.log y
  settled : s.owner = none → s.value = y
  apart : s.owner ≠ none → s.readers = []
  nodup : s.readers.Nodup
  thread : ∀ i, ThreadAt G s y i (s.thread i)

section
variable {G : Guarded σ Op Loc Ret} {s s' : LockedState σ Op Loc Ret ι} {x y y' : σ} {i j : ι} {pc : Pc Op Loc Ret}

/-- A step that leaves thread `j` what it holds, and the object alone. -/
theorem ThreadAt.frame (h : ThreadAt G s y j pc) (hvalue : s'.value = s.value)
    (howner : s'.owner = some j ↔ s.owner = some j) (hreaders : j ∈ s'.readers ↔ j ∈ s.readers) :
    ThreadAt G s' y j pc := by
  cases pc with
  | inside op loc | leaving op ret =>
    simp only [ThreadAt, howner, hreaders, hvalue] at h ⊢
    exact h
  | idle | waiting =>
    simp only [ThreadAt, Ne, howner, hreaders] at h ⊢
    exact h

/-- A thread that holds nothing is in no operation. -/
theorem ThreadAt.outside (h : ThreadAt G s y j pc) (howner : s.owner ≠ some j) (hreaders : j ∉ s.readers)
    (howner' : s'.owner ≠ some j) (hreaders' : j ∉ s'.readers) : ThreadAt G s' y' j pc := by
  cases pc with
  | inside op loc | leaving op ret =>
    have hholds := h.1
    split at hholds
    · exact absurd hholds howner
    · exact absurd hholds hreaders
  | idle | waiting => exact ⟨howner', hreaders'⟩

theorem LockedInv.owner_of_exclusive (h : LockedInv G x s y) {op : Op} (hop : G.exclusive op = true)
    (hi : (∃ loc, s.thread i = .inside op loc) ∨ ∃ ret, s.thread i = .leaving op ret) :
    s.owner = some i ∧ s.readers = [] := by
  have howner : s.owner = some i := by
    have hat := h.thread i
    rcases hi with ⟨loc, hi⟩ | ⟨ret, hi⟩
    · rw [hi] at hat
      simpa only [hop, if_true] using hat.1
    · rw [hi] at hat
      simpa only [hop, if_true] using hat.1
  exact ⟨howner, h.apart (by rw [howner]; exact nofun)⟩

/-- While somebody reads, the object is what the log left. -/
theorem LockedInv.value_of_shared (h : LockedInv G x s y) {op : Op} (hop : G.exclusive op = false)
    (hi : (∃ loc, s.thread i = .inside op loc) ∨ ∃ ret, s.thread i = .leaving op ret) :
    i ∈ s.readers ∧ s.owner = none ∧ s.value = y := by
  have hreader : i ∈ s.readers := by
    have hat := h.thread i
    rcases hi with ⟨loc, hi⟩ | ⟨ret, hi⟩
    · rw [hi] at hat
      simpa only [hop, Bool.false_eq_true, if_false] using hat.1
    · rw [hi] at hat
      simpa only [hop, Bool.false_eq_true, if_false] using hat.1
  have howner : s.owner = none := by
    by_contra hne
    rw [h.apart hne] at hreader
    cases hreader
  exact ⟨hreader, howner, h.settled howner⟩

variable [DecidableEq ι]

theorem threadAt_update (hthread : s'.thread = Function.update s.thread i pc) (hi : ThreadAt G s' y i pc)
    (hother : ∀ j, j ≠ i → ThreadAt G s' y j (s.thread j)) (j : ι) : ThreadAt G s' y j (s'.thread j) := by
  rw [hthread]
  by_cases hji : j = i
  · subst hji
    rw [Function.update_self]
    exact hi
  · rw [Function.update_of_ne hji]
    exact hother j hji

/-- The steps of one access: the holder goes on alone, or as a reader. -/
theorem LockedInv.access (h : LockedInv G x s y) {op : Op} {loc : Loc} {value : σ} {next : Loc ⊕ Ret}
    (hi : s.thread i = .inside op loc) (haccess : G.access op loc s.value = (value, next))
    (hpc : ThreadAt G { s.goto i pc with value := value } y i pc) :
    LockedInv G x { s.goto i pc with value := value } y := by
  cases hop : G.exclusive op with
  | true =>
    obtain ⟨howner, hreaders⟩ := h.owner_of_exclusive hop (Or.inl ⟨loc, hi⟩)
    refine ⟨h.explains, fun hnone => ?_, h.apart, h.nodup, threadAt_update rfl hpc fun j hji => ?_⟩
    · cases howner.symm.trans hnone
    · have hother : s.owner ≠ some j ∧ j ∉ s.readers := by
        rw [howner, hreaders]
        exact ⟨fun he => hji (Option.some.inj he).symm, List.not_mem_nil⟩
      exact (h.thread j).outside hother.1 hother.2 hother.1 hother.2
  | false =>
    have hsame : value = s.value := by
      have hreads := G.reads op loc s.value hop
      rw [haccess] at hreads
      exact hreads
    subst hsame
    exact ⟨h.explains, h.settled, h.apart, h.nodup,
      threadAt_update rfl hpc fun j _ => (h.thread j).frame rfl Iff.rfl Iff.rfl⟩

/-- **One step keeps the object explained by the log.** -/
theorem LockedInv.step (h : LockedInv G x s y) {a : LockedAction Op ι} (hstep : s.step G a = some s') :
    ∃ y', LockedInv G x s' y' := by
  cases step_cases hstep with
  | @call i op hi =>
    have hat := h.thread i
    rw [hi] at hat
    exact ⟨y, h.explains, h.settled, h.apart, h.nodup,
      threadAt_update rfl hat fun j _ => (h.thread j).frame rfl Iff.rfl Iff.rfl⟩
  | @lock i op hi hop howner hreaders =>
    have hvalue := h.settled howner
    subst hvalue
    refine ⟨s.value, h.explains, nofun, fun _ => hreaders, h.nodup, threadAt_update rfl ?_ fun j hji => ?_⟩
    · exact ⟨by rw [hop]; rfl, fun _ _ hrun => hrun⟩
    · refine (h.thread j).frame rfl ?_ Iff.rfl
      rw [howner]
      exact ⟨fun he => absurd (Option.some.inj he).symm hji, nofun⟩
  | @lockShared i op hi hop howner =>
    have hat := h.thread i
    rw [hi] at hat
    have hvalue := h.settled howner
    subst hvalue
    refine ⟨s.value, h.explains, h.settled, fun hne => absurd howner hne, List.nodup_cons.mpr ⟨hat.2, h.nodup⟩,
      threadAt_update rfl ?_ fun j hji => ?_⟩
    · exact ⟨by rw [hop]; exact List.mem_cons_self .., fun _ _ hrun => hrun⟩
    · refine (h.thread j).frame rfl Iff.rfl ?_
      simp [hji]
  | @access i op loc loc' value hi haccess =>
    have hat := h.thread i
    rw [hi] at hat
    exact ⟨y, h.access hi haccess ⟨hat.1, fun _ _ hrun => hat.2 _ _ (.more _ _ haccess hrun)⟩⟩
  | @finish i op loc ret value hi haccess =>
    have hat := h.thread i
    rw [hi] at hat
    exact ⟨y, h.access hi haccess ⟨hat.1, hat.2 _ _ (.done haccess)⟩⟩
  | @unlock i op ret hi hop =>
    obtain ⟨howner, hreaders⟩ := h.owner_of_exclusive hop (Or.inr ⟨ret, hi⟩)
    have hnone : ∀ j, j ∉ s.readers := fun j => by rw [hreaders]; exact List.not_mem_nil
    have hat := h.thread i
    rw [hi] at hat
    refine ⟨s.value, h.explains.snoc hat.2, fun _ => rfl, fun hne => absurd rfl hne, h.nodup,
      threadAt_update rfl ⟨nofun, hnone i⟩ fun j hji => ?_⟩
    refine (h.thread j).outside ?_ (hnone j) nofun (hnone j)
    rw [howner]
    exact fun he => hji (Option.some.inj he).symm
  | @unlockShared i op ret hi hop =>
    obtain ⟨hreader, howner, hvalue⟩ := h.value_of_shared hop (Or.inr ⟨ret, hi⟩)
    have hat := h.thread i
    rw [hi] at hat
    refine ⟨y, h.explains.snoc (hvalue ▸ hat.2), h.settled, fun hne => absurd howner hne, h.nodup.erase i,
      threadAt_update rfl ⟨fun he => ?_, h.nodup.not_mem_erase⟩ fun j hji => ?_⟩
    · cases howner.symm.trans he
    · exact (h.thread j).frame rfl Iff.rfl (List.mem_erase_of_ne hji)

end

/-! ### Every run -/

section
variable [DecidableEq ι] {G : Guarded σ Op Loc Ret} {seq : Op → σ → σ × Ret} {s : LockedState σ Op Loc Ret ι} {x y : σ}

/-- The object after the logged calls, one after the other. -/
def replay (seq : Op → σ → σ × Ret) (x : σ) (log : List (ι × Op × Ret)) : σ :=
  log.foldl (fun y call => (seq call.2.1 y).1) x

omit [DecidableEq ι] in
theorem Explains.replay {log : List (ι × Op × Ret)} (h : Explains G x log y) (hseq : G.Implements seq) :
    y = replay seq x log ∧ ∀ before i op ret after, log = before ++ (i, op, ret) :: after →
      ret = (seq op (Guarded.replay seq x before)).2 := by
  induction h with
  | nil =>
    refine ⟨rfl, ?_⟩
    intro before i op ret after he
    cases before <;> cases he
  | @snoc log y z i op ret _ hrun ih =>
    obtain ⟨hy, hret⟩ := hseq.eq hrun
    rw [ih.1] at hy hret
    refine ⟨by rw [hy, Guarded.replay, Guarded.replay, List.foldl_append]; rfl, ?_⟩
    intro before j op' ret' after he
    rcases List.eq_nil_or_concat after with rfl | ⟨after, last, rfl⟩
    · obtain ⟨rfl, hlast⟩ := List.append_inj' he rfl
      cases hlast
      exact hret
    · rw [List.concat_eq_append, ← List.cons_append, ← List.append_assoc] at he
      obtain ⟨rfl, -⟩ := List.append_inj' he rfl
      exact ih.2 before j op' ret' after rfl

theorem lockedInv_of_reachable (h : (lockedMachine ι G x).Reachable s) : ∃ y, LockedInv G x s y := by
  refine h.induct (fun s => ∃ y, LockedInv G x s y) ?_ ?_
  · rintro s rfl
    exact ⟨x, .nil, fun _ => rfl, fun _ => rfl, List.nodup_nil, fun _ => ⟨nofun, List.not_mem_nil⟩⟩
  · rintro s a s' - ⟨y, h⟩ hstep
    exact h.step hstep

/-- **The calls take effect one at a time, in the order in which they give up the lock.** -/
theorem linearizable (hseq : G.Implements seq) (h : (lockedMachine ι G x).Reachable s) :
    (s.owner = none → s.value = replay seq x s.log) ∧
      ∀ before i op ret after, s.log = before ++ (i, op, ret) :: after → ret = (seq op (replay seq x before)).2 := by
  obtain ⟨y, hinv⟩ := lockedInv_of_reachable h
  obtain ⟨hy, hrets⟩ := hinv.explains.replay hseq
  exact ⟨fun howner => (hinv.settled howner).trans hy, hrets⟩

/-- A thread in an operation. -/
def Pc.Holds : Pc Op Loc Ret → Op → Prop
  | .inside op _, op' => op = op'
  | .leaving op _, op' => op = op'
  | _, _ => False

/-- **An exclusive operation has the object to itself.** -/
theorem exclusive_alone (h : (lockedMachine ι G x).Reachable s) {i j : ι} {op op' : Op}
    (hi : (s.thread i).Holds op) (hop : G.exclusive op = true) (hj : (s.thread j).Holds op') : i = j := by
  obtain ⟨y, hinv⟩ := lockedInv_of_reachable h
  have hcases : ∀ {k : ι} {op : Op}, (s.thread k).Holds op →
      (∃ loc, s.thread k = .inside op loc) ∨ ∃ ret, s.thread k = .leaving op ret := by
    intro k op hk
    cases hpc : s.thread k with
    | inside op loc => rw [hpc] at hk; cases hk; exact Or.inl ⟨loc, rfl⟩
    | leaving op ret => rw [hpc] at hk; cases hk; exact Or.inr ⟨ret, rfl⟩
    | idle | waiting => rw [hpc] at hk; cases hk
  obtain ⟨howner, -⟩ := hinv.owner_of_exclusive hop (hcases hi)
  cases hop' : G.exclusive op' with
  | true => exact Option.some.inj (howner.symm.trans (hinv.owner_of_exclusive hop' (hcases hj)).1)
  | false => cases howner.symm.trans (hinv.value_of_shared hop' (hcases hj)).2.1

/-- **No deadlock**: while a thread is in a call, some thread can go on. -/
theorem enabled (h : (lockedMachine ι G x).Reachable s) {i : ι} (hi : s.thread i ≠ .idle) :
    ∃ j, (s.lock G j).isSome ∨ (s.access G j).isSome ∨ (s.unlock G j).isSome := by
  obtain ⟨y, hinv⟩ := lockedInv_of_reachable h
  have hholder : ∀ j, s.owner = some j ∨ j ∈ s.readers → (s.access G j).isSome ∨ (s.unlock G j).isSome := by
    intro j hj
    have hat := hinv.thread j
    cases hpc : s.thread j with
    | inside op loc =>
      refine Or.inl ?_
      simp only [LockedState.access, hpc]
      split <;> rfl
    | leaving op ret => exact Or.inr (by simp only [LockedState.unlock, hpc]; rfl)
    | idle | waiting =>
      rw [hpc] at hat
      rcases hj with hj | hj
      · exact absurd hj hat.1
      · exact absurd hj hat.2
  cases hpc : s.thread i with
  | idle => exact absurd hpc hi
  | inside op loc =>
    refine ⟨i, Or.inr (Or.inl ?_)⟩
    simp only [LockedState.access, hpc]
    split <;> rfl
  | leaving op ret => exact ⟨i, Or.inr (Or.inr (by simp only [LockedState.unlock, hpc]; rfl))⟩
  | waiting op =>
    cases howner : s.owner with
    | some j => exact ⟨j, Or.inr (hholder j (Or.inl howner))⟩
    | none =>
      cases hreaders : s.readers with
      | nil =>
        refine ⟨i, Or.inl ?_⟩
        simp only [LockedState.lock, hpc, howner, hreaders, List.isEmpty_nil, if_true]
        split <;> rfl
      | cons j readers => exact ⟨j, Or.inr (hholder j (Or.inr (by rw [hreaders]; exact List.mem_cons_self ..)))⟩

end

end Guarded
