import BrLogger.Lib.Machine
import BrLogger.Ring.Buffer

/-!
# Producers and consumers on one ring

A `RingState` is the shared buffer, where every thread stands in its current
call, and a history that no step reads: the pushes in the order of their
successful compare-exchanges (`claimed`), how many slots the consumers have
released, the items `TryPop` handed out, and what each producer's calls
returned.  `RingState.step` is one atomic step of one thread, so the lists of
actions are all interleavings.

`PushMove` and `PopMove` list once what a step inside a call can do; every
invariant of the ring is proved by cases on them.
-/

namespace BrLogger

structure RingState (ι κ T : Type) where
  ring : MPSCRingBuffer T
  producer : ι → Option (T × PushPc)
  consumer : κ → Option (PopPc T)
  claimed : List (ι × T)
  released : Nat
  popped : List T
  completed : ι → List (T × Bool)
  accepted : List Nat

inductive RingAction (ι κ T : Type)
  | callPush (i : ι) (item : T)
  | stepPush (i : ι) (spurious : Bool)
  | returnPush (i : ι)
  | callPop (k : κ)
  | stepPop (k : κ)
  | returnPop (k : κ)

/-- The step that turns a pending compare-exchange into a claim. -/
def PushPc.claims : PushPc → PushPc → Bool
  | .compareExchange _, .writeData _ => true
  | _, _ => false

/-- The position of a claim that is not published yet. -/
def holding {T : Type} : Option (T × PushPc) → Option Nat
  | some (_, .writeData pos) => some pos
  | some (_, .publish pos) => some pos
  | _ => none

namespace RingState

variable {ι κ T : Type}

def create (junk : Nat → T) : RingState ι κ T where
  ring := .create junk
  producer _ := none
  consumer _ := none
  claimed := []
  released := 0
  popped := []
  completed _ := []
  accepted := []

/-- The claimed items, in the order of the compare-exchanges. -/
def items (s : RingState ι κ T) : List T := s.claimed.map Prod.snd

/-- Position `p` is claimed and its producer has not stored the new sequence. -/
def Held (s : RingState ι κ T) (p : Nat) : Prop := ∃ i, holding (s.producer i) = some p

/-- No two consumers are inside `TryPop`. -/
def Exclusive (s : RingState ι κ T) : Prop :=
  ∀ k k', s.consumer k ≠ none → s.consumer k' ≠ none → k = k'

variable [DecidableEq ι] [DecidableEq κ]

def setProducer (s : RingState ι κ T) (i : ι) (v : Option (T × PushPc)) : RingState ι κ T :=
  { s with producer := Function.update s.producer i v }

def setConsumer (s : RingState ι κ T) (k : κ) (v : Option (PopPc T)) : RingState ι κ T :=
  { s with consumer := Function.update s.consumer k v }

omit [DecidableEq ι] in
theorem setConsumer_self (s : RingState ι κ T) (k : κ) (v : Option (PopPc T)) :
    (s.setConsumer k v).consumer k = v := Function.update_self _ _ _

omit [DecidableEq ι] in
theorem setConsumer_of_ne (s : RingState ι κ T) {k k' : κ} (h : k' ≠ k) (v : Option (PopPc T)) :
    (s.setConsumer k v).consumer k' = s.consumer k' := Function.update_of_ne h _ _

/-! ### The steps -/

def callPush (s : RingState ι κ T) (i : ι) (item : T) : Option (RingState ι κ T) :=
  match s.producer i with
  | none => some (s.setProducer i (some (item, .loadPos)))
  | some _ => none

def stepPush (capacity : Nat) (s : RingState ι κ T) (i : ι) (spurious : Bool) :
    Option (RingState ι κ T) :=
  match s.producer i with
  | some (_, .returned _ _) => none
  | some (item, pc) =>
    let (ring, pc') := pushStep capacity item spurious s.ring pc
    some { s.setProducer i (some (item, pc')) with
      ring := ring
      claimed := if pc.claims pc' then s.claimed ++ [(i, item)] else s.claimed }
  | none => none

def returnPush (s : RingState ι κ T) (i : ι) : Option (RingState ι κ T) :=
  match s.producer i with
  | some (item, .returned pos result) =>
    some { s.setProducer i none with
      completed := Function.update s.completed i (s.completed i ++ [(item, result)])
      accepted := if result then s.accepted ++ [pos] else s.accepted }
  | _ => none

def callPop (s : RingState ι κ T) (k : κ) : Option (RingState ι κ T) :=
  match s.consumer k with
  | none => some (s.setConsumer k (some .loadSequence))
  | some _ => none

def stepPop (capacity : Nat) (s : RingState ι κ T) (k : κ) : Option (RingState ι κ T) :=
  match s.consumer k with
  | some (.returned _) => none
  | some pc =>
    let (ring, pc') := popStep capacity s.ring pc
    some { s.setConsumer k (some pc') with
      ring := ring
      released := match pc with | .release _ _ => s.released + 1 | _ => s.released
      popped := match pc with | .advance item => s.popped ++ [item] | _ => s.popped }
  | none => none

def returnPop (s : RingState ι κ T) (k : κ) : Option (RingState ι κ T) :=
  match s.consumer k with
  | some (.returned _) => some (s.setConsumer k none)
  | _ => none

def step (capacity : Nat) (s : RingState ι κ T) : RingAction ι κ T → Option (RingState ι κ T)
  | .callPush i item => s.callPush i item
  | .stepPush i spurious => s.stepPush capacity i spurious
  | .returnPush i => s.returnPush i
  | .callPop k => s.callPop k
  | .stepPop k => s.stepPop capacity k
  | .returnPop k => s.returnPop k

end RingState

/-- The concurrent program over one ring: any interleaving of the threads' steps. -/
def ringMachine (ι κ T : Type) [DecidableEq ι] [DecidableEq κ] (capacity : Nat) :
    Machine (RingState ι κ T) (RingAction ι κ T) where
  init s := ∃ junk, s = .create junk
  step s a := s.step capacity a

/-! ### What a step inside a call can do -/

/-- The outcomes of one step of producer `i`'s call `TryPush(item)` at `pc`. -/
inductive PushMove {ι κ T : Type} [DecidableEq ι] (capacity : Nat) (s : RingState ι κ T) (i : ι)
    (item : T) : PushPc → RingState ι κ T → Prop
  | loadPos :
      PushMove capacity s i item .loadPos
        (s.setProducer i (some (item, .loadSequence s.ring.writePos)))
  | matched {pos : Nat} (h : (s.ring.buffer (slotIndex capacity pos)).sequence = pos) :
      PushMove capacity s i item (.loadSequence pos)
        (s.setProducer i (some (item, .compareExchange pos)))
  | refused {pos : Nat} (h : (s.ring.buffer (slotIndex capacity pos)).sequence < pos) :
      PushMove capacity s i item (.loadSequence pos)
        (s.setProducer i (some (item, .returned pos false)))
  | stale {pos : Nat} (h : pos < (s.ring.buffer (slotIndex capacity pos)).sequence) :
      PushMove capacity s i item (.loadSequence pos) (s.setProducer i (some (item, .loadPos)))
  | claim {pos : Nat} (h : s.ring.writePos = pos) :
      PushMove capacity s i item (.compareExchange pos)
        { s.setProducer i (some (item, .writeData pos)) with
          ring := { s.ring with writePos := u32 (pos + 1) }
          claimed := s.claimed ++ [(i, item)] }
  | exchangeFailed {pos : Nat} :
      PushMove capacity s i item (.compareExchange pos)
        (s.setProducer i (some (item, .loadSequence s.ring.writePos)))
  | writeData {pos : Nat} :
      PushMove capacity s i item (.writeData pos)
        { s.setProducer i (some (item, .publish pos)) with
          ring := s.ring.storeData (slotIndex capacity pos) item }
  | publish {pos : Nat} :
      PushMove capacity s i item (.publish pos)
        { s.setProducer i (some (item, .returned pos true)) with
          ring := s.ring.storeSequence (slotIndex capacity pos) (u32 (pos + 1)) }

/-- The outcomes of one step of consumer `k`'s call `TryPop` at `pc`. -/
inductive PopMove {ι κ T : Type} [DecidableEq κ] (capacity : Nat) (s : RingState ι κ T) (k : κ) :
    PopPc T → RingState ι κ T → Prop
  | matched
      (h : (s.ring.buffer (slotIndex capacity s.ring.readPos)).sequence = u32 (s.ring.readPos + 1)) :
      PopMove capacity s k .loadSequence
        (s.setConsumer k (some (.copyData (slotIndex capacity s.ring.readPos))))
  | empty
      (h : (s.ring.buffer (slotIndex capacity s.ring.readPos)).sequence ≠ u32 (s.ring.readPos + 1)) :
      PopMove capacity s k .loadSequence (s.setConsumer k (some (.returned none)))
  | copyData {slot : Nat} :
      PopMove capacity s k (.copyData slot)
        (s.setConsumer k (some (.release slot (s.ring.buffer slot).data)))
  | release {slot : Nat} {item : T} :
      PopMove capacity s k (.release slot item)
        { s.setConsumer k (some (.advance item)) with
          ring := s.ring.storeSequence slot (u32 (s.ring.readPos + capacity))
          released := s.released + 1 }
  | advance {item : T} :
      PopMove capacity s k (.advance item)
        { s.setConsumer k (some (.returned (some item))) with
          ring := { s.ring with readPos := u32 (s.ring.readPos + 1) }
          popped := s.popped ++ [item] }

namespace RingState

variable {ι κ T : Type} {capacity : Nat} {s s' : RingState ι κ T}

section
variable [DecidableEq ι]

theorem callPush_cases {i : ι} {item : T} (h : s.callPush i item = some s') :
    s.producer i = none ∧ s' = s.setProducer i (some (item, .loadPos)) := by
  unfold callPush at h
  split at h
  · exact ⟨‹_›, (Option.some.inj h).symm⟩
  · cases h

theorem stepPush_cases {i : ι} {spurious : Bool} (h : s.stepPush capacity i spurious = some s') :
    ∃ item pc, s.producer i = some (item, pc) ∧ PushMove capacity s i item pc s' := by
  unfold stepPush at h
  split at h
  · cases h
  · rename_i item pc hnot hp
    have heq := (Option.some.inj h).symm
    subst heq
    refine ⟨item, pc, hp, ?_⟩
    cases pc with
    | loadPos => exact .loadPos
    | loadSequence pos =>
      simp only
      split
      · exact .matched ‹_›
      · split
        · exact .refused ‹_›
        · exact .stale (by omega)
    | compareExchange pos =>
      simp only
      split
      · rename_i hc
        exact .claim hc.1
      · exact .exchangeFailed
    | writeData pos => exact .writeData
    | publish pos => exact .publish
    | returned pos result => exact absurd rfl (hnot pos result)
  · cases h

theorem returnPush_cases {i : ι} (h : s.returnPush i = some s') :
    ∃ item pos result, s.producer i = some (item, .returned pos result) ∧
      s' = { s.setProducer i none with
        completed := Function.update s.completed i (s.completed i ++ [(item, result)])
        accepted := if result then s.accepted ++ [pos] else s.accepted } := by
  unfold returnPush at h
  split at h
  · exact ⟨_, _, _, ‹_›, (Option.some.inj h).symm⟩
  · cases h

end

section
variable [DecidableEq κ]

theorem callPop_cases {k : κ} (h : s.callPop k = some s') :
    s.consumer k = none ∧ s' = s.setConsumer k (some .loadSequence) := by
  unfold callPop at h
  split at h
  · exact ⟨‹_›, (Option.some.inj h).symm⟩
  · cases h

theorem stepPop_cases {k : κ} (h : s.stepPop capacity k = some s') :
    ∃ pc, s.consumer k = some pc ∧ PopMove capacity s k pc s' := by
  unfold stepPop at h
  split at h
  · cases h
  · rename_i pc hnot hp
    have heq := (Option.some.inj h).symm
    subst heq
    refine ⟨pc, hp, ?_⟩
    cases pc with
    | loadSequence =>
      simp only
      split
      · exact .matched ‹_›
      · exact .empty ‹_›
    | copyData slot => exact .copyData
    | release slot item => exact .release
    | advance item => exact .advance
    | returned result => exact absurd rfl (hnot result)
  · cases h

theorem returnPop_cases {k : κ} (h : s.returnPop k = some s') :
    ∃ result, s.consumer k = some (.returned result) ∧ s' = s.setConsumer k none := by
  unfold returnPop at h
  split at h
  · exact ⟨_, ‹_›, (Option.some.inj h).symm⟩
  · cases h

end

end RingState

end BrLogger
