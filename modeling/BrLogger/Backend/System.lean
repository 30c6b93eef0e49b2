import BrLogger.Ring.System

/-!
# `LoggerBackend`: producers, worker and control thread

`backend.cpp` over the ring of `Ring/System.lean`.  There are two consumer
roles, the worker thread and the control thread that calls `Start`, `Stop` and
`Drain`; each stands somewhere in its function (`WorkerPc`, `ControlPc`), and
inside a `Drain` call at a `DrainPc`.  A step is one access to shared memory,
one call of a sink, or the join.

The history fields, which no step reads, are the entries whose dispatch is
complete and the positions accepted when the current `Stop` was called.

`DrainMove`, `WorkerMove` and `ControlMove` list once what a step can do.
-/

namespace BrLogger

inductive Role
  | worker
  | control
  deriving DecidableEq

def Role.other : Role → Role
  | .worker => .control
  | .control => .worker

/-- Inside `Drain(max_entries)`, with its local `count`. -/
inductive DrainPc (T : Type)
  | test (count : Nat)
  | pop (count : Nat)
  | write (count : Nat) (entry : T) (sink : Nat)
  | returned (count : Nat)
  deriving DecidableEq

/-- Inside `WorkerLoop`: at the test of `running_`, in its `Drain(64)`, in a
`Drain(64)` of the loop after it, or finished. -/
inductive WorkerPc (T : Type)
  | loop
  | drain (d : DrainPc T)
  | finalDrain (d : DrainPc T)
  | exited
  deriving DecidableEq

/-- Inside `Start`, `Stop` or `Drain`, or between calls. -/
inductive ControlPc (T : Type)
  | idle
  | startLoad
  | startStore
  | startThread
  | stopStore
  | stopJoin
  | stopDrain (d : DrainPc T)
  | stopFlush (sink : Nat)
  | drain (maxEntries : Nat) (d : DrainPc T)
  deriving DecidableEq

/-- What a sink is called with. -/
inductive SinkCall (T : Type)
  | write (entry : T)
  | flush

/-- The ring size, the number of sinks and `BR_LOG_HAS_THREAD`.  A ring of one slot, which
overwrites the entry it holds, is not considered (`Limits`). -/
structure BackendConfig where
  ringSize : RingCapacity
  ringSize_two_le : 2 ≤ ringSize.val
  sinks : Nat
  hasThread : Bool

structure BackendState (ι T : Type) where
  queue : RingState ι Role T
  running : Bool
  worker : Option (WorkerPc T)
  control : ControlPc T
  sinks : Nat → List (SinkCall T)
  dispatched : List T
  acceptedAtStop : List Nat

inductive BackendAction (ι T : Type)
  | callPush (i : ι) (entry : T)
  | stepPush (i : ι) (spurious : Bool)
  | returnPush (i : ι)
  | worker
  | callStart
  | callStop
  | callDrain (maxEntries : Nat)
  | control

def BackendAction.ofProducer {ι T : Type} : BackendAction ι T → Bool
  | .callPush _ _ => true
  | .stepPush _ _ => true
  | .returnPush _ => true
  | _ => false

namespace BackendState

variable {ι T : Type}

def create (junk : Nat → T) : BackendState ι T where
  queue := .create junk
  running := false
  worker := none
  control := .idle
  sinks _ := []
  dispatched := []
  acceptedAtStop := []

/-- The entries sink `k` was given, in order. -/
def written (s : BackendState ι T) (k : Nat) : List T :=
  (s.sinks k).filterMap fun c => match c with | .write entry => some entry | .flush => none

/-- The `Drain` call a role is in. -/
def draining (s : BackendState ι T) : Role → Option (DrainPc T)
  | .worker =>
    match s.worker with
    | some (.drain d) => some d
    | some (.finalDrain d) => some d
    | _ => none
  | .control =>
    match s.control with
    | .stopDrain d => some d
    | .drain _ d => some d
    | _ => none

def callSink (s : BackendState ι T) (k : Nat) (c : SinkCall T) : BackendState ι T :=
  { s with sinks := Function.update s.sinks k (s.sinks k ++ [c]) }

/-- `Dispatch`'s loop at sink `k`: there is a sink to write to, or the dispatch is
complete and `Drain` counts it. -/
def dispatchAt (cfg : BackendConfig) (s : BackendState ι T) (count : Nat) (entry : T) (k : Nat) :
    BackendState ι T × DrainPc T :=
  if k < cfg.sinks then (s, .write count entry k)
  else ({ s with dispatched := s.dispatched ++ [entry] }, .test (count + 1))

variable [DecidableEq ι]

/-- The next step of a `Drain(max_entries)` call; `none` when it has returned. -/
def drainStep (cfg : BackendConfig) (role : Role) (maxEntries : Nat) (s : BackendState ι T) :
    DrainPc T → Option (BackendState ι T × DrainPc T)
  | .test count =>
    if count < maxEntries then
      (s.queue.callPop role).map fun queue => ({ s with queue := queue }, .pop count)
    else some (s, .returned count)
  | .pop count =>
    match s.queue.consumer role with
    | some (.returned result) =>
      (s.queue.returnPop role).map fun queue =>
        match result with
        | some entry => dispatchAt cfg { s with queue := queue } count entry 0
        | none => ({ s with queue := queue }, .returned count)
    | _ =>
      (s.queue.stepPop cfg.ringSize.val role).map fun queue => ({ s with queue := queue }, .pop count)
  | .write count entry k => some (dispatchAt cfg (s.callSink k (.write entry)) count entry (k + 1))
  | .returned _ => none

/-- A caller of `Drain`: what it does with the returned count, or the call's next step. -/
def drainOr (cfg : BackendConfig) (role : Role) (maxEntries : Nat) (s : BackendState ι T)
    (d : DrainPc T) (done : Nat → BackendState ι T)
    (wrap : BackendState ι T → DrainPc T → BackendState ι T) : Option (BackendState ι T) :=
  match d with
  | .returned count => some (done count)
  | d => (drainStep cfg role maxEntries s d).map fun (s, d) => wrap s d

def workerStep (cfg : BackendConfig) (s : BackendState ι T) : Option (BackendState ι T) :=
  match s.worker with
  | some .loop =>
    some { s with worker := some (if s.running then .drain (.test 0) else .finalDrain (.test 0)) }
  | some (.drain d) =>
    drainOr cfg .worker 64 s d (fun _ => { s with worker := some .loop })
      fun s d => { s with worker := some (.drain d) }
  | some (.finalDrain d) =>
    drainOr cfg .worker 64 s d
      (fun count => { s with worker := some (if count > 0 then .finalDrain (.test 0) else .exited) })
      fun s d => { s with worker := some (.finalDrain d) }
  | some .exited => none
  | none => none

def controlStep (cfg : BackendConfig) (s : BackendState ι T) : Option (BackendState ι T) :=
  match s.control with
  | .idle => none
  | .startLoad => some { s with control := if s.running then .idle else .startStore }
  | .startStore => some { s with running := true, control := .startThread }
  | .startThread =>
    some { s with worker := if cfg.hasThread then some .loop else s.worker, control := .idle }
  | .stopStore => some { s with running := false, control := .stopJoin }
  | .stopJoin =>
    match s.worker with
    | none => some { s with control := .stopDrain (.test 0) }
    | some .exited => some { s with worker := none, control := .stopDrain (.test 0) }
    | some _ => none
  | .stopDrain d =>
    drainOr cfg .control 64 s d
      (fun count => { s with control := if count > 0 then .stopDrain (.test 0) else .stopFlush 0 })
      fun s d => { s with control := .stopDrain d }
  | .stopFlush k =>
    if k < cfg.sinks then some { s.callSink k .flush with control := .stopFlush (k + 1) }
    else some { s with control := .idle }
  | .drain maxEntries d =>
    drainOr cfg .control maxEntries s d (fun _ => { s with control := .idle })
      fun s d => { s with control := .drain maxEntries d }

/-- A call of the control thread, which makes one at a time. -/
def callControl (s : BackendState ι T) (control : ControlPc T) : Option (BackendState ι T) :=
  match s.control with
  | .idle => some { s with control := control }
  | _ => none

def queueStep (cfg : BackendConfig) (s : BackendState ι T) (a : RingAction ι Role T) :
    Option (BackendState ι T) :=
  (s.queue.step cfg.ringSize.val a).map fun queue => { s with queue := queue }

def step (cfg : BackendConfig) (s : BackendState ι T) : BackendAction ι T → Option (BackendState ι T)
  | .callPush i entry => s.queueStep cfg (.callPush i entry)
  | .stepPush i spurious => s.queueStep cfg (.stepPush i spurious)
  | .returnPush i => s.queueStep cfg (.returnPush i)
  | .worker => s.workerStep cfg
  | .callStart => s.callControl .startLoad
  | .callStop =>
    (s.callControl .stopStore).map fun s => { s with acceptedAtStop := s.queue.accepted }
  | .callDrain maxEntries => s.callControl (.drain maxEntries (.test 0))
  | .control => s.controlStep cfg

end BackendState

def backendMachine (ι T : Type) [DecidableEq ι] (cfg : BackendConfig) :
    Machine (BackendState ι T) (BackendAction ι T) where
  init s := ∃ junk, s = .create junk
  step s a := s.step cfg a

/-- `Drain` is called only while no worker thread exists, so that one role consumes
at a time: the worker from `Start` to its join, the control thread otherwise. -/
def SoleConsumer {ι T : Type} (s : BackendState ι T) : BackendAction ι T → Prop
  | .callDrain _ => s.worker = none
  | _ => True

instance {ι T : Type} [DecidableEq T] (s : BackendState ι T) (a : BackendAction ι T) :
    Decidable (SoleConsumer s a) := by
  cases a <;> unfold SoleConsumer <;> infer_instance

/-! ### What a step of a `Drain` call can do -/

inductive DrainMove {ι T : Type} [DecidableEq ι] (cfg : BackendConfig) (s : BackendState ι T)
    (role : Role) (maxEntries : Nat) : DrainPc T → BackendState ι T → DrainPc T → Prop
  | callPop {count : Nat} (hlt : count < maxEntries) (hidle : s.queue.consumer role = none) :
      DrainMove cfg s role maxEntries (.test count)
        { s with queue := s.queue.setConsumer role (some .loadSequence) } (.pop count)
  | finish {count : Nat} (hle : maxEntries ≤ count) :
      DrainMove cfg s role maxEntries (.test count) s (.returned count)
  | stepPop {count : Nat} {pc : PopPc T} {queue : RingState ι Role T}
      (hstep : s.queue.stepPop cfg.ringSize.val role = some queue)
      (hpc : s.queue.consumer role = some pc)
      (hmove : PopMove cfg.ringSize.val s.queue role pc queue) :
      DrainMove cfg s role maxEntries (.pop count) { s with queue := queue } (.pop count)
  | empty {count : Nat} (hpc : s.queue.consumer role = some (.returned none)) :
      DrainMove cfg s role maxEntries (.pop count)
        { s with queue := s.queue.setConsumer role none } (.returned count)
  | took {count : Nat} {entry : T} {s' : BackendState ι T} {d : DrainPc T}
      (hpc : s.queue.consumer role = some (.returned (some entry)))
      (hat : BackendState.dispatchAt cfg { s with queue := s.queue.setConsumer role none } count entry 0 =
        (s', d)) :
      DrainMove cfg s role maxEntries (.pop count) s' d
  | write {count k : Nat} {entry : T} {s' : BackendState ι T} {d : DrainPc T}
      (hat : BackendState.dispatchAt cfg (s.callSink k (.write entry)) count entry (k + 1) = (s', d)) :
      DrainMove cfg s role maxEntries (.write count entry k) s' d

inductive WorkerMove {ι T : Type} [DecidableEq ι] (cfg : BackendConfig) (s : BackendState ι T) :
    WorkerPc T → BackendState ι T → Prop
  | enter (hrun : s.running = true) :
      WorkerMove cfg s .loop { s with worker := some (.drain (.test 0)) }
  | leave (hrun : s.running = false) :
      WorkerMove cfg s .loop { s with worker := some (.finalDrain (.test 0)) }
  | drain {d d' : DrainPc T} {t : BackendState ι T} (hmove : DrainMove cfg s .worker 64 d t d') :
      WorkerMove cfg s (.drain d) { t with worker := some (.drain d') }
  | drained {count : Nat} : WorkerMove cfg s (.drain (.returned count)) { s with worker := some .loop }
  | finalDrain {d d' : DrainPc T} {t : BackendState ι T} (hmove : DrainMove cfg s .worker 64 d t d') :
      WorkerMove cfg s (.finalDrain d) { t with worker := some (.finalDrain d') }
  | again {count : Nat} (hpos : 0 < count) :
      WorkerMove cfg s (.finalDrain (.returned count)) { s with worker := some (.finalDrain (.test 0)) }
  | exit : WorkerMove cfg s (.finalDrain (.returned 0)) { s with worker := some .exited }

inductive ControlMove {ι T : Type} [DecidableEq ι] (cfg : BackendConfig) (s : BackendState ι T) :
    ControlPc T → BackendState ι T → Prop
  | running (hrun : s.running = true) : ControlMove cfg s .startLoad { s with control := .idle }
  | notRunning (hrun : s.running = false) :
      ControlMove cfg s .startLoad { s with control := .startStore }
  | startStore : ControlMove cfg s .startStore { s with running := true, control := .startThread }
  | startThread :
      ControlMove cfg s .startThread
        { s with worker := if cfg.hasThread then some .loop else s.worker, control := .idle }
  | stopStore : ControlMove cfg s .stopStore { s with running := false, control := .stopJoin }
  | stopJoin (hjoin : s.worker = none ∨ s.worker = some .exited) :
      ControlMove cfg s .stopJoin { s with worker := none, control := .stopDrain (.test 0) }
  | stopDrain {d d' : DrainPc T} {t : BackendState ι T} (hmove : DrainMove cfg s .control 64 d t d') :
      ControlMove cfg s (.stopDrain d) { t with control := .stopDrain d' }
  | stopAgain {count : Nat} (hpos : 0 < count) :
      ControlMove cfg s (.stopDrain (.returned count)) { s with control := .stopDrain (.test 0) }
  | stopDrained : ControlMove cfg s (.stopDrain (.returned 0)) { s with control := .stopFlush 0 }
  | flush {k : Nat} (hk : k < cfg.sinks) :
      ControlMove cfg s (.stopFlush k) { s.callSink k .flush with control := .stopFlush (k + 1) }
  | flushed {k : Nat} (hk : cfg.sinks ≤ k) : ControlMove cfg s (.stopFlush k) { s with control := .idle }
  | drain {maxEntries : Nat} {d d' : DrainPc T} {t : BackendState ι T}
      (hmove : DrainMove cfg s .control maxEntries d t d') :
      ControlMove cfg s (.drain maxEntries d) { t with control := .drain maxEntries d' }
  | drained {maxEntries count : Nat} :
      ControlMove cfg s (.drain maxEntries (.returned count)) { s with control := .idle }

namespace BackendState

variable {ι T : Type} [DecidableEq ι] {cfg : BackendConfig} {s s' : BackendState ι T} {role : Role}
  {maxEntries : Nat} {d d' : DrainPc T}

theorem drainStep_cases (h : drainStep cfg role maxEntries s d = some (s', d')) :
    DrainMove cfg s role maxEntries d s' d' := by
  cases d with
  | test count =>
    rw [drainStep] at h
    split at h
    · obtain ⟨queue, hq, he⟩ := Option.map_eq_some_iff.mp h
      obtain ⟨hidle, rfl⟩ := RingState.callPop_cases hq
      cases he
      exact .callPop ‹_› hidle
    · cases h
      exact .finish (by omega)
  | pop count =>
    rw [drainStep] at h
    split at h
    · rename_i result hpc
      obtain ⟨queue, hq, he⟩ := Option.map_eq_some_iff.mp h
      obtain ⟨_, -, rfl⟩ := RingState.returnPop_cases hq
      cases result with
      | none => cases he; exact .empty hpc
      | some entry => exact .took hpc he
    · obtain ⟨queue, hq, he⟩ := Option.map_eq_some_iff.mp h
      obtain ⟨pc, hpc, hmove⟩ := RingState.stepPop_cases hq
      cases he
      exact .stepPop hq hpc hmove
  | write count entry k =>
    rw [drainStep] at h
    exact .write (Option.some.inj h)
  | returned count => cases h

theorem drainOr_cases {done : Nat → BackendState ι T}
    {wrap : BackendState ι T → DrainPc T → BackendState ι T}
    (h : drainOr cfg role maxEntries s d done wrap = some s') :
    (∃ count, d = .returned count ∧ s' = done count) ∨
      ∃ t d', DrainMove cfg s role maxEntries d t d' ∧ s' = wrap t d' := by
  unfold drainOr at h
  split at h
  · exact Or.inl ⟨_, rfl, (Option.some.inj h).symm⟩
  · obtain ⟨⟨t, d'⟩, ht, rfl⟩ := Option.map_eq_some_iff.mp h
    exact Or.inr ⟨t, d', drainStep_cases ht, rfl⟩

theorem workerStep_cases (h : s.workerStep cfg = some s') :
    ∃ pc, s.worker = some pc ∧ WorkerMove cfg s pc s' := by
  unfold workerStep at h
  split at h
  · rename_i hw
    rw [← Option.some.inj h]
    by_cases hrun : s.running = true
    · rw [if_pos hrun]
      exact ⟨_, hw, .enter hrun⟩
    · rw [if_neg hrun]
      exact ⟨_, hw, .leave (Bool.eq_false_iff.mpr hrun)⟩
  · rename_i d hw
    rcases drainOr_cases h with ⟨count, rfl, rfl⟩ | ⟨t, d', hmove, rfl⟩
    · exact ⟨_, hw, .drained⟩
    · exact ⟨_, hw, .drain hmove⟩
  · rename_i d hw
    rcases drainOr_cases h with ⟨count, rfl, rfl⟩ | ⟨t, d', hmove, rfl⟩
    · rcases Nat.eq_zero_or_pos count with rfl | hpos
      · exact ⟨_, hw, .exit⟩
      · rw [if_pos hpos]
        exact ⟨_, hw, .again hpos⟩
    · exact ⟨_, hw, .finalDrain hmove⟩
  · cases h
  · cases h

theorem controlStep_cases (h : s.controlStep cfg = some s') :
    ∃ pc, s.control = pc ∧ ControlMove cfg s pc s' := by
  unfold controlStep at h
  split at h
  · cases h
  · rename_i hc
    rw [← Option.some.inj h]
    by_cases hrun : s.running = true
    · rw [if_pos hrun]
      exact ⟨_, hc, .running hrun⟩
    · rw [if_neg hrun]
      exact ⟨_, hc, .notRunning (Bool.eq_false_iff.mpr hrun)⟩
  · rename_i hc
    exact ⟨_, hc, Option.some.inj h ▸ .startStore⟩
  · rename_i hc
    exact ⟨_, hc, Option.some.inj h ▸ .startThread⟩
  · rename_i hc
    exact ⟨_, hc, Option.some.inj h ▸ .stopStore⟩
  · rename_i hc
    split at h
    · rename_i hw
      have he : s' = { s with worker := none, control := .stopDrain (.test 0) } := by
        rw [← Option.some.inj h, ← hw]
      exact ⟨_, hc, he ▸ .stopJoin (Or.inl hw)⟩
    · rename_i hw
      exact ⟨_, hc, Option.some.inj h ▸ .stopJoin (Or.inr hw)⟩
    · cases h
  · rename_i d hc
    rcases drainOr_cases h with ⟨count, rfl, rfl⟩ | ⟨t, d', hmove, rfl⟩
    · rcases Nat.eq_zero_or_pos count with rfl | hpos
      · exact ⟨_, hc, .stopDrained⟩
      · rw [if_pos hpos]
        exact ⟨_, hc, .stopAgain hpos⟩
    · exact ⟨_, hc, .stopDrain hmove⟩
  · rename_i k hc
    split at h
    · exact ⟨_, hc, Option.some.inj h ▸ .flush ‹_›⟩
    · exact ⟨_, hc, Option.some.inj h ▸ .flushed (by omega)⟩
  · rename_i maxEntries d hc
    rcases drainOr_cases h with ⟨count, rfl, rfl⟩ | ⟨t, d', hmove, rfl⟩
    · exact ⟨_, hc, .drained⟩
    · exact ⟨_, hc, .drain hmove⟩

omit [DecidableEq ι] in
/-- What is left of `dispatchAt`: the dispatch goes on, or it is complete. -/
theorem dispatchAt_cases {count k : Nat} {entry : T} (h : dispatchAt cfg s count entry k = (s', d)) :
    k < cfg.sinks ∧ s' = s ∧ d = .write count entry k ∨
      cfg.sinks ≤ k ∧ s' = { s with dispatched := s.dispatched ++ [entry] } ∧ d = .test (count + 1) := by
  unfold dispatchAt at h
  split at h
  · cases h
    exact Or.inl ⟨‹_›, rfl, rfl⟩
  · cases h
    exact Or.inr ⟨by omega, rfl, rfl⟩

theorem queueStep_cases {a : RingAction ι Role T} (h : s.queueStep cfg a = some s') :
    ∃ queue, s.queue.step cfg.ringSize.val a = some queue ∧ s' = { s with queue := queue } := by
  obtain ⟨queue, hq, rfl⟩ := Option.map_eq_some_iff.mp h
  exact ⟨queue, hq, rfl⟩

omit [DecidableEq ι] in
theorem callControl_cases {control : ControlPc T} (h : s.callControl control = some s') :
    s.control = .idle ∧ s' = { s with control := control } := by
  unfold callControl at h
  split at h
  · exact ⟨‹_›, (Option.some.inj h).symm⟩
  · cases h

end BackendState

end BrLogger
