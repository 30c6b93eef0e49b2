import BrLogger.Backend.System
import BrLogger.Ring.Invariant

/-!
# Whose turn it is, and what the sinks have

As long as `Drain` is not called while a worker exists, the roles consume in
turns (`Turns`): a control thread that drains has joined the worker, and
`running_` is false only when there is no worker or `Stop` is waiting for it.
So the ring has one consumer at a time and keeps its invariant.

What the ring handed out is then what was dispatched completely, and after it
the one entry the draining role has in hand; and every sink has been given the
dispatched entries, in that order, and possibly the one in hand (`Delivering`).
-/

namespace BrLogger

namespace BackendState

variable {ι T : Type} [DecidableEq ι] {cfg : BackendConfig} {s s' t : BackendState ι T} {role : Role}
  {maxEntries : Nat} {d d' : DrainPc T}

/-! ### Frames -/

/-- A step of a `Drain` call touches the queue's consumer side, the sinks and the
history of dispatches. -/
structure DrainFrame (s t : BackendState ι T) : Prop where
  running : t.running = s.running
  worker : t.worker = s.worker
  control : t.control = s.control
  acceptedAtStop : t.acceptedAtStop = s.acceptedAtStop
  producer : t.queue.producer = s.queue.producer
  claimed : t.queue.claimed = s.queue.claimed
  accepted : t.queue.accepted = s.queue.accepted

theorem drainFrame (h : DrainMove cfg s role maxEntries d t d') : DrainFrame s t := by
  cases h with
  | callPop => exact ⟨rfl, rfl, rfl, rfl, rfl, rfl, rfl⟩
  | finish => exact ⟨rfl, rfl, rfl, rfl, rfl, rfl, rfl⟩
  | stepPop _ _ hmove => cases hmove <;> exact ⟨rfl, rfl, rfl, rfl, rfl, rfl, rfl⟩
  | empty => exact ⟨rfl, rfl, rfl, rfl, rfl, rfl, rfl⟩
  | took _ hat =>
    rcases dispatchAt_cases hat with ⟨-, rfl, -⟩ | ⟨-, rfl, -⟩ <;> exact ⟨rfl, rfl, rfl, rfl, rfl, rfl, rfl⟩
  | write hat =>
    rcases dispatchAt_cases hat with ⟨-, rfl, -⟩ | ⟨-, rfl, -⟩ <;> exact ⟨rfl, rfl, rfl, rfl, rfl, rfl, rfl⟩

omit [DecidableEq ι] in
theorem popMove_consumer {capacity : Nat} {q q' : RingState ι Role T} {pc : PopPc T}
    (h : PopMove capacity q role pc q') :
    ∃ pc', q'.consumer = Function.update q.consumer role (some pc') := by
  cases h <;> exact ⟨_, rfl⟩

/-- Inside `TryPop` exactly when at `pop`. -/
def ConsumerMatches (consumer : Option (PopPc T)) (d : Option (DrainPc T)) : Prop :=
  consumer ≠ none ↔ ∃ count, d = some (.pop count)

theorem consumer_of_drainMove (h : DrainMove cfg s role maxEntries d t d')
    (hs : ConsumerMatches (s.queue.consumer role) (some d)) :
    ConsumerMatches (t.queue.consumer role) (some d') ∧
      ∀ other, other ≠ role → t.queue.consumer other = s.queue.consumer other := by
  have hidle : (∀ count, d ≠ .pop count) → s.queue.consumer role = none := by
    intro hd
    by_contra hne
    obtain ⟨count, he⟩ := hs.mp hne
    exact hd count (Option.some.inj he)
  have hset : ∀ v other, other ≠ role →
      (s.queue.setConsumer role v).consumer other = s.queue.consumer other :=
    fun v other hne => s.queue.setConsumer_of_ne hne v
  have hself := s.queue.setConsumer_self role
  cases h with
  | callPop => exact ⟨by simp [ConsumerMatches, hself], hset _⟩
  | finish => exact ⟨by simp [ConsumerMatches, hidle], fun _ _ => rfl⟩
  | stepPop _ hpc hmove =>
    obtain ⟨pc', he⟩ := popMove_consumer hmove
    exact ⟨by simp [ConsumerMatches, he], fun other hne => by rw [he, Function.update_of_ne hne]⟩
  | empty => exact ⟨by simp [ConsumerMatches, hself], hset _⟩
  | took _ hat =>
    rcases dispatchAt_cases hat with ⟨-, rfl, rfl⟩ | ⟨-, rfl, rfl⟩ <;>
      exact ⟨by simp [ConsumerMatches, hself], hset _⟩
  | write hat =>
    have hnone := hidle nofun
    rcases dispatchAt_cases hat with ⟨-, rfl, rfl⟩ | ⟨-, rfl, rfl⟩ <;>
      exact ⟨by simp [ConsumerMatches, callSink, hnone], fun _ _ => rfl⟩

/-! ### Turns -/

structure Turns (s : BackendState ι T) : Prop where
  consumer : ∀ role, ConsumerMatches (s.queue.consumer role) (s.draining role)
  sole : s.draining .control ≠ none → s.worker = none
  stopped : s.running = false → s.worker ≠ none → s.control = .stopJoin
  starting : s.control = .startStore → s.running = false
  unstarted : s.control = .startThread → s.worker = none ∧ s.running = true
  flushing : ∀ k, s.control = .stopFlush k → s.worker = none

omit [DecidableEq ι] in
theorem draining_worker_none (h : s.worker = none) : s.draining .worker = none := by
  rw [draining, h]

omit [DecidableEq ι] in
theorem Turns.other_none (h : Turns s) (hd : s.draining role ≠ none) : s.draining role.other = none := by
  cases role with
  | worker =>
    by_contra hne
    exact hd (draining_worker_none (h.sole hne))
  | control => exact draining_worker_none (h.sole hd)

omit [DecidableEq ι] in
/-- One of the roles is not in a `Drain` call. -/
theorem Turns.exists_other_none (h : Turns s) : ∃ role : Role, s.draining role.other = none := by
  cases hc : s.draining .control with
  | none => exact ⟨.worker, hc⟩
  | some d => exact ⟨.control, draining_worker_none (h.sole (by rw [hc]; exact nofun))⟩

omit [DecidableEq ι] in
theorem Turns.exclusive (h : Turns s) : s.queue.Exclusive := by
  have hdrain : ∀ role, s.queue.consumer role ≠ none → s.draining role ≠ none := by
    intro role hne hnone
    obtain ⟨count, hcount⟩ := (h.consumer role).mp hne
    rw [hnone] at hcount
    cases hcount
  intro k k' hk hk'
  have hother := h.other_none (hdrain k hk)
  cases k <;> cases k' <;> first | rfl | exact absurd hother (hdrain _ hk')

omit [DecidableEq ι] in
theorem turns_create (junk : Nat → T) : Turns (create junk : BackendState ι T) where
  consumer role := by cases role <;> simp [ConsumerMatches, create, RingState.create, draining]
  sole h := absurd rfl h
  stopped _ h := absurd rfl h
  starting h := nomatch h
  unstarted h := nomatch h
  flushing _ h := nomatch h

omit [DecidableEq ι] in
theorem draining_worker_congr (h : s'.worker = s.worker) : s'.draining .worker = s.draining .worker := by
  rw [draining, draining, h]

omit [DecidableEq ι] in
theorem draining_control_congr (h : s'.control = s.control) :
    s'.draining .control = s.draining .control := by
  rw [draining, draining, h]

omit [DecidableEq ι] in
/-- A step of the worker keeps the turns when it keeps its own. -/
theorem Turns.of_worker (h : Turns s) (hw : s.worker ≠ none) (hcontrol : s'.control = s.control)
    (hrunning : s'.running = s.running)
    (hqueue : s'.queue.consumer .control = s.queue.consumer .control)
    (hmatches : ConsumerMatches (s'.queue.consumer .worker) (s'.draining .worker)) : Turns s' := by
  have hdrain := draining_control_congr hcontrol
  refine ⟨?_, ?_, ?_, ?_, ?_, ?_⟩
  · intro role
    cases role with
    | worker => exact hmatches
    | control =>
      rw [hqueue, hdrain]
      exact h.consumer .control
  · intro hne
    rw [hdrain] at hne
    exact absurd (h.sole hne) hw
  · intro hr _
    rw [hcontrol]
    exact h.stopped (hrunning ▸ hr) hw
  · intro hc
    rw [hrunning]
    exact h.starting (hcontrol ▸ hc)
  · intro hc
    exact absurd (h.unstarted (hcontrol ▸ hc)).1 hw
  · intro k hc
    exact absurd (h.flushing k (hcontrol ▸ hc)) hw

omit [DecidableEq ι] in
/-- Without a worker the turns are the control thread's. -/
theorem Turns.of_no_worker (hw : s'.worker = none)
    (hworker : s'.queue.consumer .worker = none)
    (hmatches : ConsumerMatches (s'.queue.consumer .control) (s'.draining .control))
    (hstarting : s'.control = .startStore → s'.running = false)
    (hunstarted : s'.control = .startThread → s'.running = true) : Turns s' := by
  refine ⟨?_, fun _ => hw, fun _ hne => absurd hw hne, hstarting, fun hc => ⟨hw, hunstarted hc⟩,
    fun _ _ => hw⟩
  intro role
  cases role with
  | worker => simp [ConsumerMatches, hworker, draining_worker_none hw]
  | control => exact hmatches

omit [DecidableEq ι] in
/-- A step of the control thread outside `Drain`. -/
theorem Turns.of_control (h : Turns s) (hqueue : s'.queue.consumer = s.queue.consumer)
    (hworker : s'.worker = s.worker) (hdrain : s.draining .control = none)
    (hdrain' : s'.draining .control = none)
    (hstopped : s'.running = false → s.worker ≠ none → s'.control = .stopJoin)
    (hstarting : s'.control = .startStore → s'.running = false)
    (hunstarted : s'.control = .startThread → s.worker = none ∧ s'.running = true)
    (hflushing : ∀ k, s'.control = .stopFlush k → s.worker = none) : Turns s' := by
  refine ⟨?_, fun hne => absurd hdrain' hne, ?_, hstarting, ?_, ?_⟩
  · intro role
    rw [hqueue]
    cases role with
    | worker =>
      rw [draining_worker_congr hworker]
      exact h.consumer .worker
    | control =>
      rw [hdrain', ← hdrain]
      exact h.consumer .control
  · rw [hworker]
    exact hstopped
  · rw [hworker]
    exact hunstarted
  · rw [hworker]
    exact hflushing

omit [DecidableEq ι] in
theorem Turns.consumer_none (h : Turns s) (role : Role)
    (hd : ∀ count, s.draining role ≠ some (.pop count)) : s.queue.consumer role = none := by
  by_contra hne
  obtain ⟨count, he⟩ := (h.consumer role).mp hne
  exact hd count he

theorem Turns.worker (h : Turns s) {pc : WorkerPc T} (hw : s.worker = some pc)
    (hmove : WorkerMove cfg s pc s') : Turns s' := by
  have hne : s.worker ≠ none := by rw [hw]; exact nofun
  have hidle : (∀ count, s.draining .worker ≠ some (.pop count)) → ∀ d : Option (DrainPc T),
      (∀ count, d ≠ some (.pop count)) → ConsumerMatches (s.queue.consumer .worker) d := by
    intro hd d hd'
    rw [h.consumer_none .worker hd]
    simpa [ConsumerMatches] using hd'
  have hdrain : ∀ {d t d'}, s.draining .worker = some d → DrainMove cfg s .worker 64 d t d' →
      (t.queue.consumer .control = s.queue.consumer .control) ∧
        ConsumerMatches (t.queue.consumer .worker) (some d') := by
    intro d t d' hd hmove
    obtain ⟨hself, hother⟩ := consumer_of_drainMove hmove (hd ▸ h.consumer .worker)
    exact ⟨hother .control nofun, hself⟩
  cases hmove with
  | enter => exact h.of_worker hne rfl rfl rfl (hidle (by simp [draining, hw]) _ nofun)
  | leave => exact h.of_worker hne rfl rfl rfl (hidle (by simp [draining, hw]) _ nofun)
  | drain hmove =>
    obtain ⟨hcontrol, hmatches⟩ := hdrain (by rw [draining, hw]) hmove
    have hframe := drainFrame hmove
    exact h.of_worker hne hframe.control hframe.running hcontrol hmatches
  | drained => exact h.of_worker hne rfl rfl rfl (hidle (by simp [draining, hw]) _ nofun)
  | finalDrain hmove =>
    obtain ⟨hcontrol, hmatches⟩ := hdrain (by rw [draining, hw]) hmove
    have hframe := drainFrame hmove
    exact h.of_worker hne hframe.control hframe.running hcontrol hmatches
  | again => exact h.of_worker hne rfl rfl rfl (hidle (by simp [draining, hw]) _ nofun)
  | exit => exact h.of_worker hne rfl rfl rfl (hidle (by simp [draining, hw]) _ nofun)

theorem Turns.control (h : Turns s) {pc : ControlPc T} (hc : s.control = pc)
    (hmove : ControlMove cfg s pc s') : Turns s' := by
  have hstop : s.control ≠ .stopJoin → s.running = false → s.worker = none := by
    intro hne hr
    by_contra hw
    exact hne (h.stopped hr hw)
  have hdrain : ∀ {maxEntries d t d'}, s.draining .control = some d →
      DrainMove cfg s .control maxEntries d t d' →
      t.worker = none ∧ t.queue.consumer .worker = none ∧
        ConsumerMatches (t.queue.consumer .control) (some d') := by
    intro maxEntries d t d' hd hmove
    have hw := h.sole (by rw [hd]; exact nofun)
    obtain ⟨hself, hother⟩ := consumer_of_drainMove hmove (hd ▸ h.consumer .control)
    refine ⟨(drainFrame hmove).worker.trans hw, ?_, hself⟩
    rw [hother .worker nofun]
    exact h.consumer_none .worker (by rw [draining_worker_none hw]; exact nofun)
  -- the moves into, between and out of the control thread's `Drain` calls
  have halone : s'.worker = none → s'.queue = s.queue → s.draining .worker = none →
      (∀ count, s.draining .control ≠ some (.pop count)) →
      (∀ count, s'.draining .control ≠ some (.pop count)) → s'.control ≠ .startStore →
      s'.control ≠ .startThread → Turns s' := by
    intro hw' hq hworker hd hd' hstart hthread
    refine .of_no_worker hw' ?_ ?_ (fun he => absurd he hstart) (fun he => absurd he hthread)
    · rw [hq]
      exact h.consumer_none .worker (by rw [hworker]; exact nofun)
    · rw [hq, h.consumer_none .control hd]
      simpa [ConsumerMatches] using hd'
  cases hmove with
  | running hrun =>
    exact h.of_control rfl rfl (by rw [draining, hc]) rfl (fun hr => by rw [hrun] at hr; cases hr) nofun nofun
      nofun
  | notRunning hrun =>
    have hw := hstop (by rw [hc]; exact nofun) hrun
    exact h.of_control rfl rfl (by rw [draining, hc]) rfl (fun _ hne => absurd hw hne) (fun _ => hrun)
      nofun nofun
  | startStore =>
    have hw := hstop (by rw [hc]; exact nofun) (h.starting hc)
    exact h.of_control rfl rfl (by rw [draining, hc]) rfl nofun nofun (fun _ => ⟨hw, rfl⟩) nofun
  | startThread =>
    obtain ⟨hw, hrun⟩ := h.unstarted hc
    have hnone := h.consumer_none .worker (by rw [draining_worker_none hw]; exact nofun)
    have hrun' : s.running ≠ false := by rw [hrun]; exact nofun
    refine ⟨?_, nofun, fun hr => absurd hr hrun', nofun, nofun, nofun⟩
    intro role
    cases role with
    | worker =>
      show ConsumerMatches (s.queue.consumer .worker) _
      rw [hnone]
      cases hthread : cfg.hasThread <;> simp [ConsumerMatches, draining, hw]
    | control =>
      show ConsumerMatches (s.queue.consumer .control) none
      have hmatches := h.consumer .control
      rwa [draining, hc] at hmatches
  | stopStore => exact h.of_control rfl rfl (by rw [draining, hc]) rfl (fun _ _ => rfl) nofun nofun nofun
  | stopJoin hjoin =>
    have hworker : s.draining .worker = none := by rcases hjoin with hw | hw <;> rw [draining, hw]
    exact halone rfl rfl hworker (by rw [draining, hc]; exact nofun) nofun nofun nofun
  | stopDrain hmove =>
    obtain ⟨hw, hworker, hmatches⟩ := hdrain (by rw [draining, hc]) hmove
    exact .of_no_worker hw hworker hmatches nofun nofun
  | stopAgain =>
    have hw := h.sole (by rw [draining, hc]; exact nofun)
    exact halone hw rfl (draining_worker_none hw) (by rw [draining, hc]; exact nofun) nofun nofun nofun
  | stopDrained =>
    have hw := h.sole (by rw [draining, hc]; exact nofun)
    exact halone hw rfl (draining_worker_none hw) (by rw [draining, hc]; exact nofun) nofun nofun nofun
  | flush =>
    refine h.of_control rfl rfl (by rw [draining, hc]) rfl ?_ nofun nofun (fun _ _ => h.flushing _ hc)
    exact fun hr hne => absurd (hstop (by rw [hc]; exact nofun) hr) hne
  | flushed =>
    refine h.of_control rfl rfl (by rw [draining, hc]) rfl ?_ nofun nofun nofun
    exact fun hr hne => absurd (hstop (by rw [hc]; exact nofun) hr) hne
  | drain hmove =>
    obtain ⟨hw, hworker, hmatches⟩ := hdrain (by rw [draining, hc]) hmove
    exact .of_no_worker hw hworker hmatches nofun nofun
  | drained =>
    have hw := h.sole (by rw [draining, hc]; exact nofun)
    exact halone hw rfl (draining_worker_none hw) (by rw [draining, hc]; exact nofun) nofun nofun nofun

omit [DecidableEq ι] in
theorem Turns.queue_frame (h : Turns s) {queue : RingState ι Role T}
    (hq : queue.consumer = s.queue.consumer) : Turns { s with queue := queue } := by
  refine ⟨?_, h.sole, h.stopped, h.starting, h.unstarted, h.flushing⟩
  intro role
  show ConsumerMatches (queue.consumer role) (s.draining role)
  rw [hq]
  exact h.consumer role

omit [DecidableEq ι] in
/-- A call starts outside `Drain`, or in a `Drain` that has nobody to share with. -/
theorem Turns.call (h : Turns s) (hidle : s.control = .idle) {control : ControlPc T}
    (hcontrol : control = .startLoad ∨ control = .stopStore ∨
      s.worker = none ∧ ∃ maxEntries, control = .drain maxEntries (.test 0)) :
    Turns { s with control := control } := by
  have hw : s.running = false → s.worker ≠ none → False := by
    intro hr hne
    have he := h.stopped hr hne
    rw [hidle] at he
    cases he
  have hnone : s.draining .control = none := by rw [draining, hidle]
  rcases hcontrol with rfl | rfl | ⟨hworker, maxEntries, rfl⟩
  · exact h.of_control rfl rfl hnone rfl (fun hr hne => (hw hr hne).elim) nofun nofun nofun
  · exact h.of_control rfl rfl hnone rfl (fun hr hne => (hw hr hne).elim) nofun nofun nofun
  · refine .of_no_worker hworker ?_ ?_ nofun nofun
    · exact h.consumer_none .worker (by rw [draining_worker_none hworker]; exact nofun)
    · show ConsumerMatches (s.queue.consumer .control) _
      rw [h.consumer_none .control (by rw [hnone]; exact nofun)]
      simp [ConsumerMatches, draining]

/-- **Turns are kept by every step that does not call `Drain` beside a worker.** -/
theorem Turns.step (h : Turns s) {a : BackendAction ι T} (hsole : SoleConsumer s a)
    (hstep : s.step cfg a = some s') : Turns s' := by
  cases a with
  | callPush i entry =>
    obtain ⟨queue, hq, rfl⟩ := queueStep_cases hstep
    obtain ⟨-, rfl⟩ := RingState.callPush_cases hq
    exact h.queue_frame rfl
  | stepPush i spurious =>
    obtain ⟨queue, hq, rfl⟩ := queueStep_cases hstep
    obtain ⟨item, pc, -, hmove⟩ := RingState.stepPush_cases hq
    cases hmove <;> exact h.queue_frame rfl
  | returnPush i =>
    obtain ⟨queue, hq, rfl⟩ := queueStep_cases hstep
    obtain ⟨_, _, _, -, rfl⟩ := RingState.returnPush_cases hq
    exact h.queue_frame rfl
  | worker =>
    obtain ⟨pc, hw, hmove⟩ := workerStep_cases hstep
    exact h.worker hw hmove
  | callStart =>
    obtain ⟨hidle, rfl⟩ := callControl_cases hstep
    exact h.call hidle (Or.inl rfl)
  | callStop =>
    obtain ⟨t, ht, rfl⟩ := Option.map_eq_some_iff.mp hstep
    obtain ⟨hidle, rfl⟩ := callControl_cases ht
    have hcall := h.call hidle (Or.inr (Or.inl rfl))
    exact ⟨hcall.consumer, hcall.sole, hcall.stopped, hcall.starting, hcall.unstarted, hcall.flushing⟩
  | callDrain maxEntries =>
    obtain ⟨hidle, rfl⟩ := callControl_cases hstep
    exact h.call hidle (Or.inr (Or.inr ⟨hsole, maxEntries, rfl⟩))
  | control =>
    obtain ⟨pc, hc, hmove⟩ := controlStep_cases hstep
    exact h.control hc hmove

/-! ### The queue under the backend -/

/-- A step of a `Drain` call is a step of the queue or leaves it alone. -/
theorem queue_of_drainMove (h : DrainMove cfg s role maxEntries d t d') :
    t.queue = s.queue ∨ ∃ a, s.queue.step cfg.ringSize.val a = some t.queue := by
  have hreturn : ∀ result, s.queue.consumer role = some (.returned result) →
      s.queue.step cfg.ringSize.val (.returnPop role) = some (s.queue.setConsumer role none) := by
    intro result hpc
    simp only [RingState.step, RingState.returnPop, hpc]
  cases h with
  | callPop _ hidle =>
    refine Or.inr ⟨.callPop role, ?_⟩
    simp only [RingState.step, RingState.callPop, hidle]
  | finish => exact Or.inl rfl
  | stepPop hstep => exact Or.inr ⟨.stepPop role, hstep⟩
  | empty hpc => exact Or.inr ⟨_, hreturn _ hpc⟩
  | took hpc hat =>
    rcases dispatchAt_cases hat with ⟨-, rfl, -⟩ | ⟨-, rfl, -⟩ <;> exact Or.inr ⟨_, hreturn _ hpc⟩
  | write hat => rcases dispatchAt_cases hat with ⟨-, rfl, -⟩ | ⟨-, rfl, -⟩ <;> exact Or.inl rfl

theorem queue_of_step {a : BackendAction ι T} (h : s.step cfg a = some s') :
    s'.queue = s.queue ∨ ∃ b, s.queue.step cfg.ringSize.val b = some s'.queue := by
  cases a with
  | callPush i entry => obtain ⟨queue, hq, rfl⟩ := queueStep_cases h; exact Or.inr ⟨_, hq⟩
  | stepPush i spurious => obtain ⟨queue, hq, rfl⟩ := queueStep_cases h; exact Or.inr ⟨_, hq⟩
  | returnPush i => obtain ⟨queue, hq, rfl⟩ := queueStep_cases h; exact Or.inr ⟨_, hq⟩
  | worker =>
    obtain ⟨pc, -, hmove⟩ := workerStep_cases h
    cases hmove with
    | drain hmove => have hq := queue_of_drainMove hmove; exact hq
    | finalDrain hmove => have hq := queue_of_drainMove hmove; exact hq
    | _ => exact Or.inl rfl
  | callStart => obtain ⟨-, rfl⟩ := callControl_cases h; exact Or.inl rfl
  | callStop =>
    obtain ⟨t, ht, rfl⟩ := Option.map_eq_some_iff.mp h
    obtain ⟨-, rfl⟩ := callControl_cases ht
    exact Or.inl rfl
  | callDrain maxEntries => obtain ⟨-, rfl⟩ := callControl_cases h; exact Or.inl rfl
  | control =>
    obtain ⟨pc, -, hmove⟩ := controlStep_cases h
    cases hmove with
    | stopDrain hmove => have hq := queue_of_drainMove hmove; exact hq
    | drain hmove => have hq := queue_of_drainMove hmove; exact hq
    | _ => exact Or.inl rfl

theorem claimed_length_le_of_step {a : BackendAction ι T} (h : s.step cfg a = some s') :
    s.queue.claimed.length ≤ s'.queue.claimed.length := by
  rcases queue_of_step h with he | ⟨b, hb⟩
  · rw [he]
  · exact RingState.claimed_length_le hb

/-- The worker and the control thread leave the producers alone. -/
theorem producer_frame {a : BackendAction ι T} (ha : a.ofProducer = false) (h : s.step cfg a = some s') :
    s'.queue.producer = s.queue.producer ∧ s'.queue.claimed = s.queue.claimed ∧
      s'.queue.accepted = s.queue.accepted := by
  cases a with
  | callPush => cases ha
  | stepPush => cases ha
  | returnPush => cases ha
  | worker =>
    obtain ⟨pc, -, hmove⟩ := workerStep_cases h
    cases hmove with
    | drain hmove => have hframe := drainFrame hmove; exact ⟨hframe.producer, hframe.claimed, hframe.accepted⟩
    | finalDrain hmove => have hframe := drainFrame hmove; exact ⟨hframe.producer, hframe.claimed, hframe.accepted⟩
    | _ => exact ⟨rfl, rfl, rfl⟩
  | callStart => obtain ⟨-, rfl⟩ := callControl_cases h; exact ⟨rfl, rfl, rfl⟩
  | callStop =>
    obtain ⟨t, ht, rfl⟩ := Option.map_eq_some_iff.mp h
    obtain ⟨-, rfl⟩ := callControl_cases ht
    exact ⟨rfl, rfl, rfl⟩
  | callDrain maxEntries => obtain ⟨-, rfl⟩ := callControl_cases h; exact ⟨rfl, rfl, rfl⟩
  | control =>
    obtain ⟨pc, -, hmove⟩ := controlStep_cases h
    cases hmove with
    | stopDrain hmove => have hframe := drainFrame hmove; exact ⟨hframe.producer, hframe.claimed, hframe.accepted⟩
    | drain hmove => have hframe := drainFrame hmove; exact ⟨hframe.producer, hframe.claimed, hframe.accepted⟩
    | _ => exact ⟨rfl, rfl, rfl⟩

/-! ### What is in hand and what is written -/

/-- The entry a `Drain` call is dispatching. -/
def inWrite : Option (DrainPc T) → List T
  | some (.write _ entry _) => [entry]
  | _ => []

/-- The entry a `TryPop` call is returning. -/
def inPop : Option (PopPc T) → List T
  | some (.returned (some entry)) => [entry]
  | _ => []

/-- What of it sink `k` was given. -/
def partlyWritten (k : Nat) : Option (DrainPc T) → List T
  | some (.write _ entry sink) => if k < sink then [entry] else []
  | _ => []

def inHandOf (s : BackendState ι T) (role : Role) : List T :=
  inPop (s.queue.consumer role) ++ inWrite (s.draining role)

/-- The entry taken from the ring and not dispatched completely. -/
def inHand (s : BackendState ι T) : List T := s.inHandOf .worker ++ s.inHandOf .control

def partly (s : BackendState ι T) (k : Nat) : List T :=
  partlyWritten k (s.draining .worker) ++ partlyWritten k (s.draining .control)

structure Delivering (cfg : BackendConfig) (s : BackendState ι T) : Prop where
  popped : s.queue.popped = s.dispatched ++ s.inHand
  written : ∀ k < cfg.sinks, s.written k = s.dispatched ++ s.partly k
  last : ∀ k, k + 1 = cfg.sinks → s.partly k = []

omit [DecidableEq ι] in
/-- The other role has nothing in hand while this one drains. -/
theorem Turns.inHand_eq (h : Turns s) (role : Role) (hother : s.draining role.other = none) :
    s.inHand = s.inHandOf role ∧ ∀ k, s.partly k = partlyWritten k (s.draining role) := by
  have hidle := h.consumer_none role.other (by rw [hother]; exact nofun)
  cases role <;> simp only [Role.other] at hother hidle <;>
    simp [inHand, partly, inHandOf, hother, hidle, inPop, inWrite, partlyWritten]

omit [DecidableEq ι] in
theorem written_callSink (k j : Nat) (c : SinkCall T) :
    (s.callSink k c).written j =
      if j = k then s.written j ++ (match c with | .write entry => [entry] | .flush => [])
      else s.written j := by
  by_cases hj : j = k
  · subst hj
    cases c <;> simp [written, callSink]
  · simp [written, callSink, hj]

omit [DecidableEq ι] in
/-- `Dispatch` from sink `k` on, with the entry given to the sinks before it. -/
theorem delivering_dispatchAt {count k : Nat} {entry : T}
    (hat : dispatchAt cfg s count entry k = (t, d))
    (hpopped : s.queue.popped = s.dispatched ++ [entry])
    (hwritten : ∀ j < cfg.sinks, s.written j = s.dispatched ++ if j < k then [entry] else []) :
    t.queue.popped = t.dispatched ++ inWrite (some d) ∧
      ∀ j < cfg.sinks, t.written j = t.dispatched ++ partlyWritten j (some d) := by
  rcases dispatchAt_cases hat with ⟨hk, rfl, rfl⟩ | ⟨hk, rfl, rfl⟩
  · exact ⟨hpopped, hwritten⟩
  · refine ⟨by simpa [inWrite] using hpopped, ?_⟩
    intro j hj
    have hwrite := hwritten j hj
    rw [if_pos (by omega)] at hwrite
    rw [partlyWritten, List.append_nil]
    · exact hwrite
    · nofun

theorem delivering_drainMove (h : DrainMove cfg s role maxEntries d t d')
    (hmatches : ConsumerMatches (s.queue.consumer role) (some d))
    (hpopped : s.queue.popped = s.dispatched ++ (inPop (s.queue.consumer role) ++ inWrite (some d)))
    (hwritten : ∀ k < cfg.sinks, s.written k = s.dispatched ++ partlyWritten k (some d)) :
    t.queue.popped = t.dispatched ++ (inPop (t.queue.consumer role) ++ inWrite (some d')) ∧
      ∀ k < cfg.sinks, t.written k = t.dispatched ++ partlyWritten k (some d') := by
  have hself := s.queue.setConsumer_self role
  have hidle : (∀ count, d ≠ .pop count) → s.queue.consumer role = none := by
    intro hd
    by_contra hne
    obtain ⟨count, he⟩ := hmatches.mp hne
    exact hd count (Option.some.inj he)
  cases h with
  | callPop =>
    refine ⟨?_, hwritten⟩
    rw [hidle (fun count hne => by cases hne)] at hpopped
    simpa [inPop, inWrite, hself, RingState.setConsumer] using hpopped
  | finish => exact ⟨hpopped, hwritten⟩
  | stepPop _ hpc hmove =>
    refine ⟨?_, hwritten⟩
    rw [hpc] at hpopped
    cases hmove <;> simpa [inPop, inWrite, RingState.setConsumer] using hpopped
  | empty hpc =>
    refine ⟨?_, hwritten⟩
    rw [hpc] at hpopped
    simpa [inPop, inWrite, hself, RingState.setConsumer] using hpopped
  | took hpc hat =>
    rw [hpc] at hpopped
    have hnothing : ∀ k < cfg.sinks, s.written k = s.dispatched ++ [] := hwritten
    obtain ⟨hp, hw⟩ := delivering_dispatchAt hat hpopped (by
      intro k hk
      rw [if_neg (Nat.not_lt_zero k)]
      exact hnothing k hk)
    have hnone : t.queue.consumer role = none := by
      rcases dispatchAt_cases hat with ⟨-, rfl, -⟩ | ⟨-, rfl, -⟩ <;> exact hself none
    exact ⟨by rw [hnone]; exact hp, hw⟩
  | @write count k entry _ _ hat =>
    have hnone := hidle fun count hne => by cases hne
    rw [hnone] at hpopped
    obtain ⟨hp, hw⟩ := delivering_dispatchAt hat hpopped (by
      intro j hj
      rw [written_callSink, hwritten j hj]
      show _ = s.dispatched ++ _
      rcases Nat.lt_trichotomy j k with hlt | rfl | hgt
      · rw [if_neg (by omega), partlyWritten, if_pos hlt, if_pos (by omega)]
      · simp [partlyWritten]
      · rw [if_neg (by omega), partlyWritten, if_neg (by omega), if_neg (by omega)])
    have hnone' : t.queue.consumer role = none := by
      rcases dispatchAt_cases hat with ⟨-, rfl, -⟩ | ⟨-, rfl, -⟩ <;> exact hnone
    exact ⟨by rw [hnone']; exact hp, hw⟩

/-- The last sink's write completes the dispatch. -/
theorem last_drainMove (h : DrainMove cfg s role maxEntries d t d') {k : Nat} (hk : k + 1 = cfg.sinks) :
    partlyWritten k (some d') = [] := by
  have hat : ∀ {s t : BackendState ι T} {count j : Nat} {entry : T} {d : DrainPc T},
      dispatchAt cfg s count entry j = (t, d) → partlyWritten k (some d) = [] := by
    intro s t count j entry d hat
    rcases dispatchAt_cases hat with ⟨hj, -, rfl⟩ | ⟨-, -, rfl⟩
    · exact if_neg (by omega)
    · rfl
  cases h with
  | took _ h => exact hat h
  | write h => exact hat h
  | _ => rfl

omit [DecidableEq ι] in
/-- A step that touches neither the popped entries nor the sinks' entries. -/
theorem Delivering.frame (h : Delivering cfg s) (hpopped : s'.queue.popped = s.queue.popped)
    (hdispatched : s'.dispatched = s.dispatched) (hwritten : ∀ k, s'.written k = s.written k)
    (hhand : s'.inHand = s.inHand) (hpartly : ∀ k, s'.partly k = s.partly k) : Delivering cfg s' := by
  refine ⟨?_, ?_, ?_⟩
  · rw [hpopped, hdispatched, hhand]
    exact h.popped
  · intro k hk
    rw [hwritten, hdispatched, hpartly]
    exact h.written k hk
  · intro k hk
    rw [hpartly]
    exact h.last k hk

/-- A step inside a `Drain` call of `role`, which ends in `s'`. -/
theorem Delivering.drain (h : Delivering cfg s) (hturns : Turns s) (hturns' : Turns s')
    (hmove : DrainMove cfg s role maxEntries d t d') (hd : s.draining role = some d)
    (hd' : s'.draining role = some d') (hqueue : s'.queue = t.queue) (hsinks : s'.sinks = t.sinks)
    (hdispatched : s'.dispatched = t.dispatched) : Delivering cfg s' := by
  obtain ⟨hhand, hpartly⟩ := hturns.inHand_eq role (hturns.other_none (by rw [hd]; exact nofun))
  obtain ⟨hhand', hpartly'⟩ := hturns'.inHand_eq role (hturns'.other_none (by rw [hd']; exact nofun))
  have hpopped := h.popped
  have hwritten := h.written
  simp only [hhand, hpartly, inHandOf, hd] at hpopped hwritten
  obtain ⟨hp, hw⟩ := delivering_drainMove hmove (hd ▸ hturns.consumer role) hpopped hwritten
  refine ⟨?_, ?_, ?_⟩
  · rw [hhand', inHandOf, hd', hqueue, hdispatched]
    exact hp
  · intro k hk
    have hsame : s'.written k = t.written k := by
      simp only [BackendState.written, hsinks]
    rw [hsame, hdispatched, hpartly', hd']
    exact hw k hk
  · intro k hk
    rw [hpartly', hd']
    exact last_drainMove hmove hk

theorem Delivering.worker (h : Delivering cfg s) (hturns : Turns s) (hturns' : Turns s')
    {pc : WorkerPc T} (hw : s.worker = some pc) (hmove : WorkerMove cfg s pc s') : Delivering cfg s' := by
  cases hmove with
  | drain hmove => exact h.drain hturns hturns' hmove (by rw [draining, hw]) rfl rfl rfl rfl
  | finalDrain hmove => exact h.drain hturns hturns' hmove (by rw [draining, hw]) rfl rfl rfl rfl
  | _ =>
    refine h.frame rfl rfl (fun _ => rfl) ?_ (fun k => ?_) <;>
      simp [inHand, inHandOf, partly, draining, hw, inWrite, partlyWritten]

theorem Delivering.control (h : Delivering cfg s) (hturns : Turns s) (hturns' : Turns s')
    {pc : ControlPc T} (hc : s.control = pc) (hmove : ControlMove cfg s pc s') : Delivering cfg s' := by
  cases hmove with
  | stopDrain hmove => exact h.drain hturns hturns' hmove (by rw [draining, hc]) rfl rfl rfl rfl
  | drain hmove => exact h.drain hturns hturns' hmove (by rw [draining, hc]) rfl rfl rfl rfl
  | startThread =>
    have hw := (hturns.unstarted hc).1
    refine h.frame rfl rfl (fun _ => rfl) ?_ (fun k => ?_) <;>
      cases hthread : cfg.hasThread <;>
      simp [inHand, inHandOf, partly, draining, hc, hw, inWrite, partlyWritten]
  | stopJoin hjoin =>
    refine h.frame rfl rfl (fun _ => rfl) ?_ (fun k => ?_) <;> rcases hjoin with hw | hw <;>
      simp [inHand, inHandOf, partly, draining, hc, hw, inWrite, partlyWritten]
  | flush =>
    refine h.frame rfl rfl ?_ ?_ (fun k => ?_)
    · intro k
      refine (written_callSink _ k .flush).trans ?_
      simp
    · simp [inHand, inHandOf, draining, hc, inWrite, callSink]
    · simp [partly, draining, hc, partlyWritten, callSink]
  | _ =>
    refine h.frame rfl rfl (fun _ => rfl) ?_ (fun k => ?_) <;>
      simp [inHand, inHandOf, partly, draining, hc, inWrite, partlyWritten]

/-! ### The invariant -/

structure BackendInv (cfg : BackendConfig) (s : BackendState ι T) : Prop where
  turns : Turns s
  ring : RingState.RingInv cfg.ringSize s.queue
  delivering : Delivering cfg s

omit [DecidableEq ι] in
theorem backendInv_create (junk : Nat → T) : BackendInv cfg (create junk : BackendState ι T) where
  turns := turns_create junk
  ring := RingState.ringInv_create cfg.ringSize junk
  delivering := ⟨rfl, fun _ _ => rfl, fun _ _ => rfl⟩

omit [DecidableEq ι] in
/-- Every sink has been given a prefix of what the ring handed out. -/
theorem BackendInv.written_prefix (h : BackendInv cfg s) {k : Nat} (hk : k < cfg.sinks) :
    s.written k <+: s.queue.popped := by
  obtain ⟨role, hother⟩ := h.turns.exists_other_none
  obtain ⟨hhand, hpartly⟩ := h.turns.inHand_eq role hother
  rw [h.delivering.written k hk, h.delivering.popped, hhand, hpartly, inHandOf, List.prefix_append_right_inj]
  cases hd : s.draining role with
  | none => exact List.nil_prefix
  | some d =>
    cases d with
    | write count entry sink =>
      rw [h.turns.consumer_none role (by rw [hd]; exact nofun)]
      simp only [partlyWritten, inPop, inWrite, List.nil_append]
      split
      · exact List.prefix_rfl
      · exact List.nil_prefix
    | _ => exact List.nil_prefix

theorem Delivering.step (h : Delivering cfg s) (hturns : Turns s) (hturns' : Turns s')
    {a : BackendAction ι T} (hstep : s.step cfg a = some s') : Delivering cfg s' := by
  cases a with
  | callPush i entry =>
    obtain ⟨queue, hq, rfl⟩ := queueStep_cases hstep
    obtain ⟨-, rfl⟩ := RingState.callPush_cases hq
    exact h.frame rfl rfl (fun _ => rfl) rfl (fun _ => rfl)
  | stepPush i spurious =>
    obtain ⟨queue, hq, rfl⟩ := queueStep_cases hstep
    obtain ⟨item, pc, -, hmove⟩ := RingState.stepPush_cases hq
    cases hmove <;> exact h.frame rfl rfl (fun _ => rfl) rfl (fun _ => rfl)
  | returnPush i =>
    obtain ⟨queue, hq, rfl⟩ := queueStep_cases hstep
    obtain ⟨_, _, _, -, rfl⟩ := RingState.returnPush_cases hq
    exact h.frame rfl rfl (fun _ => rfl) rfl (fun _ => rfl)
  | worker =>
    obtain ⟨pc, hw, hmove⟩ := workerStep_cases hstep
    exact h.worker hturns hturns' hw hmove
  | callStart =>
    obtain ⟨hidle, rfl⟩ := callControl_cases hstep
    refine h.frame rfl rfl (fun _ => rfl) ?_ (fun _ => ?_) <;>
      simp [inHand, inHandOf, partly, draining, hidle]
  | callStop =>
    obtain ⟨t, ht, rfl⟩ := Option.map_eq_some_iff.mp hstep
    obtain ⟨hidle, rfl⟩ := callControl_cases ht
    refine h.frame rfl rfl (fun _ => rfl) ?_ (fun _ => ?_) <;>
      simp [inHand, inHandOf, partly, draining, hidle]
  | callDrain maxEntries =>
    obtain ⟨hidle, rfl⟩ := callControl_cases hstep
    refine h.frame rfl rfl (fun _ => rfl) ?_ (fun _ => ?_) <;>
      simp [inHand, inHandOf, partly, draining, hidle, inWrite, partlyWritten]
  | control =>
    obtain ⟨pc, hc, hmove⟩ := controlStep_cases hstep
    exact h.control hturns hturns' hc hmove

/-- **One step keeps the invariant.** -/
theorem BackendInv.step (h : BackendInv cfg s) {a : BackendAction ι T} (hsole : SoleConsumer s a)
    (hstep : s.step cfg a = some s') (hwrap : s'.queue.claimed.length + cfg.ringSize.val < 2 ^ 32) :
    BackendInv cfg s' := by
  have hturns := h.turns.step hsole hstep
  refine ⟨hturns, ?_, h.delivering.step h.turns hturns hstep⟩
  rcases queue_of_step hstep with he | ⟨b, hb⟩
  · rw [he]
    exact h.ring
  · exact h.ring.step cfg.ringSize_two_le h.turns.exclusive hturns.exclusive hb hwrap

/-- **Every run with one consuming role at a time keeps the invariant** until a
counter wraps. -/
theorem backendInv_of_reachable {ok : BackendState ι T → BackendAction ι T → Prop}
    (hok : ∀ s a, ok s a → SoleConsumer s a)
    (h : (backendMachine ι T cfg).ReachableVia ok s) :
    s.queue.claimed.length + cfg.ringSize.val < 2 ^ 32 → BackendInv cfg s := by
  refine h.induct (fun s => s.queue.claimed.length + cfg.ringSize.val < 2 ^ 32 → BackendInv cfg s) ?_ ?_
  · rintro s ⟨junk, rfl⟩ -
    exact backendInv_create junk
  · intro s a s' _ hoka ih hstep hwrap
    have hgrow := claimed_length_le_of_step hstep
    exact (ih (by omega)).step (hok s a hoka) hstep hwrap

end BackendState

end BrLogger
