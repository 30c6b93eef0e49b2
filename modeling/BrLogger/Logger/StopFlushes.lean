import BrLogger.Backend.Stop
import BrLogger.Logger.Accounting

/-!
# What one thread's `Stop` leaves behind

When one thread makes all the calls, none of its pushes is under way while it is
inside `Stop` (`OneThreadInv`).  So no slot is claimed and unpublished there, the
drain of `Stop` does not end early, and what was accepted when `Stop` was called is
all that ever was; the backend's `StopInv` then gives every sink all of it, and
the flushes come after the last of the writes (`BackendState.FlushInv`).

`Logger::Stop` does this only for a logger that was started, and returns at once
otherwise; nor is a `Drain` beside the worker kept from losing an entry
(`not_stopFlushes`).
-/

namespace BrLogger

/-! ### The backend inside `Stop` -/

def ControlPc.Stopping {T : Type} : ControlPc T → Prop
  | .stopStore | .stopJoin | .stopDrain _ | .stopFlush _ => True
  | _ => False

namespace BackendState

variable {ι T : Type} {s s' : BackendState ι T} {cfg : BackendConfig}

/-- `Stop` has flushed the sinks before the one it is at, and nothing was written since. -/
def FlushInv (s : BackendState ι T) : Prop :=
  ∀ j, s.control = .stopFlush j → ∀ k < j, ∃ calls, s.sinks k = calls ++ [.flush]

/-- Nothing was accepted since `Stop` was called. -/
def NothingSince (s : BackendState ι T) : Prop := s.control.Stopping → s.acceptedAtStop = s.queue.accepted

variable [DecidableEq ι]

/-- The producers' steps and the worker's leave the control thread where it is. -/
theorem control_frame {b : BackendAction ι T} (hb : b.ofProducer = true ∨ b = .worker) (h : s.step cfg b = some s') :
    s'.control = s.control ∧ s'.acceptedAtStop = s.acceptedAtStop := by
  have hqueue : ∀ {a}, s.queueStep cfg a = some s' → s'.control = s.control ∧ s'.acceptedAtStop = s.acceptedAtStop := by
    intro a h
    obtain ⟨queue, -, rfl⟩ := queueStep_cases h
    exact ⟨rfl, rfl⟩
  cases b with
  | callPush | stepPush | returnPush => exact hqueue h
  | worker =>
    obtain ⟨pc, -, hmove⟩ := workerStep_cases h
    cases hmove with
    | drain hmove => exact ⟨(drainFrame hmove).control, (drainFrame hmove).acceptedAtStop⟩
    | finalDrain hmove => exact ⟨(drainFrame hmove).control, (drainFrame hmove).acceptedAtStop⟩
    | _ => exact ⟨rfl, rfl⟩
  | callStart | callStop | callDrain | control => rcases hb with hb | hb <;> cases hb

omit [DecidableEq ι] in
theorem NothingSince.frame (h : NothingSince s) (hstopping : s'.control.Stopping → s.control.Stopping)
    (hatStop : s'.acceptedAtStop = s.acceptedAtStop) (haccepted : s'.queue.accepted = s.queue.accepted) :
    NothingSince s' := by
  intro hs'
  rw [hatStop, haccepted]
  exact h (hstopping hs')

/-- **Only a push that returns inside `Stop` adds to what was accepted.** -/
theorem NothingSince.step (h : NothingSince s) {b : BackendAction ι T} (hb : ∀ i, b = .returnPush i → ¬ s.control.Stopping)
    (hstep : s.step cfg b = some s') : NothingSince s' := by
  cases b with
  | callPush i entry =>
    obtain ⟨queue, hq, rfl⟩ := queueStep_cases hstep
    obtain ⟨-, rfl⟩ := RingState.callPush_cases hq
    exact h.frame id rfl rfl
  | stepPush i spurious =>
    obtain ⟨queue, hq, rfl⟩ := queueStep_cases hstep
    obtain ⟨item, pc, -, hmove⟩ := RingState.stepPush_cases hq
    cases hmove <;> exact h.frame id rfl rfl
  | returnPush i =>
    obtain ⟨hcontrol, -⟩ := control_frame (Or.inl rfl) hstep
    exact fun hstopping => absurd (hcontrol ▸ hstopping) (hb i rfl)
  | worker =>
    obtain ⟨hcontrol, hatStop⟩ := control_frame (Or.inr rfl) hstep
    exact h.frame (hcontrol ▸ id) hatStop (producer_frame rfl hstep).2.2
  | callStart =>
    obtain ⟨-, rfl⟩ := callControl_cases hstep
    exact nofun
  | callDrain maxEntries =>
    obtain ⟨-, rfl⟩ := callControl_cases hstep
    exact nofun
  | callStop =>
    obtain ⟨t, ht, rfl⟩ := Option.map_eq_some_iff.mp hstep
    exact fun _ => rfl
  | control =>
    obtain ⟨pc, hc, hmove⟩ := controlStep_cases hstep
    have hstopping : pc.Stopping → s.control.Stopping := hc ▸ id
    cases hmove with
    | stopStore | stopJoin | stopAgain | stopDrained => exact h.frame (fun _ => hstopping trivial) rfl rfl
    | flush => exact h.frame (fun _ => hstopping trivial) rfl rfl
    | stopDrain hmove =>
      have hframe := drainFrame hmove
      exact h.frame (fun _ => hstopping trivial) hframe.acceptedAtStop hframe.accepted
    | _ => exact nofun

/-- **One step keeps the flushes last**, since nobody writes beside them. -/
theorem FlushInv.step (h : FlushInv s) (hturns : Turns s) {b : BackendAction ι T} (hstep : s.step cfg b = some s') :
    FlushInv s' := by
  cases b with
  | callPush | stepPush | returnPush =>
    obtain ⟨queue, -, rfl⟩ := queueStep_cases hstep
    exact h
  | worker =>
    intro j hflush
    obtain ⟨hcontrol, -⟩ := control_frame (Or.inr rfl) hstep
    obtain ⟨pc, hw, -⟩ := workerStep_cases hstep
    rw [hturns.flushing j (hcontrol ▸ hflush)] at hw
    cases hw
  | callStart | callDrain =>
    obtain ⟨-, rfl⟩ := callControl_cases hstep
    exact nofun
  | callStop =>
    obtain ⟨t, ht, rfl⟩ := Option.map_eq_some_iff.mp hstep
    obtain ⟨-, rfl⟩ := callControl_cases ht
    exact nofun
  | control =>
    obtain ⟨pc, hc, hmove⟩ := controlStep_cases hstep
    cases hmove with
    | stopDrained =>
      intro j hflush k hk
      cases hflush
      exact absurd hk (Nat.not_lt_zero k)
    | @flush j hj =>
      intro j' hflush k hk
      cases hflush
      by_cases hkj : k = j
      · subst hkj
        exact ⟨s.sinks k, Function.update_self _ _ _⟩
      · obtain ⟨calls, hcalls⟩ := h j hc k (by omega)
        exact ⟨calls, (Function.update_of_ne hkj _ _).trans hcalls⟩
    | _ => exact nofun

theorem flushInv_of_reachable (h : (backendMachine ι T cfg).ReachableVia StopsWell s) :
    s.queue.claimed.length + cfg.ringSize.val < 2 ^ 32 → FlushInv s := by
  refine h.induct (fun s => s.queue.claimed.length + cfg.ringSize.val < 2 ^ 32 → FlushInv s) ?_ ?_
  · rintro s ⟨junk, rfl⟩ -
    exact nofun
  · intro s b s' hreach _ ih hstep hwrap
    have hgrow := claimed_length_le_of_step hstep
    have hwrap : s.queue.claimed.length + cfg.ringSize.val < 2 ^ 32 := by omega
    exact (ih hwrap).step (backendInv_of_reachable (fun _ _ hok => hok.1) hreach hwrap).turns hstep

end BackendState

/-! ### One thread -/

/-- The calls are made by thread `me`, one after the other. -/
def OneThread {ι α : Type} {L : Limits} (me : ι) (s : LoggerState ι α L) : LoggerAction ι α → Prop
  | .logImpl i _ => i = me ∧ s.backend.control = .idle
  | .start | .stop | .drain _ => s.call me = .idle
  | _ => True

namespace LoggerState

section
variable {ι α : Type} {L : Limits}

/-- Every producer is in the push of its call. -/
def Pushing (s : LoggerState ι α L) : Prop :=
  ∀ i, s.backend.queue.producer i ≠ none → ∃ sequence, s.call i = .pushing sequence

/-- The calls of `LogImpl` under way are of thread `me`, outside `Start`, `Stop` and `Drain`. -/
def Apart (me : ι) (s : LoggerState ι α L) : Prop := ∀ i, s.call i ≠ .idle → i = me ∧ s.backend.control = .idle

structure OneThreadInv (me : ι) (s : LoggerState ι α L) : Prop where
  pushing : Pushing s
  apart : Apart me s
  nothingSince : s.backend.NothingSince

/-- **Inside `Stop` no slot is claimed and unpublished.** -/
theorem OneThreadInv.drainsPast {me : ι} {s : LoggerState ι α L} (h : OneThreadInv me s)
    (b : BackendAction ι (LogEntry L)) : s.backend.DrainsPast b := by
  cases b with
  | control =>
    rintro ⟨hcontrol, -, ⟨i, hi⟩, -⟩
    have hproducer : s.backend.queue.producer i ≠ none := by
      intro hnone
      rw [hnone] at hi
      cases hi
    obtain ⟨sequence, hcall⟩ := h.pushing i hproducer
    cases hcontrol.symm.trans (h.apart i (by rw [hcall]; exact nofun)).2
  | _ => trivial

end

variable {ι α : Type} [DecidableEq ι] {cfg : LoggerConfig ι α} {s s' : LoggerState ι α cfg.limits} {me : ι}
  {a : LoggerAction ι α}

theorem Pushing.update (h : Pushing s) {i : ι} {call : LogPc α} (hcall : s'.call = Function.update s.call i call)
    (hother : ∀ j, j ≠ i → s'.backend.queue.producer j = s.backend.queue.producer j)
    (hi : s'.backend.queue.producer i ≠ none → ∃ sequence, call = .pushing sequence) : Pushing s' := by
  intro j hj
  rw [hcall]
  by_cases hji : j = i
  · subst hji
    rw [Function.update_self]
    exact hi hj
  · rw [Function.update_of_ne hji]
    exact h j (hother j hji ▸ hj)

omit [DecidableEq ι] in
/-- A call that is not in its push has no producer. -/
theorem Pushing.none_of_call (h : Pushing s) {i : ι} (hi : ∀ sequence, s.call i ≠ .pushing sequence) :
    s.backend.queue.producer i = none := by
  by_contra hne
  obtain ⟨sequence, hpushing⟩ := h i hne
  exact hi sequence hpushing

theorem Pushing.stepPush (h : Pushing s) {i : ι} {spurious : Bool} {backend : BackendState ι (LogEntry cfg.limits)}
    (hb : s.backend.step cfg.backend (.stepPush i spurious) = some backend) :
    Pushing { s with backend := backend } := by
  obtain ⟨queue, hq, rfl⟩ := BackendState.queueStep_cases hb
  obtain ⟨item, pc, hi, hpush⟩ := RingState.stepPush_cases hq
  obtain ⟨v, hproducer⟩ : ∃ v, queue.producer = Function.update s.backend.queue.producer i v := by
    cases hpush <;> exact ⟨_, rfl⟩
  refine h.update (Function.update_eq_self i s.call).symm (fun j hj => ?_) fun _ => h i ?_
  · exact (congrFun hproducer j).trans (Function.update_of_ne hj _ _)
  · rw [hi]
    exact Option.some_ne_none _

theorem Pushing.step (h : Pushing s) (hmove : LoggerMove cfg s a s') : Pushing s' := by
  have hquiet : ∀ {b backend}, b.ofProducer = false → s.backend.step cfg.backend b = some backend →
      ∀ started, Pushing { s with backend := backend, started := started } := by
    intro b backend hb hstep started i hi
    refine h i ?_
    rw [← (BackendState.producer_frame hb hstep).1]
    exact hi
  cases hmove with
  | fetch hi =>
    have hnone := h.none_of_call (by rw [hi]; exact nofun)
    exact h.update rfl (fun _ _ => rfl) fun hne => absurd hnone hne
  | drop hi =>
    have hnone := h.none_of_call (by rw [hi]; exact nofun)
    exact h.update rfl (fun _ _ => rfl) fun hne => absurd hnone hne
  | push _ hb =>
    obtain ⟨queue, hq, rfl⟩ := BackendState.queueStep_cases hb
    obtain ⟨-, rfl⟩ := RingState.callPush_cases hq
    exact h.update rfl (fun j hj => Function.update_of_ne hj _ _) fun _ => ⟨_, rfl⟩
  | result _ hb =>
    obtain ⟨queue, hq, rfl⟩ := BackendState.queueStep_cases hb
    obtain ⟨_, _, _, -, rfl⟩ := RingState.returnPush_cases hq
    exact h.update rfl (fun j hj => Function.update_of_ne hj _ _) fun hne => absurd (Function.update_self _ _ _) hne
  | context | startedAlready | notStarted => exact h
  | start _ hb => exact hquiet rfl hb true
  | stop _ hb => exact hquiet rfl hb false
  | backend hon hb =>
    cases a with
    | stepPush =>
      cases hon
      exact h.stepPush hb
    | drain | worker | control =>
      cases hon
      exact hquiet rfl hb s.started
    | _ => cases hon

theorem Apart.update (h : Apart me s) {i : ι} {call : LogPc α} (hcall : s'.call = Function.update s.call i call)
    (hi : i = me ∧ s.backend.control = .idle) (hcontrol : s'.backend.control = s.backend.control) : Apart me s' := by
  intro j hj
  rw [hcontrol]
  by_cases hji : j = i
  · exact ⟨hji.trans hi.1, hi.2⟩
  · rw [hcall, Function.update_of_ne hji] at hj
    exact h j hj

theorem Apart.step (h : Apart me s) (hone : OneThread me s a) (hmove : LoggerMove cfg s a s') : Apart me s' := by
  -- with no call under way there is nothing to keep apart
  have halone : s.call me = .idle → s'.call = s.call → Apart me s' := by
    intro hidle hcall i hi
    rw [hcall] at hi
    obtain ⟨rfl, -⟩ := h i hi
    exact absurd hidle hi
  have hcontrol : ∀ {b backend}, (b.ofProducer = true ∨ b = .worker) → s.backend.step cfg.backend b = some backend →
      Apart me { s with backend := backend } := by
    intro b backend hb hstep i hi
    exact ⟨(h i hi).1, (BackendState.control_frame hb hstep).1.trans (h i hi).2⟩
  cases hmove with
  | fetch => exact h.update rfl hone rfl
  | push hi hb =>
    exact h.update rfl (h _ (by rw [hi]; exact nofun)) (BackendState.control_frame (Or.inl rfl) hb).1
  | result hi hb =>
    exact h.update rfl (h _ (by rw [hi]; exact nofun)) (BackendState.control_frame (Or.inl rfl) hb).1
  | drop hi => exact h.update rfl (h _ (by rw [hi]; exact nofun)) rfl
  | context | startedAlready | notStarted => exact h
  | start | stop => exact halone hone rfl
  | backend hon hb =>
    cases a with
    | stepPush =>
      cases hon
      exact hcontrol (Or.inl rfl) hb
    | worker =>
      cases hon
      exact hcontrol (Or.inr rfl) hb
    | drain => exact halone hone rfl
    | control =>
      cases hon
      intro i hi
      obtain ⟨pc, hc, hmove⟩ := BackendState.controlStep_cases hb
      cases hc.symm.trans (h i hi).2
      cases hmove
    | _ => cases hon

theorem OneThreadInv.step (h : OneThreadInv me s) (hone : OneThread me s a) (hstep : s.step cfg a = some s') :
    OneThreadInv me s' := by
  have hmove := step_cases hstep
  refine ⟨h.pushing.step hmove, h.apart.step hone hmove, ?_⟩
  cases hmove with
  | fetch | drop | context | startedAlready | notStarted => exact h.nothingSince
  | push _ hb | start _ hb | stop _ hb => exact h.nothingSince.step (fun _ he => by cases he) hb
  | result hi hb =>
    have hidle := (h.apart _ (by rw [hi]; exact nofun)).2
    exact h.nothingSince.step (fun _ _ => by rw [hidle]; exact id) hb
  | backend hon hb =>
    refine h.nothingSince.step ?_ hb
    rintro i rfl
    cases a <;> cases hon

/-! ### Every run -/

/-- One thread's calls, with `Drain` only while no worker thread exists. -/
def OneThreadAlone (me : ι) (s : LoggerState ι α cfg.limits) (a : LoggerAction ι α) : Prop :=
  OneThread me s a ∧ OneConsumer s a

/-- **In one thread's runs the drains of `Stop` do not end early.** -/
theorem oneThread_of_reachable (h : (loggerMachine cfg).ReachableVia (OneThreadAlone me) s) :
    OneThreadInv me s ∧
      (backendMachine ι (LogEntry cfg.limits) cfg.backend).ReachableVia BackendState.StopsWell s.backend := by
  refine h.induct (fun s => OneThreadInv me s ∧
    (backendMachine ι (LogEntry cfg.limits) cfg.backend).ReachableVia BackendState.StopsWell s.backend) ?_ ?_
  · rintro s ⟨junk, rfl⟩
    exact ⟨⟨fun _ hne => absurd rfl hne, fun _ hne => absurd rfl hne, nofun⟩, .init ⟨junk, rfl⟩⟩
  · intro s a s' _ hok ih hstep
    obtain ⟨hinv, hbackend⟩ := ih
    refine ⟨hinv.step hok.1 hstep, ?_⟩
    rcases backend_of_step hstep with he | ⟨b, hb, hsole⟩
    · rw [he]
      exact hbackend
    · exact hbackend.step ⟨hsole hok.2, hinv.drainsPast b⟩ hb

/-- A `Stop` call that found the logger started returns. -/
structure StopReturns (cfg : LoggerConfig ι α) (s s' : LoggerState ι α cfg.limits) : Prop where
  flushing : ∃ k, s.backend.control = .stopFlush k
  step : s.step cfg .control = some s'
  idle : s'.backend.control = .idle

/-- Every accepted entry is the entry of its position in every sink, and the last thing
a sink was called with is `Flush`. -/
structure AllFlushed (cfg : LoggerConfig ι α) (s : LoggerState ι α cfg.limits) : Prop where
  delivered : ∀ p ∈ s.backend.queue.accepted, ∃ i entry, s.backend.queue.claimed[p]? = some (i, entry) ∧
    ∀ k < cfg.sinks, (s.backend.written k)[p]? = some entry
  flushed : ∀ k < cfg.sinks, ∃ calls, s.backend.sinks k = calls ++ [.flush]

/-- **`Stop` flushes what was logged.**  In the runs of one thread that does not call
`Drain` while a worker thread exists, a `Stop` call that found the logger started has
left every accepted entry in every sink and flushed each after its last `Write`; a call
that found it not started changes nothing. -/
theorem stopFlushes (s : LoggerState ι α cfg.limits) (h : (loggerMachine cfg).ReachableVia (OneThreadAlone me) s)
    (hwrap : s.backend.queue.claimed.length < 2 ^ 32 - cfg.limits.ringSize.val) :
    (∀ s', StopReturns cfg s s' → AllFlushed cfg s') ∧ (s.started = false → s.step cfg .stop = some s) := by
  obtain ⟨hone, hreach⟩ := oneThread_of_reachable h
  have hring : s.backend.queue.claimed.length + cfg.backend.ringSize.val < 2 ^ 32 := by
    show _ + cfg.limits.ringSize.val < _
    omega
  refine ⟨fun s' hreturns => ?_, fun hstarted => if_neg (by rw [hstarted]; exact nofun)⟩
  obtain ⟨k, hflush⟩ := hreturns.flushing
  obtain ⟨backend, hb, rfl⟩ := backendStep_cases hreturns.step
  obtain ⟨pc, hc, hmove⟩ := BackendState.controlStep_cases hb
  cases hc.symm.trans hflush
  cases hmove with
  | flush => cases hreturns.idle
  | flushed hk =>
    constructor
    case delivered =>
      have hinv := BackendState.backendInv_of_reachable (fun _ _ hok => hok.1) hreach hring
      have hdelivered := (BackendState.stopInv_of_reachable hreach hring).delivered hinv hflush
      rwa [BackendState.DeliveredAtStop, hone.nothingSince (hflush ▸ trivial)] at hdelivered
    case flushed =>
      intro j hj
      exact BackendState.flushInv_of_reachable hreach hring k hflush j (Nat.lt_of_lt_of_le hj hk)

/-! ### Three runs of one thread -/

section
variable {T : Type} {L : Limits}

instance (c : ControlPc T) : Decidable (c = .idle) :=
  decidable_of_iff ((match c with | .idle => true | _ => false) = true) (by cases c <;> simp)

instance (c : LogPc α) : Decidable (c = .idle) :=
  decidable_of_iff ((match c with | .idle => true | _ => false) = true) (by cases c <;> simp)

instance (me : ι) (s : LoggerState ι α L) : (a : LoggerAction ι α) → Decidable (OneThread me s a)
  | .logImpl i _ => inferInstanceAs (Decidable (i = me ∧ s.backend.control = .idle))
  | .start | .stop | .drain _ => inferInstanceAs (Decidable (s.call me = .idle))
  | .tryPush _ | .stepPush _ _ | .returnPush _ | .countDrop _ | .context _ | .worker | .control => isTrue trivial

instance (s : LoggerState ι α cfg.limits) (a : LoggerAction ι α) : Decidable (OneThreadAlone me s a) :=
  inferInstanceAs (Decidable (OneThread me s a ∧ OneConsumer s a))

end

/-- After the last flush `Stop` returns. -/
theorem stopReturns_of_flushed (cfg : LoggerConfig ι α) {s : LoggerState ι α cfg.limits} {k : Nat}
    (hflush : s.backend.control = .stopFlush k) (hk : cfg.sinks ≤ k) :
    StopReturns cfg s { s with backend := { s.backend with control := .idle } } where
  flushing := ⟨k, hflush⟩
  step := by
    have hlast : ¬ k < cfg.backend.sinks := Nat.not_lt.mpr hk
    simp only [LoggerState.step, backendStep, BackendState.step, BackendState.controlStep, hflush, if_neg hlast,
      Option.map_some]
  idle := rfl

omit [DecidableEq ι] in
theorem AllFlushed.id_eq (h : AllFlushed cfg s) {p k : Nat} (hp : p ∈ s.backend.queue.accepted) (hk : k < cfg.sinks) :
    (s.writtenIds k)[p]? = (s.backend.queue.claimed.map fun c => c.2.id)[p]? := by
  obtain ⟨i, entry, hclaimed, hwritten⟩ := h.delivered p hp
  rw [writtenIds, List.getElem?_map, List.getElem?_map, hclaimed, hwritten k hk]
  rfl

/-- The sink that `Stop` is about to flush. -/
def flushing (s : LoggerState Unit (List Byte) tinyLogger.limits) : Option Nat :=
  match s.backend.control with | .stopFlush k => some k | _ => none

/-- What the runs below end with. -/
def ending (s : LoggerState Unit (List Byte) tinyLogger.limits) : Option Nat × List Nat × List Nat × List Nat :=
  (s.flushing, s.backend.queue.accepted, s.backend.queue.claimed.map fun c => c.2.id, s.writtenIds 0)

theorem stopFlush_of_flushing {s : LoggerState Unit (List Byte) tinyLogger.limits} {k : Nat} (h : s.flushing = some k) :
    s.backend.control = .stopFlush k := by
  unfold flushing at h
  split at h <;> cases h
  assumption

/-- `LogImpl`, `Start`, `Stop`; the worker delivers the entry after the store of `running_`. -/
def startedRun : List (LoggerAction Unit (List Byte)) :=
  List.flatten [acceptedCall, [.start], .replicate 3 .control, [.stop, .control], .replicate 16 .worker,
    .replicate 6 .control]

theorem startedRun_ends :
    ((loggerMachine tinyLogger).execVia (OneThreadAlone ()) startedRun (create tinyLimits fun _ => .zero _)).map ending =
      some (some 1, [0], [0], [0]) := by
  decide +kernel

theorem stopFlushes_startedRun :
    ∃ s s' : LoggerState Unit (List Byte) tinyLogger.limits, s.backend.queue.accepted = [0] ∧
      StopReturns tinyLogger s s' ∧ AllFlushed tinyLogger s' := by
  obtain ⟨s, hreach, he⟩ := Machine.ReachableVia.of_run startedRun_ends ⟨_, rfl⟩
  obtain ⟨hcontrol, haccepted, hclaimed, -⟩ := by simpa only [ending, Prod.mk.injEq] using he
  have hflush := stopFlush_of_flushing hcontrol
  have hlen := congrArg List.length hclaimed
  rw [List.length_map] at hlen
  have hreturns := stopReturns_of_flushed tinyLogger hflush (Nat.le_refl 1)
  exact ⟨s, _, haccepted, hreturns, (stopFlushes s hreach (by rw [hlen]; decide)).1 _ hreturns⟩

/-- The worker and a `Drain(1)` load the same slot and both move `read_pos_`, past the second
entry; then `Stop`. -/
def besideRun : List (LoggerAction Unit (List Byte)) :=
  List.flatten [acceptedCall, acceptedCall, [.start], .replicate 3 .control, .replicate 3 .worker, [.drain 1],
    .replicate 4 .control, .replicate 5 .worker, .replicate 5 .control, [.stop, .control], .replicate 9 .worker,
    .replicate 6 .control]

theorem besideRun_ends :
    ((loggerMachine tinyLogger).execVia (OneThread ()) besideRun (create tinyLimits fun _ => .zero _)).map ending =
      some (some 1, [0, 1], [0, 1], [0, 0]) := by
  decide +kernel

theorem acceptedCall_ends :
    ((loggerMachine tinyLogger).execVia (OneThreadAlone ()) acceptedCall (create tinyLimits fun _ => .zero _)).map
        (fun s => ((s.started, decide (s.call () = .idle)), ending s)) = some ((false, true), none, [0], [0], []) := by
  decide +kernel

/-- One entry is logged and `Stop` is called without a `Start`; two are logged and a
`Drain` runs beside the worker before the `Stop`. -/
theorem not_stopFlushes :
    (∃ s : LoggerState Unit (List Byte) tinyLogger.limits,
      (loggerMachine tinyLogger).ReachableVia (OneThreadAlone ()) s ∧
        s.backend.queue.claimed.length < 2 ^ 32 - tinyLogger.limits.ringSize.val ∧
        OneThreadAlone () s .stop ∧ s.step tinyLogger .stop = some s ∧ ¬ AllFlushed tinyLogger s) ∧
      ∃ s s' : LoggerState Unit (List Byte) tinyLogger.limits,
        (loggerMachine tinyLogger).ReachableVia (OneThread ()) s ∧
          s.backend.queue.claimed.length < 2 ^ 32 - tinyLogger.limits.ringSize.val ∧ StopReturns tinyLogger s s' ∧
          ¬ AllFlushed tinyLogger s' := by
  refine ⟨?_, ?_⟩
  · obtain ⟨s, hreach, he⟩ := Machine.ReachableVia.of_run acceptedCall_ends ⟨_, rfl⟩
    obtain ⟨⟨hstarted, hidle⟩, -, haccepted, hclaimed, hwritten⟩ := by simpa only [ending, Prod.mk.injEq] using he
    have hlen := congrArg List.length hclaimed
    rw [List.length_map] at hlen
    refine ⟨s, hreach, by rw [hlen]; decide, ⟨of_decide_eq_true hidle, trivial⟩, if_neg (by rw [hstarted]; exact nofun), ?_⟩
    intro h
    have hids := h.id_eq (p := 0) (by rw [haccepted]; decide) (show 0 < tinyLogger.sinks by decide)
    rw [hclaimed, hwritten] at hids
    cases hids
  · obtain ⟨s, hreach, he⟩ := Machine.ReachableVia.of_run besideRun_ends ⟨_, rfl⟩
    obtain ⟨hcontrol, haccepted, hclaimed, hwritten⟩ := by simpa only [ending, Prod.mk.injEq] using he
    have hflush := stopFlush_of_flushing hcontrol
    have hlen := congrArg List.length hclaimed
    rw [List.length_map] at hlen
    have hreturns := stopReturns_of_flushed tinyLogger hflush (Nat.le_refl 1)
    refine ⟨s, _, hreach, by rw [hlen]; decide, hreturns, ?_⟩
    intro h
    have hids := h.id_eq (p := 1) (show 1 ∈ s.backend.queue.accepted by rw [haccepted]; decide)
      (show 0 < tinyLogger.sinks by decide)
    have hsame : (s.writtenIds 0)[1]? = (s.backend.queue.claimed.map fun c => c.2.id)[1]? := hids
    rw [hclaimed, hwritten] at hsame
    cases hsame

end LoggerState

end BrLogger
