import BrLogger.Lib.Progress
import BrLogger.Logger.StopFlushes

/-!
# `Stop` returns

Once `running_` is false the worker leaves its loop after the `Drain` call it is
in, and each of the remaining loops, the worker's, `Stop`'s own and the one over
the sinks, goes on only for as long as entries are found.  `rank` counts the steps
left to the worker and to the control thread when the ring is empty; taking an
entry out of the ring is what raises it, by at most `entryCost`.  So the number of
steps `Stop` can take is bounded by what is in the ring when it is called and what
producers claim meanwhile, and until it returns one of the two threads can move
(`stop_returns`): a producer that stopped in the middle of its push does not block it.
-/

namespace BrLogger

namespace BackendState

section
variable {ι T : Type}

/-- The steps it takes to put one entry into every sink, and to look for another. -/
def entryCost (cfg : BackendConfig) : Nat := cfg.sinks + 15

def popRank (cfg : BackendConfig) : Option (PopPc T) → Nat
  | none => 0
  | some .loadSequence => 5
  | some (.copyData _) => 4
  | some (.release _ _) => 3
  | some (.advance _) => 2
  | some (.returned none) => 1
  | some (.returned (some _)) => cfg.sinks + 16

/-- What the loop around a `Drain` call that found something still costs. -/
def again (count : Nat) : Nat := if 0 < count then 8 else 0

def drainRank (cfg : BackendConfig) (consumer : Option (PopPc T)) : DrainPc T → Nat
  | .test count => 6 + again count
  | .pop count => popRank cfg consumer + again count
  | .write _ _ k => 15 + (cfg.sinks - k)
  | .returned count => again count

def workerRank (cfg : BackendConfig) (consumer : Option (PopPc T)) : Option (WorkerPc T) → Nat
  | some .loop => 8
  | some (.drain d) => 9 + drainRank cfg consumer d
  | some (.finalDrain d) => 1 + drainRank cfg consumer d
  | some .exited => 0
  | none => 0

def controlRank (cfg : BackendConfig) (consumer : Option (PopPc T)) : ControlPc T → Nat
  | .stopJoin => cfg.sinks + 9
  | .stopDrain d => cfg.sinks + 2 + drainRank cfg consumer d
  | .stopFlush k => 1 + (cfg.sinks - k)
  | _ => 0

def rank (cfg : BackendConfig) (s : BackendState ι T) : Nat :=
  workerRank cfg (s.queue.consumer .worker) s.worker + controlRank cfg (s.queue.consumer .control) s.control

/-- `Stop` has cleared `running_` and has not returned. -/
def Returning (s : BackendState ι T) : Prop :=
  s.running = false ∧ s.control.Stopping ∧ s.control ≠ .stopStore

theorem again_zero : again 0 = 0 := rfl

theorem again_of_pos {count : Nat} (hpos : 0 < count) : again count = 8 := if_pos hpos

theorem again_le (count : Nat) : again count ≤ 8 := by
  unfold again
  split <;> omega

theorem drainRank_le (cfg : BackendConfig) (consumer : Option (PopPc T)) (d : DrainPc T) :
    drainRank cfg consumer d ≤ cfg.sinks + 24 := by
  cases d with
  | test count | returned count =>
    have := again_le count
    simp only [drainRank]
    omega
  | pop count =>
    have := again_le count
    have hpop : popRank cfg consumer ≤ cfg.sinks + 16 := by
      rcases consumer with _ | (_ | _ | _ | _ | _ | _) <;> simp only [popRank] <;> omega
    simp only [drainRank]
    omega
  | write =>
    simp only [drainRank]
    omega

theorem workerRank_le (cfg : BackendConfig) (consumer : Option (PopPc T)) (w : Option (WorkerPc T)) :
    workerRank cfg consumer w ≤ cfg.sinks + 33 := by
  rcases w with _ | (_ | d | d | _) <;> simp only [workerRank]
  case some.drain => have := drainRank_le cfg consumer d; omega
  case some.finalDrain => have := drainRank_le cfg consumer d; omega
  all_goals omega

end

variable {ι T : Type} [DecidableEq ι] {cfg : BackendConfig} {s s' t : BackendState ι T} {role : Role}
  {maxEntries : Nat} {d d' : DrainPc T}

omit [DecidableEq ι] in
theorem drainRank_dispatchAt {count k : Nat} {entry : T} (h : dispatchAt cfg s count entry k = (t, d))
    (consumer : Option (PopPc T)) :
    drainRank cfg consumer d < 15 + (cfg.sinks + 1 - k) ∧ t.queue = s.queue := by
  rcases dispatchAt_cases h with ⟨hk, rfl, rfl⟩ | ⟨-, rfl, rfl⟩
  · exact ⟨by simp only [drainRank]; omega, rfl⟩
  · exact ⟨by simp only [drainRank, again_of_pos (Nat.succ_pos count)]; omega, rfl⟩

/-- **One step of a `Drain` call**: nearer to its end, or an entry further. -/
theorem drainRank_drainMove (h : DrainMove cfg s role maxEntries d t d') :
    drainRank cfg (t.queue.consumer role) d' + 1 + entryCost cfg * s.queue.popped.length ≤
      drainRank cfg (s.queue.consumer role) d + entryCost cfg * t.queue.popped.length := by
  have hself : ∀ (q : RingState ι Role T) v, Function.update q.consumer role v role = v :=
    fun q v => Function.update_self _ _ _
  cases h with
  | callPop =>
    simp only [drainRank, RingState.setConsumer, hself, popRank]
    omega
  | finish =>
    simp only [drainRank]
    omega
  | stepPop _ hpc hmove =>
    cases hmove with
    | advance =>
      simp only [drainRank, hpc, RingState.setConsumer, hself, popRank, entryCost, List.length_append,
        List.length_singleton, Nat.mul_add]
      omega
    | _ =>
      simp only [drainRank, hpc, RingState.setConsumer, hself, popRank]
      omega
  | empty hpc =>
    simp only [drainRank, hpc, popRank, RingState.setConsumer]
    omega
  | @took count entry _ _ hpc hat =>
    obtain ⟨hlt, hqueue⟩ := drainRank_dispatchAt hat (t.queue.consumer role)
    have hpopped : t.queue.popped = s.queue.popped := by rw [hqueue]; rfl
    have hrank : drainRank cfg (s.queue.consumer role) (.pop count) = cfg.sinks + 16 + again count := by
      rw [drainRank, hpc, popRank]
    rw [hpopped, hrank]
    omega
  | @write count k entry _ _ hat =>
    obtain ⟨hlt, hqueue⟩ := drainRank_dispatchAt hat (t.queue.consumer role)
    have hpopped : t.queue.popped = s.queue.popped := by rw [hqueue]; rfl
    have hrank : drainRank cfg (s.queue.consumer role) (.write count entry k) = 15 + (cfg.sinks - k) := rfl
    rw [hpopped, hrank]
    omega

/-- A worker or control step. -/
def ofConsumer : BackendAction ι T → Bool
  | .worker => true
  | .control => true
  | _ => false

theorem rank_worker (hs : s.Returning) {pc : WorkerPc T} (hw : s.worker = some pc) (hturns : Turns s)
    (hmove : WorkerMove cfg s pc s') :
    rank cfg s' + 1 + entryCost cfg * s.queue.popped.length ≤
      rank cfg s + entryCost cfg * s'.queue.popped.length := by
  have hrun := hs.1
  have hdrain : ∀ {d t d'}, s.draining .worker = some d → DrainMove cfg s .worker 64 d t d' →
      t.queue.consumer .control = s.queue.consumer .control ∧ t.control = s.control := by
    intro d t d' hd hmove
    exact ⟨(consumer_of_drainMove hmove (hd ▸ hturns.consumer .worker)).2 .control nofun, (drainFrame hmove).control⟩
  cases hmove with
  | enter hrunning => rw [hrun] at hrunning; cases hrunning
  | leave =>
    simp only [rank, hw, workerRank, drainRank, again_zero]
    omega
  | drain hmove =>
    obtain ⟨hconsumer, hcontrol⟩ := hdrain (by rw [draining, hw]) hmove
    have := drainRank_drainMove hmove
    simp only [rank, hw, workerRank, hconsumer, hcontrol]
    omega
  | drained =>
    simp only [rank, hw, workerRank, drainRank]
    omega
  | finalDrain hmove =>
    obtain ⟨hconsumer, hcontrol⟩ := hdrain (by rw [draining, hw]) hmove
    have := drainRank_drainMove hmove
    simp only [rank, hw, workerRank, hconsumer, hcontrol]
    omega
  | again hpos =>
    simp only [rank, hw, workerRank, drainRank, again_of_pos hpos, again_zero]
    omega
  | exit =>
    simp only [rank, hw, workerRank, drainRank, again_zero]
    omega

theorem rank_control (hs : s.Returning) {pc : ControlPc T} (hc : s.control = pc) (hturns : Turns s)
    (hmove : ControlMove cfg s pc s') :
    rank cfg s' + 1 + entryCost cfg * s.queue.popped.length ≤
      rank cfg s + entryCost cfg * s'.queue.popped.length := by
  obtain ⟨-, hstopping, hstore⟩ := hs
  rw [hc] at hstopping hstore
  cases hmove with
  | running | notRunning | startStore | startThread | drain | drained => cases hstopping
  | stopStore => exact absurd rfl hstore
  | stopJoin hjoin =>
    have hworker : workerRank cfg (s.queue.consumer .worker) s.worker = 0 := by
      rcases hjoin with hw | hw <;> rw [hw] <;> rfl
    rw [rank, rank, hc, hworker]
    simp only [workerRank, controlRank, drainRank, again_zero]
    omega
  | @stopDrain d t d' hmove =>
    have hdraining : s.draining .control = some d := by rw [draining, hc]
    have hne : Role.worker ≠ .control := by rintro ⟨⟩
    have hconsumer := (consumer_of_drainMove hmove (hdraining ▸ hturns.consumer .control)).2 .worker hne
    have hworker := (drainFrame hmove).worker
    have := drainRank_drainMove hmove
    simp only [rank, hc, controlRank, hconsumer, hworker]
    omega
  | stopAgain hpos =>
    simp only [rank, hc, controlRank, drainRank, again_of_pos hpos, again_zero]
    omega
  | stopDrained =>
    simp only [rank, hc, controlRank, drainRank, again_zero]
    omega
  | flush hk =>
    simp only [rank, hc, controlRank, callSink]
    omega
  | flushed =>
    simp only [rank, hc, controlRank]
    omega

/-- **What a step inside `Stop` does to the rank.** -/
theorem rank_step (hs : s.Returning) (hturns : Turns s) {a : BackendAction ι T} (hstep : s.step cfg a = some s') :
    rank cfg s' + (if ofConsumer a then 1 else 0) + entryCost cfg * s.queue.popped.length ≤
      rank cfg s + entryCost cfg * s'.queue.popped.length := by
  cases a with
  | callPush i entry =>
    obtain ⟨queue, hq, rfl⟩ := queueStep_cases hstep
    obtain ⟨-, rfl⟩ := RingState.callPush_cases hq
    exact Nat.le_refl _
  | stepPush i spurious =>
    obtain ⟨queue, hq, rfl⟩ := queueStep_cases hstep
    obtain ⟨item, pc, -, hmove⟩ := RingState.stepPush_cases hq
    cases hmove <;> exact Nat.le_refl _
  | returnPush i =>
    obtain ⟨queue, hq, rfl⟩ := queueStep_cases hstep
    obtain ⟨_, _, _, -, rfl⟩ := RingState.returnPush_cases hq
    exact Nat.le_refl _
  | worker =>
    obtain ⟨pc, hw, hmove⟩ := workerStep_cases hstep
    exact rank_worker hs hw hturns hmove
  | callStart | callDrain =>
    obtain ⟨hidle, -⟩ := callControl_cases hstep
    rw [Returning, hidle] at hs
    cases hs.2.1
  | callStop =>
    obtain ⟨t, ht, -⟩ := Option.map_eq_some_iff.mp hstep
    obtain ⟨hidle, -⟩ := callControl_cases ht
    rw [Returning, hidle] at hs
    cases hs.2.1
  | control =>
    obtain ⟨pc, hc, hmove⟩ := controlStep_cases hstep
    exact rank_control hs hc hturns hmove

/-! ### The end of every run -/

theorem running_frame {b : BackendAction ι T} (hb : b.ofProducer = true ∨ b = .worker) (h : s.step cfg b = some s') :
    s'.running = s.running := by
  have hqueue : ∀ {a}, s.queueStep cfg a = some s' → s'.running = s.running := by
    intro a h
    obtain ⟨queue, -, rfl⟩ := queueStep_cases h
    rfl
  cases b with
  | callPush | stepPush | returnPush => exact hqueue h
  | worker =>
    obtain ⟨pc, -, hmove⟩ := workerStep_cases h
    cases hmove with
    | drain hmove => exact (drainFrame hmove).running
    | finalDrain hmove => exact (drainFrame hmove).running
    | _ => rfl
  | callStart | callStop | callDrain | control => rcases hb with hb | hb <;> cases hb

/-- Until `Stop` returns, nothing else is called and `running_` stays false. -/
theorem Returning.step (hs : s.Returning) {a : BackendAction ι T} (hstep : s.step cfg a = some s') :
    SoleConsumer s a ∧ (s'.control ≠ .idle → s'.Returning) := by
  have hidle : ¬ s.control = .idle := by
    intro he
    rw [Returning, he] at hs
    cases hs.2.1
  have hframe : (a.ofProducer = true ∨ a = .worker) → s'.control ≠ .idle → s'.Returning := by
    intro hb _
    rw [Returning, running_frame hb hstep, (control_frame hb hstep).1]
    exact hs
  cases a with
  | callPush | stepPush | returnPush => exact ⟨trivial, hframe (Or.inl rfl)⟩
  | worker => exact ⟨trivial, hframe (Or.inr rfl)⟩
  | callStart | callDrain => exact absurd (callControl_cases hstep).1 hidle
  | callStop =>
    obtain ⟨t, ht, -⟩ := Option.map_eq_some_iff.mp hstep
    exact absurd (callControl_cases ht).1 hidle
  | control =>
    refine ⟨trivial, fun hreturn => ?_⟩
    obtain ⟨hrun, hstopping, hstore⟩ := hs
    obtain ⟨pc, hc, hmove⟩ := controlStep_cases hstep
    rw [hc] at hstopping hstore
    cases hmove with
    | running | notRunning | startStore | startThread | drain | drained => cases hstopping
    | stopStore => exact absurd rfl hstore
    | stopDrain hmove => exact ⟨(drainFrame hmove).running.trans hrun, trivial, nofun⟩
    | stopJoin | stopAgain | stopDrained | flush => exact ⟨hrun, trivial, nofun⟩
    | flushed => exact absurd rfl hreturn

omit [DecidableEq ι] in
/-- A `Drain` call can always go on. -/
theorem drainOr_isSome (hmatches : ConsumerMatches (s.queue.consumer role) (some d))
    (done : Nat → BackendState ι T) (wrap : BackendState ι T → DrainPc T → BackendState ι T) :
    (drainOr cfg role maxEntries s d done wrap).isSome := by
  cases d with
  | test count =>
    have hidle : s.queue.consumer role = none := by
      by_contra hne
      obtain ⟨_, he⟩ := hmatches.mp hne
      cases he
    simp only [drainOr, drainStep]
    split
    · simp [RingState.callPop, hidle]
    · rfl
  | pop count =>
    obtain ⟨pc, hpc⟩ := Option.ne_none_iff_exists'.mp (hmatches.mpr ⟨count, rfl⟩)
    cases pc with
    | returned result => simp [drainOr, drainStep, hpc, RingState.returnPop]
    | _ => simp [drainOr, drainStep, hpc, RingState.stepPop]
  | write count entry k => rfl
  | returned count => rfl

omit [DecidableEq ι] in
/-- **`Stop` is never stuck**: until it returns, the worker or the control thread has a step. -/
theorem Turns.enabled (hturns : Turns s) (hs : s.Returning) :
    (s.workerStep cfg).isSome ∨ (s.controlStep cfg).isSome := by
  have hworker := hturns.consumer .worker
  have hcontrol := hturns.consumer .control
  obtain ⟨-, hstopping, hstore⟩ := hs
  cases hc : s.control with
  | idle | startLoad | startStore | startThread | drain => rw [hc] at hstopping; cases hstopping
  | stopStore => exact absurd hc hstore
  | stopJoin =>
    cases hw : s.worker with
    | none => exact Or.inr (by simp [controlStep, hc, hw])
    | some pc =>
      cases pc with
      | exited => exact Or.inr (by simp [controlStep, hc, hw])
      | loop => exact Or.inl (by simp [workerStep, hw])
      | drain d =>
        rw [draining, hw] at hworker
        exact Or.inl (by simpa only [workerStep, hw] using drainOr_isSome hworker _ _)
      | finalDrain d =>
        rw [draining, hw] at hworker
        exact Or.inl (by simpa only [workerStep, hw] using drainOr_isSome hworker _ _)
  | stopDrain d =>
    rw [draining, hc] at hcontrol
    exact Or.inr (by simpa only [controlStep, hc] using drainOr_isSome hcontrol _ _)
  | stopFlush k =>
    refine Or.inr ?_
    simp only [controlStep, hc]
    split <;> rfl

/-! ### Every run -/

/-- `Stop` has not returned. -/
def InStop (s : BackendState ι T) (_ : BackendAction ι T) : Prop := s.control ≠ .idle

theorem turns_of_reachable (h : (backendMachine ι T cfg).ReachableVia SoleConsumer s) : Turns s := by
  refine h.induct Turns ?_ ?_
  · rintro s ⟨junk, rfl⟩
    exact turns_create junk
  · intro s a s' _ hsole ih hstep
    exact ih.step hsole hstep

/-- What holds at every step of a run inside `Stop`. -/
theorem run_inStop {as : List (BackendAction ι T)} (hturns : Turns s) (hs : s.control ≠ .idle → s.Returning)
    (hrun : (backendMachine ι T cfg).RunVia InStop s as t) :
    (backendMachine ι T cfg).RunVia (fun s a => SoleConsumer s a ∧ s.Returning ∧ Turns s) s as t ∧ Turns t ∧
      (t.control ≠ .idle → t.Returning) := by
  induction hrun with
  | nil => exact ⟨.nil, hturns, hs⟩
  | @cons s s' t a as hok hstep _ ih =>
    obtain ⟨hsole, hs'⟩ := (hs hok).step hstep
    obtain ⟨hrun, hlast⟩ := ih (hturns.step hsole hstep) hs'
    exact ⟨.cons ⟨hsole, hs hok, hturns⟩ hstep hrun, hlast⟩

/-- **`Stop` returns** where there was one consumer at a time and the counters do not wrap: from the
store of `running_` to its return, the worker and the control thread together take no
more steps than the entries in the ring and those claimed meanwhile account for, and as
long as it has not returned one of the two has a step. -/
theorem stop_returns (s s' t : BackendState ι T) (as : List (BackendAction ι T))
    (hreach : (backendMachine ι T cfg).ReachableVia SoleConsumer s) (hstore : s.control = .stopStore)
    (hstep : s.step cfg .control = some s') (hrun : (backendMachine ι T cfg).RunVia InStop s' as t)
    (hwrap : t.queue.claimed.length < 2 ^ 32 - cfg.ringSize.val) :
    as.countP ofConsumer ≤
        entryCost cfg * (t.queue.claimed.length - s.queue.popped.length) + 2 * cfg.sinks + 42 ∧
      (t.control = .idle ∨ (t.workerStep cfg).isSome ∨ (t.controlStep cfg).isSome) := by
  have hturns := turns_of_reachable hreach
  obtain ⟨pc, hc, hmove⟩ := controlStep_cases hstep
  rw [hstore] at hc
  subst hc
  cases hmove
  obtain ⟨hrun, hturns', hreturning⟩ :=
    run_inStop (hturns.step (a := .control) trivial hstep) (fun _ => ⟨rfl, trivial, nofun⟩) hrun
  refine ⟨?_, ?_⟩
  · have hcount := hrun.count_le (rank cfg) (fun s => entryCost cfg * s.queue.popped.length)
      ofConsumer (fun _ => false) 0 fun s a s' hok hstep =>
        rank_step hok.2.1 hok.2.2 hstep
    have hinv := backendInv_of_reachable (fun _ _ => id)
      ((hrun.mono fun _ _ hok => hok.1).reachableVia (.step hreach (a := .control) trivial hstep)) (by omega)
    have hpopped := Nat.le_trans hinv.ring.popped_le hinv.ring.released_le
    have hworker := workerRank_le cfg (s.queue.consumer .worker) s.worker
    have hdelta : entryCost cfg * t.queue.popped.length - entryCost cfg * s.queue.popped.length ≤
        entryCost cfg * (t.queue.claimed.length - s.queue.popped.length) := by
      rw [← Nat.mul_sub]
      exact Nat.mul_le_mul_left _ (Nat.sub_le_sub_right hpopped _)
    simp only [rank, controlRank] at hcount
    omega
  · by_cases hidle : t.control = .idle
    · exact Or.inl hidle
    · exact Or.inr (hturns'.enabled (hreturning hidle))

/-- The backend starts, producer `false` pushes `10`, and `Stop` is called. -/
def storeRun : List (BackendAction Bool Nat) :=
  List.flatten [[.callStart], .replicate 3 .control, [.callPush false 10], .replicate 5 (.stepPush false false),
    [.returnPush false, .callStop]]

/-- The worker takes the entry and exits, and `Stop` drains and flushes. -/
def returnRun : List (BackendAction Bool Nat) := .replicate 16 .worker ++ .replicate 7 .control

instance (s : BackendState Bool Nat) (a : BackendAction Bool Nat) : Decidable (InStop s a) :=
  inferInstanceAs (Decidable (s.control ≠ .idle))

def storing : BackendState Bool Nat :=
  ((backendMachine Bool Nat oneSink).execVia SoleConsumer storeRun (create fun _ => 0)).get (by decide +kernel)

def joining : BackendState Bool Nat := (storing.step oneSink .control).get (by decide +kernel)

theorem storing_reachable : (backendMachine Bool Nat oneSink).ReachableVia SoleConsumer storing :=
  .exec (.init ⟨_, rfl⟩) (Option.some_get _).symm

theorem step_storing : storing.step oneSink .control = some joining := (Option.some_get _).symm

theorem returnRun_ends :
    ((backendMachine Bool Nat oneSink).execVia InStop returnRun joining).map
        (fun t => (t.control, t.written 0, t.queue.claimed.length)) = some (.idle, [10], 1) := by
  decide +kernel

theorem stop_returns_returnRun :
    ∃ t : BackendState Bool Nat, t.control = .idle ∧ t.written 0 = [10] ∧
      returnRun.countP ofConsumer ≤ entryCost oneSink * 1 + 2 * 1 + 42 := by
  obtain ⟨t, hrun, he⟩ := Option.map_eq_some_iff.mp returnRun_ends
  obtain ⟨hidle, hwritten, hclaimed⟩ : t.control = .idle ∧ t.written 0 = [10] ∧
      t.queue.claimed.length = 1 := by simpa using he
  have hpopped : storing.queue.popped.length = 0 := by decide +kernel
  have hreturns := stop_returns storing joining t returnRun storing_reachable (by decide +kernel)
    step_storing (Machine.RunVia.of_execVia hrun) (by rw [hclaimed]; decide)
  rw [hclaimed, hpopped] at hreturns
  exact ⟨t, hidle, hwritten, hreturns.1⟩

end BackendState

end BrLogger
