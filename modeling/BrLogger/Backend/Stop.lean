import BrLogger.Backend.Delivery
import Mathlib.Data.Fintype.Basic

/-!
# What `Stop` delivers

`Stop` is documented to drain what is left in the ring, and it drains until a
`Drain(64)` call returns `0`, that is until the first `TryPop` of a call fails.
`TryPop` fails at an empty ring and also at a slot that is claimed and not yet
published, behind which entries of other producers may long be accepted
(`EndsEarly`).  `stop_delivers` says this is the only way for an entry to miss
its sinks: in a run in which `Stop`'s drain never gives up at such a slot,
every entry accepted before the call is in every sink when `Stop` flushes.
-/

namespace BrLogger

namespace BackendState

variable {ι T : Type}

/-- `Stop`'s drain is about to load the sequence for the first `TryPop` of a
`Drain(64)` call, the slot at `read_pos_` is claimed and not published, and an
entry accepted before `Stop` lies behind it. -/
def EndsEarly (s : BackendState ι T) : Prop :=
  s.control = .stopDrain (.pop 0) ∧ s.queue.consumer .control = some .loadSequence ∧
    s.queue.Held s.queue.ring.readPos ∧ ∃ p ∈ s.acceptedAtStop, s.queue.ring.readPos < p

/-- The steps that do not make `Stop`'s drain give up early. -/
def DrainsPast (s : BackendState ι T) : BackendAction ι T → Prop
  | .control => ¬ s.EndsEarly
  | _ => True

/-- Every entry whose `TryPush` had returned `true` when `Stop` was called is the
entry of its position in every sink. -/
def DeliveredAtStop (cfg : BackendConfig) (s : BackendState ι T) : Prop :=
  ∀ p ∈ s.acceptedAtStop, ∃ i entry, s.queue.claimed[p]? = some (i, entry) ∧
    ∀ k < cfg.sinks, (s.written k)[p]? = some entry

/-- `Stop`'s last `TryPop` has failed. -/
def Finishing (s : BackendState ι T) : Prop :=
  s.control = .stopDrain (.pop 0) ∧ s.queue.consumer .control = some (.returned none) ∨
    s.control = .stopDrain (.returned 0) ∨ ∃ k, s.control = .stopFlush k

structure StopInv (s : BackendState ι T) : Prop where
  accepted : ∀ p ∈ s.acceptedAtStop, p ∈ s.queue.accepted
  drained : s.Finishing → ∀ p ∈ s.acceptedAtStop, p < s.queue.popped.length

variable [DecidableEq ι] {cfg : BackendConfig} {s s' t : BackendState ι T}

omit [DecidableEq ι] in
/-- **The load at which `Stop`'s drain ends finds everything accepted behind it**,
unless it ends early. -/
theorem BackendInv.lt_popped_of_empty (h : BackendInv cfg s) {p : Nat} (hp : p ∈ s.queue.accepted)
    (hwrap : s.queue.claimed.length + cfg.ringSize.val < 2 ^ 32)
    (hload : s.queue.consumer .control = some .loadSequence)
    (hseq : (s.queue.ring.buffer (slotIndex cfg.ringSize.val s.queue.ring.readPos)).sequence ≠
      u32 (s.queue.ring.readPos + 1))
    (hearly : ¬ (s.queue.Held s.queue.ring.readPos ∧ s.queue.ring.readPos < p)) :
    p < s.queue.popped.length := by
  have hread := h.ring.readPos
  have hrel : s.queue.released = s.queue.popped.length := h.ring.consumer .control _ hload
  obtain ⟨hclaimed, hnot⟩ := h.ring.accepted p hp
  by_contra hge
  have hfree : ¬ s.queue.Held s.queue.released := by
    intro hheld
    rw [hread, ← hrel] at hearly
    rcases Nat.lt_or_ge s.queue.released p with hlt | hle
    · exact hearly ⟨hheld, hlt⟩
    · have heq : s.queue.released = p := by omega
      exact hnot (heq ▸ hheld)
  obtain ⟨hpublished, -⟩ := h.ring.published (Nat.le_refl _) (by omega) hfree
  rw [hread, ← hrel, u32_of_lt (by omega)] at hseq
  exact hseq hpublished

/-- How a step of `Stop`'s drain can leave it finished: by a load that finds no entry, or it
was finished already. -/
theorem finishing_of_drainMove {d d' : DrainPc T} (hc : s.control = .stopDrain d)
    (hmove : DrainMove cfg s .control 64 d t d')
    (hfinish : Finishing { t with control := .stopDrain d' }) :
    t.queue.popped = s.queue.popped ∧
      (s.Finishing ∨ d = .pop 0 ∧ s.queue.consumer .control = some .loadSequence ∧
        (s.queue.ring.buffer (slotIndex cfg.ringSize.val s.queue.ring.readPos)).sequence ≠
          u32 (s.queue.ring.readPos + 1)) := by
  have hself := s.queue.setConsumer_self .control
  have hended : d' = .pop 0 ∧ t.queue.consumer .control = some (.returned none) ∨ d' = .returned 0 := by
    rcases hfinish with ⟨he, hreturned⟩ | he | ⟨k, he⟩
    · cases he
      exact Or.inl ⟨rfl, hreturned⟩
    · cases he
      exact Or.inr rfl
    · cases he
  cases hmove with
  | callPop =>
    rcases hended with ⟨-, hreturned⟩ | he
    · rw [hself] at hreturned
      cases hreturned
    · cases he
  | finish hle =>
    rcases hended with ⟨he, -⟩ | he
    · cases he
    · cases he
      omega
  | stepPop _ hpc hmove =>
    rcases hended with ⟨he, hreturned⟩ | he
    · cases he
      cases hmove with
      | empty hseq => exact ⟨rfl, Or.inr ⟨rfl, hpc, hseq⟩⟩
      | _ =>
        simp only [RingState.setConsumer, Function.update_self] at hreturned
        cases hreturned
    · cases he
  | empty hpc =>
    rcases hended with ⟨he, -⟩ | he
    · cases he
    · cases he
      exact ⟨rfl, Or.inl (Or.inl ⟨hc, hpc⟩)⟩
  | took _ hat =>
    rcases dispatchAt_cases hat with ⟨-, -, rfl⟩ | ⟨-, -, rfl⟩ <;> rcases hended with ⟨he, -⟩ | he <;> cases he
  | write hat =>
    rcases dispatchAt_cases hat with ⟨-, -, rfl⟩ | ⟨-, -, rfl⟩ <;> rcases hended with ⟨he, -⟩ | he <;> cases he

/-- A step of `Stop`'s drain that leaves it finished. -/
theorem StopInv.drain (h : StopInv s) (hinv : BackendInv cfg s) {d d' : DrainPc T}
    (hwrap : s.queue.claimed.length + cfg.ringSize.val < 2 ^ 32) (hc : s.control = .stopDrain d)
    (hearly : ¬ s.EndsEarly) (hmove : DrainMove cfg s .control 64 d t d')
    (hfinish : Finishing { t with control := .stopDrain d' }) :
    ∀ p ∈ s.acceptedAtStop, p < t.queue.popped.length := by
  obtain ⟨hpopped, hwas⟩ := finishing_of_drainMove hc hmove hfinish
  rw [hpopped]
  rcases hwas with hwas | ⟨rfl, hload, hseq⟩
  · exact h.drained hwas
  · intro p hp
    refine hinv.lt_popped_of_empty (h.accepted p hp) hwrap hload hseq ?_
    rintro ⟨hheld, hlt⟩
    exact hearly ⟨hc, hload, hheld, p, hp, hlt⟩

theorem StopInv.control (h : StopInv s) (hinv : BackendInv cfg s) {pc : ControlPc T}
    (hwrap : s.queue.claimed.length + cfg.ringSize.val < 2 ^ 32) (hc : s.control = pc)
    (hearly : ¬ s.EndsEarly) (hmove : ControlMove cfg s pc s') : StopInv s' := by
  cases hmove with
  | stopDrain hmove =>
    have hframe := drainFrame hmove
    refine ⟨?_, ?_⟩
    · show ∀ p ∈ _, p ∈ _
      rw [hframe.acceptedAtStop, hframe.accepted]
      exact h.accepted
    · intro hfinish
      have hdrained := h.drain hinv hwrap hc hearly hmove hfinish
      show ∀ p ∈ _, _
      rw [hframe.acceptedAtStop]
      exact hdrained
  | stopDrained => exact ⟨h.accepted, fun _ => h.drained (Or.inr (Or.inl hc))⟩
  | flush => exact ⟨h.accepted, fun _ => h.drained (Or.inr (Or.inr ⟨_, hc⟩))⟩
  | drain hmove =>
    have hframe := drainFrame hmove
    refine ⟨?_, ?_⟩
    · show ∀ p ∈ _, p ∈ _
      rw [hframe.acceptedAtStop, hframe.accepted]
      exact h.accepted
    · rintro (⟨he, -⟩ | he | ⟨k, he⟩) <;> cases he
  | _ =>
    refine ⟨h.accepted, ?_⟩
    rintro (⟨he, -⟩ | he | ⟨k, he⟩) <;> cases he

omit [DecidableEq ι] in
/-- A step of another thread. -/
theorem StopInv.other (h : StopInv s) (hcontrol : s'.control = s.control)
    (hconsumer : s'.queue.consumer .control = s.queue.consumer .control)
    (hatStop : s'.acceptedAtStop = s.acceptedAtStop)
    (haccepted : ∀ p ∈ s.queue.accepted, p ∈ s'.queue.accepted)
    (hpopped : s.queue.popped.length ≤ s'.queue.popped.length) : StopInv s' := by
  refine ⟨?_, ?_⟩
  · intro p hp
    exact haccepted p (h.accepted p (hatStop ▸ hp))
  · intro hfinish p hp
    rw [Finishing, hcontrol, hconsumer] at hfinish
    exact Nat.lt_of_lt_of_le (h.drained hfinish p (hatStop ▸ hp)) hpopped

theorem StopInv.worker (h : StopInv s) (hinv : BackendInv cfg s) {pc : WorkerPc T}
    (hw : s.worker = some pc) (hmove : WorkerMove cfg s pc s')
    (hpopped : s.queue.popped.length ≤ s'.queue.popped.length) : StopInv s' := by
  have hdrain : ∀ {d t d'}, s.draining .worker = some d → DrainMove cfg s .worker 64 d t d' →
      t.queue.consumer .control = s.queue.consumer .control := by
    intro d t d' hd hmove
    exact (consumer_of_drainMove hmove (hd ▸ hinv.turns.consumer .worker)).2 .control nofun
  cases hmove with
  | drain hmove =>
    have hframe := drainFrame hmove
    have hconsumer := hdrain (by rw [draining, hw]) hmove
    exact h.other hframe.control hconsumer hframe.acceptedAtStop (fun p hp => hframe.accepted ▸ hp) hpopped
  | finalDrain hmove =>
    have hframe := drainFrame hmove
    have hconsumer := hdrain (by rw [draining, hw]) hmove
    exact h.other hframe.control hconsumer hframe.acceptedAtStop (fun p hp => hframe.accepted ▸ hp) hpopped
  | _ => exact h.other rfl rfl rfl (fun _ hp => hp) (Nat.le_refl _)

/-- **One step keeps what `Stop` is owed.** -/
theorem StopInv.step (h : StopInv s) (hinv : BackendInv cfg s)
    (hwrap : s.queue.claimed.length + cfg.ringSize.val < 2 ^ 32) {a : BackendAction ι T}
    (hpast : s.DrainsPast a) (hstep : s.step cfg a = some s') : StopInv s' := by
  have hpopped : s.queue.popped.length ≤ s'.queue.popped.length := by
    rcases queue_of_step hstep with he | ⟨b, hb⟩
    · rw [he]
    · exact RingState.popped_length_le hb
  cases a with
  | callPush i entry =>
    obtain ⟨queue, hq, rfl⟩ := queueStep_cases hstep
    obtain ⟨-, rfl⟩ := RingState.callPush_cases hq
    exact h.other rfl rfl rfl (fun _ hp => hp) hpopped
  | stepPush i spurious =>
    obtain ⟨queue, hq, rfl⟩ := queueStep_cases hstep
    obtain ⟨item, pc, -, hmove⟩ := RingState.stepPush_cases hq
    cases hmove <;> exact h.other rfl rfl rfl (fun _ hp => hp) hpopped
  | returnPush i =>
    obtain ⟨queue, hq, rfl⟩ := queueStep_cases hstep
    obtain ⟨item, pos, result, -, rfl⟩ := RingState.returnPush_cases hq
    refine h.other rfl rfl rfl ?_ hpopped
    intro p hp
    cases result with
    | false => exact hp
    | true => exact List.mem_append_left _ hp
  | worker =>
    obtain ⟨pc, hw, hmove⟩ := workerStep_cases hstep
    exact h.worker hinv hw hmove hpopped
  | callStart =>
    obtain ⟨-, rfl⟩ := callControl_cases hstep
    refine ⟨h.accepted, ?_⟩
    rintro (⟨he, -⟩ | he | ⟨k, he⟩) <;> cases he
  | callStop =>
    obtain ⟨t, ht, rfl⟩ := Option.map_eq_some_iff.mp hstep
    obtain ⟨-, rfl⟩ := callControl_cases ht
    refine ⟨fun _ hp => hp, ?_⟩
    rintro (⟨he, -⟩ | he | ⟨k, he⟩) <;> cases he
  | callDrain maxEntries =>
    obtain ⟨-, rfl⟩ := callControl_cases hstep
    refine ⟨h.accepted, ?_⟩
    rintro (⟨he, -⟩ | he | ⟨k, he⟩) <;> cases he
  | control =>
    obtain ⟨pc, hc, hmove⟩ := controlStep_cases hstep
    exact h.control hinv hwrap hc hpast hmove

/-! ### Every run -/

/-- The runs of one consuming role at a time in which no drain of `Stop` ends early. -/
def StopsWell (s : BackendState ι T) (a : BackendAction ι T) : Prop := SoleConsumer s a ∧ s.DrainsPast a

theorem stopInv_of_reachable (h : (backendMachine ι T cfg).ReachableVia StopsWell s) :
    s.queue.claimed.length + cfg.ringSize.val < 2 ^ 32 → StopInv s := by
  refine h.induct (fun s => s.queue.claimed.length + cfg.ringSize.val < 2 ^ 32 → StopInv s) ?_ ?_
  · rintro s ⟨junk, rfl⟩ -
    exact ⟨nofun, fun _ => nofun⟩
  · intro s a s' hreach hok ih hstep hwrap
    have hgrow := claimed_length_le_of_step hstep
    have hwrap : s.queue.claimed.length + cfg.ringSize.val < 2 ^ 32 := by omega
    exact (ih hwrap).step (backendInv_of_reachable (fun _ _ hok => hok.1) hreach hwrap) hwrap hok.2 hstep

omit [DecidableEq ι] in
theorem BackendInv.written_eq_popped (h : BackendInv cfg s) {k j : Nat} (hk : k < cfg.sinks)
    (hflush : s.control = .stopFlush j) : s.written k = s.queue.popped := by
  have hw := h.turns.flushing j hflush
  have hcontrol : s.draining .control = none := by rw [draining, hflush]
  obtain ⟨hhand, hpartly⟩ := h.turns.inHand_eq .worker hcontrol
  have hidle := h.turns.consumer_none .worker (by
    rw [draining_worker_none hw]
    intro count hne
    cases hne)
  rw [h.delivering.popped, h.delivering.written k hk, hhand, hpartly, inHandOf, draining_worker_none hw,
    hidle]
  rfl

omit [DecidableEq ι] in
/-- While `Stop` flushes, what it is owed is in the sinks. -/
theorem StopInv.delivered (h : StopInv s) (hinv : BackendInv cfg s) {j : Nat} (hflush : s.control = .stopFlush j) :
    s.DeliveredAtStop cfg := by
  intro p hp
  have hlt := h.drained (Or.inr (Or.inr ⟨j, hflush⟩)) p hp
  obtain ⟨hclaimed, -⟩ := hinv.ring.accepted p (h.accepted p hp)
  refine ⟨s.queue.claimed[p].1, s.queue.claimed[p].2, List.getElem?_eq_getElem hclaimed, ?_⟩
  intro k hk
  have hitem : s.queue.items[p]? = some s.queue.claimed[p].2 :=
    RingState.items_of_claimed (List.getElem?_eq_getElem hclaimed)
  rw [hinv.written_eq_popped hk hflush, ← hitem, List.prefix_iff_eq_take.mp hinv.ring.popped,
    List.getElem?_take_of_lt (by simpa using hlt)]

/-- **`Stop` delivers everything accepted before it**, in every run in which its
drain does not end early: when it flushes the sinks, each of them has every
entry whose `TryPush` had returned `true` when `Stop` was called. -/
theorem stop_delivers (s : BackendState ι T) (h : (backendMachine ι T cfg).ReachableVia StopsWell s)
    (hwrap : s.queue.claimed.length < 2 ^ 32 - cfg.ringSize.val) (j : Nat)
    (hflush : s.control = .stopFlush j) : s.DeliveredAtStop cfg := by
  have hinv := backendInv_of_reachable (fun _ _ hok => hok.1) h (by omega)
  exact (stopInv_of_reachable h (by omega)).delivered hinv hflush

/-! ### Two runs of `Stop` -/

instance [Fintype ι] [DecidableEq T] (s : BackendState ι T) : Decidable s.EndsEarly := by
  unfold EndsEarly RingState.Held
  infer_instance

instance [Fintype ι] [DecidableEq T] (s : BackendState ι T) :
    (a : BackendAction ι T) → Decidable (s.DrainsPast a)
  | .control => inferInstanceAs (Decidable (¬ s.EndsEarly))
  | .callPush _ _ | .stepPush _ _ | .returnPush _ | .worker | .callStart | .callStop | .callDrain _ =>
    isTrue trivial

instance [Fintype ι] [DecidableEq T] (s : BackendState ι T) (a : BackendAction ι T) :
    Decidable (StopsWell s a) := inferInstanceAs (Decidable (SoleConsumer s a ∧ s.DrainsPast a))

def oneSink : BackendConfig := ⟨twoSlots, two_le_twoSlots, 1, true⟩

/-- Producer `false` pushes `10`, then `Stop` takes it, writes it and drains to the end. -/
def deliveredRun : List (BackendAction Bool Nat) :=
  List.flatten [[.callPush false 10], .replicate 5 (.stepPush false false), [.returnPush false, .callStop],
    .replicate 17 .control]

theorem deliveredRun_ends :
    ((backendMachine Bool Nat oneSink).execVia StopsWell deliveredRun (create fun _ => 0)).map
        (fun s => (s.acceptedAtStop, s.queue.claimed.length, s.control)) =
      some ([0], 1, .stopFlush 0) := by
  decide +kernel

theorem stop_delivers_deliveredRun :
    ∃ s : BackendState Bool Nat, s.acceptedAtStop = [0] ∧ s.DeliveredAtStop oneSink := by
  obtain ⟨s, hreach, he⟩ := Machine.ReachableVia.of_run deliveredRun_ends ⟨_, rfl⟩
  obtain ⟨haccepted, hlen, hflush⟩ : s.acceptedAtStop = [0] ∧ s.queue.claimed.length = 1 ∧
      s.control = .stopFlush 0 := by simpa using he
  exact ⟨s, haccepted, stop_delivers s hreach (by rw [hlen]; decide) 0 hflush⟩

/-- Producer `false` claims position `0` and stays there, producer `true` gets its push of
`20` accepted behind it, the backend starts and stops. -/
def earlyRun : List (BackendAction Bool Nat) :=
  List.flatten [[.callPush false 10], .replicate 3 (.stepPush false false), [.callPush true 20],
    .replicate 5 (.stepPush true false), [.returnPush true, .callStart], .replicate 3 .control,
    [.callStop, .control], .replicate 5 .worker, .replicate 5 .control]

theorem earlyRun_ends :
    ((backendMachine Bool Nat oneSink).execVia SoleConsumer earlyRun (create fun _ => 0)).map
        (fun s => (s.acceptedAtStop, s.queue.claimed.length, s.control, s.written 0)) =
      some ([1], 2, .stopFlush 0, []) := by
  decide +kernel

/-- `Stop` flushes a sink that never got the `20` accepted before it. -/
theorem not_delivered_earlyRun :
    ∃ s : BackendState Bool Nat,
      (backendMachine Bool Nat oneSink).ReachableVia SoleConsumer s ∧
        s.queue.claimed.length < 2 ^ 32 - oneSink.ringSize.val ∧ s.control = .stopFlush 0 ∧
        ¬ s.DeliveredAtStop oneSink := by
  obtain ⟨s, hreach, he⟩ := Machine.ReachableVia.of_run earlyRun_ends ⟨_, rfl⟩
  obtain ⟨haccepted, hlen, hflush, hwritten⟩ : s.acceptedAtStop = [1] ∧
      s.queue.claimed.length = 2 ∧ s.control = .stopFlush 0 ∧ s.written 0 = [] := by simpa using he
  refine ⟨s, hreach, by rw [hlen]; decide, hflush, ?_⟩
  intro h
  obtain ⟨i, entry, -, hdelivered⟩ := h 1 (by rw [haccepted]; exact List.mem_singleton_self 1)
  have hentry := hdelivered 0 (by decide)
  rw [hwritten] at hentry
  cases hentry

end BackendState

end BrLogger
