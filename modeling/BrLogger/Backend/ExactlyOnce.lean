import BrLogger.Backend.Stop

/-!
# Every accepted entry, once

As long as one role consumes at a time, the writes of every sink are the first
of the claimed entries in their order, so none is written twice, and an accepted
entry that is not written yet is still somewhere (`Kept`): in its slot, in the
locals of the `TryPop` that is about to move `read_pos_` past it, or in the hands
of the `Drain` call that dispatches it.  `exactlyOnce` puts the two together.

The roles have to take turns: `Drain` is there for manual consumption without a
thread, and nothing in it keeps a control thread that calls it from taking the
slot that the worker is just taking (`not_exactlyOnce_crossingRun`).
-/

namespace BrLogger

namespace BackendState

variable {ι T : Type}

/-- Where the entry of position `p` is, from its publication on. -/
inductive Kept (cfg : BackendConfig) (s : BackendState ι T) (p : Nat) (entry : T) : Prop
  | inRing (sequence : (s.queue.ring.buffer (slotIndex cfg.ringSize.val p)).sequence = p + 1)
      (data : (s.queue.ring.buffer (slotIndex cfg.ringSize.val p)).data = entry)
  | inPop (role : Role) (position : p = s.queue.popped.length)
      (consumer : s.queue.consumer role = some (.advance entry))
  | inDispatch (position : p = s.dispatched.length) (inHand : s.inHand = [entry])
  | written (all : ∀ k < cfg.sinks, (s.written k)[p]? = some entry)

variable {cfg : BackendConfig} {s : BackendState ι T} {p : Nat} {entry : T}

theorem length_inPop_le (consumer : Option (PopPc T)) : (inPop consumer).length ≤ 1 := by
  unfold inPop
  split
  · exact Nat.le_refl 1
  · exact Nat.zero_le 1

theorem length_inWrite_le (d : Option (DrainPc T)) : (inWrite d).length ≤ 1 := by
  unfold inWrite
  split
  · exact Nat.le_refl 1
  · exact Nat.zero_le 1

/-- At most one entry is between its `TryPop` and the end of its dispatch. -/
theorem Turns.length_inHand_le (h : Turns s) : s.inHand.length ≤ 1 := by
  obtain ⟨role, hother⟩ := h.exists_other_none
  rw [(h.inHand_eq role hother).1, inHandOf, List.length_append]
  cases hconsumer : s.queue.consumer role with
  | none =>
    have hnothing : inPop (none : Option (PopPc T)) = [] := rfl
    rw [hnothing, List.length_nil, Nat.zero_add]
    exact length_inWrite_le _
  | some pc =>
    -- inside `TryPop` there is nothing to dispatch
    obtain ⟨count, hpop⟩ := (h.consumer role).mp (by rw [hconsumer]; exact Option.some_ne_none pc)
    rw [hpop]
    exact length_inPop_le _

theorem BackendInv.kept_of_popped (h : BackendInv cfg s) (hitem : s.queue.items[p]? = some entry)
    (hp : p < s.queue.popped.length) : Kept cfg s p entry := by
  have hget : s.queue.popped[p]? = some entry := by
    rw [List.prefix_iff_eq_take.mp h.ring.popped, List.getElem?_take_of_lt hp]
    exact hitem
  have hlength := h.turns.length_inHand_le
  rw [h.delivering.popped] at hget hp
  rcases Nat.lt_or_ge p s.dispatched.length with hdispatched | hdispatched
  · rw [List.getElem?_append_left hdispatched] at hget
    apply Kept.written
    intro k hk
    rw [h.delivering.written k hk, List.getElem?_append_left hdispatched]
    exact hget
  · rw [List.length_append] at hp
    have hposition : p = s.dispatched.length := by omega
    obtain ⟨x, hx⟩ := List.length_eq_one_iff.mp (show s.inHand.length = 1 by omega)
    rw [hposition, List.getElem?_append_right (Nat.le_refl _), Nat.sub_self, hx] at hget
    exact .inDispatch hposition (Option.some.inj hget ▸ hx)

/-- **A published entry is not lost**: from its slot it goes into the locals of one
`TryPop`, from there to the dispatch, and when that is complete every sink has it. -/
theorem BackendInv.kept (h : BackendInv cfg s) {i : ι} (hp : s.queue.claimed[p]? = some (i, entry))
    (hheld : ¬ s.queue.Held p) : Kept cfg s p entry := by
  have hitem := RingState.items_of_claimed hp
  have hlt : p < s.queue.claimed.length := (List.getElem?_eq_some_iff.mp hp).1
  rcases Nat.lt_or_ge p s.queue.released with hreleased | hreleased
  · rcases Nat.lt_or_ge p s.queue.popped.length with hpopped | hpopped
    · exact h.kept_of_popped hitem hpopped
    · -- released and not handed out: the consumer has yet to move `read_pos_`
      obtain ⟨role, item, hconsumer⟩ := h.ring.idle (by omega)
      obtain ⟨hrel, hnext⟩ : s.queue.released = s.queue.popped.length + 1 ∧
          s.queue.items[s.queue.popped.length]? = some item := h.ring.consumer role _ hconsumer
      have hposition : p = s.queue.popped.length := by omega
      rw [← hposition, hitem] at hnext
      rw [← Option.some.inj hnext] at hconsumer
      exact .inPop role hposition hconsumer
  · obtain ⟨hsequence, hdata⟩ := h.ring.published hreleased hlt hheld
    exact .inRing hsequence (Option.some.inj (hdata.symm.trans hitem))

variable [DecidableEq ι]

/-- **Exactly once.**  In every run in which `Drain` is not called while a worker
thread exists, the writes of each sink are the first claimed entries in their order,
so no position is written twice, and every accepted entry is kept until it is written. -/
theorem exactlyOnce (s : BackendState ι T) (h : (backendMachine ι T cfg).ReachableVia SoleConsumer s)
    (hwrap : s.queue.claimed.length < 2 ^ 32 - cfg.ringSize.val) :
    (∀ k < cfg.sinks, s.written k = s.queue.items.take (s.written k).length) ∧
      ∀ p ∈ s.queue.accepted, ∃ i entry, s.queue.claimed[p]? = some (i, entry) ∧ Kept cfg s p entry := by
  have hinv := backendInv_of_reachable (fun _ _ hok => hok) h (by omega)
  refine ⟨fun k hk => List.prefix_iff_eq_take.mp ((hinv.written_prefix hk).trans hinv.ring.popped), ?_⟩
  intro p hp
  obtain ⟨hclaimed, hheld⟩ := hinv.ring.accepted p hp
  have hget := List.getElem?_eq_getElem hclaimed
  exact ⟨_, _, hget, hinv.kept hget hheld⟩

/-! ### Two runs with a worker -/

/-- Producer `false` pushes `10`, the control thread starts the worker, and the worker comes
past the load of `TryPop`. -/
def takingRun : List (BackendAction Bool Nat) :=
  List.flatten [[.callPush false 10], .replicate 5 (.stepPush false false), [.returnPush false, .callStart],
    .replicate 3 .control, .replicate 3 .worker]

/-- The worker goes on alone, up to the test for a second entry. -/
def workerRun : List (BackendAction Bool Nat) := takingRun ++ .replicate 5 .worker

theorem workerRun_ends :
    ((backendMachine Bool Nat oneSink).execVia SoleConsumer workerRun (create fun _ => 0)).map
        (fun s => (s.queue.accepted, s.queue.claimed.length, s.written 0)) = some ([0], 1, [10]) := by
  decide +kernel

theorem exactlyOnce_workerRun :
    ∃ s : BackendState Bool Nat, s.written 0 = [10] ∧ s.written 0 = s.queue.items.take 1 ∧
      ∃ i entry, s.queue.claimed[0]? = some (i, entry) ∧ Kept oneSink s 0 entry := by
  obtain ⟨s, hreach, he⟩ := Machine.ReachableVia.of_run workerRun_ends ⟨_, rfl⟩
  obtain ⟨haccepted, hlen, hwritten⟩ : s.queue.accepted = [0] ∧ s.queue.claimed.length = 1 ∧ s.written 0 = [10] := by
    simpa using he
  obtain ⟨hfirst, hkept⟩ := exactlyOnce s hreach (by rw [hlen]; decide)
  have htake := hfirst 0 (by decide)
  rw [hwritten] at htake
  exact ⟨s, hwritten, hwritten.trans htake, hkept 0 (by rw [haccepted]; exact List.mem_singleton_self 0)⟩

/-- `Drain(1)` is called and loads the same slot, then the worker and the control thread each
write what they take. -/
def crossingRun : List (BackendAction Bool Nat) :=
  List.flatten [takingRun, [.callDrain 1], .replicate 3 .control, .replicate 5 .worker, .replicate 4 .control]

theorem crossingRun_ends :
    ((backendMachine Bool Nat oneSink).exec crossingRun (create fun _ => 0)).map
        (fun s => (s.queue.accepted, s.queue.items, s.written 0)) = some ([0], [10], [10, 10]) := by
  decide +kernel

/-- One accepted entry, passed to the sink twice. -/
theorem not_exactlyOnce_crossingRun :
    ∃ s : BackendState Bool Nat, (backendMachine Bool Nat oneSink).Reachable s ∧
      s.queue.claimed.length < 2 ^ 32 - oneSink.ringSize.val ∧ s.queue.accepted = [0] ∧ s.queue.items = [10] ∧
      s.written 0 = [10, 10] := by
  obtain ⟨s, hs, he⟩ := Option.map_eq_some_iff.mp crossingRun_ends
  obtain ⟨haccepted, hitems, hwritten⟩ : s.queue.accepted = [0] ∧ s.queue.items = [10] ∧ s.written 0 = [10, 10] := by
    simpa using he
  have hinit : (backendMachine Bool Nat oneSink).Reachable (create fun _ => 0) := .init ⟨_, rfl⟩
  have hlen : s.queue.claimed.length = 1 := by rw [← RingState.items_length, hitems, List.length_singleton]
  exact ⟨s, hinit.exec hs, by rw [hlen]; decide, haccepted, hitems, hwritten⟩

end BackendState

end BrLogger
