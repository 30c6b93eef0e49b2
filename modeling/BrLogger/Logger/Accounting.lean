import BrLogger.Backend.Delivery
import BrLogger.Lib.Ledger
import BrLogger.Logger.System

/-!
# Where every sequence id is

Each id that `sequence_` hands out is in one of five groups (`Group`): with a
call that has neither claimed a slot nor counted its drop, counted as dropped,
claimed in the ring and not popped, popped and being dispatched, or dispatched
to every sink.  As multisets the groups add up to the ids handed out
(`LoggerInv.total` and `group_sum`), so each id is in exactly one.

Taking an id, claiming a slot and counting a drop are the only steps that move
one in or out of a call; the ring and the backend only move ids between the
last three groups, which together are always the claimed ones.
-/

namespace BrLogger

/-- The id an entry carries. -/
def LogEntry.id {L : Limits} (e : LogEntry L) : Nat := e.sequenceId.toNat

/-- A `TryPush` call has claimed its slot. -/
def claimedYet {T : Type} : Option (T × PushPc) → Bool
  | some (_, .writeData _) => true
  | some (_, .publish _) => true
  | some (_, .returned _ result) => result
  | _ => false

section
variable {α : Type} {L : Limits}

/-- The id a call holds while it has neither claimed a slot nor counted its drop. -/
def LogPc.pending (call : LogPc α) (producer : Option (LogEntry L × PushPc)) : List Nat :=
  match call with
  | .idle => []
  | .fetched sequence _ => [sequence.toNat]
  | .pushing sequence => if claimedYet producer then [] else [sequence.toNat]
  | .refused sequence => [sequence.toNat]

/-- A call is inside `TryPush` with its own id when it says so, and only then. -/
def LogPc.Matches (call : LogPc α) (producer : Option (LogEntry L × PushPc)) : Prop :=
  match call with
  | .pushing sequence => ∃ entry pc, producer = some (entry, pc) ∧ entry.sequenceId = sequence
  | _ => producer = none

end

inductive Group
  | pending
  | dropped
  | inRing
  | dispatching
  | written
  deriving DecidableEq

instance : Fintype Group where
  elems := {.pending, .dropped, .inRing, .dispatching, .written}
  complete g := by cases g <;> decide

namespace LoggerState

variable {ι α : Type} {L : Limits}

/-- The id that thread `i`'s call holds. -/
def pendingOf (s : LoggerState ι α L) (i : ι) : List Nat :=
  (s.call i).pending (s.backend.queue.producer i)

/-- The ids thread `i` claimed, in the order of the claims. -/
def claimedIds [DecidableEq ι] (s : LoggerState ι α L) (i : ι) : List Nat :=
  (s.backend.queue.claimed.filter (fun c => c.1 = i)).map fun c => c.2.id

/-- The ids sink `k` was given, in order. -/
def writtenIds (s : LoggerState ι α L) (k : Nat) : List Nat := (s.backend.written k).map LogEntry.id

def group [Fintype ι] (s : LoggerState ι α L) : Group → Multiset Nat
  | .pending => ∑ i, (s.pendingOf i : Multiset Nat)
  | .dropped => s.dropped.map UInt64.toNat
  | .inRing => (s.backend.queue.items.drop s.backend.queue.popped.length).map LogEntry.id
  | .dispatching => s.backend.inHand.map LogEntry.id
  | .written => s.backend.dispatched.map LogEntry.id

structure LoggerInv [Fintype ι] [DecidableEq ι] (s : LoggerState ι α L) : Prop where
  calls : ∀ i, (s.call i).Matches (s.backend.queue.producer i)
  sequence : s.sequence = UInt64.ofNat s.handed.length
  dropCount : s.dropCount = UInt64.ofNat s.dropped.length
  total : ∑ i, (s.pendingOf i : Multiset Nat) + (s.dropped.map UInt64.toNat : List Nat) +
    (s.backend.queue.items.map LogEntry.id : List Nat) = Multiset.range s.handed.length
  owner : ∀ c ∈ s.backend.queue.claimed, s.handed[c.2.id]? = some c.1
  pendingOwner : ∀ i, ∀ n ∈ s.pendingOf i, s.handed[n]? = some i
  increasing : ∀ i, (s.claimedIds i ++ s.pendingOf i).Pairwise (· < ·)

variable [Fintype ι] [DecidableEq ι] {s s' : LoggerState ι α L}

theorem loggerInv_create (junk : Nat → LogEntry L) : LoggerInv (create L junk : LoggerState ι α L) where
  calls _ := rfl
  sequence := rfl
  dropCount := rfl
  total := by
    have hnone : ∑ i, ((create L junk : LoggerState ι α L).pendingOf i : Multiset Nat) = 0 :=
      Finset.sum_eq_zero fun _ _ => rfl
    rw [hnone]
    rfl
  owner _ h := absurd h List.not_mem_nil
  pendingOwner _ _ h := absurd h List.not_mem_nil
  increasing _ := List.Pairwise.nil

/-! ### The kinds of step -/

/-- A step that moves no id in or out of a call. -/
theorem LoggerInv.quiet (h : LoggerInv s)
    (hcalls : ∀ i, (s'.call i).Matches (s'.backend.queue.producer i))
    (hpending : ∀ i, s'.pendingOf i = s.pendingOf i)
    (hclaimed : s'.backend.queue.claimed = s.backend.queue.claimed) (hhanded : s'.handed = s.handed)
    (hdropped : s'.dropped = s.dropped) (hsequence : s'.sequence = s.sequence)
    (hdropCount : s'.dropCount = s.dropCount) : LoggerInv s' := by
  have hitems : s'.backend.queue.items = s.backend.queue.items := by
    rw [RingState.items, hclaimed, RingState.items]
  refine ⟨hcalls, ?_, ?_, ?_, ?_, ?_, ?_⟩
  · rw [hsequence, hhanded]
    exact h.sequence
  · rw [hdropCount, hdropped]
    exact h.dropCount
  · simp only [hpending, hitems, hhanded, hdropped]
    exact h.total
  · rw [hclaimed, hhanded]
    exact h.owner
  · intro i
    rw [hpending, hhanded]
    exact h.pendingOwner i
  · intro i
    rw [hpending, claimedIds, hclaimed]
    exact h.increasing i

omit [Fintype ι] in
theorem calls_update {i : ι} (h : ∀ j, (s.call j).Matches (s.backend.queue.producer j))
    (hother : ∀ j, j ≠ i → s'.call j = s.call j ∧
      s'.backend.queue.producer j = s.backend.queue.producer j)
    (hi : (s'.call i).Matches (s'.backend.queue.producer i)) (j : ι) :
    (s'.call j).Matches (s'.backend.queue.producer j) := by
  by_cases hj : j = i
  · rw [hj]
    exact hi
  · rw [(hother j hj).1, (hother j hj).2]
    exact h j

omit [Fintype ι] [DecidableEq ι] in
theorem pendingOf_of_ne {i : ι} (hother : ∀ j, j ≠ i → s'.call j = s.call j ∧
      s'.backend.queue.producer j = s.backend.queue.producer j) (j : ι) (hj : j ≠ i) :
    s'.pendingOf j = s.pendingOf j := by
  rw [pendingOf, pendingOf, (hother j hj).1, (hother j hj).2]

omit [Fintype ι] in
theorem others_of_update {i : ι} {call : LogPc α} (hcall : s'.call = Function.update s.call i call)
    (hbackend : s'.backend = s.backend) (j : ι) (hj : j ≠ i) :
    s'.call j = s.call j ∧ s'.backend.queue.producer j = s.backend.queue.producer j := by
  rw [hcall, Function.update_of_ne hj, hbackend]
  exact ⟨rfl, rfl⟩

theorem sum_pendingOf {i : ι} (hother : ∀ j, j ≠ i → s'.call j = s.call j ∧
      s'.backend.queue.producer j = s.backend.queue.producer j) :
    ∑ j, (s'.pendingOf j : Multiset Nat) + (s.pendingOf i : Multiset Nat) =
      ∑ j, (s.pendingOf j : Multiset Nat) + (s'.pendingOf i : Multiset Nat) :=
  Ledger.sum_add_eq_of_agree i fun j hj => congrArg _ (pendingOf_of_ne hother j hj)

/-- The ids still in a call keep their owners when one call has given up its id. -/
theorem LoggerInv.pendingOwner_of_left (h : LoggerInv s) {i : ι}
    (hother : ∀ j, j ≠ i → s'.call j = s.call j ∧
      s'.backend.queue.producer j = s.backend.queue.producer j)
    (hpend' : s'.pendingOf i = []) (hhanded : s'.handed = s.handed) (j : ι) (n : Nat) (hn : n ∈ s'.pendingOf j) :
    s'.handed[n]? = some j := by
  rw [hhanded]
  by_cases hj : j = i
  · subst hj
    rw [hpend'] at hn
    cases hn
  · rw [pendingOf_of_ne hother j hj] at hn
    exact h.pendingOwner j n hn

omit [Fintype ι] in
theorem setCall_of_ne {i j : ι} (hj : j ≠ i) (call : LogPc α) : (s.setCall i call).call j = s.call j :=
  Function.update_of_ne hj _ _

/-- The ids of a thread that are in its call or claimed are below the next one. -/
theorem LoggerInv.lt_handed (h : LoggerInv s) {i : ι} {n : Nat} (hn : n ∈ s.claimedIds i ++ s.pendingOf i) :
    n < s.handed.length := by
  have hget : s.handed[n]? = some i := by
    rcases List.mem_append.mp hn with hn | hn
    · obtain ⟨c, hc, rfl⟩ := List.mem_map.mp hn
      obtain ⟨hmem, hthread⟩ := List.mem_filter.mp hc
      rw [← of_decide_eq_true hthread]
      exact h.owner c hmem
    · exact h.pendingOwner i n hn
  exact (List.getElem?_eq_some_iff.mp hget).1

omit [Fintype ι] [DecidableEq ι] in
theorem handed_append {l : List ι} {n : Nat} {i j : ι} (h : l[n]? = some i) : (l ++ [j])[n]? = some i := by
  rw [List.getElem?_append_left (List.getElem?_eq_some_iff.mp h).1]
  exact h

/-- A call takes the next id. -/
theorem LoggerInv.fetch (h : LoggerInv s) {i : ι} {call : LogCall α} (hi : s.call i = .idle)
    (hbound : s.handed.length < 2 ^ 64)
    (hcall : s'.call = Function.update s.call i (.fetched s.sequence call))
    (hbackend : s'.backend = s.backend) (hsequence : s'.sequence = s.sequence + 1)
    (hdropCount : s'.dropCount = s.dropCount) (hhanded : s'.handed = s.handed ++ [i])
    (hdropped : s'.dropped = s.dropped) : LoggerInv s' := by
  have hproducer : s.backend.queue.producer i = none := by
    have hmatches := h.calls i
    rwa [hi] at hmatches
  have hid : s.sequence.toNat = s.handed.length := by
    rw [h.sequence]
    exact Nat.mod_eq_of_lt hbound
  have hself : s'.call i = .fetched s.sequence call := by rw [hcall, Function.update_self]
  have hother := others_of_update hcall hbackend
  have hpend : s.pendingOf i = [] := by rw [pendingOf, hi]; rfl
  have hpend' : s'.pendingOf i = [s.handed.length] := by rw [pendingOf, hself, ← hid]; rfl
  have hsum := sum_pendingOf hother
  simp only [hpend, hpend', Multiset.coe_nil, add_zero, Multiset.coe_singleton] at hsum
  refine ⟨calls_update h.calls hother ?_, ?_, ?_, ?_, ?_, ?_, ?_⟩
  · rw [hself, hbackend]
    exact hproducer
  · rw [hsequence, hhanded, h.sequence, List.length_append, List.length_singleton]
    exact (UInt64.ofNat_add _ _).symm
  · rw [hdropCount, hdropped]
    exact h.dropCount
  · rw [hsum, hdropped, hbackend, hhanded, List.length_append, List.length_singleton,
      Multiset.range_succ, ← h.total, ← Multiset.singleton_add]
    simp only [add_comm, add_left_comm]
  · rw [hbackend, hhanded]
    exact fun c hc => handed_append (h.owner c hc)
  · intro j n hn
    rw [hhanded]
    by_cases hj : j = i
    · subst hj
      rw [hpend'] at hn
      rw [List.mem_singleton.mp hn]
      exact List.getElem?_concat_length
    · rw [pendingOf_of_ne hother j hj] at hn
      exact handed_append (h.pendingOwner j n hn)
  · intro j
    have hclaimed : s'.claimedIds j = s.claimedIds j := by rw [claimedIds, hbackend, claimedIds]
    rw [hclaimed]
    by_cases hj : j = i
    · subst hj
      have hinc := h.increasing j
      rw [hpend, List.append_nil] at hinc
      rw [hpend', List.pairwise_append]
      refine ⟨hinc, List.pairwise_singleton _ _, ?_⟩
      intro n hn m hm
      rw [List.mem_singleton.mp hm]
      exact h.lt_handed (List.mem_append_left _ hn)
    · rw [pendingOf_of_ne hother j hj]
      exact h.increasing j

/-- A call claims a slot for its entry. -/
theorem LoggerInv.claim (h : LoggerInv s) {i : ι} (entry : LogEntry L)
    (hother : ∀ j, j ≠ i → s'.call j = s.call j ∧
      s'.backend.queue.producer j = s.backend.queue.producer j)
    (hcall : (s'.call i).Matches (s'.backend.queue.producer i)) (hpend : s.pendingOf i = [entry.id])
    (hpend' : s'.pendingOf i = [])
    (hclaimed : s'.backend.queue.claimed = s.backend.queue.claimed ++ [(i, entry)])
    (hhanded : s'.handed = s.handed) (hdropped : s'.dropped = s.dropped)
    (hsequence : s'.sequence = s.sequence) (hdropCount : s'.dropCount = s.dropCount) : LoggerInv s' := by
  have hsum := sum_pendingOf hother
  simp only [hpend, hpend', Multiset.coe_nil, add_zero, Multiset.coe_singleton] at hsum
  have hitems : s'.backend.queue.items.map LogEntry.id =
      s.backend.queue.items.map LogEntry.id ++ [entry.id] := by
    rw [RingState.items, hclaimed, RingState.items, List.map_append, List.map_append]
    rfl
  refine ⟨calls_update h.calls hother hcall, ?_, ?_, ?_, ?_, ?_, ?_⟩
  · rw [hsequence, hhanded]
    exact h.sequence
  · rw [hdropCount, hdropped]
    exact h.dropCount
  · rw [hitems, hdropped, hhanded, ← h.total, ← hsum, ← Multiset.coe_add, Multiset.coe_singleton]
    simp only [add_assoc, add_comm, add_left_comm]
  · intro c hc
    rw [hclaimed] at hc
    rw [hhanded]
    rcases List.mem_append.mp hc with hc | hc
    · exact h.owner c hc
    · rw [List.mem_singleton.mp hc]
      exact h.pendingOwner i _ (by rw [hpend]; exact List.mem_singleton_self _)
  · exact h.pendingOwner_of_left hother hpend' hhanded
  · intro j
    have hinc := h.increasing j
    rw [claimedIds] at hinc ⊢
    rw [hclaimed, List.filter_append, List.map_append]
    by_cases hj : j = i
    · subst hj
      rw [hpend] at hinc
      simpa [hpend'] using hinc
    · rw [pendingOf_of_ne hother j hj]
      simpa [Ne.symm hj] using hinc

/-- A refused call counts its drop. -/
theorem LoggerInv.drop (h : LoggerInv s) {i : ι} {sequence : UInt64} (hi : s.call i = .refused sequence)
    (hcall : s'.call = Function.update s.call i .idle) (hbackend : s'.backend = s.backend)
    (hsequence : s'.sequence = s.sequence) (hdropCount : s'.dropCount = s.dropCount + 1)
    (hhanded : s'.handed = s.handed) (hdropped : s'.dropped = s.dropped ++ [sequence]) :
    LoggerInv s' := by
  have hproducer : s.backend.queue.producer i = none := by
    have hmatches := h.calls i
    rwa [hi] at hmatches
  have hself : s'.call i = .idle := by rw [hcall, Function.update_self]
  have hother := others_of_update hcall hbackend
  have hpend : s.pendingOf i = [sequence.toNat] := by rw [pendingOf, hi]; rfl
  have hpend' : s'.pendingOf i = [] := by rw [pendingOf, hself]; rfl
  have hsum := sum_pendingOf hother
  simp only [hpend, hpend', Multiset.coe_nil, add_zero, Multiset.coe_singleton] at hsum
  refine ⟨calls_update h.calls hother ?_, ?_, ?_, ?_, ?_, ?_, ?_⟩
  · rw [hself, hbackend]
    exact hproducer
  · rw [hsequence, hhanded]
    exact h.sequence
  · rw [hdropCount, hdropped, h.dropCount, List.length_append, List.length_singleton]
    exact (UInt64.ofNat_add _ _).symm
  · rw [hbackend, hdropped, hhanded, ← h.total, ← hsum, List.map_append, ← Multiset.coe_add,
      List.map_singleton, Multiset.coe_singleton]
    simp only [add_assoc, add_comm, add_left_comm]
  · rw [hbackend, hhanded]
    exact h.owner
  · exact h.pendingOwner_of_left hother hpend' hhanded
  · intro j
    have hclaimed : s'.claimedIds j = s.claimedIds j := by rw [claimedIds, hbackend, claimedIds]
    rw [hclaimed]
    by_cases hj : j = i
    · subst hj
      rw [hpend', List.append_nil]
      exact (List.pairwise_append.mp (h.increasing j)).1
    · rw [pendingOf_of_ne hother j hj]
      exact h.increasing j

end LoggerState

namespace LoggerState

variable {ι α : Type} [Fintype ι] [DecidableEq ι] {cfg : LoggerConfig ι α}
  {s s' : LoggerState ι α cfg.limits}

/-- A step of the backend that is none of a producer's. -/
theorem LoggerInv.backend (h : LoggerInv s) (hcall : s'.call = s.call)
    (hproducer : s'.backend.queue.producer = s.backend.queue.producer)
    (hclaimed : s'.backend.queue.claimed = s.backend.queue.claimed) (hhanded : s'.handed = s.handed)
    (hdropped : s'.dropped = s.dropped) (hsequence : s'.sequence = s.sequence)
    (hdropCount : s'.dropCount = s.dropCount) : LoggerInv s' := by
  refine h.quiet ?_ ?_ hclaimed hhanded hdropped hsequence hdropCount
  · rw [hcall, hproducer]
    exact h.calls
  · intro i
    rw [pendingOf, pendingOf, hcall, hproducer]

/-- The call of `TryPush`, with the call's own entry. -/
theorem LoggerInv.push (h : LoggerInv s) {i : ι} {sequence : UInt64} {call : LogCall α}
    (hi : s.call i = .fetched sequence call) {entry : LogEntry cfg.limits} (hid : entry.sequenceId = sequence)
    {backend : BackendState ι (LogEntry cfg.limits)}
    (hb : s.backend.step cfg.backend (.callPush i entry) = some backend) :
    LoggerInv { s.setCall i (.pushing sequence) with backend := backend } := by
  obtain ⟨queue, hq, rfl⟩ := BackendState.queueStep_cases hb
  obtain ⟨-, rfl⟩ := RingState.callPush_cases hq
  have hother : ∀ j, j ≠ i → (s.setCall i (.pushing sequence)).call j = s.call j ∧
      (s.backend.queue.setProducer i (some (entry, .loadPos))).producer j = s.backend.queue.producer j :=
    fun j hj => ⟨setCall_of_ne hj _, Function.update_of_ne hj _ _⟩
  refine h.quiet (calls_update h.calls hother ?_) ?_ rfl rfl rfl rfl rfl
  · simp only [setCall, RingState.setProducer, Function.update_self]
    exact ⟨_, _, rfl, hid⟩
  · intro j
    by_cases hj : j = i
    · subst hj
      simp [pendingOf, setCall, RingState.setProducer, hi, LogPc.pending, claimedYet]
    · exact pendingOf_of_ne hother j hj

omit [Fintype ι] [DecidableEq ι] in
/-- The call of a thread inside `TryPush`. -/
theorem call_of_producer {call : LogPc α} {producer : Option (LogEntry cfg.limits × PushPc)}
    (h : call.Matches producer) {entry : LogEntry cfg.limits} {pc : PushPc}
    (hp : producer = some (entry, pc)) : call = .pushing entry.sequenceId := by
  subst hp
  cases call with
  | pushing sequence =>
    obtain ⟨entry', pc', he, hid⟩ := h
    cases he
    rw [hid]
  | _ => cases h

theorem LoggerInv.stepPush (h : LoggerInv s) {i : ι} {spurious : Bool}
    {backend : BackendState ι (LogEntry cfg.limits)}
    (hb : s.backend.step cfg.backend (.stepPush i spurious) = some backend) :
    LoggerInv { s with backend := backend } := by
  obtain ⟨queue, hq, rfl⟩ := BackendState.queueStep_cases hb
  obtain ⟨entry, pc, hi, hmove⟩ := RingState.stepPush_cases hq
  have hcall := call_of_producer (h.calls i) hi
  -- the producer's new position, for a step that claims nothing
  have hquiet : ∀ {queue : RingState ι Role (LogEntry cfg.limits)} {pc' : PushPc},
      queue.producer = Function.update s.backend.queue.producer i (some (entry, pc')) →
      queue.claimed = s.backend.queue.claimed →
      claimedYet (some (entry, pc')) = claimedYet (some (entry, pc)) →
      LoggerInv { s with backend := { s.backend with queue := queue } } := by
    intro queue pc' hproducer hclaimed hyet
    have hother : ∀ j, j ≠ i → s.call j = s.call j ∧ queue.producer j = s.backend.queue.producer j :=
      fun j hj => ⟨rfl, by rw [hproducer, Function.update_of_ne hj]⟩
    refine h.quiet (calls_update h.calls hother ?_) ?_ hclaimed rfl rfl rfl rfl
    · simp only [hproducer, Function.update_self, hcall]
      exact ⟨entry, pc', rfl, rfl⟩
    · intro j
      by_cases hj : j = i
      · subst hj
        simp only [pendingOf, hproducer, Function.update_self, hcall, hi, LogPc.pending, hyet]
      · exact pendingOf_of_ne hother j hj
  cases hmove with
  | @claim pos _ =>
    have hother : ∀ j, j ≠ i → s.call j = s.call j ∧
        (s.backend.queue.setProducer i (some (entry, .writeData pos))).producer j =
          s.backend.queue.producer j :=
      fun j hj => ⟨rfl, Function.update_of_ne hj _ _⟩
    refine h.claim entry hother ?_ ?_ ?_ rfl rfl rfl rfl rfl
    · simp only [RingState.setProducer, Function.update_self, hcall]
      exact ⟨_, _, rfl, rfl⟩
    · rw [pendingOf, hcall, hi]
      rfl
    · simp [pendingOf, RingState.setProducer, hcall, LogPc.pending, claimedYet]
  | _ => exact hquiet rfl rfl rfl

theorem LoggerInv.result (h : LoggerInv s) {i : ι} {sequence : UInt64} (hcall : s.call i = .pushing sequence)
    {backend : BackendState ι (LogEntry cfg.limits)}
    (hb : s.backend.step cfg.backend (.returnPush i) = some backend) :
    LoggerInv { s.setCall i (if pushResult (s.backend.queue.producer i) then .idle else .refused sequence) with
      backend := backend } := by
  obtain ⟨queue, hq, rfl⟩ := BackendState.queueStep_cases hb
  obtain ⟨entry, pos, result, hi, rfl⟩ := RingState.returnPush_cases hq
  have hi : s.backend.queue.producer i = some (entry, .returned pos result) := hi
  rw [hi]
  have hother : ∀ j, j ≠ i →
      (s.setCall i (if result then .idle else .refused sequence)).call j = s.call j ∧
      (s.backend.queue.setProducer i none).producer j = s.backend.queue.producer j :=
    fun j hj => ⟨setCall_of_ne hj _, Function.update_of_ne hj _ _⟩
  refine h.quiet (calls_update h.calls hother ?_) ?_ rfl rfl rfl rfl rfl
  · simp only [setCall, RingState.setProducer, Function.update_self]
    cases result <;> rfl
  · intro j
    by_cases hj : j = i
    · subst hj
      simp only [pendingOf, setCall, RingState.setProducer, Function.update_self, hcall, hi,
        pushResult, LogPc.pending, claimedYet]
      cases result <;> rfl
    · exact pendingOf_of_ne hother j hj

/-- A step of the worker or the control thread. -/
theorem LoggerInv.backendStep (h : LoggerInv s) {b : BackendAction ι (LogEntry cfg.limits)}
    (hquiet : b.ofProducer = false) (hb : s.backend.step cfg.backend b = some s'.backend) (hcall : s'.call = s.call)
    (hhanded : s'.handed = s.handed) (hdropped : s'.dropped = s.dropped) (hsequence : s'.sequence = s.sequence)
    (hdropCount : s'.dropCount = s.dropCount) : LoggerInv s' := by
  obtain ⟨hproducer, hclaimed, -⟩ := BackendState.producer_frame hquiet hb
  exact h.backend hcall hproducer hclaimed hhanded hdropped hsequence hdropCount

/-- **One step keeps the accounts**, while the ids do not wrap. -/
theorem LoggerInv.step (h : LoggerInv s) {a : LoggerAction ι α} (hstep : s.step cfg a = some s')
    (hbound : s'.handed.length < 2 ^ 64) : LoggerInv s' := by
  cases step_cases hstep with
  | fetch hi =>
    rw [List.length_append, List.length_singleton] at hbound
    exact h.fetch hi (by omega) rfl rfl rfl rfl rfl rfl
  | @push i sequence call _ hi hb =>
    exact h.push hi (call.entry_sequenceId cfg.limits cfg.lib cfg.build s.context cfg.os i sequence) hb
  | result hi hb => exact h.result hi hb
  | drop hi => exact h.drop hi rfl rfl rfl rfl rfl rfl
  | context => exact h.backend rfl rfl rfl rfl rfl rfl rfl
  | startedAlready | notStarted => exact h
  | start _ hb => exact h.backendStep rfl hb rfl rfl rfl rfl rfl
  | stop _ hb => exact h.backendStep rfl hb rfl rfl rfl rfl rfl
  | @backend _ b _ hon hb =>
    cases a with
    | stepPush =>
      cases hon
      exact h.stepPush hb
    | drain | worker | control =>
      cases hon
      exact h.backendStep rfl hb rfl rfl rfl rfl rfl
    | _ => cases hon

/-! ### Every run -/

omit [Fintype ι] in
/-- The backend under the logger takes one of its own steps or none. -/
theorem backend_of_step {a : LoggerAction ι α} (hstep : s.step cfg a = some s') :
    s'.backend = s.backend ∨ ∃ b, s.backend.step cfg.backend b = some s'.backend ∧
      (OneConsumer s a → SoleConsumer s.backend b) := by
  cases step_cases hstep with
  | fetch | drop | context | startedAlready | notStarted => exact Or.inl rfl
  | push _ hb | result _ hb | start _ hb | stop _ hb => exact Or.inr ⟨_, hb, fun _ => trivial⟩
  | backend hon hb =>
    refine Or.inr ⟨_, hb, ?_⟩
    cases a with
    | drain =>
      cases hon
      exact id
    | stepPush | worker | control =>
      cases hon
      exact fun _ => trivial
    | _ => cases hon

omit [Fintype ι] in
theorem handed_length_le {a : LoggerAction ι α} (hstep : s.step cfg a = some s') :
    s.handed.length ≤ s'.handed.length := by
  cases step_cases hstep with
  | fetch => exact Nat.le_of_lt (List.length_append ▸ Nat.lt_succ_self _)
  | _ => exact Nat.le_refl _

omit [Fintype ι] in
/-- A run of the logger is a run of its backend. -/
theorem backend_reachable (h : (loggerMachine cfg).ReachableVia OneConsumer s) :
    (backendMachine ι (LogEntry cfg.limits) cfg.backend).ReachableVia SoleConsumer s.backend := by
  refine h.induct
    (fun s => (backendMachine ι (LogEntry cfg.limits) cfg.backend).ReachableVia SoleConsumer s.backend) ?_ ?_
  · rintro s ⟨junk, rfl⟩
    exact .init ⟨junk, rfl⟩
  · intro s a s' _ hok ih hstep
    rcases backend_of_step hstep with he | ⟨b, hb, hsole⟩
    · rw [he]
      exact ih
    · exact ih.step (hsole hok) hb

theorem loggerInv_of_reachable (h : (loggerMachine cfg).ReachableVia OneConsumer s) :
    s.handed.length < 2 ^ 64 → LoggerInv s := by
  refine h.induct (fun s => s.handed.length < 2 ^ 64 → LoggerInv s) ?_ ?_
  · rintro s ⟨junk, rfl⟩ -
    exact loggerInv_create junk
  · intro s a s' _ _ ih hstep hbound
    have hgrow := handed_length_le hstep
    exact (ih (by omega)).step hstep hbound

omit [Fintype ι] [DecidableEq ι] in
theorem sum_group {M : Type} [AddCommMonoid M] (f : Group → M) :
    ∑ g, f g = f .pending + f .dropped + f .inRing + f .dispatching + f .written := by
  show ∑ g ∈ {.pending, .dropped, .inRing, .dispatching, .written}, f g = _
  rw [Finset.sum_insert (by decide), Finset.sum_insert (by decide), Finset.sum_insert (by decide),
    Finset.sum_insert (by decide), Finset.sum_singleton]
  simp only [add_assoc]

/-- **The groups add up to the ids handed out.** -/
theorem LoggerInv.group_sum (h : LoggerInv s) (hb : BackendState.BackendInv cfg.backend s.backend) :
    ∑ g, s.group g = Multiset.range s.handed.length := by
  have hitems : s.backend.queue.items = s.backend.dispatched ++ s.backend.inHand ++
      s.backend.queue.items.drop s.backend.queue.popped.length := by
    rw [← hb.delivering.popped]
    conv_lhs => rw [← List.take_append_drop s.backend.queue.popped.length s.backend.queue.items]
    rw [← List.prefix_iff_eq_take.mp hb.ring.popped]
  rw [sum_group, ← h.total]
  conv_rhs => rw [hitems]
  simp only [group, List.map_append, ← Multiset.coe_add]
  simp only [add_assoc, add_comm, add_left_comm]

omit [Fintype ι] [DecidableEq ι] in
theorem writtenIds_prefix (hb : BackendState.BackendInv cfg.backend s.backend) {k : Nat}
    (hk : k < cfg.sinks) : s.writtenIds k <+: s.backend.queue.items.map LogEntry.id :=
  ((hb.written_prefix hk).trans hb.ring.popped).map _

theorem LoggerInv.nodup_items (h : LoggerInv s) : (s.backend.queue.items.map LogEntry.id).Nodup := by
  have hle : (s.backend.queue.items.map LogEntry.id : Multiset Nat) ≤ Multiset.range s.handed.length := by
    rw [← h.total]
    exact Multiset.le_add_left _ _
  exact Multiset.coe_nodup.mp (Multiset.nodup_of_le hle (Multiset.nodup_range _))

/-- What a thread claimed, picked out of the claimed ids by their owner. -/
theorem LoggerInv.filter_items (h : LoggerInv s) (i : ι) :
    (s.backend.queue.items.map LogEntry.id).filter (fun n => s.handed[n]? = some i) = s.claimedIds i := by
  rw [RingState.items, List.map_map, List.filter_map, claimedIds]
  congr 1
  apply List.filter_congr
  intro c hc
  have howner := h.owner c hc
  simp only [Function.comp_apply, howner, Option.some.injEq]

/-- **Every id handed out is in exactly one group**, so `sequence_` is the sum of
their sizes and `drop_count_` the size of the second; every sink is given a
prefix of one sequence of entries, has each entry of the last group exactly
once, and gets the entries of each thread in the order of their ids. -/
theorem accounting (s : LoggerState ι α cfg.limits) (h : (loggerMachine cfg).ReachableVia OneConsumer s)
    (hwrap : s.backend.queue.claimed.length < 2 ^ 32 - cfg.limits.ringSize.val)
    (hcalls : s.handed.length < 2 ^ 64) :
    (∀ n < s.sequence.toNat, ∃! g, n ∈ s.group g) ∧
      s.sequence.toNat = ∑ g, (s.group g).card ∧
      s.dropCount.toNat = (s.group .dropped).card ∧
      (∀ k < cfg.sinks, s.backend.written k <+: s.backend.queue.popped ∧
        (∀ n ∈ s.group .written, (s.writtenIds k).count n = 1) ∧
        ∀ i, ((s.writtenIds k).filter (fun n => s.handed[n]? = some i)).Pairwise (· < ·)) ∧
      (0 < cfg.sinks → ∀ n, (∀ k < cfg.sinks, n ∈ s.writtenIds k) → n ∈ s.group .written) := by
  have hinv := loggerInv_of_reachable h hcalls
  have hring : s.backend.queue.claimed.length + cfg.backend.ringSize.val < 2 ^ 32 := by
    show _ + cfg.limits.ringSize.val < _
    omega
  have hb := BackendState.backendInv_of_reachable (fun _ _ hok => hok) (backend_reachable h) hring
  have hsum := hinv.group_sum hb
  have hsequence : s.sequence.toNat = s.handed.length := by
    rw [hinv.sequence]
    exact Nat.mod_eq_of_lt hcalls
  have hcard : s.handed.length = ∑ g, (s.group g).card := by
    rw [← Multiset.card_sum, hsum, Multiset.card_range]
  have hwritten : ∀ k < cfg.sinks, s.backend.written k = s.backend.dispatched ++ s.backend.partly k :=
    hb.delivering.written
  refine ⟨?_, hsequence.trans hcard, ?_, ?_, ?_⟩
  · intro n hn
    rw [hsequence] at hn
    exact Ledger.existsUnique_mem_of_sum_eq hsum (Multiset.nodup_range _) (Multiset.mem_range.mpr hn)
  · have hdropped : (s.group .dropped).card = s.dropped.length := by simp [group]
    rw [sum_group] at hcard
    rw [hdropped, hinv.dropCount]
    exact Nat.mod_eq_of_lt (show s.dropped.length < 2 ^ 64 by omega)
  · intro k hk
    have hprefix := writtenIds_prefix hb hk
    refine ⟨hb.written_prefix hk, ?_, ?_⟩
    · intro n hn
      apply List.count_eq_one_of_mem (hinv.nodup_items.sublist hprefix.sublist)
      rw [writtenIds, hwritten k hk, List.map_append]
      exact List.mem_append_left _ (Multiset.mem_coe.mp hn)
    · intro i
      have hsub := hprefix.sublist.filter fun n => decide (s.handed[n]? = some i)
      rw [hinv.filter_items i] at hsub
      exact (List.pairwise_append.mp (hinv.increasing i)).1.sublist hsub
  · intro hpos n hn
    have hlast := hn (cfg.sinks - 1) (by omega)
    rw [writtenIds, hwritten _ (by omega),
      hb.delivering.last (cfg.sinks - 1) (Nat.sub_add_cancel hpos), List.append_nil] at hlast
    exact Multiset.mem_coe.mpr hlast

/-! ### Runs on a ring of two slots -/

instance {ι α : Type} {L : Limits} (s : LoggerState ι α L) (a : LoggerAction ι α) :
    Decidable (OneConsumer s a) := by
  cases a with
  | drain maxEntries => exact decidable_of_iff (s.backend.worker.isNone = true) Option.isNone_iff_eq_none
  | _ => exact isTrue trivial

def tinyLimits : Limits :=
  { Limits.desktop with ringSize := twoSlots, ringSize_two_le := two_le_twoSlots }

/-- One thread that logs through `percentS`, and one sink. -/
def tinyLogger : LoggerConfig Unit (List Byte) := ⟨tinyLimits, percentS, .printf, ⟨0, fun _ => 0⟩, 1, true⟩

def shortCall : LogCall (List Byte) :=
  ⟨.info, ⟨none, none, none, none, 0, 0⟩, ⟨ascii "hi", by decide⟩, none, 0, 0⟩

def acceptedCall : List (LoggerAction Unit (List Byte)) :=
  List.flatten [[.logImpl () shortCall, .tryPush ()], .replicate 5 (.stepPush () false), [.returnPush ()]]

def refusedCall : List (LoggerAction Unit (List Byte)) :=
  [.logImpl () shortCall, .tryPush (), .stepPush () false, .stepPush () false, .returnPush (),
    .countDrop ()]

/-- Two entries, a drop, and a `Drain(1)` that has just popped the first entry. -/
def drainedRun : List (LoggerAction Unit (List Byte)) :=
  List.flatten [acceptedCall, acceptedCall, refusedCall, [.drain 1], .replicate 6 .control]

theorem drainedRun_ends :
    ((loggerMachine tinyLogger).execVia OneConsumer drainedRun (create tinyLimits fun _ => .zero _)).map
        (fun s => (s.sequence, s.dropCount, s.handed.length, s.backend.queue.claimed.length)) =
      some (3, 1, 3, 2) := by
  decide +kernel

theorem accounting_drainedRun :
    ∃ s : LoggerState Unit (List Byte) tinyLogger.limits, s.sequence = 3 ∧ s.dropCount = 1 ∧
      s.sequence.toNat = ∑ g, (s.group g).card ∧ s.dropCount.toNat = (s.group .dropped).card := by
  obtain ⟨s, hreach, he⟩ := Machine.ReachableVia.of_run drainedRun_ends ⟨_, rfl⟩
  obtain ⟨hsequence, hdropCount, hhanded, hclaimed⟩ : s.sequence = 3 ∧ s.dropCount = 1 ∧
      s.handed.length = 3 ∧ s.backend.queue.claimed.length = 2 := by simpa using he
  obtain ⟨-, htotal, hdrops, -⟩ := accounting s hreach (by rw [hclaimed]; decide)
    (by rw [hhanded]; decide)
  exact ⟨s, hsequence, hdropCount, htotal, hdrops⟩

/-- The thread is between calls and the ring is full. -/
structure Refusing (s : LoggerState Unit (List Byte) tinyLogger.limits) : Prop where
  call : s.call () = .idle
  producer : s.backend.queue.producer () = none
  full : (s.backend.queue.ring.buffer (slotIndex 2 s.backend.queue.ring.writePos)).sequence <
    s.backend.queue.ring.writePos

/-- The thread's `TryPush` is about to return `false`; nothing else has happened since `s`
but that the call took its id. -/
structure RefusedSince (s s' : LoggerState Unit (List Byte) tinyLogger.limits) : Prop where
  call : s'.call () = .pushing s.sequence
  producer : ∃ entry pos, s'.backend.queue.producer () = some (entry, .returned pos false)
  ring : s'.backend.queue.ring = s.backend.queue.ring
  claimed : s'.backend.queue.claimed = s.backend.queue.claimed
  sequence : s'.sequence = s.sequence + 1
  dropped : s'.dropped = s.dropped

/-- A push on the full ring is refused. -/
theorem Refusing.refused {s : LoggerState Unit (List Byte) tinyLogger.limits} (h : Refusing s) :
    ∃ s', (loggerMachine tinyLogger).execVia OneConsumer
        [.logImpl () shortCall, .tryPush (), .stepPush () false, .stepPush () false] s = some s' ∧
      RefusedSince s s' := by
  have hne := Nat.ne_of_lt h.full
  have hring : tinyLogger.backend.ringSize.val = 2 := rfl
  simp only [Machine.execVia, loggerMachine, LoggerState.step, logImpl, h.call, OneConsumer, setCall,
    Function.update_self, tryPush, backendStep, BackendState.step, BackendState.queueStep, RingState.step,
    RingState.callPush, h.producer, RingState.setProducer, RingState.stepPush, pushStep, hring, h.full, hne,
    Option.map_some, Option.bind_some, if_true, if_false]
  refine ⟨_, rfl, by simp, ?_, rfl, by simp [PushPc.claims], rfl, rfl⟩
  exact ⟨shortCall.entry tinyLimits percentS .printf s.context tinyLogger.os () s.sequence,
    s.backend.queue.ring.writePos, by simp; rfl⟩

/-- The refusal is counted, and the thread is where it was. -/
theorem RefusedSince.counted {s s' : LoggerState Unit (List Byte) tinyLogger.limits} (h : RefusedSince s s')
    (hs : Refusing s) :
    ∃ t, (loggerMachine tinyLogger).execVia OneConsumer [.returnPush (), .countDrop ()] s' = some t ∧
      Refusing t ∧ t.sequence = s.sequence + 1 ∧ t.dropped.length = s.dropped.length + 1 ∧
      t.backend.queue.claimed = s.backend.queue.claimed := by
  obtain ⟨entry, pos, hproducer⟩ := h.producer
  have hfull := hs.full
  rw [← h.ring] at hfull
  have hlen : (s'.dropped ++ [s.sequence]).length = s.dropped.length + 1 := by rw [h.dropped]; simp
  simp only [Machine.execVia, loggerMachine, LoggerState.step, returnPush, h.call, hproducer, pushResult,
    OneConsumer, setCall, backendStep, BackendState.step, BackendState.queueStep, RingState.step,
    RingState.returnPush, RingState.setProducer, countDrop, Function.update_self, Option.map_some,
    Option.bind_some, if_true]
  exact ⟨_, rfl, ⟨by simp, by simp, hfull⟩, h.sequence, hlen, h.claimed⟩

theorem Refusing.refusedCall {s : LoggerState Unit (List Byte) tinyLogger.limits} (h : Refusing s) :
    ∃ s', (loggerMachine tinyLogger).execVia OneConsumer refusedCall s = some s' ∧ Refusing s' ∧
      s'.sequence = s.sequence + 1 ∧ s'.dropped.length = s.dropped.length + 1 ∧
      s'.backend.queue.claimed = s.backend.queue.claimed := by
  obtain ⟨s', hpush, hrefused⟩ := h.refused
  obtain ⟨t, hcount, ht⟩ := hrefused.counted h
  exact ⟨t, Machine.execVia_append hpush hcount, ht⟩

/-- Any number of refused calls, one after the other. -/
theorem Refusing.refusedCalls {s : LoggerState Unit (List Byte) tinyLogger.limits} (h : Refusing s)
    (hs : (loggerMachine tinyLogger).ReachableVia OneConsumer s) (n : Nat) :
    ∃ s', (loggerMachine tinyLogger).ReachableVia OneConsumer s' ∧ Refusing s' ∧
      s'.sequence = s.sequence + UInt64.ofNat n ∧ s'.dropped.length = s.dropped.length + n ∧
      s'.backend.queue.claimed = s.backend.queue.claimed := by
  induction n with
  | zero => exact ⟨s, hs, h, by simp, rfl, rfl⟩
  | succ n ih =>
    obtain ⟨t, ht, hrefusing, hsequence, hdropped, hclaimed⟩ := ih
    obtain ⟨s', hexec, hrefusing', hsequence', hdropped', hclaimed'⟩ := hrefusing.refusedCall
    refine ⟨s', ht.exec hexec, hrefusing', ?_, ?_, hclaimed'.trans hclaimed⟩
    · rw [hsequence', hsequence, UInt64.add_assoc, UInt64.ofNat_add]
      rfl
    · rw [hdropped', hdropped, Nat.add_assoc]

theorem fullRing_ends :
    ((loggerMachine tinyLogger).execVia OneConsumer (acceptedCall ++ acceptedCall)
        (create tinyLimits fun _ => .zero _)).map
        (fun s => ((match s.call () with | .idle => true | _ => false, (s.backend.queue.producer ()).isNone,
          decide ((s.backend.queue.ring.buffer (slotIndex 2 s.backend.queue.ring.writePos)).sequence <
            s.backend.queue.ring.writePos)), s.sequence, s.dropped.length, s.backend.queue.claimed.length)) =
      some ((true, true, true), 2, 0, 2) := by
  decide +kernel

/-- After two entries that fill the ring and `2 ^ 64 - 2` drops, `sequence_` is `0` again
while the groups hold `2 ^ 64` ids. -/
theorem not_accounting_wrapped :
    ∃ s : LoggerState Unit (List Byte) tinyLogger.limits,
      (loggerMachine tinyLogger).ReachableVia OneConsumer s ∧
        s.backend.queue.claimed.length < 2 ^ 32 - tinyLogger.limits.ringSize.val ∧
        s.sequence.toNat ≠ ∑ g, (s.group g).card := by
  obtain ⟨s, hreach, he⟩ := Machine.ReachableVia.of_run fullRing_ends ⟨_, rfl⟩
  simp only [Prod.mk.injEq, decide_eq_true_eq, Option.isNone_iff_eq_none] at he
  obtain ⟨⟨hcall, hproducer, hfull⟩, hsequence, hdropped, hclaimed⟩ := he
  have hidle : s.call () = .idle := by
    split at hcall
    · assumption
    · cases hcall
  obtain ⟨s', hreach, -, hsequence', hdropped', hclaimed'⟩ :=
    Refusing.refusedCalls ⟨hidle, hproducer, hfull⟩ hreach (2 ^ 64 - 2)
  refine ⟨s', hreach, by rw [hclaimed', hclaimed]; decide, ?_⟩
  have hzero : s'.sequence.toNat = 0 := by
    rw [hsequence', hsequence]
    decide
  have hcard : (s'.group .dropped).card = 2 ^ 64 - 2 := by
    rw [hdropped] at hdropped'
    simpa [group] using hdropped'
  rw [hzero, sum_group, hcard]
  omega

end LoggerState

end BrLogger
