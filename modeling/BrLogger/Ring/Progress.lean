import BrLogger.Lib.Progress
import BrLogger.Ring.Safety

/-!
# `TryPush` is lock-free

The retries of `TryPush` are paid for by others.  A call that has loaded the
current write position is at most four steps from its claim or its refusal; it
falls behind only when another producer claims that position, and it is thrown
back without that only by a spurious failure of the weak compare-exchange.
`pushRank` is that distance: each step of the call brings it down by one, each
claim brings it up by two, and so does a spurious failure.  No other thread has
to move for the call to return, whatever step it was stopped at.
-/

namespace BrLogger

namespace RingState

section
variable {ι κ T : Type}

/-- How far a call is from its return when nobody disturbs it. -/
def pushRank (claimed : Nat) : PushPc → Nat
  | .loadPos => 5
  | .loadSequence pos => if pos = claimed then 4 else 6
  | .compareExchange pos => if pos = claimed then 3 else 5
  | .writeData _ => 2
  | .publish _ => 1
  | .returned _ _ => 0

def rankOf (s : RingState ι κ T) (i : ι) : Nat :=
  match s.producer i with
  | some (_, pc) => pushRank s.claimed.length pc
  | none => 0

theorem pushRank_le (claimed : Nat) (pc : PushPc) : pushRank (claimed + 1) pc ≤ pushRank claimed pc + 2 := by
  cases pc with
  | loadSequence pos | compareExchange pos =>
    simp only [pushRank]
    split <;> split <;> omega
  | _ => exact Nat.le_add_right _ _

theorem rankOf_eq {s : RingState ι κ T} {i : ι} {item : T} {pc : PushPc} (h : s.producer i = some (item, pc)) :
    s.rankOf i = pushRank s.claimed.length pc := by
  rw [rankOf, h]

/-- The claims of the other producers. -/
def claimsBeside [DecidableEq ι] (s : RingState ι κ T) (i : ι) : Nat := s.claimed.countP fun c => c.1 ≠ i

/-- What a call loses by the steps of others is paid for by their claims. -/
theorem rankOf_frame [DecidableEq ι] {s s' : RingState ι κ T} {i : ι} (hi : s'.producer i = s.producer i)
    (hclaimed : s'.claimed = s.claimed ∨ ∃ j item, j ≠ i ∧ s'.claimed = s.claimed ++ [(j, item)]) :
    s'.rankOf i + 2 * s.claimsBeside i ≤ s.rankOf i + 2 * s'.claimsBeside i := by
  rcases hclaimed with he | ⟨j, item, hne, he⟩
  · simp only [rankOf, claimsBeside, hi, he]
    exact Nat.le_refl _
  · have hbeside : s'.claimsBeside i = s.claimsBeside i + 1 := by
      simp [claimsBeside, he, List.countP_append, hne]
    have hrank : s'.rankOf i ≤ s.rankOf i + 2 := by
      rw [rankOf, rankOf, hi, he, List.length_append, List.length_singleton]
      cases s.producer i with
      | none => exact Nat.le_add_right _ _
      | some v => exact pushRank_le _ _
    omega

end

section
variable {ι κ T : Type} {C : RingCapacity} {s s' : RingState ι κ T} {i : ι}

/-- A sequence past the loaded position: that position is claimed by now. -/
theorem RingInv.lt_claimed_of_seq (h : RingInv C s) {pos : Nat} (hle : pos ≤ s.claimed.length)
    (hseq : pos < (s.ring.buffer (slotIndex C.val pos)).sequence) : pos < s.claimed.length := by
  have hpos := C.pos
  have hwindow := h.window
  have hreleased := h.released_le
  rcases Nat.lt_or_eq_of_le hle with hlt | rfl
  · exact hlt
  · rcases Nat.lt_or_eq_of_le hwindow with hfree | hfull
    · cases h.slot s.claimed.length hreleased hfree with
      | free _ seq => omega
      | held _ claimed => exact claimed
      | published _ item => exact lt_of_items item
    · -- a full ring: the slot is the one of the oldest position not released
      have hlap : slotIndex C.val s.claimed.length = slotIndex C.val s.released := by
        rw [hfull, C.slotIndex_eq, C.slotIndex_eq, Nat.add_mod_right]
      rw [hlap] at hseq
      cases h.slot s.released (Nat.le_refl _) (by omega) with
      | free unclaimed => omega
      | held _ _ seq => omega
      | published _ _ seq => omega

variable [DecidableEq ι]

/-- The weak compare-exchange fails at a position that is taken, or spuriously. -/
theorem stepPush_exchange {capacity pos : Nat} {item : T} {spurious : Bool}
    (hi : s.producer i = some (item, .compareExchange pos)) (hstep : s.stepPush capacity i spurious = some s') :
    s.ring.writePos = pos ∧ s'.producer i = some (item, .writeData pos) ∧ s'.claimed = s.claimed ++ [(i, item)] ∨
      (s.ring.writePos ≠ pos ∨ spurious = true) ∧
        s' = s.setProducer i (some (item, .loadSequence s.ring.writePos)) := by
  by_cases hc : s.ring.writePos = pos ∧ spurious = false
  · have hpush : pushStep capacity item spurious s.ring (.compareExchange pos) =
        ({ s.ring with writePos := u32 (pos + 1) }, .writeData pos) := if_pos hc
    simp only [stepPush, hi, hpush, PushPc.claims, if_true, Option.some.injEq] at hstep
    subst hstep
    exact Or.inl ⟨hc.1, Function.update_self _ _ _, rfl⟩
  · have hpush : pushStep capacity item spurious s.ring (.compareExchange pos) =
        (s.ring, .loadSequence s.ring.writePos) := if_neg hc
    simp only [stepPush, hi, hpush, PushPc.claims, Bool.false_eq_true, if_false, Option.some.injEq] at hstep
    refine Or.inr ⟨?_, hstep.symm⟩
    by_contra hnot
    push Not at hnot
    exact hc ⟨hnot.1, Bool.eq_false_iff.mpr hnot.2⟩

/-- **One step of a call brings it one step nearer to its return**, except a spurious failure. -/
theorem RingInv.rankOf_push (h : RingInv C s) {spurious : Bool} (hstep : s.stepPush C.val i spurious = some s') :
    s'.rankOf i + 1 ≤ s.rankOf i + 2 * spurious.toNat ∧ s'.claimsBeside i = s.claimsBeside i := by
  obtain ⟨item, pc, hi, hmove⟩ := stepPush_cases hstep
  have hat : ProducerAt C.val s i item pc := h.producer i item pc hi
  have hwrite := h.writePos
  have hlocal : ∀ {pc'}, s'.producer i = some (item, pc') → s'.claimed = s.claimed →
      pushRank s.claimed.length pc' + 1 ≤ pushRank s.claimed.length pc →
      s'.rankOf i + 1 ≤ s.rankOf i + 2 * spurious.toNat ∧ s'.claimsBeside i = s.claimsBeside i := by
    intro pc' hi' hclaimed hle
    rw [rankOf_eq hi', rankOf_eq hi, claimsBeside, hclaimed]
    exact ⟨by omega, rfl⟩
  have hexchange : ∀ {pos}, pc = .compareExchange pos →
      s'.rankOf i + 1 ≤ s.rankOf i + 2 * spurious.toNat ∧ s'.claimsBeside i = s.claimsBeside i := by
    rintro pos rfl
    rw [rankOf_eq hi]
    rcases stepPush_exchange hi hstep with ⟨hpos, hi', hclaimed⟩ | ⟨hfail, rfl⟩
    · rw [rankOf_eq hi']
      refine ⟨?_, by simp [claimsBeside, hclaimed, List.countP_append]⟩
      simp only [pushRank]
      rw [if_pos (by omega)]
      exact Nat.le_add_right _ _
    · have hi' : (s.setProducer i (some (item, .loadSequence s.ring.writePos))).producer i = _ := Function.update_self i _ _
      rw [rankOf_eq hi']
      refine ⟨?_, rfl⟩
      simp only [pushRank, setProducer, hwrite, if_true]
      rcases hfail with hne | rfl
      · rw [if_neg (by omega)]
        omega
      · rw [Bool.toNat_true]
        split <;> omega
  have hself := fun v => Function.update_self i v s.producer
  cases hmove with
  | loadPos => exact hlocal (hself _) rfl (by simp [pushRank, hwrite])
  | @matched pos =>
    refine hlocal (hself _) rfl ?_
    simp only [pushRank]
    split <;> omega
  | @refused pos =>
    refine hlocal (hself _) rfl ?_
    simp only [pushRank]
    split <;> omega
  | @stale pos hseq =>
    have hlt := h.lt_claimed_of_seq hat hseq
    refine hlocal (hself _) rfl ?_
    simp only [pushRank]
    rw [if_neg (by omega)]
  | claim | exchangeFailed => exact hexchange rfl
  | writeData => exact @hlocal (.publish _) (hself _) rfl (Nat.le_refl _)
  | publish => exact @hlocal (.returned _ true) (hself _) rfl (Nat.le_refl _)

end

/-! ### A call in a run -/

section
variable {ι T : Type} [DecidableEq ι] {C : RingCapacity} {s s' t : RingState ι Unit T} {i : ι}
  {as : List (RingAction ι Unit T)}

/-- A step of thread `i` inside `TryPush`. -/
def isPushOf (i : ι) : RingAction ι Unit T → Bool
  | .stepPush j _ => j = i
  | _ => false

/-- A step in which the exchange of thread `i` may fail spuriously. -/
def isSpuriousOf (i : ι) : RingAction ι Unit T → Bool
  | .stepPush j spurious => spurious && j = i
  | _ => false

/-- Thread `i` neither begins nor ends a call. -/
def Inside (i : ι) : RingAction ι Unit T → Prop
  | .callPush j _ => j ≠ i
  | .returnPush j => j ≠ i
  | _ => True

/-- **What a step does to the rank of a call.** -/
theorem RingInv.rankOf_step (h : RingInv C s) {a : RingAction ι Unit T} (ha : Inside i a)
    (hstep : s.step C.val a = some s') :
    s'.rankOf i + (if isPushOf i a then 1 else 0) + 2 * s.claimsBeside i ≤
      s.rankOf i + 2 * s'.claimsBeside i + 2 * (isSpuriousOf i a).toNat := by
  have hother : ∀ {j : ι} {v}, j ≠ i → (s.setProducer j v).producer i = s.producer i :=
    fun hne => Function.update_of_ne hne.symm _ _
  cases a with
  | callPush j item =>
    obtain ⟨-, rfl⟩ := callPush_cases hstep
    exact rankOf_frame (hother ha) (Or.inl rfl)
  | stepPush j spurious =>
    by_cases hji : j = i
    · subst hji
      obtain ⟨hrank, hbeside⟩ := h.rankOf_push hstep
      simp only [isPushOf, isSpuriousOf, decide_true, Bool.and_true, if_true]
      omega
    · simp only [isPushOf, isSpuriousOf, hji, decide_false, Bool.false_eq_true, if_false, Bool.and_false,
        Bool.toNat_false]
      obtain ⟨item, pc, -, hmove⟩ := stepPush_cases hstep
      cases hmove with
      | claim => exact rankOf_frame (hother hji) (Or.inr ⟨j, item, hji, rfl⟩)
      | _ => exact rankOf_frame (hother hji) (Or.inl rfl)
  | returnPush j =>
    obtain ⟨_, _, _, -, rfl⟩ := returnPush_cases hstep
    exact rankOf_frame (hother ha) (Or.inl rfl)
  | callPop k =>
    obtain ⟨-, rfl⟩ := callPop_cases hstep
    exact rankOf_frame rfl (Or.inl rfl)
  | stepPop k =>
    obtain ⟨pc, -, hmove⟩ := stepPop_cases hstep
    cases hmove <;> exact rankOf_frame rfl (Or.inl rfl)
  | returnPop k =>
    obtain ⟨_, -, rfl⟩ := returnPop_cases hstep
    exact rankOf_frame rfl (Or.inl rfl)

/-- A call that is neither begun nor ended goes on with its item. -/
theorem exists_producer_of_step {item : T} {a : RingAction ι Unit T} (hi : ∃ pc, s.producer i = some (item, pc))
    (ha : Inside i a) (hstep : s.step C.val a = some s') : ∃ pc, s'.producer i = some (item, pc) := by
  obtain ⟨pc, hi⟩ := hi
  have hother : ∀ {j : ι} {v}, j ≠ i → ∃ pc, (s.setProducer j v).producer i = some (item, pc) :=
    fun hne => ⟨pc, (Function.update_of_ne hne.symm _ _).trans hi⟩
  cases a with
  | callPush j =>
    obtain ⟨-, rfl⟩ := callPush_cases hstep
    exact hother ha
  | stepPush j spurious =>
    obtain ⟨item', pc', hj, hmove⟩ := stepPush_cases hstep
    by_cases hji : j = i
    · subst hji
      cases hi.symm.trans hj
      cases hmove <;> exact ⟨_, Function.update_self _ _ _⟩
    · cases hmove <;> exact hother hji
  | returnPush j =>
    obtain ⟨_, _, _, -, rfl⟩ := returnPush_cases hstep
    exact hother ha
  | callPop k =>
    obtain ⟨-, rfl⟩ := callPop_cases hstep
    exact ⟨pc, hi⟩
  | stepPop k =>
    obtain ⟨_, -, hmove⟩ := stepPop_cases hstep
    cases hmove <;> exact ⟨pc, hi⟩
  | returnPop k =>
    obtain ⟨_, -, rfl⟩ := returnPop_cases hstep
    exact ⟨pc, hi⟩

/-- **`TryPush` is lock-free** while the counters have not wrapped: from its call to its return it
takes at most five steps, two more for every position another producer claims meanwhile
and two more for every spurious failure, however the other threads are scheduled or
stopped; and until it returns its next step is enabled. -/
theorem push_lockFree (h2 : 2 ≤ C.val) (s t : RingState ι Unit T) (i : ι) (item : T) (as : List (RingAction ι Unit T))
    (hreach : (ringMachine ι Unit T C.val).Reachable s) (hcall : s.producer i = some (item, .loadPos))
    (hrun : (ringMachine ι Unit T C.val).RunVia (fun _ a => Inside i a) s as t)
    (hwrap : t.claimed.length < 2 ^ 32 - C.val) :
    as.countP (isPushOf i) ≤
        5 + 2 * (t.claimsBeside i - s.claimsBeside i) + 2 * as.countP (isSpuriousOf i) ∧
      ((∃ pos result, t.producer i = some (item, .returned pos result)) ∨
        ∀ spurious, (t.stepPush C.val i spurious).isSome) := by
  refine ⟨?_, ?_⟩
  · obtain ⟨-, hrun⟩ := hrun.annotate (ringMachine ι Unit T C.val).Reachable
      (fun s => s.claimed.length + C.val < 2 ^ 32) (fun _ _ _ hs _ hstep => .step hs hstep)
      (fun s a s' hstep hgood => by have := claimed_length_le (a := a) hstep; omega) hreach (by omega)
    have hcount := hrun.count_le (fun s => s.rankOf i) (fun s => 2 * s.claimsBeside i)
      (isPushOf i) (isSpuriousOf i) 2 fun s a s' hok hstep =>
        (ringInv_of_reachable h2 hok.2.1 hok.2.2).rankOf_step hok.1 hstep
    have hrank : s.rankOf i = 5 := rankOf_eq hcall
    omega
  · obtain ⟨pc, hi⟩ := hrun.keeps (fun s => ∃ pc, s.producer i = some (item, pc))
      (fun _ _ _ hs ha hstep => exists_producer_of_step (C := C) hs ha hstep) ⟨_, hcall⟩
    cases pc with
    | returned pos result => exact Or.inl ⟨pos, result, hi⟩
    | _ =>
      refine Or.inr fun spurious => ?_
      rw [stepPush, hi]
      rfl

instance (i : ι) : (a : RingAction ι Unit T) → Decidable (Inside i a)
  | .callPush j _ | .returnPush j => inferInstanceAs (Decidable (j ≠ i))
  | .stepPush _ _ | .callPop _ | .stepPop _ | .returnPop _ => isTrue trivial

end

/-- Producer `false` loads position `0` and its sequence, producer `true` claims that position
and stops there, and producer `false` goes on to claim the next one. -/
def overtakenRun : List (RingAction Bool Unit Nat) :=
  List.flatten [.replicate 2 (.stepPush false false), [.callPush true 20], .replicate 3 (.stepPush true false),
    .replicate 5 (.stepPush false false)]

def calledPush : RingState Bool Unit Nat :=
  (RingState.create fun _ => 0).setProducer false (some (10, .loadPos))

theorem calledPush_reachable : (ringMachine Bool Unit Nat 2).Reachable calledPush :=
  .step (.init ⟨_, rfl⟩) (a := .callPush false 10) rfl

theorem overtakenRun_enabled :
    ((ringMachine Bool Unit Nat 2).execVia (fun _ a => Inside false a) overtakenRun calledPush).isSome = true := by
  decide

theorem push_lockFree_overtakenRun :
    ∃ t : RingState Bool Unit Nat, t.items = [20, 10] ∧ overtakenRun.countP (isPushOf false) = 7 ∧
      7 ≤ 5 + 2 * (t.claimsBeside false - 0) + 2 * 0 := by
  let t := ((ringMachine Bool Unit Nat 2).execVia (fun _ a => Inside false a) overtakenRun calledPush).get
    overtakenRun_enabled
  have hlen : t.claimed.length = 2 := by decide
  refine ⟨t, by decide, by decide, ?_⟩
  exact (push_lockFree (C := twoSlots) two_le_twoSlots calledPush t false 10 overtakenRun calledPush_reachable rfl
    (Machine.RunVia.of_execVia (Option.some_get _).symm) (by rw [hlen]; decide)).1

end RingState

end BrLogger
