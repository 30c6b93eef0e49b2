import BrLogger.Ring.Invariant

/-!
# Safety of the ring under any interleaving

With one consumer the invariant of `Ring/Invariant.lean` holds in every
reachable state in which the counters have not wrapped.  Read off from it:

* `fifo_safe`: what `TryPop` handed out is a prefix of the claimed items in
  the order of the compare-exchanges, each producer's items come out in the
  order of its own calls, everything claimed and not released is still in its
  slot or in the hands of its producer, and nobody writes a slot another
  thread is using;
* `refused_only_when_full`: a push is refused only at a full ring.

The order of one producer's items needs no bound on the counters
(`OrderInv`): a claim is appended while the call is running, and the call
returns before the next one starts.
-/

namespace BrLogger

namespace RingState

variable {ι κ T : Type} [DecidableEq ι]

/-! ### One producer's items -/

def claimedBy (s : RingState ι κ T) (i : ι) : List T :=
  (s.claimed.filter (fun c => c.1 = i)).map Prod.snd

/-- The items of producer `i` among those handed out. -/
def poppedBy (s : RingState ι κ T) (i : ι) : List T :=
  ((s.claimed.take s.popped.length).filter (fun c => c.1 = i)).map Prod.snd

omit [DecidableEq ι] in
/-- The items of the calls that returned `true`, in call order. -/
def acceptedBy (s : RingState ι κ T) (i : ι) : List T :=
  ((s.completed i).filter (fun c => c.2)).map Prod.fst

/-- The item of a call that has claimed its position and not returned yet. -/
def inFlight {T : Type} : Option (T × PushPc) → List T
  | some (item, .writeData _) => [item]
  | some (item, .publish _) => [item]
  | some (item, .returned _ true) => [item]
  | _ => []

/-- The claims of a producer are its accepted calls and the one in flight. -/
def OrderInv (s : RingState ι κ T) : Prop :=
  ∀ i, s.claimedBy i = s.acceptedBy i ++ inFlight (s.producer i)

theorem OrderInv.frame {s s' : RingState ι κ T} (h : OrderInv s) {i : ι} {v : Option (T × PushPc)}
    (hclaimed : s'.claimed = s.claimed) (hcompleted : s'.completed = s.completed)
    (hproducer : s'.producer = Function.update s.producer i v)
    (hv : inFlight v = inFlight (s.producer i)) : OrderInv s' := by
  intro j
  have hj := h j
  rw [claimedBy, acceptedBy] at hj ⊢
  rw [hclaimed, hcompleted, hproducer, hj]
  by_cases hji : j = i
  · subst hji
    rw [Function.update_self, hv]
  · rw [Function.update_of_ne hji]

theorem OrderInv.push {capacity : Nat} {s s' : RingState ι κ T} (h : OrderInv s) {i : ι} {item : T}
    {pc : PushPc} (hi : s.producer i = some (item, pc)) (hmove : PushMove capacity s i item pc s') :
    OrderInv s' := by
  cases hmove with
  | claim =>
    intro j
    have hj := h j
    by_cases hji : j = i
    · subst hji
      rw [hi] at hj
      simp only [claimedBy, acceptedBy, inFlight, setProducer, List.filter_append, List.map_append,
        Function.update_self, List.append_nil] at hj ⊢
      rw [hj]
      simp
    · simp only [claimedBy, acceptedBy, setProducer, List.filter_append, List.map_append,
        Function.update_of_ne hji] at hj ⊢
      rw [hj]
      simp [Ne.symm hji]
  | _ => exact h.frame rfl rfl rfl (by rw [hi]; rfl)

theorem OrderInv.step [DecidableEq κ] {capacity : Nat} {s s' : RingState ι κ T} (h : OrderInv s)
    {a : RingAction ι κ T} (hstep : s.step capacity a = some s') : OrderInv s' := by
  cases a with
  | callPush i item =>
    obtain ⟨hi, rfl⟩ := callPush_cases hstep
    exact h.frame rfl rfl rfl (by rw [hi]; rfl)
  | stepPush i spurious =>
    obtain ⟨item, pc, hi, hmove⟩ := stepPush_cases hstep
    exact h.push hi hmove
  | returnPush i =>
    obtain ⟨item, pos, result, hi, rfl⟩ := returnPush_cases hstep
    intro j
    have hj := h j
    by_cases hji : j = i
    · subst hji
      rw [hi] at hj
      cases result <;>
        simp only [claimedBy, acceptedBy, inFlight, setProducer, Function.update_self,
          List.filter_append, List.map_append] at hj ⊢ <;> rw [hj] <;> simp
    · simp only [claimedBy, acceptedBy, setProducer, Function.update_of_ne hji] at hj ⊢
      exact hj
  | callPop k => obtain ⟨-, rfl⟩ := callPop_cases hstep; exact h
  | stepPop k =>
    obtain ⟨pc, -, hmove⟩ := stepPop_cases hstep
    cases hmove <;> exact h
  | returnPop k => obtain ⟨_, -, rfl⟩ := returnPop_cases hstep; exact h

/-- What came out of one producer so far is the beginning of what it got accepted. -/
theorem OrderInv.poppedBy_prefix {s : RingState ι κ T} (h : OrderInv s) (i : ι) :
    s.poppedBy i <+: s.acceptedBy i ++ inFlight (s.producer i) := by
  rw [← h i]
  exact ((List.take_prefix _ _).filter _).map _

/-! ### Who uses a slot -/

omit [DecidableEq ι] in
/-- Producer `i` is between its claim and its release store, on this slot. -/
def Writing (capacity : Nat) (s : RingState ι κ T) (i : ι) (slot : Nat) : Prop :=
  ∃ p, holding (s.producer i) = some p ∧ slotIndex capacity p = slot

omit [DecidableEq ι] in
/-- Consumer `k` is between its matching sequence load and its release store, on this slot. -/
def Reading (s : RingState ι κ T) (k : κ) (slot : Nat) : Prop :=
  s.consumer k = some (.copyData slot) ∨ ∃ item, s.consumer k = some (.release slot item)

omit [DecidableEq ι] in
theorem RingInv.writing_unique {C : RingCapacity} {s : RingState ι κ T} (h : RingInv C s) {i j : ι}
    {slot : Nat} (hi : s.Writing C.val i slot) (hj : s.Writing C.val j slot) : i = j := by
  obtain ⟨p, hp, rfl⟩ := hi
  obtain ⟨q, hq, hslot⟩ := hj
  have hpb := h.held_bounds ⟨i, hp⟩
  have hqb := h.held_bounds ⟨j, hq⟩
  have hwindow := h.window
  have heq : q = p := C.eq_of_slotIndex_eq hqb.1 (by omega) hpb.1 (by omega) hslot
  subst heq
  exact h.holder_unique hp hq

omit [DecidableEq ι] in
theorem RingInv.not_writing_of_reading {C : RingCapacity} {s : RingState ι κ T} (h : RingInv C s)
    {i : ι} {k : κ} {slot : Nat} (hk : s.Reading k slot) : ¬ s.Writing C.val i slot := by
  have hat : slot = slotIndex C.val s.released ∧ ¬ s.Held s.released := by
    rcases hk with hk | ⟨item, hk⟩
    · obtain ⟨-, hslot, -, hnot⟩ : ConsumerAt C.val s (.copyData slot) := h.consumer k _ hk
      exact ⟨hslot, hnot⟩
    · obtain ⟨-, hslot, hnot, -⟩ : ConsumerAt C.val s (.release slot item) := h.consumer k _ hk
      exact ⟨hslot, hnot⟩
  rintro ⟨p, hp, hslot⟩
  have hpb := h.held_bounds ⟨i, hp⟩
  have hwindow := h.window
  have hpos := C.pos
  have heq : p = s.released :=
    C.eq_of_slotIndex_eq hpb.1 (by omega) (Nat.le_refl _) (by omega) (hslot.trans hat.1)
  exact hat.2 ⟨i, heq ▸ hp⟩

/-! ### One consumer -/

section
variable {C : RingCapacity}

/-- **Every run with one consumer keeps the invariant** until a counter wraps. -/
theorem ringInv_of_reachable (h2 : 2 ≤ C.val) {s : RingState ι Unit T}
    (h : (ringMachine ι Unit T C.val).Reachable s) :
    s.claimed.length + C.val < 2 ^ 32 → RingInv C s := by
  refine h.induct (fun s => s.claimed.length + C.val < 2 ^ 32 → RingInv C s) ?_ ?_
  · rintro s ⟨junk, rfl⟩ -
    exact ringInv_create C junk
  · intro s a s' _ ih hstep hwrap
    have hgrow := claimed_length_le hstep
    exact (ih (by omega)).step h2 (fun _ _ _ _ => rfl) (fun _ _ _ _ => rfl) hstep hwrap

theorem orderInv_of_reachable {capacity : Nat} {s : RingState ι Unit T}
    (h : (ringMachine ι Unit T capacity).Reachable s) : OrderInv s := by
  refine h.induct OrderInv ?_ (fun _ _ _ _ ih hstep => ih.step hstep)
  rintro s ⟨junk, rfl⟩ i
  rfl

/-- **The ring is a safe multi-producer queue.**  In every reachable state with
fewer than `2 ^ 32 - Capacity` claims: the items handed out are the first ones
in claim order, each producer's in the order of its calls; a claimed position
whose slot is not released is with its producer or holds its item; no producer
writes a slot the consumer is reading, and no two write one slot. -/
theorem fifo_safe (h2 : 2 ≤ C.val) (s : RingState ι Unit T)
    (h : (ringMachine ι Unit T C.val).Reachable s)
    (hwrap : s.claimed.length < 2 ^ 32 - C.val) :
    s.popped = s.items.take s.popped.length ∧
      (∀ i, s.claimedBy i = s.acceptedBy i ++ inFlight (s.producer i) ∧
        s.poppedBy i <+: s.acceptedBy i ++ inFlight (s.producer i)) ∧
      (∀ p, s.released ≤ p → p < s.claimed.length → s.Held p ∨
        (s.ring.buffer (slotIndex C.val p)).sequence = p + 1 ∧
          s.items[p]? = some (s.ring.buffer (slotIndex C.val p)).data) ∧
      (∀ i k slot, s.Reading k slot → ¬ s.Writing C.val i slot) ∧
      (∀ i j slot, s.Writing C.val i slot → s.Writing C.val j slot → i = j) := by
  have hinv := ringInv_of_reachable h2 h (by omega)
  have horder := orderInv_of_reachable h
  refine ⟨List.prefix_iff_eq_take.mp hinv.popped, fun i => ⟨horder i, horder.poppedBy_prefix i⟩,
    ?_, fun i k slot => hinv.not_writing_of_reading, fun i j slot => hinv.writing_unique⟩
  intro p hle hlt
  by_cases hheld : s.Held p
  · exact Or.inl hheld
  · exact Or.inr (hinv.published hle hlt hheld)

/-- A run on two slots: producer `0` pushes `10` and producer `1` claims the next
position, then the consumer takes the `10`. -/
def shortRun : List (RingAction (Fin 2) Unit Nat) :=
  [.callPush 0 10, .stepPush 0 false, .stepPush 0 false, .stepPush 0 true, .stepPush 0 false,
    .stepPush 0 false, .stepPush 0 false, .callPush 1 20, .stepPush 1 false, .stepPush 1 false,
    .stepPush 1 false, .stepPush 0 false, .returnPush 0, .callPop (), .stepPop (), .stepPop (),
    .stepPop (), .stepPop (), .returnPop ()]

theorem shortRun_enabled :
    ((ringMachine (Fin 2) Unit Nat 2).exec shortRun (.create fun _ => 0)).isSome = true := by
  decide

theorem fifo_safe_shortRun :
    ∃ s : RingState (Fin 2) Unit Nat, s.popped = [10] ∧ s.items = [10, 20] ∧
      s.popped = s.items.take s.popped.length ∧ s.Writing 2 1 1 := by
  let s := ((ringMachine (Fin 2) Unit Nat 2).exec shortRun (.create fun _ => 0)).get shortRun_enabled
  have hinit : (ringMachine (Fin 2) Unit Nat 2).Reachable (.create fun _ => 0) := .init ⟨_, rfl⟩
  have hreach : (ringMachine (Fin 2) Unit Nat 2).Reachable s := hinit.exec (Option.some_get _).symm
  have hitems : s.items = [10, 20] := by decide
  have hlen : s.claimed.length = 2 := by decide
  refine ⟨s, by decide, hitems, ?_, 1, by decide, by decide⟩
  exact (fifo_safe (C := twoSlots) two_le_twoSlots s hreach (by rw [hlen]; decide)).1

/-! ### Refusals -/

/-- Producer `i`'s call is bound to return `false`. -/
def Refused (s : RingState ι κ T) (i : ι) : Prop :=
  ∃ item pos, s.producer i = some (item, .returned pos false)

omit [DecidableEq ι] in
/-- A sequence below the loaded position: the position is the next one to claim
and the ring is a full lap ahead of the releases. -/
theorem RingInv.full_of_seq_lt {s : RingState ι κ T} (h : RingInv C s) {pos : Nat}
    (hle : pos ≤ s.claimed.length)
    (hseq : (s.ring.buffer (slotIndex C.val pos)).sequence < pos) :
    pos = s.claimed.length ∧ s.claimed.length = s.released + C.val := by
  have hwindow := h.window
  have hpos : s.released + C.val ≤ pos := by
    by_contra hlt
    obtain ⟨q, hq, hq', hslot⟩ := C.exists_window s.released pos
    rw [← hslot] at hseq
    have hge := h.le_seq hq hq'
    rcases Nat.lt_or_ge pos s.released with hp | hp
    · omega
    · have := C.eq_of_slotIndex_eq hq hq' hp (by omega) hslot
      omega
  omega

/-- **A push is refused only at a full ring.**  The step with which a `TryPush`
call becomes bound to return `false` is a load of its slot's sequence, made with
the current write position, and at that moment exactly `Capacity` claimed items
have not been released. -/
theorem refused_only_when_full (h2 : 2 ≤ C.val) (s s' : RingState ι Unit T) (i : ι)
    (a : RingAction ι Unit T) (h : (ringMachine ι Unit T C.val).Reachable s)
    (hwrap : s.claimed.length < 2 ^ 32 - C.val)
    (hstep : (ringMachine ι Unit T C.val).step s a = some s') (hbefore : ¬ s.Refused i)
    (hafter : s'.Refused i) :
    (∃ spurious, a = .stepPush i spurious) ∧
      (∃ item, s.producer i = some (item, .loadSequence s.claimed.length)) ∧
      s.claimed.length - s.released = C.val := by
  have hinv := ringInv_of_reachable h2 h (by omega)
  have hsame : s'.producer i = s.producer i → False := by
    intro he
    obtain ⟨item, pos, hi⟩ := hafter
    exact hbefore ⟨item, pos, he.symm.trans hi⟩
  have hupdate : ∀ {j : ι} {v : Option (T × PushPc)},
      s'.producer = Function.update s.producer j v → j = i ∧ ∃ item pos,
        v = some (item, .returned pos false) := by
    intro j v he
    have hji : j = i := by
      by_contra hne
      exact hsame (by rw [he, Function.update_of_ne (Ne.symm hne)])
    subst hji
    obtain ⟨item, pos, hi⟩ := hafter
    rw [he, Function.update_self] at hi
    exact ⟨rfl, item, pos, hi⟩
  cases a with
  | callPush j item =>
    obtain ⟨-, rfl⟩ := callPush_cases hstep
    obtain ⟨-, _, _, hv⟩ := hupdate (j := j) rfl
    cases hv
  | stepPush j spurious =>
    obtain ⟨item, pc, hj, hmove⟩ := stepPush_cases hstep
    have hat : ProducerAt C.val s j item pc := hinv.producer j item pc hj
    cases hmove with
    | refused hseq =>
      obtain ⟨rfl, -⟩ := hupdate (j := j) rfl
      obtain ⟨hpos, hfull⟩ := hinv.full_of_seq_lt hat hseq
      exact ⟨⟨spurious, rfl⟩, ⟨item, by rw [hj, hpos]⟩, by omega⟩
    | _ =>
      obtain ⟨-, _, _, hv⟩ := hupdate (j := j) rfl
      cases hv
  | returnPush j =>
    obtain ⟨_, _, _, -, rfl⟩ := returnPush_cases hstep
    obtain ⟨-, _, _, hv⟩ := hupdate (j := j) rfl
    cases hv
  | callPop k => obtain ⟨-, rfl⟩ := callPop_cases hstep; exact absurd rfl hsame
  | stepPop k =>
    obtain ⟨pc, -, hmove⟩ := stepPop_cases hstep
    cases hmove <;> exact absurd rfl hsame
  | returnPop k => obtain ⟨_, -, rfl⟩ := returnPop_cases hstep; exact absurd rfl hsame

/-- One undisturbed push. -/
def pushRun (i : Fin 2) (item : Nat) : List (RingAction (Fin 2) Unit Nat) :=
  [.callPush i item, .stepPush i false, .stepPush i false, .stepPush i false, .stepPush i false,
    .stepPush i false, .returnPush i]

/-- Two pushes fill two slots; a third one has loaded the write position. -/
def fullRun : List (RingAction (Fin 2) Unit Nat) :=
  pushRun 0 10 ++ pushRun 1 20 ++ [.callPush 0 30, .stepPush 0 false]

theorem fullRun_enabled :
    ((ringMachine (Fin 2) Unit Nat 2).exec fullRun (.create fun _ => 0)).isSome = true := by
  decide

theorem refused_only_when_full_fullRun :
    ∃ s : RingState (Fin 2) Unit Nat, s.items = [10, 20] ∧ s.released = 0 ∧
      s.claimed.length - s.released = 2 := by
  let s := ((ringMachine (Fin 2) Unit Nat 2).exec fullRun (.create fun _ => 0)).get fullRun_enabled
  have hinit : (ringMachine (Fin 2) Unit Nat 2).Reachable (.create fun _ => 0) := .init ⟨_, rfl⟩
  have hreach : (ringMachine (Fin 2) Unit Nat 2).Reachable s := hinit.exec (Option.some_get _).symm
  have hlen : s.claimed.length = 2 := by decide
  have hbefore : ¬ s.Refused 0 := by
    rintro ⟨item, pos, hi⟩
    have hpc : s.producer 0 = some (30, .loadSequence 2) := by decide
    rw [hpc] at hi
    cases hi
  refine ⟨s, by decide, by decide, ?_⟩
  exact (refused_only_when_full (C := twoSlots) two_le_twoSlots s _ 0 (.stepPush 0 false) hreach
    (by rw [hlen]; decide) rfl hbefore ⟨30, 2, rfl⟩).2.2

end

end RingState

end BrLogger
