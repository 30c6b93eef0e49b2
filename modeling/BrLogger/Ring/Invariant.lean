import BrLogger.Ring.System
import Mathlib.Data.List.Infix

/-!
# The invariant of the ring

Write `N` for the number of claimed pushes and `R` for the number of released
slots.  As long as no counter wraps, the `Capacity` positions from `R` on are
exactly the slots of the buffer, one each, and every one of them is in one of
three states (`SlotAt`): its producer still holds it and the sequence is the
position itself, it is published with sequence one more and the item of that
claim, or it is free for the push that will claim the position.  A producer's
own locals are tied to this by `ProducerAt`: a loaded position may be stale but
never ahead, and a compare-exchange that can still succeed is at a free slot.

`RingInv` collects this with the consumer's side.  Each kind of move has its
preservation lemma, `RingInv.step` puts them together, and `ringInv` is the
invariant of every run in which fewer than `2 ^ 32 - Capacity` pushes are
claimed and at most one consumer is inside `TryPop`.
-/

namespace BrLogger

namespace RingState

variable {ι κ T : Type}

/-- The program counter found after an update is the new one, or an old one of someone else. -/
theorem update_eq_some {α β : Type} [DecidableEq α] {f : α → Option β} {a b : α} {v : Option β} {x : β}
    (h : Function.update f a v b = some x) : b = a ∧ v = some x ∨ b ≠ a ∧ f b = some x := by
  by_cases hba : b = a
  · subst hba
    exact Or.inl ⟨rfl, (Function.update_self b v f).symm.trans h⟩
  · exact Or.inr ⟨hba, (Function.update_of_ne hba v f).symm.trans h⟩

/-- While consumers take turns, the one that moves is the only one inside its call. -/
theorem Exclusive.update_eq_some [DecidableEq κ] {s : RingState ι κ T} {k k' : κ} {pc pc' : PopPc T}
    {v : Option (PopPc T)} (hexcl : s.Exclusive) (hk : s.consumer k = some pc)
    (h : Function.update s.consumer k v k' = some pc') : k' = k ∧ v = some pc' := by
  rcases RingState.update_eq_some h with hself | ⟨hne, hother⟩
  · exact hself
  · exact absurd (hexcl k' k (by rw [hother]; exact nofun) (by rw [hk]; exact nofun)) hne

theorem slot_eq {a b : Slot T} (hseq : a.sequence = b.sequence) (hdata : a.data = b.data) : a = b := by
  cases a
  cases b
  cases hseq
  cases hdata
  rfl

theorem holding_update [DecidableEq ι] {f : ι → Option (T × PushPc)} {i : ι}
    {v : Option (T × PushPc)} {p : Nat} :
    (∃ j, holding (Function.update f i v j) = some p) ↔
      holding v = some p ∨ ∃ j, j ≠ i ∧ holding (f j) = some p := by
  constructor
  · rintro ⟨j, hj⟩
    by_cases hji : j = i
    · subst hji
      rw [Function.update_self] at hj
      exact Or.inl hj
    · rw [Function.update_of_ne hji] at hj
      exact Or.inr ⟨j, hji, hj⟩
  · rintro (hv | ⟨j, hji, hj⟩)
    · exact ⟨i, by rw [Function.update_self]; exact hv⟩
    · exact ⟨j, by rw [Function.update_of_ne hji]; exact hj⟩

/-- A producer that holds the same position before and after its step leaves `Held` alone. -/
theorem held_setProducer [DecidableEq ι] {s : RingState ι κ T} {i : ι} {v : Option (T × PushPc)}
    (hv : holding v = holding (s.producer i)) (p : Nat) :
    (s.setProducer i v).Held p ↔ s.Held p := by
  refine holding_update.trans ?_
  constructor
  · rintro (hp | ⟨j, -, hj⟩)
    · exact ⟨i, hv.symm.trans hp⟩
    · exact ⟨j, hj⟩
  · rintro ⟨j, hj⟩
    by_cases hji : j = i
    · subst hji
      exact Or.inl (hv.trans hj)
    · exact Or.inr ⟨j, hji, hj⟩

/-- What slot `p & (Capacity - 1)` holds for position `p` of the current lap. -/
inductive SlotAt (capacity : Nat) (s : RingState ι κ T) (p : Nat) : Prop
  | free (unclaimed : s.claimed.length ≤ p)
      (seq : (s.ring.buffer (slotIndex capacity p)).sequence = p)
  | held (held : s.Held p) (claimed : p < s.claimed.length)
      (seq : (s.ring.buffer (slotIndex capacity p)).sequence = p)
  | published (notHeld : ¬ s.Held p)
      (item : s.items[p]? = some (s.ring.buffer (slotIndex capacity p)).data)
      (seq : (s.ring.buffer (slotIndex capacity p)).sequence = p + 1)

/-- What producer `i` knows inside its call `TryPush(item)`. -/
def ProducerAt (capacity : Nat) (s : RingState ι κ T) (i : ι) (item : T) : PushPc → Prop
  | .loadPos => True
  | .loadSequence pos => pos ≤ s.claimed.length
  | .compareExchange pos => pos ≤ s.claimed.length ∧
      (pos = s.claimed.length → s.claimed.length < s.released + capacity)
  | .writeData pos => s.released ≤ pos ∧ s.claimed[pos]? = some (i, item)
  | .publish pos => s.released ≤ pos ∧ s.claimed[pos]? = some (i, item) ∧
      (s.ring.buffer (slotIndex capacity pos)).data = item
  | .returned pos result => result = true → s.claimed[pos]? = some (i, item)

/-- What a consumer knows inside `TryPop`. -/
def ConsumerAt (capacity : Nat) (s : RingState ι κ T) : PopPc T → Prop
  | .loadSequence => s.released = s.popped.length
  | .copyData slot => s.released = s.popped.length ∧
      slot = slotIndex capacity s.released ∧ s.released < s.claimed.length ∧ ¬ s.Held s.released
  | .release slot item => s.released = s.popped.length ∧
      slot = slotIndex capacity s.released ∧ ¬ s.Held s.released ∧ s.items[s.released]? = some item
  | .advance item => s.released = s.popped.length + 1 ∧ s.items[s.popped.length]? = some item
  | .returned _ => True

structure RingInv (C : RingCapacity) (s : RingState ι κ T) : Prop where
  writePos : s.ring.writePos = s.claimed.length
  readPos : s.ring.readPos = s.popped.length
  popped : s.popped <+: s.items
  popped_le : s.popped.length ≤ s.released
  released_le : s.released ≤ s.claimed.length
  window : s.claimed.length ≤ s.released + C.val
  slot : ∀ p, s.released ≤ p → p < s.released + C.val → SlotAt C.val s p
  producer : ∀ i item pc, s.producer i = some (item, pc) → ProducerAt C.val s i item pc
  consumer : ∀ k pc, s.consumer k = some pc → ConsumerAt C.val s pc
  idle : s.released ≠ s.popped.length → ∃ k item, s.consumer k = some (.advance item)
  accepted : ∀ p ∈ s.accepted, p < s.claimed.length ∧ ¬ s.Held p

theorem prefix_append_item {α : Type} {l m : List α} {x : α} (h : l <+: m)
    (hx : m[l.length]? = some x) : l ++ [x] <+: m := by
  obtain ⟨t, rfl⟩ := h
  rw [List.getElem?_append_right (Nat.le_refl _), Nat.sub_self] at hx
  cases t with
  | nil => cases hx
  | cons y t =>
    rw [List.getElem?_cons_zero] at hx
    rw [Option.some.inj hx]
    exact ⟨t, by simp⟩

@[simp] theorem items_length (s : RingState ι κ T) : s.items.length = s.claimed.length :=
  List.length_map _

theorem items_of_claimed {s : RingState ι κ T} {p : Nat} {i : ι} {item : T}
    (h : s.claimed[p]? = some (i, item)) : s.items[p]? = some item := by
  rw [items, List.getElem?_map, h]
  rfl

theorem lt_of_claimed {s : RingState ι κ T} {p : Nat} {c : ι × T} (h : s.claimed[p]? = some c) :
    p < s.claimed.length := (List.getElem?_eq_some_iff.mp h).1

theorem lt_of_items {s : RingState ι κ T} {p : Nat} {item : T} (h : s.items[p]? = some item) :
    p < s.claimed.length := by
  rw [← items_length]
  exact (List.getElem?_eq_some_iff.mp h).1

/-! ### What the invariant says at one position -/

section
variable {C : RingCapacity} {s : RingState ι κ T}

/-- The producer that holds a position is the one that claimed it. -/
theorem RingInv.holder (h : RingInv C s) {i : ι} {p : Nat} (hp : holding (s.producer i) = some p) :
    s.released ≤ p ∧ ∃ item, s.claimed[p]? = some (i, item) := by
  cases hi : s.producer i with
  | none => rw [hi] at hp; cases hp
  | some v =>
    obtain ⟨item, pc⟩ := v
    have hat := h.producer i item pc hi
    rw [hi] at hp
    cases pc with
    | writeData pos => cases hp; exact ⟨hat.1, item, hat.2⟩
    | publish pos => cases hp; exact ⟨hat.1, item, hat.2.1⟩
    | _ => cases hp

theorem RingInv.holder_unique (h : RingInv C s) {i j : ι} {p : Nat}
    (hi : holding (s.producer i) = some p) (hj : holding (s.producer j) = some p) : i = j := by
  obtain ⟨-, item, hitem⟩ := h.holder hi
  obtain ⟨-, item', hitem'⟩ := h.holder hj
  rw [hitem] at hitem'
  exact congrArg Prod.fst (Option.some.inj hitem')

theorem RingInv.held_bounds (h : RingInv C s) {p : Nat} (hp : s.Held p) :
    s.released ≤ p ∧ p < s.claimed.length := by
  obtain ⟨i, hi⟩ := hp
  obtain ⟨hle, item, hitem⟩ := h.holder hi
  exact ⟨hle, lt_of_claimed hitem⟩

theorem RingInv.held_seq (h : RingInv C s) {p : Nat} (hp : s.Held p) :
    (s.ring.buffer (slotIndex C.val p)).sequence = p := by
  obtain ⟨hle, hlt⟩ := h.held_bounds hp
  have hwindow := h.window
  cases h.slot p hle (by omega) with
  | free _ seq => exact seq
  | held _ _ seq => exact seq
  | published notHeld => exact absurd hp notHeld

/-- A position below the claims that nobody holds is published. -/
theorem RingInv.published (h : RingInv C s) {p : Nat} (hle : s.released ≤ p)
    (hlt : p < s.claimed.length) (hp : ¬ s.Held p) :
    (s.ring.buffer (slotIndex C.val p)).sequence = p + 1 ∧
      s.items[p]? = some (s.ring.buffer (slotIndex C.val p)).data := by
  have hwindow := h.window
  cases h.slot p hle (by omega) with
  | free unclaimed => omega
  | held held => exact absurd held hp
  | published _ item seq => exact ⟨seq, item⟩

/-- The slot of a held position is the slot of no other position of the lap. -/
theorem RingInv.slotIndex_ne (h : RingInv C s) {p q : Nat} (hp : s.Held p) (hq : s.released ≤ q)
    (hq' : q < s.released + C.val) (hne : q ≠ p) : slotIndex C.val q ≠ slotIndex C.val p := by
  intro he
  obtain ⟨hle, hlt⟩ := h.held_bounds hp
  have hwindow := h.window
  exact hne (C.eq_of_slotIndex_eq hq hq' hle (by omega) he)

theorem RingInv.le_seq (h : RingInv C s) {p : Nat} (hle : s.released ≤ p)
    (hlt : p < s.released + C.val) : p ≤ (s.ring.buffer (slotIndex C.val p)).sequence := by
  cases h.slot p hle hlt with
  | free _ seq => omega
  | held _ _ seq => omega
  | published _ _ seq => omega

end

/-! ### Carrying the clauses over a step -/

theorem SlotAt.frame {capacity p : Nat} {s s' : RingState ι κ T} (hclaimed : s'.claimed = s.claimed)
    (hslot : s'.ring.buffer (slotIndex capacity p) = s.ring.buffer (slotIndex capacity p))
    (hheld : s'.Held p ↔ s.Held p) (h : SlotAt capacity s p) : SlotAt capacity s' p := by
  cases h with
  | free unclaimed seq => exact .free (by rw [hclaimed]; exact unclaimed) (by rw [hslot]; exact seq)
  | held held claimed seq =>
    exact .held (hheld.mpr held) (by rw [hclaimed]; exact claimed) (by rw [hslot]; exact seq)
  | published notHeld item seq =>
    refine .published (fun hp => notHeld (hheld.mp hp)) ?_ (by rw [hslot]; exact seq)
    rw [items, hclaimed, hslot]
    exact item

theorem ConsumerAt.frame {capacity : Nat} {s s' : RingState ι κ T} {pc : PopPc T}
    (hreleased : s'.released = s.released) (hpopped : s'.popped = s.popped)
    (hclaimed : s.claimed <+: s'.claimed)
    (hheld : s.released < s.claimed.length → ¬ s.Held s.released → ¬ s'.Held s.released)
    (h : ConsumerAt capacity s pc) : ConsumerAt capacity s' pc := by
  obtain ⟨t, ht⟩ := hclaimed
  have hitems : s'.items = s.items ++ t.map Prod.snd := by rw [items, ← ht, List.map_append]; rfl
  have hitem : ∀ {q : Nat} {item : T}, s.items[q]? = some item → s'.items[q]? = some item := by
    intro q item hq
    rw [hitems, List.getElem?_append_left (List.getElem?_eq_some_iff.mp hq).1]
    exact hq
  have hlen : s.claimed.length ≤ s'.claimed.length := by rw [← ht, List.length_append]; omega
  cases pc with
  | loadSequence => rw [ConsumerAt, hreleased, hpopped]; exact h
  | copyData slot =>
    rw [ConsumerAt, hreleased, hpopped]
    exact ⟨h.1, h.2.1, Nat.lt_of_lt_of_le h.2.2.1 hlen, hheld h.2.2.1 h.2.2.2⟩
  | release slot item =>
    rw [ConsumerAt, hreleased, hpopped]
    exact ⟨h.1, h.2.1, hheld (lt_of_items h.2.2.2) h.2.2.1, hitem h.2.2.2⟩
  | advance item =>
    rw [ConsumerAt, hreleased, hpopped]
    exact ⟨h.1, hitem h.2⟩
  | returned result => exact trivial

section
variable {C : RingCapacity} {s s' : RingState ι κ T}

theorem RingInv.accepted_frame (h : RingInv C s) (haccepted : s'.accepted = s.accepted)
    (hclaimed : s.claimed <+: s'.claimed) (hheld : ∀ p, p < s.claimed.length → s'.Held p → s.Held p) :
    ∀ p ∈ s'.accepted, p < s'.claimed.length ∧ ¬ s'.Held p := by
  intro p hp
  rw [haccepted] at hp
  obtain ⟨hlt, hn⟩ := h.accepted p hp
  exact ⟨Nat.lt_of_lt_of_le hlt hclaimed.length_le, fun hh => hn (hheld p hlt hh)⟩

/-- **A step that only moves a producer which holds nothing.** -/
theorem RingInv.producer_local [DecidableEq ι] {i : ι} {v : Option (T × PushPc)} (h : RingInv C s)
    (hring : s'.ring = s.ring) (hclaimed : s'.claimed = s.claimed)
    (hreleased : s'.released = s.released) (hpopped : s'.popped = s.popped)
    (hconsumer : s'.consumer = s.consumer) (hproducer : s'.producer = Function.update s.producer i v)
    (hv : holding v = none) (hi : holding (s.producer i) = none)
    (hat : ∀ item pc, v = some (item, pc) → ProducerAt C.val s i item pc)
    (haccepted : ∀ p ∈ s'.accepted, p < s.claimed.length ∧ ¬ s.Held p) : RingInv C s' := by
  have hheld : ∀ p, s'.Held p ↔ s.Held p := by
    intro p
    rw [Held, hproducer]
    exact held_setProducer (hv.trans hi.symm) p
  constructor
  case writePos => rw [hring, hclaimed]; exact h.writePos
  case readPos => rw [hring, hpopped]; exact h.readPos
  case popped => rw [hpopped, items, hclaimed]; exact h.popped
  case popped_le => rw [hpopped, hreleased]; exact h.popped_le
  case released_le => rw [hclaimed, hreleased]; exact h.released_le
  case window => rw [hclaimed, hreleased]; exact h.window
  case slot =>
    intro p hp hp'
    rw [hreleased] at hp hp'
    exact (h.slot p hp hp').frame hclaimed (by rw [hring]) (hheld p)
  case producer =>
    intro j item pc hj
    have hat' : ProducerAt C.val s j item pc := by
      rw [hproducer] at hj
      rcases update_eq_some hj with ⟨rfl, hv⟩ | ⟨-, hold⟩
      · exact hat item pc hv
      · exact h.producer j item pc hold
    cases pc <;> simp only [ProducerAt, hclaimed, hreleased, hring] at hat' ⊢ <;> exact hat'
  case consumer =>
    intro k pc hk
    rw [hconsumer] at hk
    exact (h.consumer k pc hk).frame hreleased hpopped (by rw [hclaimed])
      (fun _ hn hp => hn ((hheld _).mp hp))
  case idle => rw [hreleased, hpopped, hconsumer]; exact h.idle
  case accepted =>
    intro p hp
    rw [hclaimed]
    exact ⟨(haccepted p hp).1, fun hh => (haccepted p hp).2 ((hheld p).mp hh)⟩

/-- **A successful compare-exchange.** -/
theorem RingInv.claim [DecidableEq ι] {i : ι} {item : T} {pos : Nat} (h : RingInv C s)
    (hi : s.producer i = some (item, .compareExchange pos)) (hpos : s.ring.writePos = pos)
    (hwrap : s.claimed.length + 1 < 2 ^ 32)
    (hs' : s' = { s.setProducer i (some (item, .writeData pos)) with
      ring := { s.ring with writePos := u32 (pos + 1) }
      claimed := s.claimed ++ [(i, item)] }) : RingInv C s' := by
  have hN : pos = s.claimed.length := by rw [← hpos, h.writePos]
  subst hN
  have hat : ProducerAt C.val s i item (.compareExchange s.claimed.length) := h.producer i item _ hi
  have hroom : s.claimed.length < s.released + C.val := hat.2 rfl
  have hheld : ∀ p, s'.Held p ↔ p = s.claimed.length ∨ s.Held p := by
    intro p
    have hnone : holding (s.producer i) ≠ some p := by rw [hi]; exact nofun
    rw [hs']
    refine holding_update.trans ?_
    constructor
    · rintro (hp | ⟨j, -, hj⟩)
      · exact Or.inl (Option.some.inj hp).symm
      · exact Or.inr ⟨j, hj⟩
    · rintro (rfl | ⟨j, hj⟩)
      · exact Or.inl rfl
      · exact Or.inr ⟨j, by rintro rfl; exact hnone hj, hj⟩
  have hnew : ¬ s.Held s.claimed.length := fun hp => by have := (h.held_bounds hp).2; omega
  have hlen : s'.claimed.length = s.claimed.length + 1 := by rw [hs']; simp
  have hitems : s'.items = s.items ++ [item] := by rw [hs']; simp [items]
  have hprefix : s.claimed <+: s'.claimed := by rw [hs']; exact List.prefix_append _ _
  have hbuffer : s'.ring.buffer = s.ring.buffer := by rw [hs']
  have hreleased : s'.released = s.released := by rw [hs']; rfl
  have hpopped : s'.popped = s.popped := by rw [hs']; rfl
  have hconsumer : s'.consumer = s.consumer := by rw [hs']; rfl
  constructor
  case writePos =>
    rw [hlen, hs']
    exact u32_of_lt hwrap
  case readPos => rw [hpopped, ← h.readPos, hs']
  case popped =>
    rw [hpopped, hitems]
    exact h.popped.trans (List.prefix_append _ _)
  case popped_le => rw [hpopped, hreleased]; exact h.popped_le
  case released_le =>
    rw [hreleased, hlen]
    have := h.released_le
    omega
  case window => rw [hreleased, hlen]; omega
  case slot =>
    intro p hp hp'
    rw [hreleased] at hp hp'
    cases h.slot p hp hp' with
    | free unclaimed seq =>
      by_cases hpN : p = s.claimed.length
      · exact .held ((hheld p).mpr (Or.inl hpN)) (by omega) (by rw [hbuffer]; exact seq)
      · exact .free (by omega) (by rw [hbuffer]; exact seq)
    | held held claimed seq =>
      exact .held ((hheld p).mpr (Or.inr held)) (by omega) (by rw [hbuffer]; exact seq)
    | published notHeld hitem seq =>
      have hlt := lt_of_items hitem
      refine .published ?_ ?_ (by rw [hbuffer]; exact seq)
      · intro hp
        rcases (hheld p).mp hp with rfl | hp
        · omega
        · exact notHeld hp
      · rw [hitems, hbuffer, List.getElem?_append_left (by rw [items_length]; exact hlt)]
        exact hitem
  case producer =>
    intro j item' pc hj
    rw [hs'] at hj
    rcases update_eq_some hj with ⟨rfl, hpc⟩ | ⟨hji, hpj⟩
    · cases hpc
      refine ⟨by rw [hreleased]; exact h.released_le, ?_⟩
      rw [hs']
      exact List.getElem?_concat_length
    · have hj := h.producer j item' pc hpj
      have hold : ∀ {q : Nat} {c : ι × T}, s.claimed[q]? = some c → s'.claimed[q]? = some c := by
        intro q c hq
        rw [hs', List.getElem?_append_left (lt_of_claimed hq)]
        exact hq
      cases pc with
      | loadPos => exact trivial
      | loadSequence q => exact Nat.le_trans hj hprefix.length_le
      | compareExchange q =>
        have hq := hj.1
        exact ⟨by omega, fun he => by omega⟩
      | writeData q => exact ⟨hreleased ▸ hj.1, hold hj.2⟩
      | publish q => exact ⟨hreleased ▸ hj.1, hold hj.2.1, by rw [hbuffer]; exact hj.2.2⟩
      | returned q result => exact fun hr => hold (hj hr)
  case consumer =>
    intro k pc hk
    rw [hconsumer] at hk
    refine (h.consumer k pc hk).frame hreleased hpopped hprefix ?_
    intro hlt hn hp
    rcases (hheld _).mp hp with he | hp
    · omega
    · exact hn hp
  case idle => rw [hreleased, hpopped, hconsumer]; exact h.idle
  case accepted =>
    refine h.accepted_frame (by rw [hs']; rfl) hprefix (fun p hlt hh => ?_)
    rcases (hheld p).mp hh with rfl | hh
    · omega
    · exact hh

/-- **Copying the item into the claimed slot.** -/
theorem RingInv.writeData [DecidableEq ι] {i : ι} {item : T} {pos : Nat} (h : RingInv C s)
    (hi : s.producer i = some (item, .writeData pos))
    (hs' : s' = { s.setProducer i (some (item, .publish pos)) with
      ring := s.ring.storeData (slotIndex C.val pos) item }) : RingInv C s' := by
  have hat : ProducerAt C.val s i item (.writeData pos) := h.producer i item _ hi
  have hholds : holding (s.producer i) = some pos := by rw [hi]; rfl
  have hheld : ∀ p, s'.Held p ↔ s.Held p := by
    intro p
    rw [hs']
    exact held_setProducer (i := i) (v := some (item, .publish pos)) hholds.symm p
  have hclaimed : s'.claimed = s.claimed := by rw [hs']; rfl
  have hreleased : s'.released = s.released := by rw [hs']; rfl
  have hpopped : s'.popped = s.popped := by rw [hs']; rfl
  have hconsumer : s'.consumer = s.consumer := by rw [hs']; rfl
  have hseq : ∀ j, (s'.ring.buffer j).sequence = (s.ring.buffer j).sequence := by
    intro j
    rw [hs']
    exact MPSCRingBuffer.storeData_sequence _ _ _ _
  have hdata : ∀ j, j ≠ slotIndex C.val pos → (s'.ring.buffer j).data = (s.ring.buffer j).data := by
    intro j hj
    rw [hs']
    exact (MPSCRingBuffer.storeData_data _ _ _ _).trans (if_neg hj)
  constructor
  case writePos => rw [hclaimed, ← h.writePos, hs']; rfl
  case readPos => rw [hpopped, ← h.readPos, hs']; rfl
  case popped => rw [hpopped, items, hclaimed]; exact h.popped
  case popped_le => rw [hpopped, hreleased]; exact h.popped_le
  case released_le => rw [hclaimed, hreleased]; exact h.released_le
  case window => rw [hclaimed, hreleased]; exact h.window
  case slot =>
    intro p hp hp'
    rw [hreleased] at hp hp'
    cases h.slot p hp hp' with
    | free unclaimed seq => exact .free (by rw [hclaimed]; exact unclaimed) (by rw [hseq]; exact seq)
    | held held claimed seq =>
      exact .held ((hheld p).mpr held) (by rw [hclaimed]; exact claimed) (by rw [hseq]; exact seq)
    | published notHeld hitem seq =>
      have hne : p ≠ pos := by rintro rfl; exact notHeld ⟨i, hholds⟩
      refine .published (fun hh => notHeld ((hheld p).mp hh)) ?_ (by rw [hseq]; exact seq)
      rw [items, hclaimed, hdata _ (h.slotIndex_ne ⟨i, hholds⟩ hp hp' hne)]
      exact hitem
  case producer =>
    intro j item' pc hj
    rw [hs'] at hj
    rcases update_eq_some hj with ⟨rfl, hpc⟩ | ⟨hji, hpj⟩
    · cases hpc
      refine ⟨hreleased ▸ hat.1, hclaimed ▸ hat.2, ?_⟩
      rw [hs']
      exact (MPSCRingBuffer.storeData_data _ _ _ _).trans (if_pos rfl)
    · have hj := h.producer j item' pc hpj
      cases pc with
      | loadPos => exact trivial
      | loadSequence q => rw [ProducerAt, hclaimed]; exact hj
      | compareExchange q => rw [ProducerAt, hclaimed, hreleased]; exact hj
      | writeData q => rw [ProducerAt, hclaimed, hreleased]; exact hj
      | publish q =>
        have hq : holding (s.producer j) = some q := by rw [hpj]; rfl
        have hqb := h.held_bounds ⟨j, hq⟩
        have hne : q ≠ pos := by rintro rfl; exact hji (h.holder_unique hq hholds)
        have hwindow := h.window
        rw [ProducerAt, hclaimed, hreleased, hdata _ (h.slotIndex_ne ⟨i, hholds⟩ hqb.1 (by omega) hne)]
        exact hj
      | returned q result => rw [ProducerAt, hclaimed]; exact hj
  case consumer =>
    intro k pc hk
    rw [hconsumer] at hk
    exact (h.consumer k pc hk).frame hreleased hpopped (by rw [hclaimed])
      (fun _ hn hp => hn ((hheld _).mp hp))
  case idle => rw [hreleased, hpopped, hconsumer]; exact h.idle
  case accepted =>
    exact h.accepted_frame (by rw [hs']; rfl) (by rw [hclaimed]) (fun p _ hh => (hheld p).mp hh)

/-- **The release store that publishes the item.** -/
theorem RingInv.publish [DecidableEq ι] {i : ι} {item : T} {pos : Nat} (h : RingInv C s)
    (hi : s.producer i = some (item, .publish pos)) (hwrap : s.claimed.length < 2 ^ 32)
    (hs' : s' = { s.setProducer i (some (item, .returned pos true)) with
      ring := s.ring.storeSequence (slotIndex C.val pos) (u32 (pos + 1)) }) : RingInv C s' := by
  have hat : ProducerAt C.val s i item (.publish pos) := h.producer i item _ hi
  have hholds : holding (s.producer i) = some pos := by rw [hi]; rfl
  have hbounds := h.held_bounds ⟨i, hholds⟩
  have hheld : ∀ p, s'.Held p ↔ p ≠ pos ∧ s.Held p := by
    intro p
    rw [hs']
    refine holding_update.trans ?_
    constructor
    · rintro (hp | ⟨j, hji, hj⟩)
      · cases hp
      · refine ⟨?_, j, hj⟩
        rintro rfl
        exact hji (h.holder_unique hj hholds)
    · rintro ⟨hne, j, hj⟩
      refine Or.inr ⟨j, ?_, hj⟩
      rintro rfl
      exact hne (Option.some.inj (hj.symm.trans hholds))
  have hclaimed : s'.claimed = s.claimed := by rw [hs']; rfl
  have hreleased : s'.released = s.released := by rw [hs']; rfl
  have hpopped : s'.popped = s.popped := by rw [hs']; rfl
  have hconsumer : s'.consumer = s.consumer := by rw [hs']; rfl
  have hseq : ∀ j, (s'.ring.buffer j).sequence =
      if j = slotIndex C.val pos then pos + 1 else (s.ring.buffer j).sequence := by
    intro j
    rw [hs']
    refine (MPSCRingBuffer.storeSequence_sequence _ _ _ _).trans ?_
    rw [u32_of_lt (show pos + 1 < 2 ^ 32 by omega)]
  have hdata : ∀ j, (s'.ring.buffer j).data = (s.ring.buffer j).data := by
    intro j
    rw [hs']
    exact MPSCRingBuffer.storeSequence_data _ _ _ _
  constructor
  case writePos => rw [hclaimed, ← h.writePos, hs']; rfl
  case readPos => rw [hpopped, ← h.readPos, hs']; rfl
  case popped => rw [hpopped, items, hclaimed]; exact h.popped
  case popped_le => rw [hpopped, hreleased]; exact h.popped_le
  case released_le => rw [hclaimed, hreleased]; exact h.released_le
  case window => rw [hclaimed, hreleased]; exact h.window
  case slot =>
    intro p hp hp'
    rw [hreleased] at hp hp'
    by_cases hne : p = pos
    · subst hne
      refine .published (fun hh => ((hheld p).mp hh).1 rfl) ?_ (by rw [hseq, if_pos rfl])
      rw [items, hclaimed, hdata, hat.2.2]
      exact items_of_claimed hat.2.1
    · have hslot := h.slotIndex_ne ⟨i, hholds⟩ hp hp' hne
      refine (h.slot p hp hp').frame hclaimed (slot_eq ?_ (hdata _)) ?_
      · rw [hseq, if_neg hslot]
      · rw [hheld p, and_iff_right hne]
  case producer =>
    intro j item' pc hj
    rw [hs'] at hj
    rcases update_eq_some hj with ⟨rfl, hpc⟩ | ⟨hji, hpj⟩
    · cases hpc
      exact fun _ => hclaimed ▸ hat.2.1
    · have hj := h.producer j item' pc hpj
      cases pc <;> simp only [ProducerAt, hclaimed, hreleased, hdata] at hj ⊢ <;> exact hj
  case consumer =>
    intro k pc hk
    rw [hconsumer] at hk
    exact (h.consumer k pc hk).frame hreleased hpopped (by rw [hclaimed])
      (fun _ hn hp => hn ((hheld _).mp hp).2)
  case idle => rw [hreleased, hpopped, hconsumer]; exact h.idle
  case accepted =>
    exact h.accepted_frame (by rw [hs']; rfl) (by rw [hclaimed]) (fun p _ hh => ((hheld p).mp hh).2)

/-- **A step that only moves a consumer.** -/
theorem RingInv.consumer_local [DecidableEq κ] {k : κ} {v : Option (PopPc T)} (h : RingInv C s)
    (hs' : s' = s.setConsumer k v) (hat : ∀ pc, v = some pc → ConsumerAt C.val s pc)
    (hidle : ∀ item, s.consumer k ≠ some (.advance item)) : RingInv C s' := by
  subst hs'
  constructor
  case writePos => exact h.writePos
  case readPos => exact h.readPos
  case popped => exact h.popped
  case popped_le => exact h.popped_le
  case released_le => exact h.released_le
  case window => exact h.window
  case slot =>
    intro p hp hp'
    have hslot : SlotAt C.val s p := h.slot p hp hp'
    refine SlotAt.frame ?_ ?_ ?_ hslot
    exacts [rfl, rfl, Iff.rfl]
  case producer =>
    intro j item pc hj
    have hj := h.producer j item pc hj
    cases pc <;> exact hj
  case consumer =>
    intro k' pc hk'
    have hk' : Function.update s.consumer k v k' = some pc := hk'
    have hat' : ConsumerAt C.val s pc := by
      rcases update_eq_some hk' with ⟨-, hv⟩ | ⟨-, hold⟩
      · exact hat pc hv
      · exact h.consumer k' pc hold
    exact hat'.frame rfl rfl (List.prefix_refl _) (fun _ hn => hn)
  case idle =>
    intro hne
    obtain ⟨k', item, hk'⟩ := h.idle hne
    refine ⟨k', item, ?_⟩
    have hkk : k' ≠ k := by rintro rfl; exact hidle item hk'
    exact (Function.update_of_ne hkk v s.consumer).trans hk'
  case accepted => exact h.accepted

/-- **The release store**, which frees the slot for the push one lap later. -/
theorem RingInv.release [DecidableEq κ] {k : κ} {slot : Nat} {item : T} (h : RingInv C s)
    (hk : s.consumer k = some (.release slot item)) (hexcl : s.Exclusive)
    (hwrap : s.claimed.length + C.val < 2 ^ 32)
    (hs' : s' = { s.setConsumer k (some (.advance item)) with
      ring := s.ring.storeSequence slot (u32 (s.ring.readPos + C.val))
      released := s.released + 1 }) : RingInv C s' := by
  obtain ⟨hrel, hslot, hnot, hitem⟩ : ConsumerAt C.val s (.release slot item) := h.consumer k _ hk
  subst hslot
  have hlt := lt_of_items hitem
  have hpos := C.pos
  have hwindow := h.window
  have hreleased : s'.released = s.released + 1 := by rw [hs']
  have hclaimed : s'.claimed = s.claimed := by rw [hs']; rfl
  have hpopped : s'.popped = s.popped := by rw [hs']; rfl
  have hheld : ∀ p, s'.Held p ↔ s.Held p := by intro p; rw [hs']; exact Iff.rfl
  have hseq : ∀ j, (s'.ring.buffer j).sequence =
      if j = slotIndex C.val s.released then s.released + C.val
      else (s.ring.buffer j).sequence := by
    intro j
    rw [hs']
    refine (MPSCRingBuffer.storeSequence_sequence _ _ _ _).trans ?_
    rw [h.readPos, ← hrel, u32_of_lt (show s.released + C.val < 2 ^ 32 by omega)]
  have hdata : ∀ j, (s'.ring.buffer j).data = (s.ring.buffer j).data := by
    intro j
    rw [hs']
    exact MPSCRingBuffer.storeSequence_data _ _ _ _
  have hlap : slotIndex C.val (s.released + C.val) = slotIndex C.val s.released := by
    rw [C.slotIndex_eq, C.slotIndex_eq, Nat.add_mod_right]
  constructor
  case writePos => rw [hclaimed, ← h.writePos, hs']; rfl
  case readPos => rw [hpopped, ← h.readPos, hs']; rfl
  case popped => rw [hpopped, items, hclaimed]; exact h.popped
  case popped_le => rw [hpopped, hreleased]; omega
  case released_le => rw [hclaimed, hreleased]; omega
  case window => rw [hclaimed, hreleased]; omega
  case slot =>
    intro p hp hp'
    rw [hreleased] at hp hp'
    by_cases hlast : p = s.released + C.val
    · subst hlast
      exact .free (by rw [hclaimed]; exact hwindow) (by rw [hseq, if_pos hlap])
    · have hne : slotIndex C.val p ≠ slotIndex C.val s.released := by
        intro he
        have := C.eq_of_slotIndex_eq (a := s.released) (by omega) (by omega) (Nat.le_refl _)
          (by omega) he
        omega
      refine (h.slot p (by omega) (by omega)).frame hclaimed (slot_eq ?_ (hdata _)) (hheld p)
      rw [hseq, if_neg hne]
  case producer =>
    intro j item' pc hj
    rw [hs'] at hj
    have hpj : s.producer j = some (item', pc) := hj
    have hj := h.producer j item' pc hpj
    have hge : ∀ {q : Nat}, holding (s.producer j) = some q → s.released + 1 ≤ q := by
      intro q hq
      have hle := (h.holder hq).1
      have hne : q ≠ s.released := by rintro rfl; exact hnot ⟨j, hq⟩
      omega
    cases pc with
    | loadPos => exact trivial
    | loadSequence q => rw [ProducerAt, hclaimed]; exact hj
    | compareExchange q =>
      rw [ProducerAt, hclaimed, hreleased]
      exact ⟨hj.1, fun he => by have := hj.2 he; omega⟩
    | writeData q =>
      rw [ProducerAt, hclaimed, hreleased]
      exact ⟨hge (by rw [hpj]; rfl), hj.2⟩
    | publish q =>
      rw [ProducerAt, hclaimed, hreleased, hdata]
      exact ⟨hge (by rw [hpj]; rfl), hj.2⟩
    | returned q result => rw [ProducerAt, hclaimed]; exact hj
  case consumer =>
    intro k' pc hk'
    rw [hs'] at hk'
    obtain ⟨rfl, hpc⟩ := hexcl.update_eq_some hk hk'
    cases hpc
    refine ⟨by rw [hreleased, hpopped, hrel], ?_⟩
    rw [items, hclaimed, hpopped, ← hrel]
    exact hitem
  case idle =>
    intro _
    exact ⟨k, item, by rw [hs']; exact Function.update_self k _ s.consumer⟩
  case accepted =>
    exact h.accepted_frame (by rw [hs']; rfl) (by rw [hclaimed]) (fun p _ hh => (hheld p).mp hh)

/-- **The increment of `read_pos_`**, with which `TryPop` hands the item out. -/
theorem RingInv.advance [DecidableEq κ] {k : κ} {item : T} (h : RingInv C s)
    (hk : s.consumer k = some (.advance item)) (hexcl : s.Exclusive)
    (hwrap : s.claimed.length < 2 ^ 32)
    (hs' : s' = { s.setConsumer k (some (.returned (some item))) with
      ring := { s.ring with readPos := u32 (s.ring.readPos + 1) }
      popped := s.popped ++ [item] }) : RingInv C s' := by
  obtain ⟨hrel, hitem⟩ : ConsumerAt C.val s (.advance item) := h.consumer k _ hk
  have hle := h.released_le
  have hlen : s'.popped.length = s.popped.length + 1 := by rw [hs']; simp
  have hreleased : s'.released = s.released := by rw [hs']; rfl
  have hclaimed : s'.claimed = s.claimed := by rw [hs']; rfl
  have hbuffer : s'.ring.buffer = s.ring.buffer := by rw [hs']
  have hheld : ∀ p, s'.Held p ↔ s.Held p := by intro p; rw [hs']; exact Iff.rfl
  constructor
  case writePos => rw [hclaimed, ← h.writePos, hs']
  case readPos =>
    rw [hlen, ← h.readPos, hs']
    exact u32_of_lt (by rw [h.readPos]; omega)
  case popped =>
    rw [items, hclaimed, hs']
    exact prefix_append_item h.popped hitem
  case popped_le => rw [hlen, hreleased]; omega
  case released_le => rw [hclaimed, hreleased]; exact hle
  case window => rw [hclaimed, hreleased]; exact h.window
  case slot =>
    intro p hp hp'
    rw [hreleased] at hp hp'
    exact (h.slot p hp hp').frame hclaimed (by rw [hbuffer]) (hheld p)
  case producer =>
    intro j item' pc hj
    rw [hs'] at hj
    have hj := h.producer j item' pc hj
    cases pc <;> simp only [ProducerAt, hclaimed, hreleased, hbuffer] at hj ⊢ <;> exact hj
  case consumer =>
    intro k' pc hk'
    rw [hs'] at hk'
    obtain ⟨rfl, hpc⟩ := hexcl.update_eq_some hk hk'
    cases hpc
    exact trivial
  case idle => intro hne; rw [hreleased, hlen] at hne; exact absurd hrel hne
  case accepted =>
    exact h.accepted_frame (by rw [hs']; rfl) (by rw [hclaimed]) (fun p _ hh => (hheld p).mp hh)

/-! ### The invariant of every run -/

theorem ringInv_create (C : RingCapacity) (junk : Nat → T) :
    RingInv C (create junk : RingState ι κ T) where
  writePos := rfl
  readPos := rfl
  popped := List.prefix_refl _
  popped_le := Nat.le_refl _
  released_le := Nat.le_refl _
  window := Nat.zero_le _
  slot p _ hp := by
    refine .free (Nat.zero_le p) ?_
    have hp : p < C.val := by simpa [create] using hp
    show slotIndex C.val p = p
    rw [C.slotIndex_eq, Nat.mod_eq_of_lt hp]
  producer _ _ _ h := nomatch h
  consumer _ _ h := nomatch h
  idle h := absurd rfl h
  accepted _ h := nomatch h

theorem RingInv.push [DecidableEq ι] (h : RingInv C s) (h2 : 2 ≤ C.val) {i : ι} {item : T} {pc : PushPc}
    (hi : s.producer i = some (item, pc)) (hmove : PushMove C.val s i item pc s')
    (hwrap : s'.claimed.length + C.val < 2 ^ 32) : RingInv C s' := by
  have hat : ProducerAt C.val s i item pc := h.producer i item pc hi
  have hlocal : ∀ pc', holding (s.producer i) = none → holding (some (item, pc')) = none →
      ProducerAt C.val s i item pc' → RingInv C (s.setProducer i (some (item, pc'))) := by
    intro pc' hnone hnone' hat'
    refine h.producer_local rfl rfl rfl rfl rfl rfl hnone' hnone ?_ h.accepted
    intro item' pc'' he
    cases he
    exact hat'
  cases hmove with
  | loadPos => exact hlocal _ (by rw [hi]; rfl) rfl (Nat.le_of_eq h.writePos)
  | @matched pos hseq =>
    refine hlocal _ (by rw [hi]; rfl) rfl ⟨hat, fun he => ?_⟩
    subst he
    -- a full lap ahead, the slot would still carry the previous lap's sequence
    by_contra hfull
    have hwindow := h.window
    have hN : s.claimed.length = s.released + C.val := by omega
    have hlap : slotIndex C.val s.claimed.length = slotIndex C.val s.released := by
      rw [hN, C.slotIndex_eq, C.slotIndex_eq, Nat.add_mod_right]
    rw [hlap] at hseq
    by_cases hheld : s.Held s.released
    · rw [h.held_seq hheld] at hseq
      omega
    · rw [(h.published (Nat.le_refl _) (by omega) hheld).1] at hseq
      omega
  | refused => exact hlocal _ (by rw [hi]; rfl) rfl nofun
  | stale => exact hlocal _ (by rw [hi]; rfl) rfl trivial
  | claim hpos =>
    refine h.claim hi hpos ?_ rfl
    have := C.pos
    simp only [List.length_append, List.length_singleton] at hwrap
    omega
  | exchangeFailed => exact hlocal _ (by rw [hi]; rfl) rfl (Nat.le_of_eq h.writePos)
  | writeData => exact h.writeData hi rfl
  | publish => exact h.publish hi (Nat.lt_of_le_of_lt (Nat.le_add_right _ _) hwrap) rfl

theorem RingInv.pop [DecidableEq κ] (h : RingInv C s) {k : κ} {pc : PopPc T} (hk : s.consumer k = some pc)
    (hexcl : s.Exclusive) (hmove : PopMove C.val s k pc s')
    (hwrap : s'.claimed.length + C.val < 2 ^ 32) : RingInv C s' := by
  have hat : ConsumerAt C.val s pc := h.consumer k pc hk
  have hlocal : ∀ pc', (∀ item, pc ≠ .advance item) → ConsumerAt C.val s pc' →
      RingInv C (s.setConsumer k (some pc')) := by
    intro pc' hne hat'
    refine h.consumer_local rfl ?_ (fun item he => hne item (Option.some.inj (hk.symm.trans he)))
    intro pc'' he
    cases he
    exact hat'
  cases hmove with
  | matched hseq =>
    have hrel : s.released = s.popped.length := hat
    have hle := h.released_le
    have hN : s.claimed.length + C.val < 2 ^ 32 := hwrap
    have hpos := C.pos
    rw [h.readPos, ← hrel, u32_of_lt (by omega)] at hseq
    have hnot : ¬ s.Held s.released := fun hh => by rw [h.held_seq hh] at hseq; omega
    have hlt : s.released < s.claimed.length := by
      cases h.slot s.released (Nat.le_refl _) (by omega) with
      | free _ seq => omega
      | held held => exact absurd held hnot
      | published _ item => exact lt_of_items item
    refine hlocal _ nofun ⟨hrel, ?_, hlt, hnot⟩
    rw [h.readPos, ← hrel]
  | empty => exact hlocal _ nofun trivial
  | copyData =>
    obtain ⟨hrel, hslot, hlt, hnot⟩ := hat
    subst hslot
    exact hlocal _ nofun ⟨hrel, rfl, hnot, (h.published (Nat.le_refl _) hlt hnot).2⟩
  | release => exact h.release hk hexcl hwrap rfl
  | advance => exact h.advance hk hexcl (Nat.lt_of_le_of_lt (Nat.le_add_right _ _) hwrap) rfl

variable [DecidableEq ι] [DecidableEq κ]

/-- **One step keeps the invariant**, while the counters do not wrap and consumers
take turns. -/
theorem RingInv.step (h : RingInv C s) (h2 : 2 ≤ C.val) (hexcl : s.Exclusive)
    (hexcl' : s'.Exclusive) {a : RingAction ι κ T} (hstep : s.step C.val a = some s')
    (hwrap : s'.claimed.length + C.val < 2 ^ 32) : RingInv C s' := by
  cases a with
  | callPush i item =>
    obtain ⟨hi, rfl⟩ := callPush_cases hstep
    refine h.producer_local rfl rfl rfl rfl rfl rfl rfl (by rw [hi]; rfl) ?_ h.accepted
    intro item' pc he
    cases he
    exact trivial
  | stepPush i spurious =>
    obtain ⟨item, pc, hi, hmove⟩ := stepPush_cases hstep
    exact h.push h2 hi hmove hwrap
  | returnPush i =>
    obtain ⟨item, pos, result, hi, rfl⟩ := returnPush_cases hstep
    refine h.producer_local rfl rfl rfl rfl rfl rfl rfl (by rw [hi]; rfl) nofun ?_
    intro p hp
    cases result with
    | false => exact h.accepted p hp
    | true =>
      rcases List.mem_append.mp hp with hp | hp
      · exact h.accepted p hp
      · -- the position this call claimed: its claim names `i`, which holds nothing now
        rw [List.mem_singleton.mp hp]
        have hclaimed : s.claimed[pos]? = some (i, item) := h.producer i item _ hi rfl
        refine ⟨lt_of_claimed hclaimed, ?_⟩
        rintro ⟨j, hj⟩
        obtain ⟨-, item', hj'⟩ := h.holder hj
        have hij : i = j := congrArg Prod.fst (Option.some.inj (hclaimed.symm.trans hj'))
        rw [← hij, hi] at hj
        cases hj
  | callPop k =>
    obtain ⟨hk, rfl⟩ := callPop_cases hstep
    refine h.consumer_local rfl ?_ (fun item he => by rw [hk] at he; cases he)
    intro pc he
    cases he
    by_contra hne
    obtain ⟨k', item, hk'⟩ := h.idle hne
    have hkk : k' ≠ k := by rintro rfl; rw [hk] at hk'; cases hk'
    refine hkk (hexcl' k' k ?_ ?_)
    · simp only [setConsumer, Function.update_of_ne hkk, hk']
      exact nofun
    · simp only [setConsumer, Function.update_self]
      exact nofun
  | stepPop k =>
    obtain ⟨pc, hk, hmove⟩ := stepPop_cases hstep
    exact h.pop hk hexcl hmove hwrap
  | returnPop k =>
    obtain ⟨result, hk, rfl⟩ := returnPop_cases hstep
    exact h.consumer_local rfl nofun (fun item he => by rw [hk] at he; cases he)

/-- The claims only grow. -/
theorem claimed_length_le {capacity : Nat} {a : RingAction ι κ T} (hstep : s.step capacity a = some s') :
    s.claimed.length ≤ s'.claimed.length := by
  cases a with
  | callPush i item => obtain ⟨-, rfl⟩ := callPush_cases hstep; exact Nat.le_refl _
  | stepPush i spurious =>
    obtain ⟨item, pc, -, hmove⟩ := stepPush_cases hstep
    cases hmove with
    | claim => simp
    | _ => exact Nat.le_refl _
  | returnPush i => obtain ⟨_, _, _, -, rfl⟩ := returnPush_cases hstep; exact Nat.le_refl _
  | callPop k => obtain ⟨-, rfl⟩ := callPop_cases hstep; exact Nat.le_refl _
  | stepPop k =>
    obtain ⟨pc, -, hmove⟩ := stepPop_cases hstep
    cases hmove <;> exact Nat.le_refl _
  | returnPop k => obtain ⟨_, -, rfl⟩ := returnPop_cases hstep; exact Nat.le_refl _

/-- The popped items only grow. -/
theorem popped_length_le {capacity : Nat} {a : RingAction ι κ T} (hstep : s.step capacity a = some s') :
    s.popped.length ≤ s'.popped.length := by
  cases a with
  | callPush i item => obtain ⟨-, rfl⟩ := callPush_cases hstep; exact Nat.le_refl _
  | stepPush i spurious =>
    obtain ⟨item, pc, -, hmove⟩ := stepPush_cases hstep
    cases hmove <;> exact Nat.le_refl _
  | returnPush i => obtain ⟨_, _, _, -, rfl⟩ := returnPush_cases hstep; exact Nat.le_refl _
  | callPop k => obtain ⟨-, rfl⟩ := callPop_cases hstep; exact Nat.le_refl _
  | stepPop k =>
    obtain ⟨pc, -, hmove⟩ := stepPop_cases hstep
    cases hmove with
    | advance => simp
    | _ => exact Nat.le_refl _
  | returnPop k => obtain ⟨_, -, rfl⟩ := returnPop_cases hstep; exact Nat.le_refl _

end

end RingState

end BrLogger
