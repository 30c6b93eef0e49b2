import BrLogger.Lib.BoundedFifo
import BrLogger.Lib.Loop
import BrLogger.Ring.Buffer

/-!
# One thread: the ring as a bounded queue, past the wrap of its counters

One thread runs its calls to the end, so `TryPush` and `TryPop` are the loops
of `pushStep` and `popStep`.  `Represents` ties the buffer to the abstract
queue through the numbers `w` of pushes and `p` of pops since construction,
which grow without bound while the stored counters hold them modulo `2 ^ 32`.

All comparisons but one are for equality and survive the wrap.  The test for a
full ring is `seq < pos`: on a full ring `seq` is `pos - (Capacity - 1)` modulo
`2 ^ 32`, which is smaller unless the subtraction wraps.  So for
`Capacity - 1 ≤ w % 2 ^ 32` a push on a full ring is refused
(`Represents.push_full`) and otherwise it loops for ever
(`Represents.push_stuck`).  `behaves_iff_clear` says this is the only way the
buffer differs from the queue.
-/

namespace BrLogger

variable {T : Type}

namespace MPSCRingBuffer

/-- The result of a `TryPush` call, once it stands at a `return`. -/
def pushResult : MPSCRingBuffer T × PushPc → Option (MPSCRingBuffer T × Bool)
  | (r, .returned _ result) => some (r, result)
  | _ => none

def popResult : MPSCRingBuffer T × PopPc T → Option (MPSCRingBuffer T × Option T)
  | (r, .returned result) => some (r, result)
  | _ => none

def pushLoop (capacity : Nat) (item : T) (c : MPSCRingBuffer T × PushPc) :
    MPSCRingBuffer T × PushPc :=
  pushStep capacity item false c.1 c.2

def popLoop (capacity : Nat) (c : MPSCRingBuffer T × PopPc T) : MPSCRingBuffer T × PopPc T :=
  popStep capacity c.1 c.2

/-- `TryPush(item)` returns `result` and leaves `r'`. -/
def TryPush (capacity : Nat) (item : T) (r r' : MPSCRingBuffer T) (result : Bool) : Prop :=
  Loop.Returns (pushLoop capacity item) pushResult (r, .loadPos) (r', result)

/-- `TryPop` returns `result` and leaves `r'`. -/
def TryPop (capacity : Nat) (r r' : MPSCRingBuffer T) (result : Option T) : Prop :=
  Loop.Returns (popLoop capacity) popResult (r, .loadSequence) (r', result)

end MPSCRingBuffer

open MPSCRingBuffer

/-- After `w` accepted pushes and `p` successful pops the buffer holds `q`. -/
structure Represents (C : RingCapacity) (r : MPSCRingBuffer T) (w p : Nat) (q : List T) : Prop where
  count : w = p + q.length
  bounded : q.length ≤ C.val
  writePos : r.writePos = u32 w
  readPos : r.readPos = u32 p
  stored : ∀ j, p ≤ j → j < w → (r.buffer (slotIndex C.val j)).sequence = u32 (j + 1) ∧
    q[j - p]? = some (r.buffer (slotIndex C.val j)).data
  free : ∀ j, w ≤ j → j < p + C.val → (r.buffer (slotIndex C.val j)).sequence = u32 j

theorem represents_create (C : RingCapacity) (junk : Nat → T) :
    Represents C (.create junk) 0 0 [] where
  count := rfl
  bounded := Nat.zero_le _
  writePos := rfl
  readPos := rfl
  stored j _ hj := absurd hj (Nat.not_lt_zero j)
  free j _ hj := by
    have hC := C.le
    have hj : j < C.val := by omega
    show slotIndex C.val j = u32 j
    rw [C.slotIndex_eq, Nat.mod_eq_of_lt hj, u32_of_lt (by omega)]

section
variable {C : RingCapacity} {r : MPSCRingBuffer T} {w p : Nat} {q : List T}

/-! ### `TryPush` -/

/-- The buffer after an accepted push at the write position. -/
def pushed (C : RingCapacity) (r : MPSCRingBuffer T) (w : Nat) (item : T) : MPSCRingBuffer T :=
  (({ r with writePos := u32 (w + 1) } : MPSCRingBuffer T).storeData (slotIndex C.val w) item).storeSequence
    (slotIndex C.val w) (u32 (w + 1))

/-- A push that finds its own position in the slot is accepted. -/
theorem push_of_free (hpos : r.writePos = u32 w) (hseq : (r.buffer (slotIndex C.val w)).sequence = u32 w) (item : T) :
    TryPush C.val item r (pushed C r w item) true := by
  refine .of_step rfl (.of_step rfl ?_)
  have hload : pushLoop C.val item (pushLoop C.val item (r, .loadPos)) = (r, .compareExchange (u32 w)) := by
    simp only [pushLoop, pushStep, hpos, C.slotIndex_u32, hseq, if_true]
  rw [hload]
  refine .of_step rfl (.of_step ?_ (.of_step ?_ (.of_result ?_))) <;>
    simp [pushLoop, pushStep, hpos, C.slotIndex_u32, u32_add, pushResult, pushed]

/-- **A push with room is accepted and appends its item.** -/
theorem Represents.push_room (h : Represents C r w p q) (hroom : q.length < C.val) (item : T) :
    TryPush C.val item r (pushed C r w item) true ∧
      Represents C (pushed C r w item) (w + 1) p (q ++ [item]) := by
  have hcount := h.count
  have hseq := h.free w (Nat.le_refl _) (by omega)
  have hother : ∀ j, p ≤ j → j < p + C.val → j ≠ w → slotIndex C.val j ≠ slotIndex C.val w :=
    fun j hj hj' hne he => hne (C.eq_of_slotIndex_eq hj hj' (by omega) (by omega) he)
  refine ⟨push_of_free h.writePos hseq item, ?_⟩
  constructor
  case count => simp; omega
  case bounded => simp; omega
  case writePos => rfl
  case readPos => exact h.readPos
  case stored =>
    intro j hj hj'
    rw [pushed, storeSequence_sequence, storeSequence_data, storeData_sequence, storeData_data]
    by_cases hjw : j = w
    · subst hjw
      rw [if_pos rfl, if_pos rfl, List.getElem?_append_right (by omega),
        show j - p - q.length = 0 by omega]
      exact ⟨rfl, rfl⟩
    · have hne := hother j hj (by omega) hjw
      rw [if_neg hne, if_neg hne, List.getElem?_append_left (by omega)]
      exact h.stored j hj (by omega)
  case free =>
    intro j hj hj'
    rw [pushed, storeSequence_sequence, storeData_sequence,
      if_neg (hother j (by omega) hj' (by omega))]
    exact h.free j (by omega) hj'

/-- On a full ring the loaded sequence is that of the oldest item. -/
theorem Represents.full_seq (h : Represents C r w p q) (hfull : q.length = C.val) :
    (r.buffer (slotIndex C.val (u32 w))).sequence = u32 (p + 1) := by
  have hcount := h.count
  have hpos := C.pos
  have hlap : slotIndex C.val w = slotIndex C.val p := by
    rw [hcount, hfull, C.slotIndex_eq, C.slotIndex_eq, Nat.add_mod_right]
  rw [C.slotIndex_u32, hlap]
  exact (h.stored p (Nat.le_refl _) (by omega)).1

/-- **A push on a full ring is refused** and changes nothing, when the write
position has not just wrapped. -/
theorem Represents.push_full (h : Represents C r w p q) (h2 : 2 ≤ C.val)
    (hfull : q.length = C.val) (hw : C.val - 1 ≤ w % 2 ^ 32) (item : T) :
    TryPush C.val item r r false := by
  have hcount := h.count
  have hC := C.le
  have hseq := h.full_seq hfull
  have hlt : u32 (p + 1) < u32 w := by simp only [u32]; omega
  have hload : pushLoop C.val item (pushLoop C.val item (r, .loadPos)) =
      (r, .returned (u32 w) false) := by
    simp only [pushLoop, pushStep, h.writePos, hseq, if_neg (Nat.ne_of_lt hlt), if_pos hlt]
  refine .of_step rfl (.of_step rfl ?_)
  rw [hload]
  exact .of_result rfl

/-- **Just after the write position wrapped, a push on a full ring never returns.** -/
theorem Represents.push_stuck (h : Represents C r w p q) (h2 : 2 ≤ C.val)
    (hfull : q.length = C.val) (hw : w % 2 ^ 32 < C.val - 1) (item : T) (r' : MPSCRingBuffer T)
    (result : Bool) : ¬ TryPush C.val item r r' result := by
  have hcount := h.count
  have hC := C.le
  have hseq := h.full_seq hfull
  have hgt : u32 w < u32 (p + 1) := by simp only [u32]; omega
  -- the loop goes round `loadPos` and `loadSequence` with the same position
  refine Loop.not_returns_of_invariant
    (fun c => c = (r, .loadPos) ∨ c = (r, .loadSequence (u32 w))) ?_ ?_ (Or.inl rfl) _
  · rintro _ (rfl | rfl) <;> rfl
  · rintro _ (rfl | rfl)
    · right
      simp only [pushLoop, pushStep, h.writePos]
    · left
      simp only [pushLoop, pushStep, hseq, if_neg (Nat.ne_of_gt hgt), if_neg (Nat.not_lt_of_gt hgt)]

/-! ### `TryPop` and `Empty` -/

/-- The sequence `TryPop` compares differs from that of an unpublished position. -/
theorem u32_ne_succ (n : Nat) : u32 n ≠ u32 (u32 n + 1) := by
  simp only [u32]
  omega

theorem Represents.pop_empty (h : Represents C r w p []) : TryPop C.val r r none := by
  have hcount : w = p := by simpa using h.count
  have hseq := h.free p (by omega) (by have := C.pos; omega)
  refine .of_step rfl (.of_result ?_)
  simp only [popLoop, popStep, h.readPos, C.slotIndex_u32, hseq, if_neg (u32_ne_succ p), popResult]

/-- The buffer after a successful pop. -/
def popped (C : RingCapacity) (r : MPSCRingBuffer T) (p : Nat) : MPSCRingBuffer T :=
  { r.storeSequence (slotIndex C.val p) (u32 (p + C.val)) with readPos := u32 (p + 1) }

/-- **A pop takes the oldest item.** -/
theorem Represents.pop_cons {x : T} (h : Represents C r w p (x :: q)) :
    TryPop C.val r (popped C r p) (some x) ∧ Represents C (popped C r p) w (p + 1) q := by
  have hcount : w = p + (q.length + 1) := h.count
  have hbounded : q.length + 1 ≤ C.val := h.bounded
  obtain ⟨hseq, hdata⟩ := h.stored p (Nat.le_refl _) (by omega)
  rw [Nat.sub_self, List.getElem?_cons_zero] at hdata
  have hx : (r.buffer (slotIndex C.val p)).data = x := (Option.some.inj hdata).symm
  have hlap : slotIndex C.val (p + C.val) = slotIndex C.val p := by
    rw [C.slotIndex_eq, C.slotIndex_eq, Nat.add_mod_right]
  have hother : ∀ j, p < j → j < p + C.val → slotIndex C.val j ≠ slotIndex C.val p := by
    intro j hj hj' he
    have := C.eq_of_slotIndex_eq (a := p) (by omega) hj' (Nat.le_refl _) (by omega) he
    omega
  refine ⟨?_, ?_⟩
  · have hload : popLoop C.val (r, .loadSequence) = (r, .copyData (slotIndex C.val p)) := by
      simp only [popLoop, popStep, h.readPos, C.slotIndex_u32, hseq, u32_add, if_true]
    refine .of_step rfl ?_
    rw [hload]
    refine .of_step rfl (.of_step rfl (.of_step rfl (.of_result ?_)))
    simp only [popLoop, popStep, h.readPos, u32_add, storeSequence_readPos, hx, popResult, popped]
  · constructor
    case count => omega
    case bounded => omega
    case writePos => exact h.writePos
    case readPos => rfl
    case stored =>
      intro j hj hj'
      have hstored := h.stored j (by omega) hj'
      rw [show j - p = j - (p + 1) + 1 by omega, List.getElem?_cons_succ] at hstored
      show ((r.storeSequence _ _).buffer _).sequence = _ ∧ _ = some ((r.storeSequence _ _).buffer _).data
      rw [storeSequence_sequence, if_neg (hother j (by omega) (by omega)), storeSequence_data]
      exact hstored
    case free =>
      intro j hj hj'
      show ((r.storeSequence _ _).buffer _).sequence = _
      rw [storeSequence_sequence]
      by_cases hlast : j = p + C.val
      · subst hlast
        rw [if_pos hlap]
      · rw [if_neg (hother j (by omega) (by omega))]
        exact h.free j hj (by omega)

theorem Represents.empty_iff (h : Represents C r w p q) : r.empty C.val = true ↔ q = [] := by
  have hcount := h.count
  rw [MPSCRingBuffer.empty, bne_iff_ne, h.readPos, C.slotIndex_u32, u32_add]
  cases q with
  | nil =>
    have hseq := h.free p (by simp at hcount; omega) (by have := C.pos; omega)
    rw [hseq, ← u32_add]
    exact ⟨fun _ => rfl, fun _ => u32_ne_succ p⟩
  | cons x q =>
    have hseq := (h.stored p (Nat.le_refl _) (by simp at hcount; omega)).1
    rw [hseq]
    exact ⟨fun hne => absurd rfl hne, nofun⟩

end

/-! ### Runs -/

inductive RingOp (T : Type)
  | push (item : T)
  | pop

/-- The calls `ops`, made one after the other on `r`, do what they do on the
queue `q`: each returns, with the queue's result, a refused push changes
nothing, and before and after each of them `Empty` answers for the queue. -/
def Behaves (C : RingCapacity) : List (RingOp T) → MPSCRingBuffer T → List T → Prop
  | [], r, q => r.empty C.val = true ↔ q = []
  | .push item :: ops, r, q => (r.empty C.val = true ↔ q = []) ∧
      ∃ r', TryPush C.val item r r' (BoundedFifo.push C.val q item).2 ∧
        ((BoundedFifo.push C.val q item).2 = false → r' = r) ∧
        Behaves C ops r' (BoundedFifo.push C.val q item).1
  | .pop :: ops, r, q => (r.empty C.val = true ↔ q = []) ∧
      ∃ r', TryPop C.val r r' (BoundedFifo.pop q).2 ∧ Behaves C ops r' (BoundedFifo.pop q).1

/-- No push meets a full ring, of `len = Capacity` items, while the number `w` of
pushes accepted before it is below `Capacity - 1` modulo `2 ^ 32`. -/
def Clear (C : RingCapacity) : List (RingOp T) → Nat → Nat → Prop
  | [], _, _ => True
  | .push _ :: ops, w, len =>
    if len < C.val then Clear C ops (w + 1) (len + 1)
    else C.val - 1 ≤ w % 2 ^ 32 ∧ Clear C ops w len
  | .pop :: ops, w, len => Clear C ops w (len - 1)

theorem Represents.behaves_iff {C : RingCapacity} (h2 : 2 ≤ C.val) (ops : List (RingOp T)) :
    ∀ {r : MPSCRingBuffer T} {w p : Nat} {q : List T}, Represents C r w p q →
      (Behaves C ops r q ↔ Clear C ops w q.length) := by
  induction ops with
  | nil =>
    intro r w p q h
    exact ⟨fun _ => trivial, fun _ => h.empty_iff⟩
  | cons op ops ih =>
    intro r w p q h
    cases op with
    | push item =>
      by_cases hroom : q.length < C.val
      · obtain ⟨hret, hrep⟩ := h.push_room hroom item
        have hlen : (q ++ [item]).length = q.length + 1 := by simp
        rw [Behaves, Clear, if_pos hroom, BoundedFifo.push_of_lt hroom, ← hlen, ← ih hrep]
        constructor
        · rintro ⟨-, r', hret', -, hrest⟩
          cases hret.unique hret'
          exact hrest
        · intro hrest
          exact ⟨h.empty_iff, _, hret, nofun, hrest⟩
      · have hfull : q.length = C.val := by have := h.bounded; omega
        rw [Behaves, Clear, if_neg hroom, BoundedFifo.push_of_full hfull]
        by_cases hw : C.val - 1 ≤ w % 2 ^ 32
        · rw [← ih h]
          constructor
          · rintro ⟨-, r', -, hsame, hrest⟩
            rw [hsame rfl] at hrest
            exact ⟨hw, hrest⟩
          · rintro ⟨-, hrest⟩
            exact ⟨h.empty_iff, r, h.push_full h2 hfull hw item, fun _ => rfl, hrest⟩
        · constructor
          · rintro ⟨-, r', hret, -, -⟩
            exact absurd hret (h.push_stuck h2 hfull (by omega) item r' _)
          · rintro ⟨hle, -⟩
            exact absurd hle hw
    | pop =>
      rw [Behaves, Clear]
      cases q with
      | nil =>
        rw [show ([] : List T).length - 1 = ([] : List T).length from rfl, ← ih h]
        constructor
        · rintro ⟨-, r', hret, hrest⟩
          cases h.pop_empty.unique hret
          exact hrest
        · intro hrest
          exact ⟨h.empty_iff, r, h.pop_empty, hrest⟩
      | cons x q =>
        obtain ⟨hret, hrep⟩ := h.pop_cons
        rw [show (x :: q).length - 1 = q.length from rfl, ← ih hrep]
        constructor
        · rintro ⟨-, r', hret', hrest⟩
          cases hret.unique hret'
          exact hrest
        · intro hrest
          exact ⟨h.empty_iff, _, hret, hrest⟩

/-- **The ring is a bounded queue exactly until a push meets a full ring whose
write position has just wrapped.** -/
theorem behaves_iff_clear (C : RingCapacity) (h2 : 2 ≤ C.val) (junk : Nat → T)
    (ops : List (RingOp T)) : Behaves C ops (.create junk) [] ↔ Clear C ops 0 0 :=
  (represents_create C junk).behaves_iff h2 ops

theorem behaves_iff_clear_twoSlots :
    Behaves twoSlots [.push 1, .push 2, .push 3, .pop, .push 3] (.create fun _ => 0) [] :=
  (behaves_iff_clear twoSlots two_le_twoSlots _ _).mpr (by simp [Clear, twoSlots])

/-- `n` times one push and one pop. -/
def pairs (item : T) : Nat → List (RingOp T)
  | 0 => []
  | n + 1 => .push item :: .pop :: pairs item n

theorem clear_pairs {C : RingCapacity} (item : T) (ops : List (RingOp T)) (n w : Nat) :
    Clear C (pairs item n ++ ops) w 0 ↔ Clear C ops (w + n) 0 := by
  induction n generalizing w with
  | zero => rfl
  | succ n ih =>
    rw [pairs, List.cons_append, Clear, if_pos (show 0 < C.val from C.pos), List.cons_append, Clear, ih,
      show w + 1 + n = w + (n + 1) by omega]

/-- On two slots: `2 ^ 32 - 2` pushes popped one by one, two pushes that fill the
ring and wrap the write position to `0`, and a third push. -/
def wrappedFull : List (RingOp Nat) :=
  pairs 0 (2 ^ 32 - 2) ++ [.push 1, .push 2, .push 3]

/-- The third push of `wrappedFull` meets a full ring and never returns. -/
theorem not_behaves_wrappedFull : ¬ Behaves twoSlots wrappedFull (.create fun _ => 0) [] := by
  rw [(represents_create twoSlots _).behaves_iff two_le_twoSlots, wrappedFull,
    show ([] : List Nat).length = 0 from rfl, clear_pairs]
  simp [Clear, twoSlots]

end BrLogger
