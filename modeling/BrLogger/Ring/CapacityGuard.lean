import BrLogger.Ring.Sequential

/-!
# What the guard on `Capacity` has to promise

The `static_assert` admits every power of two, and one is a power of two.  A
slot published at position `pos` says `pos + 1`, a slot free for the next lap
says `pos + Capacity`: with two slots or more these differ, and the ring keeps
what it has accepted.

With one slot they are the same number.  A push on the full ring takes the
published slot for a free one (`Represents.push_oneSlot`): it is accepted,
writes over the item, and leaves a sequence no `TryPop` accepts again.  So one
slot is enough only while no push meets a full ring (`retains_iff`).
-/

namespace BrLogger

open MPSCRingBuffer

variable {T : Type} {C : RingCapacity}

/-- There are no more accepted items than slots, and the slot of each of them,
counted from the `p` popped before, still holds it. -/
structure Intact (C : RingCapacity) (r : MPSCRingBuffer T) (p : Nat) (q : List T) : Prop where
  bounded : q.length ≤ C.val
  held : ∀ j x, q[j]? = some x → (r.buffer (slotIndex C.val (p + j))).data = x

/-- The calls `ops` made on `r` retain what they accept: `w` pushes were accepted
before, `p` items popped, and `q` are the accepted items not popped yet.  Every call
returns, `TryPop` with an item when there is one, and nothing is asked once
`2 ^ 32 - Capacity` pushes are accepted. -/
def Retains (C : RingCapacity) : List (RingOp T) → MPSCRingBuffer T → Nat → Nat → List T → Prop
  | [], r, _, p, q => Intact C r p q
  | .push item :: ops, r, w, p, q => Intact C r p q ∧
      ∃ r' accepted, TryPush C.val item r r' accepted ∧
        (if accepted then w + 1 < 2 ^ 32 - C.val → Retains C ops r' (w + 1) p (q ++ [item])
        else Retains C ops r' w p q)
  | .pop :: ops, r, w, p, q => Intact C r p q ∧
      ∃ r' taken, TryPop C.val r r' taken ∧ (q ≠ [] → taken.isSome = true) ∧
        (if taken.isSome then Retains C ops r' w (p + 1) q.tail else Retains C ops r' w p q)

/-- No push is made on a full ring of `len` items, up to the same number of pushes. -/
def PushesFit (C : RingCapacity) : List (RingOp T) → Nat → Nat → Prop
  | [], _, _ => True
  | .push _ :: ops, w, len => w + 1 < 2 ^ 32 - C.val → len < C.val ∧ PushesFit C ops (w + 1) (len + 1)
  | .pop :: ops, w, len => PushesFit C ops w (len - 1)

theorem Retains.intact {ops : List (RingOp T)} {r : MPSCRingBuffer T} {w p : Nat} {q : List T}
    (h : Retains C ops r w p q) : Intact C r p q := by
  cases ops with
  | nil => exact h
  | cons op ops => cases op <;> exact h.1

section
variable {r : MPSCRingBuffer T} {w p : Nat} {q : List T}

theorem Represents.intact (h : Represents C r w p q) : Intact C r p q := by
  refine ⟨h.bounded, ?_⟩
  intro j x hx
  have hlt : j < q.length := (List.getElem?_eq_some_iff.mp hx).1
  have hstored := (h.stored (p + j) (by omega) (by have := h.count; omega)).2
  rw [show p + j - p = j by omega, hx] at hstored
  exact (Option.some.inj hstored).symm

/-- **With one slot a push on the full ring is accepted too**, and writes over the item. -/
theorem Represents.push_oneSlot (h : Represents C r w p q) (hC : C.val = 1) (hfull : q.length = C.val) (item : T) :
    TryPush C.val item r (pushed C r w item) true := by
  have hcount := h.count
  have hsame : slotIndex C.val w = slotIndex C.val (u32 w) := (C.slotIndex_u32 w).symm
  apply push_of_free h.writePos
  rw [hsame, h.full_seq hfull]
  exact congrArg u32 (by omega)

/-- A pop retains what the calls behind it retain. -/
theorem Represents.retains_pop {ops : List (RingOp T)} {P : Prop} (h : Represents C r w p q)
    (hrest : ∀ r' p', Represents C r' w p' q.tail → (Retains C ops r' w p' q.tail ↔ P)) :
    Retains C (.pop :: ops) r w p q ↔ P := by
  rw [Retains]
  cases q with
  | nil =>
    rw [← hrest r p h]
    refine ⟨?_, ?_⟩
    · rintro ⟨-, r', taken, hret, -, hafter⟩
      cases hret.unique h.pop_empty
      exact hafter
    · exact fun hafter => ⟨h.intact, r, none, h.pop_empty, fun hne => absurd rfl hne, hafter⟩
  | cons x q =>
    obtain ⟨hret, hrep⟩ := h.pop_cons
    rw [← hrest _ _ hrep]
    refine ⟨?_, ?_⟩
    · rintro ⟨-, r', taken, hret', -, hafter⟩
      cases hret'.unique hret
      exact hafter
    · exact fun hafter => ⟨h.intact, _, some x, hret, fun _ => rfl, hafter⟩

/-- So does a push with room. -/
theorem Represents.retains_push {ops : List (RingOp T)} {item : T} {P : Prop} (h : Represents C r w p q)
    (hroom : q.length < C.val)
    (hrest : ∀ r', w + 1 < 2 ^ 32 - C.val → Represents C r' (w + 1) p (q ++ [item]) →
      (Retains C ops r' (w + 1) p (q ++ [item]) ↔ P)) :
    Retains C (.push item :: ops) r w p q ↔ (w + 1 < 2 ^ 32 - C.val → P) := by
  obtain ⟨hret, hrep⟩ := h.push_room hroom item
  rw [Retains]
  refine ⟨?_, ?_⟩
  · rintro ⟨-, r', accepted, hret', hafter⟩ hlt
    cases hret'.unique hret
    exact (hrest _ hlt hrep).mp (hafter hlt)
  · intro hafter
    exact ⟨h.intact, _, true, hret, fun hlt => (hrest _ hlt hrep).mpr (hafter hlt)⟩

/-- **Two slots retain everything.** -/
theorem Represents.retains_of_two (h2 : 2 ≤ C.val) (ops : List (RingOp T)) (h : Represents C r w p q)
    (hw : w < 2 ^ 32 - C.val) : Retains C ops r w p q := by
  induction ops generalizing r w p q with
  | nil => exact h.intact
  | cons op ops ih =>
    cases op with
    | pop => exact (h.retains_pop fun _ _ hrep => iff_true_intro (ih hrep hw)).mpr trivial
    | push item =>
      have hcount := h.count
      have hbounded := h.bounded
      by_cases hroom : q.length < C.val
      · exact (h.retains_push hroom fun _ hlt hrep => iff_true_intro (ih hrep hlt)).mpr fun _ => trivial
      · have hret := h.push_full h2 (by omega) (by omega) item
        exact ⟨h.intact, r, false, hret, ih h hw⟩

/-- **One slot retains everything while no push meets a full ring.** -/
theorem Represents.retains_iff_of_one (hC : C.val = 1) (ops : List (RingOp T)) (h : Represents C r w p q) :
    Retains C ops r w p q ↔ PushesFit C ops w q.length := by
  induction ops generalizing r w p q with
  | nil => exact iff_of_true h.intact trivial
  | cons op ops ih =>
    cases op with
    | pop =>
      rw [PushesFit, ← List.length_tail]
      exact h.retains_pop fun _ _ hrep => ih hrep
    | push item =>
      rw [PushesFit]
      have hbounded := h.bounded
      by_cases hroom : q.length < C.val
      · simp only [hroom, true_and]
        apply h.retains_push hroom
        intro r' _ hrep
        rw [ih hrep, List.length_append, List.length_singleton]
      · -- the second item is accepted, and there is only one slot
        have hret := h.push_oneSlot hC (by omega) item
        refine ⟨?_, ?_⟩
        · rintro ⟨-, r', accepted, hret', hafter⟩ hlt
          cases hret'.unique hret
          have hlong := (hafter hlt).intact.bounded
          rw [List.length_append, List.length_singleton] at hlong
          omega
        · intro hnot
          exact ⟨h.intact, _, true, hret, fun hlt => absurd (hnot hlt).1 hroom⟩

end

/-- **What the ring has accepted it retains exactly when it has two slots, or no push
meets a full ring.** -/
theorem retains_iff (C : RingCapacity) (junk : Nat → T) (ops : List (RingOp T)) :
    Retains C ops (.create junk) 0 0 [] ↔ 2 ≤ C.val ∨ PushesFit C ops 0 0 := by
  have hrep := represents_create C junk
  have hC := C.le
  by_cases h2 : 2 ≤ C.val
  · exact iff_of_true (hrep.retains_of_two h2 ops (by omega)) (Or.inl h2)
  · have hpos := C.pos
    rw [or_iff_right h2]
    exact hrep.retains_iff_of_one (by omega) ops

def oneSlot : RingCapacity := ⟨1, by decide, by decide, by decide⟩

/-- **One slot accepts a second item over the first**, and then gives out neither. -/
theorem not_retains_oneSlot : ¬ Retains oneSlot [.push 1, .push 2, .pop] (.create fun _ => 0) 0 0 [] ∧
    ∃ r r' : MPSCRingBuffer Nat, TryPush oneSlot.val 1 (.create fun _ => 0) r true ∧
      TryPush oneSlot.val 2 r r' true ∧ (r'.buffer 0).data = 2 ∧ TryPop oneSlot.val r' r' none := by
  have hempty := represents_create oneSlot fun _ => 0
  refine ⟨?_, ?_⟩
  · rw [hempty.retains_iff_of_one rfl]
    simp [PushesFit, oneSlot]
  · obtain ⟨hret, hrep⟩ := hempty.push_room (by decide) 1
    refine ⟨_, _, hret, hrep.push_oneSlot rfl rfl 2, rfl, ?_⟩
    exact .of_step rfl (.of_result rfl)

end BrLogger
