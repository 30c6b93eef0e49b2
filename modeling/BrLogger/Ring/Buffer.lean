import Mathlib.Logic.Function.Basic
import Mathlib.Data.Nat.Bitwise
import Mathlib.Data.Nat.ModEq
import Mathlib.Tactic.Common

/-!
# `MPSCRingBuffer`, one atomic step at a time

`ring_buffer.hpp`.  `tryPush` and `tryPop` are cut at their shared accesses:
a `PushPc` says where inside a `TryPush` call a producer stands and what its
locals are, and `pushStep` does the next atomic load, compare-exchange, copy
or store together with the local work up to the following one.  `popStep` is
the same for `TryPop`.  Running a step function to its `returned` position is
the sequential call; interleaving the steps of many callers is the concurrent
program (`Ring/System.lean`).

Positions and slot sequences are `uint32_t`, so every stored value goes
through `u32`.
-/

namespace BrLogger

/-- The value a `uint32_t` keeps of `n`. -/
def u32 (n : Nat) : Nat := n % 2 ^ 32

theorem u32_of_lt {n : Nat} (h : n < 2 ^ 32) : u32 n = n := Nat.mod_eq_of_lt h

theorem u32_add (m n : Nat) : u32 (u32 m + n) = u32 (m + n) := by
  simp only [u32, Nat.mod_add_mod]

/-- The capacities the class template is used with: powers of two, as the
`static_assert` asks, that a `uint32_t` loop counter can cover. -/
structure RingCapacity where
  val : Nat
  pow_two : val &&& (val - 1) = 0
  pos : 1 ≤ val
  le : val ≤ 2 ^ 31

/-- `buffer_[pos & (Capacity - 1)]`. -/
def slotIndex (capacity pos : Nat) : Nat := pos &&& (capacity - 1)

theorem exists_pow_of_and_pred : ∀ {n : Nat}, 1 ≤ n → n &&& (n - 1) = 0 → ∃ k, n = 2 ^ k := by
  intro n
  induction n using Nat.strongRecOn with
  | ind n ih =>
    intro hn h
    rcases Nat.even_or_odd' n with ⟨m, rfl | rfl⟩
    · have hm : 1 ≤ m := by omega
      have hhalf : m &&& (m - 1) = 0 := by
        have hdiv := congrArg (· / 2) h
        simp only [Nat.and_div_two] at hdiv
        rwa [show 2 * m / 2 = m by omega, show (2 * m - 1) / 2 = m - 1 by omega, Nat.zero_div] at hdiv
      obtain ⟨k, hk⟩ := ih m (by omega) hm hhalf
      exact ⟨k + 1, by rw [hk, Nat.pow_succ]; omega⟩
    · rcases Nat.eq_zero_or_pos m with rfl | hm
      · exact ⟨0, rfl⟩
      · have hdiv := congrArg (· / 2) h
        simp only [Nat.and_div_two] at hdiv
        rw [show (2 * m + 1) / 2 = m by omega, show (2 * m + 1 - 1) / 2 = m by omega,
          Nat.and_self] at hdiv
        omega

namespace RingCapacity

variable (C : RingCapacity)

theorem eq_pow : ∃ k, C.val = 2 ^ k := exists_pow_of_and_pred C.pos C.pow_two

theorem slotIndex_eq (pos : Nat) : slotIndex C.val pos = pos % C.val := by
  obtain ⟨k, hk⟩ := C.eq_pow
  rw [slotIndex, hk, Nat.and_two_pow_sub_one_eq_mod]

/-- A power of two below `2 ^ 32` divides the range of the counters, so a wrapped
position still names the same slot. -/
theorem dvd_two_pow : C.val ∣ 2 ^ 32 := by
  obtain ⟨k, hk⟩ := C.eq_pow
  rw [hk]
  have hlt : k < 32 := by
    by_contra hge
    have hpow : 2 ^ 32 ≤ 2 ^ k := Nat.pow_le_pow_right (by decide) (by omega)
    have := C.le
    omega
  exact Nat.pow_dvd_pow 2 (by omega)

theorem slotIndex_u32 (n : Nat) : slotIndex C.val (u32 n) = slotIndex C.val n := by
  rw [C.slotIndex_eq, C.slotIndex_eq, u32, Nat.mod_mod_of_dvd _ C.dvd_two_pow]

/-- Positions closer than one lap share no slot. -/
theorem eq_of_slotIndex_eq {a p q : Nat} (hp : a ≤ p) (hp' : p < a + C.val) (hq : a ≤ q)
    (hq' : q < a + C.val) (h : slotIndex C.val p = slotIndex C.val q) : p = q := by
  wlog hle : p ≤ q generalizing p q
  · exact (this hq hq' hp hp' h.symm (by omega)).symm
  rw [C.slotIndex_eq, C.slotIndex_eq] at h
  have hdvd := (Nat.modEq_iff_dvd' hle).mp h
  by_contra hne
  have := Nat.le_of_dvd (by omega) hdvd
  omega

/-- Every slot belongs to some position of each lap-long window. -/
theorem exists_window (a p : Nat) :
    ∃ q, a ≤ q ∧ q < a + C.val ∧ slotIndex C.val q = slotIndex C.val p := by
  have hpos := C.pos
  have hmod : a % C.val < C.val := Nat.mod_lt _ hpos
  have hdiv := Nat.div_add_mod a C.val
  refine ⟨a + (p % C.val + C.val - a % C.val) % C.val, Nat.le_add_right _ _, ?_, ?_⟩
  · have := Nat.mod_lt (p % C.val + C.val - a % C.val) hpos
    omega
  · have hsum : a + (p % C.val + C.val - a % C.val) = p % C.val + C.val + C.val * (a / C.val) := by
      omega
    rw [C.slotIndex_eq, C.slotIndex_eq, Nat.add_mod_mod, hsum, Nat.add_mul_mod_self_left,
      Nat.add_mod_right, Nat.mod_mod]

end RingCapacity

def twoSlots : RingCapacity := ⟨2, by decide, by decide, by decide⟩

theorem two_le_twoSlots : 2 ≤ twoSlots.val := by decide

/-! ### The shared memory -/

structure Slot (T : Type) where
  sequence : Nat
  data : T

structure MPSCRingBuffer (T : Type) where
  buffer : Nat → Slot T
  writePos : Nat
  readPos : Nat

namespace MPSCRingBuffer

variable {T : Type}

/-- The constructor: slot `i` starts with sequence `i`.  The items are left
uninitialised, so `junk` is whatever the memory held. -/
def create (junk : Nat → T) : MPSCRingBuffer T where
  buffer i := ⟨i, junk i⟩
  writePos := 0
  readPos := 0

def storeSequence (r : MPSCRingBuffer T) (i v : Nat) : MPSCRingBuffer T :=
  { r with buffer := Function.update r.buffer i { r.buffer i with sequence := v } }

def storeData (r : MPSCRingBuffer T) (i : Nat) (item : T) : MPSCRingBuffer T :=
  { r with buffer := Function.update r.buffer i { r.buffer i with data := item } }

section
variable (r : MPSCRingBuffer T) (i j v : Nat) (item : T)

@[simp] theorem storeSequence_writePos : (r.storeSequence i v).writePos = r.writePos := rfl
@[simp] theorem storeSequence_readPos : (r.storeSequence i v).readPos = r.readPos := rfl
@[simp] theorem storeData_writePos : (r.storeData i item).writePos = r.writePos := rfl
@[simp] theorem storeData_readPos : (r.storeData i item).readPos = r.readPos := rfl

theorem storeSequence_sequence :
    ((r.storeSequence i v).buffer j).sequence = if j = i then v else (r.buffer j).sequence := by
  by_cases h : j = i
  · subst h; simp [storeSequence]
  · simp [storeSequence, h]

@[simp] theorem storeSequence_data : ((r.storeSequence i v).buffer j).data = (r.buffer j).data := by
  by_cases h : j = i
  · subst h; simp [storeSequence]
  · simp [storeSequence, h]

@[simp] theorem storeData_sequence :
    ((r.storeData i item).buffer j).sequence = (r.buffer j).sequence := by
  by_cases h : j = i
  · subst h; simp [storeData]
  · simp [storeData, h]

theorem storeData_data :
    ((r.storeData i item).buffer j).data = if j = i then item else (r.buffer j).data := by
  by_cases h : j = i
  · subst h; simp [storeData]
  · simp [storeData, h]

end

end MPSCRingBuffer

/-! ### `TryPush` -/

/-- Where a `TryPush` call stands: about to do the access the name says, with
the local `pos` loaded so far. -/
inductive PushPc
  | loadPos
  | loadSequence (pos : Nat)
  | compareExchange (pos : Nat)
  | writeData (pos : Nat)
  | publish (pos : Nat)
  | returned (pos : Nat) (result : Bool)
  deriving DecidableEq

/-- The next atomic step of a `TryPush(item)` call.  `spurious` lets the weak
compare-exchange fail although `write_pos_` still holds `pos`. -/
def pushStep {T : Type} (capacity : Nat) (item : T) (spurious : Bool) (r : MPSCRingBuffer T) :
    PushPc → MPSCRingBuffer T × PushPc
  | .loadPos => (r, .loadSequence r.writePos)
  | .loadSequence pos =>
    let seq := (r.buffer (slotIndex capacity pos)).sequence
    if seq = pos then (r, .compareExchange pos)
    else if seq < pos then (r, .returned pos false)
    else (r, .loadPos)
  | .compareExchange pos =>
    if r.writePos = pos ∧ spurious = false then
      ({ r with writePos := u32 (pos + 1) }, .writeData pos)
    else
      -- a failed exchange reloads `pos`, and `continue` goes back to the sequence load
      (r, .loadSequence r.writePos)
  | .writeData pos => (r.storeData (slotIndex capacity pos) item, .publish pos)
  | .publish pos => (r.storeSequence (slotIndex capacity pos) (u32 (pos + 1)), .returned pos true)
  | .returned pos result => (r, .returned pos result)

/-! ### `TryPop` -/

/-- Where a `TryPop` call stands.  `slot` is the index the reference `slot` was
bound to, `item` the copy already made. -/
inductive PopPc (T : Type)
  | loadSequence
  | copyData (slot : Nat)
  | release (slot : Nat) (item : T)
  | advance (item : T)
  | returned (result : Option T)
  deriving DecidableEq

/-- The next step of a `TryPop` call; `returned none` is `return false`. -/
def popStep {T : Type} (capacity : Nat) (r : MPSCRingBuffer T) :
    PopPc T → MPSCRingBuffer T × PopPc T
  | .loadSequence =>
    let slot := slotIndex capacity r.readPos
    if (r.buffer slot).sequence = u32 (r.readPos + 1) then (r, .copyData slot)
    else (r, .returned none)
  | .copyData slot => (r, .release slot (r.buffer slot).data)
  | .release slot item => (r.storeSequence slot (u32 (r.readPos + capacity)), .advance item)
  | .advance item => ({ r with readPos := u32 (r.readPos + 1) }, .returned (some item))
  | .returned result => (r, .returned result)

/-- `Empty()`. -/
def MPSCRingBuffer.empty {T : Type} (capacity : Nat) (r : MPSCRingBuffer T) : Bool :=
  (r.buffer (slotIndex capacity r.readPos)).sequence != u32 (r.readPos + 1)

end BrLogger
