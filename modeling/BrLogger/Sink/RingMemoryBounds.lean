import BrLogger.Sink.RingMemorySink

/-!
# A `RingMemorySink` of any capacity

The constructor takes every capacity, and none of the functions looks at it
before it is divided by.  `Write` and `At` are run here on a machine that stops
where an index is not below `buffer_.size()` or a remainder by zero is taken.
From a capacity of one on it never stops: `head_` stays a remainder.  A sink of
capacity zero has no cell, and stops at the first entry that passes its level
(`runsSafely_iff`).
-/

namespace BrLogger

variable {L : Limits}

/-- `a % b`, which is undefined for zero. -/
def checkedMod (a b : Nat) : Option Nat := if b = 0 then none else some (a % b)

namespace RingMemorySink

/-- `Write`, where `buffer_[head_]` and the remainder are looked at first. -/
def writeChecked (sink : RingMemorySink L) (entry : LogEntry L) : Option (RingMemorySink L) :=
  if ¬ sink.shouldLog entry.level then some sink
  else if sink.head < sink.buffer.length then do
    let head ← checkedMod (sink.head + 1) sink.capacity
    return { sink with
      buffer := sink.buffer.set sink.head entry
      head := head
      count := if sink.count < sink.capacity then sink.count + 1 else sink.count }
  else none

/-- `At(index)`, where the remainder and the cell are looked at first. -/
def atChecked (sink : RingMemorySink L) (index : Nat) : Option (LogEntry L) := do
  let start := if sink.count < sink.capacity then 0 else sink.head
  let cell ← checkedMod (start + index) sink.capacity
  sink.buffer[cell]?

end RingMemorySink

/-- `Write` and `SetLevel`, or `At`. -/
inductive RingCall (L : Limits)
  | memory (call : MemoryCall L)
  | at' (index : Nat)

/-- The calls without those of `At`. -/
def memoryCalls : List (RingCall L) → List (MemoryCall L)
  | [] => []
  | .memory call :: calls => call :: memoryCalls calls
  | .at' _ :: calls => memoryCalls calls

/-- No `Write` stops, and no `At` of an index below `Size()`. -/
def RunsSafely : RingMemorySink L → List (RingCall L) → Prop
  | _, [] => True
  | sink, .memory (.write entry) :: calls => sink.writeChecked entry = some (sink.write entry) ∧
      RunsSafely (sink.write entry) calls
  | sink, .memory (.setLevel level) :: calls => RunsSafely (MemoryCall.apply sink (.setLevel level)) calls
  | sink, .at' index :: calls => (index < sink.size → (sink.atChecked index).isSome) ∧ RunsSafely sink calls

/-! ### From a capacity of one on -/

section
variable {sink : RingMemorySink L} {entries : List (LogEntry L)}

theorem checkedMod_eq {b : Nat} (h : 0 < b) (a : Nat) : checkedMod a b = some (a % b) := if_neg (Nat.ne_of_gt h)

theorem RingMemorySink.Holds.writeChecked_eq (h : sink.Holds entries) (hpos : 0 < sink.capacity) (entry : LogEntry L) :
    sink.writeChecked entry = some (sink.write entry) := by
  have hhead : sink.head < sink.buffer.length := by
    rw [h.head, h.cells.length]
    exact Nat.mod_lt _ hpos
  rw [RingMemorySink.writeChecked, RingMemorySink.write, if_pos hhead, checkedMod_eq hpos]
  split <;> rfl

theorem RingMemorySink.atChecked_eq (hpos : 0 < sink.capacity) (index : Nat) : sink.atChecked index = sink.at' index := by
  rw [RingMemorySink.atChecked, RingMemorySink.at', checkedMod_eq hpos]
  rfl

theorem RingMemorySink.Holds.atChecked_isSome (h : sink.Holds entries) (hpos : 0 < sink.capacity) {index : Nat}
    (hindex : index < sink.size) : (sink.atChecked index).isSome := by
  have hlt : entries.length - sink.size + index < entries.length := by
    rw [RingMemorySink.size, h.count] at hindex ⊢
    omega
  rw [RingMemorySink.atChecked_eq hpos, h.at_eq hindex, List.getElem?_eq_getElem hlt]
  rfl

/-- A sink with a cell runs on, whatever it holds. -/
theorem RingMemorySink.Holds.runsSafely (h : sink.Holds entries) (hpos : 0 < sink.capacity) (calls : List (RingCall L)) :
    RunsSafely sink calls := by
  induction calls generalizing sink entries with
  | nil => trivial
  | cons call calls ih =>
    cases call with
    | at' index => exact ⟨h.atChecked_isSome hpos, ih h hpos⟩
    | memory call =>
      -- one call more is a run of its own
      obtain ⟨hholds, hcapacity, -⟩ := h.run hpos [call]
      have hrest := ih hholds (hcapacity.symm ▸ hpos)
      cases call with
      | write entry => exact ⟨h.writeChecked_eq hpos entry, hrest⟩
      | setLevel level => exact hrest

/-! ### Without a cell -/

/-- A sink that nothing passes is never asked for a cell. -/
theorem runsSafely_of_not_passed (hcount : sink.count = 0) (calls : List (RingCall L))
    (h : MemoryCall.passed (memoryCalls calls) sink.minLevel = []) : RunsSafely sink calls := by
  induction calls generalizing sink with
  | nil => trivial
  | cons call calls ih =>
    cases call with
    | at' index =>
      refine ⟨?_, ih hcount h⟩
      intro hindex
      rw [RingMemorySink.size, hcount] at hindex
      exact absurd hindex (Nat.not_lt_zero index)
    | memory call =>
      rw [memoryCalls] at h
      cases call with
      | setLevel level => exact ih hcount h
      | write entry =>
        rw [MemoryCall.passed] at h
        split at h
        · cases h
        · rename_i hlevel
          have hblocked : ¬ sink.shouldLog entry.level := fun hp => hlevel (of_decide_eq_true hp)
          have hwrite : sink.write entry = sink := if_pos hblocked
          have hchecked : sink.writeChecked entry = some sink := if_pos hblocked
          exact ⟨by rw [hchecked, hwrite], hwrite.symm ▸ ih hcount h⟩

/-- Without a cell the first entry that passes has nowhere to go. -/
theorem passed_of_runsSafely (hbuffer : sink.buffer = []) (calls : List (RingCall L)) (h : RunsSafely sink calls) :
    MemoryCall.passed (memoryCalls calls) sink.minLevel = [] := by
  induction calls generalizing sink with
  | nil => rfl
  | cons call calls ih =>
    cases call with
    | at' index => exact ih hbuffer h.2
    | memory call =>
      rw [memoryCalls]
      cases call with
      | setLevel level => exact ih (show (MemoryCall.apply sink (.setLevel level)).buffer = [] from hbuffer) h
      | write entry =>
        obtain ⟨hwrite, hrest⟩ := h
        by_cases hpass : sink.shouldLog entry.level = true
        · have hstop : sink.writeChecked entry = none := by
            rw [RingMemorySink.writeChecked, if_neg (not_not.mpr hpass), hbuffer]
            exact if_neg (Nat.not_lt_zero _)
          rw [hstop] at hwrite
          cases hwrite
        · have hsame : sink.write entry = sink := if_pos hpass
          rw [hsame] at hrest
          have hlevel : ¬ sink.minLevel.toNat ≤ entry.level.toNat := fun hle => hpass (decide_eq_true hle)
          rw [MemoryCall.passed, if_neg hlevel]
          exact ih hbuffer hrest

end

/-- **A `RingMemorySink` is safe exactly when it has a cell or nothing passes its
level.** -/
theorem runsSafely_iff (junk : Nat → Byte) (formatter : Option (IFormatter L)) (capacity : Nat)
    (calls : List (RingCall L)) :
    RunsSafely { RingMemorySink.create L junk capacity with formatter := formatter } calls ↔
      1 ≤ capacity ∨ MemoryCall.passed (memoryCalls calls) .trace = [] := by
  refine ⟨?_, ?_⟩
  · intro h
    rcases Nat.eq_zero_or_pos capacity with rfl | hpos
    · exact Or.inr (passed_of_runsSafely rfl calls h)
    · exact Or.inl hpos
  · rintro (hpos | hnone)
    · exact (RingMemorySink.holds_create junk capacity formatter).runsSafely hpos calls
    · exact runsSafely_of_not_passed rfl calls hnone

/-- **The first `Write` of a sink of capacity zero** is to a cell it has not got. -/
theorem not_runsSafely_zero :
    ¬ RunsSafely (RingMemorySink.create Limits.desktop (fun _ => 0) 0) [.memory (.write (numbered 0))] := by
  rintro ⟨hwrite, -⟩
  have hstop : (RingMemorySink.create Limits.desktop (fun _ => 0) 0).writeChecked (numbered 0) = none := rfl
  rw [hstop] at hwrite
  cases hwrite

end BrLogger
