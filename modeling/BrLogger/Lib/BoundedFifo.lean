import Mathlib.Data.List.Basic

/-!
# Bounded FIFO queues

What a queue of at most `capacity` items does: a push appends its item unless
the queue is full, a pop takes the oldest item.
-/

namespace BoundedFifo

variable {α : Type*}

def push (capacity : Nat) (q : List α) (x : α) : List α × Bool :=
  if q.length < capacity then (q ++ [x], true) else (q, false)

def pop : List α → List α × Option α
  | [] => ([], none)
  | x :: q => (q, some x)

theorem push_of_lt {capacity : Nat} {q : List α} (h : q.length < capacity) (x : α) :
    push capacity q x = (q ++ [x], true) := if_pos h

theorem push_of_full {capacity : Nat} {q : List α} (h : q.length = capacity) (x : α) :
    push capacity q x = (q, false) := if_neg (by omega)

end BoundedFifo
