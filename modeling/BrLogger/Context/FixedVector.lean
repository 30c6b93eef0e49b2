import Mathlib.Data.List.Basic
import Mathlib.Tactic.Common

/-!
# `FixedVector` and its two removals

`fixed_vector.hpp`.  A `FixedVector` keeps the elements below its size; what
lies behind them in the array is never read.  The context removes an element
by overwriting it with the last one and dropping that (`swapRemove`), and
looks for it from the front or, for scoped tags, from the back (`lastIndex`).
-/

namespace BrLogger

/-- `FixedVector<T, Capacity>`. -/
structure FixedVector (T : Type) (capacity : Nat) where
  toList : List T
  size_le : toList.length ≤ capacity

namespace FixedVector

variable {T : Type} {capacity : Nat}

theorem ext {v w : FixedVector T capacity} (h : v.toList = w.toList) : v = w := by
  cases v
  cases w
  subst h
  rfl

def nil : FixedVector T capacity := ⟨[], Nat.zero_le _⟩

def size (v : FixedVector T capacity) : Nat := v.toList.length

/-- `PushBack`, which refuses an element when the array is full. -/
def pushBack (v : FixedVector T capacity) (item : T) : FixedVector T capacity × Bool :=
  if h : v.size < capacity then (⟨v.toList ++ [item], by simp; exact h⟩, true) else (v, false)

def popBack (v : FixedVector T capacity) : FixedVector T capacity × Bool :=
  if v.size = 0 then (v, false)
  else (⟨v.toList.dropLast, by rw [List.length_dropLast]; have := v.size_le; omega⟩, true)

/-- `v[i] = item` for an index below the size. -/
def set (v : FixedVector T capacity) (i : Nat) (item : T) : FixedVector T capacity :=
  ⟨v.toList.set i item, by rw [List.length_set]; exact v.size_le⟩

/-- `if (i != last) v[i] = v[last]; v.PopBack();` -/
def swapRemove (v : FixedVector T capacity) (i : Nat) : FixedVector T capacity :=
  let last := v.size - 1
  match v.toList[last]? with
  | some item => ((if i ≠ last then v.set i item else v).popBack).1
  | none => v

theorem pushBack_of_lt {v : FixedVector T capacity} (h : v.size < capacity) (item : T) :
    (v.pushBack item).1.toList = v.toList ++ [item] := by
  rw [pushBack, dif_pos h]

theorem pushBack_of_full {v : FixedVector T capacity} (h : ¬ v.size < capacity) (item : T) :
    (v.pushBack item).1 = v := by
  rw [pushBack, dif_neg h]

theorem mem_pushBack {v : FixedVector T capacity} {item x : T}
    (h : x ∈ (v.pushBack item).1.toList) : x ∈ v.toList ∨ x = item := by
  by_cases hlt : v.size < capacity
  · rw [pushBack_of_lt hlt] at h
    rcases List.mem_append.mp h with h | h
    · exact Or.inl h
    · exact Or.inr (List.mem_singleton.mp h)
  · rw [pushBack_of_full hlt] at h
    exact Or.inl h

theorem popBack_toList (v : FixedVector T capacity) : (v.popBack).1.toList = v.toList.dropLast := by
  rw [popBack]
  split
  · rename_i h
    rw [List.eq_nil_of_length_eq_zero h]
    rfl
  · rfl

/-- Removing the last element only drops it. -/
theorem swapRemove_last {v : FixedVector T capacity} {l : List T} {item : T}
    (h : v.toList = l ++ [item]) : (v.swapRemove l.length).toList = l := by
  have hlast : v.size - 1 = l.length := by rw [size, h]; simp
  have hget : v.toList[v.size - 1]? = some item := by
    rw [h, hlast, List.getElem?_append_right (Nat.le_refl _), Nat.sub_self]
    rfl
  rw [swapRemove]
  simp only [hget]
  rw [if_neg (fun hne => hne hlast.symm), popBack_toList, h, List.dropLast_concat]

/-- Removing another element moves the last one into its place. -/
theorem swapRemove_concat {v : FixedVector T capacity} {l₁ l₂ : List T} {x y : T}
    (h : v.toList = l₁ ++ x :: (l₂ ++ [y])) : (v.swapRemove l₁.length).toList = l₁ ++ y :: l₂ := by
  have hsize : v.size - 1 = l₁.length + l₂.length + 1 := by
    rw [size, h]
    simp only [List.length_append, List.length_cons, List.length_nil]
    omega
  have hlast : v.toList[v.size - 1]? = some y := by
    rw [h, hsize, List.getElem?_append_right (by omega), show l₁.length + l₂.length + 1 - l₁.length = l₂.length + 1 by
      omega, List.getElem?_cons_succ, List.getElem?_append_right (Nat.le_refl _), Nat.sub_self]
    rfl
  have hset : (v.set l₁.length y).toList = l₁ ++ y :: (l₂ ++ [y]) := by
    show v.toList.set l₁.length y = _
    rw [h, List.set_append_right _ _ (Nat.le_refl _), Nat.sub_self, List.set_cons_zero]
  rw [swapRemove]
  simp only [hlast]
  rw [if_pos (by omega), popBack_toList, hset, ← List.cons_append, ← List.append_assoc, List.dropLast_concat]

theorem swapRemove_toList {v : FixedVector T capacity} {i : Nat} (hi : i < v.size) :
    ∃ item ∈ v.toList, (v.swapRemove i).toList = (v.toList.set i item).dropLast := by
  have hlt : v.size - 1 < v.toList.length := by unfold size at hi ⊢; omega
  refine ⟨v.toList[v.size - 1], List.getElem_mem hlt, ?_⟩
  rw [swapRemove]
  simp only [List.getElem?_eq_getElem hlt]
  by_cases hne : i = v.size - 1
  · rw [if_neg (fun h => h hne), popBack_toList, hne, List.set_getElem_self]
  · rw [if_pos hne, popBack_toList]
    rfl

theorem swapRemove_size {v : FixedVector T capacity} {i : Nat} (hi : i < v.size) :
    (v.swapRemove i).size = v.size - 1 := by
  obtain ⟨item, -, h⟩ := swapRemove_toList hi
  rw [size, h, List.length_dropLast, List.length_set, size]

theorem mem_swapRemove {v : FixedVector T capacity} {i : Nat} {x : T}
    (h : x ∈ (v.swapRemove i).toList) (hi : i < v.size) : x ∈ v.toList := by
  obtain ⟨item, hitem, heq⟩ := swapRemove_toList hi
  rw [heq] at h
  rcases List.mem_or_eq_of_mem_set (List.dropLast_subset _ h) with h | h
  · exact h
  · exact h ▸ hitem

end FixedVector

/-- The loop `for (i = n; i-- > 0;)` that stops at the first match: the last
index below `n` whose element satisfies `p`. -/
def lastIndex {T : Type} (p : T → Bool) (l : List T) : Nat → Option Nat
  | 0 => none
  | i + 1 =>
    match l[i]? with
    | some x => if p x then some i else lastIndex p l i
    | none => lastIndex p l i

section
variable {T : Type} {p : T → Bool} {l : List T}

theorem lastIndex_concat {item : T} (hp : p item = true) (l : List T) :
    lastIndex p (l ++ [item]) (l ++ [item]).length = some l.length := by
  rw [List.length_append, List.length_singleton, lastIndex,
    List.getElem?_append_right (Nat.le_refl _), Nat.sub_self, List.getElem?_cons_zero]
  exact if_pos hp

theorem lastIndex_spec {n i : Nat} (h : lastIndex p l n = some i) :
    ∃ x, l[i]? = some x ∧ p x = true := by
  induction n with
  | zero => cases h
  | succ n ih =>
    rw [lastIndex] at h
    split at h
    · rename_i x hx
      split at h
      · cases h
        exact ⟨x, hx, ‹_›⟩
      · exact ih h
    · exact ih h

theorem lastIndex_split {l₁ l₂ : List T} {x : T} (hx : p x = true) (hnone : ∀ y ∈ l₂, p y = false) :
    lastIndex p (l₁ ++ x :: l₂) (l₁ ++ x :: l₂).length = some l₁.length := by
  have aux : ∀ n, n ≤ l₂.length → lastIndex p (l₁ ++ x :: l₂) (l₁.length + 1 + n) = some l₁.length := by
    intro n
    induction n with
    | zero =>
      intro _
      rw [Nat.add_zero, lastIndex, List.getElem?_append_right (Nat.le_refl _), Nat.sub_self, List.getElem?_cons_zero]
      exact if_pos hx
    | succ n ih =>
      intro hn
      have hget : (l₁ ++ x :: l₂)[l₁.length + 1 + n]? = some l₂[n] := by
        rw [List.getElem?_append_right (by omega), show l₁.length + 1 + n - l₁.length = n + 1 by omega,
          List.getElem?_cons_succ, List.getElem?_eq_getElem hn]
      rw [← Nat.add_assoc, lastIndex, hget]
      simp only [hnone l₂[n] (List.getElem_mem hn), Bool.false_eq_true, if_false]
      exact ih (by omega)
  have hlen : (l₁ ++ x :: l₂).length = l₁.length + 1 + l₂.length := by
    rw [List.length_append, List.length_cons]
    omega
  rw [hlen]
  exact aux l₂.length (Nat.le_refl _)

theorem lastIndex_lt {n i : Nat} (h : lastIndex p l n = some i) : i < l.length := by
  obtain ⟨x, hx, -⟩ := lastIndex_spec h
  exact (List.getElem?_eq_some_iff.mp hx).1

theorem lastIndex_eq_none_iff : lastIndex p l l.length = none ↔ ∀ x ∈ l, p x = false := by
  have aux : ∀ n, lastIndex p l n = none ↔ ∀ x ∈ l.take n, p x = false := by
    intro n
    induction n with
    | zero => simp [lastIndex]
    | succ n ih =>
      rw [lastIndex, List.take_add_one]
      cases hx : l[n]? with
      | none => simpa using ih
      | some x =>
        by_cases hp : p x = true
        · simp [hp]
        · simp [hp, ih, or_imp, forall_and]
  rw [aux, List.take_length]

end

end BrLogger
