import Mathlib.Data.List.Basic
import Mathlib.Data.Nat.ModEq

/-!
# The latest items of a list in a ring of cells

Item `k` of a list stands in cell `k % capacity`, over item `k - capacity`.
`Holds` says so for the latest `capacity` items, those of them there are; one
more item written to its cell keeps it (`Holds.concat`), and reading from the
cell of the oldest one gives them in their order (`Holds.read`).
-/

namespace LatestRing

variable {α : Type}

structure Holds (capacity : Nat) (cells items : List α) : Prop where
  length : cells.length = capacity
  cell : ∀ k, k < items.length → items.length ≤ k + capacity → cells[k % capacity]? = items[k]?

theorem holds_nil {capacity : Nat} {cells : List α} (h : cells.length = capacity) : Holds capacity cells [] :=
  ⟨h, fun k hk => absurd hk (Nat.not_lt_zero k)⟩

variable {capacity : Nat} {cells items : List α}

theorem mod_ne_of_lt {k n : Nat} (h : k < n) (h' : n < k + capacity) : k % capacity ≠ n % capacity := by
  intro he
  have hdvd := (Nat.modEq_iff_dvd' (Nat.le_of_lt h)).mp he
  have := Nat.le_of_dvd (by omega) hdvd
  omega

/-- **The next item over the oldest.** -/
theorem Holds.concat (h : Holds capacity cells items) (hpos : 0 < capacity) (x : α) :
    Holds capacity (cells.set (items.length % capacity) x) (items ++ [x]) := by
  refine ⟨by rw [List.length_set, h.length], ?_⟩
  intro k hk hlatest
  rw [List.length_append, List.length_singleton] at hk hlatest
  by_cases hlast : k = items.length
  · rw [hlast, List.getElem?_set_self (by rw [h.length]; exact Nat.mod_lt _ hpos), List.getElem?_concat_length]
  · rw [List.getElem?_set_ne (mod_ne_of_lt (by omega) (by omega)).symm, List.getElem?_append_left (by omega)]
    exact h.cell k (by omega) (by omega)

/-- **The `i`-th of the latest items**, from the cell of the oldest one on. -/
theorem Holds.read (h : Holds capacity cells items) {i : Nat} (hi : i < min items.length capacity) :
    cells[((if items.length < capacity then 0 else items.length % capacity) + i) % capacity]? =
      items[items.length - min items.length capacity + i]? := by
  rw [← h.cell _ (by omega) (by omega)]
  by_cases hshort : items.length < capacity
  · rw [if_pos hshort, Nat.min_eq_left (by omega), Nat.sub_self]
  · rw [if_neg hshort, Nat.min_eq_right (by omega), Nat.mod_add_mod]
    congr 1
    have hsum : items.length + i = (items.length - capacity + i) + capacity := by omega
    rw [hsum, Nat.add_mod_right]

end LatestRing
