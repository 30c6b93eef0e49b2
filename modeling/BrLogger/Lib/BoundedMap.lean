import Mathlib.Data.Finmap
import Mathlib.Tactic.Common

/-!
# Finite maps of bounded size

`BoundedMap.set` gives a key a value, but takes no new key once `capacity` keys
are stored.  A list of pairs `Lists` a map when it holds its pairs in some
order.  Changing, removing or adding a pair of the list is then setting or
erasing a key of the map, wherever the pair stands.
-/

namespace BoundedMap

variable {α β : Type}

section
variable [DecidableEq α]

/-- Update a key, or add it while there is room. -/
def set (capacity : Nat) (m : Finmap fun _ : α => β) (a : α) (b : β) : Finmap fun _ : α => β :=
  if a ∈ m ∨ m.keys.card < capacity then m.insert a b else m

variable {capacity : Nat} {m : Finmap fun _ : α => β} {a : α} {b : β}

theorem set_of_mem (h : a ∈ m) : set capacity m a b = m.insert a b := if_pos (Or.inl h)

theorem set_of_lt (h : m.keys.card < capacity) : set capacity m a b = m.insert a b := if_pos (Or.inr h)

theorem set_of_full (ha : a ∉ m) (h : ¬ m.keys.card < capacity) : set capacity m a b = m :=
  if_neg fun hor => hor.elim ha h

/-- **No other key is touched.** -/
theorem lookup_set_of_ne {a' : α} (h : a' ≠ a) : (set capacity m a b).lookup a' = m.lookup a' := by
  rw [set]
  split
  · exact Finmap.lookup_insert_of_ne m h
  · rfl

end

/-- The list holds the pairs of the map. -/
def Lists (l : List (Sigma fun _ : α => β)) (m : Finmap fun _ : α => β) : Prop := m.entries = ↑l

variable {l l₁ l₂ : List (Sigma fun _ : α => β)} {m : Finmap fun _ : α => β} {a : α} {b c : β}

theorem lists_nil : Lists [] (∅ : Finmap fun _ : α => β) := rfl

theorem Lists.nodupKeys (h : Lists l m) : l.NodupKeys := by
  have := m.nodupKeys
  rw [h] at this
  exact Multiset.coe_nodupKeys.mp this

theorem Lists.perm (h : Lists l₁ m) (hperm : l₁.Perm l₂) : Lists l₂ m := h.trans (Multiset.coe_eq_coe.mpr hperm)

/-- A listed map is the one its list makes. -/
theorem Lists.eq (h : Lists l m) : m = AList.toFinmap ⟨l, h.nodupKeys⟩ := Finmap.ext h

theorem Lists.card (h : Lists l m) : m.keys.card = l.length := by
  have : m.keys.card = m.entries.card := Multiset.card_map _ _
  rw [this, h, Multiset.coe_card]

theorem Lists.mem_iff (h : Lists l m) : a ∈ m ↔ a ∈ l.keys := by
  rw [Finmap.mem_def, h]
  rfl

theorem Lists.lookup_eq_some_iff [DecidableEq α] (h : Lists l m) : m.lookup a = some b ↔ ⟨a, b⟩ ∈ l := by
  rw [Finmap.lookup_eq_some_iff, h, Multiset.mem_coe]

/-- The key of a pair stands nowhere else. -/
theorem Lists.notMem_left (h : Lists (l₁ ++ ⟨a, b⟩ :: l₂) m) : a ∉ l₁.keys := by
  have hnodup := List.nodupKeys_cons.mp ((List.perm_nodupKeys List.perm_middle).mp h.nodupKeys)
  intro ha
  refine hnodup.1 ?_
  rw [List.keys, List.map_append, List.mem_append]
  exact Or.inl ha

variable [DecidableEq α]

theorem Lists.kerase (h : Lists (l₁ ++ ⟨a, b⟩ :: l₂) m) : List.kerase a (l₁ ++ ⟨a, b⟩ :: l₂) = l₁ ++ l₂ := by
  have hhead : List.kerase a ((⟨a, b⟩ : Sigma fun _ : α => β) :: l₂) = l₂ := List.kerase_cons_eq rfl
  rw [List.kerase_append_right h.notMem_left, hhead]

/-- **A pair with a new value.** -/
theorem Lists.update (h : Lists (l₁ ++ ⟨a, b⟩ :: l₂) m) (c : β) :
    Lists (l₁ ++ ⟨a, c⟩ :: l₂) (m.insert a c) := by
  have hentries : Lists (⟨a, c⟩ :: (l₁ ++ l₂)) (m.insert a c) := by
    rw [← h.kerase, h.eq, Finmap.insert_toFinmap]
    rfl
  exact hentries.perm List.perm_middle.symm

/-- **A pair removed.** -/
theorem Lists.erase (h : Lists (l₁ ++ ⟨a, b⟩ :: l₂) m) : Lists (l₁ ++ l₂) (m.erase a) := by
  rw [← h.kerase, h.eq, Finmap.erase_toFinmap]
  rfl

/-- **A pair with a new key.** -/
theorem Lists.concat (h : Lists l m) (ha : a ∉ m) (b : β) : Lists (l ++ [⟨a, b⟩]) (m.insert a b) := by
  have hentries : Lists (⟨a, b⟩ :: l) (m.insert a b) := by
    rw [Lists, Finmap.entries_insert_of_notMem ha, h]
    rfl
  exact hentries.perm (List.perm_append_singleton _ _).symm

end BoundedMap
