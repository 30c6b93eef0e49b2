import BrLogger.Context.LogContext
import BrLogger.Lib.BoundedMap

/-!
# The global tags are a bounded map

With keys that fit, `SetGlobalTag` and `RemoveGlobalTag` are the operations of
a finite map of 16 keys at most (`globalTags_boundedMap`).  A call finds the
only tag with its key, or none: `SetGlobalTag` then replaces that tag's value
or adds a tag at the end.  `RemoveGlobalTag` puts the last tag in the place of
the one it removes, which is another order of the same pairs.
-/

namespace BrLogger

open BoundedMap (Lists)

variable {L : Limits}

/-- Removing by moving the last element is removing. -/
theorem FixedVector.swapRemove_perm {T : Type} {capacity : Nat} {v : FixedVector T capacity} {l₁ l₂ : List T} {x : T}
    (h : v.toList = l₁ ++ x :: l₂) : (v.swapRemove l₁.length).toList.Perm (l₁ ++ l₂) := by
  induction l₂ using List.reverseRecOn with
  | nil =>
    rw [swapRemove_last h, List.append_nil]
  | append_singleton l₂ y _ =>
    rw [swapRemove_concat h]
    exact ((List.perm_append_singleton y l₂).symm).append_left l₁

/-! ### One call -/

namespace LogTag

/-- A tag's key and value as strings. -/
def pair (tag : LogTag L) : Sigma fun _ : List Byte => List Byte := ⟨tag.key.cstr, tag.value.cstr⟩

theorem pair_make {key : CStr} (h : key.bytes.length < L.maxTagKeyLen) (value : CStr) :
    (make L key value).pair = ⟨key.bytes, storedValue L value⟩ := by
  have hvalue : (make L key value).value.cstr = storedValue L value :=
    (CharArray.assign_spec L.maxTagValLen_pos _ _).1
  rw [pair, make_key, storedKey_short h, hvalue]

theorem pair_setValue (tag : LogTag L) (value : CStr) :
    (tag.setValue value).pair = ⟨tag.key.cstr, storedValue L value⟩ := by
  rw [pair, setValue_value]
  rfl

end LogTag

/-- Where a call finds the tag with its key. -/
theorem exists_split_of_findIdx? {tags : List (LogTag L)} {key : CStr} {i : Nat}
    (hkey : key.bytes.length < L.maxTagKeyLen) (h : tags.findIdx? (LogTag.hasKey key) = some i) :
    ∃ l₁ tag l₂, tags = l₁ ++ tag :: l₂ ∧ l₁.length = i ∧ tag.key.cstr = key.bytes := by
  obtain ⟨hlt, hfound, _⟩ := List.findIdx?_eq_some_iff_getElem.mp h
  rw [LogTag.hasKey_short hkey, LogTag.storedKey_short hkey] at hfound
  refine ⟨tags.take i, tags[i], tags.drop (i + 1), ?_, List.length_take_of_le (Nat.le_of_lt hlt), hfound⟩
  rw [← List.drop_eq_getElem_cons hlt, List.take_append_drop]

section
variable {tags : GlobalTags L} {m : Finmap fun _ : List Byte => List Byte} {key : CStr}

/-- A call that finds nothing has a new key. -/
theorem notMem_of_findIdx? (h : Lists (tags.toList.map LogTag.pair) m) (hkey : key.bytes.length < L.maxTagKeyLen)
    (hnone : tags.toList.findIdx? (LogTag.hasKey key) = none) : key.bytes ∉ m := by
  rw [h.mem_iff, List.keys, List.map_map, List.mem_map]
  intro h
  obtain ⟨tag, htag, hpair⟩ := h
  have hother := List.findIdx?_eq_none_iff.mp hnone tag htag
  rw [Bool.eq_false_iff, Ne, LogTag.hasKey_short hkey, LogTag.storedKey_short hkey] at hother
  exact hother hpair

theorem lists_setGlobalTag (h : Lists (tags.toList.map LogTag.pair) m) (hkey : key.bytes.length < L.maxTagKeyLen)
    (value : CStr) :
    Lists ((setGlobalTag tags (some key) (some value)).toList.map LogTag.pair)
      (BoundedMap.set 16 m key.bytes (LogTag.storedValue L value)) := by
  cases hfind : tags.toList.findIdx? (LogTag.hasKey key) with
  | some i =>
    obtain ⟨l₁, tag, l₂, hsplit, hlen, hown⟩ := exists_split_of_findIdx? hkey hfind
    have hget : tags.toList[i]? = some tag := by
      rw [hsplit, List.getElem?_append_right (by omega), hlen, Nat.sub_self]
      rfl
    have hset : (setGlobalTag tags (some key) (some value)).toList = l₁ ++ tag.setValue value :: l₂ := by
      simp only [setGlobalTag, hfind, hget]
      show tags.toList.set i (tag.setValue value) = _
      rw [hsplit, ← hlen, List.set_append_right _ _ (Nat.le_refl _), Nat.sub_self, List.set_cons_zero]
    rw [hsplit, List.map_append, List.map_cons, LogTag.pair, hown] at h
    have hmem : key.bytes ∈ m := by
      rw [h.mem_iff, List.keys, List.map_append, List.mem_append]
      exact Or.inr (List.mem_cons_self ..)
    rw [BoundedMap.set_of_mem hmem, hset, List.map_append, List.map_cons, LogTag.pair_setValue, hown]
    exact h.update _
  | none =>
    have hnew := notMem_of_findIdx? h hkey hfind
    have hcard : m.keys.card = tags.size := by rw [h.card, List.length_map, FixedVector.size]
    simp only [setGlobalTag, hfind]
    by_cases hroom : tags.size < 16
    · rw [BoundedMap.set_of_lt (by omega), FixedVector.pushBack_of_lt hroom, List.map_append, List.map_cons,
        LogTag.pair_make hkey]
      exact h.concat hnew _
    · rw [BoundedMap.set_of_full hnew (by omega), FixedVector.pushBack_of_full hroom]
      exact h

theorem lists_removeGlobalTag (h : Lists (tags.toList.map LogTag.pair) m)
    (hkey : key.bytes.length < L.maxTagKeyLen) :
    Lists ((removeGlobalTag tags (some key)).toList.map LogTag.pair) (m.erase key.bytes) := by
  cases hfind : tags.toList.findIdx? (LogTag.hasKey key) with
  | some i =>
    obtain ⟨l₁, tag, l₂, hsplit, rfl, hown⟩ := exists_split_of_findIdx? hkey hfind
    have hperm := (FixedVector.swapRemove_perm hsplit).map LogTag.pair
    rw [hsplit, List.map_append, List.map_cons, LogTag.pair, hown] at h
    simp only [removeGlobalTag, hfind]
    rw [List.map_append] at hperm
    exact h.erase.perm hperm.symm
  | none =>
    have hnew := notMem_of_findIdx? h hkey hfind
    have herase : m.erase key.bytes = m := by
      refine Finmap.ext_lookup fun k => ?_
      by_cases hk : k = key.bytes
      · rw [hk, Finmap.lookup_erase, Finmap.lookup_eq_none.mpr hnew]
      · exact Finmap.lookup_erase_ne hk
    simp only [removeGlobalTag, hfind]
    rw [herase]
    exact h

end

/-! ### Runs -/

section
variable {θ : Type}

/-- The key of a call that may change the global tags. -/
def ContextCall.globalKey : ContextCall θ → Option CStr
  | .setGlobalTag (some key) (some _) => some key
  | .removeGlobalTag (some key) => some key
  | _ => none

def ContextCall.KeyFits (L : Limits) (a : ContextCall θ) : Prop :=
  ∀ key, a.globalKey = some key → key.bytes.length < L.maxTagKeyLen

/-- What a call does to the reference map. -/
def referenceCall (L : Limits) (m : Finmap fun _ : List Byte => List Byte) :
    ContextCall θ → Finmap fun _ : List Byte => List Byte
  | .setGlobalTag (some key) (some value) => BoundedMap.set 16 m key.bytes (LogTag.storedValue L value)
  | .removeGlobalTag (some key) => m.erase key.bytes
  | _ => m

namespace LogContext

variable [DecidableEq θ]

/-- **A call does to the tags what it does to the map.** -/
theorem lists_call {c : LogContext L θ} {m : Finmap fun _ : List Byte => List Byte} {a : ContextCall θ}
    (h : Lists (c.globalTags.toList.map LogTag.pair) m) (ha : a.KeyFits L) :
    Lists ((c.call a).globalTags.toList.map LogTag.pair) (referenceCall L m a) := by
  cases a with
  | setGlobalTag key value =>
    cases key with
    | none => exact h
    | some key =>
      cases value with
      | none => exact h
      | some value => exact lists_setGlobalTag h (ha key rfl) value
  | removeGlobalTag key =>
    cases key with
    | none => exact h
    | some key => exact lists_removeGlobalTag h (ha key rfl)
  | pushScopedTag thread key value => exact h
  | popScopedTag thread key => exact h
  | setThreadName thread name =>
    cases name with
    | none => exact h
    | some name => exact h

theorem lists_calls (calls : List (ContextCall θ)) (hcalls : ∀ a ∈ calls, a.KeyFits L) {c : LogContext L θ}
    {m : Finmap fun _ : List Byte => List Byte} (h : Lists (c.globalTags.toList.map LogTag.pair) m) :
    Lists ((calls.foldl call c).globalTags.toList.map LogTag.pair) (calls.foldl (referenceCall L) m) := by
  induction calls generalizing c m with
  | nil => exact h
  | cons a calls ih =>
    exact ih (fun b hb => hcalls b (List.mem_cons_of_mem a hb)) (lists_call h (hcalls a (List.mem_cons_self ..)))

/-- A tag with this key and this value is stored. -/
def Binds (c : LogContext L θ) (key value : List Byte) : Prop :=
  ∃ tag ∈ c.globalTags.toList, tag.key.cstr = key ∧ tag.value.cstr = value

omit [DecidableEq θ] in
theorem binds_iff {c : LogContext L θ} {m : Finmap fun _ : List Byte => List Byte}
    (h : Lists (c.globalTags.toList.map LogTag.pair) m) (key value : List Byte) :
    c.Binds key value ↔ m.lookup key = some value := by
  rw [h.lookup_eq_some_iff, List.mem_map]
  constructor
  · intro h
    obtain ⟨tag, htag, hkey, hvalue⟩ := h
    exact ⟨tag, htag, by rw [LogTag.pair, hkey, hvalue]⟩
  · intro h
    obtain ⟨tag, htag, hpair⟩ := h
    cases hpair
    exact ⟨tag, htag, rfl, rfl⟩

omit [DecidableEq θ] in
theorem lookup_referenceCall (m : Finmap fun _ : List Byte => List Byte) (a : ContextCall θ) {key : List Byte}
    (hkey : ∀ own, a.globalKey = some own → key ≠ own.bytes) : (referenceCall L m a).lookup key = m.lookup key := by
  cases a with
  | setGlobalTag own value =>
    cases own with
    | none => rfl
    | some own =>
      cases value with
      | none => rfl
      | some value => exact BoundedMap.lookup_set_of_ne (hkey own rfl)
  | removeGlobalTag own =>
    cases own with
    | none => rfl
    | some own => exact Finmap.lookup_erase_ne (hkey own rfl)
  | pushScopedTag thread key value => rfl
  | popScopedTag thread key => rfl
  | setThreadName thread name => rfl

/-- **After any calls with keys that fit, the global tags are the reference map**: no
key is stored twice, the pairs are those of the map, and no call touches another key. -/
theorem globalTags_boundedMap (calls : List (ContextCall θ)) (h : ∀ a ∈ calls, a.KeyFits L) :
    ((calls.foldl call (.create L θ)).globalTags.toList.map fun tag => tag.key.cstr).Nodup ∧
      (∀ key value, (calls.foldl call (.create L θ)).Binds key value ↔
        (calls.foldl (referenceCall L) ∅).lookup key = some value) ∧
      (calls.foldl call (.create L θ)).globalTags.size = (calls.foldl (referenceCall L) ∅).keys.card ∧
      ∀ a : ContextCall θ, a.KeyFits L → ∀ key, (∀ own, a.globalKey = some own → key ≠ own.bytes) →
        ∀ value, ((calls.foldl call (.create L θ)).call a).Binds key value ↔
          (calls.foldl call (.create L θ)).Binds key value := by
  have hlists : Lists ((calls.foldl call (.create L θ)).globalTags.toList.map LogTag.pair)
      (calls.foldl (referenceCall L) ∅) := lists_calls calls h BoundedMap.lists_nil
  refine ⟨?_, binds_iff hlists, ?_, ?_⟩
  · have hnodup : ((calls.foldl call (.create L θ)).globalTags.toList.map LogTag.pair).keys.Nodup := hlists.nodupKeys
    rw [List.keys, List.map_map] at hnodup
    exact hnodup
  · rw [hlists.card, List.length_map, FixedVector.size]
  · intro a ha key hkey value
    rw [binds_iff (lists_call hlists ha), binds_iff hlists, lookup_referenceCall _ a hkey]

/-- A key of one byte. -/
def keyK : CStr := ⟨ascii "k", by decide⟩

/-- Set, updated and removed. -/
def setUpdateRemove : List (ContextCall Unit) :=
  [.setGlobalTag (some keyK) (some keyK), .setGlobalTag (some keyK) (some ⟨ascii "w", by decide⟩),
    .removeGlobalTag (some keyK)]

theorem setUpdateRemove_fits : ∀ a ∈ setUpdateRemove, a.KeyFits Limits.desktop := by
  have hkey : ∀ key, some keyK = some key → key.bytes.length < Limits.desktop.maxTagKeyLen := by
    intro key h
    cases h
    decide
  intro a ha key h
  rcases List.mem_cons.mp ha with rfl | ha
  · exact hkey key h
  · rcases List.mem_cons.mp ha with rfl | ha
    · exact hkey key h
    · cases List.mem_singleton.mp ha
      exact hkey key h

theorem globalTags_boundedMap_setUpdateRemove :
    (setUpdateRemove.foldl call (.create Limits.desktop Unit)).globalTags.size =
      (setUpdateRemove.foldl (referenceCall Limits.desktop) ∅).keys.card :=
  (globalTags_boundedMap setUpdateRemove setUpdateRemove_fits).2.2.1

end LogContext

end

end BrLogger
