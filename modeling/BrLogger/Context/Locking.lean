import BrLogger.Context.GlobalMap
import BrLogger.Lib.SharedMutex

/-!
# `global_mutex_`

`SetGlobalTag` and `RemoveGlobalTag` change the global tags in several steps, and
in between the store holds a value that is half overwritten, or one tag twice.
`tagsObject` cuts the two and the copying loop of `FillTags` at their accesses
to the store.  Each runs under `global_mutex_`, the two exclusively and `FillTags`
shared, and so no thread ever sees such a store: in every interleaving the
calls act as the one-step calls of `LogContext` do (`globalTags_linearizable`).
-/

namespace BrLogger

variable {L : Limits}

/-- The calls that take the lock; a null argument returns before it. -/
inductive TagsCall (L : Limits)
  | setGlobalTag (key value : CStr)
  | removeGlobalTag (key : CStr)
  | fillTags (entry : LogEntry L)

/-- Where a call stands while it has the lock, at its next access to `global_tags_`. -/
inductive TagsPc (L : Limits)
  | search (i : Nat)
  | copyValue (i : Nat)
  | terminate (i : Nat)
  | pushBack
  | moveLast (i last : Nat)
  | popBack
  | bounds
  | copyTag (i last : Nat) (entry : LogEntry L) (count : Nat)

/-- `SetGlobalTag` and `RemoveGlobalTag` return nothing, `FillTags` goes on with the entry. -/
inductive TagsResult (L : Limits)
  | done
  | filled (entry : LogEntry L) (count : Nat)

namespace TagsCall

def exclusive : TagsCall L → Bool
  | .setGlobalTag _ _ => true
  | .removeGlobalTag _ => true
  | .fillTags _ => false

def enter : TagsCall L → TagsPc L
  | .setGlobalTag _ _ => .search 0
  | .removeGlobalTag _ => .search 0
  | .fillTags _ => .bounds

/-- One access of `SetGlobalTag(key, value)`. -/
def setAccess (key value : CStr) (tags : GlobalTags L) : TagsPc L → GlobalTags L × (TagsPc L ⊕ TagsResult L)
  | .search i =>
    match tags.toList[i]? with
    | some tag => (tags, .inl (if tag.hasKey key then .copyValue i else .search (i + 1)))
    | none => (tags, .inl .pushBack)
  | .copyValue i =>
    match tags.toList[i]? with
    | some tag =>
      (tags.set i { tag with value := tag.value.strncpy value (L.maxTagValLen - 1) (Nat.sub_le _ _) },
        .inl (.terminate i))
    | none => (tags, .inr .done)
  | .terminate i =>
    match tags.toList[i]? with
    | some tag => (tags.set i { tag with value := tag.value.setNul (L.maxTagValLen - 1) }, .inr .done)
    | none => (tags, .inr .done)
  | .pushBack => ((tags.pushBack (.make L key value)).1, .inr .done)
  | _ => (tags, .inr .done)

/-- One access of `RemoveGlobalTag(key)`. -/
def removeAccess (key : CStr) (tags : GlobalTags L) : TagsPc L → GlobalTags L × (TagsPc L ⊕ TagsResult L)
  | .search i =>
    match tags.toList[i]? with
    | some tag =>
      (tags, .inl (if tag.hasKey key then
        (if i ≠ tags.size - 1 then .moveLast i (tags.size - 1) else .popBack) else .search (i + 1)))
    | none => (tags, .inr .done)
  | .moveLast i last =>
    match tags.toList[last]? with
    | some tag => (tags.set i tag, .inl .popBack)
    | none => (tags, .inl .popBack)
  | .popBack => (tags.popBack.1, .inr .done)
  | _ => (tags, .inr .done)

/-- One access of the first loop of `FillTags(entry)`, a range-based `for`: the bounds are
read once. -/
def fillAccess (entry : LogEntry L) (tags : GlobalTags L) : TagsPc L → TagsPc L ⊕ TagsResult L
  | .bounds => .inl (.copyTag 0 tags.size entry 0)
  | .copyTag i last entry count =>
    if i = last then .inr (.filled entry count)
    else if L.maxTags ≤ count then .inr (.filled entry count)
    else
      match tags.toList[i]? with
      | some tag => .inl (.copyTag (i + 1) last { entry with tags := entry.tags.setIfInBounds count tag } (count + 1))
      | none => .inl (.copyTag (i + 1) last entry (count + 1))
  | _ => .inr (.filled entry 0)

def access (call : TagsCall L) (pc : TagsPc L) (tags : GlobalTags L) : GlobalTags L × (TagsPc L ⊕ TagsResult L) :=
  match call with
  | .setGlobalTag key value => setAccess key value tags pc
  | .removeGlobalTag key => removeAccess key tags pc
  | .fillTags entry => (tags, fillAccess entry tags pc)

/-- The call as one step of the context. -/
def contextCall {θ : Type} : TagsCall L → Option (ContextCall θ)
  | .setGlobalTag key value => some (.setGlobalTag (some key) (some value))
  | .removeGlobalTag key => some (.removeGlobalTag (some key))
  | .fillTags _ => none

/-- What the call does and returns when it has the store to itself. -/
def apply (call : TagsCall L) (tags : GlobalTags L) : GlobalTags L × TagsResult L :=
  match call with
  | .setGlobalTag key value => (BrLogger.setGlobalTag tags (some key) (some value), .done)
  | .removeGlobalTag key => (BrLogger.removeGlobalTag tags (some key), .done)
  | .fillTags entry =>
    let (entry, count) := LogContext.fillLoop entry 0 tags.toList
    (tags, .filled entry count)

end TagsCall

/-- `global_tags_` and the calls that go through it under `global_mutex_`. -/
def tagsObject (L : Limits) : Guarded (GlobalTags L) (TagsCall L) (TagsPc L) (TagsResult L) where
  exclusive := TagsCall.exclusive
  enter := TagsCall.enter
  access := TagsCall.access
  reads call pc tags h := by
    cases call with
    | setGlobalTag key value => cases h
    | removeGlobalTag key => cases h
    | fillTags entry => rfl

/-! ### A call that has the lock to itself -/

section
variable {tags : GlobalTags L} {key value : CStr}

theorem findIdx?_of_first {i : Nat} {tag : LogTag L} (hget : tags.toList[i]? = some tag) (hkey : tag.hasKey key = true)
    (hbefore : ∀ j < i, ∀ tag, tags.toList[j]? = some tag → tag.hasKey key = false) :
    tags.toList.findIdx? (LogTag.hasKey key) = some i := by
  obtain ⟨hlt, rfl⟩ := List.getElem?_eq_some_iff.mp hget
  refine List.findIdx?_eq_some_iff_getElem.mpr ⟨hlt, hkey, fun j hj => ?_⟩
  rw [hbefore j hj _ (List.getElem?_eq_getElem (by omega))]
  exact Bool.false_ne_true

theorem findIdx?_of_none {i : Nat} (hget : tags.toList[i]? = none)
    (hbefore : ∀ j < i, ∀ tag, tags.toList[j]? = some tag → tag.hasKey key = false) :
    tags.toList.findIdx? (LogTag.hasKey key) = none := by
  refine List.findIdx?_eq_none_iff.mpr fun tag htag => ?_
  obtain ⟨j, hj⟩ := List.getElem?_of_mem htag
  have hlen := List.getElem?_eq_none_iff.mp hget
  have := (List.getElem?_eq_some_iff.mp hj).1
  exact hbefore j (by omega) tag hj

theorem hasKey_before_succ {i : Nat} {tag : LogTag L} (hget : tags.toList[i]? = some tag)
    (hkey : tag.hasKey key = false)
    (hbefore : ∀ j < i, ∀ tag, tags.toList[j]? = some tag → tag.hasKey key = false) :
    ∀ j < i + 1, ∀ tag, tags.toList[j]? = some tag → tag.hasKey key = false := by
  intro j hj tag' htag
  rcases Nat.lt_succ_iff_lt_or_eq.mp hj with hj | rfl
  · exact hbefore j hj tag' htag
  · rw [hget] at htag
    exact Option.some.inj htag ▸ hkey

/-- The loop of `SetGlobalTag` from index `i` on, when no tag before it has the key. -/
theorem runs_setGlobalTag (n : Nat) : ∀ i, tags.size - i = n →
    (∀ j < i, ∀ tag, tags.toList[j]? = some tag → tag.hasKey key = false) →
    (tagsObject L).Runs (.setGlobalTag key value) (.search i) tags (setGlobalTag tags (some key) (some value)) .done := by
  induction n with
  | zero =>
    intro i hn hbefore
    have hget : tags.toList[i]? = none := List.getElem?_eq_none (by unfold FixedVector.size at hn; omega)
    refine .more .pushBack tags ?_ (.done ?_)
    · simp only [tagsObject, TagsCall.access, TagsCall.setAccess, hget]
    · simp only [tagsObject, TagsCall.access, TagsCall.setAccess, setGlobalTag, findIdx?_of_none hget hbefore]
  | succ n ih =>
    intro i hn hbefore
    have hlt : i < tags.toList.length := by unfold FixedVector.size at hn; omega
    have hget : tags.toList[i]? = some tags.toList[i] := List.getElem?_eq_getElem hlt
    cases hkey : tags.toList[i].hasKey key with
    | true =>
      have hfind := findIdx?_of_first hget hkey hbefore
      let half := tags.set i
        { tags.toList[i] with value := tags.toList[i].value.strncpy value (L.maxTagValLen - 1) (Nat.sub_le _ _) }
      have hhalf : half.toList[i]? = some
          { tags.toList[i] with value := tags.toList[i].value.strncpy value (L.maxTagValLen - 1) (Nat.sub_le _ _) } :=
        List.getElem?_set_self hlt
      refine .more (.copyValue i) tags ?_
        (.more (.terminate i) half ?_ (.done ?_))
      · simp only [tagsObject, TagsCall.access, TagsCall.setAccess, hget, hkey, if_true]
      · simp only [tagsObject, TagsCall.access, TagsCall.setAccess, hget, half]
      · simp only [tagsObject, TagsCall.access, TagsCall.setAccess, hhalf, setGlobalTag, hfind, hget]
        congr 1
        exact FixedVector.ext (List.set_set ..)
    | false =>
      refine .more (.search (i + 1)) tags ?_ (ih (i + 1) (by omega) (hasKey_before_succ hget hkey hbefore))
      simp only [tagsObject, TagsCall.access, TagsCall.setAccess, hget, hkey, Bool.false_eq_true, if_false]

theorem runs_removeGlobalTag (n : Nat) : ∀ i, tags.size - i = n →
    (∀ j < i, ∀ tag, tags.toList[j]? = some tag → tag.hasKey key = false) →
    (tagsObject L).Runs (.removeGlobalTag key) (.search i) tags (removeGlobalTag tags (some key)) .done := by
  induction n with
  | zero =>
    intro i hn hbefore
    have hget : tags.toList[i]? = none := List.getElem?_eq_none (by unfold FixedVector.size at hn; omega)
    refine .done ?_
    simp only [tagsObject, TagsCall.access, TagsCall.removeAccess, hget, removeGlobalTag, findIdx?_of_none hget hbefore]
  | succ n ih =>
    intro i hn hbefore
    have hlt : i < tags.toList.length := by unfold FixedVector.size at hn; omega
    have hget : tags.toList[i]? = some tags.toList[i] := List.getElem?_eq_getElem hlt
    cases hkey : tags.toList[i].hasKey key with
    | true =>
      have hfind := findIdx?_of_first hget hkey hbefore
      have hbound : tags.size - 1 < tags.toList.length := by unfold FixedVector.size; omega
      have hlast : tags.toList[tags.size - 1]? = some tags.toList[tags.size - 1] := List.getElem?_eq_getElem hbound
      by_cases hne : i ≠ tags.size - 1
      · refine .more (.moveLast i (tags.size - 1)) tags ?_
          (.more .popBack (tags.set i tags.toList[tags.size - 1]) ?_ (.done ?_))
        · simp only [tagsObject, TagsCall.access, TagsCall.removeAccess, hget, hkey, if_true, if_pos hne]
        · simp only [tagsObject, TagsCall.access, TagsCall.removeAccess, hlast]
        · simp only [tagsObject, TagsCall.access, TagsCall.removeAccess, removeGlobalTag, hfind,
            FixedVector.swapRemove, hlast, if_pos hne]
      · refine .more .popBack tags ?_ (.done ?_)
        · simp only [tagsObject, TagsCall.access, TagsCall.removeAccess, hget, hkey, if_true, if_neg hne]
        · simp only [tagsObject, TagsCall.access, TagsCall.removeAccess, removeGlobalTag, hfind,
            FixedVector.swapRemove, hlast, if_neg hne]
    | false =>
      refine .more (.search (i + 1)) tags ?_ (ih (i + 1) (by omega) (hasKey_before_succ hget hkey hbefore))
      simp only [tagsObject, TagsCall.access, TagsCall.removeAccess, hget, hkey, Bool.false_eq_true, if_false]

theorem runs_copyTag (start : LogEntry L) (n : Nat) : ∀ i entry count, i + n = tags.size →
    (tagsObject L).Runs (.fillTags start) (.copyTag i tags.size entry count) tags tags
      (.filled (LogContext.fillLoop entry count (tags.toList.drop i)).1
        (LogContext.fillLoop entry count (tags.toList.drop i)).2) := by
  induction n with
  | zero =>
    intro i entry count hn
    have hdrop : tags.toList.drop i = [] := List.drop_eq_nil_of_le (by unfold FixedVector.size at hn; omega)
    refine .done ?_
    simp only [tagsObject, TagsCall.access, TagsCall.fillAccess, hdrop, LogContext.fillLoop]
    rw [if_pos (by omega)]
  | succ n ih =>
    intro i entry count hn
    have hlt : i < tags.toList.length := by unfold FixedVector.size at hn; omega
    have hget : tags.toList[i]? = some tags.toList[i] := List.getElem?_eq_getElem hlt
    have hdrop : tags.toList.drop i = tags.toList[i] :: tags.toList.drop (i + 1) := List.drop_eq_getElem_cons hlt
    rw [hdrop, LogContext.fillLoop]
    by_cases hfull : L.maxTags ≤ count
    · rw [if_pos hfull]
      refine .done ?_
      simp only [tagsObject, TagsCall.access, TagsCall.fillAccess]
      rw [if_neg (by omega), if_pos hfull]
    · rw [if_neg hfull]
      refine .more _ _ ?_ (ih (i + 1) _ (count + 1) (by omega))
      simp only [tagsObject, TagsCall.access, TagsCall.fillAccess, hget]
      rw [if_neg (by omega), if_neg hfull]

end

/-- **Alone, the accesses of a call make the one-step call.** -/
theorem tagsObject_implements : (tagsObject L).Implements TagsCall.apply := by
  intro call tags
  cases call with
  | setGlobalTag key value => exact runs_setGlobalTag _ 0 rfl nofun
  | removeGlobalTag key => exact runs_removeGlobalTag _ 0 rfl nofun
  | fillTags entry => exact .more _ _ rfl (runs_copyTag entry tags.size 0 entry 0 (Nat.zero_add _))

/-! ### Any threads -/

section
variable {ι : Type} [DecidableEq ι]

/-- The context after the calls of a log, made one after the other. -/
def contextAfter (log : List (ι × TagsCall L × TagsResult L)) : LogContext L ι :=
  (log.filterMap fun call => call.2.1.contextCall).foldl LogContext.call (.create L ι)

theorem contextAfter_eq (log : List (ι × TagsCall L × TagsResult L)) :
    (contextAfter log).globalTags = Guarded.replay TagsCall.apply .nil log := by
  have aux : ∀ (log : List (ι × TagsCall L × TagsResult L)) (c : LogContext L ι),
      ((log.filterMap fun call => call.2.1.contextCall).foldl LogContext.call c).globalTags =
        Guarded.replay TagsCall.apply c.globalTags log := by
    intro log
    induction log with
    | nil => exact fun _ => rfl
    | cons call log ih =>
      intro c
      obtain ⟨i, op, ret⟩ := call
      cases op with
      | setGlobalTag key value => exact ih (c.call (.setGlobalTag (some key) (some value)))
      | removeGlobalTag key => exact ih (c.call (.removeGlobalTag (some key)))
      | fillTags entry => exact ih c
  exact aux log (.create L ι)

/-- **The lock makes the calls atomic.**  With any number of threads inside `SetGlobalTag`,
`RemoveGlobalTag` and `FillTags`, access by access in any order: while nobody holds the
lock alone, the store is the one that the calls which have released it leave when made
one after the other; every `FillTags` has copied the tags that the calls before it leave;
a call that changes the store is alone with it; and nobody waits while nobody can go on. -/
theorem globalTags_linearizable (s : Guarded.LockedState (GlobalTags L) (TagsCall L) (TagsPc L) (TagsResult L) ι)
    (h : (Guarded.lockedMachine ι (tagsObject L) .nil).Reachable s) :
    (s.owner = none → s.value = (contextAfter s.log).globalTags) ∧
      (∀ before i entry result after, s.log = before ++ (i, .fillTags entry, result) :: after →
        result = .filled (LogContext.fillLoop entry 0 (contextAfter before).globalTags.toList).1
          (LogContext.fillLoop entry 0 (contextAfter before).globalTags.toList).2) ∧
      (∀ i j call other, (s.thread i).Holds call → call.exclusive = true → (s.thread j).Holds other → i = j) ∧
      ∀ i, s.thread i ≠ .idle → ∃ j, (s.lock (tagsObject L) j).isSome ∨ (s.access (tagsObject L) j).isSome ∨
        (s.unlock (tagsObject L) j).isSome := by
  obtain ⟨hsettled, hresults⟩ := Guarded.linearizable tagsObject_implements h
  refine ⟨?_, ?_, ?_, fun i => Guarded.enabled h⟩
  · rw [contextAfter_eq]
    exact hsettled
  · intro before i entry result after he
    rw [contextAfter_eq]
    exact hresults before i (.fillTags entry) result after he
  · intro i j call other hi hcall hj
    exact Guarded.exclusive_alone h hi hcall hj

end

/-- Thread `true` asks for the lock while thread `false` is between the copy of a new value and its
terminator, gets it when that call is over, and fills an entry. -/
def settingRun : List (Guarded.LockedAction (TagsCall Limits.desktop) Bool) :=
  List.flatten [[.call false (.setGlobalTag LogContext.keyK LogContext.keyK), .lock false],
    .replicate 2 (.access false),
    [.unlock false, .call false (.setGlobalTag LogContext.keyK ⟨ascii "second", by decide⟩), .lock false],
    .replicate 2 (.access false), [.call true (.fillTags (.zero _)), .access false, .unlock false, .lock true],
    .replicate 3 (.access true), [.unlock true]]

def settled : Guarded.LockedState (GlobalTags Limits.desktop) (TagsCall Limits.desktop) (TagsPc Limits.desktop)
    (TagsResult Limits.desktop) Bool :=
  ((Guarded.lockedMachine Bool (tagsObject Limits.desktop) .nil).exec settingRun (.create .nil)).get
    (by decide +kernel)

theorem globalTags_linearizable_settled :
    settled.value.toList.map LogTag.pair = [⟨ascii "k", ascii "second"⟩] ∧
      settled.value = (contextAfter settled.log).globalTags := by
  have hreach : (Guarded.lockedMachine Bool (tagsObject Limits.desktop) .nil).Reachable settled :=
    Machine.Reachable.exec (.init rfl) (Option.some_get _).symm
  have howner : settled.owner = none := by decide +kernel
  exact ⟨by decide +kernel, (globalTags_linearizable settled hreach).1 howner⟩

end BrLogger
