import BrLogger.Context.LogContext

/-!
# `ScopedTag` and the tags it leaves behind

A `ScopedTag` pushes its tag in the constructor and pops its key in the
destructor, so a thread's scopes form a well-nested program (`ScopeProg`).

With room in the store the constructor appends its tag, the body gives the
list back, and the destructor, searching from the end, finds that very tag.
On a full store the constructor's push is refused without notice, and the
destructor removes the last tag with that key, which belongs to an enclosing
scope, unless there is none.  `restores_iff` says a program restores every
scope's tags exactly when no scope opens in that situation.
-/

namespace BrLogger

variable {L : Limits}

/-- What a `ScopedTag` is constructed from: a key that fits and a value. -/
structure ScopedTag (L : Limits) where
  key : CStr
  value : CStr
  key_short : key.bytes.length < L.maxTagKeyLen

namespace ScopedTag

def construct (tag : ScopedTag L) (tags : ScopedTags L) : ScopedTags L :=
  pushScopedTag tags (some tag.key) (some tag.value)

def destruct (tag : ScopedTag L) (tags : ScopedTags L) : ScopedTags L :=
  popScopedTag tags (some tag.key)

/-- The constructor's push is refused and the destructor will find another scope's tag. -/
def Shadowed (tag : ScopedTag L) (tags : ScopedTags L) : Prop :=
  tags.size = L.maxTags ∧ ∃ old ∈ tags.toList, old.hasKey tag.key = true

theorem construct_room (tag : ScopedTag L) {tags : ScopedTags L} (h : tags.size < L.maxTags) :
    (tag.construct tags).toList = tags.toList ++ [.make L tag.key tag.value] :=
  FixedVector.pushBack_of_lt h _

theorem construct_full {tag : ScopedTag L} {tags : ScopedTags L} (h : tags.size = L.maxTags) :
    tag.construct tags = tags := FixedVector.pushBack_of_full (by omega) _

/-- The destructor undoes a constructor that had room. -/
theorem destruct_construct (tag : ScopedTag L) {tags : ScopedTags L} (h : tags.size < L.maxTags) :
    tag.destruct (tag.construct tags) = tags := by
  have hlist := tag.construct_room h
  have hlast : lastIndex (LogTag.hasKey tag.key) (tag.construct tags).toList
      (tag.construct tags).size = some tags.toList.length := by
    rw [FixedVector.size, hlist]
    exact lastIndex_concat (LogTag.hasKey_make tag.key_short _) _
  apply FixedVector.ext
  simp only [destruct, popScopedTag, hlast]
  exact FixedVector.swapRemove_last hlist

theorem destruct_absent {tag : ScopedTag L} {tags : ScopedTags L}
    (h : ∀ old ∈ tags.toList, old.hasKey tag.key = false) : tag.destruct tags = tags := by
  have hnone := lastIndex_eq_none_iff.mpr h
  simp only [destruct, popScopedTag, FixedVector.size, hnone]

theorem destruct_present {tag : ScopedTag L} {tags : ScopedTags L} {old : LogTag L}
    (hold : old ∈ tags.toList) (hkey : old.hasKey tag.key = true) :
    (tag.destruct tags).size < tags.size := by
  cases hi : lastIndex (LogTag.hasKey tag.key) tags.toList tags.size with
  | none =>
    have habsent := lastIndex_eq_none_iff.mp hi old hold
    rw [hkey] at habsent
    cases habsent
  | some i =>
    have hlt := lastIndex_lt hi
    simp only [destruct, popScopedTag, hi]
    rw [FixedVector.swapRemove_size hlt]
    unfold FixedVector.size
    omega

/-- **One scope around a body that keeps the list** keeps it unless it is shadowed. -/
theorem destruct_construct_iff (tag : ScopedTag L) (tags : ScopedTags L) :
    tag.destruct (tag.construct tags) = tags ↔ ¬ tag.Shadowed tags := by
  rcases Nat.lt_or_eq_of_le tags.size_le with hlt | hfull
  · constructor
    · rintro - ⟨hfull, -⟩
      have hlt : tags.size < L.maxTags := hlt
      omega
    · exact fun _ => tag.destruct_construct hlt
  · have hfull : tags.size = L.maxTags := hfull
    rw [construct_full hfull]
    constructor
    · rintro hrestored ⟨-, old, hold, hkey⟩
      have hlt := destruct_present hold hkey
      rw [hrestored] at hlt
      exact Nat.lt_irrefl _ hlt
    · intro hnot
      apply destruct_absent
      intro old hold
      by_contra hkey
      exact hnot ⟨hfull, old, hold, by simpa using hkey⟩

end ScopedTag

/-- A well-nested sequence of scopes: `{ ScopedTag t(tag); body } rest`. -/
inductive ScopeProg (L : Limits)
  | done
  | scope (tag : ScopedTag L) (body rest : ScopeProg L)

namespace ScopeProg

/-- The thread's tags after the program. -/
def run : ScopeProg L → ScopedTags L → ScopedTags L
  | done, tags => tags
  | scope tag body rest, tags => rest.run (tag.destruct (body.run (tag.construct tags)))

/-- After every destructor of the run the tags are those before its constructor. -/
def Restores : ScopeProg L → ScopedTags L → Prop
  | done, _ => True
  | scope tag body rest, tags =>
    (tag.destruct (body.run (tag.construct tags))).toList = tags.toList ∧
      body.Restores (tag.construct tags) ∧
      rest.Restores (tag.destruct (body.run (tag.construct tags)))

/-- No scope of the run opens on a full store that holds a tag with its key. -/
def NeverShadowed : ScopeProg L → ScopedTags L → Prop
  | done, _ => True
  | scope tag body rest, tags =>
    ¬ tag.Shadowed tags ∧ body.NeverShadowed (tag.construct tags) ∧
      rest.NeverShadowed (tag.destruct (body.run (tag.construct tags)))

theorem run_of_restores {p : ScopeProg L} :
    ∀ {tags : ScopedTags L}, p.Restores tags → p.run tags = tags := by
  induction p with
  | done => intro tags _; rfl
  | scope tag body rest _ ihRest =>
    intro tags h
    have hsame : tag.destruct (body.run (tag.construct tags)) = tags := FixedVector.ext h.1
    have hrest := h.2.2
    rw [hsame] at hrest
    rw [run, hsame, ihRest hrest]

/-- **A program of scopes restores the tags of every scope exactly when no scope
opens on a full store that holds its key**, from whatever tags it starts. -/
theorem restores_iff (p : ScopeProg L) (tags : ScopedTags L) : p.Restores tags ↔ p.NeverShadowed tags := by
  induction p generalizing tags with
  | done => exact Iff.rfl
  | scope tag body rest ihBody ihRest =>
    rw [Restores, NeverShadowed, ihRest]
    constructor
    · rintro ⟨hsame, hbody, hrest⟩
      refine ⟨?_, (ihBody _).mp hbody, hrest⟩
      rw [run_of_restores hbody] at hsame
      exact (tag.destruct_construct_iff tags).mp (FixedVector.ext hsame)
    · rintro ⟨hnot, hbody, hrest⟩
      have hbody := (ihBody _).mpr hbody
      refine ⟨?_, hbody, hrest⟩
      rw [run_of_restores hbody, (tag.destruct_construct_iff tags).mpr hnot]

end ScopeProg

/-! ### The ninth scope of one key -/

def keyA : ScopedTag Limits.desktop := ⟨⟨ascii "a", by decide⟩, ⟨ascii "v", by decide⟩, by decide⟩

/-- `n` scopes of the key `a`, each inside the one before. -/
def nested : Nat → ScopeProg Limits.desktop
  | 0 => .done
  | n + 1 => .scope keyA (nested n) .done

/-- On a fresh thread, the ninth destructor removes the eighth scope's tag. -/
theorem not_restores_nested : ¬ (nested 9).Restores (FixedVector.nil : ScopedTags Limits.desktop) := by
  rintro ⟨-, ⟨-, ⟨-, ⟨-, ⟨-, ⟨-, ⟨-, ⟨-, ⟨hsame, -⟩, -⟩, -⟩, -⟩, -⟩, -⟩, -⟩, -⟩, -⟩
  have hlen := congrArg List.length hsame
  revert hlen
  decide

end BrLogger
