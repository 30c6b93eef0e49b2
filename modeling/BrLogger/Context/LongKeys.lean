import BrLogger.Context.ScopedTag

/-!
# Keys that do not fit

`GlobalTagUpdate` expects a second `SetGlobalTag` with the same key to update
the first one's tag.  That needs the tag to match its own key, and a tag
matches the key it was built from only when the key is shorter than
`BR_LOG_MAX_TAG_KEY_LEN`.  A longer key is cut when stored and left uncut when
compared, so every call with it misses its tag: `SetGlobalTag` adds one more,
`RemoveGlobalTag` and `PopScopedTag` find nothing.
-/

namespace BrLogger

variable {L : Limits}

section
variable {tags : GlobalTags L} {key : CStr}

theorem setGlobalTag_absent (h : ∀ tag ∈ tags.toList, tag.hasKey key = false)
    (hroom : tags.size < 16) (value : CStr) :
    (setGlobalTag tags (some key) (some value)).toList = tags.toList ++ [.make L key value] := by
  have hnone : tags.toList.findIdx? (LogTag.hasKey key) = none := List.findIdx?_eq_none_iff.mpr h
  simp only [setGlobalTag, hnone]
  exact FixedVector.pushBack_of_lt hroom _

variable {front : List (LogTag L)} {own : LogTag L}

/-- Where the calls find a tag that is the only one with its key, and the last. -/
theorem findIdx?_last (hfront : ∀ tag ∈ front, tag.hasKey key = false) (hown : own.hasKey key = true) :
    (front ++ [own]).findIdx? (LogTag.hasKey key) = some front.length := by
  rw [List.findIdx?_append, List.findIdx?_eq_none_iff.mpr hfront]
  simp [hown]

theorem setGlobalTag_last (htags : tags.toList = front ++ [own])
    (hfront : ∀ tag ∈ front, tag.hasKey key = false) (hown : own.hasKey key = true) (value : CStr) :
    (setGlobalTag tags (some key) (some value)).toList = front ++ [own.setValue value] := by
  have hfind := findIdx?_last hfront hown
  rw [← htags] at hfind
  have hget : tags.toList[front.length]? = some own := by rw [htags]; simp
  simp only [setGlobalTag, hfind, hget]
  show tags.toList.set front.length (own.setValue value) = _
  rw [htags, List.set_append_right _ _ (Nat.le_refl _), Nat.sub_self, List.set_cons_zero]

theorem removeGlobalTag_last (htags : tags.toList = front ++ [own])
    (hfront : ∀ tag ∈ front, tag.hasKey key = false) (hown : own.hasKey key = true) :
    (removeGlobalTag tags (some key)).toList = front := by
  have hfind := findIdx?_last hfront hown
  rw [← htags] at hfind
  simp only [removeGlobalTag, hfind]
  exact FixedVector.swapRemove_last htags

end

/-! ### What a key should address -/

namespace LogContext

variable {θ : Type} [DecidableEq θ]

/-- The global tags that bear the stored form of `key`. -/
def tagsOf (c : LogContext L θ) (key : CStr) : List (LogTag L) :=
  c.globalTags.toList.filter fun tag => tag.key.cstr = LogTag.storedKey L key

/-- `c` after `SetGlobalTag(key, v₁)` and `SetGlobalTag(key, v₂)`. -/
def setTwice (c : LogContext L θ) (key v₁ v₂ : CStr) : LogContext L θ :=
  (c.call (.setGlobalTag (some key) (some v₁))).call (.setGlobalTag (some key) (some v₂))

/-- Two updates leave one tag, with the second value; a removal leaves none; and
a scoped tag pushed and popped leaves the thread's list as it was. -/
structure Addresses (c : LogContext L θ) (thread : θ) (key v₁ v₂ : CStr) : Prop where
  update : ∃ tag, (c.setTwice key v₁ v₂).tagsOf key = [tag] ∧ tag.value.cstr = LogTag.storedValue L v₂
  remove : ((c.setTwice key v₁ v₂).call (.removeGlobalTag (some key))).tagsOf key = []
  scope : (((c.call (.pushScopedTag thread (some key) (some v₁))).call
    (.popScopedTag thread (some key))).tlsTags thread).toList = (c.tlsTags thread).toList

/-- Room for two more global tags and two more of the thread's, none of which
bears the stored form of `key`. -/
structure Fresh (c : LogContext L θ) (thread : θ) (key : CStr) : Prop where
  globalRoom : c.globalTags.size + 2 ≤ 16
  scopedRoom : (c.tlsTags thread).size + 2 ≤ L.maxTags
  globalTags : ∀ tag ∈ c.globalTags.toList, tag.key.cstr ≠ LogTag.storedKey L key
  scopedTags : ∀ tag ∈ (c.tlsTags thread).toList, tag.key.cstr ≠ LogTag.storedKey L key

section
variable {c : LogContext L θ} {thread : θ} {key : CStr}

omit [DecidableEq θ] in
theorem Fresh.tagsOf (h : c.Fresh thread key) : c.tagsOf key = [] := by
  rw [LogContext.tagsOf, List.filter_eq_nil_iff]
  intro tag htag
  simpa using h.globalTags tag htag

theorem scope_tlsTags (thread : θ) (value : CStr) :
    ((c.call (.pushScopedTag thread (some key) (some value))).call
      (.popScopedTag thread (some key))).tlsTags thread =
      popScopedTag (pushScopedTag (c.tlsTags thread) (some key) (some value)) (some key) := by
  simp [call]

/-- **A key that fits addresses its tag.** -/
theorem Fresh.addresses (h : c.Fresh thread key) (hshort : key.bytes.length < L.maxTagKeyLen)
    (v₁ v₂ : CStr) : c.Addresses thread key v₁ v₂ := by
  have hother : ∀ tag ∈ c.globalTags.toList, tag.hasKey key = false := by
    intro tag htag
    rw [Bool.eq_false_iff, Ne, LogTag.hasKey_short hshort]
    exact h.globalTags tag htag
  have hroom := h.globalRoom
  have hset := setGlobalTag_absent hother (by omega) v₁
  have hown : ∀ tag : LogTag L, tag.key.cstr = LogTag.storedKey L key → tag.hasKey key = true :=
    fun tag htag => (LogTag.hasKey_short hshort tag).mpr htag
  have htwice := setGlobalTag_last hset hother (hown _ (LogTag.make_key key v₁)) v₂
  have hremove := removeGlobalTag_last htwice hother (hown _ (LogTag.make_key key v₁))
  refine ⟨⟨(LogTag.make L key v₁).setValue v₂, ?_, LogTag.setValue_value _ _⟩, ?_, ?_⟩
  · have hlist : (c.setTwice key v₁ v₂).globalTags.toList = _ := htwice
    have hnone := h.tagsOf
    rw [LogContext.tagsOf] at hnone ⊢
    rw [hlist, List.filter_append, hnone, List.nil_append, List.filter_cons_of_pos]
    · rfl
    · have hkey : ((LogTag.make L key v₁).setValue v₂).key.cstr = LogTag.storedKey L key :=
        LogTag.make_key key v₁
      simpa using hkey
  · have hlist : ((c.setTwice key v₁ v₂).call (.removeGlobalTag (some key))).globalTags.toList = _ :=
      hremove
    rw [LogContext.tagsOf, hlist]
    exact h.tagsOf
  · have hscoped := h.scopedRoom
    rw [scope_tlsTags]
    exact congrArg _ (ScopedTag.destruct_construct ⟨key, v₁, hshort⟩ (by omega))

/-- **A key that does not fit leaves two tags behind** two `SetGlobalTag` calls. -/
theorem Fresh.tagsOf_setTwice_long (h : c.Fresh thread key) (hlong : L.maxTagKeyLen ≤ key.bytes.length)
    (hterm : c.TagsTerminated) (v₁ v₂ : CStr) :
    (c.setTwice key v₁ v₂).tagsOf key = [.make L key v₁, .make L key v₂] := by
  have hroom := h.globalRoom
  have hother : ∀ tag ∈ c.globalTags.toList, tag.hasKey key = false :=
    fun tag htag => LogTag.not_hasKey_long hlong (hterm.1 tag htag)
  have hset := setGlobalTag_absent hother (by omega) v₁
  have hother' : ∀ tag ∈ (setGlobalTag c.globalTags (some key) (some v₁)).toList,
      tag.hasKey key = false :=
    fun tag htag => LogTag.not_hasKey_long hlong ((hterm.call (.setGlobalTag (some key) (some v₁))).1 tag htag)
  have hsize : (setGlobalTag c.globalTags (some key) (some v₁)).size = c.globalTags.size + 1 := by
    rw [FixedVector.size, hset, List.length_append]
    rfl
  have htwice := setGlobalTag_absent hother' (by omega) v₂
  have hlist : (c.setTwice key v₁ v₂).globalTags.toList = _ := htwice
  have hnone := h.tagsOf
  rw [LogContext.tagsOf] at hnone ⊢
  rw [hlist, hset, List.filter_append, List.filter_append, hnone, List.nil_append,
    List.filter_cons_of_pos (by simpa using LogTag.make_key key v₁),
    List.filter_cons_of_pos (by simpa using LogTag.make_key key v₂)]
  rfl

/-- **In every reachable context with room, a fresh key addresses its tags exactly
when it is shorter than `BR_LOG_MAX_TAG_KEY_LEN`.** -/
theorem addresses_iff_short (hc : (contextMachine L θ).Reachable c) (h : c.Fresh thread key)
    (v₁ v₂ : CStr) :
    c.Addresses thread key v₁ v₂ ↔ key.bytes.length < L.maxTagKeyLen := by
  constructor
  · rintro ⟨⟨tag, htags, -⟩, -, -⟩
    by_contra hlong
    rw [h.tagsOf_setTwice_long (by omega) (tagsTerminated_of_reachable hc)] at htags
    cases htags
  · exact fun hshort => h.addresses hshort v₁ v₂

end

/-! ### A key of 32 bytes -/

omit [DecidableEq θ] in
theorem fresh_create (thread : θ) (key : CStr) (hL : 2 ≤ L.maxTags) :
    (create L θ).Fresh thread key :=
  ⟨show 0 + 2 ≤ 16 by decide, show 0 + 2 ≤ L.maxTags by omega, nofun, nofun⟩

/-- As many bytes as a desktop build's `LogTag::key` has. -/
def key32 : CStr := ⟨List.replicate 32 107, by decide⟩

def value1 : CStr := ⟨ascii "v1", by decide⟩

def value2 : CStr := ⟨ascii "v2", by decide⟩

theorem addresses_iff_short_key32 :
    (create Limits.desktop Unit).Addresses () key32 value1 value2 ↔ 32 < 32 :=
  addresses_iff_short (.init rfl) (fresh_create () key32 (by decide)) value1 value2

/-- Setting a 32-byte key twice in a fresh context leaves two tags with one stored key. -/
theorem not_addresses_key32 : ¬ (create Limits.desktop Unit).Addresses () key32 value1 value2 := by
  rintro ⟨⟨tag, htags, -⟩, -, -⟩
  have hlen : (((create Limits.desktop Unit).setTwice key32 value1 value2).tagsOf key32).length = 1 :=
    congrArg List.length htags
  revert hlen
  decide

end LogContext

end BrLogger
