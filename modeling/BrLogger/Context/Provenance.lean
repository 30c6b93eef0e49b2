import BrLogger.Context.FillTags

/-!
# Where the strings of an entry come from

Every string the context stores is cut out of one a caller passed
(`CharArray.assign_spec`), and no call stores anything else: an update keeps
the key, a removal moves a whole tag.  So after any calls the tags of a thread
and its name are traced back to the calls (`Traced`), and an entry filled from
them carries terminated strings, each the longest prefix that fits of a string
some call passed (`filled_strings`).  The formatters' `strlen` relies on it.
-/

namespace BrLogger

variable {L : Limits}

/-- `s` is the longest prefix of `whole` that a `char[n]` holds with its NUL. -/
def LongestFitting (n : Nat) (whole : CStr) (s : List Byte) : Prop :=
  s <+: whole.bytes ∧ s.length < n ∧ ∀ t, t <+: whole.bytes → t.length < n → t.length ≤ s.length

theorem longestFitting_take {n : Nat} (hn : 0 < n) (whole : CStr) :
    LongestFitting n whole (whole.bytes.take (n - 1)) := by
  refine ⟨List.take_prefix _ _, by rw [List.length_take]; omega, ?_⟩
  intro t ht hlt
  have := ht.length_le
  rw [List.length_take]
  omega

/-- There is one such prefix. -/
theorem LongestFitting.eq_take {n : Nat} {whole : CStr} {s : List Byte} (h : LongestFitting n whole s) :
    s = whole.bytes.take (n - 1) := by
  obtain ⟨hpre, hlt, hlongest⟩ := h
  have hfits := hlongest _ (List.take_prefix (n - 1) whole.bytes) (by rw [List.length_take]; omega)
  have hle := hpre.length_le
  rw [List.length_take] at hfits
  calc
    s = whole.bytes.take s.length := List.prefix_iff_eq_take.mp hpre
    _ = whole.bytes.take (n - 1) := by
      rw [List.take_eq_take_iff]
      omega

/-- Both strings of the tag are terminated and cut out of given ones. -/
structure LogTag.CutFrom (given : List (CStr × CStr)) (tag : LogTag L) : Prop where
  terminated : tag.Terminated
  key : ∃ strings ∈ given, LongestFitting L.maxTagKeyLen strings.1 tag.key.cstr
  value : ∃ strings ∈ given, LongestFitting L.maxTagValLen strings.2 tag.value.cstr

namespace LogTag

variable {given more : List (CStr × CStr)} {tag : LogTag L}

theorem CutFrom.mono (h : tag.CutFrom given) (hsub : given ⊆ more) : tag.CutFrom more := by
  obtain ⟨key, hkey, hcut⟩ := h.key
  obtain ⟨value, hvalue, hcut'⟩ := h.value
  exact ⟨h.terminated, ⟨key, hsub hkey, hcut⟩, ⟨value, hsub hvalue, hcut'⟩⟩

theorem cutFrom_make {key value : CStr} (h : (key, value) ∈ given) : (make L key value).CutFrom given := by
  refine ⟨make_terminated key value, ⟨_, h, ?_⟩, ⟨_, h, ?_⟩⟩
  · rw [make_key]
    exact longestFitting_take L.maxTagKeyLen_pos key
  · rw [make, (CharArray.assign_spec L.maxTagValLen_pos _ _).1]
    exact longestFitting_take L.maxTagValLen_pos value

/-- An update brings its own value and keeps the key. -/
theorem CutFrom.setValue {key value : CStr} (h : tag.CutFrom given) (hgiven : (key, value) ∈ given) :
    (tag.setValue value).CutFrom given := by
  refine ⟨h.terminated.setValue value, h.key, ⟨_, hgiven, ?_⟩⟩
  rw [setValue_value]
  exact longestFitting_take L.maxTagValLen_pos value

end LogTag

section
variable {θ : Type}

/-- The key and value a call passes for the global tags. -/
def ContextCall.globalStrings : ContextCall θ → Option (CStr × CStr)
  | .setGlobalTag (some key) (some value) => some (key, value)
  | _ => none

variable [DecidableEq θ]

/-- The key and value a call passes for the thread's own tags. -/
def ContextCall.scopedStrings (thread : θ) : ContextCall θ → Option (CStr × CStr)
  | .pushScopedTag caller (some key) (some value) => if caller = thread then some (key, value) else none
  | _ => none

/-- The name a call passes for the thread. -/
def ContextCall.threadName (thread : θ) : ContextCall θ → Option CStr
  | .setThreadName caller (some name) => if caller = thread then some name else none
  | _ => none

/-- A thread's name array after these names were passed for it: the last one, or empty. -/
def IsNamed (names : List CStr) (name : CharArray 32) : Prop :=
  name.Terminated ∧
    match names.getLast? with
    | none => name.cstr = []
    | some passed => LongestFitting 32 passed name.cstr

namespace LogContext

/-- Everything stored was passed by one of the calls. -/
structure Traced (calls : List (ContextCall θ)) (c : LogContext L θ) : Prop where
  globalTags : ∀ tag ∈ c.globalTags.toList, tag.CutFrom (calls.filterMap ContextCall.globalStrings)
  tlsTags : ∀ thread, ∀ tag ∈ (c.tlsTags thread).toList,
    tag.CutFrom (calls.filterMap (ContextCall.scopedStrings thread))
  tlsThreadName : ∀ thread, IsNamed (calls.filterMap (ContextCall.threadName thread)) (c.tlsThreadName thread)

theorem traced_create : (create L θ).Traced [] := by
  refine ⟨nofun, nofun, ?_⟩
  intro thread
  exact ⟨(by decide : (CharArray.zero 32).Terminated), (by decide : (CharArray.zero 32).cstr = [])⟩

/-! ### One call -/

section
variable {calls : List (ContextCall θ)} {c : LogContext L θ}

omit [DecidableEq θ] in
theorem filterMap_subset {β : Type} (f : ContextCall θ → Option β) (calls : List (ContextCall θ)) (a : ContextCall θ) :
    calls.filterMap f ⊆ (calls ++ [a]).filterMap f := by
  rw [List.filterMap_append]
  exact List.subset_append_left _ _

omit [DecidableEq θ] in
theorem mem_filterMap_last {β : Type} {f : ContextCall θ → Option β} {calls : List (ContextCall θ)}
    {a : ContextCall θ} {b : β} (h : f a = some b) : b ∈ (calls ++ [a]).filterMap f :=
  List.mem_filterMap.mpr ⟨a, List.mem_append_right _ (List.mem_singleton_self a), h⟩

theorem Traced.globalTags_call (h : c.Traced calls) (a : ContextCall θ) :
    ∀ tag ∈ (c.call a).globalTags.toList, tag.CutFrom ((calls ++ [a]).filterMap ContextCall.globalStrings) := by
  have hold : ∀ tag ∈ c.globalTags.toList, tag.CutFrom ((calls ++ [a]).filterMap ContextCall.globalStrings) :=
    fun tag htag => (h.globalTags tag htag).mono (filterMap_subset _ _ _)
  cases a with
  | setGlobalTag key value =>
    refine setGlobalTag_forall hold ?_ ?_
    · rintro key rfl value rfl
      exact LogTag.cutFrom_make (mem_filterMap_last rfl)
    · rintro key rfl value rfl tag htag
      exact htag.setValue (mem_filterMap_last rfl)
  | removeGlobalTag key => exact fun tag htag => hold tag (removeGlobalTag_subset _ _ htag)
  | pushScopedTag caller key value => exact hold
  | popScopedTag caller key => exact hold
  | setThreadName caller name => cases name <;> exact hold

theorem Traced.tlsTags_call (h : c.Traced calls) (a : ContextCall θ) (thread : θ) :
    ∀ tag ∈ ((c.call a).tlsTags thread).toList,
      tag.CutFrom ((calls ++ [a]).filterMap (ContextCall.scopedStrings thread)) := by
  have hold : ∀ tag ∈ (c.tlsTags thread).toList,
      tag.CutFrom ((calls ++ [a]).filterMap (ContextCall.scopedStrings thread)) :=
    fun tag htag => (h.tlsTags thread tag htag).mono (filterMap_subset _ _ _)
  cases a with
  | setGlobalTag key value => exact hold
  | removeGlobalTag key => exact hold
  | pushScopedTag caller key value =>
    simp only [call, Function.update_apply]
    by_cases hcaller : thread = caller
    · subst hcaller
      rw [if_pos rfl]
      refine pushScopedTag_forall hold ?_
      rintro key rfl value rfl
      exact LogTag.cutFrom_make (mem_filterMap_last (if_pos rfl))
    · rw [if_neg hcaller]
      exact hold
  | popScopedTag caller key =>
    simp only [call, Function.update_apply]
    by_cases hcaller : thread = caller
    · subst hcaller
      rw [if_pos rfl]
      exact fun tag htag => hold tag (popScopedTag_subset _ _ htag)
    · rw [if_neg hcaller]
      exact hold
  | setThreadName caller name => cases name <;> exact hold

theorem isNamed_assign (names : List CStr) (old : CharArray 32) (name : CStr) :
    IsNamed (names ++ [name]) (old.assign name) := by
  obtain ⟨hcstr, hterm⟩ := CharArray.assign_spec (by decide : 0 < 32) old name
  refine ⟨hterm, ?_⟩
  rw [List.getLast?_concat]
  show LongestFitting 32 name _
  rw [hcstr]
  exact longestFitting_take (by decide) name

theorem Traced.tlsThreadName_call (h : c.Traced calls) (a : ContextCall θ) (thread : θ) :
    IsNamed ((calls ++ [a]).filterMap (ContextCall.threadName thread)) ((c.call a).tlsThreadName thread) := by
  have hold := h.tlsThreadName thread
  have hother : ContextCall.threadName thread a = none →
      (calls ++ [a]).filterMap (ContextCall.threadName thread) = calls.filterMap (ContextCall.threadName thread) := by
    intro ha
    rw [List.filterMap_append, List.filterMap_cons_none ha, List.filterMap_nil, List.append_nil]
  cases a with
  | setGlobalTag key value =>
    rw [hother rfl]
    exact hold
  | removeGlobalTag key =>
    rw [hother rfl]
    exact hold
  | pushScopedTag caller key value =>
    rw [hother rfl]
    exact hold
  | popScopedTag caller key =>
    rw [hother rfl]
    exact hold
  | setThreadName caller name =>
    cases name with
    | none =>
      rw [hother rfl]
      exact hold
    | some name =>
      simp only [call, setThreadName, Function.update_apply]
      by_cases hcaller : thread = caller
      · subst hcaller
        have hname : ContextCall.threadName thread (.setThreadName thread (some name)) = some name := if_pos rfl
        rw [if_pos rfl, List.filterMap_append, List.filterMap_cons_some hname, List.filterMap_nil]
        exact isNamed_assign _ _ name
      · rw [if_neg hcaller, hother (if_neg (Ne.symm hcaller))]
        exact hold

theorem Traced.call (h : c.Traced calls) (a : ContextCall θ) : (c.call a).Traced (calls ++ [a]) :=
  ⟨h.globalTags_call a, h.tlsTags_call a, h.tlsThreadName_call a⟩

end

/-! ### All calls -/

theorem traced_calls (calls : List (ContextCall θ)) : (calls.foldl call (create L θ)).Traced calls := by
  induction calls using List.reverseRecOn with
  | nil => exact traced_create
  | append_singleton calls a ih =>
    rw [List.foldl_concat]
    exact ih.call a

omit [DecidableEq θ] in
theorem tagCount_fillTags_le (hL : L.maxTags < 256) (c : LogContext L θ) (thread : θ) (entry : LogEntry L) :
    (c.fillTags thread entry).tagCount.toNat ≤ L.maxTags := by
  have hglobal := (fillLoop_spec c.globalTags.toList entry 0 (Nat.zero_le _)).1
  have hscoped := (fillLoop_spec (c.tlsTags thread).toList (fillLoop entry 0 c.globalTags.toList).1
    (fillLoop entry 0 c.globalTags.toList).2 (by omega)).1
  have hcount : (c.fillTags thread entry).tagCount.toNat = _ % 256 := UInt8.toNat_ofNat
  rw [hcount, Nat.mod_eq_of_lt (by omega), hscoped]
  exact Nat.min_le_right _ _

/-- **Every string of a filled entry is terminated and cut out of one a call passed.**
The thread's name is the one it passed last, or empty; `FillTags` runs after
`FillThreadInfo`, and other threads may have made further calls in between. -/
theorem filled_strings (hL : L.maxTags < 256) (calls more : List (ContextCall θ)) (os : Process θ) (thread : θ)
    (entry : LogEntry L) :
    let filled := ((calls ++ more).foldl call (create L θ)).fillTags thread
      ((calls.foldl call (create L θ)).fillThreadInfo os thread entry)
    filled.tagCount.toNat ≤ L.maxTags ∧
      IsNamed (calls.filterMap (ContextCall.threadName thread)) filled.threadName ∧
      ∀ tag ∈ filled.tags.toList.take filled.tagCount.toNat,
        tag.CutFrom ((calls ++ more).filterMap fun a => a.globalStrings.or (a.scopedStrings thread)) := by
  intro filled
  have hcalls := traced_calls (L := L) calls
  have hmore := traced_calls (L := L) (calls ++ more)
  refine ⟨tagCount_fillTags_le hL _ _ _, ?_, ?_⟩
  · obtain ⟨tags, count, hfill⟩ := ((calls ++ more).foldl call (create L θ)).fillTags_frame thread
      ((calls.foldl call (create L θ)).fillThreadInfo os thread entry)
    rw [show filled = _ from hfill]
    exact hcalls.tlsThreadName thread
  · intro tag htag
    have hused : filled.tags.toList.take filled.tagCount.toNat = _ := usedTags_fillTags hL _ _ _
    rw [hused] at htag
    rcases List.mem_append.mp (List.mem_of_mem_take htag) with htag | htag
    · refine (hmore.globalTags tag htag).mono ?_
      intro strings hmem
      obtain ⟨a, ha, hstrings⟩ := List.mem_filterMap.mp hmem
      exact List.mem_filterMap.mpr ⟨a, ha, by rw [hstrings]; rfl⟩
    · refine (hmore.tlsTags thread tag htag).mono ?_
      intro strings hmem
      obtain ⟨a, ha, hstrings⟩ := List.mem_filterMap.mp hmem
      refine List.mem_filterMap.mpr ⟨a, ha, ?_⟩
      cases a with
      | pushScopedTag caller key value => exact hstrings
      | setGlobalTag key value => cases hstrings
      | removeGlobalTag key => cases hstrings
      | popScopedTag caller key => cases hstrings
      | setThreadName caller name => cases hstrings

/-- A tag whose value is cut, and a thread whose name is. -/
def longValue : List (ContextCall Unit) :=
  [.setGlobalTag (some keyK) (some ⟨List.replicate 100 118, by decide⟩),
    .setThreadName () (some ⟨List.replicate 40 119, by decide⟩)]

def longFilled : LogEntry Limits.desktop :=
  (longValue.foldl call (create Limits.desktop Unit)).fillTags ()
    ((longValue.foldl call (create Limits.desktop Unit)).fillThreadInfo ⟨1, fun _ => 1⟩ () (.zero _))

theorem filled_strings_longValue :
    longFilled.tagCount.toNat ≤ Limits.desktop.maxTags ∧ longFilled.tagCount = 1 ∧
      longFilled.threadName.cstr = List.replicate 31 119 ∧
      ∀ tag ∈ longFilled.tags.toList.take longFilled.tagCount.toNat,
        tag.key.cstr = ascii "k" ∧ tag.value.cstr = List.replicate 63 118 := by
  obtain ⟨hcount, ⟨-, hname⟩, htags⟩ :=
    filled_strings (by decide) longValue [] ⟨1, fun _ => 1⟩ () (.zero Limits.desktop)
  refine ⟨hcount, by decide +kernel, LongestFitting.eq_take hname, fun tag htag => ?_⟩
  obtain ⟨strings, hmem, hkey⟩ := (htags tag htag).key
  obtain ⟨strings', hmem', hvalue⟩ := (htags tag htag).value
  obtain rfl := List.mem_singleton.mp hmem
  obtain rfl := List.mem_singleton.mp hmem'
  exact ⟨hkey.eq_take, hvalue.eq_take⟩

end LogContext

end

end BrLogger
