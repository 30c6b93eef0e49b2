import BrLogger.Context.FillTags
import BrLogger.Formatter.JsonOutput

/-!
# The keys of the `tags` object

The global store keeps a key once (`globalTags_boundedMap`), but a scope pushes
its tag whatever keys are live, and `FillTags` puts the scoped tags behind the
global ones.  So the keys of an entry are different when the thread's logged
tags have different keys, none of them a global one (`KeysOwn`), and only then
(`nodup_keys_iff`).

The tags object has a member for each tag, so this is also when its members
have different names and a decoder, which keeps one value a name, recovers
every tag (`recoversTags_iff`).
-/

namespace BrLogger

variable {L : Limits}

def LogEntry.tagKeys (entry : LogEntry L) : List (List Byte) := entry.usedTags.map fun tag => tag.key.cstr

/-! ### What `FillTags` puts together -/

namespace LogContext

variable {θ : Type}

/-- The thread's own tags an entry has room for behind the global ones. -/
def loggedScoped (c : LogContext L θ) (thread : θ) : List (LogTag L) :=
  (c.tlsTags thread).toList.take (L.maxTags - c.globalTags.size)

/-- The thread's logged tags have different keys, and no key of a global tag. -/
def KeysOwn (c : LogContext L θ) (thread : θ) : Prop :=
  ((c.loggedScoped thread).map fun tag => tag.key.cstr).Nodup ∧
    ∀ tag ∈ c.loggedScoped thread, ∀ other ∈ c.globalTags.toList, other.key.cstr ≠ tag.key.cstr

theorem usedTags_eq_append (hL : L.maxTags < 256) (c : LogContext L θ) (thread : θ) (entry : LogEntry L) :
    (c.fillTags thread entry).usedTags = c.globalTags.toList.take L.maxTags ++ c.loggedScoped thread := by
  rw [usedTags_fillTags hL, List.take_append]
  rfl

/-- A scoped tag is logged only behind all global tags. -/
theorem take_global_of_loggedScoped {c : LogContext L θ} {thread : θ} {tag : LogTag L}
    (h : tag ∈ c.loggedScoped thread) : c.globalTags.toList.take L.maxTags = c.globalTags.toList := by
  have hroom : 0 < L.maxTags - c.globalTags.size := by
    by_contra hfull
    rw [loggedScoped, Nat.eq_zero_of_not_pos hfull, List.take_zero] at h
    cases h
  apply List.take_of_length_le
  unfold FixedVector.size at hroom
  omega

/-- The global keys are different. -/
theorem nodup_globalKeys [DecidableEq θ] {calls : List (ContextCall θ)} (hcalls : ∀ a ∈ calls, a.KeyFits L) :
    ((calls.foldl call (create L θ)).globalTags.toList.map fun tag => tag.key.cstr).Nodup := by
  have hlists := (lists_calls calls hcalls BoundedMap.lists_nil (c := create L θ)).nodupKeys
  rw [List.NodupKeys, List.keys, List.map_map] at hlists
  exact hlists

/-- **The keys of an entry are different exactly when the thread's logged tags have
keys of their own**, after any calls whose global keys fit. -/
theorem nodup_keys_iff [DecidableEq θ] (hL : L.maxTags < 256) {calls : List (ContextCall θ)}
    (hcalls : ∀ a ∈ calls, a.KeyFits L) (thread : θ) (entry : LogEntry L) :
    ((calls.foldl call (create L θ)).fillTags thread entry).tagKeys.Nodup ↔
      (calls.foldl call (create L θ)).KeysOwn thread := by
  have hglobal := nodup_globalKeys (L := L) hcalls
  generalize calls.foldl call (create L θ) = c at hglobal ⊢
  rw [LogEntry.tagKeys, usedTags_eq_append hL, List.map_append, List.nodup_append]
  refine ⟨?_, ?_⟩
  · rintro ⟨-, hscoped, hdisjoint⟩
    refine ⟨hscoped, ?_⟩
    intro tag htag other hother
    rw [take_global_of_loggedScoped htag] at hdisjoint
    exact hdisjoint _ (List.mem_map_of_mem hother) _ (List.mem_map_of_mem htag)
  · rintro ⟨hscoped, hdisjoint⟩
    refine ⟨hglobal.sublist ((List.take_sublist _ _).map _), hscoped, ?_⟩
    intro key hkey key' hkey'
    obtain ⟨other, hother, rfl⟩ := List.mem_map.mp hkey
    obtain ⟨tag, htag, rfl⟩ := List.mem_map.mp hkey'
    exact hdisjoint tag htag other (List.mem_of_mem_take hother)

end LogContext

/-! ### What a decoder recovers -/

namespace JsonFormatter

/-- The line decodes to an object whose `tags` member is an object of different
names, and has every tag's value under its key. -/
def RecoversTags (entry : LogEntry L) (line : List Byte) : Prop :=
  ∃ record tags, Json.decode line = some record ∧ record.get (ascii "tags") = some (.obj tags) ∧
    (tags.map Prod.fst).Nodup ∧
    ∀ tag ∈ entry.usedTags, (Json.Value.obj tags).get tag.key.cstr = some (.str tag.value.cstr)

variable {localtime : LocalTime} {pretty : Bool} {entry : LogEntry L} {buf : Region} {bufSize : Nat}

/-- **With room for the whole record, a decoder recovers the tags exactly when their
keys are different.** -/
theorem recoversTags_iff (h : (rendering localtime pretty entry).length < bufSize) :
    RecoversTags entry (output localtime pretty entry buf bufSize) ↔ entry.tagKeys.Nodup := by
  have hdecode : Json.decode (output localtime pretty entry buf bufSize) =
      some (.obj (entry.record localtime).members) := by
    rw [output_of_large h]
    exact ((entry.record localtime).derives_text pretty).document.decode
  have hkeys : (((entry.record localtime).tags.map fun tag => (tag.1, Json.Value.str tag.2)).map Prod.fst) =
      entry.tagKeys := by
    rw [LogEntry.record, LogEntry.tagKeys, List.map_map, List.map_map]
    rfl
  have htags : (Json.Value.obj (entry.record localtime).members).get (ascii "tags") =
      some (.obj ((entry.record localtime).tags.map fun tag => (tag.1, Json.Value.str tag.2))) := by
    apply Json.get_of_mem
    · exact (by decide : [ascii "ts", ascii "level", ascii "file", ascii "line", ascii "func", ascii "tid", ascii "pid",
        ascii "thread", ascii "seq", ascii "tags", ascii "msg"].Nodup)
    · simp [JsonRecord.members]
  refine ⟨?_, ?_⟩
  · rintro ⟨record, tags, hrecord, hget, hnodup, -⟩
    cases Option.some.inj (hdecode.symm.trans hrecord)
    rw [htags] at hget
    cases Option.some.inj hget
    rwa [hkeys] at hnodup
  · intro hnodup
    refine ⟨_, _, hdecode, htags, hkeys.symm ▸ hnodup, ?_⟩
    intro tag htag
    apply Json.get_of_mem (hkeys.symm ▸ hnodup)
    rw [LogEntry.record, List.map_map]
    exact List.mem_map_of_mem (f := fun tag : LogTag L => (tag.key.cstr, Json.Value.str tag.value.cstr)) htag

end JsonFormatter

namespace LogContext

variable {θ : Type} [DecidableEq θ]

/-- **The keys `FillTags` puts into an entry are different, and a decoder of the entry's
record recovers every tag, exactly when the thread's logged tags have different keys
that no global tag has**, after any calls whose global keys fit.  The global tags always
have different keys. -/
theorem keys_unique_iff (hL : L.maxTags < 256) (calls : List (ContextCall θ)) (hcalls : ∀ a ∈ calls, a.KeyFits L)
    (thread : θ) (entry : LogEntry L) :
    ((calls.foldl call (create L θ)).globalTags.toList.map fun tag => tag.key.cstr).Nodup ∧
      (((calls.foldl call (create L θ)).fillTags thread entry).tagKeys.Nodup ↔
        (calls.foldl call (create L θ)).KeysOwn thread) ∧
      ∀ logged : LogEntry L,
        logged.usedTags = ((calls.foldl call (create L θ)).fillTags thread entry).usedTags →
        ∀ localtime pretty buf bufSize, (JsonFormatter.rendering localtime pretty logged).length < bufSize →
          (JsonFormatter.RecoversTags logged (JsonFormatter.output localtime pretty logged buf bufSize) ↔
            (calls.foldl call (create L θ)).KeysOwn thread) := by
  refine ⟨nodup_globalKeys hcalls, nodup_keys_iff hL hcalls thread entry, ?_⟩
  intro logged hused localtime pretty buf bufSize hsize
  have hkeys : logged.tagKeys = ((calls.foldl call (create L θ)).fillTags thread entry).tagKeys := by
    rw [LogEntry.tagKeys, LogEntry.tagKeys, hused]
  rw [JsonFormatter.recoversTags_iff hsize, hkeys, nodup_keys_iff hL hcalls]

def keyCallback : CStr := ⟨ascii "ros.cb_type", by decide⟩

/-- A service called in the scope of a timer's callback. -/
def nestedCallbacks : List (ContextCall Unit) :=
  [.pushScopedTag () (some keyCallback) (some ⟨ascii "timer", by decide⟩),
    .pushScopedTag () (some keyCallback) (some ⟨ascii "service", by decide⟩)]

theorem nestedCallbacks_fit : ∀ a ∈ nestedCallbacks, a.KeyFits Limits.desktop := by
  intro a ha key hkey
  simp only [nestedCallbacks, List.mem_cons, List.not_mem_nil, or_false] at ha
  rcases ha with rfl | rfl <;> cases hkey

/-- An entry logged there. -/
def callbackEntry : LogEntry Limits.desktop :=
  (nestedCallbacks.foldl call (create Limits.desktop Unit)).fillTags () (.zero _)

theorem keys_unique_iff_nestedCallbacks :
    JsonFormatter.RecoversTags callbackEntry
        (JsonFormatter.output JsonFormatter.epoch false callbackEntry Region.zero 2048) ↔
      (nestedCallbacks.foldl call (create Limits.desktop Unit)).KeysOwn () :=
  (keys_unique_iff (by decide) nestedCallbacks nestedCallbacks_fit () (.zero _)).2.2 callbackEntry rfl
    JsonFormatter.epoch false Region.zero 2048 (by decide +kernel)

/-- **Two nested scopes of one key are logged under one name**, and a decoder loses
one of them. -/
theorem not_keys_unique_nestedCallbacks : callbackEntry.WellFormed ∧ ¬ callbackEntry.tagKeys.Nodup ∧
    ¬ JsonFormatter.RecoversTags callbackEntry
      (JsonFormatter.output JsonFormatter.epoch false callbackEntry Region.zero 2048) := by
  have htwice : ¬ callbackEntry.tagKeys.Nodup := by decide +kernel
  refine ⟨⟨by decide +kernel, by decide +kernel, by decide +kernel, by decide +kernel⟩, htwice, ?_⟩
  rw [JsonFormatter.recoversTags_iff (by decide +kernel)]
  exact htwice

end LogContext

end BrLogger
