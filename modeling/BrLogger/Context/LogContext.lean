import BrLogger.Context.FixedVector
import BrLogger.Lib.Machine
import BrLogger.LogEntry
import Mathlib.Logic.Function.Basic

/-!
# `LogContext`: global tags, scoped tags and thread names

`log_context.cpp`.  The global store is behind a mutex and the scoped tags and
the thread name are thread local, so a call is one step of the state whatever
the threads' order (`contextMachine`).

A key is stored cut to `BR_LOG_MAX_TAG_KEY_LEN - 1` bytes (`LogTag.make_key`)
but compared over `BR_LOG_MAX_TAG_KEY_LEN` bytes, uncut (`LogTag.hasKey_iff`).
The two agree on keys that fit (`LogTag.hasKey_short`); a terminated tag never
has a longer key (`LogTag.not_hasKey_long`).
-/

namespace BrLogger

variable {L : Limits}

namespace LogTag

/-- The tag `SetGlobalTag` and `PushScopedTag` build. -/
def make (L : Limits) (key value : CStr) : LogTag L :=
  ⟨(zero L).key.assign key, (zero L).value.assign value⟩

/-- `strncmp(tag.key, key, BR_LOG_MAX_TAG_KEY_LEN) == 0`. -/
def hasKey (key : CStr) (tag : LogTag L) : Bool :=
  strncmp L.maxTagKeyLen tag.key.bytes key.bytes == 0

def setValue (tag : LogTag L) (value : CStr) : LogTag L := { tag with value := tag.value.assign value }

/-- Both strings end inside their arrays. -/
def Terminated (tag : LogTag L) : Prop := tag.key.Terminated ∧ tag.value.Terminated

/-- What is stored of a key, or compared equal to it once stored. -/
def storedKey (L : Limits) (key : CStr) : List Byte := key.bytes.take (L.maxTagKeyLen - 1)

def storedValue (L : Limits) (value : CStr) : List Byte := value.bytes.take (L.maxTagValLen - 1)

theorem make_key (key value : CStr) : (make L key value).key.cstr = storedKey L key :=
  (CharArray.assign_spec L.maxTagKeyLen_pos _ _).1

theorem make_terminated (key value : CStr) : (make L key value).Terminated :=
  ⟨(CharArray.assign_spec L.maxTagKeyLen_pos _ _).2, (CharArray.assign_spec L.maxTagValLen_pos _ _).2⟩

theorem setValue_value (tag : LogTag L) (value : CStr) :
    (tag.setValue value).value.cstr = storedValue L value :=
  (CharArray.assign_spec L.maxTagValLen_pos _ _).1

theorem Terminated.setValue {tag : LogTag L} (h : tag.Terminated) (value : CStr) :
    (tag.setValue value).Terminated :=
  ⟨h.1, (CharArray.assign_spec L.maxTagValLen_pos _ _).2⟩

theorem hasKey_iff (key : CStr) (tag : LogTag L) :
    tag.hasKey key = true ↔ tag.key.cstr = key.bytes.take L.maxTagKeyLen := by
  rw [hasKey, beq_iff_eq, CharArray.strncmp_bytes_iff]

theorem storedKey_short {key : CStr} (h : key.bytes.length < L.maxTagKeyLen) :
    storedKey L key = key.bytes := List.take_of_length_le (by omega)

/-- A key that fits is compared with the string stored of it. -/
theorem hasKey_short {key : CStr} (h : key.bytes.length < L.maxTagKeyLen) (tag : LogTag L) :
    tag.hasKey key = true ↔ tag.key.cstr = storedKey L key := by
  rw [hasKey_iff, storedKey_short h, List.take_of_length_le (by omega)]

theorem hasKey_make {key : CStr} (h : key.bytes.length < L.maxTagKeyLen) (value : CStr) :
    (make L key value).hasKey key = true := by
  rw [hasKey_short h, make_key]

/-- **A key that does not fit matches no terminated tag**, its own included. -/
theorem not_hasKey_long {key : CStr} (h : L.maxTagKeyLen ≤ key.bytes.length) {tag : LogTag L}
    (ht : tag.Terminated) : tag.hasKey key = false := by
  rw [Bool.eq_false_iff, Ne, hasKey_iff]
  intro he
  have hlen := congrArg List.length he
  rw [List.length_take, Nat.min_eq_left h] at hlen
  have := ht.1.length_cstr_lt
  omega

end LogTag

/-! ### The stores -/

abbrev GlobalTags (L : Limits) := FixedVector (LogTag L) 16

abbrev ScopedTags (L : Limits) := FixedVector (LogTag L) L.maxTags

/-- `SetGlobalTag` under its lock: update the first tag with this key, or add one. -/
def setGlobalTag (tags : GlobalTags L) : Option CStr → Option CStr → GlobalTags L
  | some key, some value =>
    match tags.toList.findIdx? (LogTag.hasKey key) with
    | some i =>
      match tags.toList[i]? with
      | some tag => tags.set i (tag.setValue value)
      | none => tags
    | none => (tags.pushBack (.make L key value)).1
  | _, _ => tags

def removeGlobalTag (tags : GlobalTags L) : Option CStr → GlobalTags L
  | some key =>
    match tags.toList.findIdx? (LogTag.hasKey key) with
    | some i => tags.swapRemove i
    | none => tags
  | none => tags

/-- `PushScopedTag`, which drops the tag when the thread's store is full. -/
def pushScopedTag (tags : ScopedTags L) : Option CStr → Option CStr → ScopedTags L
  | some key, some value => (tags.pushBack (.make L key value)).1
  | _, _ => tags

def popScopedTag (tags : ScopedTags L) : Option CStr → ScopedTags L
  | some key =>
    match lastIndex (LogTag.hasKey key) tags.toList tags.size with
    | some i => tags.swapRemove i
    | none => tags
  | none => tags

/-- `global_tags_` and every thread's `tls_tags_` and `tls_thread_name_`. -/
structure LogContext (L : Limits) (θ : Type) where
  globalTags : GlobalTags L
  tlsTags : θ → ScopedTags L
  tlsThreadName : θ → CharArray 32

inductive ContextCall (θ : Type)
  | setGlobalTag (key value : Option CStr)
  | removeGlobalTag (key : Option CStr)
  | pushScopedTag (thread : θ) (key value : Option CStr)
  | popScopedTag (thread : θ) (key : Option CStr)
  | setThreadName (thread : θ) (name : Option CStr)

namespace LogContext

variable {θ : Type}

def create (L : Limits) (θ : Type) : LogContext L θ where
  globalTags := .nil
  tlsTags _ := .nil
  tlsThreadName _ := .zero _

variable [DecidableEq θ]

def setThreadName (c : LogContext L θ) (thread : θ) : Option CStr → LogContext L θ
  | some name =>
    { c with tlsThreadName :=
        Function.update c.tlsThreadName thread ((c.tlsThreadName thread).assign name) }
  | none => c

def call (c : LogContext L θ) : ContextCall θ → LogContext L θ
  | .setGlobalTag key value => { c with globalTags := BrLogger.setGlobalTag c.globalTags key value }
  | .removeGlobalTag key => { c with globalTags := BrLogger.removeGlobalTag c.globalTags key }
  | .pushScopedTag thread key value =>
    { c with tlsTags :=
        Function.update c.tlsTags thread (BrLogger.pushScopedTag (c.tlsTags thread) key value) }
  | .popScopedTag thread key =>
    { c with tlsTags := Function.update c.tlsTags thread (BrLogger.popScopedTag (c.tlsTags thread) key) }
  | .setThreadName thread name => c.setThreadName thread name

end LogContext

/-- Any sequence of calls, from any threads. -/
def contextMachine (L : Limits) (θ : Type) [DecidableEq θ] : Machine (LogContext L θ) (ContextCall θ) where
  init c := c = .create L θ
  step c a := some (c.call a)

/-! ### Entries -/

/-- What the operating system says of the process and its threads. -/
structure Process (θ : Type) where
  processId : UInt32
  threadId : θ → UInt32

namespace LogContext

variable {θ : Type}

/-- One of `FillTags`' two loops: copy tags while the entry has room. -/
def fillLoop (entry : LogEntry L) (count : Nat) : List (LogTag L) → LogEntry L × Nat
  | [] => (entry, count)
  | tag :: tags =>
    if L.maxTags ≤ count then (entry, count)
    else fillLoop { entry with tags := entry.tags.setIfInBounds count tag } (count + 1) tags

def fillTags (c : LogContext L θ) (thread : θ) (entry : LogEntry L) : LogEntry L :=
  let (entry, count) := fillLoop entry 0 c.globalTags.toList
  let (entry, count) := fillLoop entry count (c.tlsTags thread).toList
  { entry with tagCount := UInt8.ofNat count }

/-- Filling changes nothing but the tags. -/
theorem fillLoop_frame (entry : LogEntry L) (count : Nat) (tags : List (LogTag L)) :
    ∃ filled, (fillLoop entry count tags).1 = { entry with tags := filled } := by
  induction tags generalizing entry count with
  | nil => exact ⟨entry.tags, rfl⟩
  | cons tag tags ih =>
    rw [fillLoop]
    split
    · exact ⟨entry.tags, rfl⟩
    · obtain ⟨filled, h⟩ := ih { entry with tags := entry.tags.setIfInBounds count tag } (count + 1)
      exact ⟨filled, h⟩

theorem fillTags_frame (c : LogContext L θ) (thread : θ) (entry : LogEntry L) :
    ∃ filled count, c.fillTags thread entry = { entry with tags := filled, tagCount := count } := by
  obtain ⟨global, hglobal⟩ := fillLoop_frame entry 0 c.globalTags.toList
  obtain ⟨filled, hfilled⟩ := fillLoop_frame (fillLoop entry 0 c.globalTags.toList).1
    (fillLoop entry 0 c.globalTags.toList).2 (c.tlsTags thread).toList
  refine ⟨filled, (c.fillTags thread entry).tagCount, ?_⟩
  rw [hglobal] at hfilled
  simp only [fillTags, hglobal, hfilled]

theorem fillTags_sequenceId (c : LogContext L θ) (thread : θ) (entry : LogEntry L) :
    (c.fillTags thread entry).sequenceId = entry.sequenceId := by
  obtain ⟨filled, count, h⟩ := c.fillTags_frame thread entry
  rw [h]

def fillThreadInfo (c : LogContext L θ) (os : Process θ) (thread : θ) (entry : LogEntry L) :
    LogEntry L :=
  { entry with
    processId := os.processId
    threadId := os.threadId thread
    threadName := c.tlsThreadName thread }

end LogContext

/-! ### What holds of every stored tag

A store holds tags that were built or updated by a call, so a property of its
tags is kept when the built and the updated tag have it. -/

section
variable {P : LogTag L → Prop}

theorem setGlobalTag_forall {tags : GlobalTags L} {key value : Option CStr} (h : ∀ tag ∈ tags.toList, P tag)
    (hmake : ∀ k ∈ key, ∀ v ∈ value, P (.make L k v))
    (hset : ∀ k ∈ key, ∀ v ∈ value, ∀ tag, P tag → P (tag.setValue v)) :
    ∀ tag ∈ (setGlobalTag tags key value).toList, P tag := by
  intro tag htag
  unfold setGlobalTag at htag
  split at htag
  · rename_i key value
    split at htag
    · rename_i i hi
      split at htag
      · rename_i old hold
        rcases List.mem_or_eq_of_mem_set htag with htag | rfl
        · exact h tag htag
        · exact hset key rfl value rfl old (h old (List.mem_of_getElem? hold))
      · exact h tag htag
    · rcases FixedVector.mem_pushBack htag with htag | rfl
      · exact h tag htag
      · exact hmake key rfl value rfl
  · exact h tag htag

theorem removeGlobalTag_subset (tags : GlobalTags L) (key : Option CStr) :
    (removeGlobalTag tags key).toList ⊆ tags.toList := by
  intro tag htag
  unfold removeGlobalTag at htag
  split at htag
  · split at htag
    · rename_i i hi
      exact FixedVector.mem_swapRemove htag (List.findIdx?_eq_some_iff_findIdx_eq.mp hi).1
    · exact htag
  · exact htag

theorem pushScopedTag_forall {tags : ScopedTags L} {key value : Option CStr} (h : ∀ tag ∈ tags.toList, P tag)
    (hmake : ∀ k ∈ key, ∀ v ∈ value, P (.make L k v)) :
    ∀ tag ∈ (pushScopedTag tags key value).toList, P tag := by
  intro tag htag
  unfold pushScopedTag at htag
  split at htag
  · rename_i key value
    rcases FixedVector.mem_pushBack htag with htag | rfl
    · exact h tag htag
    · exact hmake key rfl value rfl
  · exact h tag htag

theorem popScopedTag_subset (tags : ScopedTags L) (key : Option CStr) :
    (popScopedTag tags key).toList ⊆ tags.toList := by
  intro tag htag
  unfold popScopedTag at htag
  split at htag
  · split at htag
    · rename_i i hi
      exact FixedVector.mem_swapRemove htag (lastIndex_lt hi)
    · exact htag
  · exact htag

end

namespace LogContext

variable {θ : Type}

def TagsTerminated (c : LogContext L θ) : Prop :=
  (∀ tag ∈ c.globalTags.toList, tag.Terminated) ∧
    ∀ thread, ∀ tag ∈ (c.tlsTags thread).toList, tag.Terminated

theorem TagsTerminated.update [DecidableEq θ] {c : LogContext L θ} (h : c.TagsTerminated) (thread : θ)
    {tags : ScopedTags L} (htags : ∀ tag ∈ tags.toList, tag.Terminated) :
    ({ c with tlsTags := Function.update c.tlsTags thread tags } : LogContext L θ).TagsTerminated := by
  refine ⟨h.1, fun other => ?_⟩
  by_cases he : other = thread
  · subst he
    simpa using htags
  · simpa [Function.update_of_ne he] using h.2 other

theorem TagsTerminated.call [DecidableEq θ] {c : LogContext L θ} (h : c.TagsTerminated) (a : ContextCall θ) :
    (c.call a).TagsTerminated := by
  have hmake : ∀ key value : Option CStr, ∀ k ∈ key, ∀ v ∈ value, (LogTag.make L k v).Terminated :=
    fun _ _ k _ v _ => LogTag.make_terminated k v
  cases a with
  | setGlobalTag key value =>
    exact ⟨setGlobalTag_forall h.1 (hmake key value) (fun _ _ v _ _ htag => htag.setValue v), h.2⟩
  | removeGlobalTag key => exact ⟨fun tag htag => h.1 tag (removeGlobalTag_subset _ _ htag), h.2⟩
  | pushScopedTag thread key value => exact h.update thread (pushScopedTag_forall (h.2 thread) (hmake key value))
  | popScopedTag thread key => exact h.update thread fun tag htag => h.2 thread tag (popScopedTag_subset _ _ htag)
  | setThreadName thread name => cases name <;> exact h

/-- **Every stored tag is terminated, in every reachable context.** -/
theorem tagsTerminated_of_reachable [DecidableEq θ] {c : LogContext L θ}
    (h : (contextMachine L θ).Reachable c) : c.TagsTerminated := by
  refine h.induct TagsTerminated ?_ ?_
  · rintro c rfl
    exact ⟨nofun, nofun⟩
  · intro c a c' _ ih hstep
    cases hstep
    exact ih.call a

end LogContext

end BrLogger
