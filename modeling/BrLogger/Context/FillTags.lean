import BrLogger.Context.GlobalMap

/-!
# The tags of an entry

`FillTags` copies the global tags and then the thread's own into an entry, and
stops when the entry is full (`fillTags_usedTags`).  The global store alone has
room for more tags than an entry, so a stored tag is sure to be logged only
while all of them together are no more than `BR_LOG_MAX_TAGS`.
-/

namespace BrLogger

variable {L : Limits}

namespace LogContext

/-- A loop fills the entry from `count` on. -/
theorem fillLoop_spec (tags : List (LogTag L)) :
    ∀ (entry : LogEntry L) (count : Nat), count ≤ L.maxTags →
      (fillLoop entry count tags).2 = min (count + tags.length) L.maxTags ∧
        (fillLoop entry count tags).1.tags.toList.take (fillLoop entry count tags).2 =
          (entry.tags.toList.take count ++ tags).take L.maxTags := by
  induction tags with
  | nil =>
    intro entry count hcount
    rw [fillLoop, List.append_nil, List.take_take, Nat.min_eq_right hcount]
    exact ⟨(Nat.min_eq_left hcount).symm, rfl⟩
  | cons tag tags ih =>
    intro entry count hcount
    have hlen : (entry.tags.toList.take count).length = count :=
      List.length_take_of_le (by rw [Vector.length_toList]; exact hcount)
    rw [fillLoop]
    by_cases hfull : L.maxTags ≤ count
    · rw [if_pos hfull]
      refine ⟨by omega, ?_⟩
      rw [List.take_append_of_le_length (by omega), List.take_take, Nat.min_eq_left hfull, Nat.le_antisymm hcount hfull]
    · rw [if_neg hfull]
      obtain ⟨hcount', htags⟩ := ih { entry with tags := entry.tags.setIfInBounds count tag } (count + 1) (by omega)
      refine ⟨by rw [hcount', List.length_cons]; omega, ?_⟩
      have hset : (entry.tags.setIfInBounds count tag).toList.take (count + 1) =
          entry.tags.toList.take count ++ [tag] := by
        have hlt : count < entry.tags.toList.length := by
          rw [Vector.length_toList]
          omega
        rw [Vector.toList_setIfInBounds, List.set_eq_take_append_cons_drop, if_pos hlt, List.append_cons]
        exact List.take_left' (by rw [List.length_append, hlen, List.length_singleton])
      rw [htags, hset, List.append_assoc, List.singleton_append]

variable {θ : Type}

/-- **An entry gets the first `BR_LOG_MAX_TAGS` of the global tags followed by the
thread's own.** -/
theorem usedTags_fillTags (hL : L.maxTags < 256) (c : LogContext L θ) (thread : θ) (entry : LogEntry L) :
    (c.fillTags thread entry).usedTags = (c.globalTags.toList ++ (c.tlsTags thread).toList).take L.maxTags := by
  have hglobal := fillLoop_spec c.globalTags.toList entry 0 (Nat.zero_le _)
  have hscoped := fillLoop_spec (c.tlsTags thread).toList (fillLoop entry 0 c.globalTags.toList).1
    (fillLoop entry 0 c.globalTags.toList).2 (by omega)
  have hcount : (UInt8.ofNat (fillLoop (fillLoop entry 0 c.globalTags.toList).1
      (fillLoop entry 0 c.globalTags.toList).2 (c.tlsTags thread).toList).2).toNat = _ :=
    Nat.mod_eq_of_lt (by omega)
  rw [LogEntry.usedTags, fillTags]
  simp only [hcount]
  rw [hscoped.2, hglobal.2, List.take_zero, List.nil_append]
  by_cases hfull : L.maxTags ≤ c.globalTags.toList.length
  · have hlen : (c.globalTags.toList.take L.maxTags).length = L.maxTags := List.length_take_of_le hfull
    rw [List.take_append_of_le_length (by omega), List.take_append_of_le_length hfull, List.take_take, Nat.min_self]
  · rw [List.take_of_length_le (by omega : c.globalTags.toList.length ≤ L.maxTags)]

/-- Every stored tag the thread sees is among the first `tag_count` of the entry. -/
def LogsAll (c : LogContext L θ) (thread : θ) (entry : LogEntry L) : Prop :=
  ∀ tag, tag ∈ c.globalTags.toList ∨ tag ∈ (c.tlsTags thread).toList → tag ∈ (c.fillTags thread entry).usedTags

/-- **Every stored tag is logged while there are no more than `BR_LOG_MAX_TAGS`**; in
any case the first so many are. -/
theorem fillTags_logs (hL : L.maxTags < 256) (c : LogContext L θ) (thread : θ) (entry : LogEntry L) :
    (c.fillTags thread entry).usedTags = (c.globalTags.toList ++ (c.tlsTags thread).toList).take L.maxTags ∧
      (c.globalTags.size + (c.tlsTags thread).size ≤ L.maxTags → c.LogsAll thread entry) := by
  have hused := usedTags_fillTags hL c thread entry
  refine ⟨hused, ?_⟩
  intro hsize tag htag
  rw [hused, List.take_of_length_le (by rw [List.length_append]; exact hsize)]
  exact List.mem_append.mpr htag

/-- A scoped tag of one thread and one of another, and a global tag after them. -/
def mixedTags : List (ContextCall Bool) :=
  [.pushScopedTag true (some ⟨ascii "request", by decide⟩) (some ⟨ascii "7", by decide⟩),
    .pushScopedTag false (some ⟨ascii "request", by decide⟩) (some ⟨ascii "8", by decide⟩),
    .setGlobalTag (some keyK) (some keyK)]

/-- Eight tags may be logged with a desktop build, and the thread sees two. -/
theorem fillTags_logs_mixed :
    (mixedTags.foldl call (create Limits.desktop Bool)).LogsAll true (.zero _) ∧
      ((mixedTags.foldl call (create Limits.desktop Bool)).fillTags true (.zero _)).usedTags.map
          (fun tag => (tag.key.cstr, tag.value.cstr)) =
        [(ascii "k", ascii "k"), (ascii "request", ascii "7")] := by
  obtain ⟨hused, hall⟩ :=
    fillTags_logs (by decide) (mixedTags.foldl call (create Limits.desktop Bool)) true (.zero _)
  refine ⟨hall (by decide +kernel), ?_⟩
  rw [hused]
  decide +kernel

/-- Keys of one to nine bytes. -/
def nineTags : List (ContextCall Unit) :=
  (List.range 9).map fun n =>
    .setGlobalTag (some ⟨List.replicate (n + 1) 107, by simp⟩) (some keyK)

/-- **The ninth global tag is stored but not logged.** -/
theorem not_logsAll_nineTags : (∀ a ∈ nineTags, a.KeyFits Limits.desktop) ∧
    ¬ (nineTags.foldl call (.create Limits.desktop Unit)).LogsAll () (.zero _) := by
  constructor
  · intro a ha key hkey
    obtain ⟨n, hn, rfl⟩ := List.mem_map.mp ha
    cases hkey
    have := List.mem_range.mp hn
    show (List.replicate (n + 1) _).length < 32
    rw [List.length_replicate]
    omega
  · intro h
    have hlost : ∃ tag ∈ (nineTags.foldl call (.create Limits.desktop Unit)).globalTags.toList,
        tag ∉ ((nineTags.foldl call (.create Limits.desktop Unit)).fillTags () (.zero _)).usedTags := by
      decide +kernel
    obtain ⟨tag, hstored, hnot⟩ := hlost
    exact hnot (h tag (Or.inl hstored))

end LogContext

end BrLogger
