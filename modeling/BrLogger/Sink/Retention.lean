import BrLogger.Sink.DailyFileSink

/-!
# What the clean-up deletes

`CleanupOldFiles` takes a listed name for one of the sink's own files when it
starts with `base_name_` and ends with `.log`, whatever is in between
(`unlinks_iff`).  Between the two `MakeFilename` writes a date.  So the clean-up
deletes the sink's own old files and nothing else exactly when no old file has
something other than a date there (`cleanupExact_iff`); a sink called
`app_worker` has, for one called `app`.
-/

namespace BrLogger

variable {L : Limits}

/-- The last separator tells where a list ends. -/
theorem append_cons_inj_of_notMem_right {α : Type} {a : α} {l₁ l₂ d₁ d₂ : List α} (h₁ : a ∉ d₁) (h₂ : a ∉ d₂)
    (h : l₁ ++ a :: d₁ = l₂ ++ a :: d₂) : l₁ = l₂ ∧ d₁ = d₂ := by
  have hempty : ∀ {as d d' : List α}, a ∉ d → a :: d = as ++ a :: d' → as = [] := by
    intro as d d' hd he
    cases as with
    | nil => rfl
    | cons b as =>
      rw [List.cons_append, List.cons.injEq] at he
      exact absurd (he.2 ▸ List.mem_append_right as List.mem_cons_self) hd
  rcases List.append_eq_append_iff.mp h with ⟨as, hl, hd⟩ | ⟨as, hl, hd⟩
  · rw [hempty h₁ hd] at hl hd
    exact ⟨by rw [hl, List.append_nil], (List.cons.inj hd).2⟩
  · rw [hempty h₂ hd] at hl hd
    exact ⟨by rw [hl, List.append_nil], (List.cons.inj hd).2.symm⟩

namespace DailyFileSink

variable {calendar : Calendar} {sink : DailyFileSink L} {now : Int} {ent : DirEntry} {listing : List DirEntry}

/-- A date has no underscore. -/
theorem notMem_dateStr (calendar : Calendar) (sink : DailyFileSink L) (t : Int) :
    (95 : Byte) ∉ sink.dateStr calendar t := by
  intro h
  rcases mem_dateText (List.mem_of_mem_take h) with h | h
  · exact absurd h (by decide)
  · exact absurd h (by decide)

/-- **With texts free of underscores, a name tells the base name.** -/
theorem baseName_of_nameOf {b b' x x' : List Byte} (hx : (95 : Byte) ∉ x) (hx' : (95 : Byte) ∉ x')
    (h : nameOf b x = nameOf b' x') : b = b' := by
  have hcons : ∀ b x : List Byte, b ++ ascii "_" ++ x = b ++ 95 :: x := fun b x => List.append_assoc b [95] x
  rw [nameOf, nameOf, List.append_cancel_right_eq, hcons, hcons] at h
  exact (append_cons_inj_of_notMem_right hx hx' h).1

/-- Its age exceeds `max_days_`. -/
def Expired (sink : DailyFileSink L) (now : Int) (ent : DirEntry) : Prop :=
  ∃ mtime, ent.mtime = some mtime ∧ (sink.maxDays : Int) * 86400 < now - mtime

theorem exists_nameOf_iff {b name : List Byte} :
    (∃ x, name = nameOf b x) ↔
      (b ++ ascii "_").length + (ascii ".log").length ≤ name.length ∧
        name.take (b ++ ascii "_").length = b ++ ascii "_" ∧
        name.drop (name.length - (ascii ".log").length) = ascii ".log" := by
  constructor
  · intro h
    obtain ⟨x, rfl⟩ := h
    refine ⟨by simp only [nameOf, List.length_append]; omega, ?_, ?_⟩
    · rw [nameOf, List.append_assoc]
      exact List.take_left
    · rw [nameOf, List.length_append, Nat.add_sub_cancel]
      exact List.drop_left
  · intro h
    obtain ⟨hlen, hpre, hsuf⟩ := h
    refine ⟨(name.take (name.length - (ascii ".log").length)).drop (b ++ ascii "_").length, ?_⟩
    have hfront : b ++ ascii "_" ++ (name.take (name.length - (ascii ".log").length)).drop (b ++ ascii "_").length =
        name.take (name.length - (ascii ".log").length) := by
      have htake : (name.take (name.length - (ascii ".log").length)).take (b ++ ascii "_").length = b ++ ascii "_" := by
        rw [List.take_take, Nat.min_eq_left (by omega), hpre]
      have hsplit := List.take_append_drop (b ++ ascii "_").length (name.take (name.length - (ascii ".log").length))
      rwa [htake] at hsplit
    have hsplit := List.take_append_drop (name.length - (ascii ".log").length) name
    rw [hsuf] at hsplit
    rw [nameOf, hfront, hsplit]

/-- **What the tests of the clean-up mean.** -/
theorem unlinks_iff : sink.unlinks now ent = true ↔ (∃ x, ent.name = nameOf sink.baseName x) ∧ sink.Expired now ent := by
  rw [exists_nameOf_iff, unlinks]
  by_cases hlen : ent.name.length < (sink.baseName ++ ascii "_").length + (ascii ".log").length
  · rw [if_pos hlen]
    exact iff_of_false Bool.false_ne_true fun h => absurd h.1.1 (by omega)
  · rw [if_neg hlen]
    by_cases hpre : ent.name.take (sink.baseName ++ ascii "_").length = sink.baseName ++ ascii "_"
    · rw [if_neg (fun h => h hpre)]
      by_cases hsuf : ent.name.drop (ent.name.length - (ascii ".log").length) = ascii ".log"
      · rw [if_neg (fun h => h hsuf), Expired]
        cases ent.mtime with
        | none =>
          refine iff_of_false Bool.false_ne_true fun h => ?_
          obtain ⟨_, _, hnone, _⟩ := h
          cases hnone
        | some mtime =>
          rw [decide_eq_true_eq]
          refine ⟨fun h => ⟨⟨by omega, hpre, hsuf⟩, mtime, rfl, h⟩, fun h => ?_⟩
          obtain ⟨_, m, hm, hage⟩ := h
          exact Option.some.inj hm ▸ hage
      · rw [if_pos hsuf]
        exact iff_of_false Bool.false_ne_true fun h => absurd h.1.2.2 hsuf
    · rw [if_pos hpre]
      exact iff_of_false Bool.false_ne_true fun h => absurd h.1.2.1 hpre

/-! ### The whole listing -/

/-- Where `unlink` is called. -/
def Unlinked (sink : DailyFileSink L) (now : Int) (listing : List DirEntry) (path : List Byte) : Prop :=
  ∃ ent ∈ listing, sink.unlinks now ent = true ∧ path = sink.fullPath ent.name

/-- What is once gone stays gone. -/
theorem read_cleanupLoop_of_none (sink : DailyFileSink L) (now : Int) (listing : List DirEntry) {disk : Disk}
    {path : List Byte} (h : disk.read path = none) : (sink.cleanupLoop now listing disk).read path = none := by
  induction listing generalizing disk with
  | nil => exact h
  | cons ent listing ih =>
    apply ih
    split
    · rw [FileSystem.read_remove, h, ite_self]
    · exact h

/-- **The clean-up removes these names and leaves the others.** -/
theorem read_cleanupOldFiles (hunlink : ∀ ent ∈ listing, ent.unlinked = true) (disk : Disk) (path : List Byte) :
    (sink.Unlinked now listing path → (sink.cleanupOldFiles disk ⟨some listing, now⟩).read path = none) ∧
      (¬ sink.Unlinked now listing path →
        (sink.cleanupOldFiles disk ⟨some listing, now⟩).read path = disk.read path) := by
  show (_ → (sink.cleanupLoop now listing disk).read path = none) ∧
    (_ → (sink.cleanupLoop now listing disk).read path = disk.read path)
  induction listing generalizing disk with
  | nil =>
    refine ⟨fun hunl => ?_, fun _ => rfl⟩
    obtain ⟨_, hmem, _⟩ := hunl
    cases hmem
  | cons ent listing ih =>
    have hrest := ih fun e he => hunlink e (List.mem_cons_of_mem ent he)
    have hlater : sink.Unlinked now listing path → sink.Unlinked now (ent :: listing) path := by
      intro hunlinked
      obtain ⟨e, he, hunl⟩ := hunlinked
      exact ⟨e, List.mem_cons_of_mem ent he, hunl⟩
    rw [cleanupLoop]
    by_cases hown : sink.unlinks now ent = true
    · rw [if_pos ⟨hown, hunlink ent List.mem_cons_self⟩]
      constructor
      · intro hunlinked
        obtain ⟨e, he, hunl, hpath⟩ := hunlinked
        rcases List.mem_cons.mp he with rfl | he
        · exact sink.read_cleanupLoop_of_none now listing (by rw [FileSystem.read_remove, if_pos hpath])
        · exact (hrest _).1 ⟨e, he, hunl, hpath⟩
      · intro hnot
        have hne : path ≠ sink.fullPath ent.name := fun hp => hnot ⟨ent, List.mem_cons_self, hown, hp⟩
        rw [(hrest _).2 (mt hlater hnot), FileSystem.read_remove, if_neg hne]
    · rw [if_neg (fun h => hown h.1)]
      constructor
      · intro hunlinked
        obtain ⟨e, he, hunl, hpath⟩ := hunlinked
        rcases List.mem_cons.mp he with rfl | he
        · exact absurd hunl hown
        · exact (hrest _).1 ⟨e, he, hunl, hpath⟩
      · intro hnot
        exact (hrest _).2 (mt hlater hnot)

/-- A listed file of the sink's own that is too old. -/
def Stale (calendar : Calendar) (sink : DailyFileSink L) (now : Int) (listing : List DirEntry) (path : List Byte) :
    Prop :=
  ∃ ent ∈ listing, path = sink.fullPath ent.name ∧ (∃ t, path = sink.makeFilename calendar t) ∧ sink.Expired now ent

/-- The clean-up deletes the sink's own old files and nothing else; in particular
nothing a sink with another base name writes. -/
structure CleanupExact (calendar : Calendar) (sink : DailyFileSink L) (now : Int) (listing : List DirEntry) : Prop where
  deletes : ∀ disk path, sink.Stale calendar now listing path →
    (sink.cleanupOldFiles disk ⟨some listing, now⟩).read path = none
  keeps : ∀ disk path, ¬ sink.Stale calendar now listing path →
    (sink.cleanupOldFiles disk ⟨some listing, now⟩).read path = disk.read path
  foreign : ∀ disk baseName t, baseName ≠ sink.baseName →
    (sink.cleanupOldFiles disk ⟨some listing, now⟩).read
        (({ sink with baseName := baseName } : DailyFileSink L).makeFilename calendar t) =
      disk.read (({ sink with baseName := baseName } : DailyFileSink L).makeFilename calendar t)

/-- No sink writes to another's files. -/
theorem makeFilename_ne_of_baseName {baseName : List Byte} (h : baseName ≠ sink.baseName) (t t' : Int) :
    ({ sink with baseName := baseName } : DailyFileSink L).makeFilename calendar t ≠ sink.makeFilename calendar t' := by
  intro he
  have hname : nameOf baseName (dateStr calendar { sink with baseName := baseName } t) =
      nameOf sink.baseName (sink.dateStr calendar t') := fullPath_inj.mp he
  exact h (baseName_of_nameOf (notMem_dateStr calendar { sink with baseName := baseName } t)
    (notMem_dateStr calendar sink t') hname)

/-- A stale file is deleted. -/
theorem Stale.unlinked {path : List Byte} (h : sink.Stale calendar now listing path) :
    sink.Unlinked now listing path := by
  obtain ⟨ent, hent, hpath, ⟨t, ht⟩, hexpired⟩ := h
  refine ⟨ent, hent, unlinks_iff.mpr ⟨⟨sink.dateStr calendar t, ?_⟩, hexpired⟩, hpath⟩
  rw [hpath, makeFilename_eq, fullPath_inj] at ht
  exact ht

/-- **The clean-up is exact when and only when the old files that start with
`base_name_` and end with `.log` have a date in between.** -/
theorem cleanupExact_iff (calendar : Calendar) (sink : DailyFileSink L) (now : Int)
    (hunlink : ∀ ent ∈ listing, ent.unlinked = true) :
    sink.CleanupExact calendar now listing ↔
      ∀ ent ∈ listing, sink.Expired now ent → ∀ x, ent.name = nameOf sink.baseName x →
        ∃ t, x = sink.dateStr calendar t := by
  constructor
  · intro hexact ent hent hexpired x hx
    have hunlinked : sink.Unlinked now listing (sink.fullPath ent.name) :=
      ⟨ent, hent, unlinks_iff.mpr ⟨⟨x, hx⟩, hexpired⟩, rfl⟩
    by_contra hnone
    have hstale : ¬ sink.Stale calendar now listing (sink.fullPath ent.name) := by
      intro h
      obtain ⟨_, _, _, ⟨t, ht⟩, _⟩ := h
      rw [makeFilename_eq, fullPath_inj, hx, nameOf_inj] at ht
      exact hnone ⟨t, ht⟩
    -- on a disk with just this file
    have hkept := hexact.keeps (FileSystem.empty.create (sink.fullPath ent.name)) _ hstale
    rw [(read_cleanupOldFiles hunlink _ _).1 hunlinked, FileSystem.read_create_self] at hkept
    cases hkept
  · intro hdates
    have hiff : ∀ path, sink.Unlinked now listing path → sink.Stale calendar now listing path := by
      intro path hu
      obtain ⟨ent, hent, hunl, hpath⟩ := hu
      obtain ⟨⟨x, hx⟩, hexpired⟩ := unlinks_iff.mp hunl
      obtain ⟨t, ht⟩ := hdates ent hent hexpired x hx
      exact ⟨ent, hent, hpath, ⟨t, by rw [hpath, makeFilename_eq, hx, ht]⟩, hexpired⟩
    constructor
    case deletes => exact fun disk path hstale => (read_cleanupOldFiles hunlink disk path).1 hstale.unlinked
    case keeps =>
      exact fun disk path hstale => (read_cleanupOldFiles hunlink disk path).2 fun hu => hstale (hiff path hu)
    case foreign =>
      intro disk baseName t hne
      refine (read_cleanupOldFiles hunlink disk _).2 fun hu => ?_
      obtain ⟨_, _, _, ⟨t', ht'⟩, _⟩ := hiff _ hu
      exact makeFilename_ne_of_baseName hne t t' ht'

/-- A sink called `app`, which keeps its files for a day. -/
def appSink : DailyFileSink Limits.desktop :=
  { ILogSink.create Limits.desktop (fun _ => 0) with
    baseDir := ascii "logs"
    baseName := ascii "app"
    maxDays := 1
    useUtc := true
    fd := none
    currentDay := 0 }

/-- A file of the day before, of `app` itself. -/
def appEntry : DirEntry := ⟨ascii "app_1970-01-01.log", some 0, true⟩

theorem cleanupExact_iff_app :
    appSink.CleanupExact .january1970 100000 [appEntry] ↔
      ∀ ent ∈ [appEntry], appSink.Expired 100000 ent → ∀ x, ent.name = nameOf appSink.baseName x →
        ∃ t, x = appSink.dateStr .january1970 t :=
  cleanupExact_iff .january1970 appSink 100000 fun _ h => by
    rw [List.mem_singleton.mp h]
    rfl

/-- One of `app_worker`. -/
def workerEntry : DirEntry := ⟨ascii "app_worker_1970-01-01.log", some 0, true⟩

/-- **`app` deletes the old file of `app_worker`.** -/
theorem not_cleanupExact_worker : ¬ appSink.CleanupExact .january1970 100000 [workerEntry] := by
  intro h
  have hkept := h.foreign (FileSystem.empty.create (ascii "logs/app_worker_1970-01-01.log")) (ascii "app_worker") 0
    (by decide)
  revert hkept
  decide +kernel

end DailyFileSink

end BrLogger
