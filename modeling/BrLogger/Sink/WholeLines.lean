import BrLogger.Sink.History
import BrLogger.Sink.Rollover
import Mathlib.Data.List.Induction

/-!
# Lines of the log files

A record is written by two calls, text and newline, and neither result stops the
other.  A newline behind a text that was cut, or behind the rest of an earlier
one, ends a line that is no record.  As long as no `Write` does that, every line
of every file is the whole text of one record (`lines_whole`).
-/

namespace BrLogger

variable {L : Limits}

/-- The lines of a file that end with a newline. -/
def terminatedLines (c : List Byte) : List (List Byte) := (c.splitOn 10).dropLast

/-- Whole records, each with its newline, and what may be left of another one. -/
def Whole (records : List (List Byte)) (c : List Byte) : Prop :=
  ∃ rs rest, c = lines rs ++ rest ∧ 10 ∉ rest ∧ ∀ r ∈ rs, r ∈ records ∧ 10 ∉ r

/-- The file is empty or ends with a newline. -/
def AtLineEnd (c : List Byte) : Prop := ∀ b, c.getLast? = some b → b = 10

/-- A newline is transferred only behind a whole text that starts a line. -/
def LineOutcome.Keeps (o : LineOutcome) (text c : List Byte) : Prop :=
  (∃ m, o.newline = some m ∧ 0 < m) → (∃ n, o.text = some n ∧ text.length ≤ n) ∧ AtLineEnd c

section
variable {records : List (List Byte)} {c text : List Byte}

theorem whole_nil (records : List (List Byte)) : Whole records [] := ⟨[], [], rfl, List.not_mem_nil, nofun⟩

theorem Whole.mono (h : Whole records c) (more : List (List Byte)) : Whole (records ++ more) c := by
  obtain ⟨rs, rest, hc, hrest, hrs⟩ := h
  exact ⟨rs, rest, hc, hrest, fun r hr => ⟨List.mem_append_left more (hrs r hr).1, (hrs r hr).2⟩⟩

/-- Bytes without a newline only make the rest longer. -/
theorem Whole.append (h : Whole records c) {t : List Byte} (ht : 10 ∉ t) : Whole records (c ++ t) := by
  obtain ⟨rs, rest, rfl, hrest, hrs⟩ := h
  refine ⟨rs, rest ++ t, List.append_assoc _ _ _, ?_, hrs⟩
  intro hmem
  exact (List.mem_append.mp hmem).elim hrest ht

/-- At the end of a line nothing is left over. -/
theorem Whole.append_line (h : Whole records c) (hend : AtLineEnd c) (htext : 10 ∉ text) :
    Whole (records ++ [text]) (c ++ text ++ ascii "\n") := by
  obtain ⟨rs, rest, rfl, hrest, hrs⟩ := h
  have hnone : rest = [] := by
    induction rest using List.reverseRecOn with
    | nil => rfl
    | append_singleton rest b _ =>
      have hb := hend b (by rw [← List.append_assoc]; exact List.getLast?_concat)
      exact absurd (List.mem_append_right rest (List.mem_singleton.mpr hb.symm)) hrest
  refine ⟨rs ++ [text], [], ?_, List.not_mem_nil, ?_⟩
  · rw [hnone, lines_append, lines_singleton, List.append_nil, List.append_nil, List.append_assoc]
  · intro r hr
    rcases List.mem_append.mp hr with hr | hr
    · exact ⟨List.mem_append_left _ (hrs r hr).1, (hrs r hr).2⟩
    · rw [List.mem_singleton.mp hr]
      exact ⟨List.mem_append_right _ (List.mem_singleton_self _), htext⟩

/-- **The lines of a whole file are records.** -/
theorem Whole.mem_records (h : Whole records c) {l : List Byte} (hl : l ∈ terminatedLines c) : l ∈ records := by
  obtain ⟨rs, rest, rfl, hrest, hrs⟩ := h
  have hsplit : (lines rs ++ rest).splitOn 10 = rs ++ [rest] := by
    clear hl
    induction rs with
    | nil => exact List.splitOn_eq_singleton hrest
    | cons r rs ih =>
      have hcons : lines (r :: rs) ++ rest = r ++ 10 :: (lines rs ++ rest) := by
        show (r ++ [10]) ++ lines rs ++ rest = _
        simp only [List.append_assoc, List.cons_append, List.nil_append]
      rw [hcons, List.splitOn_append_cons_self_of_not_mem (hrs r List.mem_cons_self).2,
        ih fun r' hr' => hrs r' (List.mem_cons_of_mem r hr'), List.cons_append]
  rw [terminatedLines, hsplit, List.dropLast_concat] at hl
  exact (hrs l hl).1

/-- **What the two calls of a line add.** -/
theorem Whole.append_sent (h : Whole records c) (htext : 10 ∉ text) {o : LineOutcome} (ho : o.Keeps text c) :
    Whole (records ++ [text]) (c ++ FileSystem.sent text o.text ++ FileSystem.sent (ascii "\n") o.newline) := by
  have hsent : 10 ∉ FileSystem.sent text o.text := by
    cases o.text with
    | none => exact List.not_mem_nil
    | some n => exact fun hmem => htext (List.mem_of_mem_take hmem)
  by_cases hnewline : ∃ m, o.newline = some m ∧ 0 < m
  · obtain ⟨⟨n, hn, hlen⟩, hend⟩ := ho hnewline
    obtain ⟨m, hm, hpos⟩ := hnewline
    have hnl : FileSystem.sent (ascii "\n") o.newline = ascii "\n" := by
      rw [hm]
      exact List.take_of_length_le (by show 1 ≤ m; omega)
    have hall : FileSystem.sent text o.text = text := by
      rw [hn]
      exact List.take_of_length_le hlen
    rw [hnl, hall]
    exact h.append_line hend htext
  · have hnl : FileSystem.sent (ascii "\n") o.newline = [] := by
      cases hm : o.newline with
      | none => rfl
      | some m =>
        have hzero : m = 0 := by
          by_contra hne
          exact hnewline ⟨m, hm, by omega⟩
        rw [hzero]
        rfl
    rw [hnl, List.append_nil]
    exact (h.append hsent).mono [text]

end

/-! ### Both sinks -/

/-- Every line of every file is one of the records. -/
def LinesAreRecords (records : List (List Byte)) (disk : Disk) : Prop :=
  ∀ path c l, disk.read path = some c → l ∈ terminatedLines c → l ∈ records

/-- Every file consists of whole lines and a rest. -/
def AllWhole (records : List (List Byte)) (disk : Disk) : Prop := ∀ i, Whole records (disk.contents i)

section
variable {records : List (List Byte)} {disk : Disk}

theorem AllWhole.mono (h : AllWhole records disk) (more : List (List Byte)) : AllWhole (records ++ more) disk :=
  fun i => (h i).mono more

theorem AllWhole.openAppend (h : AllWhole records disk) (path : List Byte) :
    AllWhole records (disk.openAppend path).1 := FileSystem.forall_contents_openAppend (whole_nil records) h path

theorem AllWhole.linesAreRecords (h : AllWhole records disk) : LinesAreRecords records disk := by
  intro path c l hc hl
  obtain ⟨i, _, rfl⟩ := Option.map_eq_some_iff.mp hc
  exact (h i).mem_records hl

/-- The two calls of a line. -/
theorem AllWhole.appendLine (h : AllWhole records disk) {fd : OpenFile} {text : List Byte} {o : LineOutcome}
    (htext : 10 ∉ text) (ho : o.Keeps text (disk.contents fd.inode)) :
    AllWhole (records ++ [text]) (DailyFileSink.appendLine disk fd text o) := by
  intro i
  rw [DailyFileSink.appendLine]
  by_cases hi : i = fd.inode
  · subst hi
    simp only [FileSystem.write_contents_self]
    exact (h fd.inode).append_sent htext ho
  · simp only [FileSystem.write_contents_of_ne _ _ fd _ hi]
    exact (h i).mono [text]

end

namespace RotatingFileSink

variable {sink : RotatingFileSink L} {records : List (List Byte)} {disk : Disk}

theorem appendLine_disk (sink : RotatingFileSink L) (disk : Disk) (fd : OpenFile) (text : List Byte) (o : LineOutcome) :
    (sink.appendLine disk fd text o).2 = DailyFileSink.appendLine disk fd text o := rfl

theorem contents_renameLoop (basePath : List Byte) (maxFiles : Nat) (o : RotateOutcome) (n : Nat) (disk : Disk) :
    (renameLoop basePath maxFiles o n disk).contents = disk.contents := by
  induction n generalizing disk with
  | zero => rfl
  | succ n ih =>
    rw [renameLoop, ih]
    have hrename : ∀ disk : Disk, (if o.renamed (n + 1) then disk.rename (logName basePath n) (logName basePath (n + 1))
        else disk).contents = disk.contents := by
      intro disk
      split
      · exact FileSystem.rename_contents _ _ _
      · rfl
    rw [hrename]
    split <;> rfl

theorem allWhole_openFile (h : AllWhole records disk) (o : OpenOutcome) : AllWhole records (sink.openFile disk o).2 := by
  cases ho : o.opened with
  | true =>
    rw [openFile_of_opened ho]
    exact h.openAppend _
  | false =>
    rw [openFile_of_not_opened ho]
    exact h

theorem allWhole_makeRoom (sink : RotatingFileSink L) (h : AllWhole records disk) (len : Nat) (o : RotateOutcome) :
    AllWhole records (sink.makeRoom disk len o).2 := by
  rw [makeRoom]
  split
  · refine allWhole_openFile (fun i => ?_) o.reopen
    rw [contents_renameLoop]
    exact h i
  · exact h

end RotatingFileSink

namespace RotatingState

/-- The text of a `Write` has no newline. -/
def OneLine (cfg : RotatingConfig) (s : RotatingState L) (a : RotatingAction L) : Prop :=
  match a with
  | .write entry _ => ∀ sink text, s.sink = some sink → sink.recordOf cfg.localtime entry = some text → 10 ∉ text
  | _ => True

/-- No `Write` transfers a newline but behind a whole text that starts a line. -/
def LinesKept (cfg : RotatingConfig) (s : RotatingState L) (a : RotatingAction L) : Prop :=
  s.OneLine cfg a ∧
    match a with
    | .write entry o => ∀ sink text fd, s.sink = some sink → sink.recordOf cfg.localtime entry = some text →
      sink.fd ≠ none → (sink.makeRoom s.disk text.length o.rotate).1.fd = some fd →
      o.line.Keeps text ((sink.makeRoom s.disk text.length o.rotate).2.contents fd.inode)
    | _ => True

variable {cfg : RotatingConfig} {s s' : RotatingState L}

theorem allWhole_step {a : RotatingAction L} (h : AllWhole s.records s.disk) (hok : s.LinesKept cfg a)
    (hstep : s.step cfg a = some s') : AllWhole s'.records s'.disk := by
  rcases step_cases hstep with ⟨junk, o, rfl⟩ | ⟨entry, o, rfl⟩ | ⟨hdisk, hrecords, _⟩
  · obtain ⟨_, rfl⟩ := step_construct_iff.mp hstep
    exact RotatingFileSink.allWhole_openFile h o
  · obtain ⟨sink, hsink, rfl⟩ := step_write_iff.mp hstep
    cases hrecord : sink.recordOf cfg.localtime entry with
    | none =>
      obtain ⟨base, hwrite⟩ := RotatingFileSink.write_of_nothing s.disk o (Or.inl hrecord)
      rw [hwrite]
      exact h.mono _
    | some text =>
      have htext : 10 ∉ text := hok.1 sink text hsink hrecord
      by_cases hfd : sink.fd = none
      · obtain ⟨base, hwrite⟩ := RotatingFileSink.write_of_nothing s.disk o (Or.inr hfd)
        rw [hwrite]
        exact h.mono _
      · obtain ⟨base, hwrite⟩ := RotatingFileSink.write_of_record s.disk o hrecord hfd
        have hwhole := sink.allWhole_makeRoom h text.length o.rotate
        show AllWhole (s.records ++ [text]) (sink.write cfg.localtime entry s.disk o).2
        rw [hwrite]
        cases hopened : (sink.makeRoom s.disk text.length o.rotate).1.fd with
        | none => exact hwhole.mono [text]
        | some fd =>
          show AllWhole (s.records ++ [text]) (RotatingFileSink.appendLine _ _ fd text o.line).2
          rw [RotatingFileSink.appendLine_disk]
          exact hwhole.appendLine htext (hok.2 sink text fd hsink hrecord hfd hopened)
  · rw [hdisk, hrecords]
    exact h

end RotatingState

namespace DailyFileSink

variable {calendar : Calendar} {sink : DailyFileSink L} {records : List (List Byte)} {disk : Disk}

theorem contents_cleanupLoop (sink : DailyFileSink L) (now : Int) (listing : List DirEntry) (disk : Disk) :
    (sink.cleanupLoop now listing disk).contents = disk.contents := by
  induction listing generalizing disk with
  | nil => rfl
  | cons ent listing ih =>
    rw [cleanupLoop, ih]
    split <;> rfl

theorem allWhole_openFileForToday (sink : DailyFileSink L) (h : AllWhole records disk) (o : OpenTodayOutcome) :
    AllWhole records (sink.openFileForToday calendar disk o).2 := by
  have hcleanup : ∀ (sink : DailyFileSink L) (disk : Disk), AllWhole records disk →
      AllWhole records (if 0 < sink.maxDays then sink.cleanupOldFiles disk o.cleanup else disk) := by
    intro sink disk h
    split
    · rw [cleanupOldFiles]
      split
      · intro i
        rw [contents_cleanupLoop]
        exact h i
      · exact h
    · exact h
  rw [openFileForToday]
  apply hcleanup
  split
  · exact h.openAppend _
  · exact h

theorem allWhole_openToday (sink : DailyFileSink L) (h : AllWhole records disk) (o : DailyOutcome) :
    AllWhole records (sink.openToday calendar disk o).2 := by
  rw [openToday]
  split
  · exact sink.allWhole_openFileForToday h o.reopen
  · exact h

end DailyFileSink

namespace DailyState

/-- The text of a `Write` has no newline. -/
def OneLine (cfg : DailyConfig) (s : DailyState L) (a : DailyAction L) : Prop :=
  match a with
  | .write entry _ => ∀ sink text, s.sink = some sink → sink.recordOf cfg.calendar entry = some text → 10 ∉ text
  | _ => True

/-- No `Write` transfers a newline but behind a whole text that starts a line. -/
def LinesKept (cfg : DailyConfig) (s : DailyState L) (a : DailyAction L) : Prop :=
  s.OneLine cfg a ∧
    match a with
    | .write entry o => ∀ sink text fd, s.sink = some sink → sink.recordOf cfg.calendar entry = some text →
      (sink.openToday cfg.calendar s.disk o).1.fd = some fd →
      o.line.Keeps text ((sink.openToday cfg.calendar s.disk o).2.contents fd.inode)
    | _ => True

variable {cfg : DailyConfig} {s s' : DailyState L}

theorem allWhole_step {a : DailyAction L} (h : AllWhole s.records s.disk) (hok : s.LinesKept cfg a)
    (hstep : s.step cfg a = some s') : AllWhole s'.records s'.disk := by
  rcases step_cases hstep with ⟨junk, o, rfl⟩ | ⟨entry, o, rfl⟩ | ⟨hdisk, _, hrecords, _⟩
  · obtain ⟨_, room, rfl, rfl⟩ := step_construct_iff.mp hstep
    exact DailyFileSink.allWhole_openFileForToday _ h o
  · obtain ⟨sink, hsink, rfl⟩ := step_write_iff.mp hstep
    cases hrecord : sink.recordOf cfg.calendar entry with
    | none =>
      rcases DailyFileSink.write_of_nothing s.disk o hrecord with hwrite | ⟨_, base, hwrite⟩
      · rw [hwrite]
        exact h.mono _
      · rw [hwrite]
        exact (DailyFileSink.allWhole_openToday _ h o).mono _
    | some text =>
      have htext : 10 ∉ text := hok.1 sink text hsink hrecord
      obtain ⟨_, base, hwrite⟩ := DailyFileSink.write_of_record s.disk o hrecord
      have hwhole : AllWhole s.records (sink.openToday cfg.calendar s.disk o).2 := sink.allWhole_openToday h o
      show AllWhole (s.records ++ [text]) (sink.write cfg.calendar entry s.disk o).2
      rw [hwrite]
      cases hopened : (sink.openToday cfg.calendar s.disk o).1.fd with
      | none => exact hwhole.mono [text]
      | some fd => exact hwhole.appendLine htext (hok.2 sink text fd hsink hrecord hopened)
  · rw [hdisk, hrecords]
    exact h

end DailyState

/-- **Lines are whole records** in every run, of either sink, from empty files in which
no newline is transferred but behind a whole text that starts a line. -/
theorem lines_whole (L : Limits) :
    (∀ (cfg : RotatingConfig) (s : RotatingState L),
      (rotatingMachine L cfg fun disk => ∀ i, disk.contents i = []).ReachableVia (RotatingState.LinesKept cfg) s →
        LinesAreRecords s.records s.disk) ∧
    ∀ (cfg : DailyConfig) (s : DailyState L),
      (dailyMachine L cfg fun disk => ∀ i, disk.contents i = []).ReachableVia (DailyState.LinesKept cfg) s →
        LinesAreRecords s.records s.disk := by
  have hempty : ∀ {records : List (List Byte)} {disk : Disk}, (∀ i, disk.contents i = []) → AllWhole records disk := by
    intro records disk hdisk i
    rw [hdisk i]
    exact whole_nil records
  constructor
  · intro cfg s hs
    refine AllWhole.linesAreRecords (Machine.ReachableVia.induct (fun s => AllWhole s.records s.disk) ?_ ?_ hs)
    · intro s hinit
      exact hempty hinit.2.2
    · intro s a s' _ hok hwhole hstep
      exact RotatingState.allWhole_step hwhole hok hstep
  · intro cfg s hs
    refine AllWhole.linesAreRecords (Machine.ReachableVia.induct (fun s => AllWhole s.records s.disk) ?_ ?_ hs)
    · intro s hinit
      exact hempty hinit.2.2.2
    · intro s a s' _ hok hwhole hstep
      exact DailyState.allWhole_step hwhole hok hstep

/-! ### Runs of one `Write` -/

theorem LineOutcome.keeps_nil {o : LineOutcome} {text : List Byte} (htext : text.length ≤ 2048)
    (ho : o = ⟨some 2048, some 1⟩) : o.Keeps text [] := by
  intro _
  subst ho
  exact ⟨⟨2048, rfl, htext⟩, nofun⟩

namespace RotatingState

theorem oneLine_of_all {cfg : RotatingConfig} {u : RotatingFileSink L × Disk} {records : List (List Byte)}
    {entry : LogEntry L} (h : ((u.1.recordOf cfg.localtime entry).all fun text => 10 ∉ text) = true)
    (o : RotatingOutcome) : OneLine cfg ⟨some u.1, u.2, records⟩ (.write entry o) := by
  intro sink text hsink hrecord
  cases hsink
  rw [hrecord, Option.all_some] at h
  exact of_decide_eq_true h

theorem linesKept_of_all {cfg : RotatingConfig} {u : RotatingFileSink L × Disk} {records : List (List Byte)}
    {entry : LogEntry L} {o : RotatingOutcome} (hone : OneLine cfg ⟨some u.1, u.2, records⟩ (.write entry o))
    (hline : o.line = ⟨some 2048, some 1⟩)
    (h : ((u.1.recordOf cfg.localtime entry).all fun text => (u.1.makeRoom u.2 text.length o.rotate).1.fd.all fun fd =>
      (u.1.makeRoom u.2 text.length o.rotate).2.contents fd.inode = []) = true) :
    LinesKept cfg ⟨some u.1, u.2, records⟩ (.write entry o) := by
  refine ⟨hone, ?_⟩
  intro sink text fd hsink hrecord _ hfd
  cases hsink
  rw [hrecord, Option.all_some, hfd, Option.all_some] at h
  obtain ⟨_, rfl, _⟩ := ILogSink.record_eq_some_iff.mp hrecord
  rw [of_decide_eq_true h]
  exact LineOutcome.keeps_nil (ILogSink.length_text_le _ _ _) hline

def oneWritten : RotatingState Limits.desktop := constructed.fed threeBytes (.zero _)

theorem oneWritten_linesKept :
    (rotatingMachine Limits.desktop threeBytes fun disk => ∀ i, disk.contents i = []).ReachableVia
      (LinesKept threeBytes) oneWritten := by
  have hone : OneLine threeBytes constructed (.write (.zero _) .allSucceed) := oneLine_of_all (by decide +kernel) _
  have hwrite : constructed.step threeBytes (.write (.zero _) .allSucceed) = some oneWritten := step_fed _ rfl
  have hkept : LinesKept threeBytes constructed (.write (.zero _) .allSucceed) :=
    linesKept_of_all hone rfl (by decide +kernel)
  exact reachableVia_step (constructed_reachable (fun _ => rfl) ⟨trivial, trivial⟩) hkept hwrite

end RotatingState

namespace DailyState

/-- A `Write` on the day the sink was constructed. -/
def onTime : DailyOutcome := ⟨86399, opens 86399, ⟨some 2048, some 1⟩⟩

def onTimeSink : DailyFileSink Limits.desktop × Disk :=
  beforeMidnight.1.write appConfig.calendar (.zero _) beforeMidnight.2 onTime

def onTimeWritten : DailyState Limits.desktop :=
  ⟨some onTimeSink.1, onTimeSink.2,
    lastSecond.readings ++ beforeMidnight.1.readings appConfig.calendar (.zero _) onTime,
    lastSecond.records ++ (beforeMidnight.1.recordOf appConfig.calendar (.zero _)).toList⟩

theorem linesKept_of_all {cfg : DailyConfig} {u : DailyFileSink L × Disk} {readings : List Int}
    {records : List (List Byte)} {entry : LogEntry L} {o : DailyOutcome} (hline : o.line = ⟨some 2048, some 1⟩)
    (htext : ((u.1.recordOf cfg.calendar entry).all fun text => 10 ∉ text) = true)
    (h : ((u.1.openToday cfg.calendar u.2 o).1.fd.all fun fd =>
      (u.1.openToday cfg.calendar u.2 o).2.contents fd.inode = []) = true) :
    LinesKept cfg ⟨some u.1, u.2, readings, records⟩ (.write entry o) := by
  constructor
  · intro sink text hsink hrecord
    cases hsink
    rw [hrecord, Option.all_some] at htext
    exact of_decide_eq_true htext
  · intro sink text fd hsink hrecord hfd
    cases hsink
    rw [hfd, Option.all_some] at h
    obtain ⟨_, rfl, _⟩ := ILogSink.record_eq_some_iff.mp hrecord
    rw [of_decide_eq_true h]
    exact LineOutcome.keeps_nil (ILogSink.length_text_le _ _ _) hline

theorem onTimeWritten_linesKept :
    (dailyMachine Limits.desktop appConfig fun disk => ∀ i, disk.contents i = []).ReachableVia
      (LinesKept appConfig) onTimeWritten := by
  have hempty : (dailyMachine Limits.desktop appConfig fun disk => ∀ i, disk.contents i = []).ReachableVia
      (LinesKept appConfig) ⟨none, .empty, [], []⟩ := .init ⟨rfl, rfl, rfl, fun _ => rfl⟩
  have hok : LinesKept (L := Limits.desktop) appConfig ⟨none, .empty, [], []⟩
      (.construct (fun _ => 0) (opens 86399)) := ⟨trivial, trivial⟩
  have hconstruct : (⟨none, .empty, [], []⟩ : DailyState Limits.desktop).step appConfig
      (.construct (fun _ => 0) (opens 86399)) = some lastSecond := step_construct_iff.mpr ⟨rfl, _, rfl, rfl⟩
  have hkept : LinesKept appConfig lastSecond (.write (.zero _) onTime) :=
    linesKept_of_all rfl (by decide +kernel) (by decide +kernel)
  have hwrite : lastSecond.step appConfig (.write (.zero _) onTime) = some onTimeWritten :=
    step_write_iff.mpr ⟨_, rfl, rfl⟩
  exact reachableVia_step (reachableVia_step hempty hok hconstruct) hkept hwrite

end DailyState

theorem lines_whole_written :
    LinesAreRecords RotatingState.oneWritten.records RotatingState.oneWritten.disk ∧
      LinesAreRecords DailyState.onTimeWritten.records DailyState.onTimeWritten.disk :=
  ⟨(lines_whole _).1 _ _ RotatingState.oneWritten_linesKept, (lines_whole _).2 _ _ DailyState.onTimeWritten_linesKept⟩

/-! ### A `Write` to a full disk -/

namespace RotatingState

/-- The text is cut to one byte, and the newline written. -/
def cut : RotatingOutcome := ⟨⟨true, fun _ => true, ⟨true, true⟩⟩, ⟨some 1, some 1⟩⟩

def cutSink : RotatingFileSink Limits.desktop × Disk :=
  newSink.1.write threeBytes.localtime (.zero _) newSink.2 cut

def cutWritten : RotatingState Limits.desktop :=
  ⟨some cutSink.1, cutSink.2, constructed.records ++ (newSink.1.recordOf threeBytes.localtime (.zero _)).toList⟩

/-- **A text that is cut may become a line.** -/
theorem not_linesAreRecords_cutWritten :
    ¬ ∀ s : RotatingState Limits.desktop, (rotatingMachine Limits.desktop threeBytes fun disk =>
      ∀ i, disk.contents i = []).ReachableVia (OneLine threeBytes) s → LinesAreRecords s.records s.disk := by
  intro h
  have hone : OneLine threeBytes constructed (.write (.zero _) cut) := oneLine_of_all (by decide +kernel) cut
  have hwrite : constructed.step threeBytes (.write (.zero _) cut) = some cutWritten :=
    step_write_iff.mpr ⟨_, rfl, rfl⟩
  have hlines := h cutWritten (reachableVia_step (constructed_reachable (fun _ => rfl) trivial) hone hwrite)
  have hread : cutWritten.disk.read threeBytes.basePath = some (ascii "[\n") := by decide +kernel
  have hline : ascii "[" ∈ terminatedLines (ascii "[\n") := by decide +kernel
  have hrecord : ascii "[" ∉ cutWritten.records := by decide +kernel
  exact hrecord (hlines _ _ _ hread hline)

end RotatingState

end BrLogger
