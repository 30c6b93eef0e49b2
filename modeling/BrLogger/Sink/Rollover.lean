import BrLogger.Sink.Dates

/-!
# Daily rollover

`Write` and `OpenFileForToday` read the clock separately, so the file opened may
be tomorrow's for a `Write` that found today's date out of date.  What holds in
between is that the open file and `current_day_` are of one and the same reading
(`OnDay`).  Then `current_day_` is the day of a reading exactly when the open
file is the one of its date, and a record goes to the file of a date that the
clock showed during its own `Write` (`rollover_exact`).  Only the times the sink has
read need consistent dates.
-/

namespace BrLogger

variable {L : Limits}

/-- The calendars are consistent at every time the sink has read. -/
def DailyState.ConsistentDates (cfg : DailyConfig) (s : DailyState L) : Prop :=
  ∀ t ∈ s.readings, cfg.calendar.Consistent t

/-- The readings are kept. -/
theorem DailyState.readings_subset {cfg : DailyConfig} {s s' : DailyState L} {a : DailyAction L}
    (h : s.step cfg a = some s') : s.readings ⊆ s'.readings := by
  rcases step_cases h with ⟨junk, o, rfl⟩ | ⟨entry, o, rfl⟩ | ⟨_, hreadings, -, -⟩
  · obtain ⟨_, _, rfl, rfl⟩ := step_construct_iff.mp h
    exact List.subset_append_left _ _
  · obtain ⟨_, _, rfl⟩ := step_write_iff.mp h
    exact List.subset_append_left _ _
  · rw [hreadings]
    exact List.Subset.refl _

theorem DailyState.ConsistentDates.of_step {cfg : DailyConfig} {s s' : DailyState L} {a : DailyAction L}
    (hcal : s'.ConsistentDates cfg) (h : s.step cfg a = some s') : s.ConsistentDates cfg :=
  fun t ht => hcal t (readings_subset h ht)

/-- The calls of an action that open or append succeed. -/
def DailyState.CallsSucceed (cfg : DailyConfig) (s : DailyState L) (a : DailyAction L) : Prop :=
  match a with
  | .construct _ o => o.opened = true
  | .write entry o =>
    o.reopen.opened = true ∧
      ∀ sink, s.sink = some sink →
        o.line.Full (sink.text (DailyFileSink.defaultFormatter L cfg.calendar) entry).length
  | _ => True

namespace DailyFileSink

/-- The open file was opened at the time `t`, and so says `current_day_`. -/
structure OnDay (cfg : DailyConfig) (sink : DailyFileSink L) (fd : OpenFile) (t : Int) : Prop where
  baseDir : sink.baseDir = cfg.baseDir
  baseName : sink.baseName = cfg.baseName
  maxDays : sink.maxDays = cfg.maxDays
  useUtc : sink.useUtc = cfg.useUtc
  opened : sink.fd = some fd
  name : fd.name = sink.makeFilename cfg.calendar t
  day : sink.getDay cfg.calendar t = sink.currentDay

variable {cfg : DailyConfig} {sink : DailyFileSink L} {disk : Disk} {fd : OpenFile} {t : Int}

/-- The formatter, the level and the buffer do not matter. -/
theorem OnDay.withBase (h : sink.OnDay cfg fd t) (base : ILogSink L) :
    ({ sink with toILogSink := base } : DailyFileSink L).OnDay cfg fd t :=
  ⟨h.baseDir, h.baseName, h.maxDays, h.useUtc, h.opened, h.name, h.day⟩

/-- What a successful opening does to the disk. -/
def DiskOpened (cfg : DailyConfig) (disk disk' : Disk) (fd : OpenFile) : Prop :=
  fd = (disk.openAppend fd.name).2 ∧ (cfg.maxDays = 0 → disk' = (disk.openAppend fd.name).1)

theorem diskOpened_of_inode (h : disk.inode fd.name = some fd.inode) : DiskOpened cfg disk disk fd := by
  rw [DiskOpened, FileSystem.openAppend_of_inode h]
  exact ⟨rfl, fun _ => rfl⟩

/-- A line appended to the file is read under its name, and nothing else changes. -/
theorem DiskOpened.read_append {disk' : Disk} (h : DiskOpened cfg disk disk' fd) (hdays : cfg.maxDays = 0)
    (bytes path : List Byte) : (disk'.append fd.inode bytes).read path =
      if path = fd.name then some ((disk.read path).getD [] ++ bytes) else disk.read path := by
  have hinode : fd.inode = (disk.openAppend fd.name).2.inode := congrArg Descriptor.inode h.1
  rw [h.2 hdays, hinode]
  exact FileSystem.read_append_openAppend disk fd.name path bytes

theorem openFileForToday_onDay (sink : DailyFileSink L) {o : OpenTodayOutcome} (hdir : sink.baseDir = cfg.baseDir)
    (hname : sink.baseName = cfg.baseName) (hdays : sink.maxDays = cfg.maxDays) (hutc : sink.useUtc = cfg.useUtc)
    (ho : o.opened = true) (disk : Disk) :
    ∃ fd, (sink.openFileForToday cfg.calendar disk o).1.OnDay cfg fd o.now ∧
      DiskOpened cfg disk (sink.openFileForToday cfg.calendar disk o).2 fd := by
  have hfd := FileSystem.openAppend_name disk (sink.makeFilename cfg.calendar o.now)
  refine ⟨(disk.openAppend (sink.makeFilename cfg.calendar o.now)).2, ?_, ?_⟩
  · rw [openFileForToday, if_pos ho]
    exact ⟨hdir, hname, hdays, hutc, rfl, hfd, rfl⟩
  · rw [DiskOpened, hfd]
    refine ⟨rfl, fun hzero => ?_⟩
    have hno : ¬ 0 < sink.maxDays := by omega
    rw [openFileForToday, if_pos ho]
    exact if_neg hno

/-- **A `Write` has a file of a time it read**, which it just opened or had open before. -/
theorem openToday_onDay {o : DailyOutcome} (hcal : cfg.calendar.Consistent t) (hnow : cfg.calendar.Consistent o.now)
    (h : sink.OnDay cfg fd t) (ho : o.reopen.opened = true) (disk : Disk) :
    ∃ fd' t', t' ∈ (if sink.getDay cfg.calendar o.now ≠ sink.currentDay then [o.now, o.reopen.now] else [o.now]) ∧
      (sink.openToday cfg.calendar disk o).1.OnDay cfg fd' t' ∧
      (fd' = fd ∧ (sink.openToday cfg.calendar disk o).2 = disk ∨
        DiskOpened cfg disk (sink.openToday cfg.calendar disk o).2 fd') := by
  rw [openToday]
  by_cases hday : sink.getDay cfg.calendar o.now ≠ sink.currentDay
  · obtain ⟨fd', hon, hdisk⟩ :=
      openFileForToday_onDay sink h.baseDir h.baseName h.maxDays h.useUtc ho disk
    simp only [if_pos hday]
    exact ⟨fd', o.reopen.now, List.mem_cons_of_mem _ List.mem_cons_self, hon, Or.inr hdisk⟩
  · simp only [if_neg hday]
    have hsame : sink.getDay cfg.calendar o.now = sink.getDay cfg.calendar t := (not_not.mp hday).trans h.day.symm
    refine ⟨fd, o.now, List.mem_singleton_self _, ?_, Or.inl ⟨rfl, trivial⟩⟩
    exact ⟨h.baseDir, h.baseName, h.maxDays, h.useUtc, h.opened,
      h.name.trans ((getDay_eq_iff hnow hcal sink).mp hsame).symm, not_not.mp hday⟩

end DailyFileSink

/-! ### Runs -/

/-- The sink's open file is that of a reading made so far. -/
structure RolloverInv (cfg : DailyConfig) (s : DailyState L) : Prop where
  onDay : ∀ sink, s.sink = some sink → ∃ fd, ∃ t ∈ s.readings, sink.OnDay cfg fd t ∧
    (cfg.maxDays = 0 → s.disk.inode fd.name = some fd.inode)

namespace RolloverInv

open DailyFileSink (OnDay DiskOpened)

variable {cfg : DailyConfig} {s s' : DailyState L}

/-- An opened file is found under its name. -/
theorem inode_of_diskOpened {disk disk' : Disk} {fd : OpenFile} (h : DiskOpened cfg disk disk' fd)
    (hdays : cfg.maxDays = 0) : disk'.inode fd.name = some fd.inode := by
  rw [h.2 hdays]
  refine (FileSystem.openAppend_inode disk fd.name).trans ?_
  rw [← h.1]

theorem step_construct {junk : Nat → Byte} {o : OpenTodayOutcome} (ho : o.opened = true)
    (hstep : s.step cfg (.construct junk o) = some s') : RolloverInv cfg s' := by
  obtain ⟨_, room, rfl, rfl⟩ := DailyState.step_construct_iff.mp hstep
  constructor
  intro sink hsink
  cases hsink
  obtain ⟨fd, hon, hdisk⟩ := DailyFileSink.openFileForToday_onDay
    (⟨ILogSink.create L junk, cfg.baseDir, cfg.baseName, cfg.maxDays, cfg.useUtc, none, -1⟩ : DailyFileSink L)
    rfl rfl rfl rfl ho s.disk
  exact ⟨fd, o.now, List.mem_append_right _ (List.mem_singleton_self _), hon, inode_of_diskOpened hdisk⟩

/-- The state after a `Write`'s opening. -/
theorem of_openToday (base : ILogSink L) {sink : DailyFileSink L} {o : DailyOutcome} {rs : List Int}
    {records : List (List Byte)} (hcal : s.ConsistentDates cfg) (hnow : cfg.calendar.Consistent o.now)
    (h : RolloverInv cfg s) (hsink : s.sink = some sink) (ho : o.reopen.opened = true)
    (hrs : ∀ t ∈ (if sink.getDay cfg.calendar o.now ≠ sink.currentDay then [o.now, o.reopen.now] else [o.now]), t ∈ rs) :
    RolloverInv cfg ⟨some { (sink.openToday cfg.calendar s.disk o).1 with toILogSink := base },
      (sink.openToday cfg.calendar s.disk o).2, rs, records⟩ := by
  obtain ⟨fd, t, ht, hon, hinode⟩ := h.onDay sink hsink
  obtain ⟨fd', t', ht', hon', hdisk⟩ := DailyFileSink.openToday_onDay (hcal t ht) hnow hon ho s.disk
  constructor
  intro sink' hsink'
  cases hsink'
  refine ⟨fd', t', hrs t' ht', hon'.withBase base, ?_⟩
  rcases hdisk with ⟨rfl, hsame⟩ | hdisk
  · rw [hsame]
    exact hinode
  · exact inode_of_diskOpened hdisk

theorem mem_readings {sink : DailyFileSink L} {entry : LogEntry L} {o : DailyOutcome} {t : Int}
    (hlevel : sink.shouldLog entry.level = true)
    (ht : t ∈ (if sink.getDay cfg.calendar o.now ≠ sink.currentDay then [o.now, o.reopen.now] else [o.now])) :
    t ∈ sink.readings cfg.calendar entry o := by
  rw [DailyFileSink.readings, if_neg (fun hn => hn hlevel)]
  exact ht

theorem now_mem_readings {sink : DailyFileSink L} {entry : LogEntry L} (hlevel : sink.shouldLog entry.level = true)
    (o : DailyOutcome) : o.now ∈ sink.readings cfg.calendar entry o := by
  refine mem_readings hlevel ?_
  split
  · exact List.mem_cons_self
  · exact List.mem_singleton_self _

/-- A call of `Write`. -/
theorem step_write {entry : LogEntry L} {o : DailyOutcome} (hcal : s'.ConsistentDates cfg) (h : RolloverInv cfg s)
    (ho : o.reopen.opened = true) (hstep : s.step cfg (.write entry o) = some s') : RolloverInv cfg s' := by
  have hold := hcal.of_step hstep
  obtain ⟨sink, hsink, rfl⟩ := DailyState.step_write_iff.mp hstep
  cases hrecord : sink.recordOf cfg.calendar entry with
  | none =>
    rcases DailyFileSink.write_of_nothing s.disk o hrecord with hwrite | ⟨hlevel, base, hwrite⟩
    · rw [hwrite]
      constructor
      intro sink' hsink'
      cases hsink'
      obtain ⟨fd, t, ht, hon⟩ := h.onDay sink hsink
      exact ⟨fd, t, List.mem_append_left _ ht, hon⟩
    · rw [hwrite]
      exact of_openToday base hold (hcal _ (List.mem_append_right _ (now_mem_readings hlevel o))) h hsink ho
        fun t ht => List.mem_append_right _ (mem_readings hlevel ht)
  | some text =>
    obtain ⟨hlevel, base, hwrite⟩ := DailyFileSink.write_of_record s.disk o hrecord
    have hopen : RolloverInv cfg ⟨some _, _, s.readings ++ sink.readings cfg.calendar entry o, s.records⟩ :=
      of_openToday base hold (hcal _ (List.mem_append_right _ (now_mem_readings hlevel o))) h hsink ho
        fun t ht => List.mem_append_right _ (mem_readings hlevel ht)
    rw [hwrite]
    constructor
    intro sink' hsink'
    cases hsink'
    obtain ⟨fd, t, ht, hon, hinode⟩ := hopen.onDay _ rfl
    have hfd : (sink.openToday cfg.calendar s.disk o).1.fd = some fd := hon.opened
    refine ⟨fd, t, ht, hon, fun hdays => ?_⟩
    simp only [hfd, DailyFileSink.appendLine_inode]
    exact hinode hdays

/-- **Every action keeps the invariant.** -/
theorem step {a : DailyAction L} (hcal : s'.ConsistentDates cfg) (h : RolloverInv cfg s) (ho : s.CallsSucceed cfg a)
    (hstep : s.step cfg a = some s') : RolloverInv cfg s' := by
  rcases DailyState.step_cases hstep with ⟨junk, o, rfl⟩ | ⟨entry, o, rfl⟩ | ⟨hdisk, hreadings, _, hsinks⟩
  · exact step_construct ho hstep
  · exact h.step_write hcal ho.1 hstep
  · constructor
    intro sink' hsink'
    obtain ⟨sink, base, hsink, rfl⟩ := hsinks sink' hsink'
    obtain ⟨fd, t, ht, hon, hinode⟩ := h.onDay sink hsink
    rw [hdisk, hreadings]
    exact ⟨fd, t, ht, hon.withBase base, hinode⟩

theorem of_reachableVia {start : Disk → Prop}
    (h : (dailyMachine L cfg start).ReachableVia (DailyState.CallsSucceed cfg) s) (hcal : s.ConsistentDates cfg) :
    RolloverInv cfg s := by
  refine Machine.ReachableVia.induct (fun s => s.ConsistentDates cfg → RolloverInv cfg s) ?_ ?_ h hcal
  · intro s hs _
    exact ⟨fun sink hsink => by rw [hs.1] at hsink; cases hsink⟩
  · intro s a s' _ hok hinv hstep hcal
    exact (hinv (hcal.of_step hstep)).step hcal hok hstep

end RolloverInv

namespace DailyFileSink

variable {cfg : DailyConfig} {sink : DailyFileSink L} {disk : Disk} {fd : OpenFile} {t : Int}

/-- **A `Write` with a record appends its line to the file of a time it read.** -/
theorem OnDay.write_record {entry : LogEntry L} {o : DailyOutcome} {text : List Byte}
    (hcal : cfg.calendar.Consistent t) (hnow : cfg.calendar.Consistent o.now) (h : sink.OnDay cfg fd t)
    (ho : o.reopen.opened = true) (hrecord : sink.recordOf cfg.calendar entry = some text)
    (hline : o.line.Full text.length) (disk : Disk) :
    ∃ fd' disk', ∃ t' ∈ sink.readings cfg.calendar entry o,
      fd'.name = sink.makeFilename cfg.calendar t' ∧ (sink.write cfg.calendar entry disk o).1.fd = some fd' ∧
      (fd' = fd ∧ disk' = disk ∨ DiskOpened cfg disk disk' fd') ∧
      (sink.write cfg.calendar entry disk o).2 = disk'.append fd'.inode (text ++ ascii "\n") := by
  obtain ⟨hlevel, base, hwrite⟩ := write_of_record disk o hrecord
  obtain ⟨fd', t', ht', hon, hdisk⟩ := openToday_onDay hcal hnow h ho disk
  have hsame := openToday_sameArgs cfg.calendar sink disk o
  have hname := hon.name.trans (hsame.makeFilename t')
  refine ⟨fd', (sink.openToday cfg.calendar disk o).2, t', RolloverInv.mem_readings hlevel ht', hname, ?_, hdisk, ?_⟩
  · rw [hwrite]
    exact hon.opened
  · rw [hwrite, hon.opened]
    exact appendLine_of_full hline

end DailyFileSink

/-- **Daily rollover is exact**: with consistent dates at the times it reads and no clean-up,
in every state the open file is the one named after a clock reading whose day is
`current_day_`; the day key and the file name tell the same times apart; and a
record goes to the file named after a reading of its own `Write`, and nowhere else. -/
theorem DailyState.rollover_exact {cfg : DailyConfig} {start : Disk → Prop} {s : DailyState L}
    (hdays : cfg.maxDays = 0) (h : (dailyMachine L cfg start).ReachableVia (DailyState.CallsSucceed cfg) s)
    (hcal : s.ConsistentDates cfg) :
    (∀ sink, s.sink = some sink → ∃ fd, ∃ t ∈ s.readings, sink.fd = some fd ∧
        fd.name = sink.makeFilename cfg.calendar t ∧ s.disk.inode fd.name = some fd.inode ∧
        sink.getDay cfg.calendar t = sink.currentDay) ∧
      (∀ (sink : DailyFileSink L) (t t' : Int), cfg.calendar.Consistent t → cfg.calendar.Consistent t' →
        (sink.getDay cfg.calendar t = sink.getDay cfg.calendar t' ↔
          sink.makeFilename cfg.calendar t = sink.makeFilename cfg.calendar t')) ∧
      ∀ entry o s' sink text, s.CallsSucceed cfg (.write entry o) → s.step cfg (.write entry o) = some s' →
        s'.ConsistentDates cfg → s.sink = some sink → sink.recordOf cfg.calendar entry = some text →
        ∃ t ∈ sink.readings cfg.calendar entry o, ∀ path, s'.disk.read path =
          if path = sink.makeFilename cfg.calendar t then some ((s.disk.read path).getD [] ++ (text ++ ascii "\n"))
          else s.disk.read path := by
  have hinv := RolloverInv.of_reachableVia h hcal
  refine ⟨?_, fun sink t t' ht ht' => DailyFileSink.getDay_eq_iff ht ht' sink, ?_⟩
  · intro sink hsink
    obtain ⟨fd, t, ht, hon, hinode⟩ := hinv.onDay sink hsink
    exact ⟨fd, t, ht, hon.opened, hon.name, hinode hdays, hon.day⟩
  · intro entry o s' sink text hok hstep hcal' hsink hrecord
    obtain ⟨sink', hsink', rfl⟩ := DailyState.step_write_iff.mp hstep
    cases hsink.symm.trans hsink'
    obtain ⟨fd, t, ht, hon, hinode⟩ := hinv.onDay sink hsink
    obtain ⟨hlevel, htext, _⟩ := ILogSink.record_eq_some_iff.mp hrecord
    have hnow := hcal' o.now (List.mem_append_right _ (RolloverInv.now_mem_readings hlevel o))
    obtain ⟨fd', disk', t', ht', hname, _, hdisk, hwrite⟩ :=
      hon.write_record (hcal t ht) hnow hok.1 hrecord (htext ▸ hok.2 sink hsink) s.disk
    refine ⟨t', ht', fun path => ?_⟩
    rw [← hname]
    show (sink.write cfg.calendar entry s.disk o).2.read path = _
    rw [hwrite]
    have hopened : DailyFileSink.DiskOpened cfg s.disk disk' fd' := by
      rcases hdisk with ⟨rfl, rfl⟩ | hdisk
      · exact DailyFileSink.diskOpened_of_inode (hinode hdays)
      · exact hdisk
    exact hopened.read_append hdays _ path

namespace DailyState

/-- A sink `logs/app_….log` without clean-up. -/
def appConfig : DailyConfig := ⟨.january1970, ascii "logs", ascii "app", 0, true⟩

/-- An opening at the time `t`. -/
def opens (t : Int) : OpenTodayOutcome := ⟨t, true, ⟨none, t⟩⟩

/-- The sink constructed one second before midnight. -/
def beforeMidnight : DailyFileSink Limits.desktop × Disk :=
  DailyFileSink.create appConfig.calendar (fun _ => 0) appConfig.baseDir appConfig.baseName appConfig.maxDays
    appConfig.useUtc .empty (opens 86399)

def lastSecond : DailyState Limits.desktop := ⟨some beforeMidnight.1, beforeMidnight.2, [] ++ [86399], []⟩

theorem lastSecond_reachable :
    (dailyMachine Limits.desktop appConfig fun _ => True).ReachableVia (CallsSucceed appConfig) lastSecond := by
  have hstart : (dailyMachine Limits.desktop appConfig fun _ => True).ReachableVia (CallsSucceed appConfig)
      ⟨none, .empty, [], []⟩ := .init ⟨rfl, rfl, rfl, trivial⟩
  have hok : CallsSucceed (L := Limits.desktop) appConfig ⟨none, .empty, [], []⟩
      (.construct (fun _ => 0) (opens 86399)) := rfl
  exact reachableVia_step hstart hok (step_construct_iff.mpr ⟨rfl, _, rfl, rfl⟩)

/-- A `Write` one second later, which is tomorrow. -/
def midnight : DailyOutcome := ⟨86400, opens 86400, ⟨some 2048, some 1⟩⟩

def nextDaySink : DailyFileSink Limits.desktop × Disk :=
  beforeMidnight.1.write appConfig.calendar (.zero _) beforeMidnight.2 midnight

def nextDay : DailyState Limits.desktop :=
  ⟨some nextDaySink.1, nextDaySink.2,
    lastSecond.readings ++ beforeMidnight.1.readings appConfig.calendar (.zero _) midnight,
    lastSecond.records ++ (beforeMidnight.1.recordOf appConfig.calendar (.zero _)).toList⟩

theorem midnight_callsSucceed (entry : LogEntry Limits.desktop) :
    lastSecond.CallsSucceed appConfig (.write entry midnight) := by
  refine ⟨rfl, fun sink _ => ⟨⟨2048, rfl, ?_⟩, ⟨1, rfl, Nat.le_refl 1⟩⟩⟩
  exact ILogSink.length_text_le _ _ _

/-- The record of the first `Write` after midnight stands in tomorrow's file, and today's is empty. -/
theorem rollover_exact_nextDay :
    ∃ text, beforeMidnight.1.recordOf appConfig.calendar (.zero _) = some text ∧
      nextDay.disk.read (ascii "logs/app_1970-01-01.log") = some [] ∧
      nextDay.disk.read (ascii "logs/app_1970-01-02.log") = some (text ++ ascii "\n") := by
  obtain ⟨text, htext⟩ : ∃ text, beforeMidnight.1.recordOf appConfig.calendar (.zero _) = some text :=
    Option.isSome_iff_exists.mp (by decide +kernel)
  have hstep : lastSecond.step appConfig (.write (.zero _) midnight) = some nextDay :=
    step_write_iff.mpr ⟨_, rfl, rfl⟩
  obtain ⟨t, ht, hread⟩ := (rollover_exact rfl lastSecond_reachable fun t _ => consistent_january1970 t).2.2
    (.zero _) midnight nextDay beforeMidnight.1 text (midnight_callsSucceed _) hstep
    (fun t _ => consistent_january1970 t) rfl htext
  have hreadings : beforeMidnight.1.readings appConfig.calendar (.zero _) midnight = [86400, 86400] := by
    decide +kernel
  obtain rfl : t = 86400 := by simpa [hreadings] using ht
  have hname : beforeMidnight.1.makeFilename appConfig.calendar 86400 = ascii "logs/app_1970-01-02.log" := by
    decide +kernel
  have htoday : lastSecond.disk.read (ascii "logs/app_1970-01-01.log") = some [] := by decide +kernel
  have htomorrow : lastSecond.disk.read (ascii "logs/app_1970-01-02.log") = none := by decide +kernel
  rw [hname] at hread
  refine ⟨text, htext, ?_, ?_⟩
  · rw [hread, if_neg (by decide), htoday]
  · rw [hread, if_pos rfl, htomorrow]
    rfl

end DailyState

end BrLogger
