import BrLogger.Lib.Machine
import BrLogger.Sink.Interface

/-!
# `DailyFileSink`

`daily_file_sink.cpp`.  The sink appends to a file named after a date, and opens
another one when the day of the clock is not the day it last opened a file on.
With `max_days` it then looks through the directory for files to delete.

Each reading of the clock, each system call and the listing of the directory is
told by the outcomes of a call.  `dailyMachine` runs a sink, which may be
destroyed and constructed again at any point, on the files of a disk; it keeps
the clock readings made so far.
-/

namespace BrLogger

variable {L : Limits}

/-- The members of a `struct tm` the sink reads. -/
structure YearTm extends Tm where
  tmYday : Int32

/-- `gmtime_r` and `localtime_r`. -/
structure Calendar where
  gmtime : Int → YearTm
  localtime : Int → YearTm

/-- What the formatters take from it. -/
def Calendar.toLocalTime (calendar : Calendar) : LocalTime := fun t => (calendar.localtime t).toTm

/-- UTC on the first two days of 1970. -/
def january1970 (t : Int) : YearTm where
  tmYear := 70
  tmMon := 0
  tmMday := if t < 86400 then 1 else 2
  tmHour := Int32.ofInt (t % 86400 / 3600)
  tmMin := Int32.ofInt (t % 3600 / 60)
  tmSec := Int32.ofInt (t % 60)
  tmYday := if t < 86400 then 0 else 1

def Calendar.january1970 : Calendar := ⟨BrLogger.january1970, BrLogger.january1970⟩

structure DailyFileSink (L : Limits) extends ILogSink L where
  baseDir : List Byte
  baseName : List Byte
  maxDays : Nat
  useUtc : Bool
  fd : Option OpenFile
  currentDay : Int32

/-- A directory entry: its name, its `st_mtime` when `stat(2)` succeeds, and
whether `unlink(2)` would. -/
structure DirEntry where
  name : List Byte
  mtime : Option Int
  unlinked : Bool

/-- What `CleanupOldFiles` meets: the directory, when it can be opened, and the time. -/
structure CleanupOutcome where
  listing : Option (List DirEntry)
  now : Int

/-- What `OpenFileForToday` meets: the time, whether `open(2)` succeeds, and the clean-up. -/
structure OpenTodayOutcome where
  now : Int
  opened : Bool
  cleanup : CleanupOutcome

/-- What a `Write` meets: the time, the opening it may need and the two writes. -/
structure DailyOutcome where
  now : Int
  reopen : OpenTodayOutcome
  line : LineOutcome

namespace DailyFileSink

/-- `tm_buf`, as `use_utc_` says. -/
def tmOf (calendar : Calendar) (sink : DailyFileSink L) (t : Int) : YearTm :=
  if sink.useUtc then calendar.gmtime t else calendar.localtime t

/-- `GetDay(t)`. -/
def getDay (calendar : Calendar) (sink : DailyFileSink L) (t : Int) : Int32 :=
  (sink.tmOf calendar t).tmYday + (sink.tmOf calendar t).tmYear * 366

/-- `base_dir_` with its slash and a name. -/
def fullPath (sink : DailyFileSink L) (name : List Byte) : List Byte :=
  (if sink.baseDir ≠ [] ∧ sink.baseDir.getLast? ≠ some 47 then sink.baseDir ++ ascii "/" else sink.baseDir) ++ name

/-- `date_str`, which has room for 31 bytes. -/
def dateStr (calendar : Calendar) (sink : DailyFileSink L) (t : Int) : List Byte :=
  (dateText (sink.tmOf calendar t).toTm).take 31

/-- `MakeFilename(t)`. -/
def makeFilename (calendar : Calendar) (sink : DailyFileSink L) (t : Int) : List Byte :=
  sink.fullPath (sink.baseName ++ ascii "_" ++ sink.dateStr calendar t ++ ascii ".log")

/-- The tests of `CleanupOldFiles` in front of `unlink`. -/
def unlinks (sink : DailyFileSink L) (now : Int) (ent : DirEntry) : Bool :=
  let pre := sink.baseName ++ ascii "_"
  let suf := ascii ".log"
  if ent.name.length < pre.length + suf.length then false
  else if ent.name.take pre.length ≠ pre then false
  else if ent.name.drop (ent.name.length - suf.length) ≠ suf then false
  else
    match ent.mtime with
    | some mtime => (sink.maxDays : Int) * 86400 < now - mtime
    | none => false

/-- The loop of `CleanupOldFiles`. -/
def cleanupLoop (sink : DailyFileSink L) (now : Int) : List DirEntry → Disk → Disk
  | [], disk => disk
  | ent :: listing, disk =>
    let disk := if sink.unlinks now ent ∧ ent.unlinked then disk.remove (sink.fullPath ent.name) else disk
    cleanupLoop sink now listing disk

def cleanupOldFiles (sink : DailyFileSink L) (disk : Disk) (o : CleanupOutcome) : Disk :=
  match o.listing with
  | some listing => sink.cleanupLoop o.now listing disk
  | none => disk

def openFileForToday (calendar : Calendar) (sink : DailyFileSink L) (disk : Disk) (o : OpenTodayOutcome) :
    DailyFileSink L × Disk :=
  let filename := sink.makeFilename calendar o.now
  let (disk, fd) :=
    if o.opened then
      let (disk, fd) := disk.openAppend filename
      (disk, some fd)
    else (disk, none)
  let sink := { sink with fd := fd, currentDay := sink.getDay calendar o.now }
  (sink, if 0 < sink.maxDays then sink.cleanupOldFiles disk o.cleanup else disk)

/-- The constructor. -/
def create (calendar : Calendar) (junk : Nat → Byte) (baseDir baseName : List Byte) (maxDays : Nat) (useUtc : Bool)
    (disk : Disk) (o : OpenTodayOutcome) : DailyFileSink L × Disk :=
  let sink : DailyFileSink L :=
    { ILogSink.create L junk with
      baseDir := baseDir
      baseName := baseName
      maxDays := maxDays
      useUtc := useUtc
      fd := none
      currentDay := -1 }
  sink.openFileForToday calendar disk o

/-- The formatter of a sink that was given none. -/
def defaultFormatter (L : Limits) (calendar : Calendar) : IFormatter L :=
  PatternFormatter.toIFormatter L calendar.toLocalTime
    ⟨ascii "[%D %T%e] [%C%L%R] [tid:%t] [%f:%#::%n] %g %m", false⟩

/-- The file of a `Write`: today's. -/
def openToday (calendar : Calendar) (sink : DailyFileSink L) (disk : Disk) (o : DailyOutcome) :
    DailyFileSink L × Disk :=
  let today := sink.getDay calendar o.now
  if today ≠ sink.currentDay then sink.openFileForToday calendar disk o.reopen else (sink, disk)

/-- The two `write(2)` calls, whose results are ignored. -/
def appendLine (disk : Disk) (fd : OpenFile) (text : List Byte) (o : LineOutcome) : Disk :=
  let (disk, _) := disk.write fd text o.text
  let (disk, _) := disk.write fd (ascii "\n") o.newline
  disk

/-- `Write(entry)`. -/
def write (calendar : Calendar) (sink : DailyFileSink L) (entry : LogEntry L) (disk : Disk) (o : DailyOutcome) :
    DailyFileSink L × Disk :=
  if ¬ sink.shouldLog entry.level then (sink, disk)
  else
    let sink := { sink with toILogSink := sink.withDefault (defaultFormatter L calendar) }
    let (sink, disk) := sink.openToday calendar disk o
    let (base, len) := sink.doFormat entry
    let sink := { sink with toILogSink := base }
    if len = 0 then (sink, disk)
    else
      match sink.fd with
      | none => (sink, disk)
      | some fd => (sink, appendLine disk fd (sink.formatBuf.bytes len) o.line)

/-- What a call `Write(entry)` has to record. -/
def recordOf (calendar : Calendar) (sink : DailyFileSink L) (entry : LogEntry L) : Option (List Byte) :=
  sink.record (defaultFormatter L calendar) entry

/-- The clock readings of a `Write` that may name its file. -/
def readings (calendar : Calendar) (sink : DailyFileSink L) (entry : LogEntry L) (o : DailyOutcome) : List Int :=
  if ¬ sink.shouldLog entry.level then []
  else if sink.getDay calendar o.now ≠ sink.currentDay then [o.now, o.reopen.now]
  else [o.now]

/-! ### What a call does -/

variable {calendar : Calendar} {sink : DailyFileSink L} {disk : Disk} {entry : LogEntry L}

theorem fullPath_inj {name name' : List Byte} : sink.fullPath name = sink.fullPath name' ↔ name = name' :=
  List.append_right_inj _

/-- A name as `MakeFilename` builds it from a text. -/
def nameOf (baseName x : List Byte) : List Byte := baseName ++ ascii "_" ++ x ++ ascii ".log"

theorem makeFilename_eq (calendar : Calendar) (sink : DailyFileSink L) (t : Int) :
    sink.makeFilename calendar t = sink.fullPath (nameOf sink.baseName (sink.dateStr calendar t)) := rfl

theorem nameOf_inj {b x y : List Byte} : nameOf b x = nameOf b y ↔ x = y := by
  simp only [nameOf, List.append_assoc, List.append_cancel_left_eq, List.append_cancel_right_eq]

/-- What opening a file leaves of a sink. -/
structure SameArgs (sink sink' : DailyFileSink L) : Prop where
  base : sink'.toILogSink = sink.toILogSink
  baseDir : sink'.baseDir = sink.baseDir
  baseName : sink'.baseName = sink.baseName
  maxDays : sink'.maxDays = sink.maxDays
  useUtc : sink'.useUtc = sink.useUtc

theorem SameArgs.makeFilename {sink' : DailyFileSink L} (h : sink.SameArgs sink') (t : Int) :
    sink'.makeFilename calendar t = sink.makeFilename calendar t := by
  simp only [DailyFileSink.makeFilename, fullPath, dateStr, tmOf, h.baseDir, h.baseName, h.useUtc]

theorem openToday_sameArgs (calendar : Calendar) (sink : DailyFileSink L) (disk : Disk) (o : DailyOutcome) :
    sink.SameArgs (sink.openToday calendar disk o).1 := by
  rw [openToday]
  split
  · exact ⟨rfl, rfl, rfl, rfl, rfl⟩
  · exact ⟨rfl, rfl, rfl, rfl, rfl⟩

/-! Opening does not depend on the formatter, the level or the buffer. -/

theorem cleanupLoop_withBase (sink : DailyFileSink L) (base : ILogSink L) (now : Int) (listing : List DirEntry)
    (disk : Disk) :
    ({ sink with toILogSink := base } : DailyFileSink L).cleanupLoop now listing disk =
      sink.cleanupLoop now listing disk := by
  induction listing generalizing disk with
  | nil => rfl
  | cons ent listing ih =>
    rw [cleanupLoop, cleanupLoop, ih]
    rfl

theorem openToday_withBase (calendar : Calendar) (sink : DailyFileSink L) (base : ILogSink L) (disk : Disk)
    (o : DailyOutcome) :
    ({ sink with toILogSink := base } : DailyFileSink L).openToday calendar disk o =
      ({ (sink.openToday calendar disk o).1 with toILogSink := base }, (sink.openToday calendar disk o).2) := by
  have hcleanup : ∀ (fd : Option OpenFile) (day : Int32) (disk : Disk),
      cleanupOldFiles { { sink with toILogSink := base } with fd := fd, currentDay := day } disk o.reopen.cleanup =
        cleanupOldFiles { sink with fd := fd, currentDay := day } disk o.reopen.cleanup := by
    intro fd day disk
    rw [cleanupOldFiles, cleanupOldFiles]
    split
    · exact cleanupLoop_withBase { sink with fd := fd, currentDay := day } base _ _ _
    · rfl
  have hday : ({ sink with toILogSink := base } : DailyFileSink L).getDay calendar o.now = sink.getDay calendar o.now :=
    rfl
  simp only [openToday, hday]
  split
  · simp only [openFileForToday, hcleanup]
    split <;> split <;> rfl
  · rfl

/-- A call with nothing to record may still open a file. -/
theorem write_of_nothing (disk : Disk) (o : DailyOutcome) (h : sink.recordOf calendar entry = none) :
    sink.write calendar entry disk o = (sink, disk) ∨
      sink.shouldLog entry.level = true ∧ ∃ base, sink.write calendar entry disk o =
        ({ (sink.openToday calendar disk o).1 with toILogSink := base }, (sink.openToday calendar disk o).2) := by
  rw [write]
  by_cases hlevel : sink.shouldLog entry.level = true
  · rw [if_neg (fun hn => hn hlevel)]
    have hlen := ILogSink.length_text sink.toILogSink (defaultFormatter L calendar) entry
    have hzero : (ILogSink.doFormat (sink.withDefault (defaultFormatter L calendar)) entry).2 = 0 := by
      rw [← hlen, List.length_eq_zero_iff]
      by_contra hne
      rw [recordOf, ILogSink.record, if_pos ⟨hlevel, hne⟩] at h
      cases h
    refine Or.inr ⟨hlevel, (ILogSink.doFormat (sink.withDefault (defaultFormatter L calendar)) entry).1, ?_⟩
    simp only [openToday_withBase, hzero, if_true]
  · rw [if_pos hlevel]
    exact Or.inl rfl

/-- **A call with a record**: open today's file, then append the line. -/
theorem write_of_record {text : List Byte} (disk : Disk) (o : DailyOutcome)
    (h : sink.recordOf calendar entry = some text) :
    sink.shouldLog entry.level = true ∧ ∃ base, sink.write calendar entry disk o =
      ({ (sink.openToday calendar disk o).1 with toILogSink := base },
        match (sink.openToday calendar disk o).1.fd with
        | none => (sink.openToday calendar disk o).2
        | some fd => appendLine (sink.openToday calendar disk o).2 fd text o.line) := by
  obtain ⟨hlevel, htext, hne⟩ := ILogSink.record_eq_some_iff.mp h
  have hlen := ILogSink.length_text sink.toILogSink (defaultFormatter L calendar) entry
  rw [htext] at hlen
  have hbytes : (ILogSink.doFormat (sink.withDefault (defaultFormatter L calendar)) entry).1.formatBuf.bytes
      text.length = text := by
    rw [hlen]
    exact htext
  refine ⟨hlevel, (ILogSink.doFormat (sink.withDefault (defaultFormatter L calendar)) entry).1, ?_⟩
  rw [write, if_neg (fun hn => hn hlevel)]
  simp only [openToday_withBase, ← hlen]
  rw [if_neg (fun hz => hne (List.length_eq_zero_iff.mp hz)), hbytes]
  split <;> rename_i hfd <;> rw [hfd]

theorem appendLine_inode (disk : Disk) (fd : OpenFile) (text : List Byte) (o : LineOutcome) :
    (appendLine disk fd text o).inode = disk.inode :=
  (FileSystem.write_inode _ _ fd o.newline).trans (FileSystem.write_inode disk text fd o.text)

/-- Both calls of a line transfer all they are given. -/
theorem appendLine_of_full {fd : OpenFile} {text : List Byte} {o : LineOutcome} (h : o.Full text.length) :
    appendLine disk fd text o = disk.append fd.inode (text ++ ascii "\n") := by
  obtain ⟨⟨n, hn, hlen⟩, ⟨m, hm, hone⟩⟩ := h
  have hnl : (ascii "\n").length = 1 := by decide
  rw [appendLine, hn, hm]
  simp only [FileSystem.write_full _ _ _ hlen, FileSystem.write_full _ _ _ (show (ascii "\n").length ≤ m by omega),
    FileSystem.append_append]

end DailyFileSink

/-! ### Runs -/

/-- The arguments a sink is constructed with, every time. -/
structure DailyConfig where
  calendar : Calendar
  baseDir : List Byte
  baseName : List Byte
  maxDays : Nat
  useUtc : Bool

/-- A sink, or none between its destruction and the next construction, the disk,
the clock readings so far that may have named a file, and the records. -/
structure DailyState (L : Limits) where
  sink : Option (DailyFileSink L)
  disk : Disk
  readings : List Int
  records : List (List Byte)

inductive DailyAction (L : Limits)
  | construct (junk : Nat → Byte) (o : OpenTodayOutcome)
  | destroy
  | setFormatter (formatter : IFormatter L)
  | setLevel (level : LogLevel)
  | write (entry : LogEntry L) (o : DailyOutcome)

namespace DailyState

def step (cfg : DailyConfig) (s : DailyState L) : DailyAction L → Option (DailyState L)
  | .construct junk o =>
    match s.sink with
    | some _ => none
    | none =>
      let (sink, disk) :=
        DailyFileSink.create cfg.calendar junk cfg.baseDir cfg.baseName cfg.maxDays cfg.useUtc s.disk o
      some { s with sink := some sink, disk := disk, readings := s.readings ++ [o.now] }
  | .destroy =>
    match s.sink with
    | some _ => some { s with sink := none }
    | none => none
  | .setFormatter formatter =>
    match s.sink with
    | some sink => some { s with sink := some { sink with toILogSink := sink.setFormatter formatter } }
    | none => none
  | .setLevel level =>
    match s.sink with
    | some sink => some { s with sink := some { sink with toILogSink := sink.setLevel level } }
    | none => none
  | .write entry o =>
    match s.sink with
    | some sink =>
      let (sink', disk) := sink.write cfg.calendar entry s.disk o
      some ⟨some sink', disk, s.readings ++ sink.readings cfg.calendar entry o,
        s.records ++ (sink.recordOf cfg.calendar entry).toList⟩
    | none => none

/-- What a call of `Write` does to the state. -/
theorem step_write_iff {cfg : DailyConfig} {s s' : DailyState L} {entry : LogEntry L} {o : DailyOutcome} :
    s.step cfg (.write entry o) = some s' ↔
      ∃ sink, s.sink = some sink ∧
        s' = ⟨some (sink.write cfg.calendar entry s.disk o).1, (sink.write cfg.calendar entry s.disk o).2,
          s.readings ++ sink.readings cfg.calendar entry o,
          s.records ++ (sink.recordOf cfg.calendar entry).toList⟩ := by
  have hstep : s.step cfg (.write entry o) = s.sink.map fun sink =>
      ⟨some (sink.write cfg.calendar entry s.disk o).1, (sink.write cfg.calendar entry s.disk o).2,
        s.readings ++ sink.readings cfg.calendar entry o,
        s.records ++ (sink.recordOf cfg.calendar entry).toList⟩ := by
    rw [step]
    cases s.sink with
    | none => rfl
    | some sink => rfl
  rw [hstep, Option.map_eq_some_iff]
  exact exists_congr fun _ => and_congr_right fun _ => eq_comm

/-- What a construction does to the state. -/
theorem step_construct_iff {cfg : DailyConfig} {s s' : DailyState L} {junk : Nat → Byte} {o : OpenTodayOutcome} :
    s.step cfg (.construct junk o) = some s' ↔
      s.sink = none ∧ ∃ room,
        room = DailyFileSink.create (L := L) cfg.calendar junk cfg.baseDir cfg.baseName cfg.maxDays cfg.useUtc s.disk o ∧
          s' = ⟨some room.1, room.2, s.readings ++ [o.now], s.records⟩ := by
  rw [step]
  cases s.sink with
  | none =>
    constructor
    · intro h
      exact ⟨rfl, _, rfl, (Option.some.inj h).symm⟩
    · intro h
      obtain ⟨_, _, rfl, rfl⟩ := h
      rfl
  | some sink =>
    constructor
    · intro h
      cases h
    · intro h
      cases h.1

/-- **What an action does**: it constructs, it writes, or it leaves the files alone, and
of the sink all but its base. -/
theorem step_cases {cfg : DailyConfig} {s s' : DailyState L} {a : DailyAction L} (h : s.step cfg a = some s') :
    (∃ junk o, a = .construct junk o) ∨ (∃ entry o, a = .write entry o) ∨
      (s'.disk = s.disk ∧ s'.readings = s.readings ∧ s'.records = s.records ∧ ∀ sink', s'.sink = some sink' →
        ∃ sink base, s.sink = some sink ∧ sink' = { sink with toILogSink := base }) := by
  cases a with
  | construct junk o => exact Or.inl ⟨junk, o, rfl⟩
  | write entry o => exact Or.inr (Or.inl ⟨entry, o, rfl⟩)
  | destroy =>
    rw [step] at h
    split at h
    · cases h
      exact Or.inr (Or.inr ⟨rfl, rfl, rfl, fun _ hs => by cases hs⟩)
    · cases h
  | setFormatter | setLevel =>
    rw [step] at h
    split at h
    · rename_i sink hsink
      cases h
      refine Or.inr (Or.inr ⟨rfl, rfl, rfl, fun _ hs => ?_⟩)
      cases hs
      exact ⟨sink, _, hsink, rfl⟩
    · cases h

end DailyState

/-- Runs from a disk that satisfies `start`, with no sink yet. -/
def dailyMachine (L : Limits) (cfg : DailyConfig) (start : Disk → Prop) :
    Machine (DailyState L) (DailyAction L) where
  init s := s.sink = none ∧ s.readings = [] ∧ s.records = [] ∧ start s.disk
  step s a := s.step cfg a

theorem DailyState.reachableVia_step {cfg : DailyConfig} {start : Disk → Prop}
    {ok : DailyState L → DailyAction L → Prop} {s s' : DailyState L} {a : DailyAction L}
    (h : (dailyMachine L cfg start).ReachableVia ok s) (hok : ok s a) (hstep : s.step cfg a = some s') :
    (dailyMachine L cfg start).ReachableVia ok s' := .step h hok hstep

end BrLogger
