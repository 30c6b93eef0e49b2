import BrLogger.Lib.Machine
import BrLogger.Sink.Interface

/-!
# `RotatingFileSink`

`rotating_file_sink.cpp`.  The sink appends to the file `base_path`; a record
that would make it longer than `max_file_size` is preceded by a rotation, which
renames `base.(i - 1).log` to `base.i.log` from the oldest file down to
`base_path` itself and opens a new one.

Every system call is told how it comes out.  `rotatingMachine` runs a sink,
which may be destroyed and constructed again at any point, on the files of a
disk; it keeps the records the calls of `Write` had to write.
-/

namespace BrLogger

variable {L : Limits}

structure RotatingFileSink (L : Limits) extends ILogSink L where
  basePath : List Byte
  maxFileSize : Nat
  maxFiles : Nat
  currentSize : Nat
  fd : Option OpenFile

/-- How `open(2)` and `fstat(2)` come out in `OpenFile`. -/
structure OpenOutcome where
  opened : Bool
  statted : Bool

/-- How the calls of a `Rotate` come out; `renamed i` is about the rename to `base.i.log`. -/
structure RotateOutcome where
  removed : Bool
  renamed : Nat → Bool
  reopen : OpenOutcome

/-- How the calls of a `Write` come out, those of the rotation it may need first. -/
structure RotatingOutcome where
  rotate : RotateOutcome
  line : LineOutcome

/-- Every call of a `Write` succeeds. -/
def RotatingOutcome.allSucceed : RotatingOutcome := ⟨⟨true, fun _ => true, ⟨true, true⟩⟩, ⟨some 2048, some 1⟩⟩

/-- The `k`-th newest file: `base`, then `base.1.log`, `base.2.log` and so on. -/
def logName (basePath : List Byte) : Nat → List Byte
  | 0 => basePath
  | k + 1 => basePath ++ ascii "." ++ decimal (k + 1) ++ ascii ".log"

namespace RotatingFileSink

def openFile (sink : RotatingFileSink L) (disk : Disk) (o : OpenOutcome) : RotatingFileSink L × Disk :=
  if o.opened then
    let (disk, fd) := disk.openAppend sink.basePath
    let size := if o.statted then sizeT (disk.contents fd.inode).length else 0
    ({ sink with fd := some fd, currentSize := size }, disk)
  else ({ sink with fd := none }, disk)

/-- The constructor. -/
def create (junk : Nat → Byte) (basePath : List Byte) (maxFileSize maxFiles : Nat) (disk : Disk)
    (o : OpenOutcome) : RotatingFileSink L × Disk :=
  let sink : RotatingFileSink L :=
    { ILogSink.create L junk with
      basePath := basePath
      maxFileSize := maxFileSize
      maxFiles := maxFiles
      currentSize := 0
      fd := none }
  sink.openFile disk o

/-- The loop of `Rotate` from `i` down to `1`. -/
def renameLoop (basePath : List Byte) (maxFiles : Nat) (o : RotateOutcome) : Nat → Disk → Disk
  | 0, disk => disk
  | i + 1, disk =>
    let src := logName basePath i
    let dst := logName basePath (i + 1)
    let disk := if i + 1 = maxFiles ∧ o.removed then disk.remove dst else disk
    let disk := if o.renamed (i + 1) then disk.rename src dst else disk
    renameLoop basePath maxFiles o i disk

def rotate (sink : RotatingFileSink L) (disk : Disk) (o : RotateOutcome) : RotatingFileSink L × Disk :=
  let disk := renameLoop sink.basePath sink.maxFiles o sink.maxFiles disk
  { sink with fd := none, currentSize := 0 }.openFile disk o.reopen

/-- The test in front of a record of `len` bytes: rotate when it does not fit. -/
def makeRoom (sink : RotatingFileSink L) (disk : Disk) (len : Nat) (o : RotateOutcome) :
    RotatingFileSink L × Disk :=
  if sink.maxFileSize < sizeT (sizeT (sink.currentSize + len) + 1) then sink.rotate disk o else (sink, disk)

/-- `if (written > 0) current_size_ += written;` -/
def grow (sink : RotatingFileSink L) (written : Int) : RotatingFileSink L :=
  if 0 < written then { sink with currentSize := sizeT (sink.currentSize + written.toNat) } else sink

/-- The two `write(2)` calls. -/
def appendLine (sink : RotatingFileSink L) (disk : Disk) (fd : OpenFile) (text : List Byte) (o : LineOutcome) :
    RotatingFileSink L × Disk :=
  let (disk, written) := disk.write fd text o.text
  let sink := sink.grow written
  let (disk, written) := disk.write fd (ascii "\n") o.newline
  let sink := if 0 < written then { sink with currentSize := sizeT (sink.currentSize + 1) } else sink
  (sink, disk)

/-- The formatter of a sink that was given none. -/
def defaultFormatter (L : Limits) (localtime : LocalTime) : IFormatter L :=
  PatternFormatter.toIFormatter L localtime ⟨ascii "[%D %T%e] [%L] [tid:%t] [%f:%#::%n] %g %m", false⟩

/-- `Write(entry)`. -/
def write (localtime : LocalTime) (sink : RotatingFileSink L) (entry : LogEntry L) (disk : Disk)
    (o : RotatingOutcome) : RotatingFileSink L × Disk :=
  if ¬ sink.shouldLog entry.level then (sink, disk)
  else
    let (base, len) := (sink.withDefault (defaultFormatter L localtime)).doFormat entry
    let sink := { sink with toILogSink := base }
    if len = 0 ∨ sink.fd = none then (sink, disk)
    else
      let (sink, disk) := sink.makeRoom disk len o.rotate
      match sink.fd with
      | none => (sink, disk)
      | some fd => sink.appendLine disk fd (sink.formatBuf.bytes len) o.line

/-- What a call `Write(entry)` has to record. -/
def recordOf (localtime : LocalTime) (sink : RotatingFileSink L) (entry : LogEntry L) : Option (List Byte) :=
  sink.record (defaultFormatter L localtime) entry

end RotatingFileSink

/-! ### What a call does -/

namespace RotatingFileSink

variable {sink : RotatingFileSink L} {disk : Disk} {localtime : LocalTime} {entry : LogEntry L}

theorem openFile_of_opened {o : OpenOutcome} (h : o.opened = true) :
    sink.openFile disk o =
      ({ sink with
          fd := some (disk.openAppend sink.basePath).2
          currentSize :=
            if o.statted then sizeT ((disk.openAppend sink.basePath).1.contents
              (disk.openAppend sink.basePath).2.inode).length else 0 },
        (disk.openAppend sink.basePath).1) := by
  rw [openFile, if_pos h]

theorem openFile_of_not_opened {o : OpenOutcome} (h : o.opened = false) :
    sink.openFile disk o = ({ sink with fd := none }, disk) := by
  rw [openFile, if_neg (by rw [h]; exact Bool.false_ne_true)]

/-- A call that has nothing to record, or no file to record it in, leaves the
files alone. -/
theorem write_of_nothing (disk : Disk) (o : RotatingOutcome)
    (h : sink.recordOf localtime entry = none ∨ sink.fd = none) :
    ∃ base, sink.write localtime entry disk o = ({ sink with toILogSink := base }, disk) := by
  rw [write]
  by_cases hlevel : sink.shouldLog entry.level = true
  · rw [if_neg (fun hn => hn hlevel)]
    have hlen := ILogSink.length_text sink.toILogSink (defaultFormatter L localtime) entry
    have hguard : (ILogSink.doFormat (sink.withDefault (defaultFormatter L localtime)) entry).2 = 0 ∨ sink.fd = none := by
      rcases h with h | h
      · left
        rw [← hlen, List.length_eq_zero_iff]
        by_contra hne
        rw [recordOf, ILogSink.record, if_pos ⟨hlevel, hne⟩] at h
        cases h
      · exact Or.inr h
    simp only [if_pos hguard]
    exact ⟨_, rfl⟩
  · rw [if_pos hlevel]
    exact ⟨sink.toILogSink, rfl⟩

theorem write_of_closed (localtime : LocalTime) (entry : LogEntry L) (disk : Disk) (o : RotatingOutcome)
    (h : sink.fd = none) : ∃ base, sink.write localtime entry disk o = ({ sink with toILogSink := base }, disk) :=
  write_of_nothing disk o (Or.inr h)

/-- Making room does not depend on the formatter, the level or the buffer. -/
theorem makeRoom_withBase (sink : RotatingFileSink L) (base : ILogSink L) (disk : Disk) (len : Nat) (o : RotateOutcome) :
    ({ sink with toILogSink := base } : RotatingFileSink L).makeRoom disk len o =
      ({ (sink.makeRoom disk len o).1 with toILogSink := base }, (sink.makeRoom disk len o).2) := by
  simp only [makeRoom, rotate, openFile]
  split
  · split <;> rfl
  · rfl

/-- **A call with a record and a file**: make room, then append the line. -/
theorem write_of_record {text : List Byte} (disk : Disk) (o : RotatingOutcome)
    (h : sink.recordOf localtime entry = some text) (hfd : sink.fd ≠ none) :
    ∃ base, sink.write localtime entry disk o =
      match (sink.makeRoom disk text.length o.rotate).1.fd with
      | none => ({ (sink.makeRoom disk text.length o.rotate).1 with toILogSink := base },
          (sink.makeRoom disk text.length o.rotate).2)
      | some fd => appendLine { (sink.makeRoom disk text.length o.rotate).1 with toILogSink := base }
          (sink.makeRoom disk text.length o.rotate).2 fd text o.line := by
  obtain ⟨hlevel, htext, hne⟩ := ILogSink.record_eq_some_iff.mp h
  have hlen := ILogSink.length_text sink.toILogSink (defaultFormatter L localtime) entry
  rw [htext] at hlen
  have hbytes : (ILogSink.doFormat (sink.withDefault (defaultFormatter L localtime)) entry).1.formatBuf.bytes
      text.length = text := by
    rw [hlen]
    exact htext
  have hguard : ¬ (text.length = 0 ∨ sink.fd = none) :=
    fun hg => hg.elim (fun hz => hne (List.length_eq_zero_iff.mp hz)) hfd
  refine ⟨(ILogSink.doFormat (sink.withDefault (defaultFormatter L localtime)) entry).1, ?_⟩
  rw [write, if_neg (fun hn => hn hlevel)]
  simp only [← hlen]
  rw [if_neg hguard]
  simp only [makeRoom_withBase, hbytes]

/-- Both calls of a line transfer all they are given. -/
theorem appendLine_of_full {fd : OpenFile} {text : List Byte} {o : LineOutcome} (hne : text ≠ [])
    (h : o.Full text.length) :
    sink.appendLine disk fd text o =
      ({ sink with currentSize := sizeT (sizeT (sink.currentSize + text.length) + 1) },
        disk.append fd.inode (text ++ ascii "\n")) := by
  obtain ⟨⟨n, hn, hlen⟩, ⟨m, hm, hone⟩⟩ := h
  have hpos := List.length_pos_iff.mpr hne
  have hnl : (ascii "\n").length = 1 := by decide
  rw [appendLine, hn, hm]
  simp only [FileSystem.write_full _ _ _ hlen, FileSystem.write_full _ _ _ (show (ascii "\n").length ≤ m by omega),
    FileSystem.append_append, hnl]
  rw [grow, if_pos (by omega), if_pos (by omega)]
  rfl

theorem appendLine_of_full_disk {fd : OpenFile} {text : List Byte} {o : LineOutcome} (hne : text ≠ [])
    (h : o.Full text.length) : (sink.appendLine disk fd text o).2 = disk.append fd.inode (text ++ ascii "\n") := by
  rw [appendLine_of_full hne h]

end RotatingFileSink

/-! ### Runs -/

/-- The arguments a sink is constructed with, every time. -/
structure RotatingConfig where
  localtime : LocalTime
  basePath : List Byte
  maxFileSize : Nat
  maxFiles : Nat

/-- A sink, or none between its destruction and the next construction, the disk,
and the records its `Write` calls had to write, oldest first. -/
structure RotatingState (L : Limits) where
  sink : Option (RotatingFileSink L)
  disk : Disk
  records : List (List Byte)

inductive RotatingAction (L : Limits)
  | construct (junk : Nat → Byte) (o : OpenOutcome)
  | destroy
  | setFormatter (formatter : IFormatter L)
  | setLevel (level : LogLevel)
  | write (entry : LogEntry L) (o : RotatingOutcome)

namespace RotatingState

def step (cfg : RotatingConfig) (s : RotatingState L) : RotatingAction L → Option (RotatingState L)
  | .construct junk o =>
    match s.sink with
    | some _ => none
    | none =>
      let (sink, disk) := RotatingFileSink.create junk cfg.basePath cfg.maxFileSize cfg.maxFiles s.disk o
      some { s with sink := some sink, disk := disk }
  | .destroy =>
    match s.sink with
    | some _ => some { s with sink := none }
    | none => none
  | .setFormatter formatter =>
    match s.sink with
    | some sink => some { s with sink := some { sink with toILogSink := sink.setFormatter formatter } }
    | none => none
  | .setLevel level =>
    match s.sink with
    | some sink => some { s with sink := some { sink with toILogSink := sink.setLevel level } }
    | none => none
  | .write entry o =>
    match s.sink with
    | some sink =>
      let (sink', disk) := sink.write cfg.localtime entry s.disk o
      some ⟨some sink', disk, s.records ++ (sink.recordOf cfg.localtime entry).toList⟩
    | none => none

/-- What a call of `Write` does to the state. -/
theorem step_write_iff {cfg : RotatingConfig} {s s' : RotatingState L} {entry : LogEntry L} {o : RotatingOutcome} :
    s.step cfg (.write entry o) = some s' ↔
      ∃ sink, s.sink = some sink ∧
        s' = ⟨some (sink.write cfg.localtime entry s.disk o).1, (sink.write cfg.localtime entry s.disk o).2,
          s.records ++ (sink.recordOf cfg.localtime entry).toList⟩ := by
  have hstep : s.step cfg (.write entry o) = s.sink.map fun sink =>
      ⟨some (sink.write cfg.localtime entry s.disk o).1, (sink.write cfg.localtime entry s.disk o).2,
        s.records ++ (sink.recordOf cfg.localtime entry).toList⟩ := by
    rw [step]
    cases s.sink with
    | none => rfl
    | some sink => rfl
  rw [hstep, Option.map_eq_some_iff]
  exact exists_congr fun _ => and_congr_right fun _ => eq_comm

/-- What a construction does to the state. -/
theorem step_construct_iff {cfg : RotatingConfig} {s s' : RotatingState L} {junk : Nat → Byte} {o : OpenOutcome} :
    s.step cfg (.construct junk o) = some s' ↔
      s.sink = none ∧
        s' = ⟨some (RotatingFileSink.create junk cfg.basePath cfg.maxFileSize cfg.maxFiles s.disk o).1,
          (RotatingFileSink.create (L := L) junk cfg.basePath cfg.maxFileSize cfg.maxFiles s.disk o).2, s.records⟩ := by
  rw [step]
  cases s.sink with
  | none =>
    constructor
    · intro h
      exact ⟨rfl, (Option.some.inj h).symm⟩
    · intro h
      rw [h.2]
  | some sink =>
    constructor
    · intro h
      cases h
    · intro h
      cases h.1

/-- **What an action does**: it constructs, it writes, or it leaves the files alone, and
of the sink all but its base. -/
theorem step_cases {cfg : RotatingConfig} {s s' : RotatingState L} {a : RotatingAction L} (h : s.step cfg a = some s') :
    (∃ junk o, a = .construct junk o) ∨ (∃ entry o, a = .write entry o) ∨
      (s'.disk = s.disk ∧ s'.records = s.records ∧ ∀ sink', s'.sink = some sink' →
        ∃ sink base, s.sink = some sink ∧ sink' = { sink with toILogSink := base }) := by
  cases a with
  | construct junk o => exact Or.inl ⟨junk, o, rfl⟩
  | write entry o => exact Or.inr (Or.inl ⟨entry, o, rfl⟩)
  | destroy =>
    rw [step] at h
    split at h
    · cases h
      exact Or.inr (Or.inr ⟨rfl, rfl, fun _ hs => by cases hs⟩)
    · cases h
  | setFormatter | setLevel =>
    rw [step] at h
    split at h
    · rename_i sink hsink
      cases h
      refine Or.inr (Or.inr ⟨rfl, rfl, fun _ hs => ?_⟩)
      cases hs
      exact ⟨sink, _, hsink, rfl⟩
    · cases h

end RotatingState

/-- Runs from a disk that satisfies `start`, with no sink yet. -/
def rotatingMachine (L : Limits) (cfg : RotatingConfig) (start : Disk → Prop) :
    Machine (RotatingState L) (RotatingAction L) where
  init s := s.sink = none ∧ s.records = [] ∧ start s.disk
  step s a := s.step cfg a

theorem RotatingState.reachableVia_step {cfg : RotatingConfig} {start : Disk → Prop}
    {ok : RotatingState L → RotatingAction L → Prop} {s s' : RotatingState L} {a : RotatingAction L}
    (h : (rotatingMachine L cfg start).ReachableVia ok s) (hok : ok s a) (hstep : s.step cfg a = some s') :
    (rotatingMachine L cfg start).ReachableVia ok s' := .step h hok hstep

end BrLogger
