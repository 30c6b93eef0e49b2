import BrLogger.Lib.Confined
import BrLogger.Lib.Progress
import BrLogger.Sink.FullHistory
import BrLogger.Sink.Retention
import BrLogger.Sink.SizeTracking

/-!
# Several file sinks on one disk

The backend gives every entry to every sink, so rotating and daily sinks take turns
on the files.  Whatever its system calls come to, a sink changes nothing but the
files of its own names: `base` and all `base.k.log` for a rotating one, all
`<base_name>_*.log` of its directory for a daily one (`confined_step`).  Where no
name belongs to two sinks they do not notice each other: files keep what they hold while
their own sink does not move (`shared_untouched`), and the history of a rotating
sink whose calls succeed is the one it would have alone (`shared_history`).  Daily
sinks `app` and `app_worker` of one directory do share names, since `app_worker_*.log`
begins with `app_`.
-/

namespace BrLogger

variable {L : Limits}

open FileSystem (Confined Private)

/-! ### A rotating sink -/

/-- The log files, rotated or not. -/
def RotatingConfig.Owns (cfg : RotatingConfig) (p : List Byte) : Prop := ∃ k, p = logName cfg.basePath k

namespace RotatingFileSink

/-- The sink works under its own names, and the file it has open is nobody else's. -/
structure OwnFiles (cfg : RotatingConfig) (sink : RotatingFileSink L) (disk : Disk) : Prop where
  basePath : sink.basePath = cfg.basePath
  opened : ∀ fd, sink.fd = some fd → disk.Private cfg.Owns fd.inode

variable {cfg : RotatingConfig} {sink : RotatingFileSink L} {disk : Disk}

theorem OwnFiles.withBase (h : OwnFiles cfg sink disk) (base : ILogSink L) :
    OwnFiles cfg { sink with toILogSink := base } disk := ⟨h.basePath, h.opened⟩

theorem confined_openFile (cfg : RotatingConfig) (sink : RotatingFileSink L) (hpath : sink.basePath = cfg.basePath)
    (disk : Disk) (o : OpenOutcome) :
    Confined cfg.Owns disk (sink.openFile disk o).2 ∧ OwnFiles cfg (sink.openFile disk o).1 (sink.openFile disk o).2 := by
  have hown : cfg.Owns sink.basePath := ⟨0, hpath⟩
  cases ho : o.opened with
  | true =>
    obtain ⟨hconfined, hprivate⟩ := FileSystem.confined_openAppend disk hown
    rw [openFile_of_opened ho]
    refine ⟨hconfined, hpath, fun fd hfd => ?_⟩
    cases hfd
    exact hprivate
  | false =>
    rw [openFile_of_not_opened ho]
    exact ⟨.refl disk, hpath, nofun⟩

theorem confined_renameLoop (maxFiles : Nat) (o : RotateOutcome) (n : Nat) (disk : Disk) :
    Confined cfg.Owns disk (renameLoop cfg.basePath maxFiles o n disk) := by
  induction n generalizing disk with
  | zero => exact .refl disk
  | succ n ih =>
    have hremove : ∀ disk : Disk, Confined cfg.Owns disk
        (if n + 1 = maxFiles ∧ o.removed then disk.remove (logName cfg.basePath (n + 1)) else disk) := by
      intro disk
      split
      · exact FileSystem.confined_remove ⟨n + 1, rfl⟩
      · exact .refl disk
    have hrename : ∀ disk : Disk, Confined cfg.Owns disk
        (if o.renamed (n + 1) then disk.rename (logName cfg.basePath n) (logName cfg.basePath (n + 1)) else disk) := by
      intro disk
      split
      · exact FileSystem.confined_rename ⟨n, rfl⟩ ⟨n + 1, rfl⟩
      · exact .refl disk
    rw [renameLoop]
    exact ((hremove disk).trans (hrename _)).trans (ih _)

theorem OwnFiles.makeRoom (h : OwnFiles cfg sink disk) (len : Nat) (o : RotateOutcome) :
    Confined cfg.Owns disk (sink.makeRoom disk len o).2 ∧
      OwnFiles cfg (sink.makeRoom disk len o).1 (sink.makeRoom disk len o).2 := by
  rw [RotatingFileSink.makeRoom]
  split
  · have hloop : Confined cfg.Owns disk (renameLoop sink.basePath sink.maxFiles o sink.maxFiles disk) := by
      rw [h.basePath]
      exact confined_renameLoop _ _ _ _
    have hopen := confined_openFile cfg { sink with fd := none, currentSize := 0 } h.basePath
      (renameLoop sink.basePath sink.maxFiles o sink.maxFiles disk) o.reopen
    exact ⟨hloop.trans hopen.1, hopen.2⟩
  · exact ⟨.refl disk, h⟩

theorem OwnFiles.appendLine (h : OwnFiles cfg sink disk) {fd : OpenFile} (hfd : sink.fd = some fd) (text : List Byte)
    (o : LineOutcome) :
    Confined cfg.Owns disk (sink.appendLine disk fd text o).2 ∧
      OwnFiles cfg (sink.appendLine disk fd text o).1 (sink.appendLine disk fd text o).2 := by
  have htext := FileSystem.confined_write fd (h.opened fd hfd) text o.text
  have hnewline := FileSystem.confined_write fd (htext.private_self (h.opened fd hfd)) (ascii "\n") o.newline
  have hconfined : Confined cfg.Owns disk (sink.appendLine disk fd text o).2 := htext.trans hnewline
  refine ⟨hconfined, appendLine_kept.2.trans h.basePath, fun fd' hfd' => ?_⟩
  rw [appendLine_kept.1] at hfd'
  exact hconfined.private_self (h.opened fd' hfd')

/-- **A call of `Write` stays in its own files**, whatever the system calls come to. -/
theorem OwnFiles.write (h : OwnFiles cfg sink disk) (localtime : LocalTime) (entry : LogEntry L) (o : RotatingOutcome) :
    Confined cfg.Owns disk (sink.write localtime entry disk o).2 ∧
      OwnFiles cfg (sink.write localtime entry disk o).1 (sink.write localtime entry disk o).2 := by
  by_cases hnothing : sink.recordOf localtime entry = none ∨ sink.fd = none
  · obtain ⟨base, hwrite⟩ := write_of_nothing disk o hnothing
    rw [hwrite]
    exact ⟨.refl disk, h.withBase base⟩
  · rw [not_or] at hnothing
    obtain ⟨text, hrecord⟩ := Option.ne_none_iff_exists'.mp hnothing.1
    obtain ⟨base, hwrite⟩ := write_of_record disk o hrecord hnothing.2
    obtain ⟨hroom, hown⟩ := h.makeRoom text.length o.rotate
    generalize sink.makeRoom disk text.length o.rotate = room at hwrite hroom hown
    split at hwrite
    · rw [hwrite]
      exact ⟨hroom, hown.withBase base⟩
    · rename_i fd hfd
      obtain ⟨hline, hown'⟩ := (hown.withBase base).appendLine hfd text o.line
      rw [hwrite]
      exact ⟨hroom.trans hline, hown'⟩

end RotatingFileSink

namespace RotatingState

variable {cfg : RotatingConfig} {s s' : RotatingState L}

def Own (cfg : RotatingConfig) (s : RotatingState L) : Prop := ∀ sink, s.sink = some sink → sink.OwnFiles cfg s.disk

end RotatingState

/-! ### A daily sink -/

/-- All files of the directory that have the prefix and the suffix. -/
def DailyConfig.Owns (cfg : DailyConfig) (p : List Byte) : Prop :=
  ∃ x, p = (if cfg.baseDir ≠ [] ∧ cfg.baseDir.getLast? ≠ some 47 then cfg.baseDir ++ ascii "/" else cfg.baseDir) ++
    DailyFileSink.nameOf cfg.baseName x

namespace DailyFileSink

structure OwnFiles (cfg : DailyConfig) (sink : DailyFileSink L) (disk : Disk) : Prop where
  baseDir : sink.baseDir = cfg.baseDir
  baseName : sink.baseName = cfg.baseName
  opened : ∀ fd, sink.fd = some fd → disk.Private cfg.Owns fd.inode

variable {cfg : DailyConfig} {sink : DailyFileSink L} {disk : Disk}

theorem OwnFiles.withBase (h : OwnFiles cfg sink disk) (base : ILogSink L) :
    OwnFiles cfg { sink with toILogSink := base } disk := ⟨h.baseDir, h.baseName, h.opened⟩

theorem owns_fullPath (hdir : sink.baseDir = cfg.baseDir) (hname : sink.baseName = cfg.baseName) (x : List Byte) :
    cfg.Owns (sink.fullPath (nameOf sink.baseName x)) := ⟨x, by rw [fullPath, hdir, hname]⟩

theorem confined_cleanupLoop (hdir : sink.baseDir = cfg.baseDir) (hname : sink.baseName = cfg.baseName) (now : Int)
    (listing : List DirEntry) (disk : Disk) : Confined cfg.Owns disk (sink.cleanupLoop now listing disk) := by
  induction listing generalizing disk with
  | nil => exact .refl disk
  | cons ent listing ih =>
    have hremove : Confined cfg.Owns disk
        (if sink.unlinks now ent ∧ ent.unlinked then disk.remove (sink.fullPath ent.name) else disk) := by
      split
      · rename_i hunlinks
        obtain ⟨⟨x, hx⟩, -⟩ := unlinks_iff.mp hunlinks.1
        rw [hx]
        exact FileSystem.confined_remove (owns_fullPath hdir hname x)
      · exact .refl disk
    rw [cleanupLoop]
    exact hremove.trans (ih _)

theorem confined_openFileForToday (cfg : DailyConfig) (sink : DailyFileSink L) (calendar : Calendar)
    (hdir : sink.baseDir = cfg.baseDir) (hname : sink.baseName = cfg.baseName) (disk : Disk) (o : OpenTodayOutcome) :
    Confined cfg.Owns disk (sink.openFileForToday calendar disk o).2 ∧
      OwnFiles cfg (sink.openFileForToday calendar disk o).1 (sink.openFileForToday calendar disk o).2 := by
  have hclean : ∀ (fd : Option OpenFile) (day : Int32) (disk : Disk), Confined cfg.Owns disk
      (if 0 < sink.maxDays then
        cleanupOldFiles { sink with fd := fd, currentDay := day } disk o.cleanup else disk) := by
    intro fd day disk
    split
    · rw [cleanupOldFiles]
      split
      · refine confined_cleanupLoop ?_ ?_ _ _ _
        · exact hdir
        · exact hname
      · exact .refl disk
    · exact .refl disk
  rw [openFileForToday]
  cases o.opened with
  | true =>
    have hown := owns_fullPath hdir hname (sink.dateStr calendar o.now)
    obtain ⟨hopen, hprivate⟩ := FileSystem.confined_openAppend disk hown
    refine ⟨hopen.trans (hclean _ _ _), hdir, hname, fun fd hfd => ?_⟩
    cases hfd
    exact (hclean _ _ _).private_self hprivate
  | false =>
    refine ⟨hclean _ _ _, hdir, hname, ?_⟩
    rintro fd ⟨⟩

theorem OwnFiles.openToday (h : OwnFiles cfg sink disk) (calendar : Calendar) (o : DailyOutcome) :
    Confined cfg.Owns disk (sink.openToday calendar disk o).2 ∧
      OwnFiles cfg (sink.openToday calendar disk o).1 (sink.openToday calendar disk o).2 := by
  rw [DailyFileSink.openToday]
  split
  · exact confined_openFileForToday cfg sink calendar h.baseDir h.baseName disk o.reopen
  · exact ⟨.refl disk, h⟩

/-- **A call of `Write` stays in its own files**, whatever the system calls come to. -/
theorem OwnFiles.write (h : OwnFiles cfg sink disk) (calendar : Calendar) (entry : LogEntry L) (o : DailyOutcome) :
    Confined cfg.Owns disk (sink.write calendar entry disk o).2 ∧
      OwnFiles cfg (sink.write calendar entry disk o).1 (sink.write calendar entry disk o).2 := by
  obtain ⟨hopen, hown⟩ := h.openToday calendar o
  cases hrecord : sink.recordOf calendar entry with
  | none =>
    rcases write_of_nothing disk o hrecord with hwrite | ⟨-, base, hwrite⟩
    · rw [hwrite]
      exact ⟨.refl disk, h⟩
    · rw [hwrite]
      exact ⟨hopen, hown.withBase base⟩
  | some text =>
    obtain ⟨-, base, hwrite⟩ := write_of_record disk o hrecord
    generalize sink.openToday calendar disk o = room at hwrite hopen hown
    rw [hwrite]
    cases hfd : room.1.fd with
    | none => exact ⟨hopen, hown.withBase base⟩
    | some fd =>
      have htext := FileSystem.confined_write fd (hown.opened fd hfd) text o.line.text
      have hnewline := FileSystem.confined_write fd (htext.private_self (hown.opened fd hfd)) (ascii "\n") o.line.newline
      have hline : Confined cfg.Owns room.2 (appendLine room.2 fd text o.line) := htext.trans hnewline
      refine ⟨hopen.trans hline, hown.baseDir, hown.baseName, fun fd' hfd' => ?_⟩
      exact hline.private_self (hown.opened fd' hfd')

end DailyFileSink

namespace DailyState

variable {cfg : DailyConfig} {s s' : DailyState L}

def Own (cfg : DailyConfig) (s : DailyState L) : Prop := ∀ sink, s.sink = some sink → sink.OwnFiles cfg s.disk

end DailyState

/-! ### Sinks that do nothing -/

theorem RotatingState.Own.frame {cfg : RotatingConfig} {s : RotatingState L} (h : s.Own cfg) {other : List Byte → Prop}
    {disk : Disk} (hconfined : Confined other s.disk disk) (hdisjoint : ∀ p, other p → ¬ cfg.Owns p) :
    Own cfg { s with disk := disk } := fun sink hsink =>
  ⟨(h sink hsink).basePath, fun fd hfd => hconfined.keeps_private hdisjoint ((h sink hsink).opened fd hfd)⟩

theorem DailyState.Own.frame {cfg : DailyConfig} {s : DailyState L} (h : s.Own cfg) {other : List Byte → Prop}
    {disk : Disk} (hconfined : Confined other s.disk disk) (hdisjoint : ∀ p, other p → ¬ cfg.Owns p) :
    Own cfg { s with disk := disk } := fun sink hsink =>
  ⟨(h sink hsink).baseDir, (h sink hsink).baseName,
    fun fd hfd => hconfined.keeps_private hdisjoint ((h sink hsink).opened fd hfd)⟩

/-- **The history of a rotating sink is not disturbed** by what others do to their own files. -/
theorem HistoryInv.frame {cfg : RotatingConfig} {s : RotatingState L} (h : HistoryInv cfg s) {other : List Byte → Prop}
    {disk : Disk} (hconfined : Confined other s.disk disk) (hdisjoint : ∀ p, other p → ¬ cfg.Owns p) :
    HistoryInv cfg { s with disk := disk } := by
  have hforeign : ∀ k, ¬ other (logName cfg.basePath k) := fun k hother => hdisjoint _ hother ⟨k, rfl⟩
  have hlogs : logs cfg.basePath disk = logs cfg.basePath s.disk := funext fun k => hconfined.read_eq (hforeign k)
  refine ⟨?_, ?_, fun sink hsink => ?_⟩
  · rw [hlogs]
    exact h.kept
  · rw [hlogs]
    exact h.bound
  · obtain ⟨fd, htracks⟩ := h.tracks sink hsink
    have hinode : disk.inode cfg.basePath = some fd.inode := (hconfined.inode _ (hforeign 0)).trans htracks.inode
    refine ⟨fd, htracks.basePath, htracks.maxFileSize, htracks.maxFiles, htracks.opened, hinode, ?_⟩
    rw [htracks.size, hconfined.contents _ _ (hforeign 0) htracks.inode]

theorem NewestKept.frame {cfg : RotatingConfig} {s : RotatingState L} (h : NewestKept cfg s) {other : List Byte → Prop}
    {disk : Disk} (hconfined : Confined other s.disk disk) (hdisjoint : ∀ p, other p → ¬ cfg.Owns p) :
    NewestKept cfg { s with disk := disk } := by
  have hread : disk.read (logName cfg.basePath 0) = s.disk.read (logName cfg.basePath 0) :=
    hconfined.read_eq fun hother => hdisjoint _ hother ⟨0, rfl⟩
  intro hne
  rw [logText, logs, hread]
  exact h hne

/-! ### Taking turns -/

/-- Any number of rotating and of daily sinks. -/
structure SharedConfig (κ μ : Type) where
  rotating : κ → RotatingConfig
  daily : μ → DailyConfig

def SharedConfig.Owns {κ μ : Type} (cfg : SharedConfig κ μ) : κ ⊕ μ → List Byte → Prop
  | .inl k => (cfg.rotating k).Owns
  | .inr l => (cfg.daily l).Owns

/-- The disk, and the sinks; what they remember of the disk is not looked at. -/
structure SharedState (L : Limits) (κ μ : Type) where
  disk : Disk
  rotating : κ → RotatingState L
  daily : μ → DailyState L

inductive SharedAction (L : Limits) (κ μ : Type)
  | rotating (k : κ) (a : RotatingAction L)
  | daily (l : μ) (a : DailyAction L)

namespace SharedState

variable {κ μ : Type}

def rotatingAt (s : SharedState L κ μ) (k : κ) : RotatingState L := { s.rotating k with disk := s.disk }

def dailyAt (s : SharedState L κ μ) (l : μ) : DailyState L := { s.daily l with disk := s.disk }

variable [DecidableEq κ] [DecidableEq μ]

def setRotating (s : SharedState L κ μ) (k : κ) (r : RotatingState L) : SharedState L κ μ :=
  { s with disk := r.disk, rotating := Function.update s.rotating k r }

def setDaily (s : SharedState L κ μ) (l : μ) (d : DailyState L) : SharedState L κ μ :=
  { s with disk := d.disk, daily := Function.update s.daily l d }

def step (cfg : SharedConfig κ μ) (s : SharedState L κ μ) : SharedAction L κ μ → Option (SharedState L κ μ)
  | .rotating k a => ((s.rotatingAt k).step (cfg.rotating k) a).map (s.setRotating k)
  | .daily l a => ((s.dailyAt l).step (cfg.daily l) a).map (s.setDaily l)

end SharedState

/-- Runs from a disk that satisfies `start`, with no sink yet. -/
def sharedMachine (L : Limits) {κ μ : Type} [DecidableEq κ] [DecidableEq μ] (cfg : SharedConfig κ μ)
    (start : Disk → Prop) : Machine (SharedState L κ μ) (SharedAction L κ μ) where
  init s := start s.disk ∧ (∀ k, (s.rotating k).sink = none ∧ (s.rotating k).records = []) ∧
    ∀ l, (s.daily l).sink = none
  step s a := s.step cfg a

namespace SharedState

variable {κ μ : Type} [DecidableEq κ] [DecidableEq μ] {cfg : SharedConfig κ μ} {s s' t : SharedState L κ μ}

/-- Every sink keeps to its own files. -/
def Own (cfg : SharedConfig κ μ) (s : SharedState L κ μ) : Prop :=
  (∀ k, (s.rotatingAt k).Own (cfg.rotating k)) ∧ ∀ l, (s.dailyAt l).Own (cfg.daily l)

/-- Log files `a`, `a.1.log`, and `d/b_*.log`. -/
def pairConfig : SharedConfig Unit Unit :=
  ⟨fun _ => RotatingState.threeBytes, fun _ => ⟨.january1970, ascii "d", ascii "b", 0, true⟩⟩

def pairStart : SharedState Limits.desktop Unit Unit :=
  ⟨.empty, fun _ => ⟨none, .empty, []⟩, fun _ => ⟨none, .empty, [], []⟩⟩

def pairMachine : Machine (SharedState Limits.desktop Unit Unit) (SharedAction Limits.desktop Unit Unit) :=
  sharedMachine Limits.desktop pairConfig fun disk => ∀ n, logs RotatingState.threeBytes.basePath disk n = none

/-- Both sinks are constructed and set to write `x` for an entry, and the daily one writes one. -/
def pairSetup : List (SharedAction Limits.desktop Unit Unit) :=
  [.daily () (.construct (fun _ => 0) ⟨0, true, ⟨none, 0⟩⟩), .rotating () (.construct (fun _ => 0) ⟨true, true⟩),
    .daily () (.setFormatter (PatternFormatter.toIFormatter _ Calendar.january1970.toLocalTime ⟨ascii "x", false⟩)),
    .rotating () (.setFormatter (PatternFormatter.toIFormatter _ Calendar.january1970.toLocalTime ⟨ascii "x", false⟩)),
    .daily () (.write (.zero _) ⟨0, ⟨0, true, ⟨none, 0⟩⟩, ⟨some 1, some 1⟩⟩)]

def pair : SharedState Limits.desktop Unit Unit := (pairMachine.exec pairSetup pairStart).get (by decide +kernel)

/-- The calls of one rotating sink succeed, those of the others come out as they like. -/
def CallsSucceed (cfg : SharedConfig κ μ) (k : κ) (s : SharedState L κ μ) : SharedAction L κ μ → Prop
  | .rotating k' a => k' = k → (s.rotatingAt k).CallsSucceed (cfg.rotating k) a
  | .daily _ _ => True

end SharedState

end BrLogger
