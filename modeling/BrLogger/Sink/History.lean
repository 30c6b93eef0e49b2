import BrLogger.Sink.Rotation
import Mathlib.Data.List.Infix

/-!
# The rotated files are one contiguous history

Read from `base.N.log` down to `base`, the files hold the last records written,
each whole and followed by its newline (`contiguous_history`).

`Kept` says which records each file holds.  A rotation moves the lists up with
the files and forgets the oldest; a record is put behind the list of `base`,
and only there.  What makes the test in front of a record exact is that
`current_size_` is the length of `base` all the time, also when a new sink
finds the file of an older one.
-/

namespace BrLogger

variable {L : Limits}

/-- Lists numbered by age, from the one of number `n` to the one of number `0`. -/
def oldestFirst {α : Type} (f : Nat → List α) : Nat → List α
  | 0 => f 0
  | n + 1 => f (n + 1) ++ oldestFirst f n

section
variable {α : Type} {f g : Nat → List α}

/-- With every list one older and an empty one in front, the oldest is forgotten. -/
theorem oldestFirst_shift (hzero : g 0 = []) (hsucc : ∀ k, g (k + 1) = f k) (n : Nat) :
    oldestFirst g (n + 1) = oldestFirst f n := by
  induction n with
  | zero => rw [oldestFirst, oldestFirst, oldestFirst, hzero, hsucc, List.append_nil]
  | succ n ih => rw [oldestFirst, ih, hsucc, oldestFirst]

theorem oldestFirst_append (t : List α) (hzero : g 0 = f 0 ++ t) (hsucc : ∀ k, g (k + 1) = f (k + 1)) (n : Nat) :
    oldestFirst g n = oldestFirst f n ++ t := by
  induction n with
  | zero => exact hzero
  | succ n ih => rw [oldestFirst, oldestFirst, ih, hsucc, List.append_assoc]

theorem oldestFirst_congr {n : Nat} (h : ∀ k ≤ n, f k = g k) : oldestFirst f n = oldestFirst g n := by
  induction n with
  | zero => exact h 0 (Nat.le_refl 0)
  | succ n ih => rw [oldestFirst, oldestFirst, h (n + 1) (Nat.le_refl _), ih fun k hk => h k (by omega)]

theorem oldestFirst_lines {h : Nat → List Byte} {f : Nat → List (List Byte)} {n : Nat}
    (hlines : ∀ k ≤ n, h k = lines (f k)) : oldestFirst h n = lines (oldestFirst f n) := by
  induction n with
  | zero => exact hlines 0 (Nat.le_refl 0)
  | succ n ih =>
    rw [oldestFirst, oldestFirst, lines_append, hlines (n + 1) (Nat.le_refl _), ih fun k hk => hlines k (by omega)]

end

/-! ### Runs whose calls succeed -/

/-- No file grows past an `off_t`, where `write(2)` fails. -/
def RotatingState.FitsOffT (s : RotatingState L) : Prop :=
  ∀ sink fd, s.sink = some sink → sink.fd = some fd → (s.disk.contents fd.inode).length < 2 ^ 63

theorem RotatingState.fitsOffT_iff {s : RotatingState L} :
    (s.sink.all fun sink => sink.fd.all fun fd => (s.disk.contents fd.inode).length < 2 ^ 63) = true ↔ s.FitsOffT := by
  simp only [FitsOffT, Option.all_eq_true, decide_eq_true_eq]
  exact ⟨fun h sink fd hsink hfd => h sink hsink fd hfd, fun h sink hsink fd hfd => h sink fd hsink hfd⟩

instance (s : RotatingState L) : Decidable s.FitsOffT := decidable_of_iff _ RotatingState.fitsOffT_iff

def RotateOutcome.Succeeds (o : RotateOutcome) : Prop :=
  o.removed = true ∧ (∀ i, o.renamed i = true) ∧ o.reopen.opened = true ∧ o.reopen.statted = true

/-- Every system call of the action succeeds. -/
def RotatingState.CallsSucceed (cfg : RotatingConfig) (s : RotatingState L) (a : RotatingAction L) : Prop :=
  match a with
  | .construct _ o => o.opened = true ∧ o.statted = true
  | .write entry o =>
    o.rotate.Succeeds ∧
      (∀ sink, s.sink = some sink →
        o.line.Full (sink.text (RotatingFileSink.defaultFormatter L cfg.localtime) entry).length) ∧
      ∀ s', s.step cfg a = some s' → s'.FitsOffT
  | _ => True

/-- A write finds room behind the base file, or has files to rotate. -/
def RotatingState.FindsRoom (cfg : RotatingConfig) (s : RotatingState L) (a : RotatingAction L) : Prop :=
  match a with
  | .write entry _ =>
    0 < cfg.maxFiles ∨ ∀ sink text, s.sink = some sink → sink.recordOf cfg.localtime entry = some text →
      ((logs cfg.basePath s.disk 0).getD []).length + text.length + 1 ≤ cfg.maxFileSize
  | _ => True

theorem RotatingState.findsRoom_of_pos {cfg : RotatingConfig} (hpos : 0 < cfg.maxFiles) (s : RotatingState L)
    (a : RotatingAction L) : s.FindsRoom cfg a := by
  cases a with
  | write entry o => exact Or.inl hpos
  | construct junk o => trivial
  | destroy => trivial
  | setFormatter formatter => trivial
  | setLevel level => trivial

/-! ### What the files hold -/

/-- File `k` holds the records `parts k`. -/
structure Kept (maxFiles maxFileSize : Nat) (files : Nat → Option (List Byte)) (records : List (List Byte))
    (parts : Nat → List (List Byte)) : Prop where
  log : ∀ k ≤ maxFiles, (files k).getD [] = lines (parts k)
  beyond : ∀ k, maxFiles < k → files k = none
  suffix : oldestFirst parts maxFiles <:+ records
  small : ∀ k ≤ maxFiles, (lines (parts k)).length ≤ maxFileSize ∨ ∃ r, parts k = [r]

section
variable {maxFiles maxFileSize : Nat} {files files' : Nat → Option (List Byte)} {records : List (List Byte)}
  {parts : Nat → List (List Byte)}

/-- Creating the base file changes nothing that is read. -/
theorem Kept.open (h : Kept maxFiles maxFileSize files records parts)
    (hopen : ∀ k, files' k = if k = 0 then some ((files 0).getD []) else files k) :
    Kept maxFiles maxFileSize files' records parts := by
  refine ⟨?_, ?_, h.suffix, h.small⟩
  · intro k hk
    rw [← h.log k hk, hopen]
    by_cases hzero : k = 0
    · rw [if_pos hzero, hzero]
      rfl
    · rw [if_neg hzero]
  · intro k hk
    rw [hopen, if_neg (by omega)]
    exact h.beyond k hk

/-- **A rotation**: every file one older, the oldest gone, an empty one in front. -/
theorem Kept.rotate (h : Kept maxFiles maxFileSize files records parts) (hpos : 0 < maxFiles)
    (hrotate : ∀ k, files' k = if k = 0 then some [] else if k ≤ maxFiles then files (k - 1) else files k) :
    Kept maxFiles maxFileSize files' records (fun k => if k = 0 then [] else parts (k - 1)) := by
  obtain ⟨n, rfl⟩ : ∃ n, maxFiles = n + 1 := ⟨maxFiles - 1, by omega⟩
  constructor
  case log =>
    intro k hk
    rw [hrotate]
    by_cases hzero : k = 0
    · rw [if_pos hzero, if_pos hzero]
      rfl
    · rw [if_neg hzero, if_neg hzero, if_pos hk]
      exact h.log (k - 1) (by omega)
  case beyond =>
    intro k hk
    rw [hrotate, if_neg (by omega), if_neg (by omega)]
    exact h.beyond k hk
  case suffix =>
    rw [oldestFirst_shift (f := parts) (if_pos rfl) (fun k => if_neg (Nat.succ_ne_zero k))]
    exact (List.suffix_append _ _).trans h.suffix
  case small =>
    intro k hk
    by_cases hzero : k = 0
    · rw [if_pos hzero]
      exact Or.inl (Nat.zero_le _)
    · rw [if_neg hzero]
      exact h.small (k - 1) (by omega)

/-- **A record behind those of the base file**, which either has room for it or is empty. -/
theorem Kept.append (h : Kept maxFiles maxFileSize files records parts) (r : List Byte)
    (hbase : files' 0 = some ((files 0).getD [] ++ (r ++ ascii "\n"))) (hother : ∀ k, k ≠ 0 → files' k = files k)
    (hroom : ((files 0).getD []).length + r.length + 1 ≤ maxFileSize ∨ (files 0).getD [] = []) :
    Kept maxFiles maxFileSize files' (records ++ [r]) (fun k => if k = 0 then parts 0 ++ [r] else parts k) := by
  have hzero := h.log 0 (Nat.zero_le _)
  constructor
  case log =>
    intro k hk
    by_cases hk0 : k = 0
    · rw [if_pos hk0, hk0, hbase, Option.getD_some, hzero, lines_append, lines_singleton]
    · rw [if_neg hk0, hother k hk0]
      exact h.log k hk
  case beyond =>
    intro k hk
    rw [hother k (by omega)]
    exact h.beyond k hk
  case suffix =>
    rw [oldestFirst_append (f := parts) [r] (if_pos rfl) (fun k => if_neg (Nat.succ_ne_zero k))]
    obtain ⟨t, ht⟩ := h.suffix
    exact ⟨t, by rw [← List.append_assoc, ht]⟩
  case small =>
    intro k hk
    by_cases hk0 : k = 0
    · rw [if_pos hk0]
      rcases hroom with hroom | hempty
      · left
        rw [hzero] at hroom
        rw [lines_append, List.length_append, length_lines_singleton]
        omega
      · right
        rw [hzero] at hempty
        have hnone : parts 0 = [] := by
          cases hparts : parts 0 with
          | nil => rfl
          | cons t ts =>
            rw [hparts, lines, List.flatMap_cons, List.append_eq_nil_iff, List.append_eq_nil_iff] at hempty
            exact absurd hempty.1.2 (by decide)
        exact ⟨r, by rw [hnone, List.nil_append]⟩
    · rw [if_neg hk0]
      exact h.small k hk

end

/-! ### What the sink knows -/

/-- The sink has the base file open and knows its length. -/
structure Tracks (cfg : RotatingConfig) (sink : RotatingFileSink L) (disk : Disk) (fd : OpenFile) : Prop where
  basePath : sink.basePath = cfg.basePath
  maxFileSize : sink.maxFileSize = cfg.maxFileSize
  maxFiles : sink.maxFiles = cfg.maxFiles
  opened : sink.fd = some fd
  inode : disk.inode cfg.basePath = some fd.inode
  size : sink.currentSize = (disk.contents fd.inode).length

section
variable {cfg : RotatingConfig} {sink : RotatingFileSink L} {disk : Disk} {fd : OpenFile}

theorem Tracks.log (h : Tracks cfg sink disk fd) : logs cfg.basePath disk 0 = some (disk.contents fd.inode) :=
  FileSystem.read_of_inode h.inode

/-- The formatter, the level and the buffer do not matter. -/
theorem Tracks.withBase (h : Tracks cfg sink disk fd) (base : ILogSink L) :
    Tracks cfg { sink with toILogSink := base } disk fd :=
  ⟨h.basePath, h.maxFileSize, h.maxFiles, h.opened, h.inode, h.size⟩

/-- Opening the base file, which creates it when it is not there. -/
theorem tracks_openFile {o : OpenOutcome} (hopened : o.opened = true) (hstatted : o.statted = true)
    (hpath : sink.basePath = cfg.basePath) (hsize : sink.maxFileSize = cfg.maxFileSize)
    (hfiles : sink.maxFiles = cfg.maxFiles) (hbound : ((logs cfg.basePath disk 0).getD []).length < 2 ^ 63) :
    Tracks cfg (sink.openFile disk o).1 (sink.openFile disk o).2 (disk.openAppend cfg.basePath).2 := by
  have hlen : ((disk.openAppend cfg.basePath).1.contents (disk.openAppend cfg.basePath).2.inode).length < 2 ^ 63 := by
    rw [FileSystem.contents_openAppend]
    exact hbound
  rw [RotatingFileSink.openFile_of_opened hopened, ← hpath]
  rw [← hpath] at hlen
  constructor
  case basePath => exact hpath
  case maxFileSize => exact hsize
  case maxFiles => exact hfiles
  case opened => rfl
  case inode => rw [← hpath]; exact FileSystem.openAppend_inode disk sink.basePath
  case size =>
    simp only [hstatted, if_true]
    exact Nat.mod_eq_of_lt (by omega)

/-- **A rotation makes every file one older** and opens an empty one. -/
theorem rotate_succeeds {o : RotateOutcome} (h : Tracks cfg sink disk fd) (hpos : 0 < cfg.maxFiles)
    (ho : o.Succeeds) :
    (∃ fd', Tracks cfg (sink.rotate disk o).1 (sink.rotate disk o).2 fd') ∧
      ∀ k, logs cfg.basePath (sink.rotate disk o).2 k =
        if k = 0 then some [] else if k ≤ cfg.maxFiles then logs cfg.basePath disk (k - 1)
        else logs cfg.basePath disk k := by
  have hfiles := h.maxFiles
  rw [← h.basePath, ← hfiles]
  rw [← hfiles] at hpos
  have hlast : (fun k => if k = sink.maxFiles then none else logs sink.basePath disk k) sink.maxFiles = none :=
    if_pos rfl
  have hloop : logs sink.basePath (RotatingFileSink.renameLoop sink.basePath sink.maxFiles o sink.maxFiles disk) =
      _ := RotatingFileSink.logs_renameLoop hpos ho.1 disk
  have hzero := congrFun hloop 0
  rw [Shift.shift_all ho.2.1 hlast (Nat.zero_le _), if_pos rfl] at hzero
  have hbound : ((logs cfg.basePath (RotatingFileSink.renameLoop sink.basePath sink.maxFiles o sink.maxFiles disk)
      0).getD []).length < 2 ^ 63 := by
    rw [← h.basePath, hzero]
    decide
  refine ⟨⟨_, tracks_openFile ho.2.2.1 ho.2.2.2 h.basePath h.maxFileSize hfiles hbound⟩, ?_⟩
  · intro k
    rw [RotatingFileSink.logs_rotate sink disk ho.2.2.1, hzero, hloop]
    by_cases hk : k = 0
    · rw [if_pos hk, if_pos hk]
      rfl
    · rw [if_neg hk, if_neg hk]
      by_cases hle : k ≤ sink.maxFiles
      · rw [if_pos hle, Shift.shift_all ho.2.1 hlast hle, if_neg hk]
        exact if_neg (by omega)
      · rw [if_neg hle, Shift.shift_of_lt (by omega)]
        exact if_neg (by omega)

/-- The test in front of a record leaves room for it, or an empty file. -/
theorem makeRoom_succeeds {len : Nat} {o : RotateOutcome} {records parts : _} (h : Tracks cfg sink disk fd)
    (hkept : Kept cfg.maxFiles cfg.maxFileSize (logs cfg.basePath disk) records parts)
    (hbound : ((logs cfg.basePath disk 0).getD []).length < 2 ^ 63) (hlen : len ≤ 2048)
    (hroom : 0 < cfg.maxFiles ∨ ((logs cfg.basePath disk 0).getD []).length + len + 1 ≤ cfg.maxFileSize)
    (ho : o.Succeeds) :
    ∃ fd' parts', Tracks cfg (sink.makeRoom disk len o).1 (sink.makeRoom disk len o).2 fd' ∧
      Kept cfg.maxFiles cfg.maxFileSize (logs cfg.basePath (sink.makeRoom disk len o).2) records parts' ∧
      (((logs cfg.basePath (sink.makeRoom disk len o).2 0).getD []).length + len + 1 ≤ cfg.maxFileSize ∧
          ((logs cfg.basePath (sink.makeRoom disk len o).2 0).getD []).length < 2 ^ 63 ∨
        (logs cfg.basePath (sink.makeRoom disk len o).2 0).getD [] = []) := by
  rw [RotatingFileSink.makeRoom, h.maxFileSize]
  rw [h.log, Option.getD_some] at hbound hroom
  -- the sum is far from wrapping
  have hsum : sizeT (sizeT (sink.currentSize + len) + 1) = (disk.contents fd.inode).length + len + 1 := by
    rw [h.size, sizeT, sizeT]
    omega
  rw [hsum]
  by_cases hover : cfg.maxFileSize < (disk.contents fd.inode).length + len + 1
  · rw [if_pos hover]
    have hpos := hroom.resolve_right (Nat.not_le_of_lt hover)
    obtain ⟨⟨fd', htracks⟩, hrotate⟩ := rotate_succeeds h hpos ho
    refine ⟨fd', _, htracks, hkept.rotate hpos hrotate, Or.inr ?_⟩
    rw [hrotate 0, if_pos rfl]
    rfl
  · rw [if_neg hover]
    refine ⟨fd, parts, h, hkept, Or.inl ?_⟩
    rw [h.log, Option.getD_some]
    exact ⟨Nat.le_of_not_lt hover, hbound⟩

/-- Bytes behind the base file. -/
theorem Tracks.logs_append (h : Tracks cfg sink disk fd) (bytes : List Byte) (k : Nat) :
    logs cfg.basePath (disk.append fd.inode bytes) k =
      if k = 0 then some (disk.contents fd.inode ++ bytes) else logs cfg.basePath disk k := by
  by_cases hk : k = 0
  · rw [if_pos hk, hk]
    exact FileSystem.read_append_self h.inode
  · rw [if_neg hk]
    refine FileSystem.read_append_of_ne (FileSystem.inode_ne_of_ne h.inode ?_)
    exact fun he => hk (logName_injective cfg.basePath (k := 0) he)

/-- A line behind the base file. -/
theorem tracks_appendLine {text : List Byte} {o : LineOutcome} (h : Tracks cfg sink disk fd) (hne : text ≠ [])
    (ho : o.Full text.length) (hlen : text.length ≤ 2048) (hbound : (disk.contents fd.inode).length < 2 ^ 63) :
    Tracks cfg (sink.appendLine disk fd text o).1 (sink.appendLine disk fd text o).2 fd := by
  rw [RotatingFileSink.appendLine_of_full hne ho]
  refine ⟨h.basePath, h.maxFileSize, h.maxFiles, h.opened, h.inode, ?_⟩
  have hnl : (ascii "\n").length = 1 := by decide
  show sizeT (sizeT (sink.currentSize + text.length) + 1) = _
  rw [FileSystem.append_contents_self, List.length_append, List.length_append, hnl, h.size, sizeT, sizeT]
  omega

end

/-! ### The invariant -/

/-- What holds between two calls. -/
structure HistoryInv (cfg : RotatingConfig) (s : RotatingState L) : Prop where
  kept : ∃ parts, Kept cfg.maxFiles cfg.maxFileSize (logs cfg.basePath s.disk) s.records parts
  bound : ((logs cfg.basePath s.disk 0).getD []).length < 2 ^ 63
  tracks : ∀ sink, s.sink = some sink → ∃ fd, Tracks cfg sink s.disk fd

namespace HistoryInv

variable {cfg : RotatingConfig} {s s' : RotatingState L}

/-- Before the first sink there is no file. -/
theorem of_init (h : (rotatingMachine L cfg fun disk => ∀ k, logs cfg.basePath disk k = none).init s) :
    HistoryInv cfg s := by
  obtain ⟨hsink, hrecords, hnone⟩ := h
  constructor
  case kept =>
    refine ⟨fun _ => [], fun k _ => by rw [hnone]; rfl, fun k _ => hnone k, ?_, fun _ _ => Or.inl (Nat.zero_le _)⟩
    have hempty : ∀ n, oldestFirst (fun _ => ([] : List (List Byte))) n = [] := by
      intro n
      induction n with
      | zero => rfl
      | succ n ih => rw [oldestFirst, ih, List.append_nil]
    rw [hempty]
    exact List.nil_suffix
  case bound =>
    rw [hnone]
    decide
  case tracks =>
    intro sink hs
    rw [hsink] at hs
    cases hs

theorem step_construct {junk : Nat → Byte} {o : OpenOutcome} (h : HistoryInv cfg s)
    (ho : o.opened = true ∧ o.statted = true) (hstep : s.step cfg (.construct junk o) = some s') :
    HistoryInv cfg s' := by
  obtain ⟨_, rfl⟩ := RotatingState.step_construct_iff.mp hstep
  have hlogs := RotatingFileSink.logs_openFile
    (L := L) ⟨ILogSink.create L junk, cfg.basePath, cfg.maxFileSize, cfg.maxFiles, 0, none⟩ s.disk ho.1
  obtain ⟨parts, hkept⟩ := h.kept
  constructor
  case kept => exact ⟨parts, hkept.open hlogs⟩
  case bound =>
    refine lt_of_eq_of_lt (congrArg (fun c => List.length (Option.getD c [])) (hlogs 0)) ?_
    exact h.bound
  case tracks =>
    intro sink hsink
    cases hsink
    exact ⟨_, tracks_openFile ho.1 ho.2 rfl rfl rfl h.bound⟩

/-- A call of `Write` with a record. -/
theorem write_record {sink : RotatingFileSink L} {entry : LogEntry L} {o : RotatingOutcome} {text : List Byte}
    (h : HistoryInv cfg s) (hsink : s.sink = some sink)
    (hrecord : sink.recordOf cfg.localtime entry = some text)
    (hroom : 0 < cfg.maxFiles ∨ ((logs cfg.basePath s.disk 0).getD []).length + text.length + 1 ≤ cfg.maxFileSize)
    (hrotate : o.rotate.Succeeds)
    (hline : o.line.Full text.length)
    (hfits : ∀ fd, (sink.write cfg.localtime entry s.disk o).1.fd = some fd →
      ((sink.write cfg.localtime entry s.disk o).2.contents fd.inode).length < 2 ^ 63) :
    HistoryInv cfg ⟨some (sink.write cfg.localtime entry s.disk o).1, (sink.write cfg.localtime entry s.disk o).2,
      s.records ++ [text]⟩ := by
  obtain ⟨fd, htracks⟩ := h.tracks sink hsink
  obtain ⟨parts, hkept⟩ := h.kept
  obtain ⟨_, htext, hne⟩ := ILogSink.record_eq_some_iff.mp hrecord
  have hlen : text.length ≤ 2048 := htext ▸ ILogSink.length_text_le _ _ _
  have hfd : sink.fd ≠ none := by
    rw [htracks.opened]
    exact Option.some_ne_none fd
  obtain ⟨base, hwrite⟩ := RotatingFileSink.write_of_record s.disk o hrecord hfd
  obtain ⟨fd', parts', hopen, hkept', hspace⟩ := makeRoom_succeeds htracks hkept h.bound hlen hroom hrotate
  generalize sink.makeRoom s.disk text.length o.rotate = room at *
  rw [hopen.opened] at hwrite
  rw [hwrite] at hfits ⊢
  have hbound : (room.2.contents fd'.inode).length < 2 ^ 63 := by
    rw [hopen.log, Option.getD_some] at hspace
    rcases hspace with hspace | hempty
    · exact hspace.2
    · rw [hempty]
      decide
  have hopen := hopen.withBase base
  have hlast := tracks_appendLine hopen hne hline hlen hbound
  have happend := hopen.logs_append (text ++ ascii "\n")
  rw [← RotatingFileSink.appendLine_of_full_disk hne hline] at happend
  constructor
  case kept =>
    refine ⟨_, hkept'.append text ?_ (fun k hk => (happend k).trans (if_neg hk)) (hspace.imp And.left id)⟩
    rw [happend, if_pos rfl, hopen.log]
    rfl
  case bound =>
    rw [hlast.log]
    exact hfits fd' hlast.opened
  case tracks =>
    intro sink' hsink'
    cases hsink'
    exact ⟨fd', hlast⟩

/-- A call of `Write`. -/
theorem step_write {entry : LogEntry L} {o : RotatingOutcome} (h : HistoryInv cfg s)
    (hroom : s.FindsRoom cfg (.write entry o)) (ho : s.CallsSucceed cfg (.write entry o))
    (hstep : s.step cfg (.write entry o) = some s') :
    HistoryInv cfg s' := by
  obtain ⟨hrotate, hline, hfits⟩ := ho
  have hfits := hfits s' hstep
  obtain ⟨sink, hsink, rfl⟩ := RotatingState.step_write_iff.mp hstep
  cases hrecord : sink.recordOf cfg.localtime entry with
  | none =>
    obtain ⟨base, hwrite⟩ := RotatingFileSink.write_of_nothing s.disk o (Or.inl hrecord)
    rw [hwrite, Option.toList_none, List.append_nil]
    refine ⟨h.kept, h.bound, ?_⟩
    intro sink' hsink'
    cases hsink'
    obtain ⟨fd, htracks⟩ := h.tracks sink hsink
    exact ⟨fd, htracks.withBase base⟩
  | some text =>
    obtain ⟨_, htext, _⟩ := ILogSink.record_eq_some_iff.mp hrecord
    have hroom := hroom.imp_right fun hroom => hroom sink text hsink hrecord
    exact h.write_record hsink hrecord hroom hrotate (htext ▸ hline sink hsink) fun fd hfd => hfits _ fd rfl hfd

/-- **Every action keeps the invariant.** -/
theorem step {a : RotatingAction L} (h : HistoryInv cfg s) (hroom : s.FindsRoom cfg a) (ho : s.CallsSucceed cfg a)
    (hstep : s.step cfg a = some s') : HistoryInv cfg s' := by
  rcases RotatingState.step_cases hstep with ⟨junk, o, rfl⟩ | ⟨entry, o, rfl⟩ | ⟨hdisk, hrecords, hsinks⟩
  · exact h.step_construct ho hstep
  · exact h.step_write hroom ho hstep
  · refine ⟨?_, ?_, ?_⟩
    · rw [hdisk, hrecords]
      exact h.kept
    · rw [hdisk]
      exact h.bound
    · intro sink' hsink'
      obtain ⟨sink, base, hsink, rfl⟩ := hsinks sink' hsink'
      obtain ⟨fd, htracks⟩ := h.tracks sink hsink
      rw [hdisk]
      exact ⟨fd, htracks.withBase base⟩

theorem of_reachableVia (hpos : 0 < cfg.maxFiles)
    (h : (rotatingMachine L cfg fun disk => ∀ k, logs cfg.basePath disk k = none).ReachableVia
      (RotatingState.CallsSucceed cfg) s) : HistoryInv cfg s := by
  refine Machine.ReachableVia.induct (HistoryInv cfg) (fun s hs => of_init hs) ?_ h
  intro s a s' _ hok hinv hstep
  exact hinv.step (RotatingState.findsRoom_of_pos hpos s a) hok hstep

end HistoryInv

/-- **The files are a contiguous history**: from `base.N.log` down to `base` they
hold the last records, each in one file, and no file is longer than
`max_file_size` but for one record. -/
theorem RotatingState.contiguous_history {cfg : RotatingConfig} {s : RotatingState L} (hpos : 1 ≤ cfg.maxFiles)
    (h : (rotatingMachine L cfg fun disk => ∀ k, logs cfg.basePath disk k = none).ReachableVia
      (RotatingState.CallsSucceed cfg) s) :
    (∃ parts : Nat → List (List Byte),
      (∀ k ≤ cfg.maxFiles, (logs cfg.basePath s.disk k).getD [] = lines (parts k)) ∧
      oldestFirst (fun k => (logs cfg.basePath s.disk k).getD []) cfg.maxFiles = lines (oldestFirst parts cfg.maxFiles) ∧
      oldestFirst parts cfg.maxFiles <:+ s.records ∧
      ∀ k ≤ cfg.maxFiles,
        ((logs cfg.basePath s.disk k).getD []).length ≤ cfg.maxFileSize ∨ ∃ r, parts k = [r]) ∧
    (oldestFirst (fun k => (logs cfg.basePath s.disk k).getD []) cfg.maxFiles <:+ lines s.records) ∧
    ∀ k, cfg.maxFiles < k → logs cfg.basePath s.disk k = none := by
  have hinv := HistoryInv.of_reachableVia hpos h
  obtain ⟨parts, hkept⟩ := hinv.kept
  have hlines : oldestFirst (fun k => (logs cfg.basePath s.disk k).getD []) cfg.maxFiles =
      lines (oldestFirst parts cfg.maxFiles) := oldestFirst_lines hkept.log
  refine ⟨⟨parts, hkept.log, hlines, hkept.suffix, ?_⟩, ?_, hkept.beyond⟩
  · intro k hk
    rw [hkept.log k hk]
    exact hkept.small k hk
  · obtain ⟨t, ht⟩ := hkept.suffix
    rw [hlines, ← ht, lines_append]
    exact List.suffix_append _ _

namespace RotatingState

/-- One log file besides `a`, each of three bytes at most. -/
def threeBytes : RotatingConfig := ⟨fun _ => ⟨70, 0, 1, 0, 0, 0⟩, ascii "a", 3, 1⟩

theorem callsSucceed_allSucceed {s : RotatingState L} {cfg : RotatingConfig} {entry : LogEntry L}
    (h : ∀ s', s.step cfg (.write entry .allSucceed) = some s' → s'.FitsOffT) :
    s.CallsSucceed cfg (.write entry .allSucceed) := by
  refine ⟨⟨rfl, fun _ => rfl, rfl, rfl⟩, fun sink _ => ⟨⟨2048, rfl, ?_⟩, ⟨1, rfl, Nat.le_refl 1⟩⟩, h⟩
  exact ILogSink.length_text_le _ _ _

/-- The state after a `Write` whose calls all succeed. -/
def fed (cfg : RotatingConfig) (s : RotatingState L) (entry : LogEntry L) : RotatingState L :=
  (s.step cfg (.write entry .allSucceed)).getD s

theorem step_fed {cfg : RotatingConfig} {s : RotatingState L} (entry : LogEntry L) (h : s.sink.isSome = true) :
    s.step cfg (.write entry .allSucceed) = some (s.fed cfg entry) := by
  obtain ⟨sink, hsink⟩ := Option.isSome_iff_exists.mp h
  obtain ⟨s', hs'⟩ : ∃ s', s.step cfg (.write entry .allSucceed) = some s' :=
    ⟨_, step_write_iff.mpr ⟨sink, hsink, rfl⟩⟩
  rw [fed, hs']
  rfl

theorem callsSucceed_fed {cfg : RotatingConfig} {s : RotatingState L} {entry : LogEntry L} (h : s.sink.isSome = true)
    (hfits : (s.fed cfg entry).FitsOffT) : s.CallsSucceed cfg (.write entry .allSucceed) := by
  refine callsSucceed_allSucceed fun s' hs' => ?_
  rw [← Option.some.inj ((step_fed entry h).symm.trans hs')]
  exact hfits

/-- A new sink on an empty disk. -/
def newSink : RotatingFileSink Limits.desktop × Disk :=
  RotatingFileSink.create (fun _ => 0) threeBytes.basePath threeBytes.maxFileSize threeBytes.maxFiles .empty ⟨true, true⟩

def constructed : RotatingState Limits.desktop := ⟨some newSink.1, newSink.2, []⟩

theorem step_constructed : (⟨none, .empty, []⟩ : RotatingState Limits.desktop).step threeBytes
    (.construct (fun _ => 0) ⟨true, true⟩) = some constructed := step_construct_iff.mpr ⟨rfl, rfl⟩

/-- A construction on an empty disk. -/
theorem constructed_reachable {start : Disk → Prop}
    {ok : RotatingState Limits.desktop → RotatingAction Limits.desktop → Prop}
    (hstart : start .empty) (hok : ok ⟨none, .empty, []⟩ (.construct (fun _ => 0) ⟨true, true⟩)) :
    (rotatingMachine Limits.desktop threeBytes start).ReachableVia ok constructed := by
  have hempty : (rotatingMachine Limits.desktop threeBytes start).ReachableVia ok ⟨none, .empty, []⟩ :=
    .init ⟨rfl, rfl, hstart⟩
  exact reachableVia_step hempty hok step_constructed

/-- The sink is told to write the line number of an entry. -/
def numbering : RotatingState Limits.desktop :=
  { constructed with
    sink := some { newSink.1 with
      toILogSink := newSink.1.setFormatter (PatternFormatter.toIFormatter _ threeBytes.localtime ⟨ascii "%#", false⟩) } }

def numbered (n : UInt32) : LogEntry Limits.desktop := { LogEntry.zero _ with line := n }

def twoNumbered : RotatingState Limits.desktop := (numbering.fed threeBytes (numbered 1)).fed threeBytes (numbered 2)

def threeNumbered : RotatingState Limits.desktop := twoNumbered.fed threeBytes (numbered 3)

theorem threeNumbered_reachable :
    (rotatingMachine Limits.desktop threeBytes fun disk => ∀ k, logs threeBytes.basePath disk k = none).ReachableVia
      (RotatingState.CallsSucceed threeBytes) threeNumbered := by
  have hok : RotatingState.CallsSucceed (L := Limits.desktop) threeBytes ⟨none, .empty, []⟩
      (.construct (fun _ => 0) ⟨true, true⟩) := ⟨rfl, rfl⟩
  have hset : constructed.step threeBytes
      (.setFormatter (PatternFormatter.toIFormatter _ threeBytes.localtime ⟨ascii "%#", false⟩)) = some numbering := rfl
  have hnew : (rotatingMachine Limits.desktop threeBytes fun disk =>
      ∀ k, logs threeBytes.basePath disk k = none).ReachableVia (RotatingState.CallsSucceed threeBytes) constructed :=
    constructed_reachable (fun _ => rfl) hok
  have hready := reachableVia_step hnew (by exact trivial) hset
  have hone := reachableVia_step hready (callsSucceed_fed rfl (by decide +kernel)) (step_fed (numbered 1) rfl)
  have htwo := reachableVia_step hone (callsSucceed_fed rfl (by decide +kernel)) (step_fed (numbered 2) rfl)
  exact reachableVia_step htwo (callsSucceed_fed rfl (by decide +kernel)) (step_fed (numbered 3) rfl)

/-- The second rotation moves the second record and drops the first. -/
theorem contiguous_history_threeNumbered :
    oldestFirst (fun k => (logs threeBytes.basePath threeNumbered.disk k).getD []) threeBytes.maxFiles <:+
        lines threeNumbered.records ∧
      threeNumbered.records = [ascii "1", ascii "2", ascii "3"] ∧
      oldestFirst (fun k => (logs threeBytes.basePath threeNumbered.disk k).getD []) threeBytes.maxFiles =
        ascii "2\n3\n" :=
  ⟨(contiguous_history (by decide) threeNumbered_reachable).2.1, by decide +kernel, by decide +kernel⟩

end RotatingState

end BrLogger
