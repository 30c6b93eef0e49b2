import BrLogger.Sink.History

/-!
# How much disk the log files take

A file is no longer than `max_file_size` but for a single longer record
(`Kept.small`), so when every record fits, `base` and the `max_files` files
behind it stay under `max_files + 1` times that (`diskUse_le`).

The bound needs a rotation to empty `base`.  With `max_files = 0` the loop of
`Rotate` has nothing to do and the old file is opened again, at its full
length: a record that finds no room is appended behind it all the same
(`write_overflows`).
-/

namespace BrLogger

variable {L : Limits}

/-- The total size of the first `n` log files. -/
def diskUse (basePath : List Byte) (disk : Disk) (n : Nat) : Nat :=
  ((List.range n).map fun k => ((logs basePath disk k).getD []).length).sum

theorem diskUse_succ (basePath : List Byte) (disk : Disk) (n : Nat) :
    diskUse basePath disk (n + 1) = diskUse basePath disk n + ((logs basePath disk n).getD []).length := by
  rw [diskUse, List.range_succ, List.map_append, List.sum_append, List.map_singleton, List.sum_singleton]
  rfl

/-- Files of bounded length, and none beyond the last. -/
theorem diskUse_le_of_le {basePath : List Byte} {disk : Disk} {maxFiles maxFileSize : Nat}
    (hlog : ∀ k ≤ maxFiles, ((logs basePath disk k).getD []).length ≤ maxFileSize)
    (hbeyond : ∀ k, maxFiles < k → logs basePath disk k = none) (n : Nat) :
    diskUse basePath disk n ≤ (maxFiles + 1) * maxFileSize := by
  have hmin : diskUse basePath disk n ≤ min n (maxFiles + 1) * maxFileSize := by
    induction n with
    | zero => exact Nat.zero_le _
    | succ n ih =>
      rw [diskUse_succ]
      by_cases hn : n ≤ maxFiles
      · have := hlog n hn
        rw [Nat.min_eq_left (by omega)] at ih ⊢
        rw [Nat.succ_mul]
        omega
      · rw [hbeyond n (by omega), Nat.min_eq_right (by omega)]
        rw [Nat.min_eq_right (by omega)] at ih
        exact ih
  exact hmin.trans (Nat.mul_le_mul_right _ (Nat.min_le_right _ _))

/-! ### Runs whose records fit -/

/-- The record of a write, with its newline, is no longer than a file may be. -/
def RotatingState.RecordFits (cfg : RotatingConfig) (s : RotatingState L) (a : RotatingAction L) : Prop :=
  match a with
  | .write entry _ => ∀ sink text, s.sink = some sink → sink.recordOf cfg.localtime entry = some text →
      text.length + 1 ≤ cfg.maxFileSize
  | _ => True

/-- The records a step adds fit. -/
theorem RotatingState.records_fit {cfg : RotatingConfig} {s s' : RotatingState L} {a : RotatingAction L}
    (h : ∀ r ∈ s.records, r.length + 1 ≤ cfg.maxFileSize) (ha : s.RecordFits cfg a) (hstep : s.step cfg a = some s') :
    ∀ r ∈ s'.records, r.length + 1 ≤ cfg.maxFileSize := by
  rcases step_cases hstep with ⟨junk, o, rfl⟩ | ⟨entry, o, rfl⟩ | ⟨-, hrecords, -⟩
  · obtain ⟨-, rfl⟩ := step_construct_iff.mp hstep
    exact h
  · obtain ⟨sink, hsink, rfl⟩ := step_write_iff.mp hstep
    intro r hr
    rcases List.mem_append.mp hr with hr | hr
    · exact h r hr
    · exact ha sink r hsink (Option.mem_toList.mp hr)
  · rw [hrecords]
    exact h

theorem mem_oldestFirst {α : Type} {f : Nat → List α} {n k : Nat} (hk : k ≤ n) {x : α} (hx : x ∈ f k) :
    x ∈ oldestFirst f n := by
  induction n with
  | zero =>
    rw [Nat.le_zero.mp hk] at hx
    exact hx
  | succ n ih =>
    rw [oldestFirst, List.mem_append]
    by_cases hlast : k = n + 1
    · exact Or.inl (hlast ▸ hx)
    · exact Or.inr (ih (by omega))

/-! ### Without a file to rotate -/

section
variable {cfg : RotatingConfig} {sink : RotatingFileSink L} {disk : Disk} {fd : OpenFile}

/-- **With `max_files = 0` making room changes nothing that is read.** -/
theorem makeRoom_of_zero (len : Nat) {o : RotateOutcome} (h : Tracks cfg sink disk fd) (hzero : cfg.maxFiles = 0)
    (hbound : ((logs cfg.basePath disk 0).getD []).length < 2 ^ 63) (ho : o.Succeeds) :
    ∃ fd', Tracks cfg (sink.makeRoom disk len o).1 (sink.makeRoom disk len o).2 fd' ∧
      (logs cfg.basePath (sink.makeRoom disk len o).2 0).getD [] = (logs cfg.basePath disk 0).getD [] := by
  rw [RotatingFileSink.makeRoom]
  split
  · have hloop : RotatingFileSink.renameLoop sink.basePath sink.maxFiles o sink.maxFiles disk = disk := by
      rw [h.maxFiles, hzero]
      rfl
    have hlogs := RotatingFileSink.logs_rotate sink disk ho.2.2.1 0
    rw [RotatingFileSink.rotate] at hlogs ⊢
    rw [hloop, if_pos rfl] at hlogs
    rw [hloop]
    refine ⟨_, tracks_openFile ho.2.2.1 ho.2.2.2 h.basePath h.maxFileSize h.maxFiles hbound, ?_⟩
    rw [← h.basePath, hlogs]
    rfl
  · exact ⟨fd, h, rfl⟩

/-- **A record that finds no room is appended all the same.** -/
theorem RotatingState.write_overflows {s s' : RotatingState L} {a : RotatingAction L} (h : HistoryInv cfg s)
    (ho : s.CallsSucceed cfg a) (hstep : s.step cfg a = some s') (hroom : ¬ s.FindsRoom cfg a) :
    (cfg.maxFiles + 1) * cfg.maxFileSize < diskUse cfg.basePath s'.disk 1 := by
  cases a with
  | construct junk o => exact absurd trivial hroom
  | destroy => exact absurd trivial hroom
  | setFormatter formatter => exact absurd trivial hroom
  | setLevel level => exact absurd trivial hroom
  | write entry o =>
    rw [FindsRoom, not_or] at hroom
    obtain ⟨hpos, hlong⟩ := hroom
    simp only [not_forall] at hlong
    obtain ⟨sink, text, hsink, hrecord, hlong⟩ := hlong
    have hzero : cfg.maxFiles = 0 := Nat.eq_zero_of_not_pos hpos
    obtain ⟨_, hwritten, rfl⟩ := step_write_iff.mp hstep
    cases hsink.symm.trans hwritten
    obtain ⟨fd, htracks⟩ := h.tracks sink hsink
    obtain ⟨_, htext, hne⟩ := ILogSink.record_eq_some_iff.mp hrecord
    have hline : o.line.Full text.length := htext ▸ ho.2.1 sink hsink
    have hfd : sink.fd ≠ none := by
      rw [htracks.opened]
      exact Option.some_ne_none fd
    obtain ⟨base, hwrite⟩ := RotatingFileSink.write_of_record s.disk o hrecord hfd
    obtain ⟨fd', hopen, hsame⟩ := makeRoom_of_zero text.length htracks hzero h.bound ho.1
    generalize sink.makeRoom s.disk text.length o.rotate = room at *
    rw [hopen.opened] at hwrite
    have happend := hopen.logs_append (text ++ ascii "\n") 0
    rw [if_pos rfl] at happend
    have hlast : diskUse cfg.basePath (room.2.append fd'.inode (text ++ ascii "\n")) 1 =
        ((logs cfg.basePath s.disk 0).getD []).length + text.length + 1 := by
      rw [diskUse_succ, happend, ← hsame, hopen.log, Option.getD_some, Option.getD_some, List.length_append,
        List.length_append]
      show 0 + _ = _
      rw [Nat.zero_add, Nat.add_assoc]
      rfl
    show _ < diskUse _ (sink.write cfg.localtime entry s.disk o).2 1
    rw [hwrite, RotatingFileSink.appendLine_of_full_disk hne hline, hlast, hzero, Nat.zero_add, Nat.one_mul]
    omega

end

/-! ### The bound -/

/-- What a run keeps. -/
theorem RotatingState.historyInv_of_reachable {cfg : RotatingConfig} {s : RotatingState L}
    (h : (rotatingMachine L cfg fun disk => ∀ k, logs cfg.basePath disk k = none).ReachableVia
      (fun s a => s.CallsSucceed cfg a ∧ s.RecordFits cfg a ∧ s.FindsRoom cfg a) s) :
    HistoryInv cfg s ∧ ∀ r ∈ s.records, r.length + 1 ≤ cfg.maxFileSize := by
  refine Machine.ReachableVia.induct (fun s => HistoryInv cfg s ∧ ∀ r ∈ s.records, r.length + 1 ≤ cfg.maxFileSize)
    ?_ ?_ h
  · intro s hs
    exact ⟨HistoryInv.of_init hs, by rw [hs.2.1]; exact nofun⟩
  · intro s a s' _ hok hinv hstep
    obtain ⟨hcalls, hfits, hroom⟩ := hok
    exact ⟨hinv.1.step hroom hcalls hstep, records_fit hinv.2 hfits hstep⟩

/-- **The log files never take more than `(max_files + 1) * max_file_size`**, in runs
whose records fit and whose writes find room or have files to rotate; the first write
that has neither breaks the bound. -/
theorem RotatingState.diskUse_le {cfg : RotatingConfig} {s : RotatingState L}
    (h : (rotatingMachine L cfg fun disk => ∀ k, logs cfg.basePath disk k = none).ReachableVia
      (fun s a => s.CallsSucceed cfg a ∧ s.RecordFits cfg a ∧ s.FindsRoom cfg a) s) :
    (∀ n, diskUse cfg.basePath s.disk n ≤ (cfg.maxFiles + 1) * cfg.maxFileSize) ∧
      ∀ a s', s.CallsSucceed cfg a → s.step cfg a = some s' → ¬ s.FindsRoom cfg a →
        (cfg.maxFiles + 1) * cfg.maxFileSize < diskUse cfg.basePath s'.disk 1 := by
  obtain ⟨hinv, hrecords⟩ := historyInv_of_reachable h
  obtain ⟨parts, hkept⟩ := hinv.kept
  refine ⟨fun n => diskUse_le_of_le ?_ hkept.beyond n, fun a s' ho hstep hroom => write_overflows hinv ho hstep hroom⟩
  intro k hk
  rw [hkept.log k hk]
  rcases hkept.small k hk with hsmall | ⟨r, hr⟩
  · exact hsmall
  · have hmem : r ∈ s.records := hkept.suffix.subset (mem_oldestFirst hk (hr ▸ List.mem_singleton_self r))
    rw [hr, length_lines_singleton]
    exact hrecords r hmem

/-! ### One record too many -/

namespace RotatingState

/-- No file besides `a`, which has room for one record of 54 bytes. -/
def singleFile : RotatingConfig := ⟨fun _ => ⟨70, 0, 1, 0, 0, 0⟩, ascii "a", 60, 0⟩

/-- A sink and its disk after a write. -/
def writeZero (c : RotatingFileSink Limits.desktop × Disk) : RotatingFileSink Limits.desktop × Disk :=
  c.1.write singleFile.localtime (.zero _) c.2 .allSucceed

def singleSink : RotatingFileSink Limits.desktop × Disk :=
  RotatingFileSink.create (fun _ => 0) singleFile.basePath singleFile.maxFileSize singleFile.maxFiles .empty ⟨true, true⟩

/-- The state with this sink and disk, once these records were to be written. -/
def singleState (c : RotatingFileSink Limits.desktop × Disk) (records : List (List Byte)) :
    RotatingState Limits.desktop := ⟨some c.1, c.2, records⟩

def zeroRecord (c : RotatingFileSink Limits.desktop × Disk) : List (List Byte) :=
  (c.1.recordOf singleFile.localtime (.zero _)).toList

/-- A write of an entry whose record fits, and whose file stays small. -/
theorem singleState_write {c : RotatingFileSink Limits.desktop × Disk} (records : List (List Byte))
    (hfits : (c.1.recordOf singleFile.localtime (.zero _)).all (fun text => text.length + 1 ≤ 60) = true)
    (hsmall : (singleState (writeZero c) (records ++ zeroRecord c)).FitsOffT) :
    (singleState c records).step singleFile (.write (.zero _) .allSucceed) =
        some (singleState (writeZero c) (records ++ zeroRecord c)) ∧
      (singleState c records).CallsSucceed singleFile (.write (.zero _) .allSucceed) ∧
      (singleState c records).RecordFits singleFile (.write (.zero _) .allSucceed) := by
  have hstep : (singleState c records).step singleFile (.write (.zero _) .allSucceed) =
      some (singleState (writeZero c) (records ++ zeroRecord c)) := step_write_iff.mpr ⟨_, rfl, rfl⟩
  refine ⟨hstep, callsSucceed_allSucceed ?_, ?_⟩
  · intro s' hs'
    rw [← Option.some.inj (hstep.symm.trans hs')]
    exact hsmall
  · intro sink text hsink hrecord
    cases hsink
    rw [hrecord, Option.all_some] at hfits
    exact of_decide_eq_true hfits

def onceState : RotatingState Limits.desktop := singleState (writeZero singleSink) ([] ++ zeroRecord singleSink)

def twiceState : RotatingState Limits.desktop :=
  singleState (writeZero (writeZero singleSink)) ([] ++ zeroRecord singleSink ++ zeroRecord (writeZero singleSink))

/-- Runs without log files before them. -/
abbrev singleRuns : Machine (RotatingState Limits.desktop) (RotatingAction Limits.desktop) :=
  rotatingMachine Limits.desktop singleFile fun disk => ∀ k, logs singleFile.basePath disk k = none

theorem onceState_reachable : singleRuns.ReachableVia
    (fun s a => s.CallsSucceed singleFile a ∧ s.RecordFits singleFile a ∧ s.FindsRoom singleFile a) onceState := by
  have hempty : singleRuns.ReachableVia
      (fun s a => s.CallsSucceed singleFile a ∧ s.RecordFits singleFile a ∧ s.FindsRoom singleFile a)
      ⟨none, .empty, []⟩ := .init ⟨rfl, rfl, fun _ => rfl⟩
  have hconstruct : (⟨none, .empty, []⟩ : RotatingState Limits.desktop).step singleFile
      (.construct (fun _ => 0) ⟨true, true⟩) = some (singleState singleSink []) := step_construct_iff.mpr ⟨rfl, rfl⟩
  obtain ⟨hstep, hcalls, hfits⟩ :=
    singleState_write (c := singleSink) [] (by decide +kernel) (by decide +kernel)
  have hroom : (singleState singleSink []).FindsRoom singleFile (.write (.zero _) .allSucceed) := by
    refine Or.inr fun sink text hsink hrecord => ?_
    have hnew : ((logs singleFile.basePath singleSink.2 0).getD []).length = 0 := by decide +kernel
    have := hfits sink text hsink hrecord
    show ((logs singleFile.basePath singleSink.2 0).getD []).length + text.length + 1 ≤ _
    omega
  have hnew : (⟨none, .empty, []⟩ : RotatingState Limits.desktop).CallsSucceed singleFile
      (.construct (fun _ => 0) ⟨true, true⟩) := ⟨rfl, rfl⟩
  exact reachableVia_step (reachableVia_step hempty ⟨hnew, trivial, trivial⟩ hconstruct) ⟨hcalls, hfits, hroom⟩ hstep

theorem diskUse_le_onceState :
    diskUse singleFile.basePath onceState.disk 1 ≤ (singleFile.maxFiles + 1) * singleFile.maxFileSize :=
  (diskUse_le onceState_reachable).1 1

/-- **With no file to rotate, two records of 54 bytes take more than 60.** -/
theorem not_diskUse_le_twiceState :
    singleRuns.ReachableVia (fun s a => s.CallsSucceed singleFile a ∧ s.RecordFits singleFile a) twiceState ∧
      ¬ diskUse singleFile.basePath twiceState.disk 1 ≤ (singleFile.maxFiles + 1) * singleFile.maxFileSize := by
  obtain ⟨hstep, hcalls, hfits⟩ :=
    singleState_write (c := writeZero singleSink) ([] ++ zeroRecord singleSink) (by decide +kernel) (by decide +kernel)
  refine ⟨reachableVia_step (onceState_reachable.mono fun s a h => ⟨h.1, h.2.1⟩) ⟨hcalls, hfits⟩ hstep, ?_⟩
  decide +kernel

end RotatingState

end BrLogger
