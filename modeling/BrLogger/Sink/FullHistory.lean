import BrLogger.Lib.Recording
import BrLogger.Sink.History

/-!
# What the rotations remove

The files hold the last records only, because every rotation removes the oldest file.
Here a run keeps what its rotations remove, in their order.  Put in front of the files,
read from the oldest to `base`, it makes the history whole (`unlinked_append_logs`):
a record is lost with a file that a rotation removes, and in no other way.

A `Write` takes from the front of the files what its rotation removes, and adds its
line at their end, in `base`; the rest of the files is only numbered anew.
-/

namespace BrLogger

variable {L : Limits}

/-- What the `k`-th newest file holds, nothing when it is not there. -/
def logText (cfg : RotatingConfig) (disk : Disk) (k : Nat) : List Byte := (logs cfg.basePath disk k).getD []

/-- The test in front of a record: with it the file would be longer than `max_file_size_`. -/
def RotatingFileSink.Overflows (sink : RotatingFileSink L) (len : Nat) : Prop :=
  sink.maxFileSize < sizeT (sizeT (sink.currentSize + len) + 1)

instance (sink : RotatingFileSink L) (len : Nat) : Decidable (sink.Overflows len) :=
  inferInstanceAs (Decidable (_ < _))

theorem RotatingFileSink.makeRoom_eq (sink : RotatingFileSink L) (disk : Disk) (len : Nat) (o : RotateOutcome) :
    sink.makeRoom disk len o = if sink.Overflows len then sink.rotate disk o else (sink, disk) := rfl

/-- What an action removes: the oldest file, when it is a `Write` that rotates. -/
def RotatingState.unlinked (cfg : RotatingConfig) (s : RotatingState L) : RotatingAction L → List Byte
  | .write entry _ =>
    match s.sink with
    | none => []
    | some sink =>
      match sink.recordOf cfg.localtime entry with
      | none => []
      | some text => if sink.fd ≠ none ∧ sink.Overflows text.length then logText cfg s.disk cfg.maxFiles else []
  | _ => []

/-! ### One call -/

section
variable {cfg : RotatingConfig} {sink : RotatingFileSink L} {disk : Disk} {fd : OpenFile}

/-- **A rotation takes the oldest file from the front** and leaves the rest as it was. -/
theorem rotate_oldestFirst {o : RotateOutcome} (h : Tracks cfg sink disk fd) (hpos : 0 < cfg.maxFiles)
    (ho : o.Succeeds) :
    logText cfg disk cfg.maxFiles ++ oldestFirst (logText cfg (sink.rotate disk o).2) cfg.maxFiles =
      oldestFirst (logText cfg disk) cfg.maxFiles := by
  obtain ⟨-, hrotate⟩ := rotate_succeeds h hpos ho
  have hfiles : ∀ k ≤ cfg.maxFiles, logText cfg (sink.rotate disk o).2 k =
      if k = 0 then [] else logText cfg disk (k - 1) := by
    intro k hk
    rw [logText, hrotate, if_pos hk]
    by_cases hzero : k = 0
    · rw [if_pos hzero, if_pos hzero]
      rfl
    · rw [if_neg hzero, if_neg hzero]
      rfl
  rw [oldestFirst_congr hfiles]
  obtain ⟨n, hn⟩ : ∃ n, cfg.maxFiles = n + 1 := ⟨cfg.maxFiles - 1, by omega⟩
  rw [hn, oldestFirst_shift (f := logText cfg disk) (if_pos rfl) (fun k => if_neg (Nat.succ_ne_zero k)), oldestFirst]

/-- Making room removes the oldest file or nothing. -/
theorem makeRoom_oldestFirst (len : Nat) {o : RotateOutcome} (h : Tracks cfg sink disk fd) (hpos : 0 < cfg.maxFiles)
    (ho : o.Succeeds) :
    (∃ fd', Tracks cfg (sink.makeRoom disk len o).1 (sink.makeRoom disk len o).2 fd') ∧
      (if sink.Overflows len then logText cfg disk cfg.maxFiles else []) ++
          oldestFirst (logText cfg (sink.makeRoom disk len o).2) cfg.maxFiles =
        oldestFirst (logText cfg disk) cfg.maxFiles := by
  rw [RotatingFileSink.makeRoom_eq]
  by_cases hover : sink.Overflows len
  · rw [if_pos hover, if_pos hover]
    exact ⟨(rotate_succeeds h hpos ho).1, rotate_oldestFirst h hpos ho⟩
  · rw [if_neg hover, if_neg hover]
    exact ⟨⟨fd, h⟩, rfl⟩

/-- **A `Write` with a record** makes room and ends the base file with its line. -/
theorem write_logText {entry : LogEntry L} {o : RotatingOutcome} {text : List Byte} (h : Tracks cfg sink disk fd)
    (hpos : 0 < cfg.maxFiles) (hrecord : sink.recordOf cfg.localtime entry = some text)
    (hrotate : o.rotate.Succeeds) (hline : o.line.Full text.length) :
    ∃ room : Nat → List Byte,
      (if sink.Overflows text.length then logText cfg disk cfg.maxFiles else []) ++ oldestFirst room cfg.maxFiles =
          oldestFirst (logText cfg disk) cfg.maxFiles ∧
        ∀ k, logText cfg (sink.write cfg.localtime entry disk o).2 k =
          if k = 0 then room 0 ++ (text ++ ascii "\n") else room k := by
  obtain ⟨_, _, hne⟩ := ILogSink.record_eq_some_iff.mp hrecord
  have hfd : sink.fd ≠ none := by
    rw [h.opened]
    exact Option.some_ne_none fd
  obtain ⟨base, hwrite⟩ := RotatingFileSink.write_of_record disk o hrecord hfd
  obtain ⟨⟨fd', hopen⟩, hroom⟩ := makeRoom_oldestFirst text.length h hpos hrotate
  refine ⟨_, hroom, fun k => ?_⟩
  generalize sink.makeRoom disk text.length o.rotate = room at *
  rw [hopen.opened] at hwrite
  have happend := (hopen.withBase base).logs_append (text ++ ascii "\n") k
  rw [← RotatingFileSink.appendLine_of_full_disk hne hline] at happend
  rw [hwrite, logText, logText, hopen.log, happend]
  by_cases hzero : k = 0
  · rw [if_pos hzero, if_pos hzero]
    rfl
  · rw [if_neg hzero, if_neg hzero]
    rfl

end

/-! ### One action -/

namespace RotatingState

variable {cfg : RotatingConfig} {s s' : RotatingState L}

theorem unlinked_of_nothing {sink : RotatingFileSink L} {entry : LogEntry L} {o : RotatingOutcome}
    (hsink : s.sink = some sink) (hrecord : sink.recordOf cfg.localtime entry = none) :
    s.unlinked cfg (.write entry o) = [] := by
  simp only [unlinked, hsink, hrecord]

theorem unlinked_of_record {sink : RotatingFileSink L} {entry : LogEntry L} {o : RotatingOutcome} {text : List Byte}
    (hsink : s.sink = some sink) (hfd : sink.fd ≠ none) (hrecord : sink.recordOf cfg.localtime entry = some text) :
    s.unlinked cfg (.write entry o) = if sink.Overflows text.length then logText cfg s.disk cfg.maxFiles else [] := by
  simp only [unlinked, hsink, hrecord, ne_eq, hfd, not_false_eq_true, true_and]

/-- **An action changes nothing that is read, or makes room and ends the base file with the line of
its record.** -/
theorem logText_step {a : RotatingAction L} (h : HistoryInv cfg s) (hpos : 0 < cfg.maxFiles)
    (hok : s.CallsSucceed cfg a) (hstep : s.step cfg a = some s') :
    (s'.records = s.records ∧ s.unlinked cfg a = [] ∧ ∀ k, logText cfg s'.disk k = logText cfg s.disk k) ∨
      ∃ (text : List Byte) (room : Nat → List Byte), s'.records = s.records ++ [text] ∧
        s.unlinked cfg a ++ oldestFirst room cfg.maxFiles = oldestFirst (logText cfg s.disk) cfg.maxFiles ∧
        ∀ k, logText cfg s'.disk k = if k = 0 then room 0 ++ (text ++ ascii "\n") else room k := by
  cases a with
  | construct junk o =>
    obtain ⟨_, rfl⟩ := step_construct_iff.mp hstep
    refine Or.inl ⟨rfl, rfl, fun k => ?_⟩
    have hlogs := RotatingFileSink.logs_openFile
      (L := L) ⟨ILogSink.create L junk, cfg.basePath, cfg.maxFileSize, cfg.maxFiles, 0, none⟩ s.disk hok.1 k
    refine (congrArg (fun c => Option.getD c []) hlogs).trans ?_
    by_cases hzero : k = 0
    · rw [if_pos hzero, hzero]
      rfl
    · rw [if_neg hzero]
      rfl
  | write entry o =>
    obtain ⟨hrotate, hline, -⟩ := hok
    obtain ⟨sink, hsink, rfl⟩ := step_write_iff.mp hstep
    cases hrecord : sink.recordOf cfg.localtime entry with
    | none =>
      obtain ⟨base, hwrite⟩ := RotatingFileSink.write_of_nothing s.disk o (Or.inl hrecord)
      refine Or.inl ⟨List.append_nil _, unlinked_of_nothing hsink hrecord, fun k => ?_⟩
      rw [hwrite]
    | some text =>
      obtain ⟨_, htext, _⟩ := ILogSink.record_eq_some_iff.mp hrecord
      obtain ⟨fd, htracks⟩ := h.tracks sink hsink
      obtain ⟨room, hroom, hfiles⟩ := write_logText htracks hpos hrecord hrotate (htext ▸ hline sink hsink)
      have hfd : sink.fd ≠ none := by
        rw [htracks.opened]
        exact Option.some_ne_none fd
      refine Or.inr ⟨text, room, rfl, ?_, hfiles⟩
      rw [unlinked_of_record hsink hfd hrecord]
      exact hroom
  | destroy | setFormatter | setLevel =>
    rcases step_cases hstep with ⟨_, _, he⟩ | ⟨_, _, he⟩ | ⟨hdisk, hrecords, -⟩
    · cases he
    · cases he
    · exact Or.inl ⟨hrecords, rfl, fun k => by rw [hdisk]⟩

/-- An action takes what it removes from the front of the files and adds its record at their end. -/
theorem unlinked_append_step {a : RotatingAction L} (h : HistoryInv cfg s) (hpos : 0 < cfg.maxFiles)
    (hok : s.CallsSucceed cfg a) (hstep : s.step cfg a = some s') :
    ∃ rs, s'.records = s.records ++ rs ∧
      s.unlinked cfg a ++ oldestFirst (logText cfg s'.disk) cfg.maxFiles =
        oldestFirst (logText cfg s.disk) cfg.maxFiles ++ lines rs := by
  rcases logText_step h hpos hok hstep with ⟨hrecords, hnone, hfiles⟩ | ⟨text, room, hrecords, hroom, hfiles⟩
  · refine ⟨[], by rw [hrecords, List.append_nil], ?_⟩
    rw [hnone, oldestFirst_congr fun k _ => hfiles k]
    exact (List.append_nil _).symm
  · refine ⟨[text], hrecords, ?_⟩
    rw [oldestFirst_append (f := room) _ ((hfiles 0).trans (if_pos rfl))
      (fun k => (hfiles (k + 1)).trans (if_neg (Nat.succ_ne_zero k))), ← List.append_assoc, hroom, lines_singleton]

end RotatingState

/-! ### The newest record -/

theorem suffix_oldestFirst {α : Type} (f : Nat → List α) (n : Nat) : f 0 <:+ oldestFirst f n := by
  induction n with
  | zero => exact List.suffix_rfl
  | succ n ih => exact ih.trans (List.suffix_append _ _)

/-- The last of the records is the last of the base file. -/
theorem getLast?_of_suffix {α : Type} {f : Nat → List α} {n : Nat} {xs : List α} (h : oldestFirst f n <:+ xs)
    (hne : f 0 ≠ []) : xs.getLast? = (f 0).getLast? := by
  obtain ⟨before, rfl⟩ := (suffix_oldestFirst f n).trans h
  exact List.getLast?_append_of_ne_nil before hne

/-- Once there are records the base file is not empty. -/
def NewestKept (cfg : RotatingConfig) (s : RotatingState L) : Prop := s.records ≠ [] → logText cfg s.disk 0 ≠ []

section
variable {cfg : RotatingConfig} {s s' : RotatingState L}

theorem NewestKept.step (h : NewestKept cfg s) (hinv : HistoryInv cfg s) (hpos : 0 < cfg.maxFiles)
    {a : RotatingAction L} (hok : s.CallsSucceed cfg a) (hstep : s.step cfg a = some s') : NewestKept cfg s' := by
  rcases RotatingState.logText_step hinv hpos hok hstep with ⟨hrecords, -, hfiles⟩ | ⟨text, room, -, -, hfiles⟩
  · rw [NewestKept, hrecords, hfiles]
    exact h
  · intro _
    rw [hfiles, if_pos rfl]
    exact List.append_ne_nil_of_right_ne_nil _ (List.append_ne_nil_of_right_ne_nil text (List.cons_ne_nil 10 []))

theorem NewestKept.last {parts : Nat → List (List Byte)} (h : NewestKept cfg s)
    (hkept : Kept cfg.maxFiles cfg.maxFileSize (logs cfg.basePath s.disk) s.records parts) {r : List Byte}
    (hr : s.records.getLast? = some r) : (parts 0).getLast? = some r := by
  have hbase : parts 0 ≠ [] := by
    intro hnil
    refine h ?_ ?_
    · intro he
      rw [he] at hr
      cases hr
    · rw [logText, hkept.log 0 (Nat.zero_le _), hnil]
      rfl
  rw [← getLast?_of_suffix hkept.suffix hbase]
  exact hr

end

/-! ### Runs -/

/-- The rotating sink with the bytes its rotations remove. -/
def fullLog (L : Limits) (cfg : RotatingConfig) : Machine (RotatingState L × List Byte) (RotatingAction L) :=
  (rotatingMachine L cfg fun disk => ∀ k, logs cfg.basePath disk k = none).recording (RotatingState.unlinked cfg)

namespace RotatingState

variable {cfg : RotatingConfig} {s s' : RotatingState L}

/-- **What the rotations removed and what the files hold are all the records**, oldest first, each
followed by its newline. -/
theorem unlinked_append_logs {s : RotatingState L × List Byte} (hpos : 0 < cfg.maxFiles)
    (h : (fullLog L cfg).ReachableVia (fun s a => s.1.CallsSucceed cfg a) s) :
    s.2 ++ oldestFirst (logText cfg s.1.disk) cfg.maxFiles = lines s.1.records := by
  refine Machine.recording_append (CallsSucceed cfg) h (fun s => oldestFirst (logText cfg s.disk) cfg.maxFiles)
    (fun s => lines s.records) ?_ ?_
  · rintro s ⟨-, hrecords, hnone⟩
    have hempty : ∀ n, oldestFirst (logText cfg s.disk) n = [] := by
      intro n
      induction n with
      | zero => rw [oldestFirst, logText, hnone]; rfl
      | succ n ih => rw [oldestFirst, ih, logText, hnone]; rfl
    rw [hempty, hrecords]
    rfl
  · intro s a s' hr hok hstep
    obtain ⟨rs, hrecords, hfiles⟩ := unlinked_append_step (HistoryInv.of_reachableVia hpos hr) hpos hok hstep
    exact ⟨lines rs, by rw [hrecords, lines_append], hfiles⟩

theorem newestKept_of_reachable (hpos : 0 < cfg.maxFiles)
    (h : (rotatingMachine L cfg fun disk => ∀ k, logs cfg.basePath disk k = none).ReachableVia (CallsSucceed cfg) s) :
    NewestKept cfg s := by
  refine Machine.ReachableVia.induct (NewestKept cfg) ?_ ?_ h
  · intro s hs hne
    exact absurd hs.2.1 hne
  · intro s a s' hr hok hnewest hstep
    exact hnewest.step (HistoryInv.of_reachableVia hpos hr) hpos hok hstep

end RotatingState

end BrLogger
