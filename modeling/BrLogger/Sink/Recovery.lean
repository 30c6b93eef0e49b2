import BrLogger.Sink.DailyFileSink
import BrLogger.Sink.RotatingFileSink

/-!
# After an `open` that failed

Neither sink tries again to open a file that it could not open: a `Write` that
finds `fd_ < 0` returns.  So a `RotatingFileSink` without a file never has one
again, and a `DailyFileSink` has one only when the day changes (`recorded_iff`).
-/

namespace BrLogger

variable {L : Limits}

/-- The sink's file ends with the record. -/
def InFile (fd : Option OpenFile) (disk : Disk) (text : List Byte) : Prop :=
  ∃ f, fd = some f ∧ text ++ ascii "\n" <:+ disk.contents f.inode

theorem not_inFile_none {disk : Disk} {text : List Byte} : ¬ InFile none disk text := by
  intro h
  obtain ⟨_, hfd, _⟩ := h
  cases hfd

theorem inFile_append {disk : Disk} {text : List Byte} {f : OpenFile} :
    InFile (some f) (disk.append f.inode (text ++ ascii "\n")) text := by
  refine ⟨f, rfl, ?_⟩
  rw [FileSystem.append_contents_self]
  exact List.suffix_append _ _

namespace RotatingFileSink

variable {localtime : LocalTime} {sink : RotatingFileSink L} {disk : Disk} {entry : LogEntry L} {o : RotatingOutcome}
  {text : List Byte}

/-- A rotation that can open its file does not lose it. -/
theorem makeRoom_fd (disk : Disk) (len : Nat) (hopen : o.rotate.reopen.opened = true) (hfd : sink.fd ≠ none) :
    (sink.makeRoom disk len o.rotate).1.fd ≠ none := by
  rw [makeRoom]
  split
  · rw [rotate, openFile_of_opened hopen]
    exact Option.some_ne_none _
  · exact hfd

theorem inFile_write_iff (hrecord : sink.recordOf localtime entry = some text)
    (hopen : o.rotate.reopen.opened = true) (hline : o.line.Full text.length) (disk : Disk) :
    InFile (sink.write localtime entry disk o).1.fd (sink.write localtime entry disk o).2 text ↔ sink.fd ≠ none := by
  by_cases hfd : sink.fd = none
  · obtain ⟨base, hwrite⟩ := write_of_closed localtime entry disk o hfd
    rw [hwrite]
    refine iff_of_false ?_ (fun h => h hfd)
    show ¬ InFile sink.fd disk text
    rw [hfd]
    exact not_inFile_none
  · obtain ⟨_, _, hne⟩ := ILogSink.record_eq_some_iff.mp hrecord
    obtain ⟨base, hwrite⟩ := write_of_record disk o hrecord hfd
    obtain ⟨f, hf⟩ := Option.ne_none_iff_exists'.mp (makeRoom_fd disk text.length hopen hfd)
    rw [hf] at hwrite
    refine iff_of_true ?_ hfd
    rw [hwrite]
    simp only [appendLine_of_full hne hline, hf]
    exact inFile_append

/-- A run of `Write` calls. -/
def writes (localtime : LocalTime) (calls : List (LogEntry L × RotatingOutcome)) (sink : RotatingFileSink L)
    (disk : Disk) : RotatingFileSink L × Disk :=
  calls.foldl (fun room call => room.1.write localtime call.1 room.2 call.2) (sink, disk)

/-- **Without a file no run of `Write` calls opens one**, or writes anything. -/
theorem writes_of_closed (localtime : LocalTime) (calls : List (LogEntry L × RotatingOutcome)) (disk : Disk)
    (hfd : sink.fd = none) :
    (writes localtime calls sink disk).1.fd = none ∧ (writes localtime calls sink disk).2 = disk := by
  induction calls generalizing sink with
  | nil => exact ⟨hfd, rfl⟩
  | cons call calls ih =>
    obtain ⟨base, hwrite⟩ := write_of_closed localtime call.1 disk call.2 hfd
    rw [writes, List.foldl_cons, hwrite]
    exact ih hfd

end RotatingFileSink

namespace DailyFileSink

variable {calendar : Calendar} {sink : DailyFileSink L} {entry : LogEntry L} {o : DailyOutcome} {text : List Byte}

theorem inFile_write_iff (hrecord : sink.recordOf calendar entry = some text) (hopen : o.reopen.opened = true)
    (hline : o.line.Full text.length) (disk : Disk) :
    InFile (sink.write calendar entry disk o).1.fd (sink.write calendar entry disk o).2 text ↔
      sink.fd ≠ none ∨ sink.getDay calendar o.now ≠ sink.currentDay := by
  obtain ⟨_, base, hwrite⟩ := write_of_record disk o hrecord
  have hfile : ∀ f, (sink.openToday calendar disk o).1.fd = some f →
      InFile (sink.write calendar entry disk o).1.fd (sink.write calendar entry disk o).2 text := by
    intro f hf
    rw [hwrite]
    simp only [hf, appendLine_of_full hline]
    exact inFile_append
  by_cases hday : sink.getDay calendar o.now ≠ sink.currentDay
  · have hopened : (sink.openToday calendar disk o).1.fd =
        some (disk.openAppend (sink.makeFilename calendar o.reopen.now)).2 := by
      simp only [openToday, if_pos hday, openFileForToday, if_pos hopen]
    exact iff_of_true (hfile _ hopened) (Or.inr hday)
  · have hsame : sink.openToday calendar disk o = (sink, disk) := if_neg hday
    cases hfd : sink.fd with
    | none =>
      refine iff_of_false ?_ (fun h => h.elim (fun h => h rfl) hday)
      rw [hwrite, hsame]
      simp only [hfd]
      exact not_inFile_none
    | some f => exact iff_of_true (hfile f (by rw [hsame]; exact hfd)) (Or.inl (Option.some_ne_none f))

end DailyFileSink

/-- **A record reaches the file of a sink that could open it now exactly when the sink
has a file already**, or, with a `DailyFileSink`, when the day has changed; and a
`RotatingFileSink` without a file stays without one. -/
theorem recorded_iff (localtime : LocalTime) (calendar : Calendar) (disk : Disk) (entry : LogEntry L) (text : List Byte) :
    (∀ (sink : RotatingFileSink L) (o : RotatingOutcome), sink.recordOf localtime entry = some text →
      o.rotate.reopen.opened = true → o.line.Full text.length →
      (InFile (sink.write localtime entry disk o).1.fd (sink.write localtime entry disk o).2 text ↔ sink.fd ≠ none)) ∧
    (∀ (sink : RotatingFileSink L) (calls : List (LogEntry L × RotatingOutcome)), sink.fd = none →
      (sink.writes localtime calls disk).1.fd = none ∧ (sink.writes localtime calls disk).2 = disk) ∧
    ∀ (sink : DailyFileSink L) (o : DailyOutcome), sink.recordOf calendar entry = some text →
      o.reopen.opened = true → o.line.Full text.length →
      (InFile (sink.write calendar entry disk o).1.fd (sink.write calendar entry disk o).2 text ↔
        sink.fd ≠ none ∨ sink.getDay calendar o.now ≠ sink.currentDay) :=
  ⟨fun _ _ hrecord hopen hline => RotatingFileSink.inFile_write_iff hrecord hopen hline disk,
    fun _ calls hfd => RotatingFileSink.writes_of_closed localtime calls disk hfd,
    fun _ _ hrecord hopen hline => DailyFileSink.inFile_write_iff hrecord hopen hline disk⟩

namespace RotatingFileSink

/-- A sink whose first `open` failed. -/
def closedSink : RotatingFileSink Limits.desktop × Disk :=
  create (fun _ => 0) (ascii "a") 100 1 .empty ⟨false, true⟩

theorem exists_record_closedSink :
    ∃ text, closedSink.1.recordOf Calendar.january1970.toLocalTime (.zero _) = some text ∧
      RotatingOutcome.allSucceed.line.Full text.length := by
  obtain ⟨text, htext⟩ : ∃ text, closedSink.1.recordOf Calendar.january1970.toLocalTime (.zero _) = some text :=
    Option.isSome_iff_exists.mp (by decide +kernel)
  refine ⟨text, htext, ⟨2048, rfl, ?_⟩, ⟨1, rfl, Nat.le_refl 1⟩⟩
  obtain ⟨_, hdoes, _⟩ := ILogSink.record_eq_some_iff.mp htext
  exact hdoes ▸ ILogSink.length_text_le _ _ _

theorem recorded_iff_closedSink :
    ∃ text, closedSink.1.recordOf Calendar.january1970.toLocalTime (.zero _) = some text ∧
      (InFile (closedSink.1.write Calendar.january1970.toLocalTime (.zero _) closedSink.2 .allSucceed).1.fd
          (closedSink.1.write Calendar.january1970.toLocalTime (.zero _) closedSink.2 .allSucceed).2 text ↔
        closedSink.1.fd ≠ none) := by
  obtain ⟨text, htext, hline⟩ := exists_record_closedSink
  exact ⟨text, htext, (recorded_iff _ Calendar.january1970 closedSink.2 (.zero _) text).1 closedSink.1 .allSucceed htext
    rfl hline⟩

/-- **When the constructor could not open the file, the next record is lost**, though
every call would now succeed. -/
theorem not_inFile_closedSink :
    ∃ text, closedSink.1.recordOf Calendar.january1970.toLocalTime (.zero _) = some text ∧
      RotatingOutcome.allSucceed.line.Full text.length ∧
      ¬ InFile (closedSink.1.write Calendar.january1970.toLocalTime (.zero _) closedSink.2 .allSucceed).1.fd
          (closedSink.1.write Calendar.january1970.toLocalTime (.zero _) closedSink.2 .allSucceed).2 text := by
  obtain ⟨text, htext, hline⟩ := exists_record_closedSink
  refine ⟨text, htext, hline, ?_⟩
  rw [inFile_write_iff htext rfl hline]
  exact fun h => h rfl

end RotatingFileSink

end BrLogger
