import BrLogger.Sink.History

/-!
# `current_size_` under faults

The sink counts the bytes of its file instead of asking for them.  Whatever comes
of the calls of `open(2)`, `rename(2)`, `remove(3)` and `write(2)`, the count is
right: it grows by what each `write(2)` says it has transferred
(`appendLine_size`), and whenever a file is opened it is loaded again, so that it
does not matter whether the renames before have left the old file in place.  For
the same reason the file that is open is the one named `base`: nothing is renamed
before it has been closed.
-/

namespace BrLogger

variable {L : Limits}

namespace RotatingFileSink

/-- An open file is the one of this name, and its length is known. -/
structure SizeKnown (path : List Byte) (sink : RotatingFileSink L) (disk : Disk) : Prop where
  basePath : sink.basePath = path
  named : ∀ fd, sink.fd = some fd → disk.inode path = some fd.inode
  size : ∀ fd, sink.fd = some fd → sink.currentSize = (disk.contents fd.inode).length

/-- The file that is open is shorter than a `size_t` can say. -/
def FitsSizeT (sink : RotatingFileSink L) (disk : Disk) : Prop :=
  ∀ fd, sink.fd = some fd → (disk.contents fd.inode).length < 2 ^ 64

variable {path : List Byte} {sink : RotatingFileSink L} {disk : Disk}

theorem sizeT_of_lt {n : Nat} (h : n < 2 ^ 64) : sizeT n = n := Nat.mod_eq_of_lt h

theorem SizeKnown.withBase (h : SizeKnown path sink disk) (base : ILogSink L) :
    SizeKnown path { sink with toILogSink := base } disk := ⟨h.basePath, h.named, h.size⟩

/-- `OpenFile` asks for the size of what it has opened, and leaves no file open
otherwise. -/
theorem sizeKnown_openFile {o : OpenOutcome} (hpath : sink.basePath = path) (hstatted : o.statted = true)
    (hfits : (sink.openFile disk o).1.FitsSizeT (sink.openFile disk o).2) :
    SizeKnown path (sink.openFile disk o).1 (sink.openFile disk o).2 := by
  rcases Bool.eq_false_or_eq_true o.opened with hopened | hclosed
  · rw [openFile_of_opened hopened] at hfits ⊢
    have hlt := hfits _ rfl
    refine ⟨hpath, ?_, ?_⟩
    · rintro fd ⟨⟩
      exact hpath ▸ disk.openAppend_inode sink.basePath
    · rintro fd ⟨⟩
      show (if o.statted then _ else _) = _
      rw [if_pos hstatted]
      exact sizeT_of_lt hlt
  · rw [openFile_of_not_opened hclosed]
    refine ⟨hpath, ?_, ?_⟩
    all_goals
      intro fd hfd
      cases hfd

/-- The test in front of a record, whatever becomes of the renames. -/
theorem SizeKnown.makeRoom (h : SizeKnown path sink disk) {len : Nat} {o : RotateOutcome}
    (hstatted : o.reopen.statted = true) (hfits : (sink.makeRoom disk len o).1.FitsSizeT (sink.makeRoom disk len o).2) :
    SizeKnown path (sink.makeRoom disk len o).1 (sink.makeRoom disk len o).2 := by
  rw [RotatingFileSink.makeRoom] at hfits ⊢
  split at hfits
  · rename_i hfull
    rw [if_pos hfull]
    exact sizeKnown_openFile h.basePath hstatted hfits
  · rename_i hroom
    rw [if_neg hroom]
    exact h

/-! ### Short writes -/

section
variable {fd : OpenFile} {text : List Byte} {o : LineOutcome}

theorem appendLine_inode : (sink.appendLine disk fd text o).2.inode = disk.inode := by
  rw [appendLine]
  simp only [FileSystem.write_inode]

theorem appendLine_contents : (sink.appendLine disk fd text o).2.contents fd.inode =
    disk.contents fd.inode ++ FileSystem.sent text o.text ++ FileSystem.sent (ascii "\n") o.newline := by
  rw [appendLine]
  simp only [FileSystem.write_contents_self]

theorem appendLine_kept : (sink.appendLine disk fd text o).1.fd = sink.fd ∧
    (sink.appendLine disk fd text o).1.basePath = sink.basePath := by
  rw [appendLine]
  simp only [grow]
  split <;> split <;> exact ⟨rfl, rfl⟩

/-- The count after a call whose result counts `n` bytes. -/
theorem grow_size {written : Int} {n : Nat} (hn : written.toNat = n) (hfits : sink.currentSize + n < 2 ^ 64) :
    (sink.grow written).currentSize = sink.currentSize + n := by
  rw [grow]
  split
  · rw [← hn] at hfits ⊢
    exact sizeT_of_lt hfits
  · omega

/-- **Two short writes are counted** for as many bytes as they transfer. -/
theorem appendLine_size (hsize : sink.currentSize = (disk.contents fd.inode).length)
    (hfits : ((sink.appendLine disk fd text o).2.contents fd.inode).length < 2 ^ 64) :
    (sink.appendLine disk fd text o).1.currentSize =
      ((sink.appendLine disk fd text o).2.contents fd.inode).length := by
  rw [appendLine_contents, List.length_append, List.length_append] at hfits ⊢
  have htext : (sink.grow (disk.write fd text o.text).2).currentSize =
      sink.currentSize + (FileSystem.sent text o.text).length :=
    grow_size (disk.toNat_write_result text fd o.text) (by omega)
  -- the second call says one byte or none
  have hnewline := (disk.write fd text o.text).1.toNat_write_result (ascii "\n") fd o.newline
  have hone : (FileSystem.sent (ascii "\n") o.newline).length ≤ 1 := FileSystem.length_sent_le _ _
  rw [appendLine]
  simp only
  split
  · show sizeT ((sink.grow (disk.write fd text o.text).2).currentSize + 1) = _
    rw [htext, sizeT_of_lt (by omega)]
    omega
  · omega

theorem SizeKnown.appendLine (h : SizeKnown path sink disk) (hfd : sink.fd = some fd)
    (hfits : (sink.appendLine disk fd text o).1.FitsSizeT (sink.appendLine disk fd text o).2) :
    SizeKnown path (sink.appendLine disk fd text o).1 (sink.appendLine disk fd text o).2 := by
  have hopened : (sink.appendLine disk fd text o).1.fd = some fd := appendLine_kept.1.trans hfd
  refine ⟨appendLine_kept.2.trans h.basePath, ?_, ?_⟩
  all_goals
    intro fd' hfd'
    obtain rfl := Option.some.inj (hopened.symm.trans hfd')
  · rw [appendLine_inode]
    exact h.named fd hfd
  · exact appendLine_size (h.size fd hfd) (hfits fd hopened)

/-- What fits after a line was short enough before it. -/
theorem FitsSizeT.of_appendLine (h : (sink.appendLine disk fd text o).1.FitsSizeT (sink.appendLine disk fd text o).2)
    (hfd : sink.fd = some fd) : sink.FitsSizeT disk := by
  intro fd' hfd'
  obtain rfl := Option.some.inj (hfd.symm.trans hfd')
  have hlt := h fd (appendLine_kept.1.trans hfd)
  rw [appendLine_contents, List.length_append, List.length_append] at hlt
  omega

end

/-- **A call of `Write` knows the size afterwards**, if `fstat(2)` succeeds. -/
theorem SizeKnown.write (h : SizeKnown path sink disk) {localtime : LocalTime} {entry : LogEntry L} {o : RotatingOutcome}
    (hstatted : o.rotate.reopen.statted = true)
    (hfits : (sink.write localtime entry disk o).1.FitsSizeT (sink.write localtime entry disk o).2) :
    SizeKnown path (sink.write localtime entry disk o).1 (sink.write localtime entry disk o).2 := by
  by_cases hnothing : sink.recordOf localtime entry = none ∨ sink.fd = none
  · obtain ⟨base, hwrite⟩ := write_of_nothing disk o hnothing
    rw [hwrite]
    exact h.withBase base
  · rw [not_or] at hnothing
    obtain ⟨text, hrecord⟩ := Option.ne_none_iff_exists'.mp hnothing.1
    obtain ⟨base, hwrite⟩ := write_of_record disk o hrecord hnothing.2
    have hroom : (sink.makeRoom disk text.length o.rotate).1.FitsSizeT (sink.makeRoom disk text.length o.rotate).2 →
        SizeKnown path (sink.makeRoom disk text.length o.rotate).1 (sink.makeRoom disk text.length o.rotate).2 :=
      h.makeRoom hstatted
    generalize sink.makeRoom disk text.length o.rotate = room at hwrite hroom
    split at hwrite
    · rw [hwrite] at hfits ⊢
      exact (hroom hfits).withBase base
    · rename_i fd hfd
      have hopened : ({ room.1 with toILogSink := base } : RotatingFileSink L).fd = some fd := hfd
      rw [hwrite] at hfits ⊢
      exact ((hroom (hfits.of_appendLine hopened)).withBase base).appendLine hopened hfits

end RotatingFileSink

/-! ### Runs -/

/-- The calls of `fstat(2)` succeed, and the file that is open after the action is
shorter than a `size_t` can say.  The other calls come out as they like. -/
def RotatingState.SizesFit (cfg : RotatingConfig) (s : RotatingState L) (a : RotatingAction L) : Prop :=
  (match a with
    | .construct _ o => o.statted = true
    | .write _ o => o.rotate.reopen.statted = true
    | _ => True) ∧
  ∀ s' sink, s.step cfg a = some s' → s'.sink = some sink → sink.FitsSizeT s'.disk

/-- What holds of the sink, if there is one. -/
def RotatingState.SinkKnows (cfg : RotatingConfig) (s : RotatingState L) : Prop :=
  ∀ sink, s.sink = some sink → sink.SizeKnown cfg.basePath s.disk

theorem RotatingState.SinkKnows.step {cfg : RotatingConfig} {s s' : RotatingState L} {a : RotatingAction L}
    (h : s.SinkKnows cfg) (hok : s.SizesFit cfg a) (hstep : s.step cfg a = some s') : s'.SinkKnows cfg := by
  obtain ⟨hstatted, hfits⟩ := hok
  have hfits := fun sink => hfits s' sink hstep
  rcases RotatingState.step_cases hstep with ⟨junk, o, rfl⟩ | ⟨entry, o, rfl⟩ | ⟨hdisk, -, hsinks⟩
  · obtain ⟨_, rfl⟩ := RotatingState.step_construct_iff.mp hstep
    rintro sink ⟨⟩
    exact RotatingFileSink.sizeKnown_openFile rfl hstatted (hfits _ rfl)
  · obtain ⟨sink, hsink, rfl⟩ := RotatingState.step_write_iff.mp hstep
    rintro sink' ⟨⟩
    exact (h sink hsink).write hstatted (hfits _ rfl)
  · intro sink' hsink'
    obtain ⟨sink, base, hsink, rfl⟩ := hsinks sink' hsink'
    rw [hdisk]
    exact (h sink hsink).withBase base

/-- **In every state `current_size_` is the size of the open file, which is the one
named `base`**, whatever became of the renames, the openings and the writes. -/
theorem RotatingState.tracksSize {cfg : RotatingConfig} {s : RotatingState L}
    (h : (rotatingMachine L cfg fun _ => True).ReachableVia (RotatingState.SizesFit cfg) s) {sink : RotatingFileSink L}
    (hsink : s.sink = some sink) {fd : OpenFile} (hfd : sink.fd = some fd) :
    sink.currentSize = (s.disk.contents fd.inode).length ∧ s.disk.inode cfg.basePath = some fd.inode := by
  have hknows : s.SinkKnows cfg := by
    refine Machine.ReachableVia.induct (RotatingState.SinkKnows cfg) ?_ ?_ h
    · intro s hinit sink hs
      rw [hinit.1] at hs
      cases hs
    · intro s a s' _ hok hs hstep
      exact hs.step hok hstep
  have hsize := hknows sink hsink
  exact ⟨hsize.size fd hfd, hsize.named fd hfd⟩

namespace RotatingState

theorem fitsSizeT_of_all {cfg : RotatingConfig} {s : RotatingState L} {a : RotatingAction L}
    {u : RotatingFileSink L × Disk} {records : List (List Byte)}
    (hstep : s.step cfg a = some ⟨some u.1, u.2, records⟩)
    (h : (u.1.fd.all fun fd => (u.2.contents fd.inode).length < 2 ^ 64) = true) :
    ∀ s' sink, s.step cfg a = some s' → s'.sink = some sink → sink.FitsSizeT s'.disk := by
  intro s' sink hs' hsink fd hfd
  obtain rfl := Option.some.inj (hstep.symm.trans hs')
  obtain rfl := Option.some.inj hsink
  rw [hfd, Option.all_some] at h
  exact of_decide_eq_true h

/-- No rename succeeds, and the line stops after two bytes. -/
def twoBytesSent : RotatingOutcome := ⟨⟨false, fun _ => false, ⟨true, true⟩⟩, ⟨some 2, none⟩⟩

def partSink : RotatingFileSink Limits.desktop × Disk :=
  newSink.1.write threeBytes.localtime (.zero _) newSink.2 twoBytesSent

def partWritten : RotatingState Limits.desktop :=
  ⟨some partSink.1, partSink.2, constructed.records ++ (newSink.1.recordOf threeBytes.localtime (.zero _)).toList⟩

theorem partWritten_reachable :
    (rotatingMachine Limits.desktop threeBytes fun _ => True).ReachableVia (SizesFit threeBytes) partWritten := by
  have hwrite : constructed.step threeBytes (.write (.zero _) twoBytesSent) = some partWritten :=
    step_write_iff.mpr ⟨_, rfl, rfl⟩
  refine reachableVia_step (constructed_reachable trivial ⟨rfl, ?_⟩) ⟨rfl, ?_⟩ hwrite
  · exact fitsSizeT_of_all step_constructed (by decide +kernel)
  · exact fitsSizeT_of_all hwrite (by decide +kernel)

def partFile : OpenFile := ⟨ascii "a", 0⟩

theorem tracksSize_partWritten :
    partSink.1.currentSize = (partWritten.disk.contents partFile.inode).length ∧
      partWritten.disk.inode threeBytes.basePath = some partFile.inode := by
  have hfd : partSink.1.fd = some partFile := by decide +kernel
  exact tracksSize partWritten_reachable rfl hfd

end RotatingState

end BrLogger
