import BrLogger.Lib.Shift
import BrLogger.Sink.RotatingFileSink

/-!
# What a rotation does to the log files

Read as numbered places, `base` the place `0` and `base.k.log` the place `k`,
the loop of `Rotate` is a shift (`logs_renameLoop`).  With every call
successful each file goes up by one, the oldest is gone and `base` is new
(`logs_rotate`).

The loop does not look at the result of a rename: when `base.k.log` could not
be renamed, the next newer file still replaces it.  A rotation keeps every log
but the oldest exactly when this loses nothing (`keepsLogs_iff`).
-/

namespace BrLogger

variable {L : Limits}

theorem logName_injective (basePath : List Byte) {j k : Nat} (h : logName basePath j = logName basePath k) :
    j = k := by
  have hlen : ∀ n, (logName basePath (n + 1)).length = basePath.length + (decimal (n + 1)).length + 5 := by
    intro n
    have hsep : (ascii ".").length = 1 ∧ (ascii ".log").length = 4 := by decide
    simp only [logName, List.length_append]
    omega
  cases j with
  | zero =>
    cases k with
    | zero => rfl
    | succ k =>
      have := congrArg List.length h
      rw [hlen, logName] at this
      omega
  | succ j =>
    cases k with
    | zero =>
      have := congrArg List.length h
      rw [hlen, logName] at this
      omega
    | succ k =>
      have hdecimal : decimal (j + 1) = decimal (k + 1) := by
        simpa only [logName, List.append_assoc, List.append_cancel_left_eq, List.append_cancel_right_eq] using h
      rw [← digitsValue_decimal (j + 1), hdecimal, digitsValue_decimal]

/-- What is read in the log files, by their numbers. -/
def logs (basePath : List Byte) (disk : Disk) (k : Nat) : Option (List Byte) := disk.read (logName basePath k)

namespace RotatingFileSink

open Shift (shift moveUp)

variable {basePath : List Byte} {maxFiles : Nat} {o : RotateOutcome} {disk : Disk}

theorem logs_rename (disk : Disk) (i : Nat) :
    logs basePath (if o.renamed (i + 1) then disk.rename (logName basePath i) (logName basePath (i + 1)) else disk) =
      moveUp o.renamed (logs basePath disk) i := by
  funext k
  by_cases hnone : logs basePath disk i = none
  · rw [Shift.moveUp_of_not (fun h => h.2 hnone), FileSystem.rename_of_none hnone, ite_self]
  · by_cases hmoved : o.renamed (i + 1) = true
    · rw [if_pos hmoved, Shift.moveUp_apply ⟨hmoved, hnone⟩, logs, FileSystem.read_rename hnone]
      have hiff : ∀ j, logName basePath k = logName basePath j ↔ k = j :=
        fun j => ⟨logName_injective basePath, congrArg _⟩
      simp only [hiff]
      rfl
    · rw [if_neg hmoved, Shift.moveUp_of_not (fun h => hmoved h.1)]

/-- **Below the oldest file the loop is a shift.** -/
theorem logs_renameLoop_of_lt {n : Nat} (h : n < maxFiles) (disk : Disk) :
    logs basePath (renameLoop basePath maxFiles o n disk) = shift o.renamed n (logs basePath disk) := by
  induction n generalizing disk with
  | zero => rfl
  | succ n ih =>
    have hlast : ¬ (n + 1 = maxFiles ∧ o.removed = true) := fun hl => by omega
    rw [renameLoop, shift, ← logs_rename]
    simp only [hlast, if_false]
    exact ih (by omega) _

/-- The whole loop, once the oldest file is removed. -/
theorem logs_renameLoop (hpos : 0 < maxFiles) (hremoved : o.removed = true) (disk : Disk) :
    logs basePath (renameLoop basePath maxFiles o maxFiles disk) =
      shift o.renamed maxFiles (fun k => if k = maxFiles then none else logs basePath disk k) := by
  obtain ⟨n, rfl⟩ : ∃ n, maxFiles = n + 1 := ⟨maxFiles - 1, by omega⟩
  have hlogs : logs basePath (disk.remove (logName basePath (n + 1))) =
      fun k => if k = n + 1 then none else logs basePath disk k := by
    funext k
    rw [logs, FileSystem.read_remove]
    by_cases hk : k = n + 1
    · rw [if_pos hk, if_pos (congrArg _ hk)]
    · rw [if_neg hk, if_neg (fun he => hk (logName_injective basePath he))]
      rfl
  rw [renameLoop, shift, ← hlogs, ← logs_rename]
  simp only [hremoved, and_self, if_true]
  exact logs_renameLoop_of_lt (Nat.lt_succ_self n) _

variable (sink : RotatingFileSink L)

/-- What a successful `OpenFile` leaves in the log files. -/
theorem logs_openFile (disk : Disk) {o : OpenOutcome} (h : o.opened = true) (k : Nat) :
    logs sink.basePath (sink.openFile disk o).2 k =
      if k = 0 then some ((logs sink.basePath disk 0).getD []) else logs sink.basePath disk k := by
  rw [openFile, if_pos h]
  by_cases hk : k = 0
  · rw [if_pos hk, hk]
    exact FileSystem.read_openAppend_self disk sink.basePath
  · rw [if_neg hk]
    exact FileSystem.read_openAppend_of_ne fun he => hk (logName_injective sink.basePath (k := 0) he)

/-- A rotation opens the base file behind its loop. -/
theorem logs_rotate (disk : Disk) {o : RotateOutcome} (h : o.reopen.opened = true) (k : Nat) :
    logs sink.basePath (sink.rotate disk o).2 k =
      if k = 0 then some ((logs sink.basePath (renameLoop sink.basePath sink.maxFiles o sink.maxFiles disk) 0).getD [])
      else logs sink.basePath (renameLoop sink.basePath sink.maxFiles o sink.maxFiles disk) k :=
  logs_openFile { sink with fd := none, currentSize := 0 } _ h k

end RotatingFileSink

/-! ### Renames that fail -/

/-- Only renames fail. -/
def RotateOutcome.renames (renamed : Nat → Bool) : RotateOutcome := ⟨true, renamed, ⟨true, true⟩⟩

namespace RotatingFileSink

open Shift (shift Overwritten)

variable {sink : RotatingFileSink L} {disk : Disk} {renamed : Nat → Bool}

/-- The oldest log is removed first. -/
def removeOldest (sink : RotatingFileSink L) (disk : Disk) (k : Nat) : Option (List Byte) :=
  if k = sink.maxFiles then none else logs sink.basePath disk k

theorem logs_rotate_renames (hpos : 0 < sink.maxFiles) (k : Nat) :
    logs sink.basePath (sink.rotate disk (.renames renamed)).2 k =
      if k = 0 then some ((shift renamed sink.maxFiles (sink.removeOldest disk) 0).getD [])
      else shift renamed sink.maxFiles (sink.removeOldest disk) k := by
  rw [logs_rotate sink disk rfl, logs_renameLoop hpos rfl]
  rfl

/-- Every log but the oldest is still, in full, in some log after a rotation. -/
def KeepsLogs (sink : RotatingFileSink L) (disk : Disk) (renamed : Nat → Bool) : Prop :=
  ∀ k < sink.maxFiles, ∀ c, logs sink.basePath disk k = some c →
    ∃ j ≤ sink.maxFiles, ∃ c', logs sink.basePath (sink.rotate disk (.renames renamed)).2 j = some c' ∧ c <:+: c'

/-- `base.k.log` could not be renamed and `base.(k - 1).log` replaces it. -/
def Loses (sink : RotatingFileSink L) (disk : Disk) (renamed : Nat → Bool) (k : Nat) : Prop :=
  Overwritten renamed sink.maxFiles (logs sink.basePath disk) k

theorem loses_iff {k : Nat} :
    sink.Loses disk renamed k ↔ Overwritten renamed sink.maxFiles (sink.removeOldest disk) k :=
  Overwritten.congr fun _ hj => (if_neg (Nat.ne_of_lt hj)).symm

/-- A log that is not replaced is there after the rotation. -/
theorem exists_log_of_not_loses {k : Nat} {c : List Byte} (hk : k < sink.maxFiles)
    (hc : logs sink.basePath disk k = some c) (h : ¬ sink.Loses disk renamed k) :
    ∃ j ≤ sink.maxFiles, logs sink.basePath (sink.rotate disk (.renames renamed)).2 j = some c := by
  have hc' : sink.removeOldest disk k = some c := (if_neg (Nat.ne_of_lt hk)).trans hc
  obtain ⟨j, hj, hshift⟩ := Shift.exists_shift_of_not_overwritten hk hc' (fun ho => h (loses_iff.mpr ho))
  refine ⟨j, hj, ?_⟩
  rw [logs_rotate_renames (Nat.zero_lt_of_lt hk)]
  by_cases hzero : j = 0
  · rw [hzero] at hshift
    rw [if_pos hzero, hshift]
    rfl
  · rw [if_neg hzero, hshift]

/-- What a log holds after the rotation was held by a log that is not replaced,
unless it is the new, empty file. -/
theorem exists_log_of_rotate {j : Nat} {c : List Byte} (hj : j ≤ sink.maxFiles) (hpos : 0 < sink.maxFiles)
    (hc : logs sink.basePath (sink.rotate disk (.renames renamed)).2 j = some c) :
    c = [] ∨ ∃ m < sink.maxFiles, logs sink.basePath disk m = some c ∧ ¬ sink.Loses disk renamed m := by
  have hlast : sink.removeOldest disk sink.maxFiles = none := if_pos rfl
  have hfrom : shift renamed sink.maxFiles (sink.removeOldest disk) j = some c →
      ∃ m < sink.maxFiles, logs sink.basePath disk m = some c ∧ ¬ sink.Loses disk renamed m := by
    intro hshift
    obtain ⟨m, hm, hmc, hkept⟩ := Shift.exists_of_shift hlast hj hshift
    exact ⟨m, hm, (if_neg (Nat.ne_of_lt hm)).symm.trans hmc, fun hl => hkept (loses_iff.mp hl)⟩
  rw [logs_rotate_renames hpos] at hc
  by_cases hzero : j = 0
  · subst hzero
    rw [if_pos rfl] at hc
    cases hshift : shift renamed sink.maxFiles (sink.removeOldest disk) 0 with
    | none =>
      rw [hshift] at hc
      exact Or.inl (Option.some.inj hc).symm
    | some c' =>
      rw [hshift] at hc
      exact Or.inr (hfrom (hshift.trans hc))
  · rw [if_neg hzero] at hc
    exact Or.inr (hfrom hc)

/-- **A rotation keeps the logs exactly when each log that is replaced where it
stands is contained in one that is not.** -/
theorem keepsLogs_iff (sink : RotatingFileSink L) (disk : Disk) (renamed : Nat → Bool) :
    sink.KeepsLogs disk renamed ↔
      ∀ k c, sink.Loses disk renamed k → logs sink.basePath disk k = some c →
        ∃ m < sink.maxFiles, ∃ c', logs sink.basePath disk m = some c' ∧ ¬ sink.Loses disk renamed m ∧
          c <:+: c' := by
  constructor
  · intro hkeeps k c hloses hc
    obtain ⟨j, hj, c', hc', hin⟩ := hkeeps k hloses.2.1 c hc
    rcases exists_log_of_rotate hj (Nat.zero_lt_of_lt hloses.2.1) hc' with hempty | ⟨m, hm, hmc, hkept⟩
    · -- nothing is contained in the log that does the replacing
      obtain ⟨c'', hc''⟩ := Option.ne_none_iff_exists'.mp hloses.2.2.2.2.2
      rw [hempty, List.infix_nil] at hin
      have hlt := hloses.2.1
      exact ⟨k - 1, by omega, c'', hc'', hloses.pred, by rw [hin]; exact List.nil_infix⟩
    · exact ⟨m, hm, c', hmc, hkept, hin⟩
  · intro hcond k hk c hc
    by_cases hloses : sink.Loses disk renamed k
    · obtain ⟨m, hm, c', hmc, hkept, hin⟩ := hcond k c hloses hc
      obtain ⟨j, hj, hjc⟩ := exists_log_of_not_loses hm hmc hkept
      exact ⟨j, hj, c', hjc, hin⟩
    · obtain ⟨j, hj, hjc⟩ := exists_log_of_not_loses hk hc hloses
      exact ⟨j, hj, c, hjc, List.infix_rfl⟩

/-- Three logs `a`, `a.1.log` and `a.2.log`, holding the bytes 0, 1 and 2. -/
def threeLogs : Disk :=
  let (disk, fd) := (FileSystem.empty : Disk).openAppend (logName (ascii "a") 0)
  let disk := disk.append fd.inode [0]
  let (disk, fd) := disk.openAppend (logName (ascii "a") 1)
  let disk := disk.append fd.inode [1]
  let (disk, fd) := disk.openAppend (logName (ascii "a") 2)
  disk.append fd.inode [2]

/-- A sink on these files that keeps two of them. -/
def sinkOnA : RotatingFileSink Limits.desktop :=
  { ILogSink.create Limits.desktop (fun _ => 0) with
    basePath := ascii "a"
    maxFileSize := 10
    maxFiles := 2
    currentSize := 0
    fd := none }

/-- **When `a.1.log` cannot be renamed, `a` replaces it.** -/
theorem not_keepsLogs_threeLogs : ¬ sinkOnA.KeepsLogs threeLogs (fun i => i != 2) := by
  intro hkeeps
  have hone : logs (ascii "a") threeLogs 1 = some [1] := by decide +kernel
  obtain ⟨j, hj, c', hc', hin⟩ := hkeeps 1 (by decide) [1] hone
  have hall : ∀ j ≤ 2, logs (ascii "a") (sinkOnA.rotate threeLogs (.renames fun i => i != 2)).2 j ≠ none →
      (logs (ascii "a") (sinkOnA.rotate threeLogs (.renames fun i => i != 2)).2 j).any (fun c => c = [0] ∨ c = []) := by
    decide +kernel
  have := hall j hj (by rw [show sinkOnA.basePath = ascii "a" from rfl] at hc'; rw [hc']; exact Option.some_ne_none c')
  rw [show sinkOnA.basePath = ascii "a" from rfl] at hc'
  rw [hc', Option.any_some, decide_eq_true_eq] at this
  rcases this with rfl | rfl
  · exact absurd hin (by decide)
  · exact absurd hin (by decide)

end RotatingFileSink

end BrLogger
