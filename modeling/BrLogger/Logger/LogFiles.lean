import BrLogger.Logger.Destructor
import BrLogger.Sink.JsonLog

/-!
# What the log files of a program say

The logger hands its entries to a rotating sink that writes JSON.  When the program is
over, every sequence id is accounted for by looking at the files: it stands in one
of them, or in a file that a rotation of the sink removed, or it was counted as a drop,
or the sink's level kept it out (`log_files_account`).
-/

namespace BrLogger

/-- The number an object has under a name. -/
def readNumber (name : List Byte) : Json.Value → Option ℚ
  | .obj ms =>
    match ms.lookup name with
    | some (.num q) => some q
    | _ => none
  | _ => none

theorem JsonRecord.readNumber_seq (r : JsonRecord) : readNumber (ascii "seq") (.obj r.members) = some (r.seq : ℚ) := rfl

section
variable {α β : Type}

theorem oldestFirst_map (g : α → β) (f : Nat → List α) (n : Nat) :
    (oldestFirst f n).map g = oldestFirst (fun k => (f k).map g) n := by
  induction n with
  | zero => rfl
  | succ n ih => rw [oldestFirst, oldestFirst, List.map_append, ih]

end

/-! ### Reading the files -/

/-- The sequence numbers of the JSON lines of a text. -/
def readSeqs (text : List Byte) : List (Option ℚ) :=
  (terminatedLines text).map fun line => (Json.decode line).bind (readNumber (ascii "seq"))

namespace RotatingState

variable {L : Limits} {cfg : RotatingConfig}

/-- The entries the sink is given, each with whether its level lets it pass. -/
def offered (s : RotatingState L) : RotatingAction L → List (LogEntry L × Bool)
  | .write entry _ => s.sink.toList.map fun sink => (entry, sink.shouldLog entry.level)
  | _ => []

/-- The rotating sink with the bytes its rotations remove and the entries it is given. -/
def offeredLog (L : Limits) (cfg : RotatingConfig) :
    Machine ((RotatingState L × List Byte) × List (LogEntry L × Bool)) (RotatingAction L) :=
  (fullLog L cfg).recording fun s a => s.1.offered a

/-- The ids of the entries that passed, or of those that did not. -/
def offeredIds (passed : Bool) (entries : List (LogEntry L × Bool)) : List Nat :=
  (entries.filter fun e => e.2 == passed).map fun e => e.1.id

theorem admitted_eq (s : RotatingState L) (a : RotatingAction L) :
    s.admitted a = (s.offered a).flatMap fun e => if e.2 then [e.1] else [] := by
  cases a with
  | write entry o =>
    rw [admitted, offered]
    cases s.sink with
    | none => rfl
    | some sink => exact (List.append_nil _).symm
  | _ => rfl

theorem flatMap_passed (entries : List (LogEntry L × Bool)) :
    (entries.flatMap fun e => if e.2 then [e.1] else []).map LogEntry.id = offeredIds true entries := by
  induction entries with
  | nil => rfl
  | cons e entries ih =>
    obtain ⟨entry, passed⟩ := e
    cases passed with
    | true => exact congrArg (entry.id :: ·) ih
    | false => exact ih

theorem offeredIds_sublist (passed : Bool) (entries : List (LogEntry L × Bool)) :
    (offeredIds passed entries).Sublist ((entries.map Prod.fst).map LogEntry.id) := by
  rw [List.map_map]
  exact List.filter_sublist.map _

theorem offeredIds_add (entries : List (LogEntry L × Bool)) :
    (offeredIds false entries : Multiset Nat) + (offeredIds true entries : Multiset Nat) =
      ((entries.map Prod.fst).map LogEntry.id : List Nat) := by
  induction entries with
  | nil => rfl
  | cons e entries ih =>
    obtain ⟨entry, passed⟩ := e
    rw [List.map_cons, List.map_cons, ← Multiset.cons_coe, ← ih]
    cases passed with
    | true => exact Multiset.add_cons entry.id (offeredIds false entries : Multiset Nat) (offeredIds true entries)
    | false => exact Multiset.cons_add entry.id (offeredIds false entries : Multiset Nat) (offeredIds true entries)

theorem readSeqs_renderings (localtime : LocalTime) (entries : List (LogEntry L)) :
    readSeqs (lines (entries.map (JsonFormatter.rendering localtime false))) =
      (entries.map LogEntry.id).map fun n : Nat => some (n : ℚ) := by
  rw [readSeqs, terminatedLines_renderings, List.map_map, List.map_map]
  refine List.map_congr_left fun entry _ => ?_
  simp only [Function.comp_apply, JsonFormatter.decode_rendering, Option.bind_some]
  exact (entry.record localtime).readNumber_seq

/-- **What is read back** from the removed bytes and from the files are the numbers of the
entries that passed, in their order. -/
theorem readSeqs_eq {r : (RotatingState L × List Byte) × List (LogEntry L × Bool)} (hpos : 1 ≤ cfg.maxFiles)
    (h : (offeredLog L cfg).ReachableVia (fun s a => s.1.1.LogsJson cfg a) r) :
    ∃ rotated read : List Nat, rotated ++ read = offeredIds true r.2 ∧
      readSeqs r.1.2 = rotated.map (fun n : Nat => some (n : ℚ)) ∧
      readSeqs (oldestFirst (logText cfg r.1.1.disk) cfg.maxFiles) = read.map fun n : Nat => some (n : ℚ) := by
  let ok : RotatingState L × List Byte → RotatingAction L → Prop := fun s a => s.1.LogsJson cfg a
  obtain ⟨gone, parts, hall, hgone, hfile, -⟩ :=
    jsonLog_parts hpos (Machine.recording_flatMap ok h _ fun s a => admitted_eq s.1 a)
  refine ⟨gone.map LogEntry.id, (oldestFirst parts cfg.maxFiles).map LogEntry.id, ?_, ?_, ?_⟩
  · rw [← List.map_append, hall, flatMap_passed]
  · rw [hgone, readSeqs_renderings]
  · rw [oldestFirst_lines hfile, ← oldestFirst_map, readSeqs_renderings]

end RotatingState

/-! ### The whole program -/

namespace LoggerState

variable {ι α : Type} [Fintype ι] [DecidableEq ι] {cfg : LoggerConfig ι α}

/-- **The log files account for every call.**  A program has logged from any number of threads and
is over, its logger destroyed, and sink `k` was a rotating one writing JSON.  The numbers
read back from its files, those read back from what its rotations removed, those its level
kept out and those counted as drops are the numbers of all calls, each exactly once; and
the removed and the kept ones together are what passed the level, in that order, where
the calls of a thread stand in the order it made them. -/
theorem log_files_account (s : LoggerState ι α cfg.limits) (b t : BackendState ι (LogEntry cfg.limits))
    (as : List (BackendAction ι (LogEntry cfg.limits))) (h : (loggerMachine cfg).ReachableVia OneConsumer s)
    (hquiet : ∀ i, s.call i = .idle) (hwrap : s.backend.queue.claimed.length < 2 ^ 32 - cfg.limits.ringSize.val)
    (hcalls : s.handed.length < 2 ^ 64) (hstop : s.backend.step cfg.backend .callStop = some b)
    (hrun : (backendMachine ι (LogEntry cfg.limits) cfg.backend).RunVia BackendState.Destroying b as t)
    (hreturn : t.control = .idle) (k : Nat) (hk : k < cfg.sinks) (files : RotatingConfig) (hpos : 1 ≤ files.maxFiles)
    (r : (RotatingState cfg.limits × List Byte) × List (LogEntry cfg.limits × Bool))
    (hsink : (RotatingState.offeredLog cfg.limits files).ReachableVia (fun s a => s.1.1.LogsJson files a) r)
    (hgiven : r.2.map Prod.fst = t.written k) :
    ∃ rotated read : List Nat,
      readSeqs r.1.2 = rotated.map (fun n : Nat => some (n : ℚ)) ∧
      readSeqs (oldestFirst (logText files r.1.1.disk) files.maxFiles) = read.map (fun n : Nat => some (n : ℚ)) ∧
      rotated ++ read = RotatingState.offeredIds true r.2 ∧
      ((s.dropped.map UInt64.toNat : List Nat) : Multiset Nat) + (RotatingState.offeredIds false r.2 : List Nat) +
          (rotated : Multiset Nat) + (read : Multiset Nat) = Multiset.range s.handed.length ∧
      ∀ i, ((rotated ++ read).filter fun n => s.handed[n]? = some i).Pairwise (· < ·) := by
  obtain ⟨htotal, hreturned⟩ := destroyed_written h hquiet hwrap hcalls hstop hrun hreturn
  have hitems : r.2.map Prod.fst = s.backend.queue.items := hgiven.trans (hreturned k hk).1
  obtain ⟨rotated, read, hpassed, hrotated, hread⟩ := RotatingState.readSeqs_eq hpos hsink
  refine ⟨rotated, read, hrotated, hread, hpassed, ?_, fun i => ?_⟩
  · have hpassedIds : (rotated : Multiset Nat) + (read : Multiset Nat) =
        (RotatingState.offeredIds true r.2 : List Nat) := by rw [← hpassed, Multiset.coe_add]
    rw [← htotal, ← hitems, ← RotatingState.offeredIds_add, add_assoc, add_assoc, hpassedIds]
  · have hinv := loggerInv_of_reachable h hcalls
    have hsub : (rotated ++ read).Sublist (s.backend.queue.items.map LogEntry.id) := by
      rw [← hitems, hpassed]
      exact RotatingState.offeredIds_sublist true r.2
    have hfilter := hsub.filter fun n => decide (s.handed[n]? = some i)
    rw [hinv.filter_items i] at hfilter
    exact (List.pairwise_append.mp (hinv.increasing i)).1.sublist hfilter

/-! ### A program of three calls -/

def unstartedEntry (n : Nat) : LogEntry tinyLogger.limits := unstarted.backend.queue.items.getD n (.zero _)

/-- A new sink on an empty disk. -/
def newFile : RotatingFileSink tinyLogger.limits × Disk :=
  RotatingFileSink.create (fun _ => 0) RotatingState.threeBytes.basePath RotatingState.threeBytes.maxFileSize
    RotatingState.threeBytes.maxFiles .empty ⟨true, true⟩

def newFiles : RotatingState tinyLogger.limits := ⟨some newFile.1, newFile.2, []⟩

def firstFed : RotatingState tinyLogger.limits := newFiles.jsonFed RotatingState.threeBytes (unstartedEntry 0)

def secondFed : RotatingState tinyLogger.limits := firstFed.jsonFed RotatingState.threeBytes (unstartedEntry 1)

/-- What a call of `Write` needs so that the line is obtained whole. -/
structure Fits (s : RotatingState tinyLogger.limits) (entry : LogEntry tinyLogger.limits) : Prop where
  wellFormed : entry.WellFormed
  short : (JsonFormatter.rendering RotatingState.threeBytes.localtime false entry).length < 2048
  small : (s.jsonFed RotatingState.threeBytes entry).FitsOffT

theorem fits_first : Fits newFiles (unstartedEntry 0) :=
  ⟨⟨by decide +kernel, by decide +kernel, by decide +kernel, by decide +kernel⟩, by decide +kernel, by decide +kernel⟩

theorem fits_second : Fits firstFed (unstartedEntry 1) :=
  ⟨⟨by decide +kernel, by decide +kernel, by decide +kernel, by decide +kernel⟩, by decide +kernel, by decide +kernel⟩

/-- A run of the sink that meets the conditions of `log_files_account`, and these are the entries it was given. -/
def SinkGiven (s : RotatingState tinyLogger.limits) (removed : List Byte) (entries : List (LogEntry tinyLogger.limits)) :
    Prop :=
  ∃ given : List (LogEntry tinyLogger.limits × Bool), given.map Prod.fst = entries ∧
    (RotatingState.offeredLog tinyLogger.limits RotatingState.threeBytes).ReachableVia
      (fun s a => s.1.1.LogsJson RotatingState.threeBytes a) ((s, removed), given)

theorem newFiles_given : SinkGiven newFiles [] [] := by
  have hconstruct : RotatingState.LogsJson (L := tinyLogger.limits) RotatingState.threeBytes ⟨none, .empty, []⟩
      (.construct (fun _ => 0) ⟨true, true⟩) := ⟨⟨rfl, rfl⟩, trivial⟩
  have hstep : (⟨none, .empty, []⟩ : RotatingState tinyLogger.limits).step RotatingState.threeBytes
      (.construct (fun _ => 0) ⟨true, true⟩) = some newFiles := RotatingState.step_construct_iff.mpr ⟨rfl, rfl⟩
  have hopen : (fullLog tinyLogger.limits RotatingState.threeBytes).step (⟨none, .empty, []⟩, [])
      (.construct (fun _ => 0) ⟨true, true⟩) = some (newFiles, []) := Machine.recording_step_iff.mpr ⟨hstep, rfl⟩
  have hnone : (RotatingState.offeredLog tinyLogger.limits RotatingState.threeBytes).ReachableVia
      (fun s a => s.1.1.LogsJson RotatingState.threeBytes a) ((⟨none, .empty, []⟩, []), []) :=
    .init ⟨⟨⟨rfl, rfl, fun _ => rfl⟩, rfl⟩, rfl⟩
  exact ⟨[], rfl, hnone.step hconstruct (Machine.recording_step_iff.mpr ⟨hopen, rfl⟩)⟩

theorem SinkGiven.feed {s : RotatingState tinyLogger.limits} {removed : List Byte}
    {entries : List (LogEntry tinyLogger.limits)} {entry : LogEntry tinyLogger.limits}
    (h : SinkGiven s removed entries) (hsink : s.sink.isSome = true) (hfits : Fits s entry) :
    ∃ removed, SinkGiven (s.jsonFed RotatingState.threeBytes entry) removed (entries ++ [entry]) := by
  obtain ⟨given, hgiven, hrun⟩ := h
  obtain ⟨sink, hs⟩ := Option.isSome_iff_exists.mp (RotatingState.isSome_withJson RotatingState.threeBytes hsink)
  refine ⟨_, _, ?_, RotatingState.recording_jsonFed hrun hsink hfits.wellFormed hfits.short hfits.small rfl rfl rfl⟩
  rw [List.map_append, hgiven, RotatingState.offered, hs]
  rfl

theorem eq_getD_of_length_two {β : Type} {l : List β} (h : l.length = 2) (d : β) : [l.getD 0 d, l.getD 1 d] = l := by
  match l, h with
  | [a, b], _ => rfl

theorem log_files_account_unstarted :
    ∃ (removed : List Byte) (passed : List (LogEntry tinyLogger.limits × Bool)) (rotated read : List Nat),
      readSeqs removed = rotated.map (fun n : Nat => some (n : ℚ)) ∧
      readSeqs (oldestFirst (logText RotatingState.threeBytes secondFed.disk) RotatingState.threeBytes.maxFiles) =
        read.map (fun n : Nat => some (n : ℚ)) ∧
      rotated ++ read = RotatingState.offeredIds true passed ∧
      ((unstarted.dropped.map UInt64.toNat : List Nat) : Multiset Nat) +
          (RotatingState.offeredIds false passed : List Nat) + (rotated : Multiset Nat) + (read : Multiset Nat) =
        Multiset.range 3 := by
  obtain ⟨t, hrun, hidle⟩ := Option.map_eq_some_iff.mp destroyed_ends
  obtain ⟨hcall, hclaimed, hhanded, -⟩ := unstarted_facts
  have hwrap : unstarted.backend.queue.claimed.length < 2 ^ 32 - tinyLogger.limits.ringSize.val := by
    rw [hclaimed]
    decide
  have hcalls : unstarted.handed.length < 2 ^ 64 := by
    rw [hhanded]
    decide
  have hdestroyed := Machine.RunVia.of_execVia hrun
  have hwritten := ((destroyed_written unstarted_reachable (fun _ => hcall) hwrap hcalls unstarted_stop
    hdestroyed (of_decide_eq_true hidle)).2 0 (by decide)).1
  have hlength : unstarted.backend.queue.items.length = 2 := by rw [RingState.items_length, hclaimed]
  obtain ⟨_, hfirst⟩ := newFiles_given.feed rfl fits_first
  obtain ⟨removed, given, hgiven, hsink⟩ := hfirst.feed (RotatingState.isSome_jsonFed _ rfl) fits_second
  have haccount := log_files_account unstarted destroyed t _ unstarted_reachable (fun _ => hcall) hwrap hcalls
    unstarted_stop hdestroyed (of_decide_eq_true hidle) 0 (by decide) RotatingState.threeBytes (by decide) _ hsink
    (hgiven.trans ((eq_getD_of_length_two hlength (.zero _)).trans hwritten.symm))
  rw [hhanded] at haccount
  obtain ⟨rotated, read, hrotated, hread, hpassed, htotal, -⟩ := haccount
  exact ⟨removed, given, rotated, read, hrotated, hread, hpassed, htotal⟩

end LoggerState

end BrLogger
