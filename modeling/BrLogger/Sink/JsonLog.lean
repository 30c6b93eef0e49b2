import BrLogger.Formatter.JsonCompact
import BrLogger.Sink.FullHistory
import BrLogger.Sink.JsonLine
import BrLogger.Sink.WholeLines

/-!
# A rotated JSON log reads back

A compact JSON record has no newline in it, so the newlines `Write` puts between
the records are the only ones in a file: cut there, a file gives back the records
one by one, and each decodes to what its entry says.  What the rotations removed
reads back in the same way.  So every entry the sink admitted is found, in its
place, either in the files or in what a rotation removed (`json_log_readable`).
-/

namespace BrLogger

variable {L : Limits}

theorem splitOn_lines {rs : List (List Byte)} (h : ∀ r ∈ rs, 10 ∉ r) : (lines rs).splitOn 10 = rs ++ [[]] := by
  induction rs with
  | nil => exact List.splitOn_eq_singleton List.not_mem_nil
  | cons r rs ih =>
    have hcons : lines (r :: rs) = r ++ 10 :: lines rs := by
      show (r ++ [10]) ++ lines rs = _
      rw [List.append_assoc, List.cons_append, List.nil_append]
    rw [hcons, List.splitOn_append_cons_self_of_not_mem (h r List.mem_cons_self),
      ih fun r' hr' => h r' (List.mem_cons_of_mem r hr'), List.cons_append]

/-- Lines without newlines in them are read back. -/
theorem terminatedLines_lines {rs : List (List Byte)} (h : ∀ r ∈ rs, 10 ∉ r) : terminatedLines (lines rs) = rs := by
  rw [terminatedLines, splitOn_lines h, List.dropLast_concat]

section
variable {α β : Type} {g : α → β}

/-- What maps to numbered lists laid end to end is itself such lists. -/
theorem exists_parts {f : Nat → List β} {n : Nat} {l : List α} (h : l.map g = oldestFirst f n) :
    ∃ parts : Nat → List α, (∀ k ≤ n, (parts k).map g = f k) ∧ oldestFirst parts n = l := by
  induction n generalizing l with
  | zero =>
    refine ⟨fun _ => l, fun k hk => ?_, rfl⟩
    rw [Nat.le_zero.mp hk]
    exact h
  | succ n ih =>
    obtain ⟨older, newer, rfl, holder, hnewer⟩ := List.map_eq_append_iff.mp h
    obtain ⟨parts, hparts, hall⟩ := ih hnewer
    have hbelow : ∀ k ≤ n, Function.update parts (n + 1) older k = parts k :=
      fun k hk => Function.update_of_ne (by omega) _ _
    refine ⟨Function.update parts (n + 1) older, fun k hk => ?_, ?_⟩
    · rcases Nat.le_succ_iff.mp hk with hk | rfl
      · rw [hbelow k hk]
        exact hparts k hk
      · rw [Function.update_self]
        exact holder
    · rw [oldestFirst, Function.update_self, oldestFirst_congr hbelow, hall]

end

theorem atLineEnd_lines (rs : List (List Byte)) : AtLineEnd (lines rs) := by
  intro b hb
  induction rs using List.reverseRecOn with
  | nil => cases hb
  | append_singleton rs r _ =>
    have hlast : lines (rs ++ [r]) = lines rs ++ r ++ [10] := by
      rw [lines_append, lines_singleton, List.append_assoc]
      rfl
    rw [hlast, List.getLast?_concat] at hb
    exact (Option.some.inj hb).symm

/-! ### JSON records -/

namespace RotatingState

/-- The entries that pass the level of the sink. -/
def admitted (s : RotatingState L) : RotatingAction L → List (LogEntry L)
  | .write entry _ => if s.sink.any fun sink => sink.shouldLog entry.level then [entry] else []
  | _ => []

/-- The sink holds a compact `JsonFormatter`, and its line buffer is large enough for the record. -/
structure WritesRecord (cfg : RotatingConfig) (sink : RotatingFileSink L) (entry : LogEntry L) : Prop where
  formatter : sink.formatter = some (JsonFormatter.toIFormatter L cfg.localtime false)
  wellFormed : entry.WellFormed
  fits : (JsonFormatter.rendering cfg.localtime false entry).length < 2048

/-- Every entry that passes the level of the sink is written as a whole record. -/
def WritesJson (cfg : RotatingConfig) (s : RotatingState L) : RotatingAction L → Prop
  | .write entry _ => ∀ sink, s.sink = some sink → sink.shouldLog entry.level = true → WritesRecord cfg sink entry
  | _ => True

variable {cfg : RotatingConfig} {s s' : RotatingState L}

theorem recordOf_json {sink : RotatingFileSink L} {entry : LogEntry L} (h : WritesRecord cfg sink entry)
    (hlevel : sink.shouldLog entry.level = true) :
    sink.recordOf cfg.localtime entry = some (JsonFormatter.rendering cfg.localtime false entry) := by
  refine ILogSink.record_eq_some_iff.mpr ⟨hlevel, ?_, JsonFormatter.rendering_ne_nil _ _ _⟩
  have hsame : sink.toILogSink.withDefault (RotatingFileSink.defaultFormatter L cfg.localtime) = sink.toILogSink := by
    rw [ILogSink.withDefault, h.formatter, Option.getD_some, ← h.formatter]
  have hout := ILogSink.formatted_json h.formatter entry
  rw [JsonFormatter.output_of_large h.fits] at hout
  rw [ILogSink.text, hsame]
  exact hout

/-- **The records are the renderings of the admitted entries.** -/
theorem records_step {a : RotatingAction L} (hok : s.WritesJson cfg a) (hstep : s.step cfg a = some s') :
    s'.records = s.records ++ (s.admitted a).map (JsonFormatter.rendering cfg.localtime false) := by
  cases a with
  | construct junk o =>
    obtain ⟨_, rfl⟩ := step_construct_iff.mp hstep
    exact (List.append_nil _).symm
  | write entry o =>
    obtain ⟨sink, hsink, rfl⟩ := step_write_iff.mp hstep
    rw [admitted, hsink, Option.any_some]
    cases hlevel : sink.shouldLog entry.level with
    | true =>
      rw [recordOf_json (hok sink hsink hlevel) hlevel]
      rfl
    | false =>
      have hnone : sink.recordOf cfg.localtime entry = none := by
        rw [RotatingFileSink.recordOf, ILogSink.record, hlevel]
        rfl
      rw [hnone]
      rfl
  | destroy | setFormatter | setLevel =>
    rcases step_cases hstep with ⟨_, _, he⟩ | ⟨_, _, he⟩ | ⟨-, hrecords, -⟩
    · cases he
    · cases he
    · rw [hrecords]
      exact (List.append_nil _).symm

/-- The rotating sink with the bytes its rotations remove and the entries it admits. -/
def jsonLog (L : Limits) (cfg : RotatingConfig) :
    Machine ((RotatingState L × List Byte) × List (LogEntry L)) (RotatingAction L) :=
  (fullLog L cfg).recording fun s a => s.1.admitted a

/-- The sink's calls succeed, and it writes every entry it admits as a whole JSON record. -/
def LogsJson (cfg : RotatingConfig) (s : RotatingState L) (a : RotatingAction L) : Prop :=
  s.CallsSucceed cfg a ∧ s.WritesJson cfg a

/-- The removed bytes hold the renderings of the first entries, the files those of the rest, the
newest of them in `base`. -/
theorem jsonLog_parts {s : (RotatingState L × List Byte) × List (LogEntry L)} (hpos : 1 ≤ cfg.maxFiles)
    (h : (jsonLog L cfg).ReachableVia (fun s a => s.1.1.LogsJson cfg a) s) :
    ∃ (gone : List (LogEntry L)) (parts : Nat → List (LogEntry L)),
      gone ++ oldestFirst parts cfg.maxFiles = s.2 ∧
      s.1.2 = lines (gone.map (JsonFormatter.rendering cfg.localtime false)) ∧
      (∀ k ≤ cfg.maxFiles, logText cfg s.1.1.disk k =
        lines ((parts k).map (JsonFormatter.rendering cfg.localtime false))) ∧
      (s.2 ≠ [] → parts 0 ≠ []) := by
  let ok : RotatingState L × List Byte → RotatingAction L → Prop := fun s a => s.1.LogsJson cfg a
  have hfull := Machine.recording_reachable ok h
  have hreach := (Machine.recording_reachable (LogsJson cfg) hfull).mono fun s a hok => hok.1
  have hrecords : s.1.1.records = s.2.map (JsonFormatter.rendering cfg.localtime false) := by
    refine Machine.recording_eq ok h (fun s => s.1.records)
      (JsonFormatter.rendering cfg.localtime false) (fun s hs => hs.1.2.1) ?_
    intro s a s' hok hstep
    exact records_step hok.2 (Machine.recording_step_iff.mp hstep).1
  have hwhole := unlinked_append_logs hpos (hfull.mono fun s a hok => hok.1)
  obtain ⟨texts, hkept⟩ := (HistoryInv.of_reachableVia hpos hreach).kept
  obtain ⟨removed, hremoved⟩ := hkept.suffix
  -- the removed bytes are the lines of the records that the files do not hold
  have hgone : s.1.2 = lines removed := by
    have hlines : oldestFirst (logText cfg s.1.1.disk) cfg.maxFiles = lines (oldestFirst texts cfg.maxFiles) :=
      oldestFirst_lines hkept.log
    rw [hlines, ← hremoved, lines_append] at hwhole
    exact List.append_cancel_right hwhole
  rw [hrecords] at hremoved
  obtain ⟨gone, kept, hentries, rfl, hmap⟩ := List.map_eq_append_iff.mp hremoved.symm
  obtain ⟨parts, hparts, hall⟩ := exists_parts hmap
  have hfile : ∀ k ≤ cfg.maxFiles, logText cfg s.1.1.disk k =
      lines ((parts k).map (JsonFormatter.rendering cfg.localtime false)) := by
    intro k hk
    rw [hparts k hk]
    exact hkept.log k hk
  refine ⟨gone, parts, by rw [hall, hentries], hgone, hfile, fun hne hnil => newestKept_of_reachable hpos hreach ?_ ?_⟩
  · rw [hrecords]
    exact fun he => hne (List.map_eq_nil_iff.mp he)
  · rw [hfile 0 (Nat.zero_le _), hnil]
    rfl

theorem terminatedLines_renderings (localtime : LocalTime) (entries : List (LogEntry L)) :
    terminatedLines (lines (entries.map (JsonFormatter.rendering localtime false))) =
      entries.map (JsonFormatter.rendering localtime false) := by
  refine terminatedLines_lines fun r hr => ?_
  obtain ⟨entry, _, rfl⟩ := List.mem_map.mp hr
  exact (JsonFormatter.rendering_printable _ _).newline

theorem decode_renderings (localtime : LocalTime) (entries : List (LogEntry L)) :
    (terminatedLines (lines (entries.map (JsonFormatter.rendering localtime false)))).map Json.decode =
      entries.map fun entry => some (.obj (entry.record localtime).members) := by
  rw [terminatedLines_renderings, List.map_map]
  exact List.map_congr_left fun entry _ => JsonFormatter.decode_rendering _ _ _

/-- **A rotated JSON log reads back.**  Where every admitted entry is written as a whole JSON record,
the admitted entries are those of the removed bytes followed by those of the files, oldest
first: cutting at the newlines and decoding the lines gives what these entries say.
Every file consists of whole lines, and the newest entry is in `base`. -/
theorem json_log_readable (s : (RotatingState L × List Byte) × List (LogEntry L)) (hpos : 1 ≤ cfg.maxFiles)
    (h : (jsonLog L cfg).ReachableVia (fun s a => s.1.1.LogsJson cfg a) s) :
    ∃ (gone : List (LogEntry L)) (parts : Nat → List (LogEntry L)),
      gone ++ oldestFirst parts cfg.maxFiles = s.2 ∧
      (terminatedLines s.1.2).map Json.decode =
        gone.map (fun entry => some (.obj (entry.record cfg.localtime).members)) ∧
      (∀ k ≤ cfg.maxFiles, (terminatedLines (logText cfg s.1.1.disk k)).map Json.decode =
          (parts k).map fun entry => some (.obj (entry.record cfg.localtime).members)) ∧
      (∀ k ≤ cfg.maxFiles, AtLineEnd (logText cfg s.1.1.disk k)) ∧
      ∀ entry, s.2.getLast? = some entry → (parts 0).getLast? = some entry := by
  obtain ⟨gone, parts, hall, hgone, hfile, hnewest⟩ := jsonLog_parts hpos h
  refine ⟨gone, parts, hall, ?_, fun k hk => ?_, fun k hk => ?_, fun entry hentry => ?_⟩
  · rw [hgone, decode_renderings]
  · rw [hfile k hk, decode_renderings]
  · rw [hfile k hk]
    exact atLineEnd_lines _
  · have hbase : parts 0 ≠ [] := by
      refine hnewest ?_
      rintro he
      rw [he] at hentry
      cases hentry
    rw [← getLast?_of_suffix ⟨gone, hall⟩ hbase]
    exact hentry

/-! ### Three records and two files -/

theorem admitted_of_any {entry : LogEntry L} {o : RotatingOutcome}
    (h : (s.sink.any fun sink => sink.shouldLog entry.level) = true) : s.admitted (.write entry o) = [entry] := if_pos h

/-- The sink of this state is given a `JsonFormatter`. -/
def withJson (cfg : RotatingConfig) (s : RotatingState L) : RotatingState L :=
  { s with sink := s.sink.map fun sink =>
      { sink with toILogSink := sink.setFormatter (JsonFormatter.toIFormatter L cfg.localtime false) } }

/-- The sink is given a `JsonFormatter`, then an entry. -/
def jsonFed (cfg : RotatingConfig) (s : RotatingState L) (entry : LogEntry L) : RotatingState L :=
  (s.withJson cfg).fed cfg entry

theorem step_withJson (h : s.sink.isSome = true) :
    s.step cfg (.setFormatter (JsonFormatter.toIFormatter L cfg.localtime false)) = some (s.withJson cfg) := by
  obtain ⟨sink, hsink⟩ := Option.isSome_iff_exists.mp h
  rw [step, hsink, withJson, hsink]
  rfl

theorem isSome_withJson (cfg : RotatingConfig) (h : s.sink.isSome = true) : (s.withJson cfg).sink.isSome = true := by
  rw [withJson, Option.isSome_map]
  exact h

theorem isSome_jsonFed (entry : LogEntry L) (h : s.sink.isSome = true) : (s.jsonFed cfg entry).sink.isSome = true := by
  obtain ⟨sink, hsink, hfed⟩ := step_write_iff.mp (step_fed entry (isSome_withJson cfg h))
  rw [jsonFed, hfed]
  rfl

/-- Beside a sink that is fed an entry, what it removes and what else is written down. -/
theorem recording_jsonFed {β : Type} {emit : RotatingState L × List Byte → RotatingAction L → List β}
    {removed removed' : List Byte} {written written' : List β} {entry : LogEntry L}
    (h : ((fullLog L cfg).recording emit).ReachableVia (fun s a => s.1.1.LogsJson cfg a) ((s, removed), written))
    (hsink : s.sink.isSome = true) (hwell : entry.WellFormed)
    (hshort : (JsonFormatter.rendering cfg.localtime false entry).length < 2048)
    (hfits : (s.jsonFed cfg entry).FitsOffT)
    (hremoved : removed ++ (s.withJson cfg).unlinked cfg (.write entry .allSucceed) = removed')
    (hquiet : emit (s, removed) (.setFormatter (JsonFormatter.toIFormatter L cfg.localtime false)) = [])
    (hwritten : written ++ emit (s.withJson cfg, removed) (.write entry .allSucceed) = written') :
    ((fullLog L cfg).recording emit).ReachableVia (fun s a => s.1.1.LogsJson cfg a)
      ((s.jsonFed cfg entry, removed'), written') := by
  have hset : (fullLog L cfg).step (s, removed)
      (.setFormatter (JsonFormatter.toIFormatter L cfg.localtime false)) = some (s.withJson cfg, removed) :=
    Machine.recording_step_iff.mpr ⟨step_withJson hsink, (List.append_nil _).symm⟩
  have hready : ((fullLog L cfg).recording emit).ReachableVia (fun s a => s.1.1.LogsJson cfg a)
      ((s.withJson cfg, removed), written) := by
    refine .step h (by exact ⟨trivial, trivial⟩) (Machine.recording_step_iff.mpr ⟨hset, ?_⟩)
    rw [hquiet, List.append_nil]
  have hwrite : (fullLog L cfg).step (s.withJson cfg, removed) (.write entry .allSucceed) =
      some (s.jsonFed cfg entry, removed') :=
    Machine.recording_step_iff.mpr ⟨step_fed entry (isSome_withJson cfg hsink), hremoved.symm⟩
  refine .step hready ⟨callsSucceed_fed (isSome_withJson cfg hsink) hfits, ?_⟩
    (Machine.recording_step_iff.mpr ⟨hwrite, hwritten.symm⟩)
  obtain ⟨sink, hs⟩ := Option.isSome_iff_exists.mp hsink
  intro sink' hsink' _
  rw [withJson, hs] at hsink'
  cases hsink'
  exact ⟨rfl, hwell, hshort⟩

theorem numbered_wellFormed (n : UInt32) : (numbered n).WellFormed :=
  ⟨Limits.desktop.maxMsgLen_pos, Nat.zero_le _, (by decide : (CharArray.zero 32).Terminated), fun _ htag => nomatch htag⟩

def oneLogged : RotatingState Limits.desktop := constructed.jsonFed threeBytes (numbered 1)

def twoLogged : RotatingState Limits.desktop := oneLogged.jsonFed threeBytes (numbered 2)

def threeLogged : RotatingState Limits.desktop := twoLogged.jsonFed threeBytes (numbered 3)

/-- The first record, which the third rotation removes. -/
def firstRemoved : List Byte := (twoLogged.withJson threeBytes).unlinked threeBytes (.write (numbered 3) .allSucceed)

/-- A run that wrote down these bytes and entries. -/
def JsonLogged (s : RotatingState Limits.desktop) (removed : List Byte) (entries : List (LogEntry Limits.desktop)) :
    Prop :=
  (jsonLog Limits.desktop threeBytes).ReachableVia (fun s a => s.1.1.LogsJson threeBytes a) ((s, removed), entries)

theorem constructed_jsonLogged : JsonLogged constructed [] [] := by
  have hconstruct : LogsJson (L := Limits.desktop) threeBytes ⟨none, .empty, []⟩
      (.construct (fun _ => 0) ⟨true, true⟩) := ⟨⟨rfl, rfl⟩, trivial⟩
  have hstart : JsonLogged ⟨none, .empty, []⟩ [] [] := .init ⟨⟨⟨rfl, rfl, fun _ => rfl⟩, rfl⟩, rfl⟩
  have hopen : (fullLog Limits.desktop threeBytes).step (⟨none, .empty, []⟩, []) (.construct (fun _ => 0) ⟨true, true⟩) =
      some (constructed, []) := Machine.recording_step_iff.mpr ⟨step_constructed, rfl⟩
  exact Machine.ReachableVia.step hstart hconstruct (Machine.recording_step_iff.mpr ⟨hopen, rfl⟩)

/-- The first two rotations find no oldest file, or an empty one. -/
theorem twoLogged_jsonLogged : JsonLogged twoLogged [] [numbered 1, numbered 2] := by
  have hone : JsonLogged oneLogged [] [numbered 1] :=
    recording_jsonFed constructed_jsonLogged rfl (numbered_wellFormed 1) (by decide +kernel) (by decide +kernel)
      (by decide +kernel) rfl (congrArg ([] ++ ·) (admitted_of_any (by decide +kernel)))
  exact recording_jsonFed hone (isSome_jsonFed _ rfl) (numbered_wellFormed 2) (by decide +kernel) (by decide +kernel)
    (by decide +kernel) rfl (congrArg ([numbered 1] ++ ·) (admitted_of_any (by decide +kernel)))

theorem threeLogged_jsonLogged : JsonLogged threeLogged firstRemoved [numbered 1, numbered 2, numbered 3] :=
  recording_jsonFed twoLogged_jsonLogged (isSome_jsonFed _ (isSome_jsonFed _ rfl)) (numbered_wellFormed 3)
    (by decide +kernel) (by decide +kernel) (List.nil_append _) rfl
    (congrArg ([numbered 1, numbered 2] ++ ·) (admitted_of_any (by decide +kernel)))

/-- With two files the record of the first entry has been removed, and reads back from there. -/
theorem json_log_readable_threeLogged :
    ∃ (gone : List (LogEntry Limits.desktop)) (parts : Nat → List (LogEntry Limits.desktop)),
      gone ++ oldestFirst parts threeBytes.maxFiles = [numbered 1, numbered 2, numbered 3] ∧ gone.length = 1 ∧
      (terminatedLines firstRemoved).map Json.decode =
        gone.map (fun entry => some (.obj (entry.record threeBytes.localtime).members)) ∧
      (parts 0).getLast? = some (numbered 3) := by
  obtain ⟨gone, parts, hall, hgone, -, -, hlast⟩ := json_log_readable _ (by decide) threeLogged_jsonLogged
  dsimp only at hall hgone hlast
  have hlength : (terminatedLines firstRemoved).length = 1 := by decide +kernel
  refine ⟨gone, parts, hall, ?_, hgone, hlast _ rfl⟩
  have := congrArg List.length hgone
  rw [List.length_map, List.length_map, hlength] at this
  exact this.symm

end RotatingState

end BrLogger
