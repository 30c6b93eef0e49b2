import BrLogger.Sink.RingMemorySink

/-!
# What `DumpToFile` reports

The result says whether the file could be opened; what `write(2)` returns is
thrown away.  A line that did not go out whole is missing, or stands there cut,
and the file is then shorter than the lines together, so that it cannot contain
them all (`not_contains_of_short`).  So the result `true` can be trusted exactly
when every call of `write(2)` transfers all it is given (`truthful_iff`).

The formatter may be any: the text of an entry is what the formatter leaves of
it in the local buffer as the turns before have left that.
-/

namespace BrLogger

variable {L : Limits}

/-! ### Lines in a file -/

/-- The file contains these texts in their order, one behind the other, with anything
between them. -/
def ContainsInOrder : List (List Byte) → List Byte → Prop
  | [], _ => True
  | text :: texts, file => ∃ gap rest, file = gap ++ text ++ rest ∧ ContainsInOrder texts rest

theorem containsInOrder_flatten (texts : List (List Byte)) : ContainsInOrder texts texts.flatten := by
  induction texts with
  | nil => trivial
  | cons text texts ih => exact ⟨[], texts.flatten, by simp, ih⟩

theorem ContainsInOrder.length_le {texts : List (List Byte)} {file : List Byte} (h : ContainsInOrder texts file) :
    texts.flatten.length ≤ file.length := by
  induction texts generalizing file with
  | nil => exact Nat.zero_le _
  | cons text texts ih =>
    obtain ⟨gap, rest, rfl, hrest⟩ := h
    have := ih hrest
    simp only [List.flatten_cons, List.length_append]
    omega

/-! ### What a dump writes -/

/-- The texts that are not empty, each with the index of its entry, for the entries
from index `i` on and the local buffer before them. -/
def dumpedTexts (fmt : IFormatter L) : Nat → List (LogEntry L) → Region → List (Nat × List Byte)
  | _, [], _ => []
  | i, entry :: entries, buf =>
    let (buf, len) := fmt.format entry buf (2048 - 1)
    if 0 < len then (i, buf.bytes len) :: dumpedTexts fmt (i + 1) entries (buf.store len 10)
    else dumpedTexts fmt (i + 1) entries buf

/-- The lines of these texts. -/
def dumpedLines (texts : List (Nat × List Byte)) : List (List Byte) := texts.map fun t => lines [t.2]

/-- What the calls of `write(2)` transfer of them. -/
def transferred (o : DumpOutcome) (texts : List (Nat × List Byte)) : List Byte :=
  texts.flatMap fun t => FileSystem.sent (lines [t.2]) (o.written t.1)

/-- Every call transfers all it is given. -/
def AllWritten (o : DumpOutcome) (texts : List (Nat × List Byte)) : Prop :=
  ∀ t ∈ texts, ∃ n, o.written t.1 = some n ∧ (lines [t.2]).length ≤ n

section
variable {o : DumpOutcome} {texts : List (Nat × List Byte)}

theorem sent_of_full {bytes : List Byte} {n : Nat} (h : bytes.length ≤ n) : FileSystem.sent bytes (some n) = bytes :=
  List.take_of_length_le h

/-- What falls short is shorter. -/
theorem length_sent_lt {bytes : List Byte} (hne : bytes ≠ []) {r : Option Nat}
    (h : ¬ ∃ n, r = some n ∧ bytes.length ≤ n) : (FileSystem.sent bytes r).length < bytes.length := by
  cases r with
  | none => exact List.length_pos_iff.mpr hne
  | some n =>
    have hshort : n < bytes.length := by
      by_contra hle
      exact h ⟨n, rfl, Nat.le_of_not_lt hle⟩
    exact Nat.lt_of_le_of_lt (List.length_take_le _ _) hshort

theorem transferred_of_all (h : AllWritten o texts) : transferred o texts = (dumpedLines texts).flatten := by
  rw [transferred, dumpedLines, ← List.flatMap_def]
  apply List.flatMap_congr
  intro t ht
  obtain ⟨n, hn, hfull⟩ := h t ht
  rw [hn, sent_of_full hfull]

theorem transferred_cons (o : DumpOutcome) (t : Nat × List Byte) (texts : List (Nat × List Byte)) :
    transferred o (t :: texts) = FileSystem.sent (lines [t.2]) (o.written t.1) ++ transferred o texts :=
  List.flatMap_cons

theorem length_transferred_le (o : DumpOutcome) (texts : List (Nat × List Byte)) :
    (transferred o texts).length ≤ (dumpedLines texts).flatten.length := by
  rw [transferred, dumpedLines]
  induction texts with
  | nil => exact Nat.le_refl _
  | cons t texts ih =>
    have := FileSystem.length_sent_le (lines [t.2]) (o.written t.1)
    rw [List.flatMap_cons, List.map_cons, List.flatten_cons, List.length_append, List.length_append]
    omega

/-- One call that falls short leaves too few bytes for the lines. -/
theorem not_contains_of_short (h : ¬ AllWritten o texts) :
    ¬ ContainsInOrder (dumpedLines texts) (transferred o texts) := by
  intro hcontains
  have hlength := hcontains.length_le
  rw [AllWritten] at h
  push Not at h
  obtain ⟨t, ht, hshort⟩ := h
  obtain ⟨before, after, rfl⟩ := List.append_of_mem ht
  have hne : lines [t.2] ≠ [] := by simp [lines_singleton, ascii]
  have hlt : (FileSystem.sent (lines [t.2]) (o.written t.1)).length < (lines [t.2]).length := by
    refine length_sent_lt hne ?_
    rintro ⟨n, hn, hfull⟩
    exact absurd hfull (Nat.not_le.mpr (hshort n hn))
  have hbefore := length_transferred_le o before
  have hafter := length_transferred_le o after
  rw [transferred, dumpedLines] at hlength hbefore hafter
  simp only [List.flatMap_append, List.flatMap_cons, List.map_append, List.map_cons, List.flatten_append,
    List.flatten_cons, List.length_append] at hlength
  omega

theorem contains_transferred_iff : ContainsInOrder (dumpedLines texts) (transferred o texts) ↔ AllWritten o texts := by
  refine ⟨fun h => not_not.mp fun hall => not_contains_of_short hall h, ?_⟩
  intro h
  rw [transferred_of_all h]
  exact containsInOrder_flatten _

end

/-! ### What the loop leaves in the file -/

/-- **The turns from index `i` on put what their calls transfer behind the file.** -/
theorem foldl_dumpEntry {sink : RingMemorySink L} (fmt : IFormatter L) (fd : OpenFile) (o : DumpOutcome)
    (entries : List (LogEntry L)) (i : Nat) (c : Disk × Region)
    (hat : ∀ j, j < entries.length → sink.at' (i + j) = entries[j]?) :
    ((List.range' i entries.length).foldl (sink.dumpEntry fmt fd o) c).1.inode = c.1.inode ∧
      ((List.range' i entries.length).foldl (sink.dumpEntry fmt fd o) c).1.contents fd.inode =
        c.1.contents fd.inode ++ transferred o (dumpedTexts fmt i entries c.2) := by
  induction entries generalizing i c with
  | nil => exact ⟨rfl, (List.append_nil _).symm⟩
  | cons entry entries ih =>
    have hfirst : sink.at' i = some entry := hat 0 (Nat.zero_lt_succ _)
    have hrest : ∀ j, j < entries.length → sink.at' (i + 1 + j) = entries[j]? := by
      intro j hj
      have := hat (j + 1) (Nat.succ_lt_succ hj)
      rwa [List.getElem?_cons_succ, ← Nat.add_assoc, Nat.add_right_comm] at this
    obtain ⟨hinode, hcontents⟩ := ih (i + 1) (sink.dumpEntry fmt fd o c i) hrest
    rw [List.length_cons, List.range'_succ, List.foldl_cons, hinode, hcontents, RingMemorySink.dumpEntry_of_at hfirst,
      dumpedTexts, show 2048 - 1 = 2047 from rfl]
    generalize fmt.format entry c.2 2047 = formatted
    simp only
    split
    · have hline : (formatted.1.store formatted.2 10).bytes (formatted.2 + 1) = lines [formatted.1.bytes formatted.2] := by
        rw [lines_singleton]
        exact Region.bytes_blit formatted.1 formatted.2 [10]
      refine ⟨FileSystem.write_inode _ _ _ _, ?_⟩
      rw [FileSystem.write_contents_self, hline, transferred_cons, List.append_assoc]
    · exact ⟨rfl, rfl⟩

/-! ### The result -/

/-- The entries `At(0)`, ..., `At(Size() - 1)`. -/
def RingMemorySink.retained (sink : RingMemorySink L) : List (LogEntry L) :=
  (List.range sink.size).filterMap sink.at'

/-- The formatter of a dump: the sink's, or the default one. -/
def RingMemorySink.dumpFormatter (localtime : LocalTime) (sink : RingMemorySink L) : IFormatter L :=
  sink.formatter.getD (RingMemorySink.defaultFormatter L localtime)

theorem RingMemorySink.dumpFormatter_eq (localtime : LocalTime) (sink : RingMemorySink L) :
    sink.dumpFormatter localtime = sink.formatter.getD (RingMemorySink.defaultFormatter L localtime) := rfl

/-- A call of `DumpToFile`, which assigns to no member: the sink, and what the call
leaves. -/
def RingMemorySink.dumpCall (localtime : LocalTime) (sink : RingMemorySink L) (path : List Byte) (disk : Disk)
    (junk : Nat → Byte) (o : DumpOutcome) : RingMemorySink L × Disk × Bool :=
  (sink, (sink.dumpToFile localtime path disk junk o).1.1, (sink.dumpToFile localtime path disk junk o).2)

/-- The texts of the entries retained that are not empty. -/
def RingMemorySink.retainedTexts (localtime : LocalTime) (sink : RingMemorySink L) (junk : Nat → Byte) :
    List (Nat × List Byte) :=
  dumpedTexts (sink.dumpFormatter localtime) 0 sink.retained (.fresh junk)

/-- The sink is as it was, and with the result `true` the file contains the line of
every text, in order. -/
def Truthful (localtime : LocalTime) (sink : RingMemorySink L) (path : List Byte) (disk : Disk) (junk : Nat → Byte)
    (o : DumpOutcome) : Prop :=
  (sink.dumpCall localtime path disk junk o).1 = sink ∧
    ((sink.dumpCall localtime path disk junk o).2.2 = true →
      ∃ file, (sink.dumpCall localtime path disk junk o).2.1.read path = some file ∧
        ContainsInOrder (dumpedLines (sink.retainedTexts localtime junk)) file)

theorem RingMemorySink.Holds.size_le {sink : RingMemorySink L} {entries : List (LogEntry L)} (h : sink.Holds entries) :
    sink.size ≤ entries.length := by
  rw [RingMemorySink.size, h.count]
  exact Nat.min_le_left _ _

theorem RingMemorySink.Holds.retained_eq {sink : RingMemorySink L} {entries : List (LogEntry L)} (h : sink.Holds entries) :
    sink.retained = entries.drop (entries.length - sink.size) := by
  have hsize := h.size_le
  have hread : ∀ m, m ≤ sink.size →
      (List.range m).filterMap sink.at' = (entries.drop (entries.length - sink.size)).take m := by
    intro m hm
    induction m with
    | zero => rfl
    | succ m ih =>
      have hlt : m < (entries.drop (entries.length - sink.size)).length := by
        rw [List.length_drop]
        omega
      have hat : sink.at' m = some (entries.drop (entries.length - sink.size))[m] := by
        rw [h.at_eq hm, ← List.getElem?_drop, List.getElem?_eq_getElem hlt]
      rw [List.range_succ, List.filterMap_append, ih (Nat.le_of_succ_le hm), List.take_succ_eq_append_getElem hlt]
      simp [hat]
  rw [RingMemorySink.retained, hread _ (Nat.le_refl _), List.take_of_length_le]
  rw [List.length_drop]
  omega

/-- Behind an opening that succeeds the file holds what the calls transferred. -/
theorem RingMemorySink.Holds.read_dumpCall {sink : RingMemorySink L} {entries : List (LogEntry L)} (h : sink.Holds entries)
    (localtime : LocalTime) (path : List Byte) (disk : Disk) (junk : Nat → Byte) {o : DumpOutcome}
    (hopened : o.opened = true) :
    (sink.dumpCall localtime path disk junk o).2.1.read path =
      some (transferred o (sink.retainedTexts localtime junk)) := by
  have hretained := h.retained_eq
  have hsize := h.size_le
  have hlength : sink.retained.length = sink.count := by
    rw [hretained, List.length_drop]
    exact Nat.sub_sub_self hsize
  have hat : ∀ j, j < sink.retained.length → sink.at' (0 + j) = sink.retained[j]? := by
    intro j hj
    rw [Nat.zero_add, h.at_eq (hj.trans_eq hlength), hretained, List.getElem?_drop]
  have hinode := disk.openTruncate_inode path
  have hempty := (disk.read_openTruncate path path).trans (if_pos rfl)
  rw [FileSystem.read_of_inode hinode] at hempty
  rw [RingMemorySink.dumpCall, RingMemorySink.dumpToFile, if_pos hopened, RingMemorySink.retainedTexts]
  generalize disk.openTruncate path = opened at hinode hempty ⊢
  by_cases hnone : sink.count = 0
  · have hnil : sink.retained = [] := List.length_eq_zero_iff.mp (hlength.trans hnone)
    simp only [if_pos hnone]
    rw [FileSystem.read_of_inode hinode, hempty, hnil]
    rfl
  · obtain ⟨hkept, hcontents⟩ := foldl_dumpEntry (sink.dumpFormatter localtime) opened.2 o sink.retained 0
      (opened.1, .fresh junk) hat
    rw [hlength, ← List.range_eq_range'] at hkept hcontents
    simp only [if_neg hnone, ← RingMemorySink.dumpFormatter_eq]
    rw [FileSystem.read_of_inode ((congrFun hkept path).trans hinode)]
    exact congrArg some (hcontents.trans (by rw [Option.some.inj hempty, List.nil_append]))

/-- **`DumpToFile` reports truthfully exactly when it cannot open the file or every
`write(2)` transfers all its line.** -/
theorem truthful_iff (localtime : LocalTime) (junk stack : Nat → Byte) (formatter : Option (IFormatter L))
    (calls : List (MemoryCall L)) (path : List Byte) (disk : Disk) (o : DumpOutcome) {capacity : Nat}
    (hpos : 1 ≤ capacity) :
    let sink := calls.foldl MemoryCall.apply { RingMemorySink.create L junk capacity with formatter := formatter }
    Truthful localtime sink path disk stack o ↔
      o.opened = false ∨ AllWritten o (sink.retainedTexts localtime stack) := by
  intro sink
  obtain ⟨hholds, -, -⟩ := (RingMemorySink.holds_create junk capacity formatter).run hpos calls
  rcases Bool.eq_false_or_eq_true o.opened with hopened | hclosed
  · have hread := hholds.read_dumpCall localtime path disk stack hopened
    have hresult : (sink.dumpCall localtime path disk stack o).2.2 = true := by
      rw [RingMemorySink.dumpCall, RingMemorySink.dumpToFile, if_pos hopened]
      simp only
      split <;> rfl
    rw [← contains_transferred_iff]
    refine ⟨?_, ?_⟩
    · rintro ⟨-, htrue⟩
      obtain ⟨file, hfile, hcontains⟩ := htrue hresult
      obtain rfl := Option.some.inj (hread.symm.trans hfile)
      exact Or.inr hcontains
    · rintro (hclosed | hcontains)
      · rw [hopened] at hclosed
        cases hclosed
      · exact ⟨rfl, fun _ => ⟨_, hread, hcontains⟩⟩
  · have hresult : (sink.dumpCall localtime path disk stack o).2.2 = false := by
      rw [RingMemorySink.dumpCall, RingMemorySink.dumpToFile, if_neg (by simp [hclosed])]
    refine iff_of_true ⟨rfl, ?_⟩ (Or.inl hclosed)
    intro htrue
    rw [hresult] at htrue
    cases htrue

/-- The sink with room for two entries, holding one. -/
def oneEntry : RingMemorySink Limits.desktop := [.write (numbered 0)].foldl MemoryCall.apply twoEntries

theorem truthful_iff_oneEntry :
    Truthful (fun _ => ⟨70, 0, 1, 0, 0, 0⟩) oneEntry (ascii "dump") .empty (fun _ => 0) ⟨true, fun _ => some 2048⟩ ↔
      true = false ∨ AllWritten ⟨true, fun _ => some 2048⟩
        (oneEntry.retainedTexts (fun _ => ⟨70, 0, 1, 0, 0, 0⟩) fun _ => 0) :=
  truthful_iff (fun _ => ⟨70, 0, 1, 0, 0, 0⟩) (fun _ => 0) (fun _ => 0) twoEntries.formatter [.write (numbered 0)]
    (ascii "dump") .empty ⟨true, fun _ => some 2048⟩ (show 1 ≤ 2 by decide)

/-- **On a full disk the dump of one entry succeeds and leaves an empty file.** -/
theorem not_truthful_full_disk :
    ¬ Truthful (fun _ => ⟨70, 0, 1, 0, 0, 0⟩) oneEntry (ascii "dump") .empty (fun _ => 0) ⟨true, fun _ => none⟩ := by
  have hread : (oneEntry.dumpCall (fun _ => ⟨70, 0, 1, 0, 0, 0⟩) (ascii "dump") .empty (fun _ => 0)
      ⟨true, fun _ => none⟩).2.1.read (ascii "dump") = some [] := by decide +kernel
  have htexts : dumpedLines (oneEntry.retainedTexts (fun _ => ⟨70, 0, 1, 0, 0, 0⟩) fun _ => 0) = [ascii "TRACE\n"] := by
    decide +kernel
  rintro ⟨-, htrue⟩
  obtain ⟨file, hfile, hcontains⟩ := htrue (by decide +kernel)
  obtain rfl := Option.some.inj (hread.symm.trans hfile)
  rw [htexts] at hcontains
  exact absurd hcontains.length_le (by decide)

end BrLogger
