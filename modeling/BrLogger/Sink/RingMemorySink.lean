import BrLogger.Formatter.PatternMeaning
import BrLogger.Lib.LatestRing
import BrLogger.Sink.Interface

/-!
# `RingMemorySink`

`ring_memory_sink.cpp`.  The entries that pass the level go round a vector of
`capacity` entries.  `head_` is the number of them modulo the capacity and
`count_` their number while there is room, so `At` starts from the oldest entry
kept (`Holds.at_eq`), before the first wrap and after any of them.

`DumpToFile` formats the entries one by one into a local buffer, giving the
formatter one byte less than there are: the newline goes behind the text, and
still inside (`keepsLatest`).
-/

namespace BrLogger

variable {L : Limits}

structure RingMemorySink (L : Limits) extends ILogSink L where
  buffer : List (LogEntry L)
  capacity : Nat
  head : Nat
  count : Nat

/-- How the calls of a `DumpToFile` come out: `open(2)` and the `write(2)` of each index. -/
structure DumpOutcome where
  opened : Bool
  written : Nat → Option Nat

namespace RingMemorySink

/-- The constructor. -/
def create (L : Limits) (junk : Nat → Byte) (capacity : Nat) : RingMemorySink L :=
  { ILogSink.create L junk with
    buffer := List.replicate capacity (.zero L)
    capacity := capacity
    head := 0
    count := 0 }

def write (sink : RingMemorySink L) (entry : LogEntry L) : RingMemorySink L :=
  if ¬ sink.shouldLog entry.level then sink
  else
    { sink with
      buffer := sink.buffer.set sink.head entry
      head := (sink.head + 1) % sink.capacity
      count := if sink.count < sink.capacity then sink.count + 1 else sink.count }

def size (sink : RingMemorySink L) : Nat := sink.count

/-- `At(index)`. -/
def at' (sink : RingMemorySink L) (index : Nat) : Option (LogEntry L) :=
  let start := if sink.count < sink.capacity then 0 else sink.head
  sink.buffer[(start + index) % sink.capacity]?

/-- `default_fmt`. -/
def defaultFormatter (L : Limits) (localtime : LocalTime) : IFormatter L :=
  PatternFormatter.toIFormatter L localtime ⟨ascii "[%D %T%e] [%L] [tid:%t] %m", false⟩

/-- One turn of the loop of `DumpToFile`, on the files and the local `buf[2048]`. -/
def dumpEntry (sink : RingMemorySink L) (fmt : IFormatter L) (fd : OpenFile) (o : DumpOutcome) (c : Disk × Region)
    (i : Nat) : Disk × Region :=
  match sink.at' i with
  | none => c
  | some entry =>
    let (buf, len) := fmt.format entry c.2 (2048 - 1)
    if 0 < len then
      let buf := buf.store len 10
      ((c.1.write fd (buf.bytes (len + 1)) (o.written i)).1, buf)
    else (c.1, buf)

/-- `DumpToFile(path)`: the files, the local buffer, which held `junk`, and the result. -/
def dumpToFile (localtime : LocalTime) (sink : RingMemorySink L) (path : List Byte) (disk : Disk) (junk : Nat → Byte)
    (o : DumpOutcome) : (Disk × Region) × Bool :=
  if o.opened then
    let (disk, fd) := disk.openTruncate path
    if sink.count = 0 then ((disk, .fresh junk), true)
    else
      let fmt := sink.formatter.getD (defaultFormatter L localtime)
      ((List.range sink.count).foldl (sink.dumpEntry fmt fd o) (disk, .fresh junk), true)
  else ((disk, .fresh junk), false)

end RingMemorySink

/-! ### What the sink holds -/

inductive MemoryCall (L : Limits)
  | write (entry : LogEntry L)
  | setLevel (level : LogLevel)

namespace MemoryCall

def apply (sink : RingMemorySink L) : MemoryCall L → RingMemorySink L
  | write entry => sink.write entry
  | setLevel level => { sink with toILogSink := sink.setLevel level }

/-- The entries that pass the level in force at their `Write`, which is `level` at first. -/
def passed : List (MemoryCall L) → LogLevel → List (LogEntry L)
  | [], _ => []
  | write entry :: calls, level =>
    if level.toNat ≤ entry.level.toNat then entry :: passed calls level else passed calls level
  | setLevel level :: calls, _ => passed calls level

end MemoryCall

namespace RingMemorySink

/-- The sink holds the latest of these entries. -/
structure Holds (sink : RingMemorySink L) (entries : List (LogEntry L)) : Prop where
  cells : LatestRing.Holds sink.capacity sink.buffer entries
  head : sink.head = entries.length % sink.capacity
  count : sink.count = min entries.length sink.capacity

variable {sink : RingMemorySink L} {entries : List (LogEntry L)}

theorem holds_create (junk : Nat → Byte) (capacity : Nat) (formatter : Option (IFormatter L)) :
    Holds { create L junk capacity with formatter := formatter } [] :=
  ⟨LatestRing.holds_nil List.length_replicate, (Nat.zero_mod _).symm, (Nat.zero_min _).symm⟩

/-- **An entry that passes the level is the newest.** -/
theorem Holds.write (h : Holds sink entries) (hpos : 0 < sink.capacity) {entry : LogEntry L}
    (hlevel : sink.shouldLog entry.level = true) : Holds (sink.write entry) (entries ++ [entry]) := by
  rw [RingMemorySink.write, if_neg (fun hn => hn hlevel)]
  constructor
  case cells =>
    rw [h.head]
    exact h.cells.concat hpos entry
  case head =>
    show (sink.head + 1) % sink.capacity = _
    rw [h.head, Nat.mod_add_mod, List.length_append, List.length_singleton]
  case count =>
    show (if sink.count < sink.capacity then sink.count + 1 else sink.count) = min _ sink.capacity
    rw [h.count, List.length_append, List.length_singleton]
    split <;> omega

/-- **`At` counts from the oldest entry kept.** -/
theorem Holds.at_eq (h : Holds sink entries) {i : Nat} (hi : i < sink.size) :
    sink.at' i = entries[entries.length - sink.size + i]? := by
  rw [size, h.count] at hi ⊢
  have hstart : (if sink.count < sink.capacity then 0 else sink.head) =
      if entries.length < sink.capacity then 0 else entries.length % sink.capacity := by
    rw [h.count, h.head]
    split <;> split <;> omega
  rw [at', hstart]
  exact h.cells.read hi

/-- **After any calls the sink holds the latest of the entries that passed.** -/
theorem Holds.run (h : Holds sink entries) (hpos : 0 < sink.capacity) (calls : List (MemoryCall L)) :
    Holds (calls.foldl MemoryCall.apply sink) (entries ++ MemoryCall.passed calls sink.minLevel) ∧
      (calls.foldl MemoryCall.apply sink).capacity = sink.capacity ∧
      (calls.foldl MemoryCall.apply sink).formatter = sink.formatter := by
  induction calls generalizing sink entries with
  | nil => exact ⟨(List.append_nil entries).symm ▸ h, rfl, rfl⟩
  | cons call calls ih =>
    cases call with
    | setLevel level =>
      have hset : Holds { sink with toILogSink := sink.setLevel level } entries := ⟨h.cells, h.head, h.count⟩
      exact ih hset hpos
    | write entry =>
      simp only [List.foldl_cons, MemoryCall.apply, MemoryCall.passed]
      by_cases hlevel : sink.minLevel.toNat ≤ entry.level.toNat
      · have hpass : sink.shouldLog entry.level = true := decide_eq_true hlevel
        have hkept : (sink.write entry).capacity = sink.capacity ∧ (sink.write entry).formatter = sink.formatter ∧
            (sink.write entry).minLevel = sink.minLevel := by
          rw [RingMemorySink.write, if_neg (fun hn => hn hpass)]
          exact ⟨rfl, rfl, rfl⟩
        obtain ⟨hholds, hcapacity, hformatter⟩ := ih (h.write hpos hpass) (hkept.1 ▸ hpos)
        rw [if_pos hlevel, ← List.singleton_append, ← List.append_assoc, ← hkept.2.2]
        exact ⟨hholds, hcapacity.trans hkept.1, hformatter.trans hkept.2.1⟩
      · have hsame : sink.write entry = sink := if_pos (fun hp => hlevel (of_decide_eq_true hp))
        rw [if_neg hlevel, hsame]
        exact ih h hpos

end RingMemorySink

/-! ### What a dump leaves -/

namespace RingMemorySink

/-- The dump has so far written these lines to its file, and stayed inside its buffer. -/
structure Dumped (disk : Disk) (path : List Byte) (fd : OpenFile) (c : Disk × Region) (rs : List (List Byte)) : Prop where
  inode : c.1.inode path = some fd.inode
  read : c.1.read path = some (lines rs)
  others : ∀ q, q ≠ path → c.1.read q = disk.read q
  extent : c.2.extent ≤ 2048

theorem dumped_open (disk : Disk) (path : List Byte) (junk : Nat → Byte) :
    Dumped disk path (disk.openTruncate path).2 ((disk.openTruncate path).1, .fresh junk) [] where
  inode := disk.openTruncate_inode path
  read := (disk.read_openTruncate path path).trans (if_pos rfl)
  others q hq := (disk.read_openTruncate path q).trans (if_neg hq)
  extent := Nat.zero_le 2048

variable {sink : RingMemorySink L} {fmt : IFormatter L} {text : LogEntry L → Nat → List Byte} {disk : Disk}
  {path : List Byte} {fd : OpenFile} {o : DumpOutcome} {c : Disk × Region} {rs : List (List Byte)}

theorem Dumped.append (h : Dumped disk path fd c rs) (r : List Byte) {buf : Region} (hbuf : buf.extent ≤ 2048) :
    Dumped disk path fd (c.1.append fd.inode (lines [r]), buf) (rs ++ [r]) where
  inode := h.inode
  read := by
    have hcontents := h.read
    rw [FileSystem.read_of_inode h.inode] at hcontents
    show (c.1.append fd.inode (lines [r])).read path = _
    rw [FileSystem.read_append_self h.inode, Option.some.inj hcontents, lines_append]
  others q hq := (FileSystem.read_append_of_ne (FileSystem.inode_ne_of_ne h.inode hq)).trans (h.others q hq)
  extent := hbuf

theorem dumpEntry_of_at {i : Nat} {entry : LogEntry L} (hat : sink.at' i = some entry) :
    sink.dumpEntry fmt fd o c i =
      let formatted := fmt.format entry c.2 2047
      if 0 < formatted.2 then
        ((c.1.write fd ((formatted.1.store formatted.2 10).bytes (formatted.2 + 1)) (o.written i)).1,
          formatted.1.store formatted.2 10)
      else (c.1, formatted.1) := by
  rw [dumpEntry, hat]

/-- **One turn adds the line of its entry**, if the text is not empty. -/
theorem Dumped.step (h : Dumped disk path fd c rs) (htext : fmt.Renders text)
    (hwritten : ∀ i, ∃ n, o.written i = some n ∧ 2048 ≤ n) {i : Nat} {entry : LogEntry L}
    (hat : sink.at' i = some entry) :
    Dumped disk path fd (sink.dumpEntry fmt fd o c i) (rs ++ [text entry 2047].filter (· ≠ [])) := by
  have hbytes := htext.bytes entry c.2 2047 (by decide)
  have hextent := htext.extent entry c.2 2047 (by decide)
  have hle := fmt.length_le entry c.2 2047 (by decide)
  have hlength := congrArg List.length hbytes
  rw [Region.length_bytes] at hlength
  rw [dumpEntry_of_at hat]
  generalize fmt.format entry c.2 2047 = formatted at hbytes hextent hle hlength ⊢
  have hin : formatted.1.extent ≤ 2048 := hextent.trans (Nat.max_le.mpr ⟨h.extent, by decide⟩)
  by_cases hpos : 0 < formatted.2
  · have hne : text entry 2047 ≠ [] := List.length_pos_iff.mp (hlength ▸ hpos)
    obtain ⟨n, hn, hfull⟩ := hwritten i
    have hline : (formatted.1.store formatted.2 10).bytes (formatted.2 + 1) = lines [text entry 2047] := by
      rw [lines_singleton, ← hbytes]
      exact Region.bytes_blit formatted.1 formatted.2 [10]
    have hsent : (lines [text entry 2047]).length ≤ n := by
      rw [length_lines_singleton, ← hlength]
      omega
    simp only [if_pos hpos]
    have hkept : [text entry 2047].filter (· ≠ []) = [text entry 2047] := by simp [hne]
    rw [hline, hn, FileSystem.write_full _ _ _ hsent, hkept]
    -- the newline stands at most at the last of the 2048 bytes
    exact h.append _ (Region.extent_store_le hin (by omega))
  · have hnil : text entry 2047 = [] := List.length_eq_zero_iff.mp (hlength.symm.trans (Nat.eq_zero_of_not_pos hpos))
    simp only [if_neg hpos]
    have hdropped : ([[]] : List (List Byte)).filter (· ≠ []) = [] := by simp
    rw [hnil, hdropped, List.append_nil]
    exact ⟨h.inode, h.read, h.others, hin⟩

/-- **The loop adds the lines of the entries it has come past.** -/
theorem Dumped.loop (h : Dumped disk path fd c []) (htext : fmt.Renders text)
    (hwritten : ∀ i, ∃ n, o.written i = some n ∧ 2048 ≤ n) {kept : List (LogEntry L)}
    (hkept : ∀ i, i < kept.length → sink.at' i = kept[i]?) {m : Nat} (hm : m ≤ kept.length) :
    Dumped disk path fd ((List.range m).foldl (sink.dumpEntry fmt fd o) c)
      (((kept.take m).map (text · 2047)).filter (· ≠ [])) := by
  induction m with
  | zero => simpa using h
  | succ m ih =>
    have hat : sink.at' m = some kept[m] := (hkept m hm).trans (List.getElem?_eq_getElem hm)
    have hstep := (ih (Nat.le_of_succ_le hm)).step htext hwritten hat
    rwa [List.range_succ, List.foldl_append, List.take_succ_eq_append_getElem hm, List.map_append, List.filter_append]

theorem dumped_dumpToFile (localtime : LocalTime) (path : List Byte) (disk : Disk) (stack : Nat → Byte)
    (htext : (sink.formatter.getD (defaultFormatter L localtime)).Renders text) (hopened : o.opened = true)
    (hwritten : ∀ i, ∃ n, o.written i = some n ∧ 2048 ≤ n) {kept : List (LogEntry L)} (hlength : kept.length = sink.size)
    (hkept : ∀ i, i < kept.length → sink.at' i = kept[i]?) :
    Dumped disk path (disk.openTruncate path).2 (sink.dumpToFile localtime path disk stack o).1
        ((kept.map (text · 2047)).filter (· ≠ [])) ∧
      (sink.dumpToFile localtime path disk stack o).2 = true := by
  have hopen := dumped_open disk path stack
  rw [dumpToFile, if_pos hopened]
  generalize disk.openTruncate path = opened at hopen ⊢
  by_cases hnone : sink.count = 0
  · simp only [if_pos hnone]
    rw [List.length_eq_zero_iff.mp (hlength.trans hnone)]
    exact ⟨hopen, trivial⟩
  · have hloop := hopen.loop htext hwritten hkept (Nat.le_refl _)
    rw [List.take_length, hlength] at hloop
    simp only [if_neg hnone]
    exact ⟨hloop, trivial⟩

end RingMemorySink

section
variable (localtime : LocalTime) (junk stack : Nat → Byte) (formatter : Option (IFormatter L)) (calls : List (MemoryCall L))
  {text : LogEntry L → Nat → List Byte} (path : List Byte) (disk : Disk) {o : DumpOutcome}

/-- **A `RingMemorySink` keeps the latest entries in order.**  After any calls of
`Write` and `SetLevel` it holds the last `capacity` of the entries that passed, or
all of them; `At` counts them from the oldest; `DumpToFile` leaves their texts, those
that are not empty, a newline behind each, and has stored nothing behind its buffer. -/
theorem keepsLatest (capacity : Nat) (hpos : 0 < capacity)
    (htext : (formatter.getD (RingMemorySink.defaultFormatter L localtime)).Renders text) (hopened : o.opened = true)
    (hwritten : ∀ i, ∃ n, o.written i = some n ∧ 2048 ≤ n) :
    let sink := calls.foldl MemoryCall.apply { RingMemorySink.create L junk capacity with formatter := formatter }
    let entries := MemoryCall.passed calls .trace
    let kept := entries.drop (entries.length - sink.size)
    let dumped := sink.dumpToFile localtime path disk stack o
    sink.size = min entries.length capacity ∧
      (∀ i, i < sink.size → sink.at' i = entries[entries.length - sink.size + i]?) ∧
      dumped.2 = true ∧ dumped.1.1.read path = some (lines ((kept.map (text · 2047)).filter (· ≠ []))) ∧
      (∀ q, q ≠ path → dumped.1.1.read q = disk.read q) ∧ dumped.1.2.extent ≤ 2048 := by
  intro sink entries kept dumped
  obtain ⟨hholds, hcapacity, hformatter⟩ := (RingMemorySink.holds_create junk capacity formatter).run hpos calls
  have hsize : sink.size = min entries.length capacity := hholds.count.trans (by rw [hcapacity]; rfl)
  have hat : ∀ i, i < sink.size → sink.at' i = entries[entries.length - sink.size + i]? := fun i hi => hholds.at_eq hi
  have hlength : kept.length = sink.size := by
    rw [List.length_drop]
    omega
  have hkept : ∀ i, i < kept.length → sink.at' i = kept[i]? := by
    intro i hi
    rw [hat i (hlength ▸ hi), List.getElem?_drop]
  have hrenders : (sink.formatter.getD (RingMemorySink.defaultFormatter L localtime)).Renders text := by
    rw [show sink.formatter = formatter from hformatter]
    exact htext
  have hdumped :=
    RingMemorySink.dumped_dumpToFile localtime path disk stack hrenders hopened hwritten hlength hkept
  exact ⟨hsize, hat, hdumped.2, hdumped.1.read, hdumped.1.others, hdumped.1.extent⟩

end

def numbered (n : UInt64) : LogEntry Limits.desktop := { LogEntry.zero _ with sequenceId := n }

/-- A sink with room for two entries. -/
def twoEntries : RingMemorySink Limits.desktop :=
  { RingMemorySink.create _ (fun _ => 0) 2 with
    formatter := some (PatternFormatter.toIFormatter _ (fun _ => ⟨70, 0, 1, 0, 0, 0⟩) ⟨ascii "%L", false⟩) }

/-- Of three entries the first is gone. -/
theorem keepsLatest_twoEntries :
    let sink := [.write (numbered 0), .write (numbered 1), .write (numbered 2)].foldl MemoryCall.apply twoEntries
    sink.size = 2 ∧ sink.at' 0 = some (numbered 1) ∧
      (sink.dumpToFile (fun _ => ⟨70, 0, 1, 0, 0, 0⟩) (ascii "dump") .empty (fun _ => 0) ⟨true, fun _ => some 2048⟩).1.1.read
        (ascii "dump") = some (ascii "TRACE\nTRACE\n") := by
  obtain ⟨hsize, hat, -, hread, -⟩ :=
    keepsLatest (fun _ => ⟨70, 0, 1, 0, 0, 0⟩) (fun _ => 0) (fun _ => 0)
      (some (PatternFormatter.toIFormatter _ (fun _ => ⟨70, 0, 1, 0, 0, 0⟩) ⟨ascii "%L", false⟩))
      [.write (numbered 0), .write (numbered 1), .write (numbered 2)] (ascii "dump") .empty
      (o := ⟨true, fun _ => some 2048⟩) 2 (by decide) (PatternFormatter.renders _ _) rfl
      (fun _ => ⟨2048, rfl, Nat.le_refl _⟩)
  exact ⟨hsize, hat 0 (by decide +kernel), hread.trans (by decide +kernel)⟩

end BrLogger
