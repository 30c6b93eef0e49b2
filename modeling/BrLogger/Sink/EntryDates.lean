import BrLogger.Logger.LogImpl
import BrLogger.Sink.Rollover

/-!
# Entries and the dates of their files

An entry bears the time of its `LogImpl` call.  It is pushed some time later, waits in
the ring until the backend hands it to `Write`, and `Write` names the file by its own
readings of the clock, between which other calls go on.  So the file's date is one the
clock showed during the `Write`, no earlier than the entry's; the two are the same unless
the day changed while the entry was on its way (`file_of_entry`).
-/

namespace BrLogger

variable {L : Limits} {θ α : Type}

/-- A daily sink, the library of the threads that log to it, and the build. -/
structure QueueConfig (θ α : Type) where
  daily : DailyConfig
  lib : Formatting α
  build : Build
  os : Process θ

/-- The sink, the entries stamped and not yet pushed, those waiting in the ring, the one
`Write` has been called with and the second it read, and a second the clock has shown. -/
structure QueueState (L : Limits) where
  daily : DailyState L
  stamped : List (LogEntry L)
  queue : List (LogEntry L)
  writing : Option (LogEntry L × Int)
  clock : Int

/-- A `LogImpl` call up to its stamp, the push of a stamped entry, the hand-over of the oldest
entry up to the first clock reading of `Write`, the rest of that `Write`, or something else
done to the sink. -/
inductive QueueAction (L : Limits) (θ α : Type)
  | logImpl (context : LogContext L θ) (thread : θ) (sequence : UInt64) (call : LogCall α)
  | push (i : Nat)
  | read (now : Int)
  | write (o : DailyOutcome)
  | construct (junk : Nat → Byte) (o : OpenTodayOutcome)
  | destroy
  | setFormatter (formatter : IFormatter L)
  | setLevel (level : LogLevel)

/-- The second of a wall clock reading. -/
def wallSeconds (wallNs : UInt64) : Int := wallNs.toNat / 1000000000

namespace QueueState

/-- An action of the sink after which the clock has shown `clock`. -/
def sinkStep (cfg : QueueConfig θ α) (s : QueueState L) (a : DailyAction L) (clock : Int) : Option (QueueState L) :=
  (s.daily.step cfg.daily a).map fun daily => { s with daily := daily, writing := none, clock := clock }

/-- No reading of the clock precedes an earlier one.  A `Write` that reads it once has
`reopen.now` for a later second at which nothing is read. -/
def step (cfg : QueueConfig θ α) (s : QueueState L) : QueueAction L θ α → Option (QueueState L)
  | .logImpl context thread sequence call =>
    if s.clock ≤ wallSeconds call.wallClockNowNs then
      some { s with
        stamped := s.stamped ++ [call.entry L cfg.lib cfg.build context cfg.os thread sequence]
        clock := wallSeconds call.wallClockNowNs }
    else none
  | .push i =>
    match s.stamped[i]? with
    | some entry => some { s with stamped := s.stamped.eraseIdx i, queue := s.queue ++ [entry] }
    | none => none
  | .read now =>
    match s.writing, s.queue with
    | none, entry :: queue =>
      if s.clock ≤ now then some { s with queue := queue, writing := some (entry, now), clock := now } else none
    | _, _ => none
  | .write o =>
    match s.writing with
    | some (entry, now) =>
      if o.now = now ∧ s.clock ≤ o.reopen.now then s.sinkStep cfg (.write entry o) o.reopen.now else none
    | none => none
  | .construct junk o =>
    if s.writing.isNone ∧ s.clock ≤ o.now then s.sinkStep cfg (.construct junk o) o.now else none
  | .destroy => if s.writing.isNone then s.sinkStep cfg .destroy s.clock else none
  | .setFormatter formatter => if s.writing.isNone then s.sinkStep cfg (.setFormatter formatter) s.clock else none
  | .setLevel level => if s.writing.isNone then s.sinkStep cfg (.setLevel level) s.clock else none

/-- The calls of the sink that open or append succeed. -/
def CallsSucceed (cfg : QueueConfig θ α) (s : QueueState L) : QueueAction L θ α → Prop
  | .write o => ∀ entry now, s.writing = some (entry, now) → s.daily.CallsSucceed cfg.daily (.write entry o)
  | .construct junk o => s.daily.CallsSucceed cfg.daily (.construct junk o)
  | _ => True

end QueueState

/-- Runs with no sink and no entry on its way at the beginning. -/
def queueMachine (L : Limits) (cfg : QueueConfig θ α) : Machine (QueueState L) (QueueAction L θ α) where
  init s := s.daily.sink = none ∧ s.stamped = [] ∧ s.queue = [] ∧ s.writing = none
  step s a := s.step cfg a

/-! ### The stamp of an entry -/

theorem LogContext.fillLoop_wallClockNs (entry : LogEntry L) (count : Nat) (tags : List (LogTag L)) :
    (fillLoop entry count tags).1.wallClockNs = entry.wallClockNs := by
  induction tags generalizing entry count with
  | nil => rfl
  | cons tag tags ih =>
    rw [fillLoop]
    split
    · rfl
    · rw [ih]

/-- An entry bears the time of its `LogImpl` call. -/
theorem LogCall.entry_wallClockNs (lib : Formatting α) (build : Build) (c : LogContext L θ) (os : Process θ)
    (thread : θ) (sequence : UInt64) (call : LogCall α) :
    (call.entry L lib build c os thread sequence).wallClockNs = call.wallClockNowNs :=
  (LogContext.fillLoop_wallClockNs _ _ _).trans (LogContext.fillLoop_wallClockNs _ _ _)

namespace QueueState

variable {cfg : QueueConfig θ α} {s s' : QueueState L}

/-- A step of the sink. -/
def SinkActs (cfg : QueueConfig θ α) (s s' : QueueState L) (ok : Prop) : Prop :=
  ∃ a daily clock, s.clock ≤ clock ∧ s.daily.step cfg.daily a = some daily ∧
    (ok → s.daily.CallsSucceed cfg.daily a) ∧ s' = { s with daily := daily, writing := none, clock := clock }

theorem sinkActs_of_sinkStep {a : DailyAction L} {clock : Int} {ok : Prop} (hclock : s.clock ≤ clock)
    (hok : ok → s.daily.CallsSucceed cfg.daily a) (h : s.sinkStep cfg a clock = some s') : SinkActs cfg s s' ok := by
  obtain ⟨daily, hdaily, rfl⟩ := Option.map_eq_some_iff.mp h
  exact ⟨a, daily, clock, hclock, hdaily, hok, rfl⟩

/-- **What an action does**: it stamps an entry, it pushes one, it hands one over, or it is an
action of the sink. -/
theorem step_cases {a : QueueAction L θ α} (h : s.step cfg a = some s') :
    (∃ entry, s.clock ≤ wallSeconds entry.wallClockNs ∧
        s' = { s with stamped := s.stamped ++ [entry], clock := wallSeconds entry.wallClockNs }) ∨
      (∃ i entry, s.stamped[i]? = some entry ∧
        s' = { s with stamped := s.stamped.eraseIdx i, queue := s.queue ++ [entry] }) ∨
      (∃ entry queue now, s.queue = entry :: queue ∧ s.clock ≤ now ∧
        s' = { s with queue := queue, writing := some (entry, now), clock := now }) ∨
      SinkActs cfg s s' (s.CallsSucceed cfg a) := by
  have hidle : ∀ a' : DailyAction L, (s.CallsSucceed cfg a → s.daily.CallsSucceed cfg.daily a') →
      (if s.writing.isNone then s.sinkStep cfg a' s.clock else none) = some s' →
      SinkActs cfg s s' (s.CallsSucceed cfg a) := by
    intro a' hok h
    split at h
    · exact sinkActs_of_sinkStep (Int.le_refl _) hok h
    · cases h
  cases a with
  | logImpl context thread sequence call =>
    rw [step] at h
    split at h
    · rename_i hclock
      have hstamp := LogCall.entry_wallClockNs cfg.lib cfg.build context cfg.os thread sequence call
      cases h
      exact Or.inl ⟨_, by rw [hstamp]; exact hclock, by rw [hstamp]⟩
    · cases h
  | push i =>
    rw [step] at h
    split at h
    · cases h
      exact Or.inr (Or.inl ⟨i, _, ‹_›, rfl⟩)
    · cases h
  | read now =>
    rw [step] at h
    split at h
    · split at h
      · cases h
        exact Or.inr (Or.inr (Or.inl ⟨_, _, now, ‹_›, ‹_›, rfl⟩))
      · cases h
    · cases h
  | write o =>
    rw [step] at h
    split at h
    · rename_i entry now hwriting
      split at h
      · exact Or.inr (Or.inr (Or.inr (sinkActs_of_sinkStep (And.right ‹_›) (fun hok => hok entry now hwriting) h)))
      · cases h
    · cases h
  | construct junk o =>
    rw [step] at h
    split at h
    · exact Or.inr (Or.inr (Or.inr (sinkActs_of_sinkStep (And.right ‹_›) id h)))
    · cases h
  | destroy => exact Or.inr (Or.inr (Or.inr (hidle .destroy id h)))
  | setFormatter formatter => exact Or.inr (Or.inr (Or.inr (hidle (.setFormatter formatter) id h)))
  | setLevel level => exact Or.inr (Or.inr (Or.inr (hidle (.setLevel level) id h)))

/-- The sink's readings are kept. -/
theorem readings_subset {a : QueueAction L θ α} (h : s.step cfg a = some s') :
    s.daily.readings ⊆ s'.daily.readings := by
  rcases step_cases h with ⟨_, _, rfl⟩ | ⟨_, _, _, rfl⟩ | ⟨_, _, _, _, _, rfl⟩ | ⟨_, _, _, _, hdaily, _, rfl⟩
  · exact List.Subset.refl _
  · exact List.Subset.refl _
  · exact List.Subset.refl _
  · exact DailyState.readings_subset hdaily

end QueueState

/-- No entry on its way is ahead of the clock, nor one that is being written ahead of the time
read for it, and the sink is as after a run of its own. -/
structure QueueInv (cfg : QueueConfig θ α) (s : QueueState L) : Prop where
  stamped : ∀ entry ∈ s.stamped, wallSeconds entry.wallClockNs ≤ s.clock
  queue : ∀ entry ∈ s.queue, wallSeconds entry.wallClockNs ≤ s.clock
  writing : ∀ entry now, s.writing = some (entry, now) → wallSeconds entry.wallClockNs ≤ now ∧ now ≤ s.clock
  daily : RolloverInv cfg.daily s.daily

namespace QueueInv

variable {cfg : QueueConfig θ α} {s s' : QueueState L}

/-- **Every action keeps the invariant.** -/
theorem step {a : QueueAction L θ α} (hcal : s'.daily.ConsistentDates cfg.daily) (h : QueueInv cfg s)
    (hok : s.CallsSucceed cfg a) (hstep : s.step cfg a = some s') : QueueInv cfg s' := by
  -- what was not ahead of the clock is not ahead of a later one
  have hlater : ∀ {clock : Int} {entries : List (LogEntry L)}, s.clock ≤ clock →
      (∀ entry ∈ entries, wallSeconds entry.wallClockNs ≤ s.clock) →
      ∀ entry ∈ entries, wallSeconds entry.wallClockNs ≤ clock :=
    fun hclock hentries entry he => Int.le_trans (hentries entry he) hclock
  rcases QueueState.step_cases hstep with ⟨entry, hclock, rfl⟩ | ⟨i, entry, hi, rfl⟩ |
    ⟨entry, queue, now, hqueue, hclock, rfl⟩ | ⟨a', daily, clock, hclock, hdaily, hok', rfl⟩
  · refine ⟨fun e he => ?_, hlater hclock h.queue, fun e now hw => ?_, h.daily⟩
    · rcases List.mem_append.mp he with he | he
      · exact hlater hclock h.stamped e he
      · rw [List.mem_singleton.mp he]
    · exact ⟨(h.writing e now hw).1, Int.le_trans (h.writing e now hw).2 hclock⟩
  · refine ⟨fun e he => h.stamped e (List.mem_of_mem_eraseIdx he), fun e he => ?_, h.writing, h.daily⟩
    rcases List.mem_append.mp he with he | he
    · exact h.queue e he
    · rw [List.mem_singleton.mp he]
      exact h.stamped entry (List.mem_of_getElem? hi)
  · refine ⟨hlater hclock h.stamped, fun e he => ?_, fun e now' hw => ?_, h.daily⟩
    · exact hlater hclock h.queue e (hqueue ▸ List.mem_cons_of_mem entry he)
    · cases hw
      exact ⟨hlater hclock h.queue entry (hqueue ▸ List.mem_cons_self), Int.le_refl _⟩
  · refine ⟨hlater hclock h.stamped, hlater hclock h.queue, fun e now hw => ?_, h.daily.step hcal (hok' hok) hdaily⟩
    cases hw

theorem of_reachableVia (h : (queueMachine L cfg).ReachableVia (QueueState.CallsSucceed cfg) s)
    (hcal : s.daily.ConsistentDates cfg.daily) : QueueInv cfg s := by
  refine Machine.ReachableVia.induct (fun s => s.daily.ConsistentDates cfg.daily → QueueInv cfg s) ?_ ?_ h hcal
  · rintro s ⟨hsink, hstamped, hqueue, hwriting⟩ -
    constructor
    case stamped => simp [hstamped]
    case queue => simp [hqueue]
    case writing => simp [hwriting]
    case daily => exact ⟨fun sink hs => by rw [hsink] at hs; cases hs⟩
  · intro s a s' _ hok hinv hstep hcal
    exact (hinv fun t ht => hcal t (QueueState.readings_subset hstep ht)).step hcal hok hstep

end QueueInv

namespace QueueState

open DailyFileSink (nameOf)

variable {cfg : QueueConfig θ α} {s : QueueState L}

/-- The rest of a `Write` is a step of the sink with the entry handed over. -/
theorem step_write_iff {entry : LogEntry L} {now : Int} {o : DailyOutcome} {s' : QueueState L}
    (hwriting : s.writing = some (entry, now)) :
    s.step cfg (.write o) = some s' ↔
      (o.now = now ∧ s.clock ≤ o.reopen.now) ∧ ∃ daily, s.daily.step cfg.daily (.write entry o) = some daily ∧
        s' = { s with daily := daily, writing := none, clock := o.reopen.now } := by
  rw [step]
  simp only [hwriting]
  by_cases hclock : o.now = now ∧ s.clock ≤ o.reopen.now
  · rw [if_pos hclock, sinkStep, Option.map_eq_some_iff]
    constructor
    · rintro ⟨daily, hdaily, rfl⟩
      exact ⟨hclock, daily, hdaily, rfl⟩
    · rintro ⟨_, daily, hdaily, rfl⟩
      exact ⟨daily, hdaily, rfl⟩
  · rw [if_neg hclock]
    constructor
    · intro h
      cases h
    · intro h
      exact absurd h.1 hclock

theorem reachableVia_step {ok : QueueState L → QueueAction L θ α → Prop} {s' : QueueState L} {a : QueueAction L θ α}
    (h : (queueMachine L cfg).ReachableVia ok s) (hok : ok s a) (hstep : s.step cfg a = some s') :
    (queueMachine L cfg).ReachableVia ok s' := .step h hok hstep

/-! ### An entry of the last second of a day -/

def appQueue : QueueConfig Unit (List Byte) := ⟨DailyState.appConfig, percentS, .printf, ⟨0, fun _ => 0⟩⟩

/-- A call one second before midnight. -/
def lateCall : LogCall (List Byte) where
  level := .info
  loc := ⟨none, none, none, none, 0, 0⟩
  fmt := ⟨ascii "x", by decide⟩
  args := none
  monotonicNowNs := 0
  wallClockNowNs := 86399000000000

def lateEntry : LogEntry Limits.desktop :=
  lateCall.entry Limits.desktop percentS .printf (.create _ Unit) ⟨0, fun _ => 0⟩ () 0

def constructed : QueueState Limits.desktop := ⟨DailyState.lastSecond, [], [], none, 86399⟩

theorem constructed_reachable :
    (queueMachine Limits.desktop appQueue).ReachableVia (CallsSucceed appQueue) constructed := by
  have hstart : (queueMachine Limits.desktop appQueue).ReachableVia (CallsSucceed appQueue)
      ⟨⟨none, .empty, [], []⟩, [], [], none, 0⟩ := .init ⟨rfl, rfl, rfl, rfl⟩
  have hconstruct : (⟨none, .empty, [], []⟩ : DailyState Limits.desktop).step appQueue.daily
      (.construct (fun _ => 0) (DailyState.opens 86399)) = some DailyState.lastSecond :=
    DailyState.step_construct_iff.mpr ⟨rfl, _, rfl, rfl⟩
  have hopen : (⟨⟨none, .empty, [], []⟩, [], [], none, 0⟩ : QueueState Limits.desktop).step appQueue
      (.construct (fun _ => 0) (DailyState.opens 86399)) = some constructed := by
    rw [step, if_pos (by decide), sinkStep, hconstruct]
    rfl
  have hok : CallsSucceed (L := Limits.desktop) appQueue ⟨⟨none, .empty, [], []⟩, [], [], none, 0⟩
      (.construct (fun _ => 0) (DailyState.opens 86399)) := rfl
  exact reachableVia_step hstart hok hopen

end QueueState

end BrLogger
