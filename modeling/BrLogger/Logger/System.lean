import BrLogger.Backend.System
import BrLogger.Logger.LogImpl

/-!
# `Logger`: logging threads over the backend

`logger.hpp` and `logger.cpp`.  A `LogImpl` call takes its sequence id from
`sequence_`, builds its entry from the context, pushes it, and counts a drop
when the push was refused; `LogPc` says how far a thread's call has come.  One
control thread calls `Start`, `Stop` and `Drain`.

The history fields are the thread of every sequence id handed out and the ids
of the drops counted, in the order of the counting.

`LoggerMove` lists once what a step can do.
-/

namespace BrLogger

/-- Inside `LogImpl`: the id is taken, `TryPush` is running, or it was refused and
the drop is not counted yet. -/
inductive LogPc (α : Type)
  | idle
  | fetched (sequence : UInt64) (call : LogCall α)
  | pushing (sequence : UInt64)
  | refused (sequence : UInt64)

/-- How the logger was built and what it runs on. -/
structure LoggerConfig (ι α : Type) where
  limits : Limits
  lib : Formatting α
  build : Build
  os : Process ι
  sinks : Nat
  hasThread : Bool

def LoggerConfig.backend {ι α : Type} (cfg : LoggerConfig ι α) : BackendConfig :=
  ⟨cfg.limits.ringSize, cfg.limits.ringSize_two_le, cfg.sinks, cfg.hasThread⟩

structure LoggerState (ι α : Type) (L : Limits) where
  backend : BackendState ι (LogEntry L)
  sequence : UInt64
  dropCount : UInt64
  started : Bool
  context : LogContext L ι
  call : ι → LogPc α
  handed : List ι
  dropped : List UInt64

inductive LoggerAction (ι α : Type)
  | logImpl (i : ι) (call : LogCall α)
  | tryPush (i : ι)
  | stepPush (i : ι) (spurious : Bool)
  | returnPush (i : ι)
  | countDrop (i : ι)
  | context (call : ContextCall ι)
  | start
  | stop
  | drain (maxEntries : Nat)
  | worker
  | control

/-- The value a running `TryPush` call is about to return. -/
def pushResult {T : Type} : Option (T × PushPc) → Bool
  | some (_, .returned _ result) => result
  | _ => false

namespace LoggerState

variable {ι α : Type}

def create (L : Limits) (junk : Nat → LogEntry L) : LoggerState ι α L where
  backend := .create junk
  sequence := 0
  dropCount := 0
  started := false
  context := .create L ι
  call _ := .idle
  handed := []
  dropped := []

variable {L : Limits} [DecidableEq ι]

def setCall (s : LoggerState ι α L) (i : ι) (call : LogPc α) : LoggerState ι α L :=
  { s with call := Function.update s.call i call }

/-- `LogImpl` up to `sequence_.fetch_add(1)`. -/
def logImpl (s : LoggerState ι α L) (i : ι) (call : LogCall α) : Option (LoggerState ι α L) :=
  match s.call i with
  | .idle =>
    some { s.setCall i (.fetched s.sequence call) with
      sequence := s.sequence + 1
      handed := s.handed ++ [i] }
  | _ => none

/-- `drop_count_.fetch_add(1)` after a refused push. -/
def countDrop (s : LoggerState ι α L) (i : ι) : Option (LoggerState ι α L) :=
  match s.call i with
  | .refused sequence =>
    some { s.setCall i .idle with
      dropCount := s.dropCount + 1
      dropped := s.dropped ++ [sequence] }
  | _ => none

end LoggerState

namespace LoggerState

variable {ι α : Type} [DecidableEq ι] (cfg : LoggerConfig ι α)

def backendStep (s : LoggerState ι α cfg.limits) (a : BackendAction ι (LogEntry cfg.limits)) :
    Option (LoggerState ι α cfg.limits) :=
  (s.backend.step cfg.backend a).map fun backend => { s with backend := backend }

/-- Context, message and the call of `TryPush`. -/
def tryPush (s : LoggerState ι α cfg.limits) (i : ι) : Option (LoggerState ι α cfg.limits) :=
  match s.call i with
  | .fetched sequence call =>
    let entry := call.entry cfg.limits cfg.lib cfg.build s.context cfg.os i sequence
    ((s.setCall i (.pushing sequence)).backendStep cfg (.callPush i entry))
  | _ => none

def returnPush (s : LoggerState ι α cfg.limits) (i : ι) : Option (LoggerState ι α cfg.limits) :=
  match s.call i with
  | .pushing sequence =>
    let result := pushResult (s.backend.queue.producer i)
    (s.setCall i (if result then .idle else .refused sequence)).backendStep cfg (.returnPush i)
  | _ => none

/-- `Logger::Start`, which `started_` makes a no-op when it has been called. -/
def start (s : LoggerState ι α cfg.limits) : Option (LoggerState ι α cfg.limits) :=
  if s.started then some s else { s with started := true }.backendStep cfg .callStart

def stop (s : LoggerState ι α cfg.limits) : Option (LoggerState ι α cfg.limits) :=
  if s.started then { s with started := false }.backendStep cfg .callStop else some s

def step (s : LoggerState ι α cfg.limits) : LoggerAction ι α → Option (LoggerState ι α cfg.limits)
  | .logImpl i call => s.logImpl i call
  | .tryPush i => s.tryPush cfg i
  | .stepPush i spurious => s.backendStep cfg (.stepPush i spurious)
  | .returnPush i => s.returnPush cfg i
  | .countDrop i => s.countDrop i
  | .context call => some { s with context := s.context.call call }
  | .start => s.start cfg
  | .stop => s.stop cfg
  | .drain maxEntries => s.backendStep cfg (.callDrain maxEntries)
  | .worker => s.backendStep cfg .worker
  | .control => s.backendStep cfg .control

end LoggerState

def loggerMachine {ι α : Type} [DecidableEq ι] (cfg : LoggerConfig ι α) :
    Machine (LoggerState ι α cfg.limits) (LoggerAction ι α) where
  init s := ∃ junk, s = .create cfg.limits junk
  step s a := s.step cfg a

/-- `Drain` is called only while no worker thread exists. -/
def OneConsumer {ι α : Type} {L : Limits} (s : LoggerState ι α L) : LoggerAction ι α → Prop
  | .drain maxEntries => SoleConsumer s.backend (.callDrain maxEntries)
  | _ => True

/-! ### What a step can do -/

/-- The step of the backend that an action is, where the action is nothing else. -/
def LoggerAction.onBackend {ι α : Type} (T : Type) : LoggerAction ι α → Option (BackendAction ι T)
  | .stepPush i spurious => some (.stepPush i spurious)
  | .drain maxEntries => some (.callDrain maxEntries)
  | .worker => some .worker
  | .control => some .control
  | _ => none

inductive LoggerMove {ι α : Type} [DecidableEq ι] (cfg : LoggerConfig ι α) (s : LoggerState ι α cfg.limits) :
    LoggerAction ι α → LoggerState ι α cfg.limits → Prop
  | fetch {i : ι} {call : LogCall α} (hi : s.call i = .idle) :
      LoggerMove cfg s (.logImpl i call)
        { s.setCall i (.fetched s.sequence call) with sequence := s.sequence + 1, handed := s.handed ++ [i] }
  | push {i : ι} {sequence : UInt64} {call : LogCall α} {backend : BackendState ι (LogEntry cfg.limits)}
      (hi : s.call i = .fetched sequence call)
      (hstep : s.backend.step cfg.backend
        (.callPush i (call.entry cfg.limits cfg.lib cfg.build s.context cfg.os i sequence)) = some backend) :
      LoggerMove cfg s (.tryPush i) { s.setCall i (.pushing sequence) with backend := backend }
  | result {i : ι} {sequence : UInt64} {backend : BackendState ι (LogEntry cfg.limits)}
      (hi : s.call i = .pushing sequence) (hstep : s.backend.step cfg.backend (.returnPush i) = some backend) :
      LoggerMove cfg s (.returnPush i)
        { s.setCall i (if pushResult (s.backend.queue.producer i) then .idle else .refused sequence) with
          backend := backend }
  | drop {i : ι} {sequence : UInt64} (hi : s.call i = .refused sequence) :
      LoggerMove cfg s (.countDrop i)
        { s.setCall i .idle with dropCount := s.dropCount + 1, dropped := s.dropped ++ [sequence] }
  | context {call : ContextCall ι} : LoggerMove cfg s (.context call) { s with context := s.context.call call }
  | startedAlready (hstarted : s.started = true) : LoggerMove cfg s .start s
  | start {backend : BackendState ι (LogEntry cfg.limits)} (hstarted : s.started = false)
      (hstep : s.backend.step cfg.backend .callStart = some backend) :
      LoggerMove cfg s .start { s with started := true, backend := backend }
  | notStarted (hstarted : s.started = false) : LoggerMove cfg s .stop s
  | stop {backend : BackendState ι (LogEntry cfg.limits)} (hstarted : s.started = true)
      (hstep : s.backend.step cfg.backend .callStop = some backend) :
      LoggerMove cfg s .stop { s with started := false, backend := backend }
  | backend {a : LoggerAction ι α} {b : BackendAction ι (LogEntry cfg.limits)}
      {backend : BackendState ι (LogEntry cfg.limits)} (hon : a.onBackend _ = some b)
      (hstep : s.backend.step cfg.backend b = some backend) : LoggerMove cfg s a { s with backend := backend }

namespace LoggerState

variable {ι α : Type} [DecidableEq ι] {cfg : LoggerConfig ι α} {s s' : LoggerState ι α cfg.limits}

theorem backendStep_cases {a : BackendAction ι (LogEntry cfg.limits)} (h : s.backendStep cfg a = some s') :
    ∃ backend, s.backend.step cfg.backend a = some backend ∧ s' = { s with backend := backend } := by
  obtain ⟨backend, hb, rfl⟩ := Option.map_eq_some_iff.mp h
  exact ⟨backend, hb, rfl⟩

theorem step_cases {a : LoggerAction ι α} (h : s.step cfg a = some s') : LoggerMove cfg s a s' := by
  cases a with
  | logImpl i call =>
    simp only [step, logImpl] at h
    split at h <;> cases h
    exact .fetch ‹_›
  | tryPush i =>
    simp only [step, tryPush] at h
    split at h
    · obtain ⟨backend, hb, rfl⟩ := backendStep_cases h
      exact .push ‹_› hb
    · cases h
  | returnPush i =>
    simp only [step, returnPush] at h
    split at h
    · obtain ⟨backend, hb, rfl⟩ := backendStep_cases h
      exact .result ‹_› hb
    · cases h
  | countDrop i =>
    simp only [step, countDrop] at h
    split at h <;> cases h
    exact .drop ‹_›
  | context call =>
    cases h
    exact .context
  | start =>
    simp only [step, start] at h
    split at h
    · cases h
      exact .startedAlready ‹_›
    · obtain ⟨backend, hb, rfl⟩ := backendStep_cases h
      exact .start (Bool.eq_false_iff.mpr ‹_›) hb
  | stop =>
    simp only [step, stop] at h
    split at h
    · obtain ⟨backend, hb, rfl⟩ := backendStep_cases h
      exact .stop ‹_› hb
    · cases h
      exact .notStarted (Bool.eq_false_iff.mpr ‹_›)
  | stepPush | drain | worker | control =>
    obtain ⟨backend, hb, rfl⟩ := backendStep_cases h
    exact .backend rfl hb

end LoggerState

end BrLogger
