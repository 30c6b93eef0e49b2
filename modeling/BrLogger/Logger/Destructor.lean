import BrLogger.Backend.Termination

/-!
# What the destructors leave behind

`~LoggerBackend` calls `Stop` whether the backend was started or not, and
`~Logger` runs it after its own `Stop`.  Nobody logs by then, so every claimed
slot is published and the drain ends at an empty ring: `Emptying` carries this
through the steps of the worker and the control thread.  When the call returns,
each sequence id ever handed out is the id of a counted drop or of an entry that
every sink was given, and of one of them only (`destructor_accounts`).
-/

namespace BrLogger

namespace BackendState

variable {ι T : Type}

/-- A step of the worker or of the control thread, in a `Stop` that has not returned. -/
def Destroying (s : BackendState ι T) (a : BackendAction ι T) : Prop := ofConsumer a = true ∧ s.control ≠ .idle

structure Emptying (cfg : BackendConfig) (items : List T) (s : BackendState ι T) : Prop where
  inv : BackendInv cfg s
  flushInv : FlushInv s
  quiet : ∀ p, ¬ s.queue.Held p
  items_eq : s.queue.items = items
  stopping : s.control ≠ .idle → s.control.Stopping
  emptied : s.Finishing → s.queue.popped.length = s.queue.claimed.length
  returned : s.control = .idle → ∀ k < cfg.sinks, s.written k = items ∧ ∃ calls, s.sinks k = calls ++ [.flush]

variable [DecidableEq ι] {cfg : BackendConfig} {items : List T} {s s' t : BackendState ι T}

omit [DecidableEq ι] in
/-- A load that finds no entry, when nobody holds a slot: there is none. -/
theorem BackendInv.popped_length_of_empty (h : BackendInv cfg s) (hquiet : ∀ p, ¬ s.queue.Held p)
    (hwrap : s.queue.claimed.length + cfg.ringSize.val < 2 ^ 32)
    (hload : s.queue.consumer .control = some .loadSequence)
    (hseq : (s.queue.ring.buffer (slotIndex cfg.ringSize.val s.queue.ring.readPos)).sequence ≠
      u32 (s.queue.ring.readPos + 1)) :
    s.queue.popped.length = s.queue.claimed.length := by
  have hrel : s.queue.released = s.queue.popped.length := h.ring.consumer .control _ hload
  have hle := h.ring.released_le
  by_contra hne
  obtain ⟨hpublished, -⟩ := h.ring.published (Nat.le_refl s.queue.released) (by omega) (hquiet _)
  rw [h.ring.readPos, ← hrel, u32_of_lt (by omega)] at hseq
  exact hseq hpublished

omit [DecidableEq ι] in
/-- In a finished drain every sink has been given every entry. -/
theorem Emptying.written_eq (h : Emptying cfg items s) {j k : Nat} (hflush : s.control = .stopFlush j)
    (hk : k < cfg.sinks) : s.written k = items := by
  have hlength := h.emptied (Or.inr (Or.inr ⟨j, hflush⟩))
  rw [h.inv.written_eq_popped hk hflush, ← h.items_eq]
  exact h.inv.ring.popped.eq_of_length (by rw [hlength, RingState.items_length])

theorem Emptying.worker (h : Emptying cfg items s) {pc : WorkerPc T}
    (hw : s.worker = some pc) (hmove : WorkerMove cfg s pc s') (hstep : s.step cfg .worker = some s')
    (hle : s'.queue.popped.length ≤ s.queue.claimed.length) :
    (s'.Finishing → s'.queue.popped.length = s.queue.claimed.length) ∧ s'.control = s.control := by
  have hcontrol := (control_frame (Or.inr rfl) hstep).1
  have hdrain : ∀ {d t d'}, s.draining .worker = some d → DrainMove cfg s .worker 64 d t d' →
      t.queue.consumer .control = s.queue.consumer .control := by
    intro d t d' hd hmove
    exact (consumer_of_drainMove hmove (hd ▸ h.inv.turns.consumer .worker)).2 .control nofun
  have hconsumer : s'.queue.consumer .control = s.queue.consumer .control := by
    cases hmove with
    | drain hmove => have hsame := hdrain (by rw [draining, hw]) hmove; exact hsame
    | finalDrain hmove => have hsame := hdrain (by rw [draining, hw]) hmove; exact hsame
    | _ => rfl
  have hgrow : s.queue.popped.length ≤ s'.queue.popped.length := by
    rcases queue_of_step hstep with he | ⟨b, hb⟩
    · rw [he]
    · exact RingState.popped_length_le hb
  refine ⟨fun hfinish => ?_, hcontrol⟩
  rw [Finishing, hcontrol, hconsumer] at hfinish
  have := h.emptied hfinish
  omega

theorem Emptying.control (h : Emptying cfg items s) (hs : s.control.Stopping)
    (hwrap : s.queue.claimed.length + cfg.ringSize.val < 2 ^ 32) {pc : ControlPc T}
    (hc : s.control = pc) (hmove : ControlMove cfg s pc s') :
    (s'.Finishing → s'.queue.popped.length = s.queue.claimed.length) ∧
      (s'.control ≠ .idle → s'.control.Stopping) ∧
      (s'.control = .idle → ∀ k < cfg.sinks, s'.written k = items ∧ ∃ calls, s'.sinks k = calls ++ [.flush]) := by
  rw [hc] at hs
  cases hmove with
  | running | notRunning | startStore | startThread | drain | drained => cases hs
  | stopStore | stopJoin | stopAgain =>
    refine ⟨?_, fun _ => trivial, nofun⟩
    rintro (⟨he, -⟩ | he | ⟨k, he⟩) <;> cases he
  | stopDrain hmove =>
    refine ⟨fun hfinish => ?_, fun _ => trivial, fun hidle => by cases hidle⟩
    obtain ⟨hpopped, hwas⟩ := finishing_of_drainMove hc hmove hfinish
    refine (congrArg List.length hpopped).trans ?_
    rcases hwas with hfinish | ⟨-, hload, hseq⟩
    · exact h.emptied hfinish
    · exact h.inv.popped_length_of_empty h.quiet hwrap hload hseq
  | stopDrained => exact ⟨fun _ => h.emptied (Or.inr (Or.inl hc)), fun _ => trivial, nofun⟩
  | flush => exact ⟨fun _ => h.emptied (Or.inr (Or.inr ⟨_, hc⟩)), fun _ => trivial, nofun⟩
  | flushed hk =>
    refine ⟨?_, fun hne => absurd rfl hne, fun _ j hj => ⟨h.written_eq hc hj, h.flushInv _ hc j (by omega)⟩⟩
    rintro (⟨he, -⟩ | he | ⟨k, he⟩) <;> cases he

/-- **A step inside the destructor** brings nothing in and loses nothing. -/
theorem Emptying.step (h : Emptying cfg items s) (hwrap : s.queue.claimed.length + cfg.ringSize.val < 2 ^ 32)
    {a : BackendAction ι T} (ha : Destroying s a) (hstep : s.step cfg a = some s') :
    Emptying cfg items s' ∧ s'.queue.claimed = s.queue.claimed := by
  obtain ⟨ha, hne⟩ := ha
  have hs := h.stopping hne
  obtain ⟨hproducers, hclaimed, -⟩ := producer_frame (by cases a <;> first | rfl | cases ha) hstep
  have hsole : SoleConsumer s a := by
    cases a with
    | callDrain => cases ha
    | _ => trivial
  have hinv := h.inv.step hsole hstep (by rw [hclaimed]; exact hwrap)
  have hle := Nat.le_trans hinv.ring.popped_le hinv.ring.released_le
  rw [hclaimed] at hle
  obtain ⟨hemptied, hstopping, hreturned⟩ : (s'.Finishing → s'.queue.popped.length = s.queue.claimed.length) ∧
      (s'.control ≠ .idle → s'.control.Stopping) ∧
      (s'.control = .idle → ∀ k < cfg.sinks, s'.written k = items ∧ ∃ calls, s'.sinks k = calls ++ [.flush]) := by
    cases a with
    | worker =>
      obtain ⟨pc, hw, hmove⟩ := workerStep_cases hstep
      obtain ⟨hemptied, hcontrol⟩ := h.worker hw hmove hstep hle
      rw [hcontrol]
      exact ⟨hemptied, fun _ => hs, fun hidle => absurd hidle hne⟩
    | control =>
      obtain ⟨pc, hc, hmove⟩ := controlStep_cases hstep
      exact h.control hs hwrap hc hmove
    | _ => cases ha
  refine ⟨⟨hinv, h.flushInv.step h.inv.turns hstep, ?_, ?_, hstopping, ?_, hreturned⟩, hclaimed⟩
  · rintro p ⟨i, hi⟩
    exact h.quiet p ⟨i, by rw [← hproducers]; exact hi⟩
  · rw [← h.items_eq, RingState.items, RingState.items, hclaimed]
  · rw [hclaimed]
    exact hemptied

theorem Emptying.run {as : List (BackendAction ι T)} (h : Emptying cfg items s)
    (hwrap : s.queue.claimed.length + cfg.ringSize.val < 2 ^ 32)
    (hrun : (backendMachine ι T cfg).RunVia Destroying s as t) : Emptying cfg items t := by
  have hkeeps := hrun.keeps
    (fun s => Emptying cfg items s ∧ s.queue.claimed.length + cfg.ringSize.val < 2 ^ 32) ?_ ⟨h, hwrap⟩
  · exact hkeeps.1
  · rintro s a s' ⟨h, hwrap⟩ ha hstep
    obtain ⟨h', hclaimed⟩ := h.step hwrap ha hstep
    exact ⟨h', by rw [hclaimed]; exact hwrap⟩

/-- The call of `Stop` when nobody logs. -/
theorem emptying_callStop (hinv : BackendInv cfg s) (hquiet : ∀ i, s.queue.producer i = none)
    (hwrap : s.queue.claimed.length + cfg.ringSize.val < 2 ^ 32) (hstep : s.step cfg .callStop = some s') :
    Emptying cfg s.queue.items s' ∧ s'.queue.claimed = s.queue.claimed := by
  have hinv' := hinv.step (a := .callStop) trivial hstep
  obtain ⟨t, ht, rfl⟩ := Option.map_eq_some_iff.mp hstep
  obtain ⟨-, rfl⟩ := callControl_cases ht
  refine ⟨⟨hinv' hwrap, nofun, ?_, rfl, fun _ => trivial, ?_, nofun⟩, rfl⟩
  · rintro p ⟨i, hi⟩
    rw [show ({ s with control := .stopStore } : BackendState ι T).queue.producer i = none from hquiet i] at hi
    cases hi
  · rintro (⟨he, -⟩ | he | ⟨k, he⟩) <;> cases he

end BackendState

namespace LoggerState

variable {ι α : Type} [Fintype ι] [DecidableEq ι] {cfg : LoggerConfig ι α}

/-- When the destructor has returned, every sink has been given every claimed entry, and
these and the drops are all calls there were. -/
theorem destroyed_written {s : LoggerState ι α cfg.limits} {b t : BackendState ι (LogEntry cfg.limits)}
    {as : List (BackendAction ι (LogEntry cfg.limits))} (h : (loggerMachine cfg).ReachableVia OneConsumer s)
    (hquiet : ∀ i, s.call i = .idle) (hwrap : s.backend.queue.claimed.length < 2 ^ 32 - cfg.limits.ringSize.val)
    (hcalls : s.handed.length < 2 ^ 64) (hstop : s.backend.step cfg.backend .callStop = some b)
    (hrun : (backendMachine ι (LogEntry cfg.limits) cfg.backend).RunVia BackendState.Destroying b as t)
    (hreturn : t.control = .idle) :
    ((s.dropped.map UInt64.toNat : List Nat) : Multiset Nat) + (s.backend.queue.items.map LogEntry.id : List Nat) =
        Multiset.range s.handed.length ∧
      ∀ k < cfg.sinks, t.written k = s.backend.queue.items ∧ ∃ calls, t.sinks k = calls ++ [.flush] := by
  have hinv := loggerInv_of_reachable h hcalls
  have hring : s.backend.queue.claimed.length + cfg.backend.ringSize.val < 2 ^ 32 := by
    show _ + cfg.limits.ringSize.val < _
    omega
  have hb := BackendState.backendInv_of_reachable (fun _ _ hok => hok) (backend_reachable h) hring
  have hproducer : ∀ i, s.backend.queue.producer i = none := by
    intro i
    have hcall := hinv.calls i
    rwa [hquiet i] at hcall
  obtain ⟨hemptying, hclaimed⟩ := BackendState.emptying_callStop hb hproducer hring hstop
  have hpending : ∑ i, (s.pendingOf i : Multiset Nat) = 0 := by
    refine Finset.sum_eq_zero fun i _ => ?_
    rw [pendingOf, hquiet i]
    rfl
  have htotal := hinv.total
  rw [hpending, Multiset.zero_add] at htotal
  exact ⟨htotal, (hemptying.run (by rw [hclaimed]; exact hring) hrun).returned hreturn⟩

/-- **The destructor accounts for every call.**  When `~LoggerBackend` runs after every call of
a program with one consumer at a time has returned, whether the logger was started,
stopped or neither, its `Stop`, once it returns, leaves each sequence id ever handed out
either counted in `drop_count_` or written to every sink, exactly once, and has flushed
each sink after its last write. -/
theorem destructor_accounts (s : LoggerState ι α cfg.limits) (b t : BackendState ι (LogEntry cfg.limits))
    (as : List (BackendAction ι (LogEntry cfg.limits))) (h : (loggerMachine cfg).ReachableVia OneConsumer s)
    (hquiet : ∀ i, s.call i = .idle) (hwrap : s.backend.queue.claimed.length < 2 ^ 32 - cfg.limits.ringSize.val)
    (hcalls : s.handed.length < 2 ^ 64) (hstop : s.backend.step cfg.backend .callStop = some b)
    (hrun : (backendMachine ι (LogEntry cfg.limits) cfg.backend).RunVia BackendState.Destroying b as t)
    (hreturn : t.control = .idle) :
    s.dropCount.toNat = s.dropped.length ∧ ∀ k < cfg.sinks,
      ((s.dropped.map UInt64.toNat : List Nat) : Multiset Nat) + ((t.written k).map LogEntry.id : List Nat) =
        Multiset.range s.handed.length ∧
      ∃ calls, t.sinks k = calls ++ [.flush] := by
  obtain ⟨htotal, hreturned⟩ := destroyed_written h hquiet hwrap hcalls hstop hrun hreturn
  refine ⟨?_, fun k hk => ?_⟩
  · have hle := congrArg Multiset.card htotal
    simp only [Multiset.card_add, Multiset.coe_card, List.length_map, Multiset.card_range] at hle
    rw [(loggerInv_of_reachable h hcalls).dropCount]
    exact Nat.mod_eq_of_lt (show s.dropped.length < 2 ^ 64 by omega)
  · obtain ⟨hwritten, hflushed⟩ := hreturned k hk
    rw [hwritten]
    exact ⟨htotal, hflushed⟩

/-- Two entries and a drop on a logger that is never started. -/
def unstartedRun : List (LoggerAction Unit (List Byte)) := List.flatten [acceptedCall, acceptedCall, refusedCall]

def unstarted : LoggerState Unit (List Byte) tinyLogger.limits :=
  ((loggerMachine tinyLogger).execVia OneConsumer unstartedRun (create tinyLimits fun _ => .zero _)).get
    (by decide +kernel)

theorem unstarted_reachable : (loggerMachine tinyLogger).ReachableVia OneConsumer unstarted :=
  .exec (.init ⟨_, rfl⟩) (Option.some_get _).symm

def destroyed : BackendState Unit (LogEntry tinyLogger.limits) :=
  (unstarted.backend.step tinyLogger.backend .callStop).get (by decide +kernel)

theorem unstarted_stop : unstarted.backend.step tinyLogger.backend .callStop = some destroyed := (Option.some_get _).symm

instance (s : BackendState Unit (LogEntry tinyLogger.limits)) (a : BackendAction Unit (LogEntry tinyLogger.limits)) :
    Decidable (BackendState.Destroying s a) :=
  inferInstanceAs (Decidable (BackendState.ofConsumer a = true ∧ s.control ≠ .idle))

theorem destroyed_ends :
    ((backendMachine Unit (LogEntry tinyLogger.limits) tinyLogger.backend).execVia BackendState.Destroying
        (.replicate 26 .control) destroyed).map (fun t => decide (t.control = .idle)) = some true := by
  decide +kernel

theorem unstarted_facts :
    unstarted.call () = .idle ∧ unstarted.backend.queue.claimed.length = 2 ∧ unstarted.handed.length = 3 ∧
      unstarted.dropCount = 1 := by
  decide +kernel

theorem destructor_accounts_unstarted :
    ∃ t : BackendState Unit (LogEntry tinyLogger.limits), unstarted.dropCount = 1 ∧
      ((unstarted.dropped.map UInt64.toNat : List Nat) : Multiset Nat) + ((t.written 0).map LogEntry.id : List Nat) =
        Multiset.range 3 := by
  obtain ⟨t, hrun, hidle⟩ := Option.map_eq_some_iff.mp destroyed_ends
  obtain ⟨hcall, hclaimed, hhanded, hdropCount⟩ := unstarted_facts
  have haccounts := destructor_accounts unstarted destroyed t _ unstarted_reachable (fun _ => hcall)
    (by rw [hclaimed]; decide) (by rw [hhanded]; decide) unstarted_stop (Machine.RunVia.of_execVia hrun)
    (of_decide_eq_true hidle)
  rw [hhanded] at haccounts
  exact ⟨t, hdropCount, (haccounts.2 0 (by decide)).1⟩

end LoggerState

end BrLogger
