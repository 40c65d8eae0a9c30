import OpLog.Guarantees.Delivery
import OpLog.Guarantees.Drain
import OpLog.Guarantees.OneFile

/-!
# What was accepted before the stop

A finished `run`, over every schedule of ticks and messages: the loop has passed every entry
ahead of the first `StopService` (or of the closing of the channel) to `log`, once and in
channel order, and nothing behind it mattered. If the final flush succeeds in time, every
one of those entries whose name was registered is in a written frame or in the count of a
written notice.
-/
namespace OpLog.Guarantees.Accepted
open Library Source Delivery Drain

/-- The messages the loop receives before it breaks. -/
def ahead : List OpLogMessage → List OpLogMessage
  | [] => []
  | .stopService :: _ => []
  | msg :: channel => msg :: ahead channel

def entriesOf : OpLogMessage → List OpLogData
  | .log data => [data]
  | .logBundle bundle => bundle.logs
  | _ => []

/-- The entries passed to `log`, in order. -/
def logged (outputs : List Output) : List OpLogData :=
  outputs.filterMap fun
    | .logged data _ => some data
    | _ => none

section Warsaw
variable {warsaw : DateTimeUtc → LocalDateTime}

/-! ## One step -/

theorem logged_processLogs (w : OpLogWorker) (now : Instant) (logs : List OpLogData) :
    logged (w.processLogs warsaw now logs).2 = logs := by
  induction logs generalizing w with
  | nil => rfl
  | cons data logs ih =>
    have rest := ih (w.processLog warsaw data now).1
    unfold logged at rest
    simp only [OpLogWorker.processLogs, OpLogWorker.processLog, logged, List.cons_append,
      List.nil_append, List.filterMap_cons]
    exact congrArg (data :: ·) rest

variable (warsaw) in
theorem logged_flush (s : World) (env : OpLogWorker.FlushEnv) :
    logged (s.flush warsaw env).2 = [] := by
  simp [logged, World.flush]

variable (warsaw) in
/-- A message passes its own entries on, whatever else it does. -/
theorem logged_onMessage (s : World) (env : MessageEnv) (msg : OpLogMessage) :
    logged (s.onMessage warsaw env msg).2 = entriesOf msg := by
  cases msg with
  | logBundle bundle => exact logged_processLogs _ _ _
  | flush => exact logged_flush warsaw s env.flush
  | getInfoAndFlush =>
    have none := logged_flush warsaw s env.flush
    unfold logged at none
    simp [World.onMessage, logged, none, entriesOf]
  | _ => rfl

/-! ## The loop -/

/-- The passes that a choice of the loop may make. -/
def ChoicePasses : Choice → PassEnv → Prop
  | .writerTick env, pass => pass = env
  | .cleanupTick .., _ => False
  | .recv env, pass => ∃ n, pass = env.flush.pass n

theorem ahead_cons {msg : OpLogMessage} (going : msg ≠ .stopService) (channel : List OpLogMessage) :
    ahead (msg :: channel) = msg :: ahead channel := by
  cases msg <;> first | rfl | exact absurd rfl going

/-- A finished loop is a run of the worker's steps in which exactly the messages ahead of
the stop were handled. -/
theorem runLoop_spec (schedule : List Choice) (s : World) (channel : List OpLogMessage)
    (looped : World) (outputs : List Output)
    (h : runLoop warsaw schedule s channel = some (looped, outputs)) :
    logged outputs = (ahead channel).flatMap entriesOf ∧
      ∃ events, Machine.run (World.step warsaw) s events = (looped, outputs) ∧
        ∀ pass, passesOf events pass → ∃ choice ∈ schedule, ChoicePasses choice pass := by
  have unmade (schedule : List Choice) (pass : PassEnv) (made : passesOf [] pass) :
      ∃ choice ∈ schedule, ChoicePasses choice pass := by
    simp [passesOf] at made
  induction schedule generalizing s channel outputs with
  | nil => cases h
  | cons choice schedule ih =>
    have taken (event : Event) (rest : List OpLogMessage)
        (same : ∀ pass, Passes event pass → ChoicePasses choice pass)
        (h : (runLoop warsaw schedule (s.step warsaw event).1 rest).map
          (prepend (s.step warsaw event).2) = some (looped, outputs)) :
        ∃ outs, logged outs = (ahead rest).flatMap entriesOf ∧
          outputs = (s.step warsaw event).2 ++ outs ∧
          ∃ events, Machine.run (World.step warsaw) s events = (looped, outputs) ∧
            ∀ pass, passesOf events pass → ∃ c ∈ choice :: schedule, ChoicePasses c pass := by
      obtain ⟨⟨t, outs⟩, later, same⟩ := Option.map_eq_some_iff.mp h
      cases same
      obtain ⟨entries, events, ran, passes⟩ := ih _ _ _ later
      refine ⟨outs, entries, rfl, event :: events, by rw [Machine.run_cons, ran], ?_⟩
      intro pass made
      obtain ⟨e, member, makes⟩ := made
      rcases List.mem_cons.mp member with rfl | member
      · exact ⟨choice, List.mem_cons_self, same pass makes⟩
      · obtain ⟨c, member, makes⟩ := passes pass ⟨e, member, makes⟩
        exact ⟨c, List.mem_cons_of_mem _ member, makes⟩
    cases choice with
    | writerTick env =>
      obtain ⟨outs, entries, rfl, ran⟩ := taken (.writerTick env) channel (fun _ => id) h
      exact ⟨entries, ran⟩
    | cleanupTick now deleted completed =>
      obtain ⟨outs, entries, rfl, ran⟩ := taken (.cleanupTick now deleted completed) channel
        (fun _ => id) h
      exact ⟨entries, ran⟩
    | recv env =>
      cases channel with
      | nil =>
        cases h
        exact ⟨rfl, [], rfl, unmade _⟩
      | cons msg channel =>
        by_cases stop : msg = .stopService
        · subst stop
          cases h
          exact ⟨rfl, [], rfl, unmade _⟩
        · rw [runLoop_recv schedule s env stop] at h
          obtain ⟨outs, entries, rfl, ran⟩ := taken (.message env msg) channel (fun _ => id) h
          refine ⟨?_, ran⟩
          rw [ahead_cons stop, List.flatMap_cons, ← entries,
            ← logged_onMessage warsaw s env msg]
          exact List.filterMap_append

/-- What stands behind the first stop is never received. -/
theorem runLoop_ahead (schedule : List Choice) (s : World) (channel behind : List OpLogMessage) :
    runLoop warsaw schedule s (ahead channel ++ .stopService :: behind) =
      runLoop warsaw schedule s channel := by
  induction schedule generalizing s channel with
  | nil => rfl
  | cons choice schedule ih =>
    cases choice with
    | writerTick env => simp only [runLoop, ih]
    | cleanupTick now deleted completed => simp only [runLoop, ih]
    | recv env =>
      cases channel with
      | nil => rfl
      | cons msg channel =>
        by_cases stop : msg = .stopService
        · subst stop
          rfl
        · rw [ahead_cons stop, List.cons_append, runLoop_recv schedule s env stop,
            runLoop_recv schedule s env stop, ih]

/-! ## Behind the loop -/

/-- Everything routed to a file is in its frames or in the counts of their notices. -/
def Settled (attempts : AttemptEnv → Prop) (routed : List String) (written : List Written) : Prop :=
  ∃ history : List (Delivery String), history.flatMap Delivery.entries = routed ∧
    List.Forall₂ (Account attempts) history written

/-- The deadline had not passed when the last pass ended, or leaves room for a pass for
every entry of the longest queue. -/
def InTime (lastFlush : OpLogWorker.FlushEnv) (r : RunResult) : Prop :=
  r.lastFlush.length ≤ lastFlush.deadline ∨ Bounded r.looped.worker (lastFlush.deadline + 1)

/-- The passes that the loop may make, and those of the flush behind it. -/
def passesOfRun (schedule : List Choice) (lastFlush : OpLogWorker.FlushEnv) (pass : PassEnv) : Prop :=
  (∃ choice ∈ schedule, ChoicePasses choice pass) ∨ ∃ n, pass = lastFlush.pass n

/-- With its queue empty a file has nothing left to report either. -/
theorem settled_of_empty {attempts : AttemptEnv → Prop} {live : Option LogFile} {past : List String}
    {written : List Written} (ledger : Ledger attempts live past written)
    (empty : ∀ f, live = some f → f.logs = []) : Settled attempts past written := by
  obtain ⟨q, entries, frames, queue, dropped, pending⟩ := ledger
  have clear : q.queue = [] ∧ q.dropped = [] := by
    cases live with
    | none => exact ⟨queue, List.eq_nil_of_length_eq_zero dropped⟩
    | some f =>
      have uncounted : f.droppedLogs = 0 := by
        by_contra counted
        exact pending f rfl (Nat.pos_of_ne_zero counted) (empty f rfl)
      exact ⟨queue.trans (empty f rfl), List.eq_nil_of_length_eq_zero (dropped.trans uncounted)⟩
  refine ⟨q.history, ?_, frames⟩
  rw [← entries, DropQueue.entries, clear.1, clear.2, List.append_nil, List.append_nil]

/-- A flush routes nothing. -/
theorem routed_passes (name key : String) (passes : List PassAttempts) :
    routed name key (passes.map .pass) = [] := by
  simp [routed]

/-- A flush that succeeds in time leaves nothing to be written. -/
theorem flush_settles {passes : PassEnv → Prop} {w : OpLogWorker} {past : List Output}
    (balanced : Balanced passes w past) (env : OpLogWorker.FlushEnv)
    (made : ∀ n, passes (env.pass n)) (disk : Disk) :
    let flushed := w.flush warsaw env disk
    (∀ attempts ∈ flushed.2.2, Succeeds attempts) →
    flushed.2.2.length ≤ env.deadline ∨ Bounded w (env.deadline + 1) →
    (∀ name key f, flushed.1.file? name key = some f → f.logs = []) ∧
      ∀ name key, Settled (attemptsOf passes name key) (routed name key past)
        (framesOf name key (past ++ flushed.2.2.map .pass)) := by
  intro flushed succeeds inTime
  have drained : flushed.1.logCount = 0 := by
    rcases inTime with few | room
    · exact (flushLoop_drains env.pass env.deadline 0 w disk (bounded_logCount w)
        succeeds).2 (Or.inl few)
    · exact (flushLoop_drains env.pass env.deadline 0 w disk room succeeds).2
        (Or.inr (Nat.le_refl _))
  have empty := (OpLogWorker.logCount_eq_zero _).mp drained
  refine ⟨empty, fun name key => ?_⟩
  have after := balanced_flushLoop warsaw env.pass made env.deadline 0 disk balanced
  have settled := settled_of_empty (after name key) (empty name key)
  rwa [routed_append, routed_passes, List.append_nil] at settled

end Warsaw

/-- A finished `run` of a new worker. -/
theorem nothing_accepted_is_lost (warsaw : DateTimeUtc → LocalDateTime) (schedule : List Choice)
    (lastFlush : OpLogWorker.FlushEnv) (disk : Disk) (channel : List OpLogMessage) (r : RunResult)
    (returned : run warsaw schedule lastFlush ⟨.new, disk⟩ channel = some r) :
    logged r.outputs = (ahead channel).flatMap entriesOf ∧
    (∀ behind, run warsaw schedule lastFlush ⟨.new, disk⟩ (ahead channel ++ .stopService :: behind) =
      some r) ∧
    ((∀ attempts ∈ r.lastFlush, Succeeds attempts) → InTime lastFlush r →
      (∀ name key f, r.final.worker.file? name key = some f → f.logs = []) ∧
      ∀ name key, Settled (attemptsOf (passesOfRun schedule lastFlush) name key)
        (routed name key r.outputs) (framesOf name key (r.outputs ++ r.lastFlush.map .pass))) := by
  have stopped (behind : List OpLogMessage) : run warsaw schedule lastFlush ⟨.new, disk⟩
      (ahead channel ++ .stopService :: behind) = some r := by
    rw [← returned, run, run, runLoop_ahead]
  obtain ⟨⟨looped, outputs⟩, loop, same⟩ := Option.map_eq_some_iff.mp returned
  obtain ⟨entries, events, ran, passes⟩ :=
    runLoop_spec schedule ⟨.new, disk⟩ channel looped outputs loop
  cases same
  have balanced := run_balanced warsaw disk events
  rw [ran] at balanced
  have made : Balanced (passesOfRun schedule lastFlush) looped.worker outputs :=
    balanced_mono (fun pass made => Or.inl (passes pass made)) balanced
  exact ⟨entries, stopped,
    flush_settles made lastFlush (fun n => Or.inr ⟨n, rfl⟩) looped.disk⟩

def flushEnv : OpLogWorker.FlushEnv := ⟨fun _ => passEnv (storedEnv allDone), 3⟩

def plainOpLogDefinition : OpLogDefinition :=
  ⟨"a", .noSplit, "", "logs", [], Duration.fromSecs 1, false⟩

/-- One entry ahead of the stop and one behind it. -/
def stoppedChannel : List OpLogMessage :=
  [.logDefinition plainOpLogDefinition, .log ⟨"a", "one", 0⟩, .stopService, .log ⟨"a", "two", 0⟩]

def threeReceives : List Choice :=
  [.recv ⟨0, flushEnv⟩, .writerTick (passEnv (storedEnv allDone)), .recv ⟨0, flushEnv⟩,
    .recv ⟨0, flushEnv⟩]

theorem threeReceives_return : (run warsawAtEpoch threeReceives flushEnv
    ⟨.new, fun _ => none⟩ stoppedChannel).isSome = true := by decide +kernel

def stoppedRun : RunResult := Option.get _ threeReceives_return

theorem nothing_accepted_is_lost_stopped :
    logged stoppedRun.outputs = [⟨"a", "one", 0⟩] ∧
      Settled (attemptsOf (passesOfRun threeReceives flushEnv) "a" "logs/a.log")
        (routed "a" "logs/a.log" stoppedRun.outputs)
        (framesOf "a" "logs/a.log" (stoppedRun.outputs ++ stoppedRun.lastFlush.map .pass)) := by
  have succeeds : ∀ attempts ∈ stoppedRun.lastFlush, Succeeds attempts := by
    unfold Succeeds
    decide +kernel
  obtain ⟨entries, -, settled⟩ := nothing_accepted_is_lost warsawAtEpoch threeReceives
    flushEnv (fun _ => none) stoppedChannel stoppedRun (Option.some_get _).symm
  exact ⟨entries, (settled succeeds (Or.inl (by decide +kernel))).2 "a" "logs/a.log"⟩

end OpLog.Guarantees.Accepted
