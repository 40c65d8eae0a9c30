import OpLog.Library.Machine
import OpLog.Source.PerFile

/-!
# The operations on one file in a run

A step of the worker, as the `LogFile` under one key of one definition sees it, is a list of
operations on that `LogFile`: entries are queued, attempts are made, idle clean-up may forget
it. `World.opsOn` is the list, and `World.run_opsOf` says that it leads to the same file with
the same attempts. So what holds over every list of operations holds in every run.
-/
namespace OpLog.Source
open Library

inductive FileOp where
  | queue (d : LogDefinition) (r : Route) (now : Instant)
  | attempt (d : LogDefinition) (flushInterval : Duration) (env : AttemptEnv)
    (content : Option Bytes)
  | cleanUp (now : Instant)

/-- The attempts of all passes on one file. -/
def attemptsOn (name key : String) (outputs : List Output) : List Attempt :=
  outputs.flatMap fun
    | .pass attempts => attempts.on name key
    | _ => []

section Warsaw
variable (warsaw : DateTimeUtc → LocalDateTime)

def FileOp.step (live : Option LogFile) : FileOp → Option LogFile × List Attempt
  | .queue d r now => (some ((d.getLogFile live r.logName r.path now).addToLog r.entry now), [])
  | .attempt d flushInterval env content =>
    match live with
    | none => (none, [])
    | some f =>
      let out := d.writeOne warsaw flushInterval env f content
      (some out.1, [out.2])
  | .cleanUp now => (live.filter (·.inUse now), [])

variable (name key : String)

namespace OpLogWorker

def logOps (now : Instant) (w : OpLogWorker) (data : OpLogData) : List FileOp :=
  match w.definitions.get? data.logName with
  | none => []
  | some d =>
    let r := d.route data.logName (warsaw data.date) data.log
    if name = data.logName ∧ key = r.key then [.queue { d with lastTimeUse := now } r now] else []

def logsOps (now : Instant) : OpLogWorker → List OpLogData → List FileOp
  | _, [] => []
  | w, data :: rest =>
    w.logOps warsaw name key now data ++ logsOps now (w.processLog warsaw data now).1 rest

def passOps (interval : LogDefinition → Duration) (env : PassEnv) (w : OpLogWorker) (disk : Disk) :
    List FileOp :=
  match w.definitions.get? name with
  | none => []
  | some d =>
    [.attempt d (interval d) (env.attempt name key) (w.contentAt warsaw interval env disk name key)]

/-- The passes of the flush loop. -/
def flushOps (env : Nat → PassEnv) : Nat → Nat → OpLogWorker → Disk → List FileOp
  | 0, n, w, disk => w.passOps warsaw name key (fun _ => Duration.fromMillis 0) (env n) disk
  | left + 1, n, w, disk =>
    let pass := w.writePass warsaw (fun _ => Duration.fromMillis 0) (env n) disk
    w.passOps warsaw name key (fun _ => Duration.fromMillis 0) (env n) disk ++
      if pass.1.logCount = 0 then [] else flushOps env left (n + 1) pass.1 pass.2.1

end OpLogWorker

namespace World

/-- What a step of the worker does to the file. -/
def opsOn (s : World) : Event → List FileOp
  | .writerTick env => s.worker.passOps warsaw name key (·.flushInterval) env s.disk
  | .cleanupTick now _ _ => [.cleanUp now]
  | .message env msg =>
    match msg with
    | .flush => s.worker.flushOps warsaw name key env.flush.pass env.flush.deadline 0 s.disk
    | .getInfoAndFlush => s.worker.flushOps warsaw name key env.flush.pass env.flush.deadline 0 s.disk
    | .logBundle bundle =>
      (bundle.definitions.foldl (fun w d => w.define d env.now) s.worker).logsOps warsaw name key
        env.now bundle.logs
    | .log data => s.worker.logOps warsaw name key env.now data
    | _ => []

def opsOf : World → List Event → List FileOp
  | _, [] => []
  | s, event :: events => s.opsOn warsaw name key event ++ opsOf (s.step warsaw event).1 events

end World

/-! ## They are what the step does -/

variable {warsaw name key}

namespace OpLogWorker
variable {w : OpLogWorker}

theorem run_logOps (now : Instant) (data : OpLogData) :
    Machine.run (FileOp.step warsaw) (w.file? name key) (w.logOps warsaw name key now data) =
      ((w.processLog warsaw data now).1.file? name key, []) := by
  unfold logOps processLog
  cases stored : w.definitions.get? data.logName with
  | none =>
    have unrouted : w.routeOf warsaw data = none := by rw [routeOf, stored, Option.map_none]
    rw [log_unregistered warsaw now unrouted]
    rfl
  | some d =>
    have file := file?_log_stored warsaw now stored name key
    dsimp only at file ⊢
    rw [file]
    split
    · rfl
    · rfl

theorem run_logsOps (now : Instant) (logs : List OpLogData) :
    Machine.run (FileOp.step warsaw) (w.file? name key) (w.logsOps warsaw name key now logs) =
      ((w.processLogs warsaw now logs).1.file? name key, []) := by
  induction logs generalizing w with
  | nil => rfl
  | cons data logs ih =>
    unfold logsOps
    rw [Machine.run_append, run_logOps, ih]
    rfl

theorem run_passOps (interval : LogDefinition → Duration) (env : PassEnv) (disk : Disk) :
    let out := w.writePass warsaw interval env disk
    Machine.run (FileOp.step warsaw) (w.file? name key)
      (w.passOps warsaw name key interval env disk) =
        (out.1.file? name key, out.2.2.on name key) := by
  intro out
  have visit := w.file?_writePass warsaw interval env disk name key
  unfold passOps
  cases live : w.file? name key with
  | none =>
    rw [live] at visit
    obtain ⟨absent, silent⟩ := visit
    rw [absent, silent]
    cases w.definitions.get? name <;> rfl
  | some f =>
    rw [live] at visit
    obtain ⟨d, content, stored, found, file, attempts⟩ := visit
    rw [file, attempts, stored, found]
    rfl

theorem run_flushOps (env : Nat → PassEnv) (left n : Nat) (disk : Disk) :
    let out := flushLoop warsaw env left n w disk
    Machine.run (FileOp.step warsaw) (w.file? name key)
      (w.flushOps warsaw name key env left n disk) =
        (out.1.file? name key, out.2.2.flatMap (·.on name key)) := by
  induction left generalizing n w disk with
  | zero =>
    unfold flushOps flushLoop
    rw [run_passOps]
    simp only [List.flatMap_cons, List.flatMap_nil, List.append_nil]
  | succ left ih =>
    unfold flushOps flushLoop
    dsimp only
    rw [Machine.run_append, run_passOps]
    split
    · simp only [Machine.run_nil, List.flatMap_cons, List.flatMap_nil]
    · rw [ih]
      simp only [List.flatMap_cons]

end OpLogWorker

theorem attemptsOn_append (past out : List Output) :
    attemptsOn name key (past ++ out) = attemptsOn name key past ++ attemptsOn name key out :=
  List.flatMap_append

namespace World

theorem run_flushOn (s : World) (env : OpLogWorker.FlushEnv) :
    Machine.run (FileOp.step warsaw) (s.worker.file? name key)
      (s.worker.flushOps warsaw name key env.pass env.deadline 0 s.disk) =
        ((s.flush warsaw env).1.worker.file? name key, attemptsOn name key (s.flush warsaw env).2) := by
  rw [OpLogWorker.run_flushOps]
  unfold attemptsOn World.flush
  simp only [List.flatMap_map]
  rfl

theorem file?_define_all (definitions : List OpLogDefinition) (now : Instant) (w : OpLogWorker) :
    (definitions.foldl (fun w d => w.define d now) w).file? name key = w.file? name key := by
  induction definitions generalizing w with
  | nil => rfl
  | cons d definitions ih =>
    rw [List.foldl_cons, ih, OpLogWorker.file?_define]

theorem attemptsOn_logs (now : Instant) (logs : List OpLogData) (w : OpLogWorker) :
    attemptsOn name key (w.processLogs warsaw now logs).2 = [] := by
  induction logs generalizing w with
  | nil => rfl
  | cons data logs ih => exact ih _

/-- One step of the worker. -/
theorem run_opsOn (s : World) (event : Event) :
    Machine.run (FileOp.step warsaw) (s.worker.file? name key) (s.opsOn warsaw name key event) =
      ((s.step warsaw event).1.worker.file? name key, attemptsOn name key (s.step warsaw event).2) := by
  cases event with
  | writerTick env =>
    unfold opsOn
    rw [OpLogWorker.run_passOps]
    simp only [step, attemptsOn, OpLogWorker.writeToFiles, List.flatMap_cons, List.flatMap_nil,
      List.append_nil]
  | cleanupTick now deleted completed =>
    have file : (s.cleanup now deleted completed).worker.file? name key =
        (s.worker.file? name key).filter (·.inUse now) := by
      obtain ⟨timedOut, noted⟩ := (s.worker.cleanUp now).noteCleanupOutcome_eq completed
      unfold cleanup
      rw [← OpLogWorker.file?_cleanUp, noted]
      rfl
    unfold step
    rw [file]
    rfl
  | message env msg =>
    cases msg with
    | flush => exact run_flushOn s env.flush
    | getInfoAndFlush =>
      have silent : attemptsOn name key [.info s.worker.info] = [] := rfl
      unfold opsOn step onMessage
      dsimp only
      rw [run_flushOn, attemptsOn_append, silent, List.append_nil]
    | logBundle bundle =>
      unfold opsOn step onMessage OpLogWorker.processBundle
      dsimp only
      rw [← file?_define_all bundle.definitions env.now s.worker, OpLogWorker.run_logsOps,
        attemptsOn_logs]
    | logDefinition d =>
      unfold opsOn step onMessage
      rw [OpLogWorker.file?_define]
      rfl
    | log data =>
      unfold opsOn step onMessage
      dsimp only
      rw [OpLogWorker.run_logOps]
      rfl
    | _ => rfl

/-- A whole run: the operations lead to the file the run leaves, and their attempts are
those the run made on it. -/
theorem run_opsOf (s : World) (events : List Event) :
    let final := Machine.run (World.step warsaw) s events
    Machine.run (FileOp.step warsaw) (s.worker.file? name key) (s.opsOf warsaw name key events) =
      (final.1.worker.file? name key, attemptsOn name key final.2) := by
  induction events generalizing s with
  | nil => rfl
  | cons event events ih =>
    unfold opsOf
    rw [Machine.run_append, run_opsOn, Machine.run_cons]
    dsimp only at ih ⊢
    rw [ih, attemptsOn_append]

end World
end Warsaw

end OpLog.Source
