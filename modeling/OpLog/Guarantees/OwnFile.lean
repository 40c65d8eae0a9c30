import OpLog.Guarantees.Delivery
import OpLog.Guarantees.Forgetting
import OpLog.Guarantees.OneFile
import OpLog.Source.FileOps

/-!
# A file the worker has to itself

The life of one file, as `FileState` has it, is what goes on at a path of the disk while the
whole worker runs, as long as no other `LogFile` with entries is at that path: however the
passes are ordered and whatever else the worker does, the `LogFile` and the content at its
path go through the events of one file. What holds in every life of one file so holds in
every run of the worker.
-/
namespace OpLog.Guarantees.OwnFile
open Library Source Forgetting Delivery

/-! ## Operations next to the content of the file -/

/-- The operation as an event of the file's life, which has the content itself. -/
def event : FileOp → FileEvent
  | .queue d r now => .queue d r.logName r.path r.entry now
  | .attempt d flushInterval env _ => .write d flushInterval env
  | .cleanUp now => .cleanUp now

/-- An attempt is made on the content there is. -/
def Meets (s : FileState) : FileOp → Prop
  | .attempt _ _ _ content => s.live ≠ none → content = s.disk
  | _ => True

section Warsaw
variable (warsaw : DateTimeUtc → LocalDateTime)

def onDisk (s : FileState) (op : FileOp) : FileState × List Attempt :=
  let out := op.step warsaw s.live
  (⟨out.1, applyOps (out.2.flatMap Attempt.ops) s.disk⟩, out.2)

theorem step_event (s : FileState) (op : FileOp) (meets : Meets s op) :
    (s.step warsaw (event op)).1 = (onDisk warsaw s op).1 ∧
      (s.step warsaw (event op)).2.map FileWrite.written =
        (onDisk warsaw s op).2.filterMap Attempt.written := by
  cases op with
  | queue d r now => exact ⟨rfl, rfl⟩
  | cleanUp now => exact ⟨rfl, rfl⟩
  | attempt d flushInterval env content =>
    obtain ⟨live, disk⟩ := s
    cases live with
    | none => exact ⟨rfl, rfl⟩
    | some f =>
      have same : content = disk := meets (by simp)
      subst same
      simp only [FileState.step, event, onDisk, FileOp.step, List.flatMap_cons, List.flatMap_nil,
        List.append_nil, true_and]
      cases result : (d.writeOne warsaw flushInterval env f content).2.result with
      | error e => simp [Attempt.written, result]
      | ok written => cases written <;> simp [Attempt.written, result]

/-- The operations lead from one state of the file to another, through these attempts. -/
def Leads (s : FileState) (ops : List FileOp) (s' : FileState) (attempts : List Attempt) : Prop :=
  Machine.Allowed (onDisk warsaw) Meets s ops ∧ Machine.run (onDisk warsaw) s ops = (s', attempts)

variable {warsaw}

theorem leads_append {s s' s'' : FileState} {ops more : List FileOp} {attempts rest : List Attempt}
    (first : Leads warsaw s ops s' attempts) (second : Leads warsaw s' more s'' rest) :
    Leads warsaw s (ops ++ more) s'' (attempts ++ rest) := by
  obtain ⟨meets, run⟩ := first
  obtain ⟨meets', run'⟩ := second
  constructor
  · rw [Machine.allowed_append, run]
    exact ⟨meets, meets'⟩
  · rw [Machine.run_append, run, run']

/-- They do so as events of the file's life, with the frames of these attempts. -/
theorem run_leads {s s' : FileState} {ops : List FileOp} {attempts : List Attempt}
    (leads : Leads warsaw s ops s' attempts) :
    (Machine.run (FileState.step warsaw) s (ops.map event)).1 = s' ∧
      (Machine.run (FileState.step warsaw) s (ops.map event)).2.map FileWrite.written =
        attempts.filterMap Attempt.written := by
  obtain ⟨meets, run⟩ := leads
  have same : (Machine.run (FileState.step warsaw) s (ops.map event)).1 =
        (Machine.run (onDisk warsaw) s ops).1 ∧
      (Machine.run (FileState.step warsaw) s (ops.map event)).2.map FileWrite.written =
        (Machine.run (onDisk warsaw) s ops).2.filterMap Attempt.written := by
    clear run
    induction ops generalizing s with
    | nil => exact ⟨rfl, rfl⟩
    | cons op ops ih =>
      obtain ⟨first, rest⟩ := meets
      obtain ⟨state, frames⟩ := step_event warsaw s op first
      obtain ⟨state', frames'⟩ := ih rest
      rw [List.map_cons, Machine.run_cons, Machine.run_cons, List.map_append, List.filterMap_append,
        state, frames, state', frames']
      exact ⟨rfl, rfl⟩
  rw [run] at same
  exact same

/-- Operations without an attempt leave the content alone. -/
theorem leads_quiet {live live' : Option LogFile} {ops : List FileOp} (content : Option Bytes)
    (quiet : ∀ op ∈ ops, ∀ d flushInterval env c, op ≠ .attempt d flushInterval env c)
    (run : Machine.run (FileOp.step warsaw) live ops = (live', [])) :
    Leads warsaw ⟨live, content⟩ ops ⟨live', content⟩ [] := by
  induction ops generalizing live with
  | nil =>
    cases run
    exact ⟨trivial, rfl⟩
  | cons op ops ih =>
    have silent : (op.step warsaw live).2 = [] := by
      cases op with
      | attempt d flushInterval env c =>
        exact absurd rfl (quiet _ List.mem_cons_self d flushInterval env c)
      | _ => rfl
    rw [Machine.run_cons, silent, Prod.mk.injEq] at run
    have rest : Leads warsaw ⟨(op.step warsaw live).1, content⟩ ops ⟨live', content⟩ [] :=
      ih (fun op member => quiet op (List.mem_cons_of_mem _ member)) (Prod.ext run.1 run.2)
    have first : Leads warsaw ⟨live, content⟩ [op] ⟨(op.step warsaw live).1, content⟩ [] := by
      refine ⟨⟨?_, trivial⟩, ?_⟩
      · cases op with
        | attempt d flushInterval env c =>
          exact absurd rfl (quiet _ List.mem_cons_self d flushInterval env c)
        | _ => trivial
      · simp only [Machine.run_cons, Machine.run_nil, onDisk, silent, List.flatMap_nil, applyOps_nil,
          List.append_nil]
    exact leads_append first rest

/-! ## The worker's operations -/

section Worker
variable {path name key : String} {w : OpLogWorker}

/-- The `LogFile` under `name` and `key` is at `path`, and no other one with entries is. -/
structure Owns (path name key : String) (w : OpLogWorker) : Prop where
  placed : ∀ f, w.file? name key = some f → f.diskPath = path
  alone : w.OnlyAt path name key

theorem Owns.unlisted (owns : Owns path name key w) (absent : w.file? name key = none)
    {name' key' : String} {f : LogFile} (live : w.file? name' key' = some f)
    (there : f.diskPath = path) : f.logs = [] := by
  by_contra queued
  obtain ⟨rfl, rfl⟩ := owns.alone name' key' f live there queued
  rw [absent] at live
  cases live

variable (warsaw) in
theorem owns_pass (owns : Owns path name key w) (interval : LogDefinition → Duration) (env : PassEnv)
    (disk : Disk) : Owns path name key (w.writePass warsaw interval env disk).1 := by
  constructor
  · intro f live
    obtain ⟨g, before, place, -⟩ := w.file?_before_writePass warsaw interval env disk live
    rw [place]
    exact owns.placed g before
  · intro name' key' f live there queued
    obtain ⟨g, before, place, some_left⟩ := w.file?_before_writePass warsaw interval env disk live
    exact owns.alone name' key' g before (place.symm.trans there) (some_left queued)

variable (warsaw) in
/-- A pass makes one attempt on the file, on the content there is. -/
theorem leads_pass (owns : Owns path name key w) (interval : LogDefinition → Duration)
    (env : PassEnv) (disk : Disk) :
    let out := w.writePass warsaw interval env disk
    Leads warsaw ⟨w.file? name key, disk path⟩ (w.passOps warsaw name key interval env disk)
      ⟨out.1.file? name key, out.2.1 path⟩ (out.2.2.on name key) := by
  intro out
  have visit := w.file?_writePass warsaw interval env disk name key
  unfold OpLogWorker.passOps
  cases live : w.file? name key with
  | none =>
    rw [live] at visit
    obtain ⟨absent, silent⟩ := visit
    have frame := w.writePass_frame warsaw interval env disk
      fun name' key' f there same => owns.unlisted live there same
    rw [absent, silent, frame]
    cases w.definitions.get? name with
    | none => exact ⟨trivial, rfl⟩
    | some d => exact ⟨⟨fun some_live => absurd rfl some_live, trivial⟩, rfl⟩
  | some f =>
    rw [live] at visit
    obtain ⟨d, content, stored, found, file, attempts⟩ := visit
    have here := owns.placed f live
    subst here
    obtain ⟨before, after⟩ := w.writePass_slot warsaw interval env disk stored live owns.alone
    rw [before] at found
    subst found
    rw [file, attempts, after, stored]
    refine ⟨⟨fun _ => before, trivial⟩, ?_⟩
    simp only [Machine.run_cons, Machine.run_nil, onDisk, FileOp.step, before, List.flatMap_cons,
      List.flatMap_nil, List.append_nil]

variable (warsaw) in
/-- So do the passes of the flush loop. -/
theorem leads_flush (owns : Owns path name key w) (env : Nat → PassEnv) (left n : Nat) (disk : Disk) :
    let out := OpLogWorker.flushLoop warsaw env left n w disk
    Leads warsaw ⟨w.file? name key, disk path⟩ (w.flushOps warsaw name key env left n disk)
      ⟨out.1.file? name key, out.2.1 path⟩ (out.2.2.flatMap (·.on name key)) := by
  induction left generalizing n w disk with
  | zero =>
    unfold OpLogWorker.flushOps OpLogWorker.flushLoop
    have pass := leads_pass warsaw owns (fun _ => Duration.fromMillis 0) (env n) disk
    simpa only [List.flatMap_cons, List.flatMap_nil, List.append_nil] using pass
  | succ left ih =>
    have pass := leads_pass warsaw owns (fun _ => Duration.fromMillis 0) (env n) disk
    have later := ih (owns_pass warsaw owns (fun _ => Duration.fromMillis 0) (env n) disk) (n + 1)
      (w.writePass warsaw (fun _ => Duration.fromMillis 0) (env n) disk).2.1
    unfold OpLogWorker.flushOps OpLogWorker.flushLoop
    dsimp only at pass later ⊢
    split
    · simpa only [List.append_nil, List.flatMap_cons, List.flatMap_nil] using pass
    · rw [List.flatMap_cons]
      exact leads_append pass later

/-- Entries only queue. -/
theorem queue_of_logs {logs : List OpLogData} {now : Instant} {op : FileOp}
    (member : op ∈ w.logsOps warsaw name key now logs) : ∃ d r, op = .queue d r now := by
  induction logs generalizing w with
  | nil => simp [OpLogWorker.logsOps] at member
  | cons data logs ih =>
    unfold OpLogWorker.logsOps at member
    rcases List.mem_append.mp member with first | later
    · unfold OpLogWorker.logOps at first
      cases stored : w.definitions.get? data.logName with
      | none => simp [stored] at first
      | some d =>
        simp only [stored] at first
        split at first
        · simp only [List.mem_singleton] at first
          exact ⟨_, _, first⟩
        · cases first
    · exact ih later

theorem leads_logs (logs : List OpLogData) (now : Instant) (content : Option Bytes) :
    Leads warsaw ⟨w.file? name key, content⟩ (w.logsOps warsaw name key now logs)
      ⟨(w.processLogs warsaw now logs).1.file? name key, content⟩ [] := by
  refine leads_quiet content ?_ (OpLogWorker.run_logsOps now logs)
  intro op member
  obtain ⟨d, r, rfl⟩ := queue_of_logs member
  simp

/-! ## Where the worker's files are -/

/-- Every `LogFile` is where its key says. -/
def Placed (w : OpLogWorker) : Prop :=
  ∀ name key f, w.file? name key = some f → Located name key f

theorem placed_new : Placed .new := by
  intro name key f live
  cases live

theorem placed_of_files {w' : OpLogWorker} (placed : Placed w)
    (same : ∀ name key, w'.file? name key = w.file? name key) : Placed w' := by
  intro name key f live
  rw [same] at live
  exact placed name key f live

theorem placed_log (placed : Placed w) (data : OpLogData) (now : Instant) :
    Placed (w.processLog warsaw data now).1 := by
  unfold OpLogWorker.processLog
  cases stored : w.definitions.get? data.logName with
  | none =>
    have unrouted : w.routeOf warsaw data = none := by
      rw [OpLogWorker.routeOf, stored, Option.map_none]
    rw [OpLogWorker.log_unregistered warsaw now unrouted]
    exact placed
  | some d =>
    intro name key f live
    rw [OpLogWorker.file?_log_stored warsaw now stored] at live
    split at live
    · rename_i here
      obtain ⟨rfl, rfl⟩ := here
      cases live
      cases before : w.file? data.logName
          (d.route data.logName (warsaw data.date) data.log).key with
      | none => exact located_route _ _ rfl rfl
      | some g =>
        rw [LogDefinition.getLogFile_some]
        exact (placed _ _ g before).congr rfl rfl
    · exact placed name key f live

theorem placed_logs (placed : Placed w) (logs : List OpLogData) (now : Instant) :
    Placed (w.processLogs warsaw now logs).1 := by
  induction logs generalizing w with
  | nil => exact placed
  | cons data logs ih => exact ih (placed_log placed data now)

theorem placed_pass (placed : Placed w) (interval : LogDefinition → Duration) (env : PassEnv)
    (disk : Disk) : Placed (w.writePass warsaw interval env disk).1 := by
  intro name key f live
  have visit := w.file?_writePass warsaw interval env disk name key
  cases before : w.file? name key with
  | none =>
    rw [before] at visit
    rw [visit.1] at live
    cases live
  | some g =>
    rw [before] at visit
    obtain ⟨d, content, -, -, file, -⟩ := visit
    rw [file, Option.some.injEq] at live
    subst live
    obtain ⟨path, logName⟩ := d.writeOne_place warsaw (interval d) (env.attempt name key) g content
    exact (placed name key g before).congr path logName

theorem placed_cleanUp (placed : Placed w) (now : Instant) : Placed (w.cleanUp now) := by
  intro name key f live
  rw [OpLogWorker.file?_cleanUp] at live
  exact placed name key f (Option.filter_eq_some_iff.mp live).1

theorem placed_flush {s : World} (placed : Placed s.worker) (env : OpLogWorker.FlushEnv) :
    Placed (s.flush warsaw env).1.worker :=
  OpLogWorker.flushLoop_invariant warsaw (fun w _ => Placed w) env.pass
    (fun n _ _ disk placed => placed_pass placed _ (env.pass n) disk) env.deadline 0 s.worker []
    s.disk placed

theorem step_placed (s : World) (event : Event) (placed : Placed s.worker) :
    Placed (s.step warsaw event).1.worker := by
  cases event with
  | writerTick env => exact placed_pass placed _ env s.disk
  | cleanupTick now deleted completed =>
    obtain ⟨timedOut, noted⟩ := (s.worker.cleanUp now).noteCleanupOutcome_eq completed
    unfold World.step World.cleanup
    dsimp only
    rw [noted]
    exact placed_of_files (placed_cleanUp placed now) fun _ _ => rfl
  | message env msg =>
    cases msg with
    | flush => exact placed_flush placed env.flush
    | getInfoAndFlush => exact placed_flush placed env.flush
    | logBundle bundle =>
      exact placed_logs (placed_of_files placed fun name key => World.file?_define_all ..)
        bundle.logs env.now
    | logDefinition d => exact placed_of_files placed (s.worker.file?_define d env.now)
    | log data => exact placed_log placed data env.now
    | _ => exact placed_of_files placed fun _ _ => rfl

end Worker

/-! ## Runs -/

section Runs
variable (warsaw) (path name key : String)

/-- A clean-up may delete the file. -/
def deletion : Event → List FileEvent
  | .cleanupTick _ deleted _ => if deleted path then [.delete] else []
  | _ => []

/-- What a step of the worker is in the life of the file. -/
def eventsOn (s : World) (e : Event) : List FileEvent :=
  (s.opsOn warsaw name key e).map event ++ deletion path e

/-- The `LogFile` and the content of the file. -/
def slot (s : World) : FileState := ⟨s.worker.file? name key, s.disk path⟩

variable {warsaw path name key}

theorem leads_flushed {s : World} (owns : Owns path name key s.worker) (env : OpLogWorker.FlushEnv) :
    Leads warsaw (slot path name key s)
      (s.worker.flushOps warsaw name key env.pass env.deadline 0 s.disk)
      (slot path name key (s.flush warsaw env).1) (attemptsOn name key (s.flush warsaw env).2) := by
  have passes := leads_flush warsaw owns env.pass env.deadline 0 s.disk
  unfold attemptsOn World.flush
  rw [List.flatMap_map]
  exact passes

variable (warsaw) in
/-- What a step does to the file, a deletion apart. -/
theorem leads_step (s : World) (e : Event) (owns : Owns path name key s.worker) :
    ∃ content, Leads warsaw (slot path name key s) (s.opsOn warsaw name key e)
        ⟨(s.step warsaw e).1.worker.file? name key, content⟩ (attemptsOn name key (s.step warsaw e).2) ∧
      Machine.run (FileState.step warsaw) ⟨(s.step warsaw e).1.worker.file? name key, content⟩
        (deletion path e) = (slot path name key (s.step warsaw e).1, []) := by
  have live : Machine.run (FileOp.step warsaw) (s.worker.file? name key)
      (s.opsOn warsaw name key e) = _ := World.run_opsOn s e
  cases e with
  | writerTick env =>
    have pass := leads_pass warsaw owns (·.flushInterval) env s.disk
    refine ⟨_, ?_, rfl⟩
    unfold slot World.opsOn World.step OpLogWorker.writeToFiles attemptsOn
    simpa only [List.flatMap_cons, List.flatMap_nil, List.append_nil] using pass
  | cleanupTick now deleted completed =>
    refine ⟨s.disk path, leads_quiet _ (by simp [World.opsOn]) live, ?_⟩
    unfold deletion slot World.step World.cleanup
    dsimp only
    split <;> rfl
  | message env msg =>
    cases msg with
    | flush => exact ⟨_, leads_flushed owns env.flush, rfl⟩
    | getInfoAndFlush =>
      refine ⟨_, ?_, rfl⟩
      have silent : attemptsOn name key [.info s.worker.info] = [] := rfl
      unfold World.step World.onMessage
      dsimp only
      rw [attemptsOn_append, silent, List.append_nil]
      exact leads_flushed owns env.flush
    | logBundle bundle =>
      refine ⟨s.disk path, ?_, rfl⟩
      unfold slot World.opsOn World.step World.onMessage OpLogWorker.processBundle
      dsimp only
      rw [World.attemptsOn_logs, ← World.file?_define_all bundle.definitions env.now s.worker]
      exact leads_logs bundle.logs env.now (s.disk path)
    | log data =>
      refine ⟨s.disk path, ?_, rfl⟩
      have one : Leads warsaw ⟨s.worker.file? name key, s.disk path⟩
          (s.worker.logsOps warsaw name key env.now [data]) _ [] :=
        leads_logs [data] env.now (s.disk path)
      unfold OpLogWorker.logsOps OpLogWorker.logsOps at one
      rwa [List.append_nil] at one
    | _ => exact ⟨s.disk path, leads_quiet _ (by simp [World.opsOn]) live, rfl⟩

/-- The frames written to a file are those of the attempts on it. -/
theorem framesOf_eq (outputs : List Output) :
    framesOf name key outputs = (attemptsOn name key outputs).filterMap Attempt.written := by
  induction outputs with
  | nil => rfl
  | cons out outputs ih =>
    unfold framesOf attemptsOn at *
    rw [List.flatMap_cons, List.flatMap_cons, List.filterMap_append, ih]
    cases out <;> rfl

theorem run_step (s : World) (e : Event) (owns : Owns path name key s.worker) :
    let own := Machine.run (FileState.step warsaw) (slot path name key s)
      (eventsOn warsaw path name key s e)
    own.1 = slot path name key (s.step warsaw e).1 ∧
      own.2.map FileWrite.written = framesOf name key (s.step warsaw e).2 := by
  intro own
  obtain ⟨content, leads, deleted⟩ := leads_step warsaw s e owns
  obtain ⟨state, frames⟩ := run_leads leads
  have whole : own = _ := Machine.run_append ..
  rw [whole, state, deleted, List.append_nil, frames, framesOf_eq]
  exact ⟨rfl, rfl⟩

/-- The worker keeps its files in place, and a step is a run of the file's life. -/
theorem kept_step (place : ∀ f, Located name key f → f.diskPath = path) (s : World) (e : Event)
    (alone : s.worker.OnlyAt path name key) (placed : Placed s.worker) :
    let own := Machine.run (FileState.step warsaw) (slot path name key s)
      (eventsOn warsaw path name key s e)
    Placed (s.step warsaw e).1.worker ∧ own.1 = slot path name key (s.step warsaw e).1 ∧
      own.2.map FileWrite.written = framesOf name key (s.step warsaw e).2 :=
  ⟨step_placed s e placed, run_step s e ⟨fun f live => place f (placed name key f live), alone⟩⟩

variable (warsaw path name key) in
/-- The life of the file in a run of the worker. -/
def life (disk : Disk) (events : List Event) : List FileEvent :=
  Machine.projected (World.step warsaw) (eventsOn warsaw path name key) ⟨.new, disk⟩ events

variable (warsaw path name key) in
/-- At every step of the run no other `LogFile` with entries is at the file's path. -/
def Alone (disk : Disk) (events : List Event) : Prop :=
  Machine.Allowed (World.step warsaw) (fun s _ => s.worker.OnlyAt path name key) ⟨.new, disk⟩ events

section Placed
variable {s : World} {events : List Event} (place : ∀ f, Located name key f → f.diskPath = path)
  (placed : Placed s.worker)
  (alone : Machine.Allowed (World.step warsaw) (fun s _ => s.worker.OnlyAt path name key) s events)

include place placed alone

/-- What holds of each event in the life of the file holds step by step of the run. -/
theorem allowed_own (guard : FileState → FileEvent → Prop) :
    Machine.Allowed (FileState.step warsaw) guard (slot path name key s)
        (Machine.projected (World.step warsaw) (eventsOn warsaw path name key) s events) ↔
      Machine.Allowed (World.step warsaw) (fun s e => Machine.Allowed (FileState.step warsaw) guard
        (slot path name key s) (eventsOn warsaw path name key s e)) s events :=
  Machine.allowed_projected (World.step warsaw) (eventsOn warsaw path name key) (slot path name key)
    (fun s => Placed s.worker)
    (fun s e alone placed => (kept_step place s e alone placed).imp id And.left) s placed events alone

/-- A file that no other `LogFile` with entries shares lives, while the worker runs, one life of
one file: its `LogFile` and its content are those the events of that life lead to, and the
frames written to it are the same. -/
theorem run_own :
    let final := Machine.run (World.step warsaw) s events
    let own := Machine.run (FileState.step warsaw) (slot path name key s)
      (Machine.projected (World.step warsaw) (eventsOn warsaw path name key) s events)
    own.1 = slot path name key final.1 ∧
      own.2.map FileWrite.written = framesOf name key final.2 := by
  refine Machine.run_simulated (World.step warsaw) (eventsOn warsaw path name key)
    (slot path name key) (fun s => Placed s.worker)
    (fun writes out => writes.map FileWrite.written = framesOf name key out) rfl ?_
    (kept_step place) s placed events alone
  intro writes out writes' out' same same'
  rw [List.map_append, same, same', framesOf_append]

end Placed

/-- The life of the file from the worker's start. -/
theorem allowed_life (guard : FileState → FileEvent → Prop) {disk : Disk} {events : List Event}
    (place : ∀ f, Located name key f → f.diskPath = path)
    (alone : Alone warsaw path name key disk events) :
    Machine.Allowed (FileState.step warsaw) guard (.start (disk path))
        (life warsaw path name key disk events) ↔
      Machine.Allowed (World.step warsaw) (fun s e => Machine.Allowed (FileState.step warsaw) guard
        (slot path name key s) (eventsOn warsaw path name key s e)) ⟨.new, disk⟩ events :=
  allowed_own place placed_new alone guard

theorem run_life (disk : Disk) (events : List Event)
    (place : ∀ f, Located name key f → f.diskPath = path)
    (alone : Alone warsaw path name key disk events) :
    let final := Machine.run (World.step warsaw) ⟨.new, disk⟩ events
    let own := Machine.run (FileState.step warsaw) (.start (disk path))
      (life warsaw path name key disk events)
    own.1 = slot path name key final.1 ∧
      own.2.map FileWrite.written = framesOf name key final.2 :=
  run_own place placed_new alone

end Runs
end Warsaw

end OpLog.Guarantees.OwnFile
