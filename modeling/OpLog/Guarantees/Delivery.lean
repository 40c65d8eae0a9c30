import Mathlib.Data.List.Forall2
import OpLog.Library.DropQueue
import OpLog.Library.Machine
import OpLog.Source.PerFile

/-!
# Every entry is written once, in order, or counted as dropped

The queue of every file refines a `DropQueue`: what a definition routed to the file is, in
order, what was dropped and delivered so far, what is dropped and not yet reported, and
what is still queued. Four mechanisms work on it: appends, the cap, frames that take a part
of the queue, and attempts that fail; clean-up and redefinition may forget the `LogFile` in
between, but only when it holds neither an entry nor a count.
-/
namespace OpLog.Guarantees.Delivery
open Library Source

/-- The entries routed to a file, in order. -/
def routed (name key : String) (outputs : List Output) : List String :=
  outputs.filterMap fun
    | .logged data (some r) => if data.logName = name ∧ r.key = key then some r.entry else none
    | _ => none

/-- The frames written to a file, in order. -/
def framesOf (name key : String) (outputs : List Output) : List Written :=
  outputs.flatMap fun
    | .pass attempts => (attempts.on name key).filterMap Attempt.written
    | _ => []

/-- The notice of a frame reports this many drops; none reports none. -/
def Reports (notice : Option String) (count : Nat) : Prop :=
  if count = 0 then notice = none
  else ∃ logType noDate date, notice = some (formatEntry logType noDate date (backlogText count))

/-- The passes that a step may make. -/
def Passes : Event → PassEnv → Prop
  | .writerTick env, pass => pass = env
  | .cleanupTick .., _ => False
  | .message env _, pass => ∃ n, pass = env.flush.pass n

/-- Those of a run. -/
def passesOf (events : List Event) (pass : PassEnv) : Prop := ∃ e ∈ events, Passes e pass

/-- The attempts of these passes on the file. -/
def attemptsOf (passes : PassEnv → Prop) (name key : String) (env : AttemptEnv) : Prop :=
  ∃ pass, passes pass ∧ env = pass.attempt name key

/-- The frame holds exactly the delivered entries, and its notice counts the dropped ones: it is
what `encode_frame` made of them in one of the attempts. -/
def Account (attempts : AttemptEnv → Prop) (d : Delivery String) (w : Written) : Prop :=
  d.delivered = w.entries ∧ Reports w.notice d.dropped.length ∧
    ∃ env rest, attempts env ∧ w.frame.consumed = w.entries.length ∧
      encodeFrame env.deflater env.rnd (w.entries ++ rest) w.header w.notice = .ok w.frame

/-- A file's queue and drop count as a `DropQueue`, next to what was routed and written. -/
structure Accounts (attempts : AttemptEnv → Prop) (live : Option LogFile) (routed : List String)
    (written : List Written) (q : DropQueue String) : Prop where
  entries : q.entries = routed
  frames : List.Forall₂ (Account attempts) q.history written
  queue : q.queue = live.elim [] (·.logs)
  dropped : q.dropped.length = live.elim 0 (·.droppedLogs)
  /-- a count not yet reported has a queued entry whose frame will carry it -/
  pending : ∀ f, live = some f → 0 < f.droppedLogs → f.logs ≠ []

def Ledger (attempts : AttemptEnv → Prop) (live : Option LogFile) (routed : List String)
    (written : List Written) : Prop :=
  ∃ q, Accounts attempts live routed written q

/-! ## One operation on one file -/

section File
variable {attempts : AttemptEnv → Prop} {live : Option LogFile} {past : List String}
  {written : List Written}

theorem ledger_start : Ledger attempts none [] [] :=
  ⟨.empty, rfl, .nil, rfl, rfl, by simp⟩

/-- What `get_log_file` returns has the queue and the count of the stored file. -/
theorem getLogFile_queue (d : LogDefinition) (live : Option LogFile) (logName path : String)
    (now : Instant) :
    (d.getLogFile live logName path now).logs = live.elim [] (·.logs) ∧
      (d.getLogFile live logName path now).droppedLogs = live.elim 0 (·.droppedLogs) := by
  cases live with
  | none => exact ⟨rfl, rfl⟩
  | some f =>
    rw [d.getLogFile_some]
    exact ⟨rfl, rfl⟩

theorem ledger_queue (d : LogDefinition) (r : Route) (now : Instant)
    (ledger : Ledger attempts live past written) :
    Ledger attempts (some ((d.getLogFile live r.logName r.path now).addToLog r.entry now))
      (past ++ [r.entry]) written := by
  obtain ⟨q, entries, frames, queue, dropped, -⟩ := ledger
  obtain ⟨n, bound, logs, count⟩ :=
    (d.getLogFile live r.logName r.path now).addToLog_spec r.entry now
  obtain ⟨stored, counted⟩ := getLogFile_queue d live r.logName r.path now
  rw [stored, ← queue] at bound logs
  rw [counted, ← dropped] at count
  refine ⟨(q.push r.entry).drop n, ?_, frames, logs.symm, ?_, ?_⟩
  · rw [DropQueue.entries_drop, DropQueue.entries_push, entries]
  · rw [Option.elim_some, count]
    simp only [DropQueue.drop, DropQueue.push, List.length_append, List.length_take,
      List.length_singleton]
    omega
  · intro f same _
    cases same
    exact LogFile.addToLog_ne_nil _ _ _

/-- What clean-up forgets holds neither an entry nor a count. -/
theorem accounts_cleanUp (now : Instant) {q : DropQueue String}
    (accounts : Accounts attempts live past written q) :
    Accounts attempts (live.filter (·.inUse now)) past written q := by
  cases live with
  | none => exact accounts
  | some f =>
    by_cases used : f.inUse now
    · rwa [Option.filter_some, if_pos used]
    · rw [Option.filter_some, if_neg used]
      obtain ⟨entries, frames, queue, dropped, pending⟩ := accounts
      have empty : f.logs = [] := by
        by_contra queued
        simp [LogFile.inUse, queued] at used
      have uncounted : f.droppedLogs = 0 := by
        by_contra counted
        exact pending f rfl (Nat.pos_of_ne_zero counted) empty
      exact ⟨entries, frames, queue.trans empty, dropped.trans uncounted, by simp⟩

theorem reports_backlog (warsaw : DateTimeUtc → LocalDateTime) (d : LogDefinition) (f : LogFile)
    (utcNow : DateTimeUtc) : Reports (d.backlogNotice warsaw f utcNow) f.droppedLogs := by
  unfold Reports LogDefinition.backlogNotice
  by_cases none_dropped : f.droppedLogs = 0
  · rw [if_pos none_dropped, if_neg (by omega)]
  · rw [if_neg none_dropped, if_pos (by omega)]
    exact ⟨_, _, _, rfl⟩

theorem ledger_attempt (warsaw : DateTimeUtc → LocalDateTime) {f : LogFile} (d : LogDefinition)
    (flushInterval : Duration) (env : AttemptEnv) (made : attempts env) (content : Option Bytes)
    (ledger : Ledger attempts (some f) past written) :
    Ledger attempts (some (d.writeOne warsaw flushInterval env f content).1) past
      (written ++ (d.writeOne warsaw flushInterval env f content).2.written.toList) := by
  obtain ⟨q, entries, frames, queue, dropped, pending⟩ := ledger
  rcases (writeOne_cases warsaw d flushInterval env f content).2 with
    ⟨none, logs, count, -⟩ | ⟨has, frame, due, encoded, one, logs, count⟩
  · rw [none, Option.toList_none, List.append_nil]
    refine ⟨q, entries, frames, queue.trans logs.symm, dropped.trans count.symm, ?_⟩
    intro f' same
    cases same
    rw [logs, count]
    exact pending f rfl
  · rw [one, Option.toList_some]
    obtain ⟨bound, -, -⟩ := encodeFrame_spec encoded
    refine ⟨q.deliver frame.consumed, by rw [DropQueue.entries_deliver, entries], ?_, ?_, ?_, ?_⟩
    · refine List.rel_append frames (.cons ?_ .nil)
      refine ⟨congrArg _ queue, ?_, env, f.logs.drop frame.consumed, made, ?_, ?_⟩
      · rw [dropped]
        exact reports_backlog warsaw d f env.utcNow
      · exact (List.length_take_of_le bound).symm
      · rw [List.take_append_drop]
        exact encoded
    · rw [Option.elim_some, logs]
      exact congrArg _ queue
    · exact count.symm
    · intro f' same counted
      cases same
      omega

end File

/-! ## The worker's operations -/

/-- The ledger of every file of every name. -/
def Balanced (passes : PassEnv → Prop) (w : OpLogWorker) (past : List Output) : Prop :=
  ∀ name key, Ledger (attemptsOf passes name key) (w.file? name key) (routed name key past)
    (framesOf name key past)

theorem routed_append (name key : String) (past out : List Output) :
    routed name key (past ++ out) = routed name key past ++ routed name key out :=
  List.filterMap_append

theorem framesOf_append (name key : String) (past out : List Output) :
    framesOf name key (past ++ out) = framesOf name key past ++ framesOf name key out :=
  List.flatMap_append

section Worker
variable {warsaw : DateTimeUtc → LocalDateTime} {passes : PassEnv → Prop} {w : OpLogWorker}
  {past : List Output}

/-- Frames of attempts are frames of more attempts. -/
theorem balanced_mono {passes' : PassEnv → Prop} (more : ∀ pass, passes pass → passes' pass)
    (balanced : Balanced passes w past) : Balanced passes' w past := by
  intro name key
  obtain ⟨q, accounts⟩ := balanced name key
  refine ⟨q, { accounts with frames := accounts.frames.imp ?_ }⟩
  intro d frame account
  obtain ⟨held, reported, env, rest, ⟨pass, made, same⟩, encoded⟩ := account
  exact ⟨held, reported, env, rest, ⟨pass, more pass made, same⟩, encoded⟩

/-- An operation that leaves every file as it is and puts nothing out. -/
theorem balanced_of_files {w' : OpLogWorker} (same : ∀ name key, w'.file? name key = w.file? name key)
    (balanced : Balanced passes w past) : Balanced passes w' past := by
  intro name key
  rw [same]
  exact balanced name key

theorem balanced_define_all (definitions : List OpLogDefinition) (now : Instant)
    (balanced : Balanced passes w past) :
    Balanced passes (definitions.foldl (fun w d => w.define d now) w) past := by
  induction definitions generalizing w with
  | nil => exact balanced
  | cons d definitions ih => exact ih (balanced_of_files (w.file?_define d now) balanced)

theorem balanced_cleanUp (now : Instant) (balanced : Balanced passes w past) :
    Balanced passes (w.cleanUp now) past := by
  intro name key
  obtain ⟨q, accounts⟩ := balanced name key
  rw [OpLogWorker.file?_cleanUp]
  exact ⟨q, accounts_cleanUp now accounts⟩

variable (warsaw) in
theorem balanced_processLog (data : OpLogData) (now : Instant) (balanced : Balanced passes w past) :
    Balanced passes (w.processLog warsaw data now).1 (past ++ (w.processLog warsaw data now).2) := by
  intro name key
  have before := balanced name key
  unfold OpLogWorker.processLog
  simp only [routed_append, framesOf_append]
  have unwritten : framesOf name key [.logged data (w.routeOf warsaw data)] = [] := rfl
  rw [unwritten, List.append_nil]
  cases routedTo : w.routeOf warsaw data with
  | none =>
    rw [OpLogWorker.log_unregistered warsaw now routedTo]
    simpa [routed] using before
  | some r =>
    obtain ⟨d, file⟩ := OpLogWorker.file?_log warsaw now routedTo name key
    rw [file]
    by_cases here : name = data.logName ∧ key = r.key
    · have mine : routed name key [.logged data (some r)] = [r.entry] := by
        simp [routed, here.1, here.2]
      rw [if_pos here, mine]
      exact ledger_queue d r now before
    · have other : routed name key [.logged data (some r)] = [] := by
        unfold routed
        simp only [List.filterMap_cons, List.filterMap_nil]
        rw [if_neg (fun h => here ⟨h.1.symm, h.2.symm⟩)]
      rw [if_neg here, other, List.append_nil]
      exact before

theorem balanced_processLogs (logs : List OpLogData) (now : Instant) (balanced : Balanced passes w past) :
    Balanced passes (w.processLogs warsaw now logs).1 (past ++ (w.processLogs warsaw now logs).2) := by
  induction logs generalizing w past with
  | nil => simpa [OpLogWorker.processLogs] using balanced
  | cons data logs ih =>
    have rest := ih (balanced_processLog warsaw data now balanced)
    rwa [List.append_assoc] at rest

variable (warsaw) in
theorem balanced_writePass (interval : LogDefinition → Duration) (env : PassEnv) (made : passes env)
    (disk : Disk) (balanced : Balanced passes w past) :
    Balanced passes (w.writePass warsaw interval env disk).1
      (past ++ [.pass (w.writePass warsaw interval env disk).2.2]) := by
  intro name key
  have before := balanced name key
  have visit := w.file?_writePass warsaw interval env disk name key
  have unrouted : routed name key [.pass (w.writePass warsaw interval env disk).2.2] = [] := rfl
  have one : framesOf name key [.pass (w.writePass warsaw interval env disk).2.2] =
      ((w.writePass warsaw interval env disk).2.2.on name key).filterMap Attempt.written := by
    simp [framesOf]
  rw [routed_append, framesOf_append, unrouted, List.append_nil, one]
  cases stored : w.file? name key with
  | none =>
    rw [stored] at visit before
    rw [visit.1, visit.2, List.filterMap_nil, List.append_nil]
    exact before
  | some f =>
    rw [stored] at visit before
    obtain ⟨d, content, -, -, file, attempts⟩ := visit
    have entry : [(d.writeOne warsaw (interval d) (env.attempt name key) f content).2].filterMap
        Attempt.written =
        (d.writeOne warsaw (interval d) (env.attempt name key) f content).2.written.toList := by
      cases h : (d.writeOne warsaw (interval d) (env.attempt name key) f content).2.written <;>
        simp [h]
    rw [file, attempts, entry]
    exact ledger_attempt warsaw d (interval d) (env.attempt name key) ⟨env, made, rfl⟩ content before

variable (warsaw) in
theorem balanced_flushLoop (env : Nat → PassEnv) (made : ∀ n, passes (env n)) (left n : Nat)
    (disk : Disk)
    (balanced : Balanced passes w past) :
    Balanced passes (OpLogWorker.flushLoop warsaw env left n w disk).1
      (past ++ (OpLogWorker.flushLoop warsaw env left n w disk).2.2.map .pass) :=
  OpLogWorker.flushLoop_invariant warsaw (Balanced passes) env
    (fun n _ _ disk balanced => balanced_writePass warsaw _ (env n) (made n) disk balanced) left n w
    past disk balanced

variable (warsaw) in
theorem balanced_flush {s : World} (env : OpLogWorker.FlushEnv) (made : ∀ n, passes (env.pass n))
    (balanced : Balanced passes s.worker past) :
    Balanced passes (s.flush warsaw env).1.worker (past ++ (s.flush warsaw env).2) :=
  balanced_flushLoop warsaw env.pass made env.deadline 0 s.disk balanced

/-- Nothing but entries and frames counts in the ledger. -/
theorem balanced_info (info : OpLogInfo) (balanced : Balanced passes w past) :
    Balanced passes w (past ++ [.info info]) := by
  intro name key
  rw [routed_append, framesOf_append]
  simpa [routed, framesOf] using balanced name key

theorem step_balanced (s : World) (event : Event) (past : List Output)
    (made : ∀ pass, Passes event pass → passes pass) (balanced : Balanced passes s.worker past) :
    Balanced passes (s.step warsaw event).1.worker (past ++ (s.step warsaw event).2) := by
  cases event with
  | writerTick env => exact balanced_writePass warsaw _ env (made env rfl) s.disk balanced
  | cleanupTick now deleted completed =>
    unfold World.step
    rw [List.append_nil]
    refine balanced_of_files (fun name key => ?_) (balanced_cleanUp now balanced)
    obtain ⟨timedOut, noted⟩ := (s.worker.cleanUp now).noteCleanupOutcome_eq completed
    unfold World.cleanup
    dsimp only
    rw [noted]
    rfl
  | message env msg =>
    have flushed (n : Nat) : passes (env.flush.pass n) := made _ ⟨n, rfl⟩
    cases msg with
    | stopService => simpa [World.step, World.onMessage] using balanced
    | flush => exact balanced_flush warsaw env.flush flushed balanced
    | getInfoAndFlush =>
      have informed := balanced_info s.worker.info (balanced_flush warsaw env.flush flushed balanced)
      rwa [List.append_assoc] at informed
    | logBundle bundle =>
      exact balanced_processLogs bundle.logs env.now
        (balanced_define_all bundle.definitions env.now balanced)
    | logDefinition d =>
      unfold World.step World.onMessage
      rw [List.append_nil]
      exact balanced_of_files (s.worker.file?_define d env.now) balanced
    | log data => exact balanced_processLog warsaw data env.now balanced
    | cleanUpRemoveAllDefinitions =>
      unfold World.step World.onMessage
      rw [List.append_nil]
      exact balanced_of_files (fun _ _ => rfl) balanced
    | cleanUpDefinition d =>
      unfold World.step World.onMessage
      rw [List.append_nil]
      exact balanced_of_files (fun _ _ => rfl) balanced
    | cleanUpBundle bundle =>
      unfold World.step World.onMessage
      rw [List.append_nil]
      exact balanced_of_files (fun _ _ => rfl) balanced

variable (warsaw) in
/-- The ledger along a whole run. -/
theorem run_balanced (disk : Disk) (events : List Event) :
    let final := Machine.run (World.step warsaw) ⟨.new, disk⟩ events
    Balanced (passesOf events) final.1.worker final.2 := by
  have start : Balanced (passesOf events) OpLogWorker.new [] := fun _ _ => ledger_start
  refine Machine.run_invariant (fun s past => Balanced (passesOf events) s.worker past)
    (fun s event past made balanced => step_balanced s event past made balanced)
    ⟨.new, disk⟩ [] start events ?_
  exact Machine.allowed_of_forall _ _ fun e member _ pass made => ⟨e, member, made⟩

end Worker

/-- In every run and for every file of every name: what was routed to the file is, in
order, what each frame reports as dropped and what it holds, frame after frame, then what
is counted but not yet reported, then the queue. Each frame is what an attempt of the run on
that file encoded. Clean-up at any time leaves this so. -/
theorem delivery_is_accounted (warsaw : DateTimeUtc → LocalDateTime) (disk : Disk)
    (events : List Event) (name key : String) :
    let final := Machine.run (World.step warsaw) ⟨.new, disk⟩ events
    let attempts := attemptsOf (passesOf events) name key
    ∃ q : DropQueue String,
      Accounts attempts (final.1.worker.file? name key) (routed name key final.2)
        (framesOf name key final.2) q ∧
      ∀ now, Accounts attempts ((final.1.worker.cleanUp now).file? name key) (routed name key final.2)
        (framesOf name key final.2) q := by
  intro final attempts
  obtain ⟨q, accounts⟩ := run_balanced warsaw disk events name key
  refine ⟨q, accounts, fun now => ?_⟩
  rw [OpLogWorker.file?_cleanUp]
  exact accounts_cleanUp now accounts

end OpLog.Guarantees.Delivery
