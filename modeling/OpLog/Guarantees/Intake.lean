import OpLog.Guarantees.Shutdown
import OpLog.Source.PerFile
import OpLog.Source.RunLoop

/-!
# Does the loop get to its messages?

The clocked loop is one of the runs of the untimed one. As long as its passes are shorter than
the writer's period, of any four rounds one receives a message, if there is one. Where every
pass takes a period or more, the next tick is always there first: nothing is received any more,
a stop included. A volume that hangs is enough for that, since an attempt on it takes fifteen
seconds.
-/
namespace OpLog.Guarantees.Intake
open Library Source

/-! ## The untimed run -/

section Untimed
variable (warsaw : DateTimeUtc → LocalDateTime) {slack : Nat} (writer : Ticker WRITER_PERIOD slack)
  (cleanup : Ticker CLEANUP_PERIOD slack)

/-- The step of the untimed system, if the event is one. -/
def untimedStep (s : RunLoop) : LoopEvent → Option ShutdownEvent
  | .round env =>
    if s.system.shared.task = .running then (s.select env.now).map (Branch.event env) else none
  | .lastFlush env => some (.lastFlush env)
  | .poll call => some (.poll call)
  | .drop call => some (.drop call)
  | .other msg => some (.other msg)

/-- What the worker puts out. -/
def outs (history : List LoopOutput) : List Output :=
  history.filterMap fun
    | .ran _ => none
    | .out output => some output

/-- The messages received, in order. -/
def received (history : List LoopOutput) : List OpLogMessage :=
  history.filterMap fun
    | .ran (.recv msg) => some msg
    | _ => none

theorem outs_out (output : List Output) : outs (output.map .out) = output := by
  induction output with
  | nil => rfl
  | cons o rest ih => exact congrArg (o :: ·) ih

theorem received_out (output : List Output) : received (output.map .out) = [] := by
  induction output with
  | nil => rfl
  | cons o rest ih => exact ih

theorem received_append (past more : List LoopOutput) :
    received (past ++ more) = received past ++ received more := List.filterMap_append

/-- A round that runs a branch. -/
theorem step_ran {s : RunLoop} {env : RoundEnv} {branch : Branch}
    (running : s.system.shared.task = .running) (selected : s.select env.now = some branch) :
    s.step warsaw writer cleanup (.round env) = s.ran warsaw writer cleanup env branch := by
  simp only [RunLoop.step, running, if_true, selected]

/-- A round that finds no branch ready. -/
theorem step_idle {s : RunLoop} {env : RoundEnv} (running : s.system.shared.task = .running)
    (nothing : s.select env.now = none) :
    s.step warsaw writer cleanup (.round env) = ({ s with lastRound := none }, []) := by
  simp only [RunLoop.step, running, if_true, nothing]

/-- There are no rounds once the loop is left. -/
theorem step_over {s : RunLoop} {env : RoundEnv} (ended : s.system.shared.task ≠ .running) :
    s.step warsaw writer cleanup (.round env) = (s, []) := by
  simp only [RunLoop.step]
  rw [if_neg ended]

theorem step_untimed (s : RunLoop) (event : LoopEvent) :
    Machine.run (ShuttingDown.step warsaw) s.system (untimedStep s event).toList =
      ((s.step warsaw writer cleanup event).1.system, outs (s.step warsaw writer cleanup event).2) := by
  have one (event : ShutdownEvent) : Machine.run (ShuttingDown.step warsaw) s.system [event] =
      ((s.outside warsaw event).1.system, outs (s.outside warsaw event).2) := by
    rw [Machine.run_cons, Machine.run_nil, List.append_nil]
    exact congrArg (Prod.mk _) (outs_out _).symm
  cases event with
  | round env =>
    by_cases running : s.system.shared.task = .running
    · cases selected : s.select env.now with
      | none =>
        rw [step_idle warsaw writer cleanup running selected, untimedStep, if_pos running, selected]
        rfl
      | some branch =>
        rw [step_ran warsaw writer cleanup running selected, untimedStep, if_pos running, selected]
        exact one (branch.event env)
    · rw [step_over warsaw writer cleanup running, untimedStep, if_neg running]
      rfl
  | lastFlush env => exact one (.lastFlush env)
  | poll call => exact one (.poll call)
  | drop call => exact one (.drop call)
  | other msg => exact one (.other msg)

/-- The task of a clocked loop that has ended has been through a whole `run` with some schedule,
so that what holds for every schedule holds for the clocked loop. -/
theorem clocked_loop_is_run (disk : Disk) (n : Nat) (now : Instant) (events : List LoopEvent)
    (finished : (Machine.run (RunLoop.step warsaw writer cleanup)
      (.start disk n now) events).1.system.shared.task = .finished) :
    ∃ schedule lastFlush channel r, run warsaw schedule lastFlush ⟨.new, disk⟩ channel = some r ∧
      r.final = (Machine.run (RunLoop.step warsaw writer cleanup)
        (.start disk n now) events).1.system.shared.world ∧
      r.outputs ++ r.lastFlush.map .pass =
        outs (Machine.run (RunLoop.step warsaw writer cleanup) (.start disk n now) events).2 := by
  have untimed := Machine.run_projected (RunLoop.step warsaw writer cleanup)
    (fun s event => (untimedStep s event).toList) RunLoop.system outs rfl
    (fun _ _ => List.filterMap_append) (step_untimed warsaw writer cleanup) (.start disk n now) events
  have whole := Shutdown.finished_is_run warsaw disk n (Machine.projected
    (RunLoop.step warsaw writer cleanup) (fun s event => (untimedStep s event).toList)
    (.start disk n now) events)
  rw [show ShuttingDown.start disk n = (RunLoop.start disk n now).system from rfl, untimed] at whole
  exact whole finished

end Untimed

/-- tokio's interval with `MissedTickBehavior::Delay`: a tick taken more than five milliseconds
late puts the next one off. -/
def delayed (period : Duration) : Ticker period (Duration.fromMillis 5) where
  next due now := if due + Duration.fromMillis 5 < now then now + period else due + period
  late := by
    intro due now taken
    split
    · exact Nat.le_refl _
    · exact Nat.add_le_add_right taken period
  apart := by
    intro due now taken
    split
    · exact Nat.le_add_right _ _
    · rename_i early
      have soon := Nat.add_le_add_right (Nat.le_of_not_lt early) period
      rw [Nat.add_right_comm] at soon
      exact soon

def flushEnv : OpLogWorker.FlushEnv := ⟨fun _ => passEnv (storedEnv allDone), 3⟩

def roundAt (millis : Nat) : LoopEvent :=
  .round ⟨Duration.fromMillis millis, passEnv (storedEnv allDone), fun _ => false, true, ⟨0, flushEnv⟩⟩

/-- A stop is sent, and comes behind the first ticks of the two intervals. -/
def stopSent : List LoopEvent :=
  [.poll 0, .poll 0, .poll 0, roundAt 0, roundAt 0, roundAt 0, .lastFlush flushEnv]

theorem clocked_loop_is_run_stopped :
    ∃ schedule lastFlush channel r, run warsawAtEpoch schedule lastFlush ⟨.new, fun _ => none⟩ channel =
        some r ∧
      r.final = (Machine.run (RunLoop.step warsawAtEpoch (delayed _) (delayed _))
        (.start (fun _ => none) 1 0) stopSent).1.system.shared.world ∧
      r.outputs ++ r.lastFlush.map .pass = outs (Machine.run
        (RunLoop.step warsawAtEpoch (delayed _) (delayed _)) (.start (fun _ => none) 1 0) stopSent).2 :=
  clocked_loop_is_run warsawAtEpoch (delayed _) (delayed _) (fun _ => none) 1 0 stopSent
    (by decide +kernel)

/-! ## First in, first out -/

abbrev queueOf (s : RunLoop) : List OpLogMessage := s.system.shared.inner.tx.queue

abbrev Running (s : RunLoop) : Prop := s.system.shared.task = .running

section Queue
variable (warsaw : DateTimeUtc → LocalDateTime)

/-- What happens outside the loop while it runs: messages come in at the end of the queue. -/
theorem outside_running {s : RunLoop} {event : ShutdownEvent}
    (outside : (∃ i, event = .poll i) ∨ (∃ i, event = .drop i) ∨ (∃ msg, event = .other msg) ∨
      ∃ env, event = .lastFlush env)
    (running : Running (s.outside warsaw event).1) :
    Running s ∧ s.system.shared.world = (s.outside warsaw event).1.system.shared.world ∧
      (s.outside warsaw event).2 = [] ∧
      ∃ more, queueOf (s.outside warsaw event).1 = queueOf s ++ more := by
  unfold RunLoop.outside at running ⊢
  rcases outside with ⟨i, rfl⟩ | ⟨i, rfl⟩ | ⟨msg, rfl⟩ | ⟨env, rfl⟩
  · simp only [ShuttingDown.step] at running ⊢
    cases there : s.system.threads[i]? with
    | none =>
      rw [Threads.advance_none there] at running ⊢
      exact ⟨running, rfl, rfl, [], (List.append_nil _).symm⟩
    | some call =>
      obtain ⟨task, world, silent, -⟩ := Shutdown.poll_frame s.system.shared call
      obtain ⟨more, -, queue, -⟩ := Shutdown.poll_channel s.system.shared call
      rw [Threads.advance_some there] at running ⊢
      rw [silent]
      exact ⟨task.symm.trans running, world.symm, rfl, more, queue⟩
  · simp only [ShuttingDown.step] at running ⊢
    cases there : s.system.threads[i]? with
    | none =>
      rw [Threads.advance_none there] at running ⊢
      exact ⟨running, rfl, rfl, [], (List.append_nil _).symm⟩
    | some call =>
      obtain ⟨task, world, silent⟩ := Shutdown.drop_frame s.system.shared call
      rw [Threads.advance_some there] at running ⊢
      rw [silent]
      refine ⟨task.symm.trans running, world.symm, rfl, [], ?_⟩
      rw [List.append_nil]
      exact (Shutdown.drop_channel s.system.shared call).1
  · refine ⟨running, rfl, rfl, ?_⟩
    simp only [ShuttingDown.step, Channel.trySend]
    split
    · exact ⟨[msg], rfl⟩
    · exact ⟨[], (List.append_nil _).symm⟩
  · simp only [ShuttingDown.step, Service.lastFlush] at running ⊢
    split at running
    · cases running
    · rename_i going
      rw [if_neg going]
      exact ⟨running, rfl, rfl, [], (List.append_nil _).symm⟩

variable {slack : Nat} (writer : Ticker WRITER_PERIOD slack) (cleanup : Ticker CLEANUP_PERIOD slack)

/-- What one event of a running loop does to the messages and the clocks, if the loop still
runs behind it. -/
inductive LoopStep (s : RunLoop) : LoopEvent → RunLoop → List LoopOutput → Prop where
  | outside (event : LoopEvent) (notRound : ∀ env, event ≠ .round env) (s' : RunLoop)
      (more : List OpLogMessage) (queue : queueOf s' = queueOf s ++ more)
      (world : s'.system.shared.world = s.system.shared.world)
      (clocks : s'.writerDue = s.writerDue ∧ s'.cleanupDue = s.cleanupDue ∧
        s'.lastRound = s.lastRound) : LoopStep s event s' []
  | idle (env : RoundEnv) (nothing : s.select env.now = none) : 
      LoopStep s (.round env) { s with lastRound := none } []
  | writerTick (env : RoundEnv) (due : s.writerDue ≤ env.now) (s' : RunLoop)
      (queue : queueOf s' = queueOf s) (writerDue : s'.writerDue = writer.next s.writerDue env.now)
      (cleanupDue : s'.cleanupDue = s.cleanupDue)
      (lastRound : s'.lastRound =
        some ⟨.writerTick, env.now, s.system.shared.world.worker.hangs env.pass⟩)
      (output : List Output)
      (ran : s.system.shared.world.step warsaw (.writerTick env.pass) =
        (s'.system.shared.world, output)) :
      LoopStep s (.round env) s' (.ran .writerTick :: output.map .out)
  | cleanupTick (env : RoundEnv) (notDue : env.now < s.writerDue) (due : s.cleanupDue ≤ env.now)
      (s' : RunLoop) (queue : queueOf s' = queueOf s) (writerDue : s'.writerDue = s.writerDue)
      (cleanupDue : s'.cleanupDue = cleanup.next s.cleanupDue env.now)
      (lastRound : s'.lastRound = some ⟨.cleanupTick, env.now, false⟩)
      (output : List Output)
      (ran : s.system.shared.world.step warsaw (.cleanupTick env.now env.deleted env.completed) =
        (s'.system.shared.world, output)) :
      LoopStep s (.round env) s' (.ran .cleanupTick :: output.map .out)
  | recv (env : RoundEnv) (msg : OpLogMessage) (going : msg ≠ .stopService)
      (notDue : env.now < s.writerDue ∧ env.now < s.cleanupDue) (s' : RunLoop)
      (queue : queueOf s = msg :: queueOf s') (writerDue : s'.writerDue = s.writerDue)
      (cleanupDue : s'.cleanupDue = s.cleanupDue)
      (lastRound : s'.lastRound = some ⟨.recv msg, env.now, false⟩)
      (output : List Output)
      (ran : s.system.shared.world.step warsaw (.message env.message msg) =
        (s'.system.shared.world, output)) :
      LoopStep s (.round env) s' (.ran (.recv msg) :: output.map .out)

theorem step_effect {s : RunLoop} {event : LoopEvent}
    (running : Running (s.step warsaw writer cleanup event).1) :
    Running s ∧ LoopStep warsaw writer cleanup s event (s.step warsaw writer cleanup event).1
      (s.step warsaw writer cleanup event).2 := by
  have outside {event : LoopEvent} {step : ShutdownEvent} (notRound : ∀ env, event ≠ .round env)
      (isOutside : (∃ i, step = .poll i) ∨ (∃ i, step = .drop i) ∨ (∃ msg, step = .other msg) ∨
        ∃ env, step = .lastFlush env)
      (running : Running (s.outside warsaw step).1) :
      Running s ∧ LoopStep warsaw writer cleanup s event (s.outside warsaw step).1
        (s.outside warsaw step).2 := by
    obtain ⟨before, world, silent, more, queue⟩ := outside_running warsaw isOutside running
    rw [silent]
    exact ⟨before, .outside event notRound _ more queue world.symm ⟨rfl, rfl, rfl⟩⟩
  cases event with
  | round env =>
    by_cases before : Running s
    · refine ⟨before, ?_⟩
      cases selected : s.select env.now with
      | none =>
        rw [step_idle warsaw writer cleanup before selected]
        exact .idle env selected
      | some branch =>
        rw [step_ran warsaw writer cleanup before selected] at running ⊢
        unfold RunLoop.select at selected
        split at selected
        · rename_i due
          cases selected
          refine LoopStep.writerTick env due (s.ran warsaw writer cleanup env .writerTick).1 ?_
            rfl rfl rfl (s.system.step warsaw (Branch.event env .writerTick)).2 ?_
          · simp only [RunLoop.ran, Branch.event, ShuttingDown.step, Service.tick, before, if_true]
          · simp only [RunLoop.ran, Branch.event, ShuttingDown.step, Service.tick, before, if_true]
        · rename_i notDue
          split at selected
          · rename_i due
            cases selected
            refine LoopStep.cleanupTick env (Nat.lt_of_not_le notDue) due
              (s.ran warsaw writer cleanup env .cleanupTick).1 ?_ rfl rfl rfl
              (s.system.step warsaw (Branch.event env .cleanupTick)).2 ?_
            · simp only [RunLoop.ran, Branch.event, ShuttingDown.step, Service.tick, before, if_true]
            · simp only [RunLoop.ran, Branch.event, ShuttingDown.step, Service.tick, before, if_true]
          · rename_i notDue'
            obtain ⟨msg, head, rfl⟩ := Option.map_eq_some_iff.mp selected
            obtain ⟨rest, queue⟩ := List.head?_eq_some_iff.mp head
            have taken : s.system.shared.inner.tx.recv =
                some (msg, { s.system.shared.inner.tx with queue := rest }) := by
              unfold Channel.recv
              rw [queue]
            have going : msg ≠ .stopService := by
              rintro rfl
              simp only [Running, RunLoop.ran, Branch.event, ShuttingDown.step, Service.recv, before,
                if_true, taken] at running
              cases running
            have received : s.system.shared.recv warsaw env.message =
                ({ s.system.shared with
                    inner.tx := { s.system.shared.inner.tx with queue := rest }
                    world := (s.system.shared.world.step warsaw (.message env.message msg)).1 },
                  (s.system.shared.world.step warsaw (.message env.message msg)).2) := by
              unfold Service.recv
              rw [if_pos before, taken]
              cases msg <;> first | rfl | exact absurd rfl going
            refine LoopStep.recv env msg going ⟨Nat.lt_of_not_le notDue, Nat.lt_of_not_le notDue'⟩
              (s.ran warsaw writer cleanup env (.recv msg)).1 ?_ rfl rfl rfl
              (s.system.step warsaw (Branch.event env (.recv msg))).2 ?_
            · simp only [RunLoop.ran, Branch.event, ShuttingDown.step, received]
              exact queue
            · simp only [RunLoop.ran, Branch.event, ShuttingDown.step, received]
    · rw [step_over warsaw writer cleanup before] at running
      exact absurd running before
  | lastFlush env =>
    exact outside (fun _ same => by cases same) (Or.inr (Or.inr (Or.inr ⟨env, rfl⟩))) running
  | poll call => exact outside (fun _ same => by cases same) (Or.inl ⟨call, rfl⟩) running
  | drop call => exact outside (fun _ same => by cases same) (Or.inr (Or.inl ⟨call, rfl⟩)) running
  | other msg =>
    exact outside (fun _ same => by cases same) (Or.inr (Or.inr (Or.inl ⟨msg, rfl⟩))) running

/-- The messages of a running loop: those received so far, and those in the queue, are those
that were in the queue at first and some that came in later, in order. None was a stop. -/
def Fifo (first : List OpLogMessage) (s : RunLoop) (past : List LoopOutput) : Prop :=
  Running s → .stopService ∉ received past ∧
    ∃ later, received past ++ queueOf s = first ++ later

theorem step_fifo (first : List OpLogMessage) (s : RunLoop) (event : LoopEvent)
    (past : List LoopOutput) (fifo : Fifo first s past) :
    Fifo first (s.step warsaw writer cleanup event).1
      (past ++ (s.step warsaw writer cleanup event).2) := by
  intro running
  obtain ⟨before, taken⟩ := step_effect warsaw writer cleanup running
  obtain ⟨going, later, order⟩ := fifo before
  rw [received_append]
  generalize (s.step warsaw writer cleanup event).1 = s',
    (s.step warsaw writer cleanup event).2 = out at taken
  cases taken with
  | outside event notRound s' more queue =>
    rw [show received [] = [] from rfl, List.append_nil, queue, ← List.append_assoc, order,
      List.append_assoc]
    exact ⟨going, _, rfl⟩
  | idle env nothing =>
    rw [show received [] = [] from rfl, List.append_nil]
    exact ⟨going, later, order⟩
  | writerTick env due s' queue writerDue cleanupDue lastRound output ran =>
    rw [show received (.ran .writerTick :: output.map .out) = received (output.map .out) from rfl,
      received_out, List.append_nil, queue]
    exact ⟨going, later, order⟩
  | cleanupTick env notDue due s' queue writerDue cleanupDue lastRound output ran =>
    rw [show received (.ran .cleanupTick :: output.map .out) = received (output.map .out) from rfl,
      received_out, List.append_nil, queue]
    exact ⟨going, later, order⟩
  | recv env msg notStop notDue s' queue writerDue cleanupDue lastRound output ran =>
    rw [show received (.ran (.recv msg) :: output.map .out) = msg :: received (output.map .out)
      from rfl, received_out]
    constructor
    · intro member
      rcases List.mem_append.mp member with earlier | last
      · exact going earlier
      · exact notStop (List.mem_singleton.mp last).symm
    · refine ⟨later, ?_⟩
      rw [List.append_assoc, List.singleton_append, ← queue]
      exact order

/-- A loop that is left has received a stop, and nothing out of order before it. -/
def Left (first : List OpLogMessage) (s : RunLoop) (past : List LoopOutput) : Prop :=
  ¬ Running s → .stopService ∈ received past ∧ ∃ later, received past <+: first ++ later

/-- Behind its end a loop receives nothing. -/
theorem received_over {s : RunLoop} (event : LoopEvent) (ended : ¬ Running s) :
    received (s.step warsaw writer cleanup event).2 = [] := by
  cases event with
  | round env =>
    rw [step_over warsaw writer cleanup ended]
    rfl
  | _ => exact received_out _

/-- A loop whose rounds all find the writer's tick due goes on. -/
theorem stays_running {s : RunLoop} {event : LoopEvent} (running : Running s)
    (due : ∀ env, event = .round env → s.writerDue ≤ env.now) :
    Running (s.step warsaw writer cleanup event).1 := by
  cases event with
  | round env =>
    have selected : s.select env.now = some .writerTick := if_pos (due env rfl)
    rw [step_ran warsaw writer cleanup running selected]
    simp only [Running, RunLoop.ran, Branch.event, ShuttingDown.step, Service.tick, running, if_true]
  | lastFlush env =>
    simp only [Running, RunLoop.step, RunLoop.outside, ShuttingDown.step, Service.lastFlush, running,
      reduceCtorEq, if_false]
  | poll call =>
    simp only [Running, RunLoop.step, RunLoop.outside, ShuttingDown.step]
    cases there : s.system.threads[call]? with
    | none => rw [Threads.advance_none there, running]
    | some thread => rw [Threads.advance_some there, (Shutdown.poll_frame _ _).1, running]
  | drop call =>
    simp only [Running, RunLoop.step, RunLoop.outside, ShuttingDown.step]
    cases there : s.system.threads[call]? with
    | none => rw [Threads.advance_none there, running]
    | some thread => rw [Threads.advance_some there, Shutdown.drop_task, running]
  | other msg => exact running

/-- A step that leaves the loop receives a stop. -/
theorem step_leaving {s : RunLoop} {event : LoopEvent} (running : Running s)
    (ended : ¬ Running (s.step warsaw writer cleanup event).1) :
    ∃ rest, queueOf s = .stopService :: rest ∧
      received (s.step warsaw writer cleanup event).2 = [.stopService] := by
  cases event with
  | round env =>
    cases selected : s.select env.now with
    | none =>
      rw [step_idle warsaw writer cleanup running selected] at ended
      exact absurd running ended
    | some branch =>
      rw [step_ran warsaw writer cleanup running selected] at ended ⊢
      cases branch with
      | writerTick =>
        simp [Running, RunLoop.ran, Branch.event, ShuttingDown.step, Service.tick, running] at ended
      | cleanupTick =>
        simp [Running, RunLoop.ran, Branch.event, ShuttingDown.step, Service.tick, running] at ended
      | recv msg =>
        have head : (queueOf s).head? = some msg := by
          unfold RunLoop.select at selected
          split at selected
          · cases selected
          · split at selected
            · cases selected
            · obtain ⟨_, head, same⟩ := Option.map_eq_some_iff.mp selected
              cases same
              exact head
        obtain ⟨rest, queue⟩ := List.head?_eq_some_iff.mp head
        have isStop : msg = .stopService := by
          by_contra going
          apply ended
          have taken : s.system.shared.inner.tx.recv =
              some (msg, { s.system.shared.inner.tx with queue := rest }) := by
            unfold Channel.recv
            rw [show s.system.shared.inner.tx.queue = _ from queue]
          simp only [Running, RunLoop.ran, Branch.event, ShuttingDown.step, Service.recv,
            if_pos running, taken]
          cases msg <;> exact running
        subst isStop
        exact ⟨rest, queue, congrArg (OpLogMessage.stopService :: ·) (received_out _)⟩
  | _ => exact absurd (stays_running warsaw writer cleanup running fun _ same => by cases same) ended

theorem step_left (first : List OpLogMessage) (s : RunLoop) (event : LoopEvent)
    (past : List LoopOutput) (fifo : Fifo first s past) (left : Left first s past) :
    Left first (s.step warsaw writer cleanup event).1
      (past ++ (s.step warsaw writer cleanup event).2) := by
  intro ended
  rw [received_append]
  by_cases running : Running s
  · obtain ⟨rest, queue, last⟩ := step_leaving warsaw writer cleanup running ended
    obtain ⟨-, later, order⟩ := fifo running
    refine ⟨by simp [last], later, ?_⟩
    rw [last, ← order, queue]
    exact ⟨rest, by simp⟩
  · rw [received_over warsaw writer cleanup event running, List.append_nil]
    exact left running

end Queue

/-! ## Short rounds -/

section Short
variable (warsaw : DateTimeUtc → LocalDateTime) {slack : Nat} (writer : Ticker WRITER_PERIOD slack)
  (cleanup : Ticker CLEANUP_PERIOD slack)

/-- The next tick of a branch that ran last is a period away from it, but for the slack. -/
structure Clocked (slack : Nat) (s : RunLoop) : Prop where
  writer : ∀ r, s.lastRound = some r → r.branch = .writerTick →
    r.start + WRITER_PERIOD ≤ s.writerDue + slack ∧ s.writerDue ≤ r.start + WRITER_PERIOD
  cleanup : ∀ r, s.lastRound = some r → r.branch = .cleanupTick →
    r.start + CLEANUP_PERIOD ≤ s.cleanupDue + slack

theorem step_clocked (s : RunLoop) (event : LoopEvent) (clocked : Clocked slack s) :
    Running (s.step warsaw writer cleanup event).1 →
      Clocked slack (s.step warsaw writer cleanup event).1 := by
  intro running
  obtain ⟨-, taken⟩ := step_effect warsaw writer cleanup running
  generalize (s.step warsaw writer cleanup event).1 = s',
    (s.step warsaw writer cleanup event).2 = out at taken
  cases taken with
  | outside event notRound s' more queue world clocks =>
    obtain ⟨writerDue, cleanupDue, lastRound⟩ := clocks
    constructor
    · rw [writerDue, lastRound]
      exact clocked.writer
    · rw [cleanupDue, lastRound]
      exact clocked.cleanup
  | idle env nothing =>
    constructor
    · intro r last
      cases last
    · intro r last
      cases last
  | writerTick env due s' queue writerDue cleanupDue lastRound output ran =>
    constructor
    · intro r last _
      rw [lastRound] at last
      rw [← Option.some.inj last, writerDue]
      exact ⟨writer.apart _ _ due, writer.late _ _ due⟩
    · intro r last branch
      rw [lastRound] at last
      rw [← Option.some.inj last] at branch
      cases branch
  | cleanupTick env notDue due s' queue writerDue cleanupDue lastRound output ran =>
    constructor
    · intro r last branch
      rw [lastRound] at last
      rw [← Option.some.inj last] at branch
      cases branch
    · intro r last _
      rw [lastRound] at last
      rw [← Option.some.inj last, cleanupDue]
      exact cleanup.apart _ _ due
  | recv env msg notStop notDue s' queue writerDue cleanupDue lastRound output ran =>
    constructor
    · intro r last branch
      rw [lastRound] at last
      rw [← Option.some.inj last] at branch
      cases branch
    · intro r last branch
      rw [lastRound] at last
      rw [← Option.some.inj last] at branch
      cases branch

/-- The next round comes at most this long after a pass, or after a clean-up, was begun. -/
def Prompt (pass cleaning : Duration) (s : RunLoop) : LoopEvent → Prop
  | .round env => ∀ r, s.lastRound = some r → r.start ≤ env.now ∧
      (r.branch = .writerTick → env.now ≤ r.start + pass) ∧
      (r.branch = .cleanupTick → env.now ≤ r.start + cleaning)
  | _ => True

instance (pass cleaning : Duration) (s : RunLoop) :
    ∀ event, Decidable (Prompt pass cleaning s event)
  | .round env => inferInstanceAs (Decidable (∀ r ∈ s.lastRound, r.start ≤ env.now ∧
      (r.branch = .writerTick → env.now ≤ r.start + pass) ∧
      (r.branch = .cleanupTick → env.now ≤ r.start + cleaning)))
  | .lastFlush _ | .poll _ | .drop _ | .other _ => isTrue trivial

/-- How many rounds there may be before one that receives, that one included. -/
def patience (pass : Duration) (s : RunLoop) : Nat :=
  match s.lastRound with
  | some ⟨.writerTick, start, _⟩ => if start + pass < s.cleanupDue then 1 else 3
  | some ⟨.cleanupTick, _, _⟩ => 2
  | _ => 4

theorem patience_none {pass : Duration} {s : RunLoop} (last : s.lastRound = none) :
    patience pass s = 4 := by
  unfold patience
  rw [last]

theorem patience_writer {pass : Duration} {s : RunLoop} {start : Instant} {hung : Bool}
    (last : s.lastRound = some ⟨.writerTick, start, hung⟩) :
    patience pass s = if start + pass < s.cleanupDue then 1 else 3 := by
  unfold patience
  rw [last]

theorem patience_cleanup {pass : Duration} {s : RunLoop} {start : Instant} {hung : Bool}
    (last : s.lastRound = some ⟨.cleanupTick, start, hung⟩) : patience pass s = 2 := by
  unfold patience
  rw [last]

theorem patience_recv {pass : Duration} {s : RunLoop} {msg : OpLogMessage} {start : Instant}
    {hung : Bool} (last : s.lastRound = some ⟨.recv msg, start, hung⟩) : patience pass s = 4 := by
  unfold patience
  rw [last]

theorem patience_pos (pass : Duration) (s : RunLoop) : 0 < patience pass s ∧ patience pass s ≤ 4 := by
  unfold patience
  split
  · split <;> omega
  · omega
  · omega

def isRound : LoopEvent → Bool
  | .round _ => true
  | _ => false

/-- Within less than a period of a tick the next one is not due. -/
theorem not_due_again {start now due within slack period : Nat}
    (apart : start + period ≤ due + slack) (close : now ≤ start + within)
    (short : within + slack < period) : now < due := by
  omega

/-- A round that finds a message and does not receive it brings the next that does nearer. -/
theorem step_patience {pass cleaning : Duration} (short : pass + slack < WRITER_PERIOD)
    (shorter : cleaning + pass + slack < CLEANUP_PERIOD) {s s' : RunLoop} {event : LoopEvent}
    {out : List LoopOutput} (clocked : Clocked slack s) (prompt : Prompt pass cleaning s event)
    (waiting : queueOf s ≠ []) (taken : LoopStep warsaw writer cleanup s event s' out) :
    (received out = [] ∧
      patience pass s' + (if isRound event then 1 else 0) ≤ patience pass s) ∨
    ∃ msg, received out = [msg] ∧ isRound event = true := by
  cases taken with
  | outside event notRound s' more queue world clocks =>
    obtain ⟨writerDue, cleanupDue, lastRound⟩ := clocks
    have notRound : isRound event = false := by
      cases event with
      | round env => exact absurd rfl (notRound env)
      | _ => rfl
    left
    rw [notRound]
    unfold patience
    rw [lastRound, cleanupDue]
    exact ⟨rfl, Nat.le_refl _⟩
  | idle env nothing =>
    unfold RunLoop.select at nothing
    split at nothing
    · cases nothing
    · split at nothing
      · cases nothing
      · rw [Option.map_eq_none_iff, List.head?_eq_none_iff] at nothing
        exact absurd nothing waiting
  | writerTick env due s' queue writerDue cleanupDue lastRound output ran =>
    left
    have after : patience pass s' = _ := patience_writer lastRound
    rw [cleanupDue] at after
    have atMost : patience pass s' ≤ 3 := by
      rw [after]
      split
      · omega
      · omega
    refine ⟨received_out output, ?_⟩
    show patience pass s' + 1 ≤ patience pass s
    cases last : s.lastRound with
    | none =>
      have before : patience pass s = 4 := patience_none last
      omega
    | some r =>
      obtain ⟨branch, start, hung⟩ := r
      obtain ⟨began, afterPass, afterCleanup⟩ := prompt _ last
      cases branch with
      | writerTick =>
        -- a tick cannot follow its own pass: it is not due before a period has gone by
        have apart : start + WRITER_PERIOD ≤ s.writerDue + slack := (clocked.writer _ last rfl).1
        have notDue := not_due_again apart (afterPass rfl) short
        exact absurd due (Nat.not_le_of_lt notDue)
      | cleanupTick =>
        have close : env.now + pass ≤ start + (cleaning + pass) := by
          rw [← Nat.add_assoc]
          exact Nat.add_le_add_right (afterCleanup rfl) pass
        have notDue := not_due_again (clocked.cleanup _ last rfl) close shorter
        rw [after, if_pos notDue, patience_cleanup last]
      | recv msg =>
        have before : patience pass s = 4 := patience_recv last
        omega
  | cleanupTick env notDue due s' queue writerDue cleanupDue lastRound output ran =>
    left
    refine ⟨received_out output, ?_⟩
    show patience pass s' + 1 ≤ patience pass s
    rw [patience_cleanup lastRound]
    cases last : s.lastRound with
    | none =>
      rw [patience_none last]
      omega
    | some r =>
      obtain ⟨branch, start, hung⟩ := r
      obtain ⟨began, afterPass, afterCleanup⟩ := prompt _ last
      cases branch with
      | writerTick =>
        have isDue := Nat.not_lt_of_le (Nat.le_trans due (afterPass rfl))
        rw [patience_writer last, if_neg isDue]
      | cleanupTick =>
        have soon : cleaning + slack < CLEANUP_PERIOD :=
          Nat.lt_of_le_of_lt (Nat.add_le_add_right (Nat.le_add_right cleaning pass) slack) shorter
        have notDue := not_due_again (clocked.cleanup _ last rfl) (afterCleanup rfl) soon
        exact absurd due (Nat.not_le_of_lt notDue)
      | recv msg =>
        rw [patience_recv last]
        omega
  | recv env msg notStop notDue s' queue writerDue cleanupDue lastRound output ran =>
    right
    refine ⟨msg, ?_, rfl⟩
    rw [show received (.ran (.recv msg) :: output.map .out) = msg :: received (output.map .out)
      from rfl, received_out]

/-- What is kept up from a state on, while the loop runs and behind it. -/
structure Serving (first : List OpLogMessage) (slack : Nat) (s : RunLoop) (past : List LoopOutput) :
    Prop where
  fifo : Fifo first s past
  left : Left first s past
  clocked : Running s → Clocked slack s

theorem step_serving (first : List OpLogMessage) (s : RunLoop) (event : LoopEvent)
    (past : List LoopOutput) (serving : Serving first slack s past) :
    Serving first slack (s.step warsaw writer cleanup event).1
      (past ++ (s.step warsaw writer cleanup event).2) := by
  obtain ⟨fifo, left, clocked⟩ := serving
  refine ⟨step_fifo warsaw writer cleanup first s event past fifo,
    step_left warsaw writer cleanup first s event past fifo left, ?_⟩
  intro running
  obtain ⟨before, -⟩ := step_effect warsaw writer cleanup running
  exact step_clocked warsaw writer cleanup s event (clocked before) running

theorem start_clocked (disk : Disk) (n : Nat) (now : Instant) :
    Clocked slack (.start disk n now) := by
  constructor
  · intro r last
    cases last
  · intro r last
    cases last

/-- A reachable state of the loop has its clocks in order. -/
theorem run_clocked (disk : Disk) (n : Nat) (now : Instant) (events : List LoopEvent) :
    let s := (Machine.run (RunLoop.step warsaw writer cleanup) (.start disk n now) events).1
    Running s → Clocked slack s :=
  (Machine.run_invariant_always (Serving [] slack)
    (fun s event past => step_serving warsaw writer cleanup [] s event past) (.start disk n now) []
    ⟨fun _ => ⟨List.not_mem_nil, [], rfl⟩, fun ended => absurd rfl ended,
      fun _ => start_clocked disk n now⟩ events).clocked

/-- The goal of the next `k` messages: they are received, or the loop was left before. -/
def Served (k : Nat) (s : RunLoop) (past : List LoopOutput) : Prop :=
  ¬ Running s ∨ k ≤ (received past).length

/-- The rounds that it takes at most to receive what is left of `k` messages. -/
def roundsLeft (pass : Duration) (k : Nat) (s : RunLoop) (past : List LoopOutput) : Nat :=
  4 * (k - (received past).length) + patience pass s - 4

theorem step_stopped {s : RunLoop} (event : LoopEvent) (stopped : ¬ Running s) :
    ¬ Running (s.step warsaw writer cleanup event).1 :=
  fun running => stopped (step_effect warsaw writer cleanup running).1

theorem step_nearer {pass cleaning : Duration} (short : pass + slack < WRITER_PERIOD)
    (shorter : cleaning + pass + slack < CLEANUP_PERIOD) (first : List OpLogMessage) {k : Nat}
    (queued : k ≤ first.length) (s : RunLoop) (event : LoopEvent) (past : List LoopOutput)
    (prompt : Prompt pass cleaning s event) (serving : Serving first slack s past)
    (unserved : ¬ Served k s past) :
    let r := s.step warsaw writer cleanup event
    Served k r.1 (past ++ r.2) ∨
      roundsLeft pass k r.1 (past ++ r.2) + (if isRound event then 1 else 0) ≤
        roundsLeft pass k s past := by
  dsimp only
  by_cases running : Running (s.step warsaw writer cleanup event).1
  · obtain ⟨before, taken⟩ := step_effect warsaw writer cleanup running
    obtain ⟨fifo, -, clocked⟩ := serving
    obtain ⟨-, later, order⟩ := fifo before
    have missing : (received past).length < k :=
      Nat.lt_of_not_le fun served => unserved (Or.inr served)
    have waiting : queueOf s ≠ [] := by
      intro empty
      rw [empty, List.append_nil] at order
      rw [order, List.length_append] at missing
      omega
    have positive := patience_pos pass s
    have positive' := patience_pos pass (s.step warsaw writer cleanup event).1
    right
    unfold roundsLeft
    rw [received_append, List.length_append]
    rcases step_patience warsaw writer cleanup short shorter (clocked before) prompt waiting taken with
      ⟨nothing, nearer⟩ | ⟨msg, one, isTurn⟩
    · rw [nothing, List.length_nil]
      omega
    · rw [one, isTurn, List.length_singleton, if_pos rfl]
      omega
  · exact Or.inl (Or.inl running)

/-- Within four rounds for each of them the next `k` messages are received. -/
theorem run_served {pass cleaning : Duration} (short : pass + slack < WRITER_PERIOD)
    (shorter : cleaning + pass + slack < CLEANUP_PERIOD) {k : Nat} {s : RunLoop}
    {events : List LoopEvent} (start : Serving (queueOf s) slack s []) (queued : k ≤ (queueOf s).length)
    (prompt : Machine.Allowed (RunLoop.step warsaw writer cleanup) (Prompt pass cleaning) s events)
    (enough : 4 * k ≤ Machine.turns isRound events) :
    let final := Machine.run (RunLoop.step warsaw writer cleanup) s events
    Served k final.1 final.2 := by
  intro final
  rw [← List.nil_append final.2]
  apply Machine.run_within (Serving (queueOf s) slack) (Served k) (roundsLeft pass k) isRound
  · intro s event past _ serving
    exact step_serving warsaw writer cleanup _ s event past serving
  · intro s event past _ _ served
    rcases served with stopped | received
    · exact Or.inl (step_stopped warsaw writer cleanup event stopped)
    · right
      rw [received_append, List.length_append]
      exact Nat.le_add_right_of_le received
  · exact step_nearer warsaw writer cleanup short shorter (queueOf s) queued
  · intro s past _ unserved
    have missing : (received past).length < k :=
      Nat.lt_of_not_le fun served => unserved (Or.inr served)
    have positive := patience_pos pass s
    unfold roundsLeft
    omega
  · exact start
  · exact prompt
  · right
    have positive := patience_pos pass s
    unfold roundsLeft
    rw [show received [] = [] from rfl, List.length_nil]
    omega

/-- As long as a pass is shorter than the writer's period, and a clean-up with a pass behind it
shorter than the other one, the loop gets to its messages: of any `4 * k` rounds from any
reachable state on in which it runs, `k` receive one if there are as many, in the order of the queue,
unless a stop comes before that. If a stop is among these messages the loop is left; if it is left on
a later one, they have been received. -/
theorem messages_are_received (disk : Disk) (n : Nat) (now : Instant) (before : List LoopEvent)
    {pass cleaning : Duration} (short : pass + slack < WRITER_PERIOD)
    (shorter : cleaning + pass + slack < CLEANUP_PERIOD) (k : Nat) (events : List LoopEvent) :
    let s := (Machine.run (RunLoop.step warsaw writer cleanup) (.start disk n now) before).1
    let final := Machine.run (RunLoop.step warsaw writer cleanup) s events
    Running s → k ≤ (queueOf s).length →
    Machine.Allowed (RunLoop.step warsaw writer cleanup) (Prompt pass cleaning) s events →
    4 * k ≤ Machine.turns isRound events →
      (.stopService ∈ (queueOf s).take k → ¬ Running final.1) ∧
      (.stopService ∉ (queueOf s).take k → (queueOf s).take k <+: received final.2) := by
  intro s final going queued prompt enough
  have start : Serving (queueOf s) slack s [] :=
    ⟨fun _ => ⟨List.not_mem_nil, [], (List.append_nil _).symm⟩, fun ended => absurd going ended,
      run_clocked warsaw writer cleanup disk n now before⟩
  have serving := Machine.run_invariant_always (Serving (queueOf s) slack)
    (fun s event past => step_serving warsaw writer cleanup _ s event past) s [] start events
  have served : Served k final.1 final.2 :=
    run_served warsaw writer cleanup short shorter start queued prompt enough
  rw [List.nil_append] at serving
  obtain ⟨fifo, left, -⟩ := serving
  -- what was received and what is still to come, in the order of the queue
  have ordered : ∃ later, received final.2 <+: queueOf s ++ later := by
    by_cases running : Running final.1
    · obtain ⟨-, later, order⟩ := fifo running
      exact ⟨later, order ▸ List.prefix_append _ _⟩
    · exact (left running).2
  obtain ⟨later, inOrder⟩ := ordered
  have first : (queueOf s).take k <+: queueOf s ++ later :=
    (List.take_prefix k _).trans (List.prefix_append _ _)
  have length : ((queueOf s).take k).length = k := List.length_take_of_le queued
  constructor
  · intro stop running
    obtain ⟨unstopped, -⟩ := fifo running
    have enough := served.resolve_left (fun stopped => stopped running)
    exact unstopped ((List.prefix_of_prefix_length_le first inOrder (by omega)).subset stop)
  · intro unstopped
    rcases Nat.le_total k (received final.2).length with enough | few
    · exact List.prefix_of_prefix_length_le first inOrder (by omega)
    · -- fewer only if the loop was left on a stop, which would be among them
      have early := List.prefix_of_prefix_length_le inOrder first (by omega)
      by_cases running : Running final.1
      · have enough := served.resolve_left (fun stopped => stopped running)
        exact List.prefix_of_prefix_length_le first inOrder (by omega)
      · exact absurd (early.subset (left running).1) unstopped

end Short

/-- Two messages and a stop that come in at once, and twelve rounds a millisecond apart. -/
def twoSent : List LoopEvent :=
  [.other .flush, .other (.log ⟨"app", "one", 0⟩), .other .stopService]

def twelveRounds : List LoopEvent := (List.range 12).map roundAt

/-- The loop is left by then, and both have been received. -/
theorem messages_are_received_two :
    let s := (Machine.run (RunLoop.step warsawAtEpoch (delayed _) (delayed _))
      (.start (fun _ => none) 0 0) twoSent).1
    let final := Machine.run (RunLoop.step warsawAtEpoch (delayed _) (delayed _)) s twelveRounds
    ¬ Running final.1 ∧ (queueOf s).take 2 <+: received final.2 := by
  have received (k : Nat) (queued : k ≤ 3) :=
    @messages_are_received warsawAtEpoch _ (delayed _) (delayed _) (fun _ => none) 0 0 twoSent
      (Duration.fromMillis 100) (Duration.fromSecs 10) (by decide) (by decide) k twelveRounds
      (by decide +kernel) queued (by decide +kernel)
      (Nat.le_trans (Nat.mul_le_mul_left 4 queued) (by decide +kernel))
  exact ⟨(received 3 (by decide)).1 (by decide +kernel),
    (received 2 (by decide)).2 (by decide +kernel)⟩

/-! ## Long passes -/

section Long
variable (warsaw : DateTimeUtc → LocalDateTime) {slack : Nat} (writer : Ticker WRITER_PERIOD slack)
  (cleanup : Ticker CLEANUP_PERIOD slack)

/-- A loop that has only passed over its files since the queue was `first`. -/
structure Starved (slack : Nat) (first : List OpLogMessage) (s : RunLoop) (past : List LoopOutput) :
    Prop where
  running : Running s
  nothing : received past = []
  onlyTicks : ∀ branch, .ran branch ∈ past → branch = .writerTick
  queued : first <+: queueOf s
  clocked : Clocked slack s

theorem step_starved {first : List OpLogMessage} {s : RunLoop} {event : LoopEvent}
    {past : List LoopOutput} (starved : Starved slack first s past)
    (due : ∀ env, event = .round env → s.writerDue ≤ env.now) :
    Starved slack first (s.step warsaw writer cleanup event).1
      (past ++ (s.step warsaw writer cleanup event).2) := by
  have running := stays_running warsaw writer cleanup starved.running due
  have clocked := step_clocked warsaw writer cleanup s event starved.clocked running
  obtain ⟨-, taken⟩ := step_effect warsaw writer cleanup running
  generalize (s.step warsaw writer cleanup event).1 = s',
    (s.step warsaw writer cleanup event).2 = out at taken running clocked
  cases taken with
  | outside event notRound s' more queue world clocks =>
    rw [List.append_nil]
    refine ⟨running, starved.nothing, starved.onlyTicks, ?_, clocked⟩
    rw [queue]
    exact starved.queued.trans (List.prefix_append _ _)
  | idle env nothing =>
    rw [List.append_nil]
    exact ⟨running, starved.nothing, starved.onlyTicks, starved.queued, clocked⟩
  | writerTick env isDue s' queue writerDue cleanupDue lastRound output ran =>
    refine ⟨running, ?_, ?_, queue ▸ starved.queued, clocked⟩
    · rw [received_append, starved.nothing]
      exact received_out output
    · intro branch member
      rcases List.mem_append.mp member with earlier | last
      · exact starved.onlyTicks branch earlier
      · rcases List.mem_cons.mp last with same | inside
        · exact LoopOutput.ran.inj same
        · obtain ⟨o, -, same⟩ := List.mem_map.mp inside
          cases same
  | cleanupTick env notDue isDue s' queue writerDue cleanupDue lastRound output ran =>
    exact absurd (due env rfl) (Nat.not_le_of_lt notDue)
  | recv env msg going notDue s' queue writerDue cleanupDue lastRound output ran =>
    exact absurd (due env rfl) (Nat.not_le_of_lt notDue.1)

/-- The round finds the writer's tick due, or comes behind a pass of a period or more, where it is
due again. -/
def Overrun (s : RunLoop) : LoopEvent → Prop
  | .round env => s.writerDue ≤ env.now ∨
      ∃ r, s.lastRound = some r ∧ r.branch = .writerTick ∧ r.start + WRITER_PERIOD ≤ env.now
  | _ => True

instance (s : RunLoop) : ∀ event, Decidable (Overrun s event)
  | .round env => inferInstanceAs (Decidable (s.writerDue ≤ env.now ∨
      ∃ r ∈ s.lastRound, r.branch = .writerTick ∧ r.start + WRITER_PERIOD ≤ env.now))
  | .lastFlush _ | .poll _ | .drop _ | .other _ => isTrue trivial

theorem overrun_due {s : RunLoop} {event : LoopEvent} (clocked : Clocked slack s)
    (overrun : Overrun s event) : ∀ env, event = .round env → s.writerDue ≤ env.now := by
  rintro env rfl
  rcases overrun with due | ⟨r, last, branch, long⟩
  · exact due
  · exact Nat.le_trans (clocked.writer r last branch).2 long

/-- From a round on that finds the writer's tick due, and when every pass takes a period or more,
the tick is due at every round and comes first: nothing is received any more, the loop does not end,
whether or not a stop is queued, nothing is cleaned up, and the queue only grows. -/
theorem long_passes_starve (disk : Disk) (n : Nat) (now : Instant) (before events : List LoopEvent) :
    let s := (Machine.run (RunLoop.step warsaw writer cleanup) (.start disk n now) before).1
    let final := Machine.run (RunLoop.step warsaw writer cleanup) s events
    Running s → Machine.Allowed (RunLoop.step warsaw writer cleanup) Overrun s events →
      Running final.1 ∧ received final.2 = [] ∧
        (∀ branch, .ran branch ∈ final.2 → branch = .writerTick) ∧
        queueOf s <+: queueOf final.1 := by
  intro s final running overrun
  have clocked : Clocked slack s := run_clocked warsaw writer cleanup disk n now before running
  have starved := Machine.run_invariant (Starved slack (queueOf s))
    (fun s event past admitted starved => step_starved warsaw writer cleanup starved
      (overrun_due starved.clocked admitted))
    s [] ⟨running, rfl, fun _ none => absurd none List.not_mem_nil, List.prefix_rfl, clocked⟩
    events overrun
  exact ⟨starved.running, starved.nothing, starved.onlyTicks, starved.queued⟩

end Long

/-- A stop is sent, and every pass takes 600 milliseconds. -/
theorem long_passes_starve_stop :
    let s := (Machine.run (RunLoop.step warsawAtEpoch (delayed _) (delayed _))
      (.start (fun _ => none) 1 0) [.poll 0, .poll 0, .poll 0]).1
    let final := Machine.run (RunLoop.step warsawAtEpoch (delayed _) (delayed _)) s
      [roundAt 0, roundAt 600, roundAt 1200, .lastFlush flushEnv]
    Running final.1 ∧ received final.2 = [] ∧
      (∀ branch, .ran branch ∈ final.2 → branch = .writerTick) ∧ queueOf s <+: queueOf final.1 :=
  long_passes_starve warsawAtEpoch (delayed _) (delayed _) (fun _ => none) 1 0
    [.poll 0, .poll 0, .poll 0] [roundAt 0, roundAt 600, roundAt 1200, .lastFlush flushEnv]
    (by decide +kernel) (by decide +kernel)

/-! ## A volume that hangs -/

section Hung
variable (warsaw : DateTimeUtc → LocalDateTime) {slack : Nat} (writer : Ticker WRITER_PERIOD slack)
  (cleanup : Ticker CLEANUP_PERIOD slack)

/-- From the time `since` on, `create_dir_all` for this file does not come back, and a pass
with such an attempt takes as long as its timeout. -/
def Wedged (name key : String) (since : Instant) (s : RunLoop) : LoopEvent → Prop
  | .round env => (env.pass.attempt name key).io.createDirAll = .pending ∧
      since ≤ (env.pass.attempt name key).now ∧
      ∀ r, s.lastRound = some r → r.hung = true → r.start + WRITE_TIMEOUT ≤ env.now
  | _ => True

/-- An entry of the file is due to be written. -/
def Due (name key : String) (since : Instant) (w : OpLogWorker) : Prop :=
  ∃ d, w.definitions.get? name = some d ∧
    ∃ f, w.file? name key = some f ∧ f.due d.flushInterval since

instance (f : LogFile) (flushInterval : Duration) (now : Instant) :
    Decidable (f.due flushInterval now) :=
  inferInstanceAs (Decidable (_ ∧ _))

instance (name key : String) (since : Instant) (w : OpLogWorker) :
    Decidable (Due name key since w) :=
  inferInstanceAs (Decidable (∃ d ∈ w.definitions.get? name,
    ∃ f ∈ w.file? name key, f.due d.flushInterval since))

theorem due_later {f : LogFile} {flushInterval : Duration} {since now : Instant}
    (due : f.due flushInterval since) (later : since ≤ now) : f.due flushInterval now := by
  obtain ⟨queued, late⟩ := due
  refine ⟨queued, ?_⟩
  unfold LogFile.early at late ⊢
  cases first : f.timeOfFirstAdditionOfLogAfterWrite with
  | none => rfl
  | some time =>
    rw [first] at late
    apply decide_eq_false
    intro young
    exact of_decide_eq_false late (Nat.lt_of_le_of_lt (Nat.sub_le_sub_right later time) young)

/-- The attempt that is given up leaves its file queued. -/
theorem writeOne_pending (d : LogDefinition) (flushInterval : Duration) {env : AttemptEnv}
    (f : LogFile) (content : Option Bytes) (due : f.due flushInterval env.now)
    (pending : env.io.createDirAll = .pending) :
    (d.writeOne warsaw flushInterval env f content).1 =
      { f with tailVerified := false, writeErrorLogged := true } := by
  have given_up : (f.writeToFile flushInterval (d.backlogNotice warsaw f env.utcNow) env
      content).result = .error .timedOut := by
    rw [writeToFile_due f flushInterval _ env content due, pending]
    rfl
  rw [writeOne_error given_up]

theorem due_hangs {w : OpLogWorker} {name key : String} {since : Instant} {env : PassEnv}
    (due : Due name key since w) (pending : (env.attempt name key).io.createDirAll = .pending)
    (later : since ≤ (env.attempt name key).now) : w.hangs env = true := by
  obtain ⟨d, stored, f, live, dueThen⟩ := due
  obtain ⟨queued, late⟩ := due_later dueThen later
  rw [OpLogWorker.file?_of_definition key stored] at live
  unfold OpLogWorker.hangs
  rw [List.any_eq_true]
  refine ⟨(name, d), (KeyedMap.get?_eq_some _ _ _).mp stored, ?_⟩
  rw [List.any_eq_true]
  refine ⟨(key, f), (KeyedMap.get?_eq_some _ _ _).mp live, ?_⟩
  simp [LogFile.hangs, queued, late, pending]

theorem due_writePass {w : OpLogWorker} {name key : String} {since : Instant} {env : PassEnv}
    (disk : Disk) (due : Due name key since w)
    (pending : (env.attempt name key).io.createDirAll = .pending)
    (later : since ≤ (env.attempt name key).now) :
    Due name key since (w.writeToFiles warsaw env disk).1 := by
  obtain ⟨d, stored, f, live, dueThen⟩ := due
  have definition := w.get?_writePass warsaw (·.flushInterval) env disk name
  have file := w.file?_writePass warsaw (·.flushInterval) env disk name key
  dsimp only at file
  rw [stored] at definition
  rw [live] at file
  obtain ⟨files, definition⟩ := definition
  obtain ⟨d', content, stored', -, file, -⟩ := file
  rw [stored] at stored'
  obtain rfl := Option.some.inj stored'
  rw [writeOne_pending warsaw d _ f content (due_later dueThen later) pending] at file
  exact ⟨_, definition, _, file, dueThen⟩

/-- The last round was a pass that hung. -/
def Hung (s : RunLoop) : Prop := ∃ start, s.lastRound = some ⟨.writerTick, start, true⟩

/-- A starved loop whose last pass hung, and whose next one will. -/
structure Stuck (name key : String) (since : Instant) (slack : Nat) (first : List OpLogMessage)
    (s : RunLoop) (past : List LoopOutput) : Prop where
  starved : Starved slack first s past
  due : Due name key since s.system.shared.world.worker
  hung : Hung s

theorem step_due {name key : String} {since : Instant} {first : List OpLogMessage} {s : RunLoop}
    {event : LoopEvent} {past : List LoopOutput} (starved : Starved slack first s past)
    (due : Due name key since s.system.shared.world.worker)
    (wedged : Wedged name key since s event)
    (ticks : ∀ env, event = .round env → s.writerDue ≤ env.now) :
    Due name key since (s.step warsaw writer cleanup event).1.system.shared.world.worker ∧
      ((s.step warsaw writer cleanup event).1.lastRound = s.lastRound ∧ isRound event = false ∨
        Hung (s.step warsaw writer cleanup event).1) := by
  have running := stays_running warsaw writer cleanup starved.running ticks
  obtain ⟨-, taken⟩ := step_effect warsaw writer cleanup running
  generalize (s.step warsaw writer cleanup event).1 = s',
    (s.step warsaw writer cleanup event).2 = out at taken
  cases taken with
  | outside event notRound s' more queue world clocks =>
    have notRound : isRound event = false := by
      cases event with
      | round env => exact absurd rfl (notRound env)
      | _ => rfl
    rw [world]
    exact ⟨due, Or.inl ⟨clocks.2.2, notRound⟩⟩
  | idle env nothing =>
    have selected : s.select env.now = some .writerTick := if_pos (ticks env rfl)
    rw [selected] at nothing
    cases nothing
  | writerTick env isDue s' queue writerDue cleanupDue lastRound output ran =>
    obtain ⟨pending, later, -⟩ := wedged
    constructor
    · rw [show s'.system.shared.world = _ from (congrArg Prod.fst ran).symm]
      exact due_writePass warsaw _ due pending later
    · right
      rw [due_hangs due pending later] at lastRound
      exact ⟨env.now, lastRound⟩
  | cleanupTick env notDue isDue s' queue writerDue cleanupDue lastRound output ran =>
    exact absurd (ticks env rfl) (Nat.not_le_of_lt notDue)
  | recv env msg going notDue s' queue writerDue cleanupDue lastRound output ran =>
    exact absurd (ticks env rfl) (Nat.not_le_of_lt notDue.1)

theorem step_stuck {name key : String} {since : Instant} {first : List OpLogMessage} {s : RunLoop}
    {event : LoopEvent} {past : List LoopOutput} (wedged : Wedged name key since s event)
    (stuck : Stuck name key since slack first s past) :
    Stuck name key since slack first (s.step warsaw writer cleanup event).1
      (past ++ (s.step warsaw writer cleanup event).2) := by
  obtain ⟨starved, due, start, last⟩ := stuck
  have ticks (env : RoundEnv) (round : event = .round env) : s.writerDue ≤ env.now := by
    subst round
    have long := Nat.add_le_add_left (show WRITER_PERIOD ≤ WRITE_TIMEOUT by decide) start
    have waited := (starved.clocked.writer _ last rfl).2
    exact Nat.le_trans waited (Nat.le_trans long (wedged.2.2 _ last rfl))
  obtain ⟨due', hung⟩ := step_due warsaw writer cleanup starved due wedged ticks
  refine ⟨step_starved warsaw writer cleanup starved ticks, due', ?_⟩
  rcases hung with ⟨same, -⟩ | again
  · exact ⟨start, same.trans last⟩
  · exact again

/-- Once a file on a volume that hangs is due at a round that finds the writer's tick due, no
message is received any more: every round is a pass, and every pass makes the attempt anew and hangs
in it until it fails after fifteen seconds, when the next tick has long been due. Every other log,
and a stop, waits in the queue for as long as the volume hangs. -/
theorem hung_volume_stops_intake (disk : Disk) (n : Nat) (now : Instant) (before : List LoopEvent)
    (name key : String) (since : Instant) (env : RoundEnv) (events : List LoopEvent) :
    let s := (Machine.run (RunLoop.step warsaw writer cleanup) (.start disk n now) before).1
    let final := Machine.run (RunLoop.step warsaw writer cleanup) s (.round env :: events)
    Running s → s.writerDue ≤ env.now → Due name key since s.system.shared.world.worker →
      Machine.Allowed (RunLoop.step warsaw writer cleanup) (Wedged name key since) s
        (.round env :: events) →
      Running final.1 ∧ received final.2 = [] ∧ queueOf s <+: queueOf final.1 ∧
        Due name key since final.1.system.shared.world.worker ∧
        (∀ branch, .ran branch ∈ final.2 → branch = .writerTick) ∧
        Machine.Throughout (RunLoop.step warsaw writer cleanup) Hung
          (s.step warsaw writer cleanup (.round env)).1 events := by
  intro s final running tick due wedged
  have clocked : Clocked slack s := run_clocked warsaw writer cleanup disk n now before running
  have starved : Starved slack (queueOf s) s [] :=
    ⟨running, rfl, fun _ none => absurd none List.not_mem_nil, List.prefix_rfl, clocked⟩
  obtain ⟨first, rest⟩ := wedged
  have ticks (env' : RoundEnv) (round : LoopEvent.round env = .round env') : s.writerDue ≤ env'.now := by
    cases round
    exact tick
  obtain ⟨due', hung⟩ := step_due warsaw writer cleanup starved due first ticks
  have hung := hung.resolve_left fun same => Bool.noConfusion same.2
  have begun : Stuck name key since slack (queueOf s) (s.step warsaw writer cleanup (.round env)).1
      ([] ++ (s.step warsaw writer cleanup (.round env)).2) :=
    ⟨step_starved warsaw writer cleanup starved ticks, due', hung⟩
  have kept (t : RunLoop) (event : LoopEvent) (past : List LoopOutput)
      (admitted : Wedged name key since t event)
      (stuck : Stuck name key since slack (queueOf s) t past) :=
    step_stuck warsaw writer cleanup admitted stuck
  have stuck := Machine.run_invariant _ kept _ _ begun events rest
  rw [List.nil_append] at stuck
  exact ⟨stuck.starved.running, stuck.starved.nothing, stuck.starved.queued, stuck.due,
    stuck.starved.onlyTicks,
    Machine.throughout_of_kept _ (fun _ _ stuck => stuck.hung) kept _ _ begun events rest⟩

end Hung

/-- A definition and an entry are received, and a stop is sent behind them. -/
def oneEntryQueued : List LoopEvent :=
  [.other (.logDefinition ⟨"app", .noSplit, "", "logs", [], 0, false⟩),
    .other (.log ⟨"app", "one", 0⟩), roundAt 0, roundAt 1, roundAt 2, roundAt 3,
    .poll 0, .poll 0, .poll 0]

def hungRound (millis : Nat) : RoundEnv where
  now := Duration.fromMillis millis
  pass := passEnv { storedEnv { allDone with createDirAll := .pending } with
    now := Duration.fromMillis millis }
  deleted := fun _ => false
  completed := true
  message := ⟨0, flushEnv⟩

theorem hung_volume_stops_intake_stop :
    let s := (Machine.run (RunLoop.step warsawAtEpoch (delayed _) (delayed _))
      (.start (fun _ => none) 1 0) oneEntryQueued).1
    let final := Machine.run (RunLoop.step warsawAtEpoch (delayed _) (delayed _)) s
      [.round (hungRound 500), .round (hungRound 15500), .round (hungRound 30500)]
    Running final.1 ∧ received final.2 = [] ∧ queueOf s <+: queueOf final.1 ∧
      Due "app" "logs/app.log" 0 final.1.system.shared.world.worker ∧
      (∀ branch, .ran branch ∈ final.2 → branch = .writerTick) ∧
      Machine.Throughout (RunLoop.step warsawAtEpoch (delayed _) (delayed _)) Hung
        (s.step warsawAtEpoch (delayed _) (delayed _) (.round (hungRound 500))).1
        [.round (hungRound 15500), .round (hungRound 30500)] := by
  apply hung_volume_stops_intake warsawAtEpoch (delayed _) (delayed _) (fun _ => none) 1 0
    oneEntryQueued "app" "logs/app.log" 0 (hungRound 500)
    [.round (hungRound 15500), .round (hungRound 30500)] (by decide +kernel) (by decide +kernel)
    (by decide +kernel)
  refine ⟨⟨rfl, by decide, ?_⟩, ⟨rfl, by decide, ?_⟩, ⟨rfl, by decide, ?_⟩, trivial⟩
  · rintro r ⟨⟩ waited
    cases waited
  · rintro r ⟨⟩ waited
    decide +kernel
  · rintro r ⟨⟩ waited
    decide +kernel

end OpLog.Guarantees.Intake
