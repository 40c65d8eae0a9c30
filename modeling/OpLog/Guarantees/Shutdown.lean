import OpLog.Guarantees.OneFile
import OpLog.Source.Shutdown

/-!
# Does `shutdown` wait?

The call that takes the join handle out of its slot waits for the task. Every later call
finds the slot empty and returns at once, also while the task still runs: because the first
call is still waiting, or because its future was dropped and the handle with it.
-/
namespace OpLog.Guarantees.Shutdown
open Library Source

/-- Every call that returned did so after the end of the task, final flush included. -/
def Waited (s : ShuttingDown) : Prop :=
  ∀ call ∈ s.threads, call = .returned → s.shared.task = .finished

/-- A call that reaches the slot finds the handle there, unless the task has ended. -/
def FindsHandle (s : ShuttingDown) : ShutdownEvent → Prop
  | .poll call => s.threads[call]? = some .take →
      s.shared.inner.handle = true ∨ s.shared.task = .finished
  | _ => True

/-! ## The calls -/

section Calls
variable {s : Service} {call : Shutdown}

/-- A poll leaves the worker alone and puts nothing out; from the slot it only takes. -/
theorem poll_frame (s : Service) (call : Shutdown) :
    (call.poll s).1.task = s.task ∧ (call.poll s).1.world = s.world ∧ (call.poll s).2.2 = [] ∧
      (call ≠ .take → (call.poll s).1.inner.handle = s.inner.handle) := by
  cases call with
  | waiting =>
    unfold Shutdown.poll
    dsimp only
    split
    · exact ⟨rfl, rfl, rfl, fun _ => rfl⟩
    · split <;> exact ⟨rfl, rfl, rfl, fun _ => rfl⟩
  | take =>
    unfold Shutdown.poll
    dsimp only
    split <;> exact ⟨rfl, rfl, rfl, fun other => absurd rfl other⟩
  | joining =>
    unfold Shutdown.poll
    dsimp only
    split <;> exact ⟨rfl, rfl, rfl, fun _ => rfl⟩
  | _ => exact ⟨rfl, rfl, rfl, fun _ => rfl⟩

theorem drop_task : (call.drop s).1.task = s.task := by
  cases call <;> rfl

/-- A call returns from `h.await` when the task is over, or past an empty slot. -/
theorem poll_returned (returned : (call.poll s).2.1 = .returned) :
    call = .returned ∨ s.task = .finished ∨ call = .take ∧ s.inner.handle = false := by
  cases call with
  | created => cases returned
  | waiting =>
    simp only [Shutdown.poll] at returned
    split at returned
    · cases returned
    · split at returned <;> cases returned
  | promised => cases returned
  | take =>
    simp only [Shutdown.poll] at returned
    split at returned
    · cases returned
    · exact Or.inr (Or.inr ⟨rfl, by simpa using ‹¬ s.inner.handle = true›⟩)
  | joining =>
    simp only [Shutdown.poll] at returned
    split at returned
    · exact Or.inr (Or.inl ‹_›)
    · cases returned
  | returned => exact Or.inl rfl
  | dropped => cases returned

theorem drop_returned (returned : (call.drop s).2.1 = .returned) : call = .returned := by
  cases call <;> first | rfl | cases returned

/-- A call sends at most a stop, and only the end of the task closes the channel. -/
theorem poll_channel (s : Service) (call : Shutdown) :
    ∃ more, (more = [] ∨ more = [.stopService]) ∧
      (call.poll s).1.inner.tx.queue = s.inner.tx.queue ++ more ∧
      (call.poll s).1.inner.tx.closed = s.inner.tx.closed := by
  have same : ∃ more, (more = [] ∨ more = [.stopService]) ∧
      s.inner.tx.queue = s.inner.tx.queue ++ more ∧ s.inner.tx.closed = s.inner.tx.closed :=
    ⟨[], Or.inl rfl, (List.append_nil _).symm, rfl⟩
  cases call with
  | waiting =>
    unfold Shutdown.poll
    dsimp only
    split
    · exact same
    · split
      · rename_i tx promised
        unfold Channel.reserve at promised
        split at promised
        · rw [← Option.some.inj promised]
          exact same
        · cases promised
      · exact same
  | promised =>
    unfold Shutdown.poll Channel.send
    dsimp only
    split
    · exact same
    · exact ⟨_, Or.inr rfl, rfl, rfl⟩
  | take =>
    unfold Shutdown.poll
    dsimp only
    split
    · exact same
    · exact same
  | joining =>
    unfold Shutdown.poll
    dsimp only
    split
    · exact same
    · exact same
  | _ => exact same

theorem drop_channel (s : Service) (call : Shutdown) :
    (call.drop s).1.inner.tx.queue = s.inner.tx.queue ∧
      (call.drop s).1.inner.tx.closed = s.inner.tx.closed := by
  cases call <;> exact ⟨rfl, rfl⟩

end Calls

/-! ## The worker -/

section Worker
variable (warsaw : DateTimeUtc → LocalDateTime) (s : Service)

/-- The worker leaves the slot alone, and the end of its task is for good. -/
def Apart (s s' : Service) : Prop :=
  s'.inner.handle = s.inner.handle ∧ (s.task = .finished → s'.task = .finished)

theorem tick_apart (event : Event) : Apart s (s.tick warsaw event).1 := by
  unfold Service.tick
  split
  · exact ⟨rfl, id⟩
  · exact ⟨rfl, id⟩

theorem recv_apart (env : MessageEnv) : Apart s (s.recv warsaw env).1 := by
  unfold Service.recv
  split
  · rename_i running
    have unfinished (finished : s.task = .finished) (task : WorkerTask) : task = .finished := by
      rw [running] at finished
      cases finished
    split
    · exact ⟨rfl, id⟩
    · exact ⟨rfl, fun finished => unfinished finished _⟩
    · exact ⟨rfl, id⟩
  · exact ⟨rfl, id⟩

theorem lastFlush_apart (env : OpLogWorker.FlushEnv) : Apart s (s.lastFlush warsaw env).1 := by
  unfold Service.lastFlush
  split
  · exact ⟨rfl, fun _ => rfl⟩
  · exact ⟨rfl, id⟩

end Worker

section Runs
variable (warsaw : DateTimeUtc → LocalDateTime)

theorem poll_waited (s : ShuttingDown) (i : Nat) (waited : Waited s) :
    Waited (s.step warsaw (.poll i)).1 ↔ FindsHandle s (.poll i) := by
  have task : (s.step warsaw (.poll i)).1.shared.task = s.shared.task := by
    simp only [ShuttingDown.step]
    cases there : s.threads[i]? with
    | none => rw [Threads.advance_none there]
    | some call => rw [Threads.advance_some there, (poll_frame _ _).1]
  constructor
  · intro after there
    by_cases held : s.shared.inner.handle = true
    · exact Or.inl held
    · refine Or.inr (task ▸ after .returned ?_ rfl)
      obtain ⟨inside, -⟩ := List.getElem?_eq_some_iff.mp there
      unfold ShuttingDown.step Shutdown.poll
      simp only [Threads.advance_some there, if_neg held]
      exact List.mem_set inside _
  · intro finds call member isReturned
    rw [task]
    rcases Threads.mem_advance member with old | ⟨place, there, rfl⟩
    · exact waited call old isReturned
    · rcases poll_returned isReturned with rfl | finished | ⟨rfl, empty⟩
      · exact waited _ (List.mem_of_getElem? there) rfl
      · exact finished
      · exact (finds there).resolve_left (by simp [empty])

theorem drop_waited (s : ShuttingDown) (i : Nat) (waited : Waited s) :
    Waited (s.step warsaw (.drop i)).1 := by
  intro call member isReturned
  have task : (s.step warsaw (.drop i)).1.shared.task = s.shared.task := by
    simp only [ShuttingDown.step]
    cases there : s.threads[i]? with
    | none => rw [Threads.advance_none there]
    | some call => rw [Threads.advance_some there, drop_task]
  rw [task]
  rcases Threads.mem_advance member with old | ⟨place, there, rfl⟩
  · exact waited call old isReturned
  · exact waited place (List.mem_of_getElem? there) (drop_returned isReturned)

theorem worker_waited {s : ShuttingDown} (shared : Service) (apart : Apart s.shared shared)
    (waited : Waited s) : Waited { s with shared } :=
  fun call member isReturned => apart.2 (waited call member isReturned)

/-- A step keeps the property exactly if no call runs into the empty slot in it. -/
theorem step_waited (s : ShuttingDown) (event : ShutdownEvent) (waited : Waited s) :
    Waited (s.step warsaw event).1 ↔ FindsHandle s event := by
  cases event with
  | poll i => exact poll_waited warsaw s i waited
  | drop i => exact iff_of_true (drop_waited warsaw s i waited) trivial
  | other msg => exact iff_of_true waited trivial
  | writerTick env =>
    exact iff_of_true (worker_waited _ (tick_apart warsaw s.shared (.writerTick env)) waited) trivial
  | cleanupTick now deleted completed =>
    exact iff_of_true
      (worker_waited _ (tick_apart warsaw s.shared (.cleanupTick now deleted completed)) waited) trivial
  | recv env => exact iff_of_true (worker_waited _ (recv_apart warsaw s.shared env) waited) trivial
  | lastFlush env =>
    exact iff_of_true (worker_waited _ (lastFlush_apart warsaw s.shared env) waited) trivial

theorem start_waited (disk : Disk) (n : Nat) : Waited (.start disk n) := by
  intro call member isReturned
  rw [List.eq_of_mem_replicate member] at isReturned
  cases isReturned

end Runs

/-- Any number of calls in any interleaving, dropped futures included: on the way no call
returns before the end of the task exactly if none reaches the slot, finding it empty, before
the end of the task. -/
theorem shutdown_waits_iff (warsaw : DateTimeUtc → LocalDateTime) (disk : Disk) (n : Nat)
    (events : List ShutdownEvent) :
    Machine.Throughout (ShuttingDown.step warsaw) Waited (.start disk n) events ↔
      Machine.Allowed (ShuttingDown.step warsaw) FindsHandle (.start disk n) events :=
  Machine.throughout_iff_allowed (step_waited warsaw) (.start disk n) (start_waited disk n) events

/-! ## What the task did -/

section Task
variable (warsaw : DateTimeUtc → LocalDateTime) (disk : Disk)

/-- The worker of a service is in a `run` of its own: in its loop, with the rest of the loop
ahead, then behind it, and at last done. -/
def Follows (s : Service) (past : List Output) : Prop :=
  match s.task with
  | .running => ∃ schedule received, ∀ rest channel,
      runLoop warsaw (schedule ++ rest) ⟨.new, disk⟩ (received ++ channel) =
        (runLoop warsaw rest s.world channel).map (prepend past)
  | .flushing => ∃ schedule channel, runLoop warsaw schedule ⟨.new, disk⟩ channel = some (s.world, past)
  | .finished => ∃ schedule lastFlush channel r,
      run warsaw schedule lastFlush ⟨.new, disk⟩ channel = some r ∧ r.final = s.world ∧
        r.outputs ++ r.lastFlush.map .pass = past

variable {warsaw disk} {s : Service} {past : List Output}

/-- One more choice of the schedule. -/
theorem follows_choice {s' : Service} {out : List Output} (running : s.task = .running)
    (running' : s'.task = .running) (choice : Choice) (taken : List OpLogMessage)
    (choose : ∀ rest channel, runLoop warsaw (choice :: rest) s.world (taken ++ channel) =
      (runLoop warsaw rest s'.world channel).map (prepend out))
    (follows : Follows warsaw disk s past) : Follows warsaw disk s' (past ++ out) := by
  unfold Follows at follows ⊢
  simp only [running, running'] at follows ⊢
  obtain ⟨schedule, received, loop⟩ := follows
  refine ⟨schedule ++ [choice], received ++ taken, fun rest channel => ?_⟩
  rw [List.append_assoc, List.append_assoc, List.singleton_append, loop, choose, Option.map_map]
  congr 1
  funext r
  unfold prepend
  simp only [Function.comp_apply, List.append_assoc]

theorem follows_same {s' : Service} (task : s'.task = s.task) (world : s'.world = s.world)
    (follows : Follows warsaw disk s past) : Follows warsaw disk s' (past ++ []) := by
  rw [List.append_nil, Follows, task, world]
  exact follows

theorem tick_follows (event : Event) (choice : Choice)
    (chosen : ∀ rest channel, runLoop warsaw (choice :: rest) s.world channel =
      (runLoop warsaw rest (s.world.step warsaw event).1 channel).map
        (prepend (s.world.step warsaw event).2))
    (follows : Follows warsaw disk s past) :
    Follows warsaw disk (s.tick warsaw event).1 (past ++ (s.tick warsaw event).2) := by
  unfold Service.tick
  split
  · rename_i running
    exact follows_choice running running choice [] chosen follows
  · exact follows_same rfl rfl follows

theorem recv_follows (env : MessageEnv) (follows : Follows warsaw disk s past) :
    Follows warsaw disk (s.recv warsaw env).1 (past ++ (s.recv warsaw env).2) := by
  unfold Service.recv
  split
  · rename_i running
    split
    · exact follows_same rfl rfl follows
    · -- the loop breaks, and with the schedule the messages end here
      unfold Follows at follows ⊢
      simp only [running] at follows ⊢
      obtain ⟨schedule, received, loop⟩ := follows
      refine ⟨schedule ++ [.recv env], received ++ [.stopService], ?_⟩
      rw [loop]
      rfl
    · rename_i msg tx going taken
      exact follows_choice running running (.recv env) [msg]
        (fun rest channel => runLoop_recv rest s.world env going channel) follows
  · exact follows_same rfl rfl follows

theorem lastFlush_follows (env : OpLogWorker.FlushEnv) (follows : Follows warsaw disk s past) :
    Follows warsaw disk (s.lastFlush warsaw env).1 (past ++ (s.lastFlush warsaw env).2) := by
  unfold Service.lastFlush
  split
  · rename_i flushing
    unfold Follows at follows ⊢
    simp only [flushing] at follows ⊢
    obtain ⟨schedule, channel, loop⟩ := follows
    let flushed := s.world.worker.flush warsaw env s.world.disk
    refine ⟨schedule, env, channel, ⟨s.world, past, ⟨flushed.1, flushed.2.1⟩, flushed.2.2⟩, ?_,
      rfl, rfl⟩
    unfold run
    rw [loop]
    rfl
  · exact follows_same rfl rfl follows

/-- A step of a thread that leaves the task and the worker alone. -/
theorem advance_follows {action : Service → Shutdown → Service × Shutdown × List Output}
    (frame : ∀ s call, (action s call).1.task = s.task ∧ (action s call).1.world = s.world ∧
      (action s call).2.2 = []) (s : ShuttingDown) (i : Nat) {past : List Output}
    (follows : Follows warsaw disk s.shared past) :
    Follows warsaw disk (s.advance action i).1.shared (past ++ (s.advance action i).2) := by
  cases there : s.threads[i]? with
  | none =>
    rw [Threads.advance_none there]
    exact follows_same rfl rfl follows
  | some call =>
    obtain ⟨task, world, silent⟩ := frame s.shared call
    rw [Threads.advance_some there, silent]
    exact follows_same task world follows

theorem drop_frame (s : Service) (call : Shutdown) :
    (call.drop s).1.task = s.task ∧ (call.drop s).1.world = s.world ∧ (call.drop s).2.2 = [] := by
  cases call <;> exact ⟨rfl, rfl, rfl⟩

theorem step_follows (s : ShuttingDown) (event : ShutdownEvent) (past : List Output)
    (follows : Follows warsaw disk s.shared past) :
    Follows warsaw disk (s.step warsaw event).1.shared (past ++ (s.step warsaw event).2) := by
  cases event with
  | poll i =>
    apply advance_follows _ s i follows
    intro s call
    obtain ⟨task, world, silent, -⟩ := poll_frame s call
    exact ⟨task, world, silent⟩
  | drop i => exact advance_follows drop_frame s i follows
  | other msg => exact follows_same rfl rfl follows
  | writerTick env => exact tick_follows (.writerTick env) (.writerTick env) (fun _ _ => rfl) follows
  | cleanupTick now deleted completed =>
    exact tick_follows (.cleanupTick now deleted completed) (.cleanupTick now deleted completed)
      (fun _ _ => rfl) follows
  | recv env => exact recv_follows env follows
  | lastFlush env => exact lastFlush_follows env follows

variable (warsaw disk) in
/-- A finished task has been through a whole `run`, from a new worker to the final flush. -/
theorem finished_is_run (n : Nat) (events : List ShutdownEvent) :
    let final := Machine.run (ShuttingDown.step warsaw) (.start disk n) events
    final.1.shared.task = .finished → ∃ schedule lastFlush channel r,
      run warsaw schedule lastFlush ⟨.new, disk⟩ channel = some r ∧ r.final = final.1.shared.world ∧
        r.outputs ++ r.lastFlush.map .pass = final.2 := by
  intro final finished
  have start : Follows warsaw disk (ShuttingDown.start disk n).shared [] := by
    refine ⟨[], [], fun rest channel => ?_⟩
    cases h : runLoop warsaw rest ⟨.new, disk⟩ channel <;> simp [ShuttingDown.start, prepend, h]
  have follows : Follows warsaw disk final.1.shared final.2 :=
    Machine.run_invariant_always (fun (s : ShuttingDown) past => Follows warsaw disk s.shared past)
      step_follows (.start disk n) [] start events
  simpa only [Follows, finished] using follows

end Task

/-! ## Calls in turn -/

/-- Whether the call has begun and not ended. -/
def busy : Shutdown → Nat
  | .created | .returned | .dropped => 0
  | .waiting | .promised | .take | .joining => 1

/-- A call is first polled while no other one is busy, and not dropped in `h.await`. -/
def InTurn (s : ShuttingDown) : ShutdownEvent → Prop
  | .poll call => s.threads[call]? = some .created → ∀ other ∈ s.threads, busy other = 0
  | .drop call => s.threads[call]? ≠ some .joining
  | _ => True

/-- At most one call is busy, and if the handle is gone that one waits for it, unless the
task has ended. -/
structure Orderly (s : ShuttingDown) : Prop where
  alone : total busy s.threads ≤ 1
  handle : s.shared.inner.handle = false → s.shared.task = .finished ∨ .joining ∈ s.threads

/-- A call that waits for the handle is still there after a step of another one. -/
theorem joining_stays {threads : List Shutdown} {i : Nat} {call : Shutdown} (new : Shutdown)
    (there : threads[i]? = some call) (other : call ≠ .joining) (joining : .joining ∈ threads) :
    .joining ∈ threads.set i new := by
  obtain ⟨j, waiting⟩ := List.mem_iff_getElem?.mp joining
  have different : i ≠ j := by
    rintro rfl
    rw [there] at waiting
    exact other (Option.some.inj waiting)
  exact List.mem_iff_getElem?.mpr ⟨j, (List.getElem?_set_ne different).trans waiting⟩

/-- Where the calls are in turn, one at the slot finds the handle. -/
theorem finds_of_orderly {s : ShuttingDown} (orderly : Orderly s) {i : Nat}
    (there : s.threads[i]? = some .take) :
    s.shared.inner.handle = true ∨ s.shared.task = .finished := by
  by_contra neither
  obtain ⟨empty, unfinished⟩ := not_or.mp neither
  have joining := (orderly.handle (by simpa using empty)).resolve_left unfinished
  have stays := joining_stays .created there (by decide) joining
  have two := total_set busy s.threads i .take .created there
  have one := le_total busy stays
  have := orderly.alone
  simp only [busy] at two one
  omega

/-- A poll makes no call busy but a new one. -/
theorem poll_busy (s : Service) {call : Shutdown} (begun : call ≠ .created) :
    busy (call.poll s).2.1 ≤ busy call := by
  cases call with
  | created => exact absurd rfl begun
  | waiting =>
    simp only [Shutdown.poll]
    split
    · exact Nat.le_refl 1
    · split <;> exact Nat.le_refl 1
  | promised => exact Nat.le_refl 1
  | take =>
    simp only [Shutdown.poll]
    split
    · exact Nat.le_refl 1
    · exact Nat.zero_le 1
  | joining =>
    simp only [Shutdown.poll]
    split
    · exact Nat.zero_le 1
    · exact Nat.le_refl 1
  | returned => exact Nat.le_refl 0
  | dropped => exact Nat.le_refl 0

theorem drop_busy (s : Service) (call : Shutdown) : busy (call.drop s).2.1 ≤ busy call := by
  cases call <;> simp [Shutdown.drop, busy]

theorem poll_orderly {s : ShuttingDown} (i : Nat) (orderly : Orderly s) (turn : InTurn s (.poll i)) :
    Orderly (s.advance Shutdown.poll i).1 := by
  cases there : s.threads[i]? with
  | none => rwa [Threads.advance_none there]
  | some call =>
    rw [Threads.advance_some there]
    obtain ⟨inside, -⟩ := List.getElem?_eq_some_iff.mp there
    obtain ⟨task, -, -, handle⟩ := poll_frame s.shared call
    constructor
    · have moved := total_set busy s.threads i call (call.poll s.shared).2.1 there
      by_cases new : call = .created
      · subst new
        have quiet := total_eq_zero busy s.threads (turn there)
        simp only [quiet, busy, Shutdown.poll] at moved ⊢
        omega
      · have := poll_busy s.shared new
        have := orderly.alone
        dsimp only
        omega
    · intro empty
      dsimp only at empty ⊢
      rw [task]
      by_cases atSlot : call = .take
      · subst atSlot
        rcases finds_of_orderly orderly there with held | finished
        · right
          unfold Shutdown.poll
          simp only [if_pos held]
          exact List.mem_set inside _
        · exact Or.inl finished
      · rw [handle atSlot] at empty
        rcases orderly.handle empty with finished | joining
        · exact Or.inl finished
        · by_cases itself : call = .joining
          · subst itself
            by_cases finished : s.shared.task = .finished
            · exact Or.inl finished
            · right
              unfold Shutdown.poll
              simp only [if_neg finished]
              exact List.mem_set inside _
          · exact Or.inr (joining_stays _ there itself joining)

theorem drop_orderly {s : ShuttingDown} (i : Nat) (orderly : Orderly s) (turn : InTurn s (.drop i)) :
    Orderly (s.advance Shutdown.drop i).1 := by
  cases there : s.threads[i]? with
  | none => rwa [Threads.advance_none there]
  | some call =>
    rw [Threads.advance_some there]
    have handle : (call.drop s.shared).1.inner.handle = s.shared.inner.handle := by
      cases call <;> rfl
    constructor
    · have moved := total_set busy s.threads i call (call.drop s.shared).2.1 there
      have := drop_busy s.shared call
      have := orderly.alone
      dsimp only
      omega
    · intro empty
      dsimp only at empty ⊢
      rw [handle] at empty
      rw [drop_task]
      refine (orderly.handle empty).imp_right fun joining => joining_stays _ there ?_ joining
      rintro rfl
      exact turn there

theorem worker_orderly {s : ShuttingDown} (shared : Service) (apart : Apart s.shared shared)
    (orderly : Orderly s) : Orderly { s with shared } :=
  ⟨orderly.alone, fun empty => (orderly.handle (apart.1.symm.trans empty)).imp_left apart.2⟩

theorem step_orderly (warsaw : DateTimeUtc → LocalDateTime) (s : ShuttingDown) (event : ShutdownEvent)
    (turn : InTurn s event) (orderly : Orderly s) : Orderly (s.step warsaw event).1 := by
  cases event with
  | poll i => exact poll_orderly i orderly turn
  | drop i => exact drop_orderly i orderly turn
  | other msg => exact ⟨orderly.alone, orderly.handle⟩
  | writerTick env => exact worker_orderly _ (tick_apart warsaw s.shared (.writerTick env)) orderly
  | cleanupTick now deleted completed =>
    exact worker_orderly _ (tick_apart warsaw s.shared (.cleanupTick now deleted completed)) orderly
  | recv env => exact worker_orderly _ (recv_apart warsaw s.shared env) orderly
  | lastFlush env => exact worker_orderly _ (lastFlush_apart warsaw s.shared env) orderly

/-- Calls made one after the other, none dropped while it waits for the handle, all wait for
the end of the task. -/
theorem calls_in_turn_wait (warsaw : DateTimeUtc → LocalDateTime) (disk : Disk) (n : Nat)
    (events : List ShutdownEvent)
    (turns : Machine.Allowed (ShuttingDown.step warsaw) InTurn (.start disk n) events) :
    Machine.Throughout (ShuttingDown.step warsaw) Waited (.start disk n) events := by
  have start : Orderly (.start disk n) := by
    constructor
    · unfold ShuttingDown.start
      rw [total_eq_zero busy]
      · exact Nat.zero_le 1
      · intro call member
        rw [List.eq_of_mem_replicate member]
        rfl
    · intro empty
      cases empty
  rw [Machine.throughout_iff_allowed (step_waited warsaw) (.start disk n) (start_waited disk n) events]
  generalize ShuttingDown.start disk n = s at turns start ⊢
  induction events generalizing s with
  | nil => trivial
  | cons event events ih =>
    refine ⟨?_, ih _ turns.2 (step_orderly warsaw s event turns.1 start)⟩
    cases event with
    | poll i => exact finds_of_orderly start
    | _ => trivial

/-- The first call waits for the handle, the second is polled as often. -/
def overlapping : List ShutdownEvent :=
  [.poll 0, .poll 0, .poll 0, .poll 0, .poll 1, .poll 1, .poll 1, .poll 1]

/-- The first call is dropped while it waits for the handle. -/
def cancelled : List ShutdownEvent :=
  [.poll 0, .poll 0, .poll 0, .poll 0, .drop 0, .poll 1, .poll 1, .poll 1, .poll 1]

/-- In both runs a call has returned while the worker is still in its loop. -/
theorem shutdown_returns_early :
    ¬ Waited (Machine.run (ShuttingDown.step warsawAtEpoch) (.start (fun _ => none) 2) overlapping).1 ∧
      ¬ Waited (Machine.run (ShuttingDown.step warsawAtEpoch) (.start (fun _ => none) 2) cancelled).1 := by
  constructor
  · intro waited
    have finished := waited .returned (by decide +kernel) rfl
    exact absurd finished (by decide +kernel)
  · intro waited
    have finished := waited .returned (by decide +kernel) rfl
    exact absurd finished (by decide +kernel)

end OpLog.Guarantees.Shutdown
