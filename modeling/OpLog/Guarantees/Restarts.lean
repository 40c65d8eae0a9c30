import OpLog.Guarantees.Accepted
import OpLog.Guarantees.ReadBack

/-!
# Over the lives of the process

A process ends at any moment, killed in the middle of a write attempt or after a `shutdown`,
and the next one goes on with what the files have on disk. What a reader finds is what each
life has written, life after life; a life that is shut down with a flush that succeeds has
written all of its entries, and leaves its files whole. In every life the file is undisturbed as
in `ReadBack`: a process that is killed inside the magic line leaves a file that no reader takes.
-/
namespace OpLog.Guarantees.Restarts
open Library Library.FrameStream Format Source RoundTrip Delivery Accepted ReadBack OwnFile Recovery

section Warsaw
variable (warsaw : DateTimeUtc → LocalDateTime)

/-- One life, from the disk it finds to the disk it leaves. A life that is killed in an attempt
ends with one that is cut short where it was killed. -/
def lifetime (disk : Disk) (events : List Event) : Disk × List (World × List Output) :=
  let final := Machine.run (World.step warsaw) ⟨.new, disk⟩ events
  (final.1.disk, [final])

variable (inflate : Bytes → Option Bytes) (path name key : String)

/-- The blocks are the deliveries from the file's queue in a life, and the entries in none of them
are those that were dropped behind the last one or queued at the life's end. -/
def Recorded (final : World × List Output) (blocks : List String) : Prop :=
  ∃ q : DropQueue String, q.entries = routed name key final.2 ∧
    q.queue = (final.1.worker.file? name key).elim [] (·.logs) ∧
    q.dropped.length = (final.1.worker.file? name key).elim 0 (·.droppedLogs) ∧
    List.Forall₂ Shows q.history blocks

/-- Nothing disturbs the file in this life, and each of its attempts is as `Readable` has it: one
in which the life is killed too, so that it is not killed inside the magic line. -/
def Quiet (disk : Disk) (events : List Event) : Prop :=
  Machine.Allowed (World.step warsaw) (Undisturbed warsaw inflate path name key) ⟨.new, disk⟩ events

/-- No failed attempt of this life puts its whole frame on disk. -/
def Clean (disk : Disk) (events : List Event) : Prop :=
  Machine.Allowed (World.step warsaw) (NoneLands warsaw path name key) ⟨.new, disk⟩ events

variable {inflate path name key}

theorem recorded_run (disk : Disk) (events : List Event) :
    let final := Machine.run (World.step warsaw) ⟨.new, disk⟩ events
    Recorded name key final ((framesOf name key final.2).map text) := by
  intro final
  obtain ⟨q, entries, history, queue, dropped, -⟩ := run_balanced warsaw disk events name key
  exact ⟨q, entries, queue, dropped, shows_written history⟩

theorem run_lives (disk : Disk) (lives : List (List Event))
    (place : ∀ f, Forgetting.Located name key f → f.diskPath = path) {fs : List Bytes} {t : Bytes}
    (stores : Stores (disk path) fs t) {old : List String}
    (blocks : List.Forall₂ (Block inflate) fs old)
    (quiet : Machine.Allowed (lifetime warsaw) (Quiet warsaw inflate path name key) disk lives) :
    let final := Machine.run (lifetime warsaw) disk lives
    ∃ gs u found shown, Stores (final.1 path) gs u ∧
      List.Forall₂ (Block inflate) gs (old ++ found) ∧
      List.Forall₂ (Recorded name key) final.2 shown ∧ shown.flatten.Sublist found ∧
      (found = shown.flatten ↔
        Machine.Allowed (lifetime warsaw) (Clean warsaw path name key) disk lives) := by
  induction lives generalizing disk fs t old with
  | nil =>
    exact ⟨fs, t, [], [], stores, by rwa [List.append_nil], .nil, List.Sublist.refl _,
      iff_of_true rfl trivial⟩
  | cons events lives ih =>
    obtain ⟨first, rest⟩ := quiet
    obtain ⟨found, ⟨gs, u, stores', blocks', -⟩, order, exact⟩ :=
      found_run disk events place stores blocks first
    obtain ⟨hs, v, more, shown, stores'', blocks'', recorded, order', exact'⟩ :=
      ih _ stores' blocks' rest
    rw [List.append_assoc] at blocks''
    refine ⟨hs, v, found ++ more, _ :: shown, stores'', blocks'',
      .cons (recorded_run warsaw disk events) recorded, ?_, ?_⟩
    · rw [List.flatten_cons]
      exact order.append order'
    · rw [List.flatten_cons, append_eq_iff order order', exact, exact']
      rfl

variable (inflate) in
/-- In every life the file is the worker's own, as in `logged_entries_are_read_back`: no other
`LogFile` with entries is at its path, nothing deletes it, `metadata` never fails on it once it
exists, it is within the limit of the tail check whenever that is made, its payloads are below
`2 ^ 35` bytes, and no attempt fails, or is the one the process is killed in, with a part of the magic on
disk. Then a reader finds, behind the blocks there were, what each life of the process has written
to the file, life after life: the deliveries from its queue, of which no entry is missing but those
that were dropped and reported, or were not yet written when the life ended. It finds each of these
blocks once exactly if no attempt that failed, in whatever life, had put its whole frame on disk. -/
theorem lives_are_read_back (disk : Disk) (lives : List (List Event))
    (place : ∀ f, Forgetting.Located name key f → f.diskPath = path) {fs : List Bytes} {t : Bytes}
    (stores : Stores (disk path) fs t) {old : List String}
    (blocks : List.Forall₂ (Block inflate) fs old)
    (quiet : Machine.Allowed (lifetime warsaw) (Quiet warsaw inflate path name key) disk lives) :
    let final := Machine.run (lifetime warsaw) disk lives
    ∃ gs u found shown, Stores (final.1 path) gs u ∧
      decodeOplogFile inflate (MAGIC ++ gs.flatten) = some (old ++ found) ∧
      List.Forall₂ (Recorded name key) final.2 shown ∧ shown.flatten.Sublist found ∧
      (found = shown.flatten ↔
        Machine.Allowed (lifetime warsaw) (Clean warsaw path name key) disk lives) := by
  obtain ⟨gs, u, found, shown, stores', blocks', rest⟩ :=
    run_lives warsaw disk lives place stores blocks quiet
  exact ⟨gs, u, found, shown, stores', decode_blocks blocks' stores'.complete, rest⟩

/-- Of two lives the first is killed inside its frame. -/
def killedOnce : List (List Event) :=
  [[TwoWorkers.entry "logs" "one" 0, TwoWorkers.tick fun _ => TwoWorkers.cutShort],
    [TwoWorkers.entry "logs" "two" 0, TwoWorkers.tick fun _ => allDone]]

theorem lives_are_read_back_killed :
    let final := Machine.run (lifetime warsawAtEpoch) (fun _ => none) killedOnce
    ∃ gs u found shown, Stores (final.1 "logs/app.log") gs u ∧
      decodeOplogFile inflateStored (MAGIC ++ gs.flatten) = some ([] ++ found) ∧
      List.Forall₂ (Recorded "app" "logs/app.log") final.2 shown ∧ shown.flatten.Sublist found ∧
      (found = shown.flatten ↔ Machine.Allowed (lifetime warsawAtEpoch)
        (Clean warsawAtEpoch "logs/app.log" "app" "logs/app.log") (fun _ => none) killedOnce) := by
  have alone (s : World) (listed : ∀ place ∈ s.worker.queuedPaths, place.2 = "logs/app.log" →
      place.1 = ("app", "logs/app.log")) := onlyAt_of_listed listed
  exact lives_are_read_back warsawAtEpoch inflateStored (fun _ => none) killedOnce app_place .absent
    .nil ⟨⟨undisturbed_entry _ _ _ _ (alone _ (by decide +kernel)),
        undisturbed_tick _ _ (alone _ (by decide +kernel)) rfl rfl (by decide +kernel), trivial⟩,
      ⟨undisturbed_entry _ _ _ _ (alone _ (by decide +kernel)),
        undisturbed_tick _ _ (alone _ (by decide +kernel)) rfl rfl (by decide +kernel), trivial⟩,
      trivial⟩

/-! ## Lives that are shut down -/

/-- A log file whose tail is whole, unless an entry is still queued for it. -/
def Owed (s : FileState) : Prop :=
  ∃ fs t, Stores s.disk fs t ∧ (∀ f, s.live = some f → f.tailVerified = true → t = []) ∧
    (t = [] ∨ ∃ f, s.live = some f ∧ f.logs ≠ [])

/-- Within a life no step forgets a file with entries. -/
theorem step_owed (s : FileState) (e : FileEvent)
    (readable : Readable warsaw inflate s e ∧ e ≠ .restart) (owed : Owed s) :
    Owed (s.step warsaw e).1 := by
  obtain ⟨readable, lasting⟩ := readable
  obtain ⟨fs, t, stores, verified, queued⟩ := owed
  have still {e : FileEvent} (other : ∀ d flushInterval env, e ≠ .write d flushInterval env)
      (f' : LogFile) (live' : (s.step warsaw e).1.live = some f') (flag' : f'.tailVerified = true) :
      t = [] := by
    obtain ⟨f, live, flag⟩ := FileState.step_flag other live' flag'
    exact verified f live flag
  cases e with
  | queue d logName path log now =>
    exact ⟨fs, t, stores, still (by simp), Or.inr ⟨_, rfl, LogFile.addToLog_ne_nil _ _ _⟩⟩
  | cleanUp now =>
    refine ⟨fs, t, stores, still (by simp), queued.imp id ?_⟩
    · intro waiting
      obtain ⟨f, live, some_left⟩ := waiting
      have used : f.inUse now = true := by simp [LogFile.inUse, some_left]
      exact ⟨f, Option.filter_eq_some_iff.mpr ⟨live, used⟩, some_left⟩
  | restart => exact absurd rfl lasting
  | delete => exact absurd readable id
  | write d flushInterval env =>
    cases live : s.live with
    | none =>
      have same : s.step warsaw (.write d flushInterval env) = (s, []) := by
        unfold FileState.step
        simp only [live]
      rw [same]
      exact ⟨fs, t, stores, verified, queued⟩
    | some f =>
      rcases attempt_adds stores (verified f live) (readable.2 f live) with
        ⟨ops, result⟩ | ⟨error, u, result, some_left, after, -⟩ | ⟨frame, -, after, failed | written⟩
      · rw [FileState.step_write_ok live result, LogFile.afterSkip_eq]
        refine ⟨fs, t, by rw [ops]; exact stores, ?_, queued.imp id ?_⟩
        · intro f' live' flag
          cases live'
          exact verified f live flag
        · intro waiting
          obtain ⟨g, live', some_left⟩ := waiting
          rw [live] at live'
          cases live'
          exact ⟨_, rfl, some_left⟩
      · rw [FileState.step_write_error live result]
        refine ⟨fs, u, after, ?_, Or.inr ⟨_, rfl, some_left⟩⟩
        intro f' live' flag
        cases live'
        cases flag
      · obtain ⟨error, result, -⟩ := failed
        rw [FileState.step_write_error live result]
        exact ⟨_, [], after, fun _ _ _ => rfl, Or.inl rfl⟩
      · rw [FileState.step_write_ok live written]
        exact ⟨_, [], after, fun _ _ _ => rfl, Or.inl rfl⟩

/-- A life restarts nothing. -/
theorem no_restart {s : World} {e : Event} {step : FileEvent}
    (member : step ∈ eventsOn warsaw path name key s e) : step ≠ .restart := by
  rcases List.mem_append.mp member with worked | deleted
  · obtain ⟨op, -, rfl⟩ := List.mem_map.mp worked
    cases op <;> simp [event]
  · cases e with
    | cleanupTick now gone completed =>
      unfold deletion at deleted
      dsimp only at deleted
      split at deleted
      · rw [List.mem_singleton.mp deleted]
        simp
      · cases deleted
    | _ => cases deleted

/-- A file that was whole when the life began is whole when nothing is queued for it. -/
theorem whole_run (disk : Disk) (events : List Event)
    (place : ∀ f, Forgetting.Located name key f → f.diskPath = path) {fs : List Bytes}
    (stores : Stores (disk path) fs []) (quiet : Quiet warsaw inflate path name key disk events) :
    let final := (Machine.run (World.step warsaw) ⟨.new, disk⟩ events).1
    (∀ f, final.worker.file? name key = some f → f.logs = []) → OnBoundary (final.disk path) := by
  intro final empty
  have alone : Alone warsaw path name key disk events := quiet.mono fun _ _ h => h.1
  have admitted := (allowed_life (fun s e => Readable warsaw inflate s e ∧ e ≠ .restart) place
    alone).mpr
    (quiet.mono fun s e h => Machine.allowed_and h.2 fun _ member _ => no_restart warsaw member)
  have owed := Machine.run_state_invariant Owed (step_owed warsaw) (.start (disk path))
    ⟨fs, [], stores, fun _ _ _ => rfl, Or.inl rfl⟩ _ admitted
  rw [(run_life disk events place alone).1] at owed
  obtain ⟨gs, u, stores', -, queued⟩ := owed
  rcases queued with rfl | ⟨f, live, some_left⟩
  · exact ⟨gs, stores'⟩
  · exact absurd (empty f live) some_left

/-- The steps of a finished loop. -/
def taken : List Choice → List OpLogMessage → List Event
  | [], _ => []
  | choice :: rest, channel =>
    match choice, channel with
    | .writerTick env, channel => .writerTick env :: taken rest channel
    | .cleanupTick now deleted completed, channel =>
      .cleanupTick now deleted completed :: taken rest channel
    | .recv _, [] => []
    | .recv _, .stopService :: _ => []
    | .recv env, msg :: channel => .message env msg :: taken rest channel

variable {warsaw}

theorem run_taken (schedule : List Choice) (s : World) (channel : List OpLogMessage)
    {r : World × List Output} (returned : runLoop warsaw schedule s channel = some r) :
    Machine.run (World.step warsaw) s (taken schedule channel) = r := by
  induction schedule generalizing s channel r with
  | nil => cases returned
  | cons choice schedule ih =>
    have later (event : Event) (rest : List OpLogMessage)
        (returned : (runLoop warsaw schedule (s.step warsaw event).1 rest).map
          (prepend (s.step warsaw event).2) = some r) :
        Machine.run (World.step warsaw) s (event :: taken schedule rest) = r := by
      obtain ⟨r', loop, rfl⟩ := Option.map_eq_some_iff.mp returned
      rw [Machine.run_cons, ih _ rest loop]
      rfl
    cases choice with
    | writerTick env => exact later (.writerTick env) channel returned
    | cleanupTick now deleted completed =>
      exact later (.cleanupTick now deleted completed) channel returned
    | recv env =>
      cases channel with
      | nil => exact Option.some.inj returned
      | cons msg channel =>
        by_cases stop : msg = .stopService
        · subst stop
          exact Option.some.inj returned
        · rw [runLoop_recv schedule s env stop] at returned
          have step := later (.message env msg) channel returned
          cases msg <;> first | exact step | exact absurd rfl stop

end Warsaw

/-- What was logged before `shutdown` can be read behind it. When `run` has returned and its last
flush succeeded in time, every entry ahead of the stop has been passed to `log`, in order. Of a file
that was whole (or absent) and the worker's own, with what `logged_entries_are_read_back` assumes of
its attempts, a reader of the whole file finds the blocks there were and then, in order, blocks that
hold, or report as dropped, exactly the entries routed to it. It finds nothing else behind the old
blocks exactly if no attempt that failed had put its whole frame on disk. -/
theorem shutdown_leaves_all_readable (warsaw : DateTimeUtc → LocalDateTime)
    (inflate : Bytes → Option Bytes) {path name key : String} (disk : Disk)
    (schedule : List Choice) (lastFlush : MessageEnv) (channel : List OpLogMessage) (r : RunResult)
    (returned : run warsaw schedule lastFlush.flush ⟨.new, disk⟩ channel = some r)
    (place : ∀ f, Forgetting.Located name key f → f.diskPath = path) {fs : List Bytes}
    (stores : Stores (disk path) fs []) {old : List String}
    (blocks : List.Forall₂ (Block inflate) fs old)
    (quiet : Quiet warsaw inflate path name key disk
      (taken schedule channel ++ [.message lastFlush .flush]))
    (succeeds : ∀ attempts ∈ r.lastFlush, Drain.Succeeds attempts)
    (inTime : InTime lastFlush.flush r) :
    logged r.outputs = (ahead channel).flatMap entriesOf ∧
    ∃ gs found shown, ∃ history : List (Delivery String),
      Stores (r.final.disk path) gs [] ∧
      decodeOplogFile inflate (MAGIC ++ gs.flatten) = some (old ++ found) ∧
      history.flatMap Delivery.entries = routed name key r.outputs ∧
      List.Forall₂ Shows history shown ∧ shown.Sublist found ∧
      (found = shown ↔ Clean warsaw path name key disk
        (taken schedule channel ++ [.message lastFlush .flush])) := by
  obtain ⟨⟨looped, outputs⟩, loop, same⟩ := Option.map_eq_some_iff.mp returned
  obtain ⟨entries, -⟩ := runLoop_spec schedule ⟨.new, disk⟩ channel looped outputs loop
  cases same
  refine ⟨entries, ?_⟩
  have steps := run_taken schedule ⟨.new, disk⟩ channel loop
  have whole : Machine.run (World.step warsaw) ⟨.new, disk⟩
      (taken schedule channel ++ [.message lastFlush .flush]) =
        ((looped.flush warsaw lastFlush.flush).1,
          outputs ++ (looped.flush warsaw lastFlush.flush).2) := by
    rw [Machine.run_append, steps, Machine.run_cons, Machine.run_nil, List.append_nil]
    rfl
  have balanced := run_balanced warsaw disk (taken schedule channel)
  rw [steps] at balanced
  -- which attempts made the frames no longer matters to a reader
  have made : Balanced (fun _ => True) looped.worker outputs :=
    balanced_mono (fun _ _ => trivial) balanced
  obtain ⟨empty, settled⟩ :=
    flush_settles made lastFlush.flush (fun _ => trivial) looped.disk succeeds inTime
  obtain ⟨found, ⟨gs, u, stores', blocks', -⟩, order, exact⟩ :=
    found_run disk _ place stores blocks quiet
  have boundary := whole_run warsaw disk _ place stores quiet
  rw [whole] at stores' order exact boundary
  obtain ⟨hs, last⟩ := boundary (empty name key)
  obtain ⟨rfl, rfl⟩ := last.unique stores'
  obtain ⟨history, complete, frames⟩ := settled name key
  exact ⟨hs, found, _, history, last, decode_blocks blocks' last.complete, complete,
    shows_written frames, order, exact⟩

/-- The last flush makes one pass. -/
def lastFlush : MessageEnv := ⟨0, ⟨fun _ => TwoWorkers.answers fun _ => allDone, 0⟩⟩

def bundleAndStop : List OpLogMessage :=
  [.logBundle ⟨[⟨"app", .noSplit, "", "logs", [], 0, false⟩], [⟨"app", "one", 0⟩]⟩, .stopService]

theorem undisturbed_flush (s : World) (alone : s.worker.OnlyAt path name key)
    (small : (s.disk path).elim 0 List.length ≤ 1000) :
    Undisturbed warsawAtEpoch inflateStored path name key s (.message lastFlush .flush) := by
  have pass := readable_pass name key s (fun _ => Duration.fromMillis 0) allDone rfl rfl small
  refine ⟨alone, ?_⟩
  unfold eventsOn deletion
  rw [List.append_nil]
  exact pass

theorem twoReceives_return : (run warsawAtEpoch [.recv lastFlush, .recv lastFlush] lastFlush.flush
    ⟨.new, fun _ => none⟩ bundleAndStop).isSome = true := by
  decide +kernel

def shutDown : RunResult := Option.get _ twoReceives_return

theorem shutdown_leaves_all_readable_one :
    logged shutDown.outputs = [⟨"app", "one", 0⟩] ∧ ∃ gs found shown,
      ∃ history : List (Delivery String), Stores (shutDown.final.disk "logs/app.log") gs [] ∧
        decodeOplogFile inflateStored (MAGIC ++ gs.flatten) = some ([] ++ found) ∧
        history.flatMap Delivery.entries = routed "app" "logs/app.log" shutDown.outputs ∧
        List.Forall₂ Shows history shown ∧ shown.Sublist found ∧
        (found = shown ↔ Clean warsawAtEpoch "logs/app.log" "app" "logs/app.log" (fun _ => none)
          (taken [.recv lastFlush, .recv lastFlush] bundleAndStop ++
            [.message lastFlush .flush])) := by
  refine shutdown_leaves_all_readable warsawAtEpoch inflateStored (fun _ => none)
    [.recv lastFlush, .recv lastFlush] lastFlush bundleAndStop shutDown (Option.some_get _).symm
    app_place .absent .nil ⟨undisturbed_entry _ _ _ _ ?_, undisturbed_flush _ ?_ ?_, trivial⟩ ?_ ?_
  · exact onlyAt_of_listed (by decide +kernel)
  · exact onlyAt_of_listed (by decide +kernel)
  · decide +kernel
  · unfold Drain.Succeeds
    decide +kernel
  · right
    have one := Drain.bounded_logCount shutDown.looped.worker
    rwa [show shutDown.looped.worker.logCount = 1 by decide +kernel] at one

end OpLog.Guarantees.Restarts
