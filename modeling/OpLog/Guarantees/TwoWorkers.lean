import OpLog.Guarantees.Alike

/-!
# The two workers in a run

The worker that forgets idle files and the one that does not, side by side on the same events.
-/
namespace OpLog.Guarantees.TwoWorkers
open Library Source Format Forgetting

/-! ## Runs -/

/-- What is asked of an event that writes. -/
def Writes (s t : World) (env : PassEnv) : Prop := s.worker.Apart ∧ Checked s.worker t.worker env

/-- What is asked of an event: a definition it registers lasts; where it writes, no two
`LogFile`s with entries name the same file on disk, and a tail check that the one worker makes
and the other does not meets no error. -/
def Comparable (s t : World) : Event → Prop
  | .writerTick env => Writes s t env
  | .cleanupTick _ _ _ => True
  | .message env msg =>
    match msg with
    | .flush => Writes s t (env.flush.pass 0)
    | .getInfoAndFlush => Writes s t (env.flush.pass 0)
    | .logBundle bundle => ∀ d ∈ bundle.definitions, d.autoRemoveDefinition = false
    | .logDefinition d => d.autoRemoveDefinition = false
    | _ => True

section Warsaw
variable (warsaw : DateTimeUtc → LocalDateTime)

/-- The same disk, and workers alike on it. -/
def Paired (s t : World) : Prop := t.disk = s.disk ∧ Alike s.disk s.worker t.worker

theorem paired_flush {s t : World} (paired : Paired s t) (env : OpLogWorker.FlushEnv)
    (writes : Writes s t (env.pass 0)) :
    Paired (s.flush warsaw env).1 (t.flush warsaw env).1 ∧ ∀ name key,
      reportsOn name key (t.flush warsaw env).2 = reportsOn name key (s.flush warsaw env).2 := by
  obtain ⟨same, alike⟩ := paired
  obtain ⟨apart, checked⟩ := writes
  obtain ⟨same', alike', reports⟩ :=
    alike_flushLoop warsaw env.pass env.deadline 0 alike apart.unshared checked
  unfold World.flush OpLogWorker.flush
  rw [same]
  exact ⟨⟨same', alike'⟩, reports⟩

/-- One event. -/
theorem paired_step (s t : World) (event : Event) (comparable : Comparable s t event)
    (paired : Paired s t) :
    Paired (s.step warsaw event).1 (t.stepKeeping warsaw event).1 ∧ ∀ name key,
      reportsOn name key (t.stepKeeping warsaw event).2 =
        reportsOn name key (s.step warsaw event).2 := by
  obtain ⟨same, alike⟩ := paired
  cases event with
  | writerTick env =>
    obtain ⟨apart, checked⟩ := comparable
    have pass := alike_pass warsaw (·.flushInterval) env alike apart.unshared (fun _ _ => rfl) checked
    have each := kin_pass warsaw (·.flushInterval) env alike apart.unshared (fun _ _ => rfl) checked
    unfold World.stepKeeping World.step OpLogWorker.writeToFiles
    rw [same]
    refine ⟨pass, fun name key => ?_⟩
    rw [reportsOn_pass, reportsOn_pass]
    exact (each name key).1
  | cleanupTick now deleted completed =>
    have fewer (path : String) (c : Bytes) (left : c ∈ if deleted path then none else s.disk path) :
        c ∈ s.disk path := by
      split at left
      · cases left
      · exact left
    unfold World.stepKeeping World.step World.cleanup World.cleanupKeeping
    rw [same]
    exact ⟨⟨rfl, alike_deletion (alike_noted (alike_cleanUp alike now) completed) fewer⟩, fun _ _ => rfl⟩
  | message env msg =>
    cases msg with
    | flush => exact paired_flush warsaw ⟨same, alike⟩ env.flush comparable
    | getInfoAndFlush =>
      obtain ⟨after, reports⟩ := paired_flush warsaw ⟨same, alike⟩ env.flush comparable
      refine ⟨after, fun name key => ?_⟩
      unfold World.stepKeeping World.step World.onMessage
      dsimp only
      rw [reportsOn_append, reportsOn_append, reports]
      rfl
    | logBundle bundle =>
      unfold World.stepKeeping World.step World.onMessage OpLogWorker.processBundle
      refine ⟨⟨same, ?_⟩, fun name key => ?_⟩
      · exact alike_logs warsaw (alike_define_all alike comparable env.now) bundle.logs env.now
      · unfold reportsOn
        rw [World.attemptsOn_logs, World.attemptsOn_logs]
    | logDefinition d => exact ⟨⟨same, alike_define alike comparable env.now⟩, fun _ _ => rfl⟩
    | log data => exact ⟨⟨same, alike_log warsaw alike data env.now⟩, fun _ _ => rfl⟩
    | _ => exact ⟨⟨same, alike.definitions, alike.lasting, alike.files⟩, fun _ _ => rfl⟩

/-- Forgetting an idle file is unobservable: from any disk, a comparable run leaves the same
bytes in every file and reports the same write errors about it, whether the worker forgets idle
files or not. -/
theorem forgetting_is_unobservable (disk : Disk) (events : List Event)
    (comparable : Machine.Lockstep (World.step warsaw) (World.stepKeeping warsaw) Comparable
      ⟨.new, disk⟩ ⟨.new, disk⟩ events) :
    let forgetting := Machine.run (World.step warsaw) ⟨.new, disk⟩ events
    let keeping := Machine.run (World.stepKeeping warsaw) ⟨.new, disk⟩ events
    keeping.1.disk = forgetting.1.disk ∧
      ∀ name key, reportsOn name key keeping.2 = reportsOn name key forgetting.2 := by
  intro forgetting keeping
  have start : Paired ⟨.new, disk⟩ ⟨.new, disk⟩ := ⟨rfl, alike_new disk⟩
  have joined (out out' outs outs' : List Output)
      (first : ∀ name key, reportsOn name key out' = reportsOn name key out)
      (rest : ∀ name key, reportsOn name key outs' = reportsOn name key outs) (name key : String) :
      reportsOn name key (out' ++ outs') = reportsOn name key (out ++ outs) := by
    rw [reportsOn_append, reportsOn_append, first, rest]
  obtain ⟨⟨same, -⟩, reports⟩ := Machine.run_lockstep Paired
    (fun out out' => ∀ name key, reportsOn name key out' = reportsOn name key out) (fun _ _ => rfl)
    joined (paired_step warsaw) start comparable
  exact ⟨same, reports⟩

end Warsaw

/-! ## Runs in which a file is forgotten -/

def start : World := ⟨.new, fun _ => none⟩

/-- An entry for `app`, with the definition that sends it to a directory. -/
def entry (path text : String) (now : Instant) : Event :=
  .message ⟨now, ⟨fun _ => passEnv (storedEnv allDone), 0⟩⟩
    (.logBundle ⟨[⟨"app", .noSplit, "", path, [], 0, false⟩], [⟨"app", text, 0⟩]⟩)

/-- The answers to the attempts of a pass, by the key of the file. -/
def answers (io : String → WriteIo) : PassEnv :=
  ⟨fun _ key => storedEnv (io key), fun _ => 0, fun _ _ => 0⟩

def tick (io : String → WriteIo) : Event := .writerTick (answers io)

def cleanUp : Event := .cleanupTick IDLE (fun _ => false) true

def forgottenOnce : List Event :=
  [entry "logs" "one" 0, tick fun _ => allDone, cleanUp, entry "logs" "two" IDLE, tick fun _ => allDone]

theorem forgetting_is_unobservable_once :
    let forgetting := Machine.run (World.step warsawAtEpoch) start forgottenOnce
    let keeping := Machine.run (World.stepKeeping warsawAtEpoch) start forgottenOnce
    keeping.1.disk = forgetting.1.disk ∧
      ∀ name key, reportsOn name key keeping.2 = reportsOn name key forgetting.2 := by
  have checks : Checks allDone.tail := ⟨rfl, rfl, rfl, rfl⟩
  have lasts (s t : World) (path text : String) (now : Instant) :
      Comparable s t (entry path text now) := by
    intro d member
    rw [List.mem_singleton.mp member]
  apply forgetting_is_unobservable
  exact ⟨lasts _ _ _ _ _, ⟨by decide +kernel, fun _ _ _ => checks⟩, trivial, lasts _ _ _ _ _,
    ⟨by decide +kernel, fun _ _ _ => checks⟩, trivial⟩

/-- A frame is cut short, and the check of the tail may be refused. -/
def cutShort : WriteIo := { allDone with payload := .failed .storageFull 2 }

def refusedCheck : WriteIo :=
  { allDone with tail := { allDone.tail with openFile := .error .permissionDenied } }

/-- The directory is written in two ways; the torn frame of the second is behind the first's back. -/
def sharedPath : List Event :=
  [entry "logs" "one" 0, tick fun _ => allDone, cleanUp, entry "logs/" "two" IDLE, tick fun _ => cutShort,
    entry "logs" "three" IDLE,
    tick fun key => if key = "logs/app.log" then allDone else { allDone with createDirAll := .pending }]

def checkRefused : List Event :=
  [entry "logs" "one" 0, tick fun _ => allDone, cleanUp, entry "logs" "two" IDLE, tick fun _ => refusedCheck]

/-- A step whose pass visits the files in the order in which they are stored. -/
def storedStep (step : World → Event → World × List Output) (s : World) :
    Event → World × List Output
  | .writerTick env =>
    let out := s.worker.definitions.mapAccum (fun name d disk =>
      let out := d.files.mapAccum (fun key f disk =>
        let out := d.writeOne warsawAtEpoch d.flushInterval (env.attempt name key) f (disk f.diskPath)
        (out.1, disk.set f.diskPath (applyOps out.2.ops (disk f.diskPath)), out.2)) disk
      ({ d with files := out.1 }, out.2.1, out.2.2)) s.disk
    (⟨{ s.worker with definitions := out.1 }, out.2.1⟩, [.pass out.2.2])
  | event => step s event

theorem step_stored {step : World → Event → World × List Output}
    (ticks : ∀ s env, step s (.writerTick env) = s.step warsawAtEpoch (.writerTick env))
    {event : Event} (answered : ∀ env, event = .writerTick env → ∃ io, env = answers io) (s : World) :
    step s event = storedStep step s event := by
  cases event with
  | writerTick env =>
    obtain ⟨io, rfl⟩ := answered env rfl
    rw [ticks]
    unfold World.step OpLogWorker.writeToFiles OpLogWorker.writePass LogDefinition.writeToFile answers
    simp only [KeyedMap.reorder_const]
    rfl
  | cleanupTick now deleted completed => rfl
  | message env msg => rfl

theorem sharedPath_stored (step : World → Event → World × List Output)
    (ticks : ∀ s env, step s (.writerTick env) = s.step warsawAtEpoch (.writerTick env)) :
    Machine.run step start sharedPath = Machine.run (storedStep step) start sharedPath := by
  apply Machine.run_congr
  intro event member
  apply step_stored ticks
  rintro env rfl
  simp only [sharedPath, tick, entry, cleanUp, List.mem_cons, List.not_mem_nil, reduceCtorEq, false_or,
    or_false, Event.writerTick.injEq] at member
  rcases member with rfl | rfl | rfl
  · exact ⟨_, rfl⟩
  · exact ⟨_, rfl⟩
  · exact ⟨_, rfl⟩

/-- Where two `LogFile`s have entries for one file, the bytes differ; where the check of a tail
fails, the reports do. -/
theorem forgetting_shows :
    (Machine.run (World.stepKeeping warsawAtEpoch) start sharedPath).1.disk "logs/app.log" ≠
        (Machine.run (World.step warsawAtEpoch) start sharedPath).1.disk "logs/app.log" ∧
      reportsOn "app" "logs/app.log"
          (Machine.run (World.stepKeeping warsawAtEpoch) start checkRefused).2 = [] ∧
      reportsOn "app" "logs/app.log"
          (Machine.run (World.step warsawAtEpoch) start checkRefused).2 = [.permissionDenied] := by
  rw [sharedPath_stored (World.stepKeeping warsawAtEpoch) fun _ _ => rfl,
    sharedPath_stored (World.step warsawAtEpoch) fun _ _ => rfl]
  decide +kernel

end OpLog.Guarantees.TwoWorkers
