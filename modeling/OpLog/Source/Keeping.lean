import OpLog.Source.FileOps

/-!
# A worker that forgets no file

The worker with the first `retain` of `clean_up` left out: a `LogFile` that has been idle stays
in its definition's map. Everything else is the worker's own.
-/
namespace OpLog.Source
open Library

def OpLogWorker.cleanUpKeeping (w : OpLogWorker) (now : Instant) : OpLogWorker :=
  { w with definitions := w.definitions.retain fun _ d => d.inUse now }

/-- What it may still remove is a definition registered for that. -/
theorem OpLogWorker.get?_cleanUpKeeping {w : OpLogWorker} {name : String}
    (lasting : ∀ d, w.definitions.get? name = some d → d.autoRemoveDefinition = false) (now : Instant) :
    (w.cleanUpKeeping now).definitions.get? name = w.definitions.get? name := by
  unfold cleanUpKeeping
  rw [KeyedMap.get?_retain]
  cases stored : w.definitions.get? name with
  | none => rfl
  | some d => rw [Option.filter_some, if_pos (LogDefinition.inUse_of_lasting (lasting d stored) now)]

def World.cleanupKeeping (s : World) (now : Instant) (deleted : String → Bool) (completed : Bool) :
    World where
  worker := (s.worker.cleanUpKeeping now).noteCleanupOutcome completed
  disk := fun path => if deleted path then none else s.disk path

def World.stepKeeping (warsaw : DateTimeUtc → LocalDateTime) (s : World) :
    Event → World × List Output
  | .cleanupTick now deleted completed => (s.cleanupKeeping now deleted completed, [])
  | event => s.step warsaw event

/-- The error of an attempt that is reported on stderr. -/
def Attempt.report (a : Attempt) : Option IoError :=
  match a.result with
  | .error e => if a.reported then some e else none
  | .ok _ => none

/-- The write errors reported about one file. -/
def reportsOn (name key : String) (outputs : List Output) : List IoError :=
  (attemptsOn name key outputs).filterMap Attempt.report

end OpLog.Source
