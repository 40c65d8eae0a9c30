import OpLog.Source.CleanUp
import OpLog.Source.WriteToFile

/-!
# The run loop

`service.rs`. A step of the worker is one branch of its `select!`; which branch comes next
is a choice of the schedule, and so are the clocks, the outcomes and the iteration orders
that the branch meets. The outputs are what a step does to the outside: entries passed to
`OpLogWorker::log`, passes of write attempts, replies to `GetInfoAndFlush`.
-/
namespace OpLog.Source

structure World where
  worker : OpLogWorker
  disk : Disk

inductive Output where
  /-- an entry passed to `log`, and where it went if its name is registered -/
  | logged (data : OpLogData) (route : Option Route)
  | pass (attempts : PassAttempts)
  | info (info : OpLogInfo)

/-- What the handling of one message reads from outside. -/
structure MessageEnv where
  now : Instant
  flush : OpLogWorker.FlushEnv

/-- A cleanup tick deletes the files of `deleted`; which ones is left open here. -/
inductive Event where
  | writerTick (env : PassEnv)
  | cleanupTick (now : Instant) (deleted : String → Bool) (completed : Bool)
  | message (env : MessageEnv) (msg : OpLogMessage)

section Warsaw
variable (warsaw : DateTimeUtc → LocalDateTime)

namespace OpLogWorker

/-- Where `log` puts an entry. -/
def routeOf (w : OpLogWorker) (data : OpLogData) : Option Route :=
  (w.definitions.get? data.logName).map fun d => d.route data.logName (warsaw data.date) data.log

def processLog (w : OpLogWorker) (data : OpLogData) (now : Instant) : OpLogWorker × List Output :=
  (w.log warsaw data.logName data.date data.log now, [.logged data (w.routeOf warsaw data)])

def processLogs (w : OpLogWorker) (now : Instant) : List OpLogData → OpLogWorker × List Output
  | [] => (w, [])
  | data :: rest =>
    let (w, out) := w.processLog warsaw data now
    let (w, outs) := processLogs w now rest
    (w, out ++ outs)

def processBundle (w : OpLogWorker) (bundle : OpLogBundle) (now : Instant) :
    OpLogWorker × List Output :=
  (bundle.definitions.foldl (fun w d => w.define d now) w).processLogs warsaw now bundle.logs

end OpLogWorker

namespace World

def cleanup (s : World) (now : Instant) (deleted : String → Bool) (completed : Bool) : World where
  worker := (s.worker.cleanUp now).noteCleanupOutcome completed
  disk := fun path => if deleted path then none else s.disk path

def flush (s : World) (env : OpLogWorker.FlushEnv) : World × List Output :=
  let (worker, disk, passes) := s.worker.flush warsaw env s.disk
  (⟨worker, disk⟩, passes.map .pass)

/-- The handling of a message; `StopService` only ends the loop. -/
def onMessage (s : World) (env : MessageEnv) : OpLogMessage → World × List Output
  | .stopService => (s, [])
  | .flush => s.flush warsaw env.flush
  | .getInfoAndFlush =>
    let info := s.worker.info
    let (s, passes) := s.flush warsaw env.flush
    (s, passes ++ [.info info])
  | .logBundle bundle =>
    let (worker, outs) := s.worker.processBundle warsaw bundle env.now
    ({ s with worker }, outs)
  | .logDefinition d => ({ s with worker := s.worker.define d env.now }, [])
  | .log data =>
    let (worker, outs) := s.worker.processLog warsaw data env.now
    ({ s with worker }, outs)
  | .cleanUpRemoveAllDefinitions =>
    ({ s with worker := s.worker.cleanUpRemoveAllDefinitions }, [])
  | .cleanUpDefinition d => ({ s with worker := s.worker.cleanUpDefinition d }, [])
  | .cleanUpBundle bundle => ({ s with worker := s.worker.cleanUpBundle bundle }, [])

def step (s : World) : Event → World × List Output
  | .writerTick env =>
    let (worker, disk, attempts) := s.worker.writeToFiles warsaw env s.disk
    (⟨worker, disk⟩, [.pass attempts])
  | .cleanupTick now deleted completed => (s.cleanup now deleted completed, [])
  | .message env msg => s.onMessage warsaw env msg

end World

/-- A branch of `select!`: a tick that is due, or a message received. -/
inductive Choice where
  | writerTick (env : PassEnv)
  | cleanupTick (now : Instant) (deleted : String → Bool) (completed : Bool)
  | recv (env : MessageEnv)

/-- What was put out before comes first. -/
def prepend (out : List Output) (r : World × List Output) : World × List Output :=
  (r.1, out ++ r.2)

/-- The loop over the messages the channel will deliver, in their order; receiving from the
empty list is finding the channel closed. `none` is a loop the schedule does not finish. -/
def runLoop : List Choice → World → List OpLogMessage → Option (World × List Output)
  | [], _, _ => none
  | choice :: rest, s, channel =>
    let next (event : Event) (channel : List OpLogMessage) : Option (World × List Output) :=
      let (s, out) := s.step warsaw event
      (runLoop rest s channel).map (prepend out)
    match choice, channel with
    | .writerTick env, channel => next (.writerTick env) channel
    | .cleanupTick now deleted completed, channel =>
      next (.cleanupTick now deleted completed) channel
    | .recv _, [] => some (s, [])
    | .recv _, .stopService :: _ => some (s, [])
    | .recv env, msg :: channel => next (.message env msg) channel

/-- What a finished `run` did: in its loop, and in the flush behind it. -/
structure RunResult where
  looped : World
  outputs : List Output
  final : World
  lastFlush : List PassAttempts

def run (schedule : List Choice) (lastFlush : OpLogWorker.FlushEnv) (s : World)
    (channel : List OpLogMessage) : Option RunResult :=
  (runLoop warsaw schedule s channel).map fun (looped, outputs) =>
    let (worker, disk, passes) := looped.worker.flush warsaw lastFlush looped.disk
    ⟨looped, outputs, ⟨worker, disk⟩, passes⟩

variable {warsaw}

/-- Receiving anything but the stop is a step. -/
theorem runLoop_recv (schedule : List Choice) (s : World) (env : MessageEnv) {msg : OpLogMessage}
    (going : msg ≠ .stopService) (channel : List OpLogMessage) :
    runLoop warsaw (.recv env :: schedule) s (msg :: channel) =
      (runLoop warsaw schedule (s.step warsaw (.message env msg)).1 channel).map
        (prepend (s.step warsaw (.message env msg)).2) := by
  cases msg <;> first | rfl | exact absurd rfl going

end Warsaw
end OpLog.Source
