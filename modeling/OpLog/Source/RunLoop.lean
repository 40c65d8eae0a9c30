import OpLog.Library.Response
import OpLog.Source.Shutdown

/-!
# The clocked loop

`OpLogWorker::run` with its two intervals and its `biased` select, where the untimed loop has
a choice. A round is one poll of the select: it comes at a time, and runs the first branch that
is ready then, or finds none and waits. The intervals are tokio's, with
`MissedTickBehavior::Delay`; `slack` is how much earlier than a period after the last tick the
next one may come, which it does after a tick that was taken a little late. What happens
outside the loop may come between any two rounds.
-/
namespace OpLog.Source
open Library

def WRITER_PERIOD : Duration := Duration.fromMillis 500

def CLEANUP_PERIOD : Duration := Duration.fromSecs (5 * 60)

def WRITE_TIMEOUT : Duration := Duration.fromSecs 15

inductive Branch where
  | writerTick
  | cleanupTick
  | recv (msg : OpLogMessage)
  deriving DecidableEq, Repr

/-- The branch the loop comes from, when it was selected, and whether it was a pass with an
attempt that hung until its timeout. -/
structure Round where
  branch : Branch
  start : Instant
  hung : Bool

structure RunLoop where
  system : ShuttingDown
  writerDue : Instant
  cleanupDue : Instant
  lastRound : Option Round

/-- What a round reads from outside, whichever branch it runs. -/
structure RoundEnv where
  now : Instant
  pass : PassEnv
  deleted : String → Bool
  completed : Bool
  message : MessageEnv

/-- Rounds of the loop, the flush behind it, and the calls on the handles. -/
inductive LoopEvent where
  | round (env : RoundEnv)
  | lastFlush (env : OpLogWorker.FlushEnv)
  | poll (call : Nat)
  | drop (call : Nat)
  | other (msg : OpLogMessage)

inductive LoopOutput where
  | ran (branch : Branch)
  | out (output : Output)

/-- The step of the untimed system that a branch is. -/
def Branch.event (env : RoundEnv) : Branch → ShutdownEvent
  | .writerTick => .writerTick env.pass
  | .cleanupTick => .cleanupTick env.now env.deleted env.completed
  | .recv _ => .recv env.message

/-- An attempt on the file is due, and its first call never comes back. -/
def LogFile.hangs (f : LogFile) (flushInterval : Duration) (env : AttemptEnv) : Bool :=
  !f.logs.isEmpty && !f.early flushInterval env.now &&
    match env.io.createDirAll with
    | .pending => true
    | .ready _ => false

def OpLogWorker.hangs (w : OpLogWorker) (env : PassEnv) : Bool :=
  w.definitions.entries.any fun e =>
    e.2.files.entries.any fun file => file.2.hangs e.2.flushInterval (env.attempt e.1 file.1)

namespace RunLoop

/-- `new` at this time: the first tick of an interval is due at once. -/
def start (disk : Disk) (n : Nat) (now : Instant) : RunLoop := ⟨.start disk n, now, now, none⟩

/-- `biased`: the branches are asked in their order. -/
def select (s : RunLoop) (now : Instant) : Option Branch :=
  if s.writerDue ≤ now then some .writerTick
  else if s.cleanupDue ≤ now then some .cleanupTick
  else s.system.shared.inner.tx.queue.head?.map .recv

section Warsaw
variable (warsaw : DateTimeUtc → LocalDateTime) {slack : Nat} (writer : Ticker WRITER_PERIOD slack)
  (cleanup : Ticker CLEANUP_PERIOD slack)

/-- An event of the untimed system. -/
def outside (s : RunLoop) (event : ShutdownEvent) : RunLoop × List LoopOutput :=
  let (system, out) := s.system.step warsaw event
  ({ s with system }, out.map .out)

/-- The branch is run, and its interval asked for its next tick. -/
def ran (s : RunLoop) (env : RoundEnv) (branch : Branch) : RunLoop × List LoopOutput :=
  let (system, out) := s.system.step warsaw (branch.event env)
  ({ system
     writerDue := if branch = .writerTick then writer.next s.writerDue env.now else s.writerDue
     cleanupDue := if branch = .cleanupTick then cleanup.next s.cleanupDue env.now else s.cleanupDue
     lastRound := some ⟨branch, env.now,
      decide (branch = .writerTick) && s.system.shared.world.worker.hangs env.pass⟩ },
    .ran branch :: out.map .out)

def step (s : RunLoop) : LoopEvent → RunLoop × List LoopOutput
  | .round env =>
    if s.system.shared.task = .running then
      match s.select env.now with
      | some branch => s.ran warsaw writer cleanup env branch
      | none => ({ s with lastRound := none }, [])
    else (s, [])
  | .lastFlush env => s.outside warsaw (.lastFlush env)
  | .poll call => s.outside warsaw (.poll call)
  | .drop call => s.outside warsaw (.drop call)
  | .other msg => s.outside warsaw (.other msg)

end Warsaw
end RunLoop
end OpLog.Source
