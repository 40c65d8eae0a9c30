import OpLog.Source.SendLog
import OpLog.Source.Service

/-!
# `shutdown`

`OpLog::shutdown` of `lib.rs` over the worker task that `OpLog::new` spawns. A call is a
future: it is polled, it waits at its two `await`s, and there it may be dropped. The take of
the handle is a step of its own, since another thread may come between it and the send.
The other way out of the loop, the closed channel, is left out: a call has a handle, so that
comes after the last call.
-/
namespace OpLog.Source
open Library

/-- Where the spawned task is: in its loop, in the flush behind it, or done. -/
inductive WorkerTask where
  | running
  | flushing
  | finished
  deriving DecidableEq, Repr

structure Service where
  inner : OpLogInner
  task : WorkerTask
  world : World

/-- Where a call of `shutdown` is. -/
inductive Shutdown where
  | created
  /-- in `send`, for want of room -/
  | waiting
  /-- in `send`, with a place promised -/
  | promised
  | take
  /-- in `h.await` -/
  | joining
  | returned
  | dropped
  deriving DecidableEq, Repr

/-- The call gets as far as its next step. -/
def Shutdown.poll (s : Service) : Shutdown → Service × Shutdown × List Output
  | .created => (s, .waiting, [])
  | .waiting =>
    if s.inner.tx.closed then (s, .take, [])
    else match s.inner.tx.reserve CHANNEL_CAPACITY with
      | some tx => ({ s with inner.tx := tx }, .promised, [])
      | none => (s, .waiting, [])
  | .promised => ({ s with inner.tx := s.inner.tx.send .stopService }, .take, [])
  | .take =>
    if s.inner.handle then ({ s with inner.handle := false }, .joining, [])
    else (s, .returned, [])
  | .joining => if s.task = .finished then (s, .returned, []) else (s, .joining, [])
  | .returned => (s, .returned, [])
  | .dropped => (s, .dropped, [])

/-- The future is dropped, which it can be where it is not being polled. -/
def Shutdown.drop (s : Service) : Shutdown → Service × Shutdown × List Output
  | .created => (s, .dropped, [])
  | .waiting => (s, .dropped, [])
  | .promised => ({ s with inner.tx := s.inner.tx.release }, .dropped, [])
  | .joining => (s, .dropped, [])
  | call => (s, call, [])

/-- The service and the calls of `shutdown` on its clones. -/
abbrev ShuttingDown := Threads Service Shutdown

/-- What `new` returns, with `n` futures of `shutdown` made from its clones. -/
def ShuttingDown.start (disk : Disk) (n : Nat) : ShuttingDown :=
  ⟨⟨⟨.empty, true, 0⟩, .running, ⟨.new, disk⟩⟩, List.replicate n .created⟩

inductive ShutdownEvent where
  | poll (call : Nat)
  | drop (call : Nat)
  /-- any other message, sent without waiting -/
  | other (msg : OpLogMessage)
  | writerTick (env : PassEnv)
  | cleanupTick (now : Instant) (deleted : String → Bool) (completed : Bool)
  | recv (env : MessageEnv)
  | lastFlush (env : OpLogWorker.FlushEnv)

section Warsaw
variable (warsaw : DateTimeUtc → LocalDateTime)

/-- A branch of the loop that is no message. -/
def Service.tick (s : Service) (event : Event) : Service × List Output :=
  if s.task = .running then
    let (world, out) := s.world.step warsaw event
    ({ s with world }, out)
  else (s, [])

def Service.recv (s : Service) (env : MessageEnv) : Service × List Output :=
  if s.task = .running then
    match s.inner.tx.recv with
    | none => (s, [])
    | some (.stopService, tx) => ({ s with inner.tx := tx, task := .flushing }, [])
    | some (msg, tx) =>
      let (world, out) := s.world.step warsaw (.message env msg)
      ({ s with inner.tx := tx, world }, out)
  else (s, [])

/-- The final flush, and the end of the task, which drops the receiver. -/
def Service.lastFlush (s : Service) (env : OpLogWorker.FlushEnv) : Service × List Output :=
  if s.task = .flushing then
    let (world, out) := s.world.flush warsaw env
    ({ s with inner.tx := s.inner.tx.close, task := .finished, world }, out)
  else (s, [])

/-- An event that cannot happen changes nothing. -/
def ShuttingDown.step (s : ShuttingDown) : ShutdownEvent → ShuttingDown × List Output
  | .poll call => s.advance Shutdown.poll call
  | .drop call => s.advance Shutdown.drop call
  | .other msg =>
    ({ s with shared.inner.tx := (s.shared.inner.tx.trySend CHANNEL_CAPACITY msg).getD s.shared.inner.tx }, [])
  | .writerTick env =>
    let (shared, out) := s.shared.tick warsaw (.writerTick env)
    ({ s with shared }, out)
  | .cleanupTick now deleted completed =>
    let (shared, out) := s.shared.tick warsaw (.cleanupTick now deleted completed)
    ({ s with shared }, out)
  | .recv env =>
    let (shared, out) := s.shared.recv warsaw env
    ({ s with shared }, out)
  | .lastFlush env =>
    let (shared, out) := s.shared.lastFlush warsaw env
    ({ s with shared }, out)

end Warsaw
end OpLog.Source
