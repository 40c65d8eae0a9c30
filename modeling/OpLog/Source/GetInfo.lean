import OpLog.Source.Shutdown

/-!
# `get_info`

`OpLog::get_info` of `lib.rs` and the reply of `get_info_and_flush`. A call makes a one-shot
channel, sends the sender in a `GetInfoAndFlush`, and waits for what comes. The senders in the
queue are kept next to it, in the order of their messages; a sender is used once, or dropped
with the message it is in. Around the calls are the worker and the calls of `shutdown`.
-/
namespace OpLog.Source
open Library

/-- Where a call of `get_info` is. -/
inductive GetInfo where
  | created
  /-- in `rx.await` -/
  | waiting
  /-- in `rx.await`, which has something to return -/
  | settled (reply : Option OpLogInfo)
  | returned (reply : Option OpLogInfo)
  | dropped
  deriving DecidableEq, Repr

/-- What becomes of the sender; a receiver that is gone does not notice. -/
def GetInfo.settle (reply : Option OpLogInfo) : GetInfo → GetInfo
  | .waiting => .settled reply
  | call => call

/-- The future is dropped. -/
def GetInfo.drop : GetInfo → GetInfo
  | .returned reply => .returned reply
  | _ => .dropped

structure Asking where
  system : ShuttingDown
  calls : List GetInfo
  senders : List Nat

inductive AskEvent where
  | poll (call : Nat)
  | drop (call : Nat)
  | service (event : ShutdownEvent)

inductive AskOutput where
  /-- the channel accepted the message of the call -/
  | sent (call : Nat)
  | received (msg : OpLogMessage)
  | reply (call : Nat) (info : OpLogInfo)
  /-- the sender of the call was dropped unused -/
  | lost (call : Nat)
  | out (output : Output)

namespace Asking

/-- What `new` returns, with futures of `shutdown` and of `get_info` made from its clones. -/
def start (disk : Disk) (n m : Nat) : Asking := ⟨.start disk n, List.replicate m .created, []⟩

def tx (s : Asking) : Channel := s.system.shared.inner.tx

def withTx (s : Asking) (tx : Channel) : Asking := { s with system.shared.inner.tx := tx }

/-- The call gets as far as its next step. -/
def poll (s : Asking) (call : Nat) : Asking × List AskOutput :=
  match s.calls[call]? with
  | some .created =>
    match s.tx.trySend CHANNEL_CAPACITY .getInfoAndFlush with
    | some tx =>
      ({ s.withTx tx with senders := s.senders ++ [call], calls := s.calls.set call .waiting },
        [.sent call])
    | none => ({ s with calls := s.calls.set call (.returned none) }, [])
  | some (.settled reply) => ({ s with calls := s.calls.set call (.returned reply) }, [])
  | _ => (s, [])

section Warsaw
variable (warsaw : DateTimeUtc → LocalDateTime)

/-- The loop receives a message; the reply to a call is sent behind the flush. -/
def recv (s : Asking) (env : MessageEnv) : Asking × List AskOutput :=
  let (system, out) := s.system.step warsaw (.recv env)
  match s.tx.queue, s.senders with
  | [], _ => (s, [])
  | .getInfoAndFlush :: _, call :: senders =>
    let info := s.system.shared.world.worker.info
    ({ system, senders, calls := s.calls.modify call (GetInfo.settle (some info)) },
      .received .getInfoAndFlush :: out.map .out ++ [.reply call info])
  | msg :: _, _ => ({ s with system }, .received msg :: out.map .out)

/-- The end of the task, which drops the queue, and with it the senders in it. -/
def lastFlush (s : Asking) (env : OpLogWorker.FlushEnv) : Asking × List AskOutput :=
  let (system, out) := s.system.step warsaw (.lastFlush env)
  ({ system
     calls := s.calls.mapIdx fun call place => if call ∈ s.senders then place.settle none else place
     senders := [] },
    out.map .out ++ s.senders.map .lost)

/-- An event of the service. Every `GetInfoAndFlush` comes from a call of `get_info`. -/
def service (s : Asking) : ShutdownEvent → Asking × List AskOutput
  | .recv env => if s.system.shared.task = .running then s.recv warsaw env else (s, [])
  | .lastFlush env => if s.system.shared.task = .flushing then s.lastFlush warsaw env else (s, [])
  | .other .getInfoAndFlush => (s, [])
  | event =>
    let (system, out) := s.system.step warsaw event
    ({ s with system }, out.map .out)

def step (s : Asking) : AskEvent → Asking × List AskOutput
  | .poll call => s.poll call
  | .drop call => ({ s with calls := s.calls.modify call GetInfo.drop }, [])
  | .service event => s.service warsaw event

end Warsaw
end Asking
end OpLog.Source
