import OpLog.Library.Threads
import OpLog.Source.Channel

/-!
# `send_log` and `log_bundle`

`OpLogInner::send_log` of `lib.rs`: once as one call, and once as the atomic steps that the
threads on clones of one handle interleave. `dropped_logs` is a natural number here; no
value of it exceeds the number of calls made, so the 64 bits of the source are enough for
`2 ^ 64 - 1` of them.
-/
namespace OpLog.Source
open Library

/-- What the clones share; `handle` tells whether the slot still holds the join handle. -/
structure OpLogInner where
  tx : Channel
  handle : Bool
  droppedLogs : Nat

/-- The entry that reports `pending` drops, next to the entry `data`. -/
def dropNotice (data : OpLogData) (pending : Nat) : OpLogData where
  logName := data.logName
  log := s!"[op-log] dropped {pending} log entries (channel full)"
  date := data.date

variable (capacity : Nat)

/-- A call that no other one interrupts. -/
def OpLogInner.sendLog (inner : OpLogInner) (data : OpLogData) : OpLogInner :=
  let pending := inner.droppedLogs
  let inner := { inner with droppedLogs := 0 }
  let inner :=
    if pending > 0 then
      match inner.tx.trySend capacity (.log (dropNotice data pending)) with
      | some tx => { inner with tx }
      | none => { inner with droppedLogs := inner.droppedLogs + pending }
    else inner
  match inner.tx.trySend capacity (.log data) with
  | some tx => { inner with tx }
  | none => { inner with droppedLogs := inner.droppedLogs + 1 }

/-- `log_bundle`: a failed `try_send` is ignored. -/
def OpLogInner.logBundle (inner : OpLogInner) (bundle : OpLogBundle) : OpLogInner :=
  match inner.tx.trySend capacity (.logBundle bundle) with
  | some tx => { inner with tx }
  | none => inner

/-! ## Its atomic steps -/

/-- Where a thread is: in no call, or ahead of one of the atomic steps of a call. -/
inductive SendLog where
  | idle
  | swap (data : OpLogData)
  | trySendNotice (data : OpLogData) (pending : Nat)
  | addPending (data : OpLogData) (pending : Nat)
  | trySend (data : OpLogData)
  | addOne
  deriving DecidableEq

inductive SendOutput where
  | called (data : OpLogData)
  /-- the channel accepted the notice of so many drops -/
  | notice (data : OpLogData) (pending : Nat)
  /-- the channel accepted the entry -/
  | entry (data : OpLogData)
  deriving DecidableEq

def SendLog.step (inner : OpLogInner) : SendLog → OpLogInner × SendLog × List SendOutput
  | .idle => (inner, .idle, [])
  | .swap data =>
    ({ inner with droppedLogs := 0 },
      if inner.droppedLogs > 0 then .trySendNotice data inner.droppedLogs else .trySend data, [])
  | .trySendNotice data pending =>
    match inner.tx.trySend capacity (.log (dropNotice data pending)) with
    | some tx => ({ inner with tx }, .trySend data, [.notice (dropNotice data pending) pending])
    | none => (inner, .addPending data pending, [])
  | .addPending data pending =>
    ({ inner with droppedLogs := inner.droppedLogs + pending }, .trySend data, [])
  | .trySend data =>
    match inner.tx.trySend capacity (.log data) with
    | some tx => ({ inner with tx }, .idle, [.entry data])
    | none => (inner, .addOne, [])
  | .addOne => ({ inner with droppedLogs := inner.droppedLogs + 1 }, .idle, [])

/-- The handle and the threads that call `send_log` on its clones. -/
abbrev Senders := Threads OpLogInner SendLog

/-- `n` threads, none of them in a call yet, and nothing dropped. -/
def Senders.start (tx : Channel) (n : Nat) : Senders := ⟨⟨tx, true, 0⟩, List.replicate n .idle⟩

/-- Besides the threads of `send_log` move the worker, which receives or is gone, and the
other senders. -/
inductive SendEvent where
  | call (thread : Nat) (data : OpLogData)
  | advance (thread : Nat)
  | recv
  | close
  | other (msg : OpLogMessage)
  | reserve
  | send (msg : OpLogMessage)
  | release

def SendLog.call (data : OpLogData) (inner : OpLogInner) :
    SendLog → OpLogInner × SendLog × List SendOutput
  | .idle => (inner, .swap data, [.called data])
  | busy => (inner, busy, [])

def Senders.withTx (s : Senders) (tx : Channel) : Senders :=
  { s with shared := { s.shared with tx } }

/-- An event that cannot happen changes nothing. -/
def Senders.step (s : Senders) : SendEvent → Senders × List SendOutput
  | .call thread data => s.advance (SendLog.call data) thread
  | .advance thread => s.advance (SendLog.step capacity) thread
  | .recv => (s.withTx ((s.shared.tx.recv).elim s.shared.tx Prod.snd), [])
  | .close => (s.withTx s.shared.tx.close, [])
  | .other msg => (s.withTx ((s.shared.tx.trySend capacity msg).getD s.shared.tx), [])
  | .reserve => (s.withTx ((s.shared.tx.reserve capacity).getD s.shared.tx), [])
  | .send msg =>
    if s.shared.tx.reserved > 0 then (s.withTx (s.shared.tx.send msg), []) else (s, [])
  | .release => (s.withTx s.shared.tx.release, [])

/-! ## One call alone -/

/-- A thread in no call stays there. -/
theorem Senders.run_idle (inner : OpLogInner) (n : Nat) :
    (Machine.run (Senders.step capacity) ⟨inner, [.idle]⟩ (List.replicate n (.advance 0))).1 =
      ⟨inner, [.idle]⟩ := by
  induction n with
  | zero => rfl
  | succ n ih =>
    rw [List.replicate_succ, Machine.run_cons]
    exact ih

/-- From the entry on a call has at most two steps to go. -/
theorem Senders.run_trySend (inner : OpLogInner) (data : OpLogData) (n : Nat) :
    (Machine.run (Senders.step capacity) ⟨inner, [.trySend data]⟩
        (List.replicate (n + 2) (.advance 0))).1 =
      ⟨match inner.tx.trySend capacity (.log data) with
        | some tx => { inner with tx }
        | none => { inner with droppedLogs := inner.droppedLogs + 1 }, [.idle]⟩ := by
  rw [List.replicate_succ, Machine.run_cons]
  cases entry : inner.tx.trySend capacity (.log data) with
  | some tx =>
    simp only [Senders.step, Threads.advance, List.getElem?_cons_zero, SendLog.step, entry,
      List.set_cons_zero]
    exact Senders.run_idle capacity _ (n + 1)
  | none =>
    simp only [Senders.step, Threads.advance, List.getElem?_cons_zero, SendLog.step, entry,
      List.set_cons_zero]
    rw [List.replicate_succ, Machine.run_cons]
    exact Senders.run_idle capacity _ n

/-- The steps of one call on end are the call. -/
theorem Senders.run_alone (inner : OpLogInner) (data : OpLogData) :
    (Machine.run (Senders.step capacity) ⟨inner, [.idle]⟩
      (.call 0 data :: List.replicate 5 (.advance 0))).1 = ⟨inner.sendLog capacity data, [.idle]⟩ := by
  rw [Machine.run_cons, List.replicate_succ, Machine.run_cons]
  by_cases pending : inner.droppedLogs > 0
  · simp only [Senders.step, Threads.advance, List.getElem?_cons_zero, SendLog.call, SendLog.step,
      List.set_cons_zero, OpLogInner.sendLog, pending, if_true]
    rw [List.replicate_succ, Machine.run_cons]
    cases notice : inner.tx.trySend capacity (.log (dropNotice data inner.droppedLogs)) with
    | some tx =>
      simp only [Senders.step, Threads.advance, List.getElem?_cons_zero, SendLog.step, notice,
        List.set_cons_zero]
      exact Senders.run_trySend capacity _ data 1
    | none =>
      simp only [Senders.step, Threads.advance, List.getElem?_cons_zero, SendLog.step, notice,
        List.set_cons_zero]
      rw [List.replicate_succ, Machine.run_cons]
      exact Senders.run_trySend capacity _ data 0
  · simp only [Senders.step, Threads.advance, List.getElem?_cons_zero, SendLog.call, SendLog.step,
      List.set_cons_zero, OpLogInner.sendLog, pending, if_false]
    exact Senders.run_trySend capacity _ data 2

end OpLog.Source
