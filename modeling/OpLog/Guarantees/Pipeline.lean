import OpLog.Format.Settled
import OpLog.Guarantees.Accepted
import OpLog.Guarantees.Conservation
import OpLog.Guarantees.Preservation
import OpLog.Guarantees.QueueCap

/-!
# From the callers to the file

The threads that call `log`, the channel, the queue of the one file of a log and the file
itself, put together: every part steps by its own machine. Next to what the program keeps
stands what it does not: what each message and each queued entry is (`Origin`), and the frames
that were written and are in the file.
-/
namespace OpLog.Guarantees
open Library Source Conservation Accepted

/-- An entry of a caller, a notice with the count it carries, or a message without entries. -/
inductive Origin where
  | caller
  | notice (count : Nat)
  | control
  deriving DecidableEq

def Origin.callers : Origin → Nat
  | .caller => 1
  | _ => 0

/-- The count that a notice carries. -/
def Origin.count : Origin → Nat
  | .notice count => count
  | _ => 0

/-- What it stands for. -/
def Origin.weight (o : Origin) : Nat := o.callers + o.count

/-- A frame in the file: its bytes, the count in its backlog notice, and what its entries are. -/
structure StoredFrame where
  bytes : Bytes
  backlog : Nat
  origins : List Origin

def StoredFrame.weight (f : StoredFrame) : Nat := total Origin.weight f.origins + f.backlog

structure Pipeline where
  senders : Senders
  file : FileState
  calls : Nat
  channel : List Origin
  queue : List Origin
  frames : List StoredFrame

/-- Entries are handed over by calls for the log `name` only; the receiver is the worker. -/
def FromCallers (name : String) : SendEvent → Prop
  | .call _ data => data.logName = name
  | .other msg => entriesOf msg = []
  | .send msg => entriesOf msg = []
  | .recv => False
  | .close => False
  | _ => True

/-- The definition comes with every event that reads it: it stays registered, and may have
been updated. -/
inductive PipelineEvent (name : String) where
  | sender (event : SendEvent) (admitted : FromCallers name event)
  | receive (d : LogDefinition) (now : Instant)
  | write (d : LogDefinition) (flushInterval : Duration) (env : AttemptEnv)
  | cleanUp (now : Instant)

def FileState.logs (s : FileState) : List String := s.live.elim [] (·.logs)

def FileState.droppedLogs (s : FileState) : Nat := s.live.elim 0 (·.droppedLogs)

/-- The origins of what is left of a queue that lost entries at its front. -/
def follow (queue : List Origin) (file : FileState) : List Origin :=
  queue.drop (queue.length - file.logs.length)

/-- What the channel accepted of a thread. -/
def originOf : SendOutput → List Origin
  | .called _ => []
  | .notice _ pending => [.notice pending]
  | .entry _ => [.caller]

/-- What a step put into the channel. -/
def entered (before after : Senders) (out : List SendOutput) : SendEvent → List Origin
  | .call _ _ => out.flatMap originOf
  | .advance _ => out.flatMap originOf
  | _ => List.replicate (after.shared.tx.queue.length - before.shared.tx.queue.length) .control

namespace Pipeline

/-- The worker has just started, on whatever content the file has. -/
def start (n : Nat) (content : Option Bytes) : Pipeline :=
  ⟨.start .empty n, .start content, 0, [], [], []⟩

/-- The frame of a write that succeeded. -/
def stored (s : Pipeline) (w : FileWrite) : StoredFrame :=
  ⟨w.written.frame.bytes, s.file.droppedLogs, s.queue.take w.written.entries.length⟩

section Warsaw
variable (warsaw : DateTimeUtc → LocalDateTime)

/-- The attempt gets to `File::create`, which truncates the file. -/
def creates (s : Pipeline) (d : LogDefinition) (flushInterval : Duration) (env : AttemptEnv) : Prop :=
  ∃ f ∈ s.file.live, .create ∈ (FileState.attempt warsaw f d flushInterval env s.file.disk).ops

instance (s : Pipeline) (d : LogDefinition) (flushInterval : Duration) (env : AttemptEnv) :
    Decidable (s.creates warsaw d flushInterval env) := by
  unfold creates
  infer_instance

variable (capacity : Nat) {name : String}

def step (s : Pipeline) : PipelineEvent name → Pipeline × List Empty
  | .sender event _ =>
    let (senders, out) := s.senders.step capacity event
    ({ s with
      senders
      calls := s.calls + Conservation.calls out
      channel := s.channel ++ entered s.senders senders out event }, [])
  | .receive d now =>
    let received : Pipeline :=
      { s with senders := (s.senders.step capacity .recv).1, channel := s.channel.tail }
    match s.senders.shared.tx.queue, s.channel with
    | .log data :: _, origin :: _ =>
      let r := d.route data.logName (warsaw data.date) data.log
      let (file, _) := s.file.step warsaw (.queue d r.logName r.path r.entry now)
      ({ received with file, queue := follow (s.queue ++ [origin]) file }, [])
    | _, _ => (received, [])
  | .write d flushInterval env =>
    let (file, writes) := s.file.step warsaw (.write d flushInterval env)
    let frames := if s.creates warsaw d flushInterval env then [] else s.frames
    ({ s with file, queue := follow s.queue file, frames := frames ++ writes.map s.stored }, [])
  | .cleanUp now =>
    let (file, _) := s.file.step warsaw (.cleanUp now)
    ({ s with file, queue := follow s.queue file }, [])

end Warsaw
end Pipeline

/-! ## What the added data says about the program's -/

/-- A message in the channel, and what it is. -/
inductive Marks : Origin → OpLogMessage → Prop where
  | caller (data : OpLogData) : Marks .caller (.log data)
  | notice (data : OpLogData) (count : Nat) (some_drops : 0 < count) : Marks (.notice count) (.log data)
  | control (msg : OpLogMessage) (silent : entriesOf msg = []) : Marks .control msg

/-- A thread that holds drops to report holds some. -/
def Waiting : SendLog → Prop
  | .trySendNotice _ pending => 0 < pending
  | .addPending _ pending => 0 < pending
  | _ => True

section Senders
variable (capacity : Nat)

/-- A thread's step puts what it says it puts at the end of the channel. -/
theorem step_enters (inner : OpLogInner) {place : SendLog} (waiting : Waiting place) :
    (∃ msgs, (place.step capacity inner).1.tx.queue = inner.tx.queue ++ msgs ∧
      List.Forall₂ Marks ((place.step capacity inner).2.2.flatMap originOf) msgs) ∧
    Waiting (place.step capacity inner).2.1 := by
  have nothing : ∃ msgs, inner.tx.queue = inner.tx.queue ++ msgs ∧ List.Forall₂ Marks [] msgs :=
    ⟨[], (List.append_nil _).symm, .nil⟩
  cases place with
  | idle => exact ⟨nothing, trivial⟩
  | swap data =>
    refine ⟨nothing, ?_⟩
    unfold SendLog.step
    dsimp only
    split
    · rename_i pending
      exact pending
    · trivial
  | trySendNotice data pending =>
    unfold SendLog.step Channel.trySend
    dsimp only
    by_cases free : inner.tx.room capacity = true
    · simp only [if_pos free]
      exact ⟨⟨_, rfl, .cons (.notice _ _ waiting) .nil⟩, trivial⟩
    · simp only [if_neg free]
      exact ⟨nothing, waiting⟩
  | addPending data pending => exact ⟨nothing, trivial⟩
  | trySend data =>
    unfold SendLog.step Channel.trySend
    dsimp only
    by_cases free : inner.tx.room capacity = true
    · simp only [if_pos free]
      exact ⟨⟨_, rfl, .cons (.caller _) .nil⟩, trivial⟩
    · simp only [if_neg free]
      exact ⟨nothing, trivial⟩
  | addOne => exact ⟨nothing, trivial⟩

theorem call_enters (data : OpLogData) (inner : OpLogInner) {place : SendLog}
    (waiting : Waiting place) :
    (∃ msgs, (place.call data inner).1.tx.queue = inner.tx.queue ++ msgs ∧
      List.Forall₂ Marks ((place.call data inner).2.2.flatMap originOf) msgs) ∧
    Waiting (place.call data inner).2.1 := by
  cases place <;> exact ⟨⟨[], (List.append_nil _).symm, .nil⟩, waiting⟩

/-- The channel and the threads of a pipeline, and what their messages are. -/
structure Marked (senders : Senders) (channel : List Origin) : Prop where
  channel : List.Forall₂ Marks channel senders.shared.tx.queue
  waiting : ∀ place ∈ senders.threads, Waiting place

theorem advance_marked {step : OpLogInner → SendLog → OpLogInner × SendLog × List SendOutput}
    (enters : ∀ inner place, Waiting place →
      (∃ msgs, (step inner place).1.tx.queue = inner.tx.queue ++ msgs ∧
        List.Forall₂ Marks ((step inner place).2.2.flatMap originOf) msgs) ∧
      Waiting (step inner place).2.1)
    {senders : Senders} {channel : List Origin} (marked : Marked senders channel) (thread : Nat) :
    Marked (senders.advance step thread).1
      (channel ++ (senders.advance step thread).2.flatMap originOf) := by
  cases there : senders.threads[thread]? with
  | none =>
    rw [Threads.advance_none there, List.flatMap_nil, List.append_nil]
    exact marked
  | some place =>
    have waits := marked.waiting place (List.mem_of_getElem? there)
    obtain ⟨⟨msgs, queue, marks⟩, still⟩ := enters senders.shared place waits
    constructor
    · rw [Threads.advance_some there]
      dsimp only
      rw [queue]
      exact List.rel_append marked.channel marks
    · intro other member
      rcases Threads.mem_advance member with old | ⟨place', there', rfl⟩
      · exact marked.waiting other old
      · cases there.symm.trans there'
        exact still

/-- Around the threads a message without entries may come in. -/
theorem withTx_marked {senders : Senders} {channel : List Origin} (marked : Marked senders channel)
    {tx : Channel} (msg : OpLogMessage) (silent : entriesOf msg = [])
    (queue : tx.queue = senders.shared.tx.queue ∨ tx.queue = senders.shared.tx.queue ++ [msg]) :
    Marked (senders.withTx tx) (channel ++
      List.replicate (tx.queue.length - senders.shared.tx.queue.length) .control) := by
  refine ⟨?_, marked.waiting⟩
  unfold Senders.withTx
  dsimp only
  rcases queue with same | more
  · rw [same, Nat.sub_self, List.replicate_zero, List.append_nil]
    exact marked.channel
  · rw [more, List.length_append, Nat.add_sub_cancel_left]
    exact List.rel_append marked.channel (.cons (.control msg silent) .nil)

theorem sender_marked {senders : Senders} {channel : List Origin} (marked : Marked senders channel)
    {name : String} {event : SendEvent} (admitted : FromCallers name event) :
    Marked (senders.step capacity event).1 (channel ++
      entered senders (senders.step capacity event).1 (senders.step capacity event).2 event) := by
  cases event with
  | call thread data => exact advance_marked (call_enters data) marked thread
  | advance thread => exact advance_marked (step_enters capacity) marked thread
  | recv => exact absurd admitted id
  | close => exact absurd admitted id
  | other msg =>
    refine withTx_marked marked msg admitted ?_
    unfold Channel.trySend
    split
    · exact Or.inr rfl
    · exact Or.inl rfl
  | reserve =>
    refine withTx_marked marked .flush rfl (Or.inl ?_)
    unfold Channel.reserve
    split <;> rfl
  | send msg =>
    simp only [Senders.step]
    split
    · refine withTx_marked marked msg admitted ?_
      unfold Channel.send
      dsimp only
      split
      · exact Or.inl rfl
      · exact Or.inr rfl
    · exact withTx_marked marked msg admitted (Or.inl rfl)
  | release => exact withTx_marked marked .flush rfl (Or.inl rfl)

end Senders
end OpLog.Guarantees
