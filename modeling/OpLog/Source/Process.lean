import OpLog.Source.Shutdown

/-!
# Handles, the system logger and the tasks behind them

`lib.rs` as one process: every `new` makes an `OpLogInner` behind an `Arc`, a handle on it and
a task; handles are cloned and dropped; `def_system_log` may make one of them the global
logger of the `log` crate, which then holds a reference for good. The sender lives in the
`OpLogInner`, so the channel is closed for its task when the last reference goes. All tasks
share the disk. A call sends what it sends in one step here: the steps that threads
interleave are those of `SendLog`, and the waits of `shutdown` and `get_info` are modelled with them.
-/
namespace OpLog.Source
open Library

/-- `log::Level`. -/
inductive Level where
  | error | warn | info | debug | trace
  deriving DecidableEq, Repr

/-- A `LevelFilter` is a number here; `Off` is 0. -/
def Level.toNat : Level → Nat
  | .error => 1
  | .warn => 2
  | .info => 3
  | .debug => 4
  | .trace => 5

/-- How a level is displayed. -/
def Level.asStr : Level → String
  | .error => "ERROR"
  | .warn => "WARN"
  | .info => "INFO"
  | .debug => "DEBUG"
  | .trace => "TRACE"

/-- `inner` is the instance whose `Arc` the logger holds. -/
structure OpLogSystemLogger where
  inner : Nat
  name : String
  deriving DecidableEq, Repr

/-- The entry made of a record; the levels above `Info` make none. -/
def OpLogSystemLogger.entry (logger : OpLogSystemLogger) (level : Level) (date : DateTimeUtc)
    (args : String) : Option OpLogData :=
  if level.toNat > Level.info.toNat then none
  else some ⟨logger.name, "[" ++ level.asStr ++ "] " ++ args, date⟩

/-- The global logger of the `log` crate: one of these, or another crate's. -/
inductive Logger where
  | opLog (logger : OpLogSystemLogger)
  | foreign
  deriving DecidableEq, Repr

/-- What `OpLog::new` makes: the inner part with the strong count of its `Arc`, and the task. -/
structure Instance where
  strong : Nat
  inner : OpLogInner
  task : WorkerTask
  worker : OpLogWorker

/-- A handle that was dropped leaves its place behind. -/
structure Process where
  disk : Disk
  instances : List Instance
  handles : List (Option Nat)
  logger : Option Logger
  maxLevel : Nat

/-- `lines` is what a clean-up reports with `info!`, `utcNow` the date of the line of a flush. -/
inductive TaskEvent where
  | writerTick (env : PassEnv)
  | cleanupTick (now : Instant) (deleted : String → Bool) (completed : Bool)
      (lines : List (DateTimeUtc × String))
  | recv (env : MessageEnv) (utcNow : DateTimeUtc)
  | lastFlush (env : OpLogWorker.FlushEnv) (utcNow : DateTimeUtc)

inductive ProcessEvent where
  | new
  | clone (handle : Nat)
  | drop (handle : Nat)
  /-- a call that sends this message and nothing else -/
  | send (handle : Nat) (msg : OpLogMessage)
  | log (handle : Nat) (data : OpLogData)
  | defSystemLog (handle : Nat) (d : OpLogDefinition)
  /-- another crate sets its logger -/
  | setLogger
  | setMaxLevel (level : Nat)
  /-- one of the macros of the `log` crate -/
  | record (level : Level) (date : DateTimeUtc) (args : String)
  /-- `log::logger().flush()` -/
  | flushLogger
  | task (inst : Nat) (event : TaskEvent)

inductive ProcessOutput where
  /-- what the channel of the instance accepted -/
  | accepted (inst : Nat) (msgs : List OpLogMessage)
  | received (inst : Nat) (msg : OpLogMessage)
  /-- the task found its channel closed -/
  | closed (inst : Nat)
  | out (inst : Nat) (outputs : List Output)

/-- A `try_send` whose failure is ignored. -/
def OpLogInner.send (inner : OpLogInner) (msg : OpLogMessage) : OpLogInner :=
  { inner with tx := (inner.tx.trySend CHANNEL_CAPACITY msg).getD inner.tx }

namespace Process

/-- Nothing made yet, and no logger set. -/
def start (disk : Disk) : Process := ⟨disk, [], [], none, 0⟩

def modify (p : Process) (i : Nat) (f : Instance → Instance) : Process :=
  { p with instances := p.instances.modify i f }

/-- `Arc::clone`. -/
def retain (p : Process) (i : Nat) : Process :=
  p.modify i fun inst => { inst with strong := inst.strong + 1 }

/-- An `Arc` is dropped; with the last one goes the sender. -/
def release (p : Process) (i : Nat) : Process :=
  p.modify i fun inst => { inst with strong := inst.strong - 1 }

/-- A call on the inner part, and what it put into the channel. -/
def call (p : Process) (i : Nat) (f : OpLogInner → OpLogInner) : Process × List ProcessOutput :=
  match p.instances[i]? with
  | none => (p, [])
  | some inst =>
    (p.modify i fun inst => { inst with inner := f inst.inner },
      [.accepted i ((f inst.inner).tx.queue.drop inst.inner.tx.queue.length)])

/-- A record that passes the maximum level goes to the logger. -/
def record (p : Process) (level : Level) (date : DateTimeUtc) (args : String) :
    Process × List ProcessOutput :=
  if level.toNat ≤ p.maxLevel then
    match p.logger with
    | some (.opLog logger) =>
      match logger.entry level date args with
      | some data => p.call logger.inner (·.sendLog CHANNEL_CAPACITY data)
      | none => (p, [])
    | _ => (p, [])
  else (p, [])

/-- The lines a task reports with `info!`. -/
def report (p : Process) : List (DateTimeUtc × String) → Process × List ProcessOutput
  | [] => (p, [])
  | (date, text) :: lines =>
    let (p, out) := p.record .info date text
    let (p, outs) := p.report lines
    (p, out ++ outs)

/-- `def`, then a logger with a reference of its own, which goes again if another one was set. -/
def defSystemLog (p : Process) (i : Nat) (d : OpLogDefinition) : Process × List ProcessOutput :=
  let name := d.logName
  let (p, out) := p.call i (·.send (.logDefinition d))
  let p := p.retain i
  match p.logger with
  | none => ({ p with logger := some (.opLog ⟨i, name⟩), maxLevel := Level.trace.toNat }, out)
  | some _ => (p.release i, out)

section Warsaw
variable (warsaw : DateTimeUtc → LocalDateTime)

/-- A step of the worker of this instance, on the disk that all share. -/
def work (p : Process) (i : Nat) (inst : Instance) (event : Event) : Process × List ProcessOutput :=
  let (world, out) := World.step warsaw ⟨inst.worker, p.disk⟩ event
  ({ p with disk := world.disk }.modify i fun inst => { inst with worker := world.worker },
    [.out i out])

/-- The messages whose handling is a flush, which reports itself. -/
def flushLines (utcNow : DateTimeUtc) : OpLogMessage → List (DateTimeUtc × String)
  | .flush => [(utcNow, "flush()")]
  | .getInfoAndFlush => [(utcNow, "flush()")]
  | _ => []

/-- A message is received, or the channel found empty with its sender gone. -/
def recv (p : Process) (i : Nat) (inst : Instance) (env : MessageEnv) (utcNow : DateTimeUtc) :
    Process × List ProcessOutput :=
  match inst.inner.tx.recv with
  | none =>
    if inst.strong = 0 then (p.modify i fun inst => { inst with task := .flushing }, [.closed i])
    else (p, [])
  | some (.stopService, tx) =>
    (p.modify i fun inst => { inst with inner.tx := tx, task := .flushing },
      [.received i .stopService])
  | some (msg, tx) =>
    let p := p.modify i fun inst => { inst with inner.tx := tx }
    let (p, lines) := p.report (flushLines utcNow msg)
    let (p, out) := p.work warsaw i inst (.message env msg)
    (p, .received i msg :: lines ++ out)

/-- The flush behind the loop, and the end of the task, which drops the receiver. -/
def lastFlush (p : Process) (i : Nat) (inst : Instance) (env : OpLogWorker.FlushEnv)
    (utcNow : DateTimeUtc) : Process × List ProcessOutput :=
  let (p, lines) := p.report [(utcNow, "flush()")]
  let (world, out) := World.flush warsaw ⟨inst.worker, p.disk⟩ env
  ({ p with disk := world.disk }.modify i fun inst =>
      { inst with inner.tx := inst.inner.tx.close, task := .finished, worker := world.worker },
    lines ++ [.out i out])

def task (p : Process) (i : Nat) (inst : Instance) : TaskEvent → Process × List ProcessOutput
  | .writerTick env =>
    if inst.task = .running then p.work warsaw i inst (.writerTick env) else (p, [])
  | .cleanupTick now deleted completed lines =>
    if inst.task = .running then
      let (p, reported) := p.report lines
      let (p, out) := p.work warsaw i inst (.cleanupTick now deleted completed)
      (p, reported ++ out)
    else (p, [])
  | .recv env utcNow => if inst.task = .running then p.recv warsaw i inst env utcNow else (p, [])
  | .lastFlush env utcNow =>
    if inst.task = .flushing then p.lastFlush warsaw i inst env utcNow else (p, [])

/-- What a live handle refers to. -/
def held (p : Process) (handle : Nat) : Option Nat := (p.handles[handle]?).join

/-- An event that cannot happen changes nothing. -/
def step (p : Process) : ProcessEvent → Process × List ProcessOutput
  | .new =>
    ({ p with
        instances := p.instances ++ [⟨1, ⟨.empty, true, 0⟩, .running, .new⟩]
        handles := p.handles ++ [some p.instances.length] }, [])
  | .clone handle =>
    match p.held handle with
    | some i => ({ p.retain i with handles := p.handles ++ [some i] }, [])
    | none => (p, [])
  | .drop handle =>
    match p.held handle with
    | some i => ({ p.release i with handles := p.handles.set handle none }, [])
    | none => (p, [])
  | .send handle msg =>
    match p.held handle with
    | some i => p.call i (·.send msg)
    | none => (p, [])
  | .log handle data =>
    match p.held handle with
    | some i => p.call i (·.sendLog CHANNEL_CAPACITY data)
    | none => (p, [])
  | .defSystemLog handle d =>
    match p.held handle with
    | some i => p.defSystemLog i d
    | none => (p, [])
  | .setLogger => ({ p with logger := some (p.logger.getD .foreign) }, [])
  | .setMaxLevel level => ({ p with maxLevel := level }, [])
  | .record level date args => p.record level date args
  | .flushLogger =>
    match p.logger with
    | some (.opLog logger) => p.call logger.inner (·.send .flush)
    | _ => (p, [])
  | .task i event =>
    match p.instances[i]? with
    | some inst => p.task warsaw i inst event
    | none => (p, [])

end Warsaw
end Process
end OpLog.Source
