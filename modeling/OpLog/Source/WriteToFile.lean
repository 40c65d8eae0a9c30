import OpLog.Source.AddToLog
import OpLog.Source.TailWalk

/-!
# Write attempts, writer ticks and flush

write_to_file.rs:160-255 and 374-457. The disk maps a path to the content of the file
there. An environment fixes what the source reads or is answered from outside during one
attempt (`AttemptEnv`), one pass over all files (`PassEnv`) and one flush (`FlushEnv`), so
that every combination of outcomes is some environment.
-/
namespace OpLog.Source
open Library

abbrev Disk := String → Option Bytes

/-- The content of one file replaced. -/
def Disk.set (disk : Disk) (path : String) (content : Option Bytes) : Disk :=
  fun p => if p = path then content else disk p

/-- Outcomes of the calls of one write attempt, in the order of the source. -/
structure WriteIo where
  createDirAll : Awaited
  metadata : Awaited
  tail : TailIo
  openAppend : IoResult Unit
  create : CreateOutcome
  magic : WriteOutcome
  framePrefix : WriteOutcome
  payload : WriteOutcome
  flush : IoResult Unit

/-- A frame that was written: what went into it and what it is. -/
structure Written where
  header : Option String
  notice : Option String
  entries : List String
  frame : EncodedFrame
  deriving DecidableEq, Repr

/-- `PathBuf::from(path)` and `path.push(log_name)`. -/
def joined (path logName : String) : String :=
  if logName.startsWith "/" then logName
  else if path.isEmpty || path.endsWith "/" then path ++ logName
  else path ++ "/" ++ logName

def LogFile.diskPath (f : LogFile) : String := joined f.path f.logName

/-- A write attempt that is not due: the first addition is younger than the interval. -/
def LogFile.early (f : LogFile) (flushInterval : Duration) (now : Instant) : Bool :=
  match f.timeOfFirstAdditionOfLogAfterWrite with
  | some time => decide (Instant.elapsed time now < flushInterval)
  | none => false

/-- `metadata(..).map(|m| m.len() > 0).unwrap_or(false)`; an absent file has no metadata. -/
def hasContent (metadata : IoResult Unit) (content : Option Bytes) : Bool :=
  match metadata, content with
  | .ok (), some bytes => decide (bytes.length > 0)
  | _, _ => false

/-- The file opened for the frame: behind its content, or created with the magic. -/
def LogFile.openFile (f : LogFile) (io : WriteIo) (content : Option Bytes) (hasContent : Bool) :
    Effect Unit :=
  if hasContent then do
    if f.tailVerified then pure () else cutInterruptedTail io.tail (content.getD [])
    Effect.call io.openAppend
  else do
    createFile io.create
    writeAll io.magic MAGIC

/-- The file after a write was confirmed: the consumed entries and the count are gone. -/
def LogFile.afterWrite (f : LogFile) (consumed : Nat) : LogFile :=
  let logs := f.logs.drop consumed
  { f with
    logs
    queuedBytes := (f.logs.take consumed).foldl (fun n written => n - byteLen written) f.queuedBytes
    droppedLogs := 0
    tailVerified := true
    timeOfFirstAdditionOfLogAfterWrite :=
      if logs.isEmpty then none else f.timeOfFirstAdditionOfLogAfterWrite }

/-- What the source reads or is answered from outside during one attempt. -/
structure AttemptEnv where
  now : Instant
  utcNow : DateTimeUtc
  rnd : UInt8
  deflater : Deflater
  io : WriteIo

def LogFile.writeToFile (f : LogFile) (flushInterval : Duration) (backlogNotice : Option String)
    (env : AttemptEnv) (content : Option Bytes) : Effect (LogFile × Option Written) :=
  if f.logs.isEmpty then
    pure ({ f with timeOfFirstAdditionOfLogAfterWrite := none }, none)
  else if f.early flushInterval env.now then pure (f, none)
  else do
    let _ ← Effect.await env.io.createDirAll
    let metadata ← Effect.await env.io.metadata
    let hasContent := hasContent metadata content
    f.openFile env.io content hasContent
    let header := if !hasContent && !f.header.isEmpty then some f.header else none
    let frame ← Effect.call (encodeFrame env.deflater env.rnd f.logs header backlogNotice)
    writeAll env.io.framePrefix frame.framePrefix
    writeAll env.io.payload frame.payload
    Effect.call env.io.flush
    return (f.afterWrite frame.consumed,
      some { header, notice := backlogNotice, entries := f.logs.take frame.consumed, frame })

/-! ## Passes over all files -/

/-- One attempt as its caller and the disk see it; `reported` is the line on stderr. -/
structure Attempt where
  ops : List DiskOp
  result : IoResult (Option Written)
  reported : Bool

section Warsaw
variable (warsaw : DateTimeUtc → LocalDateTime)

def backlogText (droppedLogs : Nat) : String :=
  "[op-log] dropped " ++ toString droppedLogs ++ " log entries (write backlog)"

def LogDefinition.backlogNotice (d : LogDefinition) (f : LogFile) (utcNow : DateTimeUtc) :
    Option String :=
  let noDate := d.options.contains .noAddDateToLog
  if f.droppedLogs > 0 then
    some (formatEntry d.logType noDate (warsaw utcNow) (backlogText f.droppedLogs))
  else none

/-- The body of the loop over the files. -/
def LogDefinition.writeOne (d : LogDefinition) (flushInterval : Duration) (env : AttemptEnv)
    (f : LogFile) (content : Option Bytes) : LogFile × Attempt :=
  let write := f.writeToFile flushInterval (d.backlogNotice warsaw f env.utcNow) env content
  match write.result with
  | .ok (f, written) =>
    ({ f with writeErrorLogged := false }, ⟨write.ops, .ok written, false⟩)
  | .error e =>
    ({ f with tailVerified := false, writeErrorLogged := true },
      ⟨write.ops, .error e, !f.writeErrorLogged⟩)

/-- Environments of one pass, and the order in which its maps are iterated. -/
structure PassEnv where
  attempt : String → String → AttemptEnv
  definitionRank : String → Nat
  fileRank : String → String → Nat

/-- The attempts of a pass: under each definition name, under each file key. -/
abbrev PassAttempts := List (String × List (String × Attempt))

def LogDefinition.writeToFile (d : LogDefinition) (flushInterval : Duration)
    (env : String → AttemptEnv) (rank : String → Nat) (disk : Disk) :
    LogDefinition × Disk × List (String × Attempt) :=
  let (files, disk, attempts) := (d.files.reorder rank).mapAccum (fun key f disk =>
    let (f', attempt) := d.writeOne warsaw flushInterval (env key) f (disk f.diskPath)
    (f', disk.set f.diskPath (applyOps attempt.ops (disk f.diskPath)), attempt)) disk
  ({ d with files }, disk, attempts)

namespace OpLogWorker

/-- One pass, with the definitions' own intervals or with a given one. -/
def writePass (w : OpLogWorker) (interval : LogDefinition → Duration) (env : PassEnv) (disk : Disk) :
    OpLogWorker × Disk × PassAttempts :=
  let (definitions, disk, attempts) :=
    (w.definitions.reorder env.definitionRank).mapAccum (fun name d disk =>
      d.writeToFile warsaw (interval d) (env.attempt name) (env.fileRank name) disk) disk
  ({ w with definitions }, disk, attempts)

def writeToFiles (w : OpLogWorker) (env : PassEnv) (disk : Disk) :
    OpLogWorker × Disk × PassAttempts :=
  w.writePass warsaw (·.flushInterval) env disk

/-- Environments of the passes of one flush; the check after pass number `deadline`
(counted from 0) is the first one that finds the five seconds over. -/
structure FlushEnv where
  pass : Nat → PassEnv
  deadline : Nat

/-- The loop, from pass `n` on, with `left` checks before the one that ends it. -/
def flushLoop (env : Nat → PassEnv) : Nat → Nat → OpLogWorker → Disk →
    OpLogWorker × Disk × List PassAttempts
  | 0, n, w, disk =>
    let (w, disk, attempts) := w.writePass warsaw (fun _ => Duration.fromMillis 0) (env n) disk
    (w, disk, [attempts])
  | left + 1, n, w, disk =>
    let (w, disk, attempts) := w.writePass warsaw (fun _ => Duration.fromMillis 0) (env n) disk
    if w.logCount = 0 then (w, disk, [attempts])
    else
      let (w, disk, rest) := flushLoop env left (n + 1) w disk
      (w, disk, attempts :: rest)

def flush (w : OpLogWorker) (env : FlushEnv) (disk : Disk) :
    OpLogWorker × Disk × List PassAttempts :=
  flushLoop warsaw env.pass env.deadline 0 w disk

def info (w : OpLogWorker) : OpLogInfo where
  numberOfDefinitions := w.definitions.size
  numberOfLogs := w.logCount

/-- The counts are those before the flush, and are sent after it. -/
def getInfoAndFlush (w : OpLogWorker) (env : FlushEnv) (disk : Disk) :
    OpLogInfo × OpLogWorker × Disk × List PassAttempts :=
  (w.info, w.flush warsaw env disk)

end OpLogWorker
end Warsaw

end OpLog.Source
