import OpLog.Format.StoredZlib
import OpLog.Library.Machine
import OpLog.Source.CleanUp
import OpLog.Source.Outcome

/-!
# The life of one file

One `LogFile` and the file on disk it writes, as a machine: entries are queued, attempts
are made, idle clean-up may forget the `LogFile`, a restart forgets it, and the file may
be deleted between writes. Every step is the worker's own function on that file. The
outputs are the frames that were written, with the content before and after.
-/
namespace OpLog.Guarantees
open Library Source

structure FileState where
  live : Option LogFile
  disk : Option Bytes
  deriving DecidableEq, Repr

/-- A definition comes with every event that reads one: it may have been redefined. -/
inductive FileEvent where
  | queue (d : LogDefinition) (logName path log : String) (now : Instant)
  | write (d : LogDefinition) (flushInterval : Duration) (env : AttemptEnv)
  | cleanUp (now : Instant)
  | restart
  | delete

structure FileWrite where
  before : Option Bytes
  written : Written
  after : Option Bytes
  deriving DecidableEq, Repr

namespace FileState
variable (warsaw : DateTimeUtc → LocalDateTime)

def step (s : FileState) : FileEvent → FileState × List FileWrite
  | .queue d logName path log now =>
    ({ s with live := some ((d.getLogFile s.live logName path now).addToLog log now) }, [])
  | .write d flushInterval env =>
    match s.live with
    | none => (s, [])
    | some f =>
      let (f', attempt) := d.writeOne warsaw flushInterval env f s.disk
      let disk := applyOps attempt.ops s.disk
      (⟨some f', disk⟩, match attempt.result with
        | .ok (some written) => [⟨s.disk, written, disk⟩]
        | _ => [])
  | .cleanUp now => ({ s with live := s.live.filter (·.inUse now) }, [])
  | .restart => ({ s with live := none }, [])
  | .delete => ({ s with disk := none }, [])

/-- The worker has just started. -/
def start (disk : Option Bytes) : FileState := ⟨none, disk⟩

/-- The attempt of a `write` event, with the notice its caller passes. -/
abbrev attempt (f : LogFile) (d : LogDefinition) (flushInterval : Duration) (env : AttemptEnv)
    (disk : Option Bytes) : Effect (LogFile × Option Written) :=
  f.writeToFile flushInterval (d.backlogNotice warsaw f env.utcNow) env disk

variable {warsaw} {s : FileState} {f f' : LogFile} {d : LogDefinition} {flushInterval : Duration}
  {env : AttemptEnv}

theorem step_write_ok {written : Option Written} (live : s.live = some f)
    (h : (attempt warsaw f d flushInterval env s.disk).result = .ok (f', written)) :
    let disk := applyOps (attempt warsaw f d flushInterval env s.disk).ops s.disk
    s.step warsaw (.write d flushInterval env) =
      (⟨some { f' with writeErrorLogged := false }, disk⟩,
        written.toList.map fun w => ⟨s.disk, w, disk⟩) := by
  unfold step
  simp only [live, writeOne_ok h]
  cases written <;> rfl

theorem step_write_error {e : IoError} (live : s.live = some f)
    (h : (attempt warsaw f d flushInterval env s.disk).result = .error e) :
    s.step warsaw (.write d flushInterval env) =
      (⟨some { f with tailVerified := false, writeErrorLogged := true },
        applyOps (attempt warsaw f d flushInterval env s.disk).ops s.disk⟩, []) := by
  unfold step
  simp only [live, writeOne_error h]

/-- Queueing an entry leaves the tail flag of a `LogFile` as it is; a new one has it unset. -/
theorem queue_tailVerified (d : LogDefinition) (live : Option LogFile) (logName path log : String)
    (now : Instant) :
    ((d.getLogFile live logName path now).addToLog log now).tailVerified =
      live.elim false (·.tailVerified) := by
  cases live with
  | none => rfl
  | some f =>
    rw [d.getLogFile_some]
    rfl

/-- A queued entry brings the definition's header with it. -/
theorem queue_header (d : LogDefinition) (live : Option LogFile) (logName path log : String)
    (now : Instant) : ((d.getLogFile live logName path now).addToLog log now).header = d.header := by
  cases live with
  | none => rfl
  | some f =>
    rw [d.getLogFile_some]
    rfl

/-- Only an attempt sets the tail flag: set behind any other step, it was set ahead of it. -/
theorem step_flag {e : FileEvent} (other : ∀ d flushInterval env, e ≠ .write d flushInterval env)
    (live : (s.step warsaw e).1.live = some f') (flag : f'.tailVerified = true) :
    ∃ f, s.live = some f ∧ f.tailVerified = true := by
  cases e with
  | queue d logName path log now =>
    cases live
    rw [queue_tailVerified] at flag
    cases before : s.live with
    | none =>
      rw [before] at flag
      cases flag
    | some f =>
      rw [before] at flag
      exact ⟨f, rfl, flag⟩
  | write d flushInterval env => exact absurd rfl (other d flushInterval env)
  | cleanUp now => exact ⟨f', (Option.filter_eq_some_iff.mp live).1, flag⟩
  | restart => cases live
  | delete => exact ⟨f', live, flag⟩

end FileState

/-! ## Values to run the machine with -/

/-- The calendar in Warsaw at the epoch, the only time the runs below read. -/
def warsawAtEpoch : DateTimeUtc → LocalDateTime := fun _ => ⟨1970, 1, 1, 1, 0, 0, 0⟩

/-- Every call succeeds. -/
def allDone : WriteIo where
  createDirAll := .ready (.ok ())
  metadata := .ready (.ok ())
  tail := ⟨.ok (), .ok (), .ok (), .ok (), .ok (), .ok ()⟩
  openAppend := .ok ()
  create := .done
  magic := .done
  framePrefix := .done
  payload := .done
  flush := .ok ()

def storedEnv (io : WriteIo) : AttemptEnv := ⟨0, 0, 7, Format.storedDeflater, io⟩

/-- A pass whose attempts are all answered alike. -/
def passEnv (env : AttemptEnv) : PassEnv := ⟨fun _ _ => env, fun _ => 0, fun _ _ => 0⟩

def plainDefinition (header : String) : LogDefinition where
  lastTimeUse := 0
  autoRemoveDefinition := false
  header
  path := "logs"
  flushInterval := 0
  logType := .noSplit
  options := []
  files := .empty

end OpLog.Guarantees
