import OpLog.Library.KeyedMap
import OpLog.Source.EncodeFrame
import OpLog.Source.Messages

/-!
# The worker's state

The internal types of `lib.rs`. The channel is not part of the worker here: the run loop
takes the messages it receives as an argument. `HashMap` is a `KeyedMap`, whose order of
iteration every pass over it may choose anew.
-/
namespace OpLog.Source
open Library

structure LogFile where
  lastTimeUse : Instant
  timeOfFirstAdditionOfLogAfterWrite : Option Instant
  logName : String
  header : String
  path : String
  logs : List String
  queuedBytes : Nat
  droppedLogs : Nat
  writeErrorLogged : Bool
  tailVerified : Bool
  deriving DecidableEq, Repr

structure LogDefinition where
  lastTimeUse : Instant
  autoRemoveDefinition : Bool
  header : String
  path : String
  flushInterval : Duration
  logType : OpLogType
  options : List OpLogOption
  files : KeyedMap String LogFile

structure OpLogWorker where
  definitions : KeyedMap String LogDefinition
  cleanUpDefinitions : List OpLogCleanUpDefinition
  cleanupTimedOut : Bool

namespace OpLogWorker

def new : OpLogWorker := ⟨.empty, [], false⟩

/-- The `LogFile` stored under a key of a definition. -/
def file? (w : OpLogWorker) (name key : String) : Option LogFile :=
  (w.definitions.get? name).bind (·.files.get? key)

/-- `log_count`: the entries queued in all files. -/
def logCount (w : OpLogWorker) : Nat :=
  (w.definitions.values.flatMap (·.files.values) |>.map (·.logs.length)).sum

theorem mem_files (w : OpLogWorker) (file : LogFile) :
    file ∈ w.definitions.values.flatMap (·.files.values) ↔
      ∃ name key, w.file? name key = some file := by
  unfold file?
  simp only [List.mem_flatMap, KeyedMap.mem_values, Option.bind_eq_some_iff]
  constructor
  · intro listed
    obtain ⟨d, ⟨name, hd⟩, key, hf⟩ := listed
    exact ⟨name, key, d, hd, hf⟩
  · intro live
    obtain ⟨name, key, d, hd, hf⟩ := live
    exact ⟨d, ⟨name, hd⟩, key, hf⟩

/-- Nothing is counted exactly when every queue is empty. -/
theorem logCount_eq_zero (w : OpLogWorker) :
    w.logCount = 0 ↔ ∀ name key file, w.file? name key = some file → file.logs = [] := by
  unfold logCount
  rw [List.sum_eq_zero_iff_forall_eq_nat]
  constructor
  · intro h name key file stored
    have member := (w.mem_files file).mpr ⟨name, key, stored⟩
    exact List.eq_nil_of_length_eq_zero (h _ (List.mem_map.mpr ⟨file, member, rfl⟩))
  · intro h n member
    obtain ⟨file, stored, rfl⟩ := List.mem_map.mp member
    obtain ⟨name, key, stored⟩ := (w.mem_files file).mp stored
    rw [h name key file stored]
    rfl

end OpLogWorker
end OpLog.Source
