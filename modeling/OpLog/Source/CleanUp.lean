import OpLog.Source.Worker

/-!
# Idle clean-up

`clean_up.rs`, and the cleanup rules and the outcome flag of `clean_up_delete_files.rs`.
-/
namespace OpLog.Source

def IDLE : Duration := Duration.fromSecs (10 * 60)

theorem elapsed_lt_idle {t now : Instant} : Instant.elapsed t now < IDLE ↔ now < t + IDLE := by
  have apart (a b c : Nat) (positive : 0 < c) : b - a < c ↔ b < a + c := by omega
  exact apart t now IDLE (by decide)

/-- The test of the first `retain`. -/
def LogFile.inUse (f : LogFile) (now : Instant) : Bool :=
  !f.logs.isEmpty || decide (Instant.elapsed f.lastTimeUse now < IDLE)

/-- The test of the second `retain`. -/
def LogDefinition.inUse (d : LogDefinition) (now : Instant) : Bool :=
  !d.autoRemoveDefinition ||
    (!d.files.entries.isEmpty || decide (Instant.elapsed d.lastTimeUse now < IDLE))

theorem LogDefinition.inUse_of_lasting {d : LogDefinition} (lasts : d.autoRemoveDefinition = false)
    (now : Instant) : d.inUse now = true := by
  unfold LogDefinition.inUse
  rw [lasts]
  rfl

theorem LogFile.inUse_of_queued {f : LogFile} (queued : f.logs ≠ []) (now : Instant) :
    f.inUse now = true := by
  unfold LogFile.inUse
  rw [List.isEmpty_eq_false_iff.mpr queued]
  rfl

namespace OpLogWorker

def cleanUp (w : OpLogWorker) (now : Instant) : OpLogWorker :=
  let definitions := w.definitions.mapValues fun d =>
    { d with files := d.files.retain fun _ f => f.inUse now }
  { w with definitions := definitions.retain fun _ d => d.inUse now }

def noteCleanupOutcome (w : OpLogWorker) (completed : Bool) : OpLogWorker :=
  if completed then { w with cleanupTimedOut := false }
  else if !w.cleanupTimedOut then { w with cleanupTimedOut := true }
  else w

def cleanUpRemoveAllDefinitions (w : OpLogWorker) : OpLogWorker :=
  { w with cleanUpDefinitions := [] }

def cleanUpBundle (w : OpLogWorker) (bundle : List OpLogCleanUpDefinition) : OpLogWorker :=
  { w with cleanUpDefinitions := bundle }

/-- Rewrite the days of the first rule for the same path, or add the rule. -/
def updateRule (d : OpLogCleanUpDefinition) :
    List OpLogCleanUpDefinition → List OpLogCleanUpDefinition
  | [] => [d]
  | a :: rest =>
    if a.path = d.path then { a with deleteAfterDays := d.deleteAfterDays } :: rest
    else a :: updateRule d rest

def cleanUpDefinition (w : OpLogWorker) (d : OpLogCleanUpDefinition) : OpLogWorker :=
  { w with cleanUpDefinitions := updateRule d w.cleanUpDefinitions }

/-- Noting an outcome sets the flag or leaves it. -/
theorem noteCleanupOutcome_eq (w : OpLogWorker) (completed : Bool) :
    ∃ cleanupTimedOut, w.noteCleanupOutcome completed = { w with cleanupTimedOut } := by
  unfold noteCleanupOutcome
  split
  · exact ⟨false, rfl⟩
  · split
    · exact ⟨true, rfl⟩
    · exact ⟨w.cleanupTimedOut, rfl⟩

/-- What is left of one definition: its files in use, if it is in use with those. -/
theorem get?_cleanUp (w : OpLogWorker) (now : Instant) (name : String) :
    (w.cleanUp now).definitions.get? name =
      ((w.definitions.get? name).map fun d =>
        { d with files := d.files.retain fun _ f => f.inUse now }).filter (·.inUse now) := by
  unfold cleanUp
  rw [Library.KeyedMap.get?_retain, Library.KeyedMap.get?_mapValues]

end OpLogWorker
end OpLog.Source
