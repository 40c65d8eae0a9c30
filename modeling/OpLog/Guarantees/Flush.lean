import OpLog.Guarantees.Drain

/-!
# Flush drains everything and ends

Progress of a flush, pass by pass and for any state of the worker: an attempt that succeeds
takes at least one entry from a queue that is not empty, whatever the sizes of the entries and
the output of the compressor, and one that fails takes none.
-/
namespace OpLog.Guarantees.Flush
open Library Source Drain

/-- The length of the longest queue. -/
def longest (w : OpLogWorker) : Nat :=
  ((w.definitions.values.flatMap (·.files.values)).map (·.logs.length)).foldr max 0

theorem le_foldr_max {n : Nat} {ns : List Nat} (member : n ∈ ns) : n ≤ ns.foldr max 0 := by
  induction ns with
  | nil => cases member
  | cons m ns ih =>
    rw [List.foldr_cons]
    rcases List.mem_cons.mp member with rfl | later
    · exact Nat.le_max_left _ _
    · exact Nat.le_trans (ih later) (Nat.le_max_right _ _)

theorem bounded_longest (w : OpLogWorker) : Bounded w (longest w) := by
  intro name key f stored
  have listed := (w.mem_files f).mpr ⟨name, key, stored⟩
  exact le_foldr_max (List.mem_map.mpr ⟨f, listed, rfl⟩)

/-- The entries queued in the files of a definition. -/
def queuedIn (d : LogDefinition) : Nat := total (fun f => f.logs.length) d.files.values

theorem logCount_eq_total (w : OpLogWorker) : w.logCount = total queuedIn w.definitions.values := by
  have flat := total_flatMap (fun f : LogFile => f.logs.length)
    (fun d : LogDefinition => d.files.values) w.definitions.values
  exact flat

section Warsaw
variable {warsaw : DateTimeUtc → LocalDateTime}

variable (warsaw) in
/-- The queue after an attempt: what it was, or a rest of it behind the entries of a frame. -/
theorem attempt_rest (d : LogDefinition) (flushInterval : Duration) (env : AttemptEnv) (f : LogFile)
    (content : Option Bytes) :
    let out := d.writeOne warsaw flushInterval env f content
    out.1.logs = f.logs ∨
      ∃ written, out.2.result = .ok (some written) ∧ f.logs = written.entries ++ out.1.logs := by
  intro out
  rcases writeOne_outcome warsaw d flushInterval env f content with
    ⟨idle, skipped⟩ | ⟨ops, e, due, failed⟩ | ⟨ops, has, frame, due, encoded, written⟩
  · rw [show out = _ from skipped, LogFile.afterSkip_eq]
    exact Or.inl rfl
  · rw [show out = _ from failed]
    exact Or.inl rfl
  · rw [show out = _ from written]
    exact Or.inr ⟨_, rfl, (List.take_append_drop frame.consumed f.logs).symm⟩

variable (warsaw) in
theorem attempt_le (d : LogDefinition) (flushInterval : Duration) (env : AttemptEnv) (f : LogFile)
    (content : Option Bytes) :
    (d.writeOne warsaw flushInterval env f content).1.logs.length ≤ f.logs.length := by
  rcases attempt_rest warsaw d flushInterval env f content with same | ⟨w, -, split⟩
  · rw [same]
  · rw [split, List.length_append]
    exact Nat.le_add_left _ _

variable (warsaw) in
theorem logCount_writePass (w : OpLogWorker) (interval : LogDefinition → Duration) (env : PassEnv)
    (disk : Disk) : (w.writePass warsaw interval env disk).1.logCount ≤ w.logCount := by
  rw [logCount_eq_total, logCount_eq_total]
  refine w.definitions.total_visit_le env.definitionRank _ queuedIn ?_ disk
  intro name d disk
  exact d.files.total_visit_le (env.fileRank name) _ _
    (fun key f disk => attempt_le warsaw d (interval d) (env.attempt name key) f (disk f.diskPath)) disk

variable (warsaw) in
/-- One pass of a flush on one file. -/
theorem pass_on_file (w : OpLogWorker) (env : PassEnv) (disk : Disk) {name key : String} {f : LogFile}
    (stored : w.file? name key = some f) :
    let pass := w.writePass warsaw (fun _ => Duration.fromMillis 0) env disk
    ∃ f', pass.1.file? name key = some f' ∧
      (f'.logs = f.logs ∨ ∃ a ∈ pass.2.2.on name key, ∃ written, a.result = .ok (some written) ∧
        f.logs = written.entries ++ f'.logs) ∧
      (Succeeds pass.2.2 → f.logs ≠ [] → f'.logs.length < f.logs.length) := by
  intro pass
  have visit := w.file?_writePass warsaw (fun _ => Duration.fromMillis 0) env disk name key
  rw [stored] at visit
  obtain ⟨d, content, -, -, file, attempts⟩ := visit
  refine ⟨_, file, ?_, ?_⟩
  · rcases attempt_rest warsaw d (Duration.fromMillis 0) (env.attempt name key) f content with
      same | ⟨written, ok, split⟩
    · exact Or.inl same
    · exact Or.inr ⟨_, attempts ▸ List.mem_singleton_self _, written, ok, split⟩
  · intro succeeds queued
    have success := succeeds_on succeeds (attempts ▸ List.mem_singleton_self _)
    have shorter := attempt_shortens d (env.attempt name key) f content success
    have some_left := List.length_pos_of_ne_nil queued
    omega

variable (warsaw) in
/-- For any state of the worker. A flush all of whose attempts succeed ends after at most as
many passes as the longest queue has entries, with every queue empty if its deadline leaves
room for them, and each pass shortens every queue that is not empty. Whatever the outcomes, a
pass leaves a queue as it is or without the entries of a frame it wrote, and the total never
grows. -/
theorem flush_drains_every_queue (w : OpLogWorker) (env : Nat → PassEnv) (deadline : Nat)
    (disk : Disk) :
    let out := OpLogWorker.flushLoop warsaw env deadline 0 w disk
    ((∀ attempts ∈ out.2.2, Succeeds attempts) →
      out.2.2.length ≤ max 1 (longest w) ∧
        (longest w ≤ deadline + 1 → ∀ name key f, out.1.file? name key = some f → f.logs = [])) ∧
    out.1.logCount ≤ w.logCount ∧
    ∀ (w : OpLogWorker) (env : PassEnv) (disk : Disk),
      let pass := w.writePass warsaw (fun _ => Duration.fromMillis 0) env disk
      pass.1.logCount ≤ w.logCount ∧
        ∀ name key f, w.file? name key = some f → ∃ f', pass.1.file? name key = some f' ∧
          (f'.logs = f.logs ∨ ∃ a ∈ pass.2.2.on name key, ∃ written,
            a.result = .ok (some written) ∧ f.logs = written.entries ++ f'.logs) ∧
          (Succeeds pass.2.2 → f.logs ≠ [] → f'.logs.length < f.logs.length) := by
  intro out
  refine ⟨fun succeeds => ?_, ?_, fun w env disk => ⟨?_, fun name key f stored => ?_⟩⟩
  · obtain ⟨passes, empties⟩ := flushLoop_drains env deadline 0 w disk (bounded_longest w) succeeds
    refine ⟨passes, fun room => ?_⟩
    exact (OpLogWorker.logCount_eq_zero _).mp (empties (Or.inr room))
  · exact OpLogWorker.flushLoop_invariant warsaw (fun w' _ => w'.logCount ≤ w.logCount) env
      (fun n w' past disk le => Nat.le_trans (logCount_writePass warsaw w' _ (env n) disk) le)
      deadline 0 w [] disk (Nat.le_refl _)
  · exact logCount_writePass warsaw w _ env disk
  · exact pass_on_file warsaw w env disk stored

end Warsaw

/-- A worker with two entries for one file. -/
def twoQueued : OpLogWorker :=
  ((OpLogWorker.new.define ⟨"app", .noSplit, "", "logs", [], 0, false⟩ 0).log warsawAtEpoch "app" 0
    "one" 0).log warsawAtEpoch "app" 0 "two" 0

def plainPass : PassEnv := passEnv ⟨0, 0, 7, Format.plainDeflater, allDone⟩

theorem flush_drains_two_entries :
    ∀ name key f, (OpLogWorker.flushLoop warsawAtEpoch (fun _ => plainPass) 1 0 twoQueued
      fun _ => none).1.file? name key = some f → f.logs = [] := by
  have done := @flushLoop_done warsawAtEpoch (fun _ => plainPass) (fun _ _ _ => ⟨rfl, rfl⟩) 1 0
    twoQueued fun _ => none
  have drains := (flush_drains_every_queue warsawAtEpoch twoQueued (fun _ => plainPass) 1
    fun _ => none).1 done
  exact drains.2 (by decide +kernel)

end OpLog.Guarantees.Flush
