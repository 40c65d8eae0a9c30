import OpLog.Source.PerFile

/-!
# Files apart

Two `LogFile`s of a worker may name the same file on disk. Where no two with entries do, a pass
over all files does to each file on disk what one attempt does, in whatever order the files are
visited, and leaves every other file alone.
-/
namespace OpLog.Source
open Library

namespace OpLogWorker

/-- Where the `LogFile`s with entries write, each with its name and key. -/
def queuedPaths (w : OpLogWorker) : List ((String × String) × String) :=
  w.definitions.entries.flatMap fun e =>
    (e.2.files.entries.filter fun file => !file.2.logs.isEmpty).map fun file =>
      ((e.1, file.1), file.2.diskPath)

/-- No two of them write to the same file. -/
def Apart (w : OpLogWorker) : Prop := (w.queuedPaths.map Prod.snd).Nodup

instance (w : OpLogWorker) : Decidable w.Apart := inferInstanceAs (Decidable (List.Nodup _))

theorem mem_queuedPaths {w : OpLogWorker} {name key : String} {f : LogFile}
    (live : w.file? name key = some f) (queued : f.logs ≠ []) :
    ((name, key), f.diskPath) ∈ w.queuedPaths := by
  obtain ⟨d, stored, file⟩ := Option.bind_eq_some_iff.mp live
  rw [KeyedMap.get?_eq_some] at stored file
  have listed : (key, f) ∈ d.files.entries.filter fun file => !file.2.logs.isEmpty :=
    List.mem_filter.mpr ⟨file, by simpa using queued⟩
  exact List.mem_flatMap.mpr ⟨(name, d), stored, List.mem_map.mpr ⟨(key, f), listed, rfl⟩⟩

theorem queued_at (w : OpLogWorker) (path : String) :
    (∃ name key f, w.file? name key = some f ∧ f.diskPath = path ∧ f.logs ≠ []) ∨
      ∀ name key f, w.file? name key = some f → f.diskPath = path → f.logs = [] := by
  by_cases queued : ∃ name key f, w.file? name key = some f ∧ f.diskPath = path ∧ f.logs ≠ []
  · exact Or.inl queued
  · refine Or.inr fun name key f live place => ?_
    by_contra some_left
    exact queued ⟨name, key, f, live, place, some_left⟩

/-- The only file with entries that may be at `path` is the one under `name` and `key`. -/
def OnlyAt (w : OpLogWorker) (path name key : String) : Prop :=
  ∀ name' key' f, w.file? name' key' = some f → f.diskPath = path → f.logs ≠ [] →
    name' = name ∧ key' = key

/-- What `Apart` says file by file. -/
def Unshared (w : OpLogWorker) : Prop :=
  ∀ name key f, w.file? name key = some f → f.logs ≠ [] → w.OnlyAt f.diskPath name key

theorem Apart.unshared {w : OpLogWorker} (apart : w.Apart) : w.Unshared := by
  intro name key f live queued name' key' g live' same queued'
  have equal := List.inj_on_of_nodup_map apart (mem_queuedPaths live' queued')
    (mem_queuedPaths live queued) same
  simp only [Prod.mk.injEq] at equal
  exact equal.1

end OpLogWorker

section Warsaw
variable (warsaw : DateTimeUtc → LocalDateTime)

theorem LogFile.diskPath_congr {f g : LogFile} (path : f.path = g.path)
    (logName : f.logName = g.logName) : f.diskPath = g.diskPath := by
  unfold LogFile.diskPath
  rw [path, logName]

/-- An attempt moves no file. -/
theorem LogDefinition.writeOne_place (d : LogDefinition) (flushInterval : Duration)
    (env : AttemptEnv) (f : LogFile) (content : Option Bytes) :
    let out := d.writeOne warsaw flushInterval env f content
    out.1.path = f.path ∧ out.1.logName = f.logName := by
  rcases writeOne_outcome warsaw d flushInterval env f content with
    ⟨-, skipped⟩ | ⟨ops, e, -, failed⟩ | ⟨ops, has, frame, -, -, written⟩
  · rw [skipped, LogFile.afterSkip_eq]
    exact ⟨rfl, rfl⟩
  · rw [failed]
    exact ⟨rfl, rfl⟩
  · rw [written]
    exact ⟨rfl, rfl⟩

/-- Without entries an attempt does nothing on disk, and it adds none. -/
theorem LogDefinition.writeOne_queue (d : LogDefinition) (flushInterval : Duration)
    (env : AttemptEnv) (f : LogFile) (content : Option Bytes) :
    let out := d.writeOne warsaw flushInterval env f content
    f.logs = [] → out.1.logs = [] ∧ out.2.ops = [] := by
  rcases writeOne_outcome warsaw d flushInterval env f content with
    ⟨-, skipped⟩ | ⟨ops, e, due, -⟩ | ⟨ops, has, frame, due, -⟩
  · rw [skipped, LogFile.afterSkip_eq]
    exact fun empty => ⟨empty, rfl⟩
  · exact fun empty => absurd empty due.1
  · exact fun empty => absurd empty due.1

/-- The visit of a file, at a path where it has no entries to write. -/
theorem LogDefinition.visit_idle (d : LogDefinition) (flushInterval : Duration) (env : AttemptEnv)
    {f : LogFile} {path : String} (disk : Disk) (idle : f.diskPath = path → f.logs = []) :
    disk.set f.diskPath
      (applyOps (d.writeOne warsaw flushInterval env f (disk f.diskPath)).2.ops (disk f.diskPath)) path =
        disk path := by
  by_cases here : f.diskPath = path
  · subst here
    obtain ⟨-, nothing⟩ := d.writeOne_queue warsaw flushInterval env f (disk f.diskPath) (idle rfl)
    rw [nothing]
    exact if_pos rfl
  · exact if_neg (Ne.symm here)

/-- The pass over one definition's files, at a path where none of them has entries. -/
theorem LogDefinition.writeToFile_frame (d : LogDefinition) (flushInterval : Duration)
    (env : String → AttemptEnv) (rank : String → Nat) (disk : Disk) {path : String}
    (idle : ∀ key f, d.files.get? key = some f → f.diskPath = path → f.logs = []) :
    (d.writeToFile warsaw flushInterval env rank disk).2.1 path = disk path := by
  refine d.files.visit_frame rank _ (fun disk : Disk => disk path) ?_ disk
  intro key f disk there
  exact d.visit_idle warsaw flushInterval (env key) disk (idle key f there)

namespace OpLogWorker
variable (w : OpLogWorker) (interval : LogDefinition → Duration) (env : PassEnv) (disk : Disk)

/-- A pass, at a path where no file has entries. -/
theorem writePass_frame {path : String}
    (idle : ∀ name key f, w.file? name key = some f → f.diskPath = path → f.logs = []) :
    (w.writePass warsaw interval env disk).2.1 path = disk path := by
  refine w.definitions.visit_frame env.definitionRank _ (fun disk : Disk => disk path) ?_ disk
  intro name d disk stored
  apply d.writeToFile_frame warsaw
  intro key f there
  exact idle name key f (by rw [file?_of_definition key stored, there])

/-- A pass, at a file of the worker where no other one has entries: the content on which the
attempt is made, and what it leaves. -/
theorem writePass_slot {name key : String} {d : LogDefinition} {f : LogFile}
    (stored : w.definitions.get? name = some d) (live : w.file? name key = some f)
    (alone : w.OnlyAt f.diskPath name key) :
    w.contentAt warsaw interval env disk name key = disk f.diskPath ∧
      (w.writePass warsaw interval env disk).2.1 f.diskPath =
        applyOps (d.writeOne warsaw (interval d) (env.attempt name key) f (disk f.diskPath)).2.ops
          (disk f.diskPath) := by
  have there : d.files.get? key = some f := by rw [← file?_of_definition key stored, live]
  have outer := w.definitions.visit_slot env.definitionRank
    (fun name d disk => d.writeToFile warsaw (interval d) (env.attempt name) (env.fileRank name) disk)
    (fun disk : Disk => disk f.diskPath) stored (by
      intro name' d' disk stored' different
      apply d'.writeToFile_frame warsaw
      intro key' g there' same
      have live' : w.file? name' key' = some g := by rw [file?_of_definition key' stored', there']
      by_contra queued
      exact different (alone name' key' g live' same queued).1) disk
  have inner (disk : Disk) := d.files.visit_slot (env.fileRank name)
    (fun key f disk =>
      let out := d.writeOne warsaw (interval d) (env.attempt name key) f (disk f.diskPath)
      (out.1, disk.set f.diskPath (applyOps out.2.ops (disk f.diskPath)), out.2))
    (fun disk : Disk => disk f.diskPath) there (by
      intro key' g disk there' different
      apply d.visit_idle warsaw (interval d) (env.attempt name key') disk
      intro same
      have live' : w.file? name key' = some g := by rw [file?_of_definition key' stored, there']
      by_contra queued
      exact different (alone name key' g live' same queued).2) disk
  obtain ⟨before, after⟩ := outer
  obtain ⟨before', after'⟩ := inner ((w.definitions.reorder env.definitionRank).visitState
    (fun name d disk => d.writeToFile warsaw (interval d) (env.attempt name) (env.fileRank name) disk)
    disk name)
  have found := before'.trans before
  constructor
  · simp only [contentAt, stored, live, LogDefinition.diskAt]
    exact found
  · dsimp only at found after'
    refine (after.trans after').trans ((if_pos rfl).trans ?_)
    rw [found]

/-- A pass, at a path where only one file may have entries: what the attempts on that file do
to it. -/
theorem writePass_at {path name key : String} (alone : w.OnlyAt path name key) {f : LogFile}
    (live : w.file? name key = some f) (here : f.diskPath = path) :
    let out := w.writePass warsaw interval env disk
    out.2.1 path = applyOps ((out.2.2.on name key).flatMap Attempt.ops) (disk path) := by
  intro out
  subst here
  have visit := w.file?_writePass warsaw interval env disk name key
  rw [live] at visit
  obtain ⟨d, content, stored, found, -, attempts⟩ := visit
  obtain ⟨before, after⟩ := w.writePass_slot warsaw interval env disk stored live alone
  rw [show out.2.2.on name key = _ from attempts, found, before, List.flatMap_cons, List.flatMap_nil,
    List.append_nil]
  exact after

/-- After a pass a file is where it was, and has entries only if it had some. -/
theorem file?_before_writePass {name key : String} {f' : LogFile}
    (live' : (w.writePass warsaw interval env disk).1.file? name key = some f') :
    ∃ f, w.file? name key = some f ∧ f'.diskPath = f.diskPath ∧ (f'.logs ≠ [] → f.logs ≠ []) := by
  have visit := w.file?_writePass warsaw interval env disk name key
  cases live : w.file? name key with
  | none =>
    rw [live] at visit
    obtain ⟨absent, -⟩ := visit
    rw [absent] at live'
    cases live'
  | some f =>
    rw [live] at visit
    obtain ⟨d, content, -, -, stored, -⟩ := visit
    rw [stored, Option.some.injEq] at live'
    subst live'
    obtain ⟨path, logName⟩ := d.writeOne_place warsaw (interval d) (env.attempt name key) f content
    have queue := d.writeOne_queue warsaw (interval d) (env.attempt name key) f content
    exact ⟨f, rfl, LogFile.diskPath_congr path logName, fun left empty => left (queue empty).1⟩

theorem Unshared.writePass {w : OpLogWorker} (unshared : w.Unshared) :
    (w.writePass warsaw interval env disk).1.Unshared := by
  intro name key f live queued name' key' g live' same queued'
  obtain ⟨f', before, place, some_left⟩ := w.file?_before_writePass warsaw interval env disk live
  obtain ⟨g', before', place', some_left'⟩ := w.file?_before_writePass warsaw interval env disk live'
  exact unshared name key f' before (some_left queued) name' key' g' before'
    (place'.symm.trans (same.trans place)) (some_left' queued')

end OpLogWorker
end Warsaw
end OpLog.Source
