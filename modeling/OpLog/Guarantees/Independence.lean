import OpLog.Guarantees.OneFile
import OpLog.Source.Apart

/-!
# A write tick treats the files apart

Where no two `LogFile`s of a worker write to one file on disk, a tick does to each of them, to
its file on disk and to what is reported of it what it would do if there were no other one:
what the other attempts meet, and the order of all of them, is of no consequence.
-/
namespace OpLog.Guarantees.Independence
open Library Source

/-! ## The files of a worker on disk -/

/-- Where the `LogFile`s write, each with its name and key. -/
def places (w : OpLogWorker) : List ((String × String) × String) :=
  w.definitions.entries.flatMap fun e =>
    e.2.files.entries.map fun file => ((e.1, file.1), file.2.diskPath)

/-- No two of them write to the same file. -/
def Separate (w : OpLogWorker) : Prop := ((places w).map Prod.snd).Nodup

instance (w : OpLogWorker) : Decidable (Separate w) := inferInstanceAs (Decidable (List.Nodup _))

theorem mem_places {w : OpLogWorker} {name key : String} {f : LogFile}
    (live : w.file? name key = some f) : ((name, key), f.diskPath) ∈ places w := by
  obtain ⟨d, stored, file⟩ := Option.bind_eq_some_iff.mp live
  rw [KeyedMap.get?_eq_some] at stored file
  exact List.mem_flatMap.mpr ⟨(name, d), stored, List.mem_map.mpr ⟨(key, f), file, rfl⟩⟩

theorem onlyAt_of_separate {w : OpLogWorker} (separate : Separate w) {name key : String}
    {f : LogFile} (live : w.file? name key = some f) : w.OnlyAt f.diskPath name key := by
  intro name' key' g live' same _
  have equal := List.inj_on_of_nodup_map separate (mem_places live') (mem_places live) same
  simp only [Prod.mk.injEq] at equal
  exact equal.1

/-! ## A worker with one file -/

/-- The worker with the file under one key of one definition, and nothing else in its maps. -/
def only (w : OpLogWorker) (name key : String) : OpLogWorker :=
  { w with
    definitions := (w.definitions.retain fun n _ => decide (n = name)).mapValues fun d =>
      { d with files := d.files.retain fun k _ => decide (k = key) } }

theorem get?_only {w : OpLogWorker} {name key : String} {d : LogDefinition}
    (stored : w.definitions.get? name = some d) :
    (only w name key).definitions.get? name =
      some { d with files := d.files.retain fun k _ => decide (k = key) } := by
  unfold only
  simp only [KeyedMap.get?_mapValues, KeyedMap.get?_retain, stored, Option.filter_some,
    decide_true, if_true, Option.map_some]

theorem file?_only {w : OpLogWorker} {name key : String} {f : LogFile}
    (live : w.file? name key = some f) : (only w name key).file? name key = some f := by
  obtain ⟨d, stored, file⟩ := Option.bind_eq_some_iff.mp live
  rw [OpLogWorker.file?_of_definition key (get?_only stored), KeyedMap.get?_retain, file,
    Option.filter_some, if_pos (decide_eq_true rfl)]

theorem onlyAt_only (w : OpLogWorker) (name key path : String) :
    (only w name key).OnlyAt path name key := by
  intro name' key' f live _ _
  obtain ⟨d, stored, file⟩ := Option.bind_eq_some_iff.mp live
  unfold only at stored
  rw [KeyedMap.get?_mapValues, KeyedMap.get?_retain] at stored
  obtain ⟨d', kept, rfl⟩ := Option.map_eq_some_iff.mp stored
  rw [KeyedMap.get?_retain] at file
  exact ⟨of_decide_eq_true (Option.filter_eq_some_iff.mp kept).2,
    of_decide_eq_true (Option.filter_eq_some_iff.mp file).2⟩

/-! ## One tick -/

/-- Two passes agree on a file: on its state, on the disk and in their attempts. -/
structure SameFile (name key path : String) (out out' : OpLogWorker × Disk × PassAttempts) : Prop where
  file : out'.1.file? name key = out.1.file? name key
  content : out'.2.1 path = out.2.1 path
  attempts : out'.2.2.on name key = out.2.2.on name key

section Warsaw
variable (warsaw : DateTimeUtc → LocalDateTime)

/-- What a pass does to a file that is alone at its path: one attempt on the content there. -/
theorem pass_one (w : OpLogWorker) (env : PassEnv) (disk : Disk) {name key : String}
    {d : LogDefinition} {f : LogFile} (stored : w.definitions.get? name = some d)
    (live : w.file? name key = some f) (alone : w.OnlyAt f.diskPath name key) :
    let out := w.writeToFiles warsaw env disk
    let one := d.writeOne warsaw d.flushInterval (env.attempt name key) f (disk f.diskPath)
    out.1.file? name key = some one.1 ∧
      out.2.1 f.diskPath = applyOps one.2.ops (disk f.diskPath) ∧ out.2.2.on name key = [one.2] := by
  have visit := w.file?_writePass warsaw (·.flushInterval) env disk name key
  rw [live] at visit
  obtain ⟨d', content, stored', found, file, attempts⟩ := visit
  rw [stored, Option.some.injEq] at stored'
  subst stored'
  obtain ⟨before, after⟩ :=
    w.writePass_slot warsaw (·.flushInterval) env disk stored live alone
  rw [before] at found
  subst found
  exact ⟨file, after, attempts⟩

/-- Two passes that meet the same at a file agree on it, whatever else is in the workers, on
the disks and in the answers. -/
theorem pass_congr {w w' : OpLogWorker} {env env' : PassEnv} {disk disk' : Disk} {name key : String}
    {d : LogDefinition} {files : KeyedMap String LogFile} {f : LogFile}
    (stored : w.definitions.get? name = some d)
    (stored' : w'.definitions.get? name = some { d with files })
    (live : w.file? name key = some f) (live' : w'.file? name key = some f)
    (alone : w.OnlyAt f.diskPath name key) (alone' : w'.OnlyAt f.diskPath name key)
    (there : disk' f.diskPath = disk f.diskPath)
    (same : env'.attempt name key = env.attempt name key) :
    SameFile name key f.diskPath (w.writeToFiles warsaw env disk)
      (w'.writeToFiles warsaw env' disk') := by
  obtain ⟨file, content, attempts⟩ := pass_one warsaw w env disk stored live alone
  obtain ⟨file', content', attempts'⟩ := pass_one warsaw w' env' disk' stored' live' alone'
  rw [there, same] at file' content' attempts'
  exact ⟨file'.trans file.symm, content'.trans content.symm, attempts'.trans attempts.symm⟩

/-- A file of a worker in two ticks that meet the same at it, in any orders and whatever
happens to the other files: both leave it the same, and so does the tick of the worker that
has no other file. What no file writes to stays as it is. -/
theorem files_written_apart {w : OpLogWorker} (separate : Separate w) (env env' : PassEnv)
    (disk disk' : Disk) {name key : String} {f : LogFile} (live : w.file? name key = some f)
    (there : disk' f.diskPath = disk f.diskPath)
    (same : env'.attempt name key = env.attempt name key) :
    SameFile name key f.diskPath (w.writeToFiles warsaw env disk) (w.writeToFiles warsaw env' disk') ∧
    SameFile name key f.diskPath (w.writeToFiles warsaw env disk)
      ((only w name key).writeToFiles warsaw env' disk') ∧
    ∀ path, (∀ name key g, w.file? name key = some g → g.diskPath ≠ path) →
      (w.writeToFiles warsaw env disk).2.1 path = disk path := by
  obtain ⟨d, stored, -⟩ := Option.bind_eq_some_iff.mp live
  have alone := onlyAt_of_separate separate live
  constructor
  · exact pass_congr warsaw stored stored live live alone alone there same
  constructor
  · exact pass_congr warsaw stored (get?_only stored) live (file?_only live) alone
      (onlyAt_only w name key f.diskPath) there same
  · intro path unused
    apply w.writePass_frame warsaw
    intro name key g live here
    exact absurd here (unused name key g live)

end Warsaw

/-! ## Two logs, one of them on a volume that hangs -/

def registered (w : OpLogWorker) (name : String) : OpLogWorker :=
  w.define ⟨name, .noSplit, "", "logs", [], 0, false⟩ 0

/-- An entry is queued in each of two files. -/
def twoLogs : OpLogWorker :=
  ((registered (registered .new "app") "web").log warsawAtEpoch "app" 0 "one" 0).log
    warsawAtEpoch "web" 0 "two" 0

def appFile : LogFile where
  lastTimeUse := 0
  timeOfFirstAdditionOfLogAfterWrite := some 0
  logName := "app.log"
  header := ""
  path := "logs"
  logs := ["one"]
  queuedBytes := 3
  droppedLogs := 0
  writeErrorLogged := false
  tailVerified := false

/-- `web` is visited first, and its attempt runs into the timeout. -/
def webHangs : PassEnv where
  attempt name _ :=
    storedEnv (if name = "app" then allDone else { allDone with createDirAll := .pending })
  definitionRank name := if name = "app" then 1 else 0
  fileRank _ _ := 0

theorem files_written_apart_webHangs :
    SameFile "app" "logs/app.log" "logs/app.log"
      (twoLogs.writeToFiles warsawAtEpoch (passEnv (storedEnv allDone)) fun _ => none)
      (twoLogs.writeToFiles warsawAtEpoch webHangs fun _ => none) := by
  have live : twoLogs.file? "app" "logs/app.log" = some appFile := by decide +kernel
  have place : appFile.diskPath = "logs/app.log" := by decide +kernel
  have apart := (files_written_apart warsawAtEpoch (by decide +kernel)
    (passEnv (storedEnv allDone)) webHangs (fun _ => none) (fun _ => none) live rfl rfl).1
  rw [place] at apart
  exact apart

end OpLog.Guarantees.Independence
