import OpLog.Source.DeleteFiles

/-!
# Deleting old files where calls fail

`delete_files_in_path` with every call it makes allowed to fail: a directory that cannot be
read, or not to its end, an entry whose type or metadata cannot be read, a file or an emptied
directory that cannot be removed. The clock is read anew for each file. What cannot be done is
passed over, and the walk goes on. With no failure, and one time for all, it is the walk of
`DeleteFiles`.
-/
namespace OpLog.Source

/-- How the calls of one walk end, by the path below its root they are about: `true` is `Ok`.
`nextEntry` is the call that would have returned the entry at that path. -/
structure WalkIo where
  readDir : List String → Bool
  nextEntry : List String → Bool
  fileType : List String → Bool
  metadata : List String → Bool
  removeFile : List String → Bool
  removeDir : List String → Bool
  now : List String → SystemTime

/-- Every call succeeds, at one time. -/
def WalkIo.undisturbed (now : SystemTime) : WalkIo where
  readDir _ := true
  nextEntry _ := true
  fileType _ := true
  metadata _ := true
  removeFile _ := true
  removeDir _ := true
  now _ := now

/-- The file's type and age are known, it is old, and it is removed. -/
def WalkIo.deletes (io : WalkIo) (deleteAfterDays : Nat) (path : List String) (times : FileTimes) :
    Bool :=
  io.fileType path && io.metadata path && isOlderThan times (io.now path) deleteAfterDays &&
    io.removeFile path

namespace Listing

/-- The walk over the entries still to come of the directory at `path`. -/
def deleteFilesInPathFailing (deleteAfterDays : Nat) (io : WalkIo) :
    List String → Listing → Nat → Listing × Option Nat
  | _, .nil, steps => (.nil, some steps)
  | _, .file name times rest, 0 => (.file name times rest, none)
  | path, .file name times rest, steps + 1 =>
    if io.nextEntry (path ++ [name]) then
      let out := rest.deleteFilesInPathFailing deleteAfterDays io path steps
      if io.deletes deleteAfterDays (path ++ [name]) times then out else (.file name times out.1, out.2)
    else (.file name times rest, some (steps + 1))
  | _, .dir name entries rest, 0 => (.dir name entries rest, none)
  | path, .dir name entries rest, steps + 1 =>
    if io.nextEntry (path ++ [name]) then
      if io.fileType (path ++ [name]) then
        let inside := if io.readDir (path ++ [name]) then
            entries.deleteFilesInPathFailing deleteAfterDays io (path ++ [name]) steps
          else (entries, some steps)
        match inside with
        | (entries, some (steps + 1)) =>
          let out := rest.deleteFilesInPathFailing deleteAfterDays io path steps
          if entries.isEmpty && io.removeDir (path ++ [name]) then out
          else (.dir name entries out.1, out.2)
        | (entries, _) => (.dir name entries rest, none)
      else
        let out := rest.deleteFilesInPathFailing deleteAfterDays io path steps
        (.dir name entries out.1, out.2)
    else (.dir name entries rest, some (steps + 1))
  | _, .other name rest, 0 => (.other name rest, none)
  | path, .other name rest, steps + 1 =>
    if io.nextEntry (path ++ [name]) then
      let out := rest.deleteFilesInPathFailing deleteAfterDays io path steps
      (.other name out.1, out.2)
    else (.other name rest, some (steps + 1))

theorem deleteFilesInPath_undisturbed (now : SystemTime) (days : Nat) (path : List String)
    (t : Listing) (steps : Nat) :
    t.deleteFilesInPathFailing days (.undisturbed now) path steps = t.deleteFilesInPath now days steps := by
  induction t generalizing path steps with
  | nil => rfl
  | file name times rest ih =>
    cases steps with
    | zero => rfl
    | succ steps =>
      simp only [deleteFilesInPathFailing, deleteFilesInPath, WalkIo.deletes, WalkIo.undisturbed,
        Bool.true_and, Bool.and_true, if_true]
      rw [← ih path steps]
      rfl
  | dir name entries rest ihEntries ihRest =>
    cases steps with
    | zero => rfl
    | succ steps =>
      have inside := ihEntries (path ++ [name]) steps
      simp only [deleteFilesInPathFailing, deleteFilesInPath, WalkIo.undisturbed, Bool.and_true,
        if_true] at inside ⊢
      rw [inside]
      generalize entries.deleteFilesInPath now days steps = out
      obtain ⟨entries, _ | _ | left⟩ := out
      · rfl
      · rfl
      · dsimp only
        rw [← ihRest path left]
        rfl
  | other name rest ih =>
    cases steps with
    | zero => rfl
    | succ steps =>
      simp only [deleteFilesInPathFailing, deleteFilesInPath, WalkIo.undisturbed, if_true]
      rw [← ih path steps]
      rfl

/-- The walk of a rule, from its root on. -/
def cleanDirectory (deleteAfterDays : Nat) (io : WalkIo) (rank : List String → String → Nat)
    (steps : Nat) (root : Listing) : Listing × Option Nat :=
  if io.readDir [] then (root.reorder rank []).deleteFilesInPathFailing deleteAfterDays io [] steps
  else (root, some steps)

end Listing

/-- What a pass meets: the steps after which it is cut off, the orders of the directories, and
how its calls end. -/
structure FailingPass where
  steps : Nat
  rank : Nat → List String → String → Nat
  io : Nat → WalkIo

/-- The rules from number `n` on. -/
def cleanUpDeleteFilesFailing (resolve : String → List String) (pass : FailingPass) :
    List OpLogCleanUpDefinition → Nat → Listing → Nat → Listing × Option Nat
  | [], _, tree, steps => (tree, some steps)
  | d :: rules, n, tree, steps =>
    if d.deleteAfterDays > 0 then
      match tree.inDirectory (Listing.cleanDirectory d.deleteAfterDays (pass.io n) (pass.rank n) steps)
        steps (resolve d.path) with
      | (tree, some steps) => cleanUpDeleteFilesFailing resolve pass rules (n + 1) tree steps
      | (tree, none) => (tree, none)
    else cleanUpDeleteFilesFailing resolve pass rules (n + 1) tree steps

/-- A pass whose calls all succeed is one of `cleanUpDeleteFiles`. -/
theorem cleanUpDeleteFiles_undisturbed (resolve : String → List String) (now : SystemTime)
    (pass : CleanupPass) (rules : List OpLogCleanUpDefinition) (n : Nat) (tree : Listing)
    (steps : Nat) :
    cleanUpDeleteFilesFailing resolve ⟨pass.steps, pass.rank, fun _ => .undisturbed now⟩ rules n tree
      steps = cleanUpDeleteFiles resolve now pass.rank rules n tree steps := by
  induction rules generalizing n tree steps with
  | nil => rfl
  | cons d rules ih =>
    have same (steps : Nat) :
        Listing.cleanDirectory d.deleteAfterDays (.undisturbed now) (pass.rank n) steps =
          fun dir => (dir.reorder (pass.rank n) []).deleteFilesInPath now d.deleteAfterDays steps := by
      funext dir
      exact Listing.deleteFilesInPath_undisturbed now d.deleteAfterDays [] _ steps
    unfold cleanUpDeleteFilesFailing cleanUpDeleteFiles
    simp only [same]
    split
    · generalize tree.inDirectory _ steps (resolve d.path) = walked
      obtain ⟨tree, _ | steps⟩ := walked
      · rfl
      · exact ih (n + 1) tree steps
    · exact ih (n + 1) tree steps

end OpLog.Source
