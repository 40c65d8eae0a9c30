import OpLog.Source.CleanUp
import OpLog.Source.Io

/-!
# Deleting old files

The rest of `clean_up_delete_files.rs`: one pass over the directories of the cleanup rules.
The file system is a tree of directories; a pass may be cut off after any number of steps,
a step being the visit of one entry or the removal of one directory. Every deletion and every
read of a directory that is there succeeds. `resolve` is what the operating system makes of a
rule's path, as names from the root of the tree.
-/
namespace OpLog.Source

/-- Nanoseconds since the epoch. -/
abbrev SystemTime := Int

/-- The two times of a file's metadata; a file system need not report either. -/
structure FileTimes where
  modified : IoResult SystemTime
  created : IoResult SystemTime

/-- A directory as `read_dir` lists it; `other` is neither a directory nor a regular file. -/
inductive Listing where
  | nil
  | file (name : String) (times : FileTimes) (rest : Listing)
  | dir (name : String) (entries rest : Listing)
  | other (name : String) (rest : Listing)

/-- `duration_since(..).unwrap_or(Duration::from_secs(0))`. -/
def SystemTime.durationSince (now time : SystemTime) : Duration :=
  if time ≤ now then (now - time).toNat else Duration.fromSecs 0

def Duration.asSecs (duration : Duration) : Nat := duration / 1000000000

def isOlderThan (times : FileTimes) (now : SystemTime) (minDays : Nat) : Bool :=
  let time := match times.modified with
    | .ok time => time
    | .error _ =>
      match times.created with
      | .ok time => time
      | .error _ => now
  let duration := now.durationSince time
  decide (duration.asSecs / (60 * 60 * 24) ≥ minDays)

namespace Listing

def isEmpty : Listing → Bool
  | .nil => true
  | _ => false

/-- The walk over the entries still to come, with the steps left before the pass is cut off;
`none` is a pass that was. -/
def deleteFilesInPath (now : SystemTime) (deleteAfterDays : Nat) :
    Listing → Nat → Listing × Option Nat
  | .nil, steps => (.nil, some steps)
  | .file name times rest, 0 => (.file name times rest, none)
  | .file name times rest, steps + 1 =>
    let out := rest.deleteFilesInPath now deleteAfterDays steps
    if isOlderThan times now deleteAfterDays then out else (.file name times out.1, out.2)
  | .dir name entries rest, 0 => (.dir name entries rest, none)
  | .dir name entries rest, steps + 1 =>
    match entries.deleteFilesInPath now deleteAfterDays steps with
    | (entries, some (steps + 1)) =>
      let out := rest.deleteFilesInPath now deleteAfterDays steps
      -- `remove_dir` fails on a directory that is not empty
      if entries.isEmpty then out else (.dir name entries out.1, out.2)
    | (entries, _) => (.dir name entries rest, none)
  | .other name rest, 0 => (.other name rest, none)
  | .other name rest, steps + 1 =>
    let out := rest.deleteFilesInPath now deleteAfterDays steps
    (.other name out.1, out.2)

/-! ## The order of the entries -/

/-- One more entry, in its place among entries in the order of `rank`. -/
def place (rank : String → Nat) (name : String) (entry : Listing → Listing) : Listing → Listing
  | .nil => entry .nil
  | .file first times rest =>
    if rank name ≤ rank first then entry (.file first times rest)
    else .file first times (rest.place rank name entry)
  | .dir first entries rest =>
    if rank name ≤ rank first then entry (.dir first entries rest)
    else .dir first entries (rest.place rank name entry)
  | .other first rest =>
    if rank name ≤ rank first then entry (.other first rest)
    else .other first (rest.place rank name entry)

/-- The same tree, every directory of it listed in an order of its own. -/
def reorder (rank : List String → String → Nat) (path : List String) : Listing → Listing
  | .nil => .nil
  | .file name times rest => (rest.reorder rank path).place (rank path) name (.file name times)
  | .dir name entries rest =>
    (rest.reorder rank path).place (rank path) name
      (.dir name (entries.reorder rank (path ++ [name])))
  | .other name rest => (rest.reorder rank path).place (rank path) name (.other name)

/-- A visit of the directory at a path; there is none if no directory is there. -/
def inDirectory (visit : Listing → Listing × Option Nat) (steps : Nat) :
    Listing → List String → Listing × Option Nat
  | tree, [] => visit tree
  | .nil, _ :: _ => (.nil, some steps)
  | .file name times rest, wanted :: path =>
    let out := rest.inDirectory visit steps (wanted :: path)
    (.file name times out.1, out.2)
  | .dir name entries rest, wanted :: path =>
    if name = wanted then
      let out := entries.inDirectory visit steps path
      (.dir name out.1 rest, out.2)
    else
      let out := rest.inDirectory visit steps (wanted :: path)
      (.dir name entries out.1, out.2)
  | .other name rest, wanted :: path =>
    let out := rest.inDirectory visit steps (wanted :: path)
    (.other name out.1, out.2)

/-! ## What a walk can do -/

/-- A walk from one listing to what is left of it, one constructor for each branch of
`deleteFilesInPath`: the steps it may make come first, those it has left come last. -/
inductive Walk (now : SystemTime) (days : Nat) : Listing → Nat → Listing → Option Nat → Prop where
  | done (steps : Nat) : Walk now days .nil steps .nil (some steps)
  | cut (t : Listing) : Walk now days t 0 t none
  | oldFile {name : String} {times : FileTimes} {rest after : Listing} {steps : Nat}
      {left : Option Nat} (old : isOlderThan times now days = true)
      (behind : Walk now days rest steps after left) :
      Walk now days (.file name times rest) (steps + 1) after left
  | youngFile {name : String} {times : FileTimes} {rest after : Listing} {steps : Nat}
      {left : Option Nat} (young : ¬ isOlderThan times now days = true)
      (behind : Walk now days rest steps after left) :
      Walk now days (.file name times rest) (steps + 1) (.file name times after) left
  | cutInside {name : String} {entries inner rest : Listing} {steps : Nat} {left : Option Nat}
      (inside : Walk now days entries steps inner left) :
      Walk now days (.dir name entries rest) (steps + 1) (.dir name inner rest) none
  | emptied {name : String} {entries inner rest after : Listing} {steps mid : Nat}
      {left : Option Nat} (inside : Walk now days entries steps inner (some (mid + 1)))
      (empty : inner.isEmpty = true) (behind : Walk now days rest mid after left) :
      Walk now days (.dir name entries rest) (steps + 1) after left
  | notEmptied {name : String} {entries inner rest after : Listing} {steps mid : Nat}
      {left : Option Nat} (inside : Walk now days entries steps inner (some (mid + 1)))
      (behind : Walk now days rest mid after left) :
      Walk now days (.dir name entries rest) (steps + 1) (.dir name inner after) left
  | other {name : String} {rest after : Listing} {steps : Nat} {left : Option Nat}
      (behind : Walk now days rest steps after left) :
      Walk now days (.other name rest) (steps + 1) (.other name after) left

theorem walk_deleteFilesInPath (now : SystemTime) (days : Nat) (t : Listing) (steps : Nat) :
    Walk now days t steps (t.deleteFilesInPath now days steps).1
      (t.deleteFilesInPath now days steps).2 := by
  induction t generalizing steps with
  | nil => exact .done steps
  | file name times rest ih =>
    cases steps with
    | zero => exact .cut _
    | succ steps =>
      unfold deleteFilesInPath
      dsimp only
      split
      · rename_i old
        exact .oldFile old (ih steps)
      · rename_i young
        exact .youngFile young (ih steps)
  | dir name entries rest ihEntries ihRest =>
    cases steps with
    | zero => exact .cut _
    | succ steps =>
      have inside := ihEntries steps
      unfold deleteFilesInPath
      dsimp only
      generalize entries.deleteFilesInPath now days steps = out at inside ⊢
      obtain ⟨inner, left⟩ := out
      rcases left with _ | _ | mid
      · exact .cutInside inside
      · exact .cutInside inside
      · dsimp only
        split
        · rename_i empty
          exact .emptied inside empty (ihRest mid)
        · exact .notEmptied inside (ihRest mid)
  | other name rest ih =>
    cases steps with
    | zero => exact .cut _
    | succ steps => exact .other (ih steps)

end Listing

/-- What one pass meets: the steps after which it is cut off, and the order in which each
directory is listed, for the walk of each rule. -/
structure CleanupPass where
  steps : Nat
  rank : Nat → List String → String → Nat

/-- The rules from number `n` on. -/
def cleanUpDeleteFiles (resolve : String → List String) (now : SystemTime)
    (rank : Nat → List String → String → Nat) :
    List OpLogCleanUpDefinition → Nat → Listing → Nat → Listing × Option Nat
  | [], _, tree, steps => (tree, some steps)
  | d :: rules, n, tree, steps =>
    if d.deleteAfterDays > 0 then
      let visit (dir : Listing) :=
        (dir.reorder (rank n) []).deleteFilesInPath now d.deleteAfterDays steps
      match tree.inDirectory visit steps (resolve d.path) with
      | (tree, some steps) => cleanUpDeleteFiles resolve now rank rules (n + 1) tree steps
      | (tree, none) => (tree, none)
    else cleanUpDeleteFiles resolve now rank rules (n + 1) tree steps

/-- One pass under its timeout; whether it completed is what `run_bounded` returns. -/
def cleanUpDeleteFilesBounded (resolve : String → List String) (now : SystemTime)
    (rules : List OpLogCleanUpDefinition) (pass : CleanupPass) (tree : Listing) : Listing × Bool :=
  let out := cleanUpDeleteFiles resolve now pass.rank rules 0 tree pass.steps
  (out.1, out.2.isSome)

end OpLog.Source
