import OpLog.Guarantees.Pruning
import OpLog.Library.Trimming
import OpLog.Source.FailingWalk

/-!
# Cleanup that fails converges all the same

Passes whose calls fail, or that are cut off, remove nothing that an undisturbed pass would
keep: the files too young for the rules, what is neither a file nor a directory, and the
directories these stand in. So they trim the tree to a core that stays the same, and two
undisturbed passes leave exactly this core, however many disturbed ones there were before.
-/
namespace OpLog.Guarantees.Convergence
open Library Source Retention Pruning

/-! ## One walk -/

/-- A walk has removed some of the old files, and directories it found or made empty. -/
inductive Removes (now : SystemTime) (days : Nat) : Listing → Listing → Prop where
  | nil : Removes now days .nil .nil
  | oldFile {name : String} {times : FileTimes} {rest after : Listing}
      (old : isOlderThan times now days = true) (behind : Removes now days rest after) :
      Removes now days (.file name times rest) after
  | file {name : String} {times : FileTimes} {rest after : Listing}
      (behind : Removes now days rest after) :
      Removes now days (.file name times rest) (.file name times after)
  | emptied {name : String} {entries rest after : Listing} (inside : Removes now days entries .nil)
      (behind : Removes now days rest after) : Removes now days (.dir name entries rest) after
  | dir {name : String} {entries inner rest after : Listing}
      (inside : Removes now days entries inner) (behind : Removes now days rest after) :
      Removes now days (.dir name entries rest) (.dir name inner after)
  | other {name : String} {rest after : Listing} (behind : Removes now days rest after) :
      Removes now days (.other name rest) (.other name after)

section Walk
variable {now : SystemTime} {days : Nat}

theorem removes_refl (t : Listing) : Removes now days t t := by
  induction t with
  | nil => exact .nil
  | file name times rest ih => exact .file ih
  | dir name entries rest ihEntries ihRest => exact .dir ihEntries ihRest
  | other name rest ih => exact .other ih

/-- A file gets older. -/
theorem ageInDays_mono (times : FileTimes) {earlier now : SystemTime} (later : earlier ≤ now) :
    ageInDays times earlier ≤ ageInDays times now := by
  have older (time : SystemTime) : ((earlier - time) / (24 * 60 * 60 * 1000000000)).toNat ≤
      ((now - time) / (24 * 60 * 60 * 1000000000)).toNat := by
    apply Int.toNat_le_toNat
    apply Int.ediv_le_ediv (by decide)
    exact Int.sub_le_sub_right later time
  unfold ageInDays
  cases times.modified with
  | ok time => exact older time
  | error _ =>
    cases times.created with
    | ok time => exact older time
    | error _ => exact Nat.le_refl 0

theorem old_of_deletes {io : WalkIo} {path : List String} {times : FileTimes}
    (earlier : ∀ path, io.now path ≤ now) (deleted : io.deletes days path times = true) :
    isOlderThan times now days = true := by
  unfold WalkIo.deletes at deleted
  simp only [Bool.and_eq_true] at deleted
  rw [isOlderThan_iff]
  exact Nat.le_trans ((isOlderThan_iff _ _ _).mp deleted.1.2) (ageInDays_mono times (earlier path))

theorem removes_failing {io : WalkIo} (earlier : ∀ path, io.now path ≤ now) (path : List String)
    (t : Listing) (steps : Nat) :
    Removes now days t (t.deleteFilesInPathFailing days io path steps).1 := by
  induction t generalizing path steps with
  | nil => exact .nil
  | file name times rest ih =>
    cases steps with
    | zero => exact removes_refl _
    | succ steps =>
      unfold Listing.deleteFilesInPathFailing
      split
      · dsimp only
        split
        · rename_i deleted
          exact .oldFile (old_of_deletes earlier deleted) (ih path steps)
        · exact .file (ih path steps)
      · exact removes_refl _
  | dir name entries rest ihEntries ihRest =>
    cases steps with
    | zero => exact removes_refl _
    | succ steps =>
      unfold Listing.deleteFilesInPathFailing
      split
      · split
        · have inside : Removes now days entries (if io.readDir (path ++ [name]) then
              entries.deleteFilesInPathFailing days io (path ++ [name]) steps
            else (entries, some steps)).1 := by
            split
            · exact ihEntries (path ++ [name]) steps
            · exact removes_refl _
          dsimp only
          generalize (if io.readDir (path ++ [name]) then
              entries.deleteFilesInPathFailing days io (path ++ [name]) steps
            else (entries, some steps)) = out at inside ⊢
          obtain ⟨inner, _ | _ | left⟩ := out
          · exact .dir inside (removes_refl rest)
          · exact .dir inside (removes_refl rest)
          · dsimp only at inside ⊢
            split
            · rename_i gone
              rw [Bool.and_eq_true] at gone
              cases inner with
              | nil => exact .emptied inside (ihRest path left)
              | _ => cases gone.1
            · exact .dir inside (ihRest path left)
        · exact .dir (removes_refl entries) (ihRest path steps)
      · exact removes_refl _
  | other name rest ih =>
    cases steps with
    | zero => exact removes_refl _
    | succ steps =>
      unfold Listing.deleteFilesInPathFailing
      split
      · exact .other (ih path steps)
      · exact removes_refl _

variable {t after : Listing}

theorem has_of_removes (removes : Removes now days t after) (path : List String) (kind : Kind)
    (has : Has after path kind) : Has t path kind := by
  induction removes generalizing path with
  | nil => exact has
  | oldFile _ _ ih => exact Or.inr (ih path has)
  | file _ ih => exact has.imp_right (ih path)
  | emptied _ _ _ ih => exact Or.inr (Or.inr (ih path has))
  | dir _ _ ihEntries ihRest =>
    rcases has with here | ⟨below, same, inside⟩ | later
    · exact Or.inl here
    · exact Or.inr (Or.inl ⟨below, same, ihEntries below inside⟩)
    · exact Or.inr (Or.inr (ihRest path later))
  | other _ ih => exact has.imp_right (ih path)

theorem mem_names_removes (removes : Removes now days t after) (x : String)
    (member : x ∈ names after) : x ∈ names t := by
  induction removes with
  | nil => exact member
  | oldFile _ _ ih => exact List.mem_cons_of_mem _ (ih member)
  | file _ ih => exact List.mem_cons.mpr ((List.mem_cons.mp member).imp_right ih)
  | emptied _ _ _ ih => exact List.mem_cons_of_mem _ (ih member)
  | dir _ _ _ ih => exact List.mem_cons.mpr ((List.mem_cons.mp member).imp_right ih)
  | other _ ih => exact List.mem_cons.mpr ((List.mem_cons.mp member).imp_right ih)

theorem distinct_removes (removes : Removes now days t after) (distinct : Distinct t) :
    Distinct after := by
  induction removes with
  | nil => trivial
  | oldFile _ _ ih => exact ih distinct.2
  | file behind ih => exact ⟨fun member => distinct.1 (mem_names_removes behind _ member), ih distinct.2⟩
  | emptied _ _ _ ih => exact ih distinct.2.2
  | dir _ behind ihEntries ihRest =>
    obtain ⟨apart, inside, below⟩ := distinct
    exact ⟨fun member => apart (mem_names_removes behind _ member), ihEntries inside, ihRest below⟩
  | other behind ih =>
    exact ⟨fun member => distinct.1 (mem_names_removes behind _ member), ih distinct.2⟩

theorem has_of_not_empty {t : Listing} (some_left : ¬ t.isEmpty = true) :
    ∃ path kind, Has t path kind := by
  cases t with
  | nil => exact absurd rfl some_left
  | file name times rest => exact ⟨[name], .file times, Or.inl ⟨rfl, rfl⟩⟩
  | dir name entries rest => exact ⟨[name], .dir, Or.inl ⟨rfl, rfl⟩⟩
  | other name rest => exact ⟨[name], .other, Or.inl ⟨rfl, rfl⟩⟩

/-- What a whole walk leaves, any walk leaves. -/
theorem has_removes_of_prune (removes : Removes now days t after) (path : List String) (kind : Kind)
    (has : Has (prune now days t) path kind) : Has after path kind := by
  induction removes generalizing path kind with
  | nil => exact has
  | oldFile old _ ih =>
    rw [prune, if_pos old] at has
    exact ih path kind has
  | file _ ih =>
    unfold prune at has
    split at has
    · exact Or.inr (ih path kind has)
    · exact has.imp_right (ih path kind)
  | emptied _ _ ihEntries ihRest =>
    unfold prune at has
    split at has
    · exact ihRest path kind has
    · rename_i some_left
      obtain ⟨below, kind', inside⟩ := has_of_not_empty some_left
      exact (ihEntries below kind' inside).elim
  | dir _ _ ihEntries ihRest =>
    unfold prune at has
    split at has
    · exact Or.inr (Or.inr (ihRest path kind has))
    · rcases has with here | ⟨below, same, inside⟩ | later
      · exact Or.inl here
      · exact Or.inr (Or.inl ⟨below, same, ihEntries below kind inside⟩)
      · exact Or.inr (Or.inr (ihRest path kind later))
  | other _ ih => exact has.imp_right (ih path kind)

end Walk

/-! ## The walk of a rule -/

section Rule
variable {visit visit' : Listing → Listing × Option Nat}

/-- The visit that leaves less of a directory leaves less of the tree. -/
theorem inDirectory_mono
    (less : ∀ dir path kind, Has (visit dir).1 path kind → Has (visit' dir).1 path kind)
    (steps steps' : Nat) (t : Listing) (directory path : List String) (kind : Kind)
    (has : Has (t.inDirectory visit steps directory).1 path kind) :
    Has (t.inDirectory visit' steps' directory).1 path kind := by
  induction t generalizing directory path with
  | nil =>
    cases directory with
    | nil => exact less _ path kind has
    | cons wanted directory => exact has
  | dir name entries rest ihEntries ihRest =>
    cases directory with
    | nil => exact less _ path kind has
    | cons wanted directory =>
      unfold Listing.inDirectory at has ⊢
      split
      · rename_i found
        rw [if_pos found] at has
        rcases has with here | ⟨below, same, inside⟩ | later
        · exact Or.inl here
        · exact Or.inr (Or.inl ⟨below, same, ihEntries directory below inside⟩)
        · exact Or.inr (Or.inr later)
      · rename_i other
        rw [if_neg other] at has
        exact has.imp_right (Or.imp_right (ihRest (wanted :: directory) path))
  | _ =>
    rename_i ih
    cases directory with
    | nil => exact less _ path kind has
    | cons wanted directory => exact has.imp_right (ih (wanted :: directory) path)

theorem inDirectory_same (same : ∀ dir, (visit dir).1 = dir) (steps : Nat) (t : Listing)
    (directory : List String) : (t.inDirectory visit steps directory).1 = t := by
  induction t generalizing directory with
  | nil =>
    cases directory with
    | nil => exact same _
    | cons wanted directory => rfl
  | dir name entries rest ihEntries ihRest =>
    cases directory with
    | nil => exact same _
    | cons wanted directory =>
      unfold Listing.inDirectory
      split
      · exact congrArg (Listing.dir name · rest) (ihEntries directory)
      · exact congrArg (Listing.dir name entries) (ihRest (wanted :: directory))
  | file name times rest ih =>
    cases directory with
    | nil => exact same _
    | cons wanted directory => exact congrArg (Listing.file name times) (ih (wanted :: directory))
  | other name rest ih =>
    cases directory with
    | nil => exact same _
    | cons wanted directory => exact congrArg (Listing.other name) (ih (wanted :: directory))

variable {now : SystemTime} {io : WalkIo} (days : Nat) (rank : List String → String → Nat) (steps : Nat)

theorem cleanDirectory_less (earlier : ∀ path, io.now path ≤ now) (dir : Listing)
    (path : List String) (kind : Kind)
    (has : Has (dir.cleanDirectory days io rank steps).1 path kind) : Has dir path kind := by
  unfold Listing.cleanDirectory at has
  split at has
  · rw [← has_reorder rank dir []]
    exact has_of_removes (removes_failing earlier [] _ steps) path kind has
  · exact has

theorem cleanDirectory_more (earlier : ∀ path, io.now path ≤ now) (dir : Listing)
    (path : List String) (kind : Kind) (has : Has (prune now days (dir.reorder rank [])) path kind) :
    Has (dir.cleanDirectory days io rank steps).1 path kind := by
  unfold Listing.cleanDirectory
  split
  · exact has_removes_of_prune (removes_failing earlier [] _ steps) path kind has
  · rw [← has_reorder rank dir []]
    exact has_removes_of_prune (removes_refl _) path kind has

theorem cleanDirectory_distinct (earlier : ∀ path, io.now path ≤ now) (dir : Listing)
    (distinct : Distinct dir) : Distinct (dir.cleanDirectory days io rank steps).1 := by
  unfold Listing.cleanDirectory
  split
  · exact distinct_removes (removes_failing earlier [] _ steps) (distinct_reorder rank dir [] distinct)
  · exact distinct

theorem prune_leaves {days : Nat} (dir : Listing) (distinct : Distinct dir) :
    Leaves now days [] dir (prune now days (dir.reorder rank [])) := by
  have uncut := walk_uncut now days (dir.reorder rank []) 0
  rw [walkSteps_reorder] at uncut
  have leaves := visit_leaves rank (walkSteps dir + 0) dir 0 distinct (congrArg Prod.snd uncut)
  rwa [uncut] at leaves

/-- Something is gone that does not survive a whole walk below the directory. -/
structure Lessens (now : SystemTime) (days : Nat) (directory : List String) (before after : Listing) :
    Prop where
  old : ∀ path kind, Has after path kind → Has before path kind
  spared : ∀ path kind, Has before path kind →
    (Ancestor directory path → Survives now days before path kind) → Has after path kind

theorem inDirectory_lessens (earlier : ∀ path, io.now path ≤ now) {tree : Listing}
    (distinct : Distinct tree) (directory : List String) :
    Lessens now days directory tree
      (tree.inDirectory (Listing.cleanDirectory days io rank steps) steps directory).1 := by
  constructor
  · intro path kind has
    let leave (dir : Listing) : Listing × Option Nat := (dir, none)
    have more : Has (tree.inDirectory leave steps directory).1 path kind :=
      inDirectory_mono (cleanDirectory_less days rank steps earlier) steps steps tree directory path
        kind has
    rwa [inDirectory_same (fun _ => rfl)] at more
  · intro path kind has spared
    let whole (dir : Listing) : Listing × Option Nat := (prune now days (dir.reorder rank []), some 0)
    have completed : (tree.inDirectory whole (walkSteps tree) directory).2.isSome = true :=
      inDirectory_completes (fun _ _ => rfl) (Nat.le_refl _) directory
    obtain ⟨left, completed⟩ := Option.isSome_iff_exists.mp completed
    have leaves := inDirectory_leaves (fun dir _ distinct _ => prune_leaves rank dir distinct)
      (walkSteps tree) distinct directory completed
    exact inDirectory_mono (cleanDirectory_more days rank steps earlier) (walkSteps tree) steps tree
      directory path kind ((leaves path kind).mpr ⟨has, spared⟩)

end Rule

/-! ## What stays -/

section Passes
variable (resolve : String → List String) (now : SystemTime) (rules : List OpLogCleanUpDefinition)

/-- A rule that is in force has its directory above this path. -/
def Governs (d : OpLogCleanUpDefinition) (path : List String) : Prop :=
  d ∈ rules ∧ 0 < d.deleteAfterDays ∧ Ancestor (resolve d.path) path

/-- What no rule removes for its own sake. -/
def Spared (path : List String) : Kind → Prop
  | .file times => ∀ d, Governs resolve rules d path → ageInDays times now < d.deleteAfterDays
  | .dir => ∀ d, ¬ Governs resolve rules d path
  | .other => True

def entriesOf (t : Listing) : Set (List String × Kind) := {e | Has t e.1 e.2}

/-- A directory stays for what stays below it. -/
def standing : Support (List String × Kind) where
  own := {e | Spared resolve now rules e.1 e.2}
  keeps below e := e.2 = .dir ∧ ∃ deeper, deeper ≠ [] ∧ below.1 = e.1 ++ deeper

variable {resolve now rules}

theorem ancestor_append {directory path : List String} (above : Ancestor directory path)
    (deeper : List String) : Ancestor directory (path ++ deeper) := by
  obtain ⟨below, some_name, rfl⟩ := above
  refine ⟨below ++ deeper, ?_, List.append_assoc _ _ _⟩
  exact fun empty => some_name (List.append_eq_nil_iff.mp empty).1

theorem kept_of_spared {d : OpLogCleanUpDefinition} {path : List String} {kind : Kind}
    (governs : Governs resolve rules d path) (spared : Spared resolve now rules path kind) :
    Kept now d.deleteAfterDays kind := by
  cases kind with
  | file times => exact spared d governs
  | dir => exact absurd governs (spared d)
  | other => trivial

/-- What is in the core survives the walk of every rule. -/
theorem survives_of_core {d : OpLogCleanUpDefinition} {t : Listing} {path : List String} {kind : Kind}
    (governs : Governs resolve rules d path)
    (stays : (path, kind) ∈ (standing resolve now rules).core (entriesOf t)) :
    Survives now d.deleteAfterDays t path kind := by
  obtain ⟨-, own | ⟨⟨below, kind'⟩, has, own, isDir, deeper, some_name, isBelow⟩⟩ := stays
  · exact survives_of_kept (kept_of_spared governs own)
  · obtain rfl : kind = .dir := isDir
    obtain rfl : below = path ++ deeper := isBelow
    refine ⟨deeper, kind', some_name, has, kept_of_spared ?_ own⟩
    exact ⟨governs.1, governs.2.1, ancestor_append governs.2.2 deeper⟩

theorem trims_of_lessens {d : OpLogCleanUpDefinition} (listed : d ∈ rules)
    (active : 0 < d.deleteAfterDays) {before after : Listing}
    (lessens : Lessens now d.deleteAfterDays (resolve d.path) before after) :
    (standing resolve now rules).Trims (entriesOf before) (entriesOf after) where
  spares := by
    intro entry stays
    obtain ⟨path, kind⟩ := entry
    exact lessens.spared path kind stays.1 fun above =>
      survives_of_core ⟨listed, active, above⟩ stays
  within := fun e has => lessens.old e.1 e.2 has

theorem trims_of_leaves {d : OpLogCleanUpDefinition} (listed : d ∈ rules)
    (active : 0 < d.deleteAfterDays) {before after : Listing}
    (leaves : Leaves now d.deleteAfterDays (resolve d.path) before after) :
    (standing resolve now rules).Trims (entriesOf before) (entriesOf after) :=
  trims_of_lessens listed active ⟨fun path kind has => ((leaves path kind).mp has).1,
    fun path kind has spared => (leaves path kind).mpr ⟨has, spared⟩⟩

variable (resolve now) in
/-- A pass, whatever of it fails. -/
theorem failing_trims (pass : FailingPass) (earlier : ∀ n path, (pass.io n).now path ≤ now)
    (some_rules : List OpLogCleanUpDefinition) (listed : ∀ d ∈ some_rules, d ∈ rules) (n : Nat)
    {tree : Listing} (distinct : Distinct tree) (steps : Nat) :
    let after := (cleanUpDeleteFilesFailing resolve pass some_rules n tree steps).1
    (standing resolve now rules).Trims (entriesOf tree) (entriesOf after) ∧ Distinct after := by
  induction some_rules generalizing n tree steps with
  | nil => exact ⟨.refl, distinct⟩
  | cons d some_rules ih =>
    have rest := fun n {tree} => @ih (fun d member => listed d (List.mem_cons_of_mem _ member)) n tree
    unfold cleanUpDeleteFilesFailing
    by_cases active : d.deleteAfterDays > 0
    · have lessens := inDirectory_lessens d.deleteAfterDays (pass.rank n) steps (earlier n) distinct
        (resolve d.path)
      have kept := inDirectory_distinct
        (cleanDirectory_distinct d.deleteAfterDays (pass.rank n) steps (earlier n)) steps distinct
        (resolve d.path)
      have trims := trims_of_lessens (listed d List.mem_cons_self) active lessens
      rw [if_pos active]
      dsimp only
      generalize tree.inDirectory (Listing.cleanDirectory d.deleteAfterDays (pass.io n) (pass.rank n)
        steps) steps (resolve d.path) = out at kept trims ⊢
      obtain ⟨tree', _ | left⟩ := out
      · exact ⟨trims, kept⟩
      · obtain ⟨later, kept'⟩ := rest (n + 1) kept left
        exact ⟨trims.trans later, kept'⟩
    · rw [if_neg active]
      exact rest (n + 1) distinct steps

/-- The tree after passes any of whose calls may have failed. -/
def afterFailing (resolve : String → List String) (rules : List OpLogCleanUpDefinition)
    (passes : List FailingPass) (tree : Listing) : Listing :=
  passes.foldl (fun tree pass => (cleanUpDeleteFilesFailing resolve pass rules 0 tree pass.steps).1) tree

variable (resolve rules) in
theorem failing_passes_trim (passes : List FailingPass)
    (earlier : ∀ pass ∈ passes, ∀ n path, (pass.io n).now path ≤ now) {tree : Listing}
    (distinct : Distinct tree) :
    let after := afterFailing resolve rules passes tree
    (standing resolve now rules).Trims (entriesOf tree) (entriesOf after) ∧ Distinct after := by
  induction passes generalizing tree with
  | nil => exact ⟨.refl, distinct⟩
  | cons pass passes ih =>
    obtain ⟨trims, kept⟩ := failing_trims resolve now pass (earlier pass List.mem_cons_self) rules
      (fun _ listed => listed) 0 distinct pass.steps
    obtain ⟨later, kept'⟩ := ih (fun pass member => earlier pass (List.mem_cons_of_mem _ member)) kept
    exact ⟨trims.trans later, kept'⟩

section Core
variable {t : Listing} {path : List String}

theorem file_in_core {times : FileTimes} :
    (path, .file times) ∈ (standing resolve now rules).core (entriesOf t) ↔
      Has t path (.file times) ∧ Spared resolve now rules path (.file times) := by
  constructor
  · intro stays
    rcases stays with ⟨has, spared | ⟨below, -, -, isDir, -⟩⟩
    · exact ⟨has, spared⟩
    · cases isDir
  · intro kept
    obtain ⟨has, spared⟩ := kept
    exact Support.mem_core_of_own has spared

theorem other_in_core :
    (path, .other) ∈ (standing resolve now rules).core (entriesOf t) ↔ Has t path .other :=
  ⟨fun stays => stays.1, fun has => Support.mem_core_of_own has trivial⟩

theorem dir_in_core :
    (path, .dir) ∈ (standing resolve now rules).core (entriesOf t) ↔ Has t path .dir ∧
      ((∃ d, Governs resolve rules d path) → ∃ deeper kind, deeper ≠ [] ∧ kind ≠ .dir ∧
        Has t (path ++ deeper) kind ∧ Spared resolve now rules (path ++ deeper) kind) := by
  constructor
  · intro core
    obtain ⟨has, stays⟩ := core
    refine ⟨has, ?_⟩
    intro governed
    obtain ⟨d, listed, active, above⟩ := governed
    rcases stays with free | ⟨⟨below, kind⟩, there, own, -, deeper, some_name, isBelow⟩
    · exact absurd ⟨listed, active, above⟩ (free d)
    · obtain rfl : below = path ++ deeper := isBelow
      refine ⟨deeper, kind, some_name, ?_, there, own⟩
      rintro rfl
      exact own d ⟨listed, active, ancestor_append above deeper⟩
  · intro kept
    obtain ⟨has, supported⟩ := kept
    by_cases governed : ∃ d, Governs resolve rules d path
    · obtain ⟨deeper, kind, some_name, -, there, own⟩ := supported governed
      exact ⟨has, Or.inr ⟨(path ++ deeper, kind), there, own, rfl, deeper, some_name, rfl⟩⟩
    · exact Support.mem_core_of_own has fun d governs => governed ⟨d, governs⟩

end Core

/-! ## Undisturbed passes -/

variable (resolve now)

theorem whole_trims (rank : Nat → List String → String → Nat)
    (some_rules : List OpLogCleanUpDefinition) (listed : ∀ d ∈ some_rules, d ∈ rules) (n : Nat)
    {tree : Listing} (distinct : Distinct tree) (steps : Nat) :
    let after := (cleanUpDeleteFiles resolve now rank some_rules n tree steps).1
    (standing resolve now rules).Trims (entriesOf tree) (entriesOf after) ∧ Distinct after := by
  have same := cleanUpDeleteFiles_undisturbed resolve now ⟨steps, rank⟩ some_rules n tree steps
  have trims := failing_trims resolve now ⟨steps, rank, fun _ => .undisturbed now⟩
    (fun _ _ => Int.le_refl now) some_rules listed n distinct steps
  rwa [same] at trims

/-- In a whole pass every rule in force has its turn. -/
theorem whole_turn (rank : Nat → List String → String → Nat)
    (some_rules : List OpLogCleanUpDefinition) (listed : ∀ d ∈ some_rules, d ∈ rules) (n : Nat)
    {tree : Listing} (distinct : Distinct tree) (steps : Nat)
    (completed : (cleanUpDeleteFiles resolve now rank some_rules n tree steps).2.isSome = true)
    {d : OpLogCleanUpDefinition} (member : d ∈ some_rules) (active : 0 < d.deleteAfterDays) :
    ∃ before after, (standing resolve now rules).Trims (entriesOf tree) (entriesOf before) ∧
      Leaves now d.deleteAfterDays (resolve d.path) before after ∧
      (standing resolve now rules).Trims (entriesOf after)
        (entriesOf (cleanUpDeleteFiles resolve now rank some_rules n tree steps).1) := by
  induction some_rules generalizing n tree steps with
  | nil => cases member
  | cons first some_rules ih =>
    have listed' (d : OpLogCleanUpDefinition) (member : d ∈ some_rules) : d ∈ rules :=
      listed d (List.mem_cons_of_mem _ member)
    unfold cleanUpDeleteFiles at completed ⊢
    by_cases inForce : first.deleteAfterDays > 0
    · let visit (dir : Listing) :=
        (dir.reorder (rank n) []).deleteFilesInPath now first.deleteAfterDays steps
      have leaves (left : Nat)
          (done : (tree.inDirectory visit steps (resolve first.path)).2 = some left) :=
        inDirectory_leaves (visit_leaves (rank n) steps) steps distinct (resolve first.path) done
      have kept := inDirectory_distinct (visit_distinct now first.deleteAfterDays (rank n) steps) steps
        distinct (resolve first.path)
      rw [if_pos inForce] at completed ⊢
      dsimp only at completed ⊢
      generalize tree.inDirectory visit steps (resolve first.path) = out at leaves kept completed ⊢
      obtain ⟨tree', _ | left⟩ := out
      · cases completed
      · have walked := leaves left rfl
        have trims := trims_of_leaves (listed first List.mem_cons_self) inForce walked
        rcases List.mem_cons.mp member with rfl | later
        · exact ⟨tree, tree', .refl, walked,
            (whole_trims resolve now rank some_rules listed' (n + 1) kept left).1⟩
        · obtain ⟨before, after, earlier, turn, rest⟩ := ih listed' (n + 1) kept left completed later
          exact ⟨before, after, trims.trans earlier, turn, rest⟩
    · rw [if_neg inForce] at completed ⊢
      rcases List.mem_cons.mp member with rfl | later
      · exact absurd active inForce
      · exact ih listed' (n + 1) distinct steps completed later

theorem spared_of_cleared {t : Listing} (cleared : Cleared (Condemned resolve now rules) t)
    {path : List String} {times : FileTimes} (has : Has t path (.file times)) :
    Spared resolve now rules path (.file times) := by
  have free := cleared path times (hasFile_iff.mpr has)
  rw [not_condemned_iff] at free
  intro d governs
  obtain ⟨listed, active, above⟩ := governs
  exact free d listed active above

/-- With the old files gone, a whole pass leaves nothing but what has to stay. -/
theorem whole_pass_bares {t : Listing} (cleared : Cleared (Condemned resolve now rules) t)
    (distinct : Distinct t) (rank : Nat → List String → String → Nat) (steps : Nat)
    (completed : (cleanUpDeleteFiles resolve now rank rules 0 t steps).2.isSome = true) :
    let final := (cleanUpDeleteFiles resolve now rank rules 0 t steps).1
    entriesOf final ⊆ (standing resolve now rules).core (entriesOf final) := by
  intro final
  have all (d : OpLogCleanUpDefinition) (listed : d ∈ rules) : d ∈ rules := listed
  have trims := (whole_trims resolve now rank rules all 0 distinct steps).1
  intro entry has
  obtain ⟨path, kind⟩ := entry
  cases kind with
  | file times =>
    exact Support.mem_core_of_own has (spared_of_cleared resolve now cleared (trims.within has))
  | other => exact Support.mem_core_of_own has trivial
  | dir =>
    by_cases governed : ∃ d, Governs resolve rules d path
    · obtain ⟨d, listed, active, above⟩ := governed
      obtain ⟨before, after, earlier, leaves, later⟩ :=
        whole_turn resolve now rank rules all 0 distinct steps completed listed active
      obtain ⟨deeper, kind, some_name, below, kept⟩ :=
        ((leaves path .dir).mp (later.within has)).2 above
      have own : Spared resolve now rules (path ++ deeper) kind := by
        have there : Has t (path ++ deeper) kind :=
          show (path ++ deeper, kind) ∈ entriesOf t from earlier.within below
        cases kind with
        | file times => exact spared_of_cleared resolve now cleared there
        | dir => cases kept
        | other => trivial
      have left : (path ++ deeper, kind) ∈ entriesOf after :=
        (leaves _ _).mpr ⟨below, fun _ => survives_of_kept kept⟩
      exact ⟨has, Or.inr ⟨(path ++ deeper, kind), later.spares (Support.mem_core_of_own left own), own,
        rfl, deeper, some_name, rfl⟩⟩
    · exact Support.mem_core_of_own has fun d governs => governed ⟨d, governs⟩

variable (rules)

/-- What is left are the files younger than the days of every rule in force above them, everything
that is neither a file nor a directory, and, below the rules' directories, the directories with
something of either kind left below them. -/
structure Converged (before after : Listing) : Prop where
  files : ∀ path times, Has after path (.file times) ↔
    Has before path (.file times) ∧ Spared resolve now rules path (.file times)
  others : ∀ path, Has after path .other ↔ Has before path .other
  dirs : ∀ path, Has after path .dir ↔ Has before path .dir ∧
    ((∃ d, Governs resolve rules d path) → ∃ deeper kind, deeper ≠ [] ∧ kind ≠ .dir ∧
      Has before (path ++ deeper) kind ∧ Spared resolve now rules (path ++ deeper) kind)

theorem converged_of_bare {before after : Listing}
    (trims : (standing resolve now rules).Trims (entriesOf before) (entriesOf after))
    (bare : entriesOf after ⊆ (standing resolve now rules).core (entriesOf after)) :
    Converged resolve now rules before after := by
  have stays (path : List String) (kind : Kind) := Set.ext_iff.mp (trims.eq_core bare) (path, kind)
  constructor
  · exact fun path times => (stays path (.file times)).trans file_in_core
  · exact fun path => (stays path .other).trans other_in_core
  · exact fun path => (stays path .dir).trans dir_in_core

/-- Any number of passes, each cut off anywhere and with any of its calls failing, at any times up
to now: two whole passes then leave exactly what has to stay of the tree there was at first. -/
theorem disturbed_cleanup_converges (tree : Tree) (passes : List FailingPass)
    (earlier : ∀ pass ∈ passes, ∀ n path, (pass.io n).now path ≤ now) (first last : CleanupPass) :
    let disturbed := afterFailing resolve rules passes tree.listing
    let once := cleanUpDeleteFilesBounded resolve now rules first disturbed
    let twice := cleanUpDeleteFilesBounded resolve now rules last once.1
    once.2 = true → twice.2 = true → Converged resolve now rules tree.listing twice.1 := by
  intro disturbed once twice completed completed'
  obtain ⟨trims, distinct⟩ := failing_passes_trim resolve rules passes earlier tree.distinct
  have all (d : OpLogCleanUpDefinition) (listed : d ∈ rules) : d ∈ rules := listed
  obtain ⟨trims', distinct'⟩ := whole_trims resolve now first.rank rules all 0 distinct first.steps
  have trims'' := (whole_trims resolve now last.rank rules all 0 distinct' last.steps).1
  obtain ⟨left, done⟩ := Option.isSome_iff_exists.mp completed
  have cleared := pass_cleared resolve now first.rank rules 0 first.steps distinct done
  exact converged_of_bare resolve now rules (trims.trans (trims'.trans trims''))
    (whole_pass_bares resolve now cleared distinct' last.rank last.steps completed')

/-- A pass ten days ago in which no file could be removed. -/
def lockedPass : FailingPass where
  steps := 10
  rank _ _ _ := 0
  io _ := { WalkIo.undisturbed (daysAfterEpoch 90) with removeFile := fun _ => false }

def twoDirectories (path : String) : List String := if path = "logs" then ["logs"] else ["logs", "old"]

/-- The outer rule's walk comes ahead of the one that empties the inner directory. -/
theorem disturbed_cleanup_converges_two_files :
    Converged twoDirectories (daysAfterEpoch 100) [⟨"logs", 90⟩, ⟨"logs/old", 7⟩] twoFiles.listing
      (cleanUpDeleteFilesBounded twoDirectories (daysAfterEpoch 100) [⟨"logs", 90⟩, ⟨"logs/old", 7⟩]
        ⟨10, fun _ _ _ => 0⟩
        (cleanUpDeleteFilesBounded twoDirectories (daysAfterEpoch 100)
          [⟨"logs", 90⟩, ⟨"logs/old", 7⟩] ⟨10, fun _ _ _ => 0⟩
          (afterFailing twoDirectories [⟨"logs", 90⟩, ⟨"logs/old", 7⟩] [lockedPass]
            twoFiles.listing)).1).1 := by
  refine disturbed_cleanup_converges twoDirectories (daysAfterEpoch 100) _ twoFiles [lockedPass] ?_
    _ _ (by decide +kernel) (by decide +kernel)
  intro pass member n path
  rw [List.mem_singleton.mp member]
  exact show daysAfterEpoch 90 ≤ daysAfterEpoch 100 by decide

/-! ## Rules side by side -/

/-- No rule in force has its directory below that of another. -/
def SideBySide : Prop :=
  ∀ d ∈ rules, ∀ d' ∈ rules, 0 < d.deleteAfterDays → 0 < d'.deleteAfterDays →
    ¬ Ancestor (resolve d.path) (resolve d'.path)

variable {resolve now rules}

/-- Two directories above the same path are one above the other, or the same. -/
theorem ancestors_comparable {directory directory' path : List String}
    (above : Ancestor directory path) (above' : Ancestor directory' path) :
    directory = directory' ∨ Ancestor directory directory' ∨ Ancestor directory' directory := by
  obtain ⟨below, -, rfl⟩ := above
  obtain ⟨below', -, same⟩ := above'
  rcases List.append_eq_append_iff.mp same with ⟨between, longer, -⟩ | ⟨between, longer, -⟩
  · by_cases empty : between = []
    · rw [empty, List.append_nil] at longer
      exact Or.inl longer.symm
    · exact Or.inr (Or.inl ⟨between, empty, longer⟩)
  · by_cases empty : between = []
    · rw [empty, List.append_nil] at longer
      exact Or.inl longer
    · exact Or.inr (Or.inr ⟨between, empty, longer⟩)

/-- Of the rules that govern a path one has the fewest days. -/
theorem strictest {path : List String} {d : OpLogCleanUpDefinition}
    (governs : Governs resolve rules d path) :
    ∃ d, Governs resolve rules d path ∧
      ∀ d', Governs resolve rules d' path → d.deleteAfterDays ≤ d'.deleteAfterDays := by
  apply Classical.byContradiction
  intro none_strictest
  have always (n : Nat) (d : OpLogCleanUpDefinition) (few : d.deleteAfterDays ≤ n) :
      ¬ Governs resolve rules d path := by
    induction n generalizing d with
    | zero =>
      intro governs
      exact absurd governs.2.1 (Nat.not_lt.mpr few)
    | succ n ih =>
      intro governs
      apply none_strictest
      refine ⟨d, governs, fun d' governs' => ?_⟩
      apply Nat.le_of_not_lt
      intro fewer
      exact ih d' (Nat.le_of_lt_succ (Nat.lt_of_lt_of_le fewer few)) governs'
  exact always d.deleteAfterDays d (Nat.le_refl _) governs

theorem side_by_side_bares (apart : SideBySide resolve rules) {t : Listing} (distinct : Distinct t)
    (rank : Nat → List String → String → Nat) (steps : Nat)
    (completed : (cleanUpDeleteFiles resolve now rank rules 0 t steps).2.isSome = true) :
    let final := (cleanUpDeleteFiles resolve now rank rules 0 t steps).1
    entriesOf final ⊆ (standing resolve now rules).core (entriesOf final) := by
  intro final
  have all (d : OpLogCleanUpDefinition) (listed : d ∈ rules) : d ∈ rules := listed
  obtain ⟨left, done⟩ := Option.isSome_iff_exists.mp completed
  have cleared := pass_cleared resolve now rank rules 0 steps distinct done
  intro entry has
  obtain ⟨path, kind⟩ := entry
  cases kind with
  | file times => exact Support.mem_core_of_own has (spared_of_cleared resolve now cleared has)
  | other => exact Support.mem_core_of_own has trivial
  | dir =>
    by_cases governed : ∃ d, Governs resolve rules d path
    · obtain ⟨_, governs⟩ := governed
      obtain ⟨d, ⟨listed, active, above⟩, strict⟩ := strictest governs
      obtain ⟨before, after, earlier, leaves, later⟩ :=
        whole_turn resolve now rank rules all 0 distinct steps completed listed active
      obtain ⟨deeper, kind, some_name, below, kept⟩ :=
        ((leaves path .dir).mp (later.within has)).2 above
      have own : Spared resolve now rules (path ++ deeper) kind := by
        cases kind with
        | dir => cases kept
        | other => trivial
        | file times =>
          intro d' governs'
          obtain ⟨listed', active', above'⟩ := governs'
          -- the other rule's directory can only be the same one
          have same : resolve d.path = resolve d'.path := by
            rcases ancestors_comparable (ancestor_append above deeper) above' with same | inside | outside
            · exact same
            · exact absurd inside (apart d listed d' listed' active active')
            · exact absurd outside (apart d' listed' d listed active' active)
          exact Nat.lt_of_lt_of_le kept (strict d' ⟨listed', active', same ▸ above⟩)
      have stays : (path ++ deeper, kind) ∈ entriesOf after :=
        (leaves _ _).mpr ⟨below, fun _ => survives_of_kept kept⟩
      exact ⟨has, Or.inr ⟨(path ++ deeper, kind), later.spares (Support.mem_core_of_own stays own), own,
        rfl, deeper, some_name, rfl⟩⟩
    · exact Support.mem_core_of_own has fun d governs => governed ⟨d, governs⟩

/-- Where no rule's directory is below another's, a single whole pass is enough. -/
theorem one_whole_pass_suffices (apart : SideBySide resolve rules) (tree : Tree)
    (passes : List FailingPass) (earlier : ∀ pass ∈ passes, ∀ n path, (pass.io n).now path ≤ now)
    (last : CleanupPass) :
    let once := cleanUpDeleteFilesBounded resolve now rules last
      (afterFailing resolve rules passes tree.listing)
    once.2 = true → Converged resolve now rules tree.listing once.1 := by
  intro once completed
  obtain ⟨trims, distinct⟩ := failing_passes_trim resolve rules passes earlier tree.distinct
  have all (d : OpLogCleanUpDefinition) (listed : d ∈ rules) : d ∈ rules := listed
  have trims' := (whole_trims resolve now last.rank rules all 0 distinct last.steps).1
  exact converged_of_bare resolve now rules (trims.trans trims')
    (side_by_side_bares apart distinct last.rank last.steps completed)

theorem one_whole_pass_suffices_one_rule :
    Converged twoDirectories (daysAfterEpoch 100) [⟨"logs", 30⟩] twoFiles.listing
      (cleanUpDeleteFilesBounded twoDirectories (daysAfterEpoch 100) [⟨"logs", 30⟩]
        ⟨10, fun _ _ _ => 0⟩
        (afterFailing twoDirectories [⟨"logs", 30⟩] [lockedPass] twoFiles.listing)).1 := by
  refine one_whole_pass_suffices ?_ twoFiles [lockedPass] ?_ _ (by decide +kernel)
  · intro d listed d' listed' _ _
    rw [List.mem_singleton.mp listed, List.mem_singleton.mp listed']
    intro beneath
    obtain ⟨below, some_name, same⟩ := beneath
    exact some_name (List.append_right_eq_self.mp same.symm)
  · intro pass member n path
    rw [List.mem_singleton.mp member]
    exact show daysAfterEpoch 90 ≤ daysAfterEpoch 100 by decide

end Passes
end OpLog.Guarantees.Convergence
