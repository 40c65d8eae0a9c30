import OpLog.Source.DeleteFiles

/-!
# Which files survive the cleanup

A pass deletes while it walks, may be cut off anywhere, and its rules may be nested or equal.
Each walk is described by what it may delete (`Pruned`) and by what is gone once it has
completed (`Cleared`). Both compose over the rules and over the passes, and in what is left at
the end neither the order of the rules nor the earlier passes occur.
-/
namespace OpLog.Guarantees.Retention
open Source

/-- A regular file with these times stands at this path. -/
def HasFile : Listing → List String → FileTimes → Prop
  | .nil, _, _ => False
  | .file name times rest, path, wanted => (path = [name] ∧ wanted = times) ∨ HasFile rest path wanted
  | .dir name entries rest, path, wanted =>
    (∃ below, path = name :: below ∧ HasFile entries below wanted) ∨ HasFile rest path wanted
  | .other _ rest, path, wanted => HasFile rest path wanted

/-- What stands at a path. -/
inductive Kind where
  | file (times : FileTimes)
  | dir
  | other

/-- An entry of this kind stands at this path. -/
def Has : Listing → List String → Kind → Prop
  | .nil, _, _ => False
  | .file name times rest, path, kind => (path = [name] ∧ kind = .file times) ∨ Has rest path kind
  | .dir name entries rest, path, kind =>
    (path = [name] ∧ kind = .dir) ∨ (∃ below, path = name :: below ∧ Has entries below kind) ∨
      Has rest path kind
  | .other name rest, path, kind => (path = [name] ∧ kind = .other) ∨ Has rest path kind

def names : Listing → List String
  | .nil => []
  | .file name _ rest => name :: names rest
  | .dir name _ rest => name :: names rest
  | .other name rest => name :: names rest

/-- No name occurs twice in a directory. -/
def Distinct : Listing → Prop
  | .nil => True
  | .file name _ rest => name ∉ names rest ∧ Distinct rest
  | .dir name entries rest => name ∉ names rest ∧ Distinct entries ∧ Distinct rest
  | .other name rest => name ∉ names rest ∧ Distinct rest

/-- A directory tree. -/
structure Tree where
  listing : Listing
  distinct : Distinct listing

/-! ## Paths -/

/-- The first entry with all that is in it, and the others. -/
theorem has_dir (name : String) (entries rest : Listing) (path : List String) (kind : Kind) :
    Has (.dir name entries rest) path kind ↔
      (path = [name] ∧ kind = .dir ∨ ∃ below, path = name :: below ∧ Has entries below kind) ∨
        Has rest path kind := or_assoc.symm

theorem has_ne_nil {t : Listing} {path : List String} {kind : Kind} (has : Has t path kind) :
    path ≠ [] := by
  induction t generalizing path with
  | nil => cases has
  | dir name entries rest _ ih =>
    rcases has with ⟨rfl, -⟩ | ⟨below, rfl, -⟩ | later
    · exact List.cons_ne_nil _ _
    · exact List.cons_ne_nil _ _
    · exact ih later
  | _ =>
    rename_i ih
    rcases has with ⟨rfl, -⟩ | later
    · exact List.cons_ne_nil _ _
    · exact ih later

theorem has_name {t : Listing} {name : String} {below : List String} {kind : Kind}
    (has : Has t (name :: below) kind) : name ∈ names t := by
  induction t with
  | nil => cases has
  | dir first entries rest _ ih =>
    rcases has with ⟨same, -⟩ | ⟨_, same, -⟩ | later
    · rw [(List.cons.inj same).1]
      exact List.mem_cons_self
    · rw [(List.cons.inj same).1]
      exact List.mem_cons_self
    · exact List.mem_cons_of_mem _ (ih later)
  | _ =>
    rename_i ih
    rcases has with ⟨same, -⟩ | later
    · rw [(List.cons.inj same).1]
      exact List.mem_cons_self
    · exact List.mem_cons_of_mem _ (ih later)

theorem hasFile_iff {t : Listing} {path : List String} {times : FileTimes} :
    HasFile t path times ↔ Has t path (.file times) := by
  induction t generalizing path with
  | nil => exact Iff.rfl
  | file name own rest ih =>
    unfold HasFile Has
    rw [ih, Kind.file.injEq]
  | dir name entries rest ihEntries ihRest =>
    unfold HasFile Has
    simp only [ihEntries, ihRest, reduceCtorEq, and_false, false_or]
  | other name rest ih =>
    unfold HasFile Has
    simp only [ih, reduceCtorEq, and_false, false_or]

/-! ## Ages -/

/-- Whole days since the last modification, or since the creation where no modification time is
reported; a file without either time, or with a time in the future, is new. -/
def ageInDays (times : FileTimes) (now : SystemTime) : Nat :=
  match times.modified, times.created with
  | .ok time, _ => ((now - time) / (24 * 60 * 60 * 1000000000)).toNat
  | .error _, .ok time => ((now - time) / (24 * 60 * 60 * 1000000000)).toNat
  | .error _, .error _ => 0

theorem durationSince_days (now time : SystemTime) :
    (now.durationSince time).asSecs / (60 * 60 * 24) =
      ((now - time) / (24 * 60 * 60 * 1000000000)).toNat := by
  unfold SystemTime.durationSince Duration.asSecs Duration.fromSecs
  split
  · rename_i past
    obtain ⟨n, elapsed⟩ := Int.eq_ofNat_of_zero_le (Int.sub_nonneg_of_le past)
    rw [elapsed, Int.toNat_natCast, Nat.div_div_eq_div_mul]
    omega
  · rename_i future
    have negative (a b : Int) (before : a < b) : ((a - b) / (24 * 60 * 60 * 1000000000)).toNat = 0 := by
      omega
    rw [negative now time (Int.not_le.mp future)]

theorem isOlderThan_iff (times : FileTimes) (now : SystemTime) (days : Nat) :
    isOlderThan times now days = true ↔ days ≤ ageInDays times now := by
  unfold isOlderThan ageInDays
  simp only [durationSince_days, ge_iff_le, decide_eq_true_eq]
  cases times.modified with
  | ok time => rfl
  | error _ =>
    cases times.created with
    | ok time => rfl
    | error _ => simp

/-! ## Deletions -/

/-- Only condemned files are gone, and nothing else has changed. -/
structure Pruned (condemned : List String → FileTimes → Prop) (before after : Listing) : Prop where
  old : ∀ path times, HasFile after path times → HasFile before path times
  spared : ∀ path times, HasFile before path times → ¬ condemned path times →
    HasFile after path times

/-- No condemned file is left. -/
def Cleared (condemned : List String → FileTimes → Prop) (after : Listing) : Prop :=
  ∀ path times, HasFile after path times → ¬ condemned path times

theorem pruned_refl (condemned : List String → FileTimes → Prop) (t : Listing) :
    Pruned condemned t t :=
  ⟨fun _ _ has => has, fun _ _ has _ => has⟩

theorem pruned_trans {condemned : List String → FileTimes → Prop} {t u v : Listing}
    (first : Pruned condemned t u) (second : Pruned condemned u v) : Pruned condemned t v :=
  ⟨fun path times has => first.old path times (second.old path times has),
    fun path times has free => second.spared path times (first.spared path times has free) free⟩

theorem Pruned.mono {condemned more : List String → FileTimes → Prop} {t u : Listing}
    (pruned : Pruned condemned t u) (sub : ∀ path times, condemned path times → more path times) :
    Pruned more t u :=
  ⟨pruned.old, fun path times has free =>
    pruned.spared path times has fun hit => free (sub path times hit)⟩

theorem Cleared.after {condemned more : List String → FileTimes → Prop} {t u : Listing}
    (cleared : Cleared condemned t) (pruned : Pruned more t u) : Cleared condemned u :=
  fun path times has => cleared path times (pruned.old path times has)

/-! ## One walk -/

section Walk
variable (now : SystemTime) (days : Nat)

/-- What a walk condemns. -/
def Old (_ : List String) (times : FileTimes) : Prop := isOlderThan times now days = true

theorem no_file_of_isEmpty {t : Listing} (empty : t.isEmpty = true) (path : List String)
    (times : FileTimes) : ¬ HasFile t path times := by
  cases t with
  | nil => exact id
  | _ => cases empty

/-- What follows the first entry of a listing, file or directory. -/
theorem Pruned.behind_file {condemned : List String → FileTimes → Prop} {rest rest' : Listing}
    (behind : Pruned condemned rest rest') (name : String) (times : FileTimes) :
    Pruned condemned (.file name times rest) (.file name times rest') :=
  ⟨fun path wanted has => has.imp_right (behind.old path wanted),
    fun path wanted has free => has.imp_right fun later => behind.spared path wanted later free⟩

theorem Pruned.behind_dir {condemned : List String → FileTimes → Prop} {rest rest' : Listing}
    (behind : Pruned condemned rest rest') (name : String) (entries : Listing) :
    Pruned condemned (.dir name entries rest) (.dir name entries rest') :=
  ⟨fun path wanted has => has.imp_right (behind.old path wanted),
    fun path wanted has free => has.imp_right fun later => behind.spared path wanted later free⟩

/-- Inside a directory the paths have one name less. -/
theorem Pruned.inside_dir {condemned inner : List String → FileTimes → Prop}
    {entries entries' : Listing} (inside : Pruned inner entries entries') {name : String}
    (beneath : ∀ below times, inner below times → condemned (name :: below) times)
    (rest : Listing) : Pruned condemned (.dir name entries rest) (.dir name entries' rest) := by
  constructor
  · intro path wanted has
    refine has.imp_left fun there => ?_
    obtain ⟨below, same, found⟩ := there
    exact ⟨below, same, inside.old below wanted found⟩
  · intro path wanted has free
    refine has.imp_left fun there => ?_
    obtain ⟨below, rfl, found⟩ := there
    exact ⟨below, rfl, inside.spared below wanted found fun hit => free (beneath below wanted hit)⟩

variable {now days} {t after : Listing} {steps : Nat} {left : Option Nat}

/-- A walk, cut off anywhere. -/
theorem walk_pruned (walk : t.Walk now days steps after left) : Pruned (Old now days) t after := by
  have old_beneath (name : String) (below : List String) (times : FileTimes)
      (old : Old now days below times) : Old now days (name :: below) times := old
  induction walk with
  | done => exact pruned_refl _ _
  | cut => exact pruned_refl _ _
  | oldFile old _ walked =>
    refine ⟨fun path wanted has => Or.inr (walked.old path wanted has), ?_⟩
    intro path wanted has young
    rcases has with ⟨-, rfl⟩ | later
    · exact absurd old young
    · exact walked.spared path wanted later young
  | youngFile _ _ walked => exact walked.behind_file _ _
  | cutInside _ inside => exact inside.inside_dir (old_beneath _) _
  | emptied _ empty _ inside walked =>
    refine ⟨fun path wanted has => Or.inr (walked.old path wanted has), ?_⟩
    intro path wanted has young
    rcases has with ⟨below, rfl, found⟩ | later
    · exact absurd (inside.spared below wanted found young) (no_file_of_isEmpty empty below wanted)
    · exact walked.spared path wanted later young
  | notEmptied _ _ inside walked =>
    exact pruned_trans (inside.inside_dir (old_beneath _) _) (walked.behind_dir _ _)
  | other _ walked => exact ⟨walked.old, walked.spared⟩

/-- A walk that was not cut off has deleted every old file. -/
theorem walk_cleared (walk : t.Walk now days steps after left) (completed : left.isSome = true) :
    Cleared (Old now days) after := by
  induction walk with
  | done => exact fun path times has => absurd has id
  | cut => cases completed
  | oldFile _ _ cleared => exact cleared completed
  | youngFile young _ cleared =>
    intro path wanted has
    rcases has with ⟨-, rfl⟩ | later
    · exact young
    · exact cleared completed path wanted later
  | cutInside => cases completed
  | emptied _ _ _ _ cleared => exact cleared completed
  | notEmptied _ _ inside cleared =>
    intro path wanted has
    rcases has with ⟨below, -, found⟩ | later
    · exact inside rfl below wanted found
    · exact cleared completed path wanted later
  | other _ cleared => exact cleared completed

/-- No walk adds a name. -/
theorem mem_names_walk (walk : t.Walk now days steps after left) (x : String)
    (member : x ∈ names after) : x ∈ names t := by
  induction walk with
  | done => exact member
  | cut => exact member
  | oldFile _ _ ih => exact List.mem_cons_of_mem _ (ih member)
  | youngFile _ _ ih => exact List.mem_cons.mpr ((List.mem_cons.mp member).imp_right ih)
  | cutInside => exact member
  | emptied _ _ _ _ ih => exact List.mem_cons_of_mem _ (ih member)
  | notEmptied _ _ _ ih => exact List.mem_cons.mpr ((List.mem_cons.mp member).imp_right ih)
  | other _ ih => exact List.mem_cons.mpr ((List.mem_cons.mp member).imp_right ih)

theorem distinct_walk (walk : t.Walk now days steps after left) (distinct : Distinct t) :
    Distinct after := by
  induction walk with
  | done => exact trivial
  | cut => exact distinct
  | oldFile _ _ ih => exact ih distinct.2
  | youngFile _ behind ih =>
    obtain ⟨apart, below⟩ := distinct
    exact ⟨fun member => apart (mem_names_walk behind _ member), ih below⟩
  | cutInside _ ih =>
    obtain ⟨apart, inside, below⟩ := distinct
    exact ⟨apart, ih inside, below⟩
  | emptied _ _ _ _ ih => exact ih distinct.2.2
  | notEmptied _ behind ihEntries ihRest =>
    obtain ⟨apart, inside, below⟩ := distinct
    exact ⟨fun member => apart (mem_names_walk behind _ member), ihEntries inside, ihRest below⟩
  | other behind ih =>
    obtain ⟨apart, below⟩ := distinct
    exact ⟨fun member => apart (mem_names_walk behind _ member), ih below⟩

end Walk

/-! ## The order of the entries -/

theorem has_place (rank : String → Nat) (name : String) {entry : Listing → Listing} {here : Prop}
    {path : List String} {kind : Kind}
    (adds : ∀ rest, Has (entry rest) path kind ↔ here ∨ Has rest path kind) (t : Listing) :
    Has (t.place rank name entry) path kind ↔ here ∨ Has t path kind := by
  induction t with
  | nil => exact adds .nil
  | dir first entries rest _ ih =>
    unfold Listing.place
    split
    · exact adds _
    · rw [has_dir, has_dir, ih]
      exact or_left_comm
  | _ =>
    unfold Listing.place
    split
    · exact adds _
    · rename_i ih _
      exact (or_congr_right ih).trans or_left_comm

theorem has_reorder (rank : List String → String → Nat) (t : Listing) (at_path path : List String)
    (kind : Kind) : Has (t.reorder rank at_path) path kind ↔ Has t path kind := by
  induction t generalizing at_path path with
  | nil => exact Iff.rfl
  | dir name entries rest ihEntries ihRest =>
    have adds (later : Listing) :
        Has (.dir name (entries.reorder rank (at_path ++ [name])) later) path kind ↔
          (path = [name] ∧ kind = .dir ∨ ∃ below, path = name :: below ∧ Has entries below kind) ∨
            Has later path kind := by
      rw [has_dir]
      simp only [ihEntries]
    unfold Listing.reorder
    rw [has_place (rank at_path) name adds, ihRest, has_dir]
  | _ =>
    unfold Listing.reorder
    rw [has_place (rank at_path) _ (fun _ => Iff.rfl)]
    rename_i ih
    rw [ih]
    rfl

theorem hasFile_reorder (rank : List String → String → Nat) (t : Listing) (at_path path : List String)
    (times : FileTimes) : HasFile (t.reorder rank at_path) path times ↔ HasFile t path times := by
  rw [hasFile_iff, hasFile_iff, has_reorder]

theorem mem_names_place (rank : String → Nat) (name : String) {entry : Listing → Listing}
    (named : ∀ rest, names (entry rest) = name :: names rest) (t : Listing) (x : String) :
    x ∈ names (t.place rank name entry) ↔ x = name ∨ x ∈ names t := by
  induction t with
  | nil =>
    unfold Listing.place
    rw [named, List.mem_cons]
  | _ =>
    unfold Listing.place
    split
    · rw [named, List.mem_cons]
    · rename_i ih _
      simp only [names, List.mem_cons, ih]
      exact or_left_comm

theorem distinct_place (rank : String → Nat) (name : String) {entry : Listing → Listing}
    (named : ∀ rest, names (entry rest) = name :: names rest)
    (keeps : ∀ rest, name ∉ names rest → Distinct rest → Distinct (entry rest)) {t : Listing}
    (fresh : name ∉ names t) (distinct : Distinct t) : Distinct (t.place rank name entry) := by
  induction t with
  | nil => exact keeps .nil fresh distinct
  | dir first entries rest _ ih =>
    unfold Listing.place
    split
    · exact keeps _ fresh distinct
    · obtain ⟨apart, inside, below⟩ := distinct
      simp only [names, List.mem_cons, not_or] at fresh
      refine ⟨?_, inside, ih fresh.2 below⟩
      rw [mem_names_place rank name named]
      exact not_or.mpr ⟨Ne.symm fresh.1, apart⟩
  | _ =>
    unfold Listing.place
    split
    · exact keeps _ fresh distinct
    · rename_i ih _
      obtain ⟨apart, below⟩ := distinct
      simp only [names, List.mem_cons, not_or] at fresh
      refine ⟨?_, ih fresh.2 below⟩
      rw [mem_names_place rank name named]
      exact not_or.mpr ⟨Ne.symm fresh.1, apart⟩

theorem mem_names_reorder (rank : List String → String → Nat) (t : Listing) (at_path : List String)
    (x : String) : x ∈ names (t.reorder rank at_path) ↔ x ∈ names t := by
  induction t generalizing at_path with
  | nil => exact Iff.rfl
  | _ =>
    unfold Listing.reorder
    rw [mem_names_place (rank at_path) _ (fun _ => rfl)]
    rename_i ih
    rw [ih]
    exact List.mem_cons.symm

theorem distinct_reorder (rank : List String → String → Nat) (t : Listing) (at_path : List String)
    (distinct : Distinct t) : Distinct (t.reorder rank at_path) := by
  have fresh {name : String} {rest : Listing} (at_path : List String) (apart : name ∉ names rest) :
      name ∉ names (rest.reorder rank at_path) := by
    rwa [mem_names_reorder]
  induction t generalizing at_path with
  | nil => exact trivial
  | dir name entries rest ihEntries ihRest =>
    obtain ⟨apart, inside, below⟩ := distinct
    unfold Listing.reorder
    apply distinct_place (rank at_path) name (fun _ => rfl) _ (fresh at_path apart)
      (ihRest at_path below)
    exact fun _ apart rest => ⟨apart, ihEntries (at_path ++ [name]) inside, rest⟩
  | _ =>
    rename_i ih
    obtain ⟨apart, below⟩ := distinct
    unfold Listing.reorder
    apply distinct_place (rank at_path) _ (fun _ => rfl) _ (fresh at_path apart) (ih at_path below)
    exact fun _ apart rest => ⟨apart, rest⟩

/-! ## A rule -/

/-- The directory is an ancestor of what stands at the path. -/
def Ancestor (directory path : List String) : Prop := ∃ below, below ≠ [] ∧ path = directory ++ below

/-- What a visit of a directory condemns, seen from the root. -/
def Beneath (directory : List String) (condemned : List String → FileTimes → Prop)
    (path : List String) (times : FileTimes) : Prop :=
  ∃ below, below ≠ [] ∧ path = directory ++ below ∧ condemned below times

theorem path_ne_nil {t : Listing} {path : List String} {times : FileTimes}
    (has : HasFile t path times) : path ≠ [] := has_ne_nil (hasFile_iff.mp has)

theorem name_of_file {t : Listing} {name : String} {below : List String} {times : FileTimes}
    (has : HasFile t (name :: below) times) : name ∈ names t := has_name (hasFile_iff.mp has)

section Visit
variable {visit : Listing → Listing × Option Nat} {condemned : List String → FileTimes → Prop}

theorem beneath_nil {path : List String} {times : FileTimes} (some_name : path ≠ []) :
    Beneath [] condemned path times ↔ condemned path times := by
  unfold Beneath
  constructor
  · intro there
    obtain ⟨below, -, rfl, hit⟩ := there
    exact hit
  · exact fun hit => ⟨path, some_name, rfl, hit⟩

theorem beneath_cons {name : String} {directory below : List String} {times : FileTimes}
    (hit : Beneath directory condemned below times) :
    Beneath (name :: directory) condemned (name :: below) times := by
  obtain ⟨rest, some_name, rfl, hit⟩ := hit
  exact ⟨rest, some_name, rfl, hit⟩

theorem inDirectory_pruned (deletes : ∀ dir, Pruned condemned dir (visit dir).1) (steps : Nat)
    (t : Listing) (directory : List String) :
    Pruned (Beneath directory condemned) t (t.inDirectory visit steps directory).1 := by
  have at_root (t : Listing) : Pruned (Beneath [] condemned) t (visit t).1 :=
    ⟨(deletes t).old, fun path times has free => (deletes t).spared path times has fun hit =>
      free ((beneath_nil (path_ne_nil has)).mpr hit)⟩
  induction t generalizing directory with
  | nil =>
    cases directory with
    | nil => exact at_root _
    | cons wanted directory => exact pruned_refl _ _
  | file name own rest ih =>
    cases directory with
    | nil => exact at_root _
    | cons wanted directory => exact (ih (wanted :: directory)).behind_file name own
  | dir name entries rest ihEntries ihRest =>
    cases directory with
    | nil => exact at_root _
    | cons wanted directory =>
      unfold Listing.inDirectory
      split
      · rename_i found
        subst found
        exact (ihEntries directory).inside_dir (fun _ _ => beneath_cons) rest
      · exact (ihRest (wanted :: directory)).behind_dir name entries
  | other name rest ih =>
    cases directory with
    | nil => exact at_root _
    | cons wanted directory =>
      have walked := ih (wanted :: directory)
      exact ⟨walked.old, walked.spared⟩

/-- A completed visit clears the directory, of which there is one at most. -/
theorem inDirectory_cleared
    (clears : ∀ dir left, (visit dir).2 = some left → Cleared condemned (visit dir).1) (steps : Nat)
    {t : Listing} (distinct : Distinct t) (directory : List String) {left : Nat}
    (completed : (t.inDirectory visit steps directory).2 = some left) :
    Cleared (Beneath directory condemned) (t.inDirectory visit steps directory).1 := by
  have at_root (t : Listing) (completed : (visit t).2 = some left) :
      Cleared (Beneath [] condemned) (visit t).1 := fun path times has hit =>
    clears t left completed path times has ((beneath_nil (path_ne_nil has)).mp hit)
  induction t generalizing directory with
  | nil =>
    cases directory with
    | nil => exact at_root _ completed
    | cons wanted directory => exact fun path times has => absurd has id
  | file name own rest ih =>
    cases directory with
    | nil => exact at_root _ completed
    | cons wanted directory =>
      intro path times has hit
      rcases has with ⟨alone, -⟩ | later
      · obtain ⟨below, some_name, same, -⟩ := hit
        rw [alone] at same
        simp only [List.cons_append, List.cons.injEq] at same
        exact some_name (List.append_eq_nil_iff.mp same.2.symm).2
      · exact ih distinct.2 (wanted :: directory) completed path times later hit
  | dir name entries rest ihEntries ihRest =>
    cases directory with
    | nil => exact at_root _ completed
    | cons wanted directory =>
      obtain ⟨apart, inside, below⟩ := distinct
      unfold Listing.inDirectory at completed ⊢
      by_cases found : name = wanted
      · rw [if_pos found] at completed ⊢
        subst found
        intro path times has hit
        rcases has with ⟨rest', rfl, stands⟩ | later
        · obtain ⟨deeper, some_name, same, old⟩ := hit
          simp only [List.cons_append, List.cons.injEq, true_and] at same
          exact ihEntries inside directory completed rest' times stands
            ⟨deeper, some_name, same, old⟩
        · obtain ⟨deeper, -, rfl, -⟩ := hit
          exact apart (name_of_file later)
      · rw [if_neg found] at completed ⊢
        intro path times has hit
        rcases has with ⟨rest', rfl, -⟩ | later
        · obtain ⟨deeper, -, same, -⟩ := hit
          exact found (List.cons.inj same).1
        · exact ihRest below (wanted :: directory) completed path times later hit
  | other name rest ih =>
    cases directory with
    | nil => exact at_root _ completed
    | cons wanted directory => exact ih distinct.2 (wanted :: directory) completed

theorem names_inDirectory (steps : Nat) (t : Listing) (wanted : String) (directory : List String) :
    names (t.inDirectory visit steps (wanted :: directory)).1 = names t := by
  induction t with
  | nil => rfl
  | file name own rest ih => exact congrArg (name :: ·) ih
  | dir name entries rest _ ih =>
    unfold Listing.inDirectory
    split
    · rfl
    · exact congrArg (name :: ·) ih
  | other name rest ih => exact congrArg (name :: ·) ih

theorem inDirectory_distinct (keeps : ∀ dir, Distinct dir → Distinct (visit dir).1) (steps : Nat)
    {t : Listing} (distinct : Distinct t) (directory : List String) :
    Distinct (t.inDirectory visit steps directory).1 := by
  have fresh {name : String} {rest : Listing} (apart : name ∉ names rest) (wanted : String)
      (directory : List String) :
      name ∉ names (rest.inDirectory visit steps (wanted :: directory)).1 := by
    rwa [names_inDirectory]
  induction t generalizing directory with
  | nil =>
    cases directory with
    | nil => exact keeps _ distinct
    | cons wanted directory => exact trivial
  | file name own rest ih =>
    cases directory with
    | nil => exact keeps _ distinct
    | cons wanted directory =>
      exact ⟨fresh distinct.1 wanted directory, ih distinct.2 (wanted :: directory)⟩
  | dir name entries rest ihEntries ihRest =>
    cases directory with
    | nil => exact keeps _ distinct
    | cons wanted directory =>
      obtain ⟨apart, inside, below⟩ := distinct
      unfold Listing.inDirectory
      split
      · exact ⟨apart, ihEntries inside directory, below⟩
      · exact ⟨fresh apart wanted directory, inside, ihRest below (wanted :: directory)⟩
  | other name rest ih =>
    cases directory with
    | nil => exact keeps _ distinct
    | cons wanted directory =>
      exact ⟨fresh distinct.1 wanted directory, ih distinct.2 (wanted :: directory)⟩

end Visit

/-! ## Passes -/

section Passes
variable (resolve : String → List String) (now : SystemTime)

/-- The rule deletes the file. -/
def CondemnedBy (d : OpLogCleanUpDefinition) (path : List String) (times : FileTimes) : Prop :=
  0 < d.deleteAfterDays ∧ Beneath (resolve d.path) (Old now d.deleteAfterDays) path times

def Condemned (rules : List OpLogCleanUpDefinition) (path : List String) (times : FileTimes) : Prop :=
  ∃ d ∈ rules, CondemnedBy resolve now d path times

/-- The walk of a rule, the directory listed in any order. -/
theorem visit_pruned (days : Nat) (rank : List String → String → Nat) (steps : Nat) (dir : Listing) :
    Pruned (Old now days) dir ((dir.reorder rank []).deleteFilesInPath now days steps).1 := by
  have walked := walk_pruned ((dir.reorder rank []).walk_deleteFilesInPath now days steps)
  constructor
  · intro path times has
    exact (hasFile_reorder rank dir [] path times).mp (walked.old path times has)
  · intro path times has young
    exact walked.spared path times ((hasFile_reorder rank dir [] path times).mpr has) young

theorem visit_distinct (days : Nat) (rank : List String → String → Nat) (steps : Nat) (dir : Listing)
    (distinct : Distinct dir) :
    Distinct ((dir.reorder rank []).deleteFilesInPath now days steps).1 :=
  distinct_walk ((dir.reorder rank []).walk_deleteFilesInPath now days steps)
    (distinct_reorder rank dir [] distinct)

theorem visit_cleared (days : Nat) (rank : List String → String → Nat) (steps : Nat) (dir : Listing)
    (left : Nat) (done : ((dir.reorder rank []).deleteFilesInPath now days steps).2 = some left) :
    Cleared (Old now days) ((dir.reorder rank []).deleteFilesInPath now days steps).1 := by
  apply walk_cleared ((dir.reorder rank []).walk_deleteFilesInPath now days steps)
  rw [done]
  rfl

variable (rank : Nat → List String → String → Nat)

theorem pass_pruned (rules : List OpLogCleanUpDefinition) (n steps : Nat) (tree : Listing) :
    Pruned (Condemned resolve now rules) tree
      (cleanUpDeleteFiles resolve now rank rules n tree steps).1 := by
  induction rules generalizing n tree steps with
  | nil => exact pruned_refl _ _
  | cons d rules ih =>
    have later (path : List String) (times : FileTimes) (hit : Condemned resolve now rules path times) :
        Condemned resolve now (d :: rules) path times := by
      obtain ⟨rule, listed, by_rule⟩ := hit
      exact ⟨rule, List.mem_cons_of_mem d listed, by_rule⟩
    unfold cleanUpDeleteFiles
    split
    · rename_i active
      have here (path : List String) (times : FileTimes)
          (hit : Beneath (resolve d.path) (Old now d.deleteAfterDays) path times) :
          Condemned resolve now (d :: rules) path times :=
        ⟨d, List.mem_cons_self, active, hit⟩
      have first := (inDirectory_pruned (visit_pruned now d.deleteAfterDays (rank n) steps) steps tree
        (resolve d.path)).mono here
      dsimp only
      split
      · rename_i tree' left visited
        rw [visited] at first
        exact pruned_trans first ((ih _ _ _).mono later)
      · rename_i tree' visited
        rw [visited] at first
        exact first
    · exact (ih _ _ _).mono later

theorem pass_distinct (rules : List OpLogCleanUpDefinition) (n steps : Nat) {tree : Listing}
    (distinct : Distinct tree) :
    Distinct (cleanUpDeleteFiles resolve now rank rules n tree steps).1 := by
  induction rules generalizing n tree steps with
  | nil => exact distinct
  | cons d rules ih =>
    unfold cleanUpDeleteFiles
    split
    · have first := inDirectory_distinct (visit_distinct now d.deleteAfterDays (rank n) steps) steps
        distinct (resolve d.path)
      dsimp only
      split
      · rename_i tree' left visited
        rw [visited] at first
        exact ih _ _ first
      · rename_i tree' visited
        rw [visited] at first
        exact first
    · exact ih _ _ distinct

/-- A completed pass leaves nothing that one of its rules deletes: what a rule has deleted
stays deleted under the rules after it. -/
theorem pass_cleared (rules : List OpLogCleanUpDefinition) (n steps : Nat) {tree : Listing} {left : Nat}
    (distinct : Distinct tree)
    (completed : (cleanUpDeleteFiles resolve now rank rules n tree steps).2 = some left) :
    Cleared (Condemned resolve now rules)
      (cleanUpDeleteFiles resolve now rank rules n tree steps).1 := by
  induction rules generalizing n tree steps with
  | nil =>
    intro path times has hit
    obtain ⟨d, listed, -⟩ := hit
    cases listed
  | cons d rules ih =>
    have assemble {t : Listing} (own : Cleared (CondemnedBy resolve now d) t)
        (others : Cleared (Condemned resolve now rules) t) :
        Cleared (Condemned resolve now (d :: rules)) t := by
      intro path times has hit
      obtain ⟨rule, listed, by_rule⟩ := hit
      rcases List.mem_cons.mp listed with rfl | later
      · exact own path times has by_rule
      · exact others path times has ⟨rule, later, by_rule⟩
    unfold cleanUpDeleteFiles at completed ⊢
    by_cases active : d.deleteAfterDays > 0
    · let visit (dir : Listing) :=
        (dir.reorder (rank n) []).deleteFilesInPath now d.deleteAfterDays steps
      have first (left : Nat) (done : (tree.inDirectory visit steps (resolve d.path)).2 = some left) :=
        inDirectory_cleared (visit_cleared now d.deleteAfterDays (rank n) steps) steps distinct
          (resolve d.path) done
      have kept := inDirectory_distinct (visit_distinct now d.deleteAfterDays (rank n) steps) steps
        distinct (resolve d.path)
      rw [if_pos active] at completed ⊢
      dsimp only at completed ⊢
      generalize tree.inDirectory visit steps (resolve d.path) = out at first kept completed ⊢
      obtain ⟨tree', left'⟩ := out
      cases left' with
      | none => cases completed
      | some left' =>
        have own : Cleared (CondemnedBy resolve now d) tree' :=
          fun path times has hit => first left' rfl path times has hit.2
        exact assemble (own.after (pass_pruned resolve now rank rules (n + 1) left' tree'))
          (ih _ _ kept completed)
    · rw [if_neg active] at completed ⊢
      exact assemble (fun _ _ _ hit => active hit.1) (ih _ _ distinct completed)

/-- The tree after passes each of which may have been cut off. -/
def afterPasses (rules : List OpLogCleanUpDefinition) (passes : List CleanupPass) (tree : Listing) :
    Listing :=
  passes.foldl (fun tree pass => (cleanUpDeleteFilesBounded resolve now rules pass tree).1) tree

theorem passes_pruned (rules : List OpLogCleanUpDefinition) (passes : List CleanupPass)
    (tree : Listing) :
    Pruned (Condemned resolve now rules) tree (afterPasses resolve now rules passes tree) := by
  induction passes generalizing tree with
  | nil => exact pruned_refl _ _
  | cons pass passes ih =>
    exact pruned_trans (pass_pruned resolve now pass.rank rules 0 pass.steps tree) (ih _)

theorem passes_distinct (rules : List OpLogCleanUpDefinition) (passes : List CleanupPass)
    {tree : Listing} (distinct : Distinct tree) :
    Distinct (afterPasses resolve now rules passes tree) := by
  induction passes generalizing tree with
  | nil => exact distinct
  | cons pass passes ih => exact ih (pass_distinct resolve now pass.rank rules 0 pass.steps distinct)

theorem not_condemned_iff (rules : List OpLogCleanUpDefinition) (path : List String)
    (times : FileTimes) : ¬ Condemned resolve now rules path times ↔
      ∀ d ∈ rules, 0 < d.deleteAfterDays → Ancestor (resolve d.path) path →
        ageInDays times now < d.deleteAfterDays := by
  unfold Condemned CondemnedBy Beneath Ancestor Old
  simp only [isOlderThan_iff]
  constructor
  · intro free d listed active above
    obtain ⟨below, some_name, same⟩ := above
    apply Nat.lt_of_not_le
    exact fun old => free ⟨d, listed, active, below, some_name, same, old⟩
  · intro young hit
    obtain ⟨d, listed, active, below, some_name, same, old⟩ := hit
    exact Nat.not_lt.mpr old (young d listed active ⟨below, some_name, same⟩)

/-- Any number of passes, each cut off anywhere, and one that completes: the files that are
left are those that were there and are younger than the days of every active rule for a
directory above them. So neither the order of the rules nor the passes before matter. -/
theorem interrupted_cleanup_converges (rules : List OpLogCleanUpDefinition) (tree : Tree)
    (passes : List CleanupPass) (last : CleanupPass)
    (completed : (cleanUpDeleteFilesBounded resolve now rules last
      (afterPasses resolve now rules passes tree.listing)).2 = true) :
    let left := (cleanUpDeleteFilesBounded resolve now rules last
      (afterPasses resolve now rules passes tree.listing)).1
    (∀ path times, HasFile left path times ↔ HasFile tree.listing path times ∧
      ∀ d ∈ rules, 0 < d.deleteAfterDays → Ancestor (resolve d.path) path →
        ageInDays times now < d.deleteAfterDays) ∧
    ∀ (rules' : List OpLogCleanUpDefinition) (passes' : List CleanupPass) (last' : CleanupPass),
      (∀ d, d ∈ rules' ↔ d ∈ rules) →
      let out := cleanUpDeleteFilesBounded resolve now rules' last'
        (afterPasses resolve now rules' passes' tree.listing)
      out.2 = true → ∀ path times, HasFile out.1 path times ↔ HasFile left path times := by
  have survivors (rules : List OpLogCleanUpDefinition) (passes : List CleanupPass) (last : CleanupPass)
      (completed : (cleanUpDeleteFilesBounded resolve now rules last
        (afterPasses resolve now rules passes tree.listing)).2 = true) (path : List String)
      (times : FileTimes) :
      HasFile (cleanUpDeleteFilesBounded resolve now rules last
        (afterPasses resolve now rules passes tree.listing)).1 path times ↔
      HasFile tree.listing path times ∧ ¬ Condemned resolve now rules path times := by
    obtain ⟨steps, done⟩ := Option.isSome_iff_exists.mp completed
    have cleared := pass_cleared resolve now last.rank rules 0 last.steps
      (passes_distinct resolve now rules passes tree.distinct) done
    have pruned := pruned_trans (passes_pruned resolve now rules passes tree.listing)
      (pass_pruned resolve now last.rank rules 0 last.steps _)
    constructor
    · exact fun has => ⟨pruned.old path times has, cleared path times has⟩
    · exact fun there => pruned.spared path times there.1 there.2
  intro left
  refine ⟨fun path times => ?_, ?_⟩
  · rw [← not_condemned_iff]
    exact survivors rules passes last completed path times
  · intro rules' passes' last' same out completed' path times
    rw [survivors rules' passes' last' completed' path times,
      survivors rules passes last completed path times, not_condemned_iff, not_condemned_iff]
    simp only [same]

end Passes

def daysAfterEpoch (days : Nat) : SystemTime := days * (24 * 60 * 60 * 1000000000)

/-- Two files, one of them in a directory of its own, dated 40 and 95 days after the epoch. -/
def twoFiles : Tree where
  listing := .dir "logs"
    (.dir "old" (.file "a.log" ⟨.ok (daysAfterEpoch 40), .ok 0⟩ .nil)
      (.file "b.log" ⟨.ok (daysAfterEpoch 95), .ok 0⟩ .nil)) .nil
  distinct := by simp [Distinct, names]

/-- The outer rule comes first; the first pass is cut off inside its walk. -/
theorem interrupted_cleanup_converges_two_files :
    HasFile (cleanUpDeleteFilesBounded (fun path => if path = "logs" then ["logs"] else ["logs", "old"])
      (daysAfterEpoch 100) [⟨"logs", 30⟩, ⟨"logs/old", 7⟩] ⟨10, fun _ _ _ => 0⟩
      (afterPasses (fun path => if path = "logs" then ["logs"] else ["logs", "old"])
        (daysAfterEpoch 100) [⟨"logs", 30⟩, ⟨"logs/old", 7⟩] [⟨2, fun _ _ _ => 0⟩]
        twoFiles.listing)).1 ["logs", "b.log"] ⟨.ok (daysAfterEpoch 95), .ok 0⟩ := by
  have converges := interrupted_cleanup_converges
    (fun path => if path = "logs" then ["logs"] else ["logs", "old"]) (daysAfterEpoch 100)
    [⟨"logs", 30⟩, ⟨"logs/old", 7⟩] twoFiles [⟨2, fun _ _ _ => 0⟩] ⟨10, fun _ _ _ => 0⟩
    (by decide +kernel)
  refine (converges.1 _ _).mpr ⟨Or.inl ⟨["b.log"], rfl, Or.inr (Or.inl ⟨rfl, rfl⟩)⟩, ?_⟩
  intro d listed active above
  rcases List.mem_cons.mp listed with rfl | second
  · decide +kernel
  · cases List.mem_singleton.mp second
    decide +kernel

end OpLog.Guarantees.Retention
