import OpLog.Guarantees.Retention

/-!
# What one walk leaves

An uncut walk of `delete_files_in_path` is `prune`: the young files stay and whatever is
neither a file nor a directory, and a directory stays if one of these is left below it, which
is when `remove_dir` fails. The order in which the directories are listed leaves no trace, and
neither does a second walk at the same time.
-/
namespace OpLog.Guarantees.Pruning
open Source Retention

/-! ## The walk without its steps -/

section Prune
variable (now : SystemTime) (days : Nat)

def prune : Listing → Listing
  | .nil => .nil
  | .file name times rest =>
    if isOlderThan times now days then prune rest else .file name times (prune rest)
  | .dir name entries rest =>
    if (prune entries).isEmpty then prune rest else .dir name (prune entries) (prune rest)
  | .other name rest => .other name (prune rest)

/-- The steps of an uncut walk: one for each entry and one for each directory's removal. -/
def walkSteps : Listing → Nat
  | .nil => 0
  | .file _ _ rest => walkSteps rest + 1
  | .dir _ entries rest => walkSteps entries + walkSteps rest + 2
  | .other _ rest => walkSteps rest + 1

theorem walk_uncut (t : Listing) (left : Nat) :
    t.deleteFilesInPath now days (walkSteps t + left) = (prune now days t, some left) := by
  induction t generalizing left with
  | nil =>
    rw [walkSteps, Nat.zero_add]
    rfl
  | file name times rest ih =>
    have steps : walkSteps (.file name times rest) + left = (walkSteps rest + left) + 1 := by
      rw [walkSteps]
      omega
    rw [steps]
    simp only [Listing.deleteFilesInPath, prune, ih]
    split <;> rfl
  | dir name entries rest ihEntries ihRest =>
    have steps : walkSteps (.dir name entries rest) + left =
        (walkSteps entries + (walkSteps rest + left + 1)) + 1 := by
      rw [walkSteps]
      omega
    rw [steps]
    simp only [Listing.deleteFilesInPath, prune, ihEntries, ihRest]
    split <;> rfl
  | other name rest ih =>
    have steps : walkSteps (.other name rest) + left = (walkSteps rest + left) + 1 := by
      rw [walkSteps]
      omega
    rw [steps]
    simp only [Listing.deleteFilesInPath, prune, ih]

/-- A walk that was not cut off had these steps, and the ones it has left. -/
theorem walk_steps {t after : Listing} {steps : Nat} {left : Option Nat}
    (walk : t.Walk now days steps after left) {n : Nat} (completed : left = some n) :
    steps = walkSteps t + n := by
  induction walk generalizing n with
  | done =>
    rw [Option.some.inj completed, walkSteps, Nat.zero_add]
  | cut => cases completed
  | cutInside => cases completed
  | oldFile _ _ ih =>
    rw [ih completed, walkSteps]
    omega
  | youngFile _ _ ih =>
    rw [ih completed, walkSteps]
    omega
  | emptied _ _ _ ihEntries ihRest =>
    have below := ihEntries rfl
    have behind := ihRest completed
    rw [walkSteps]
    omega
  | notEmptied _ _ ihEntries ihRest =>
    have below := ihEntries rfl
    have behind := ihRest completed
    rw [walkSteps]
    omega
  | other _ ih =>
    rw [ih completed, walkSteps]
    omega

theorem walk_prunes {t : Listing} {steps left : Nat}
    (completed : (t.deleteFilesInPath now days steps).2 = some left) :
    (t.deleteFilesInPath now days steps).1 = prune now days t := by
  rw [walk_steps now days (t.walk_deleteFilesInPath now days steps) completed, walk_uncut]

/-! ## What it leaves -/

/-- What the walk deletes on no account. -/
def Kept : Kind → Prop
  | .file times => ageInDays times now < days
  | .dir => False
  | .other => True

/-- A directory survives through what is kept below it. -/
def Survives (t : Listing) (path : List String) : Kind → Prop
  | .file times => ageInDays times now < days
  | .dir => ∃ deeper kind, deeper ≠ [] ∧ Has t (path ++ deeper) kind ∧ Kept now days kind
  | .other => True

variable {now days}

theorem survives_of_kept {t : Listing} {path : List String} {kind : Kind}
    (kept : Kept now days kind) : Survives now days t path kind := by
  cases kind with
  | file times => exact kept
  | dir => cases kept
  | other => trivial

theorem survives_congr {t u : Listing} {path path' : List String} {kind : Kind}
    (same : ∀ deeper kind, deeper ≠ [] →
      (Has t (path ++ deeper) kind ↔ Has u (path' ++ deeper) kind)) :
    Survives now days t path kind ↔ Survives now days u path' kind := by
  cases kind with
  | file times => exact Iff.rfl
  | other => exact Iff.rfl
  | dir =>
    unfold Survives
    constructor
    · rintro ⟨deeper, kind, some_name, has, kept⟩
      exact ⟨deeper, kind, some_name, (same deeper kind some_name).mp has, kept⟩
    · rintro ⟨deeper, kind, some_name, has, kept⟩
      exact ⟨deeper, kind, some_name, (same deeper kind some_name).mpr has, kept⟩

/-- A directory that is not empty after the walk has something kept in it. -/
theorem kept_of_prune {t : Listing} (some_left : (prune now days t).isEmpty = false) :
    ∃ path kind, Has t path kind ∧ Kept now days kind := by
  induction t with
  | nil => cases some_left
  | file name times rest ih =>
    unfold prune at some_left
    split at some_left
    · obtain ⟨path, kind, has, kept⟩ := ih some_left
      exact ⟨path, kind, Or.inr has, kept⟩
    · rename_i young
      rw [isOlderThan_iff, Nat.not_le] at young
      exact ⟨[name], .file times, Or.inl ⟨rfl, rfl⟩, young⟩
  | dir name entries rest ihEntries ihRest =>
    unfold prune at some_left
    split at some_left
    · obtain ⟨path, kind, has, kept⟩ := ihRest some_left
      exact ⟨path, kind, Or.inr (Or.inr has), kept⟩
    · rename_i inside
      rw [Bool.not_eq_true] at inside
      obtain ⟨path, kind, has, kept⟩ := ihEntries inside
      exact ⟨name :: path, kind, Or.inr (Or.inl ⟨path, rfl, has⟩), kept⟩
  | other name rest ih => exact ⟨[name], .other, Or.inl ⟨rfl, rfl⟩, trivial⟩

/-- Below a directory stand its entries. -/
theorem has_inside {name : String} {entries rest : Listing} (apart : name ∉ names rest)
    {deeper : List String} (some_name : deeper ≠ []) (kind : Kind) :
    Has (.dir name entries rest) (name :: deeper) kind ↔ Has entries deeper kind := by
  constructor
  · intro has
    rcases has with ⟨same, -⟩ | ⟨below, same, inside⟩ | later
    · exact absurd (List.cons.inj same).2 some_name
    · rw [(List.cons.inj same).2]
      exact inside
    · exact absurd (has_name later) apart
  · exact fun inside => Or.inr (Or.inl ⟨deeper, rfl, inside⟩)

theorem survives_inside {name : String} {entries rest : Listing} (apart : name ∉ names rest)
    {below : List String} (some_name : below ≠ []) (kind : Kind) :
    Survives now days (.dir name entries rest) (name :: below) kind ↔
      Survives now days entries below kind := by
  apply survives_congr
  intro deeper kind _
  exact has_inside apart (by simp [some_name]) kind

/-- Behind the first entry of a directory nothing below the others changes. -/
theorem survives_rest {t rest : Listing} {name : String} (apart : name ∉ names rest)
    (behind : ∀ x below kind, x ≠ name → (Has t (x :: below) kind ↔ Has rest (x :: below) kind))
    {path : List String} {kind : Kind} (has : Has rest path kind) :
    Survives now days t path kind ↔ Survives now days rest path kind := by
  cases path with
  | nil => exact absurd rfl (has_ne_nil has)
  | cons x below =>
    have other : x ≠ name := by
      rintro rfl
      exact apart (has_name has)
    apply survives_congr
    intro deeper kind _
    exact behind x (below ++ deeper) kind other

/-- The survivors are those of the first entry and those of the others. -/
theorem survivors_cons {t rest : Listing} {name : String} (apart : name ∉ names rest)
    {here : List String → Kind → Prop}
    (first : ∀ path kind, Has t path kind ↔ here path kind ∨ Has rest path kind)
    (named : ∀ x below kind, here (x :: below) kind → x = name) (path : List String) (kind : Kind) :
    Has t path kind ∧ Survives now days t path kind ↔
      (here path kind ∧ Survives now days t path kind) ∨
        (Has rest path kind ∧ Survives now days rest path kind) := by
  have behind (x : String) (below : List String) (kind : Kind) (other : x ≠ name) :
      Has t (x :: below) kind ↔ Has rest (x :: below) kind := by
    rw [first]
    exact or_iff_right fun hit => other (named x below kind hit)
  rw [first, or_and_right]
  apply or_congr_right
  constructor
  · rintro ⟨has, survives⟩
    exact ⟨has, (survives_rest apart behind has).mp survives⟩
  · rintro ⟨has, survives⟩
    exact ⟨has, (survives_rest apart behind has).mpr survives⟩

/-- What is left of a directory with its entries: itself if anything is, and what survives
inside it. -/
theorem survivors_dir {name : String} {entries rest : Listing} (apart : name ∉ names rest)
    (inside : ∀ path kind, Has (prune now days entries) path kind ↔
      Has entries path kind ∧ Survives now days entries path kind)
    (path : List String) (kind : Kind) :
    ((path = [name] ∧ kind = .dir ∨ ∃ below, path = name :: below ∧ Has entries below kind) ∧
        Survives now days (.dir name entries rest) path kind) ↔
      (prune now days entries).isEmpty = false ∧
        (path = [name] ∧ kind = .dir ∨
          ∃ below, path = name :: below ∧ Has (prune now days entries) below kind) := by
  have not_empty {below : List String} {kind : Kind} (has : Has (prune now days entries) below kind) :
      (prune now days entries).isEmpty = false := by
    generalize prune now days entries = left at has
    cases left with
    | nil => cases has
    | _ => rfl
  constructor
  · rintro ⟨⟨rfl, rfl⟩ | ⟨below, rfl, has⟩, survives⟩
    · obtain ⟨deeper, kind, some_name, has, kept⟩ := survives
      have left := (inside deeper kind).mpr
        ⟨(has_inside apart some_name kind).mp has, survives_of_kept kept⟩
      exact ⟨not_empty left, Or.inl ⟨rfl, rfl⟩⟩
    · have left := (inside below kind).mpr
        ⟨has, (survives_inside apart (has_ne_nil has) kind).mp survives⟩
      exact ⟨not_empty left, Or.inr ⟨below, rfl, left⟩⟩
  · rintro ⟨some_left, ⟨rfl, rfl⟩ | ⟨below, rfl, left⟩⟩
    · obtain ⟨deeper, kind, has, kept⟩ := kept_of_prune some_left
      have some_name := has_ne_nil has
      exact ⟨Or.inl ⟨rfl, rfl⟩, deeper, kind, some_name,
        (has_inside apart some_name kind).mpr has, kept⟩
    · obtain ⟨has, survives⟩ := (inside below kind).mp left
      exact ⟨Or.inr ⟨below, rfl, has⟩,
        (survives_inside apart (has_ne_nil has) kind).mpr survives⟩

theorem has_prune {t : Listing} (distinct : Distinct t) (path : List String) (kind : Kind) :
    Has (prune now days t) path kind ↔ Has t path kind ∧ Survives now days t path kind := by
  induction t generalizing path kind with
  | nil => exact iff_of_false id fun there => there.1
  | file name times rest ih =>
    obtain ⟨apart, below⟩ := distinct
    rw [prune, survivors_cons apart (fun _ _ => Iff.rfl) (fun _ _ _ hit => (List.cons.inj hit.1).1),
      ← ih below]
    split
    · rename_i old
      apply (or_iff_right _).symm
      rintro ⟨⟨-, rfl⟩, young⟩
      exact Nat.not_lt.mpr ((isOlderThan_iff times now days).mp old) young
    · rename_i young
      rw [isOlderThan_iff, Nat.not_le] at young
      apply or_congr_left
      constructor
      · rintro ⟨rfl, rfl⟩
        exact ⟨⟨rfl, rfl⟩, young⟩
      · exact And.left
  | dir name entries rest ihEntries ihRest =>
    obtain ⟨apart, inside, below⟩ := distinct
    have named (x : String) (below : List String) (kind : Kind)
        (hit : x :: below = [name] ∧ kind = .dir ∨
          ∃ deeper, x :: below = name :: deeper ∧ Has entries deeper kind) : x = name := by
      rcases hit with ⟨same, -⟩ | ⟨_, same, -⟩
      · exact (List.cons.inj same).1
      · exact (List.cons.inj same).1
    rw [prune, survivors_cons apart (has_dir name entries rest) named, ← ihRest below,
      survivors_dir apart (ihEntries inside)]
    split
    · rename_i empty
      rw [empty]
      apply (or_iff_right _).symm
      exact fun hit => Bool.noConfusion hit.1
    · rename_i some_left
      rw [Bool.not_eq_true] at some_left
      rw [some_left, eq_self, true_and, has_dir]
  | other name rest ih =>
    obtain ⟨apart, below⟩ := distinct
    rw [survivors_cons apart (fun _ _ => Iff.rfl) (fun _ _ _ hit => (List.cons.inj hit.1).1),
      ← ih below]
    apply or_congr_left
    constructor
    · rintro ⟨rfl, rfl⟩
      exact ⟨⟨rfl, rfl⟩, trivial⟩
    · exact And.left

end Prune

/-! ## The order of the entries -/

theorem walkSteps_place (rank : String → Nat) (name : String) {entry : Listing → Listing}
    {steps : Nat} (adds : ∀ rest, walkSteps (entry rest) = walkSteps rest + steps) (t : Listing) :
    walkSteps (t.place rank name entry) = walkSteps t + steps := by
  induction t with
  | nil => exact adds .nil
  | _ =>
    unfold Listing.place
    split
    · exact adds _
    · rename_i ih _
      simp only [walkSteps, ih]
      omega

theorem walkSteps_reorder (rank : List String → String → Nat) (t : Listing) (at_path : List String) :
    walkSteps (t.reorder rank at_path) = walkSteps t := by
  induction t generalizing at_path with
  | nil => rfl
  | dir name entries rest ihEntries ihRest =>
    have adds (later : Listing) :
        walkSteps (.dir name (entries.reorder rank (at_path ++ [name])) later) =
          walkSteps later + (walkSteps entries + 2) := by
      rw [walkSteps, ihEntries]
      omega
    unfold Listing.reorder
    rw [walkSteps_place (rank at_path) name adds, ihRest, walkSteps]
    omega
  | _ =>
    unfold Listing.reorder
    rw [walkSteps_place (rank at_path) _ (fun _ => rfl)]
    rename_i ih
    rw [ih]
    rfl

/-! ## Down to the directory -/

theorem ancestor_cons {wanted x : String} {directory below : List String} :
    Ancestor (wanted :: directory) (x :: below) ↔ x = wanted ∧ Ancestor directory below := by
  unfold Ancestor
  simp only [List.cons_append, List.cons.injEq]
  constructor
  · rintro ⟨deeper, some_name, same, rfl⟩
    exact ⟨same, deeper, some_name, rfl⟩
  · rintro ⟨same, deeper, some_name, rfl⟩
    exact ⟨deeper, some_name, same, rfl⟩

theorem not_ancestor_nil (directory : List String) : ¬ Ancestor directory [] := by
  rintro ⟨below, some_name, same⟩
  exact some_name (List.append_eq_nil_iff.mp same.symm).2

/-- Below the directory only survivors are left, elsewhere everything. -/
def Leaves (now : SystemTime) (days : Nat) (directory : List String) (before after : Listing) :
    Prop := ∀ path kind, Has after path kind ↔
    Has before path kind ∧ (Ancestor directory path → Survives now days before path kind)

section Visit
variable {now : SystemTime} {days : Nat} {visit : Listing → Listing × Option Nat}

/-- The first entry is not on the way to the directory. -/
theorem leaves_rest {t out rest rest' : Listing} {name wanted : String} {directory : List String}
    (apart : name ∉ names rest) {here : List String → Kind → Prop}
    (first : ∀ path kind, Has t path kind ↔ here path kind ∨ Has rest path kind)
    (first' : ∀ path kind, Has out path kind ↔ here path kind ∨ Has rest' path kind)
    (named : ∀ x below kind, here (x :: below) kind → x = name ∧ (x = wanted → below = []))
    (later : Leaves now days (wanted :: directory) rest rest') :
    Leaves now days (wanted :: directory) t out := by
  have behind (x : String) (below : List String) (kind : Kind) (other : x ≠ name) :
      Has t (x :: below) kind ↔ Has rest (x :: below) kind := by
    rw [first]
    exact or_iff_right fun hit => other (named x below kind hit).1
  intro path kind
  rw [first', later path kind, first]
  constructor
  · rintro (hit | ⟨has, spared⟩)
    · refine ⟨Or.inl hit, fun above => ?_⟩
      cases path with
      | nil => exact absurd above (not_ancestor_nil _)
      | cons x below =>
        obtain ⟨same, above⟩ := ancestor_cons.mp above
        rw [(named x below kind hit).2 same] at above
        exact absurd above (not_ancestor_nil _)
    · exact ⟨Or.inr has, fun above => (survives_rest apart behind has).mpr (spared above)⟩
  · rintro ⟨hit | has, spared⟩
    · exact Or.inl hit
    · exact Or.inr ⟨has, fun above => (survives_rest apart behind has).mp (spared above)⟩

/-- The first entry is the next directory on the way. -/
theorem leaves_inside {entries entries' rest : Listing} {name : String} {directory : List String}
    (apart : name ∉ names rest) (inside : Leaves now days directory entries entries') :
    Leaves now days (name :: directory) (.dir name entries rest) (.dir name entries' rest) := by
  intro path kind
  rw [has_dir, has_dir]
  constructor
  · rintro ((⟨rfl, rfl⟩ | ⟨below, rfl, left⟩) | later)
    · refine ⟨Or.inl (Or.inl ⟨rfl, rfl⟩), fun above => ?_⟩
      exact absurd (ancestor_cons.mp above).2 (not_ancestor_nil _)
    · obtain ⟨has, spared⟩ := (inside below kind).mp left
      refine ⟨Or.inl (Or.inr ⟨below, rfl, has⟩), fun above => ?_⟩
      exact (survives_inside apart (has_ne_nil has) kind).mpr (spared (ancestor_cons.mp above).2)
    · refine ⟨Or.inr later, fun above => ?_⟩
      obtain ⟨deeper, -, rfl⟩ := above
      exact absurd (has_name later) apart
  · rintro ⟨(⟨rfl, rfl⟩ | ⟨below, rfl, has⟩) | later, spared⟩
    · exact Or.inl (Or.inl ⟨rfl, rfl⟩)
    · refine Or.inl (Or.inr ⟨below, rfl, (inside below kind).mpr ⟨has, fun above => ?_⟩⟩)
      exact (survives_inside apart (has_ne_nil has) kind).mp (spared (ancestor_cons.mpr ⟨rfl, above⟩))
    · exact Or.inr later

theorem inDirectory_leaves
    (prunes : ∀ dir left, Distinct dir → (visit dir).2 = some left →
      Leaves now days [] dir (visit dir).1) (steps : Nat) {t : Listing} (distinct : Distinct t)
    (directory : List String) {left : Nat}
    (completed : (t.inDirectory visit steps directory).2 = some left) :
    Leaves now days directory t (t.inDirectory visit steps directory).1 := by
  induction t generalizing directory with
  | nil =>
    cases directory with
    | nil => exact prunes _ left distinct completed
    | cons wanted directory =>
      intro path kind
      exact iff_of_false id fun there => there.1
  | dir name entries rest ihEntries ihRest =>
    cases directory with
    | nil => exact prunes _ left distinct completed
    | cons wanted directory =>
      obtain ⟨apart, inside, below⟩ := distinct
      unfold Listing.inDirectory at completed ⊢
      by_cases found : name = wanted
      · rw [if_pos found] at completed ⊢
        subst found
        exact leaves_inside apart (ihEntries inside directory completed)
      · rw [if_neg found] at completed ⊢
        apply leaves_rest apart (has_dir name entries rest) (has_dir name entries _) ?_
          (ihRest below (wanted :: directory) completed)
        rintro x deeper kind (⟨same, -⟩ | ⟨_, same, -⟩)
        · exact ⟨(List.cons.inj same).1, fun _ => (List.cons.inj same).2⟩
        · refine ⟨(List.cons.inj same).1, fun hit => ?_⟩
          exact absurd ((List.cons.inj same).1.symm.trans hit) found
  | _ =>
    rename_i ih
    cases directory with
    | nil => exact prunes _ left distinct completed
    | cons wanted directory =>
      apply leaves_rest distinct.1 (fun _ _ => Iff.rfl) (fun _ _ => Iff.rfl) ?_
        (ih distinct.2 (wanted :: directory) completed)
      rintro x deeper kind ⟨same, -⟩
      exact ⟨(List.cons.inj same).1, fun _ => (List.cons.inj same).2⟩

theorem inDirectory_completes {steps : Nat}
    (completes : ∀ dir, walkSteps dir ≤ steps → (visit dir).2.isSome = true) {t : Listing}
    (enough : walkSteps t ≤ steps) (directory : List String) :
    (t.inDirectory visit steps directory).2.isSome = true := by
  induction t generalizing directory with
  | nil =>
    cases directory with
    | nil => exact completes _ enough
    | cons wanted directory => rfl
  | dir name entries rest ihEntries ihRest =>
    cases directory with
    | nil => exact completes _ enough
    | cons wanted directory =>
      rw [walkSteps] at enough
      unfold Listing.inDirectory
      split
      · exact ihEntries (by omega) directory
      · exact ihRest (by omega) (wanted :: directory)
  | _ =>
    rename_i ih
    cases directory with
    | nil => exact completes _ enough
    | cons wanted directory =>
      rw [walkSteps] at enough
      exact ih (by omega) (wanted :: directory)

end Visit

/-! ## One pass -/

section Pass
variable (now : SystemTime) (days : Nat)

/-- `delete_files_in_path` of one directory of the tree, cut off after so many steps. -/
def deleteFilesAt (rank : List String → String → Nat) (root : List String) (steps : Nat)
    (tree : Listing) : Listing × Option Nat :=
  tree.inDirectory (fun dir => (dir.reorder rank []).deleteFilesInPath now days steps) steps root

variable {now days}

theorem visit_leaves (rank : List String → String → Nat) (steps : Nat) (dir : Listing) (left : Nat)
    (distinct : Distinct dir)
    (completed : ((dir.reorder rank []).deleteFilesInPath now days steps).2 = some left) :
    Leaves now days [] dir ((dir.reorder rank []).deleteFilesInPath now days steps).1 := by
  intro path kind
  have same (path : List String) (kind : Kind) := has_reorder rank dir [] path kind
  rw [walk_prunes now days completed, has_prune (distinct_reorder rank dir [] distinct), same,
    survives_congr fun deeper kind _ => same (path ++ deeper) kind]
  apply and_congr_right
  intro has
  constructor
  · exact fun survives _ => survives
  · exact fun spared => spared ⟨path, has_ne_nil has, rfl⟩

theorem deleteFilesAt_leaves (rank : List String → String → Nat) (root : List String) (steps : Nat)
    {tree : Listing} (distinct : Distinct tree)
    (completed : (deleteFilesAt now days rank root steps tree).2.isSome = true) :
    Leaves now days root tree (deleteFilesAt now days rank root steps tree).1 := by
  obtain ⟨left, done⟩ := Option.isSome_iff_exists.mp completed
  exact inDirectory_leaves (visit_leaves rank steps) steps distinct root done

theorem deleteFilesAt_completes (rank : List String → String → Nat) (root : List String) {steps : Nat}
    {tree : Listing} (enough : walkSteps tree ≤ steps) :
    (deleteFilesAt now days rank root steps tree).2.isSome = true := by
  apply inDirectory_completes _ enough
  intro dir enough
  obtain ⟨left, rfl⟩ := Nat.exists_eq_add_of_le enough
  have uncut := walk_uncut now days (dir.reorder rank []) left
  rw [walkSteps_reorder] at uncut
  rw [uncut]
  rfl

/-- What is left keeps what it stands on. -/
theorem survives_left {root path : List String} {before after : Listing} {kind : Kind}
    (leaves : Leaves now days root before after) (survives : Survives now days before path kind) :
    Survives now days after path kind := by
  cases kind with
  | file times => exact survives
  | other => exact survives
  | dir =>
    obtain ⟨deeper, kind, some_name, has, kept⟩ := survives
    exact ⟨deeper, kind, some_name,
      (leaves _ _).mpr ⟨has, fun _ => survives_of_kept kept⟩, kept⟩

theorem leaves_twice {root : List String} {before after again : Listing}
    (first : Leaves now days root before after) (second : Leaves now days root after again)
    (path : List String) (kind : Kind) : Has again path kind ↔ Has after path kind := by
  rw [second path kind]
  constructor
  · exact And.left
  · exact fun left => ⟨left, fun above =>
      survives_left first (((first path kind).mp left).2 above)⟩

variable (now days) in
/-- The tree after one pass below `root`, entry by entry. -/
structure LeavesExactly (root : List String) (before after : Listing) : Prop where
  outside : ∀ path kind, ¬ Ancestor root path → (Has after path kind ↔ Has before path kind)
  files : ∀ path times, Ancestor root path →
    (Has after path (.file times) ↔ Has before path (.file times) ∧ ageInDays times now < days)
  others : ∀ path, Ancestor root path → (Has after path .other ↔ Has before path .other)
  dirs : ∀ path, Ancestor root path → (Has after path .dir ↔ Has before path .dir ∧
    ∃ deeper kind, deeper ≠ [] ∧ kind ≠ .dir ∧ Has after (path ++ deeper) kind)

theorem leavesExactly_of_leaves {root : List String} {before after : Listing}
    (leaves : Leaves now days root before after) : LeavesExactly now days root before after where
  outside path kind apart := by
    rw [leaves path kind]
    exact and_iff_left fun above => absurd above apart
  files path times above := by
    rw [leaves path (.file times)]
    exact and_congr_right fun _ => ⟨fun spared => spared above, fun young _ => young⟩
  others path _ := by
    rw [leaves path .other]
    exact and_iff_left fun _ => trivial
  dirs path above := by
    have deeper_above (deeper : List String) : Ancestor root (path ++ deeper) := by
      obtain ⟨below, some_name, rfl⟩ := above
      exact ⟨below ++ deeper, by simp [some_name], List.append_assoc _ _ _⟩
    rw [leaves path .dir]
    apply and_congr_right
    intro _
    constructor
    · intro spared
      obtain ⟨deeper, kind, some_name, has, kept⟩ := spared above
      refine ⟨deeper, kind, some_name, ?_, (leaves _ _).mpr ⟨has, fun _ => survives_of_kept kept⟩⟩
      rintro rfl
      exact kept
    · rintro ⟨deeper, kind, some_name, no_dir, left⟩ _
      obtain ⟨has, spared⟩ := (leaves _ _).mp left
      have survives := spared (deeper_above deeper)
      cases kind with
      | file times => exact ⟨deeper, .file times, some_name, has, survives⟩
      | dir => exact absurd rfl no_dir
      | other => exact ⟨deeper, .other, some_name, has, trivial⟩

/-- One pass that nothing cuts off, over any tree in any order: below the root the young files
are left, what is neither file nor directory, and the directories with one of these below
them; the root and everything beside it stay. Another pass at the same time, in an order of
its own, changes nothing, and no pass needs more steps than the tree has for it. -/
theorem cleanup_leaves_exactly (tree : Tree) (rank : List String → String → Nat) (root : List String)
    (steps : Nat)
    (completed : (deleteFilesAt now days rank root steps tree.listing).2.isSome = true) :
    LeavesExactly now days root tree.listing
      (deleteFilesAt now days rank root steps tree.listing).1 ∧
    (∀ rank' steps', (deleteFilesAt now days rank' root steps'
        (deleteFilesAt now days rank root steps tree.listing).1).2.isSome = true →
      ∀ path kind, Has (deleteFilesAt now days rank' root steps'
          (deleteFilesAt now days rank root steps tree.listing).1).1 path kind ↔
        Has (deleteFilesAt now days rank root steps tree.listing).1 path kind) ∧
    ∀ (tree : Listing) rank' steps', walkSteps tree ≤ steps' →
      (deleteFilesAt now days rank' root steps' tree).2.isSome = true := by
  have leaves := deleteFilesAt_leaves rank root steps tree.distinct completed
  have distinct : Distinct (deleteFilesAt now days rank root steps tree.listing).1 :=
    inDirectory_distinct (visit_distinct now days rank steps) steps tree.distinct root
  constructor
  · exact leavesExactly_of_leaves leaves
  constructor
  · intro rank' steps' completed' path kind
    exact leaves_twice leaves (deleteFilesAt_leaves rank' root steps' distinct completed') path kind
  · exact fun tree rank' steps' enough => deleteFilesAt_completes rank' root enough

/-- The old file goes and its directory with it, the young one stays. -/
theorem cleanup_leaves_exactly_two_files :
    let left := (deleteFilesAt (daysAfterEpoch 100) 7 (fun _ _ => 0) ["logs"] 10 twoFiles.listing).1
    Has left ["logs", "b.log"] (.file ⟨.ok (daysAfterEpoch 95), .ok 0⟩) ∧
    ¬ Has left ["logs", "old", "a.log"] (.file ⟨.ok (daysAfterEpoch 40), .ok 0⟩) := by
  have leaves := @cleanup_leaves_exactly (daysAfterEpoch 100) 7 twoFiles (fun _ _ => 0) ["logs"] 10
    (by decide +kernel)
  have above (below : List String) (some_name : below ≠ []) : Ancestor ["logs"] ("logs" :: below) :=
    ⟨below, some_name, rfl⟩
  constructor
  · apply (leaves.1.files _ _ (above _ (by simp))).mpr
    constructor
    · exact Or.inr (Or.inl ⟨["b.log"], rfl, Or.inr (Or.inr (Or.inl ⟨rfl, rfl⟩))⟩)
    · decide +kernel
  · intro left
    have young := ((leaves.1.files _ _ (above _ (by simp))).mp left).2
    exact absurd young (by decide +kernel)

end Pass
end OpLog.Guarantees.Pruning
