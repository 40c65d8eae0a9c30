import OpLog.Format.Dates
import OpLog.Guarantees.Dating
import OpLog.Guarantees.Forgetting
import OpLog.Source.FileOps

/-!
# Names and files on disk

Which disk file an entry goes to: the directory of its definition, or one of its own for the
period, and in it a name made of the log's name and, without sub-directories, the period. Two
logs of one directory share a file only where the name of the one that does not split is the
name of the other one with a period behind it.
-/
namespace OpLog.Guarantees.Naming
open Library Source Format Dating Forgetting

/-! ## Paths -/

/-- A directory as it stands in front of the names in it. -/
def directory (path : String) : String :=
  if path.isEmpty || path.endsWith "/" then path else path ++ "/"

theorem joined_relative {logName : String} (relative : slashes logName = 0) (path : String) :
    joined path logName = directory path ++ logName := by
  have inside : logName.startsWith "/" = false := by
    rw [String.startsWith_string_eq_false_iff]
    intro absolute
    have slash : '/' ∈ logName.toList := absolute.subset (List.mem_singleton.mpr rfl)
    exact List.count_eq_zero.mp relative slash
  unfold joined directory
  rw [inside]
  split
  · rename_i impossible
    cases impossible
  · split
    · rfl
    · rfl

/-- It is empty or ends with a slash. -/
theorem directory_closed (path : String) :
    (directory path).toList = [] ∨ ∃ front, (directory path).toList = front ++ ['/'] := by
  unfold directory
  split
  · rename_i closed
    rcases Bool.or_eq_true_iff.mp closed with empty | ends
    · left
      rw [String.isEmpty_iff.mp empty]
      rfl
    · right
      have suffix := String.Slice.endsWith_string_iff.mp ends
      rw [String.copy_toSlice] at suffix
      obtain ⟨front, same⟩ := suffix
      exact ⟨front, same.symm⟩
  · right
    exact ⟨path.toList, String.toList_append⟩

theorem length_directory (path : String) :
    path.toList.length ≤ (directory path).toList.length ∧
      (directory path).toList.length ≤ path.toList.length + 1 := by
  unfold directory
  split
  · exact ⟨Nat.le_refl _, Nat.le_succ _⟩
  · rw [String.toList_append, List.length_append]
    exact ⟨Nat.le_add_right _ _, Nat.le_refl _⟩

/-- The last slash of a path separates directory and name. -/
theorem joined_inj {path path' logName logName' : String} (relative : slashes logName = 0)
    (relative' : slashes logName' = 0) :
    joined path logName = joined path' logName' ↔
      directory path = directory path' ∧ logName = logName' := by
  rw [joined_relative relative, joined_relative relative']
  constructor
  · intro same
    have chars := congrArg String.toList same
    rw [String.toList_append, String.toList_append] at chars
    have no_slash {front : List Char} {name : String} (relative : slashes name = 0)
        (same : name.toList = front ++ ['/'] ++ logName'.toList ∨
          name.toList = front ++ ['/'] ++ logName.toList) : False := by
      apply List.count_eq_zero.mp relative
      rcases same with same | same <;> simp [same]
    rcases directory_closed path with empty | ⟨front, closed⟩
    · rcases directory_closed path' with empty' | ⟨front', closed'⟩
      · rw [empty, empty'] at chars
        exact ⟨String.toList_inj.mp (empty.trans empty'.symm), String.toList_inj.mp chars⟩
      · rw [empty, closed'] at chars
        exact absurd (Or.inl chars) (no_slash relative)
    · rcases directory_closed path' with empty' | ⟨front', closed'⟩
      · rw [closed, empty'] at chars
        exact absurd (Or.inr chars.symm) (no_slash relative')
      · rw [closed, closed', List.append_assoc, List.append_assoc] at chars
        obtain ⟨fronts, names⟩ := Numerals.split_at_mark chars (relative.trans relative'.symm)
        constructor
        · apply String.toList_inj.mp
          rw [closed, closed', fronts]
        · exact String.toList_inj.mp names
  · rintro ⟨directories, rfl⟩
    rw [directories]

/-! ## Periods -/

def period (logType : OpLogType) (date : LocalDateTime) : String :=
  writeDate date (formatDateInPath logType)

/-- The numbers behind the year. -/
def fields (logType : OpLogType) (date : LocalDateTime) : List Nat :=
  match logType with
  | .noSplit => []
  | .perMonth => [date.month]
  | .perDay => [date.month, date.day]
  | .perHour => [date.month, date.day, date.hour]

/-- Each number in two digits at least, behind an underscore. -/
def marked (numbers : List Nat) : List Char :=
  numbers.flatMap fun n => '_' :: Numerals.padded 2 n

theorem toList_period {logType : OpLogType} (split : logType ≠ .noSplit) (date : LocalDateTime) :
    (period logType date).toList = (yearText date.year).toList ++ marked (fields logType date) := by
  have underscore : "_".toList = ['_'] := rfl
  have year : Numeric.year.format date = yearText date.year := rfl
  unfold period writeDate
  rw [String.toList_join]
  cases logType with
  | noSplit => exact absurd rfl split
  | _ =>
    simp [formatDateInPath, HOUR_IN_PATH, DAY_IN_PATH, MONTH_IN_PATH, Item.format, Numeric.format,
      underscore, ← year, fields, marked, toList_padZero]

theorem no_underscore {c : Char} (numeral : isNumeral c = true) : c ≠ '_' := by
  rintro rfl
  cases numeral

theorem count_padded (width n : Nat) : (Numerals.padded width n).count '_' = 0 := by
  rw [List.count_eq_zero]
  intro member
  have digit := Numerals.isDigit_of_mem_padded member
  cases digit

theorem count_marked (numbers : List Nat) : (marked numbers).count '_' = numbers.length := by
  induction numbers with
  | nil => rfl
  | cons n rest ih =>
    have behind : (marked rest).count '_' = rest.length := ih
    unfold marked at behind ⊢
    rw [List.flatMap_cons, List.count_append, List.count_cons_self, count_padded, behind,
      List.length_cons]
    omega

theorem length_marked_cons (n : Nat) (rest : List Nat) :
    (marked (n :: rest)).length = (Numerals.padded 2 n).length + 1 + (marked rest).length := by
  unfold marked
  rw [List.flatMap_cons, List.length_append, List.length_cons]

theorem le_length_marked (numbers : List Nat) : 3 * numbers.length ≤ (marked numbers).length := by
  induction numbers with
  | nil => exact Nat.le_refl 0
  | cons n rest ih =>
    have digits := Numerals.le_length_padded 2 n
    rw [length_marked_cons, List.length_cons]
    omega

theorem length_marked {numbers : List Nat} (short : ∀ n ∈ numbers, n < 100) :
    (marked numbers).length = 3 * numbers.length := by
  induction numbers with
  | nil => rfl
  | cons n rest ih =>
    have digits := @Numerals.length_padded 2 n (by decide) (short n List.mem_cons_self)
    rw [length_marked_cons, digits, ih fun m later => short m (List.mem_cons_of_mem n later),
      List.length_cons]
    omega

theorem count_year (year : Int) : (yearText year).toList.count '_' = 0 := by
  rw [List.count_eq_zero]
  intro member
  exact no_underscore (@format_numeral ⟨year, 0, 0, 0, 0, 0, 0⟩ .year '_' member) rfl

theorem le_length_year (year : Int) : 4 ≤ (yearText year).toList.length := by
  unfold yearText
  split
  · rw [toList_padZero]
    exact Numerals.le_length_padded 4 _
  · have digits := Numerals.le_length_padded 4 year.natAbs
    rw [String.toList_append, List.length_append, toList_padZero]
    omega

/-- Behind a name no period of fewer numbers is the end of one with more: its year is longer
than any of the numbers there. -/
theorem period_no_tail {front year year' : List Char} {numbers numbers' : List Nat}
    (fewer : numbers.length < numbers'.length) (short : ∀ n ∈ numbers', n < 100)
    (unmarked : year.count '_' = 0) (long : 4 ≤ year.length) (front' : List Char) :
    front ++ '_' :: (year ++ marked numbers) ≠ front' ++ '_' :: (year' ++ marked numbers') := by
  intro same
  let skipped := numbers'.length - numbers.length - 1
  obtain ⟨n, back, dropped⟩ : ∃ n back, numbers'.drop skipped = n :: back := by
    apply List.exists_cons_of_ne_nil
    rw [ne_eq, List.drop_eq_nil_iff]
    omega
  have size : back.length = numbers.length := by
    have total := congrArg List.length dropped
    rw [List.length_drop, List.length_cons] at total
    omega
  have inside (m : Nat) (member : m ∈ n :: back) : m < 100 := by
    rw [← dropped] at member
    exact short m (List.mem_of_mem_drop member)
  have parts : marked numbers' =
      marked (numbers'.take skipped) ++ '_' :: (Numerals.padded 2 n ++ marked back) := by
    have whole := congrArg marked (List.take_append_drop skipped numbers')
    rw [← whole, dropped]
    unfold marked
    rw [List.flatMap_append, List.flatMap_cons, List.cons_append]
  have regrouped : front ++ '_' :: (year ++ marked numbers) =
      (front' ++ '_' :: (year' ++ marked (numbers'.take skipped))) ++
        '_' :: (Numerals.padded 2 n ++ marked back) := by
    rw [same, parts]
    simp only [List.append_assoc, List.cons_append]
  obtain ⟨-, ends⟩ := Numerals.split_at_mark regrouped (by
    rw [List.count_append, List.count_append, unmarked, count_padded, count_marked, count_marked, size])
  have lengths := congrArg List.length ends
  have two := @Numerals.length_padded 2 n (by decide) (inside n List.mem_cons_self)
  have least := le_length_marked numbers
  have most := length_marked fun m later => inside m (List.mem_cons_of_mem n later)
  rw [List.length_append, List.length_append, two, most, size] at lengths
  omega

/-- What a calendar promises of a date. -/
def InCalendar (date : LocalDateTime) : Prop := date.month ≤ 12 ∧ date.day ≤ 31 ∧ date.hour ≤ 23

theorem fields_short {date : LocalDateTime} (calendar : InCalendar date) (logType : OpLogType) :
    ∀ n ∈ fields logType date, n < 100 := by
  obtain ⟨month, day, hour⟩ := calendar
  intro n member
  unfold fields at member
  cases logType <;> simp at member <;> omega

/-- Two names with periods behind them. -/
theorem name_of_period {logType logType' : OpLogType} (split : logType ≠ .noSplit)
    (split' : logType' ≠ .noSplit) {date date' : LocalDateTime} (calendar : InCalendar date)
    (calendar' : InCalendar date') {name name' : String}
    (same : name ++ "_" ++ period logType date = name' ++ "_" ++ period logType' date') :
    name = name' := by
  have chars := congrArg String.toList same
  have underscore : "_".toList = ['_'] := rfl
  simp only [String.toList_append, toList_period split, toList_period split', underscore,
    List.append_assoc, List.cons_append, List.nil_append] at chars
  rcases Nat.lt_trichotomy (fields logType date).length (fields logType' date').length with
    fewer | equal | fewer
  · exact absurd chars (period_no_tail fewer (fields_short calendar' logType')
      (count_year date.year) (le_length_year date.year) _)
  · have counts : ((yearText date.year).toList ++ marked (fields logType date)).count '_' =
        ((yearText date'.year).toList ++ marked (fields logType' date')).count '_' := by
      rw [List.count_append, List.count_append, count_year, count_year, count_marked, count_marked,
        equal]
    exact String.toList_inj.mp (Numerals.split_at_mark chars counts).1
  · exact absurd chars.symm (period_no_tail fewer (fields_short calendar logType)
      (count_year date'.year) (le_length_year date'.year) _)

/-! ## Where a route leads -/

section Routes
variable (path name : String) (logType : OpLogType) (options : List OpLogOption)
  (date : LocalDateTime)

/-- The period makes a directory. -/
def Nested (logType : OpLogType) (options : List OpLogOption) : Prop :=
  logType ≠ .noSplit ∧ OpLogOption.useSubDirectories ∈ options

instance : Decidable (Nested logType options) := inferInstanceAs (Decidable (_ ∧ _))

def folder : String :=
  if Nested logType options then path ++ "/" ++ period logType date else path

/-- The name of the file up to its suffix. -/
def stem : String :=
  if logType = .noSplit ∨ Nested logType options then name else name ++ "_" ++ period logType date

theorem route_place (d : LogDefinition) (text : String) :
    (d.route name date text).path = folder d.path d.logType d.options date ∧
      (d.route name date text).logName = stem name d.logType d.options date ++ ".log" := by
  unfold LogDefinition.route folder stem Nested period
  by_cases whole : d.logType = .noSplit
  · simp [whole, formatDateInPath]
  · have some_items := (items_of_split whole).1
    by_cases sub : OpLogOption.useSubDirectories ∈ d.options
    · simp [whole, some_items, sub]
    · simp [whole, some_items, sub]

theorem slashes_stem : slashes (stem name logType options date ++ ".log") = slashes name := by
  have suffix : slashes ".log" = 0 := by decide
  have underscore : slashes "_" = 0 := by decide
  unfold stem period
  split
  · rw [slashes_append, suffix]
    rfl
  · rw [slashes_append, slashes_append, slashes_append, suffix, underscore, slashes_writeDate]
    rfl

/-- A directory of its own lies below the one of the definition. -/
theorem folder_nested (nested : Nested logType options) :
    directory (folder path logType options date) ≠ directory path := by
  intro same
  have chars := congrArg (fun text => text.toList.length) same
  have year := le_length_year date.year
  obtain ⟨least, -⟩ := length_directory (folder path logType options date)
  obtain ⟨-, most⟩ := length_directory path
  have slash : "/".toList.length = 1 := rfl
  unfold folder at chars least
  rw [if_pos nested] at chars least
  rw [String.toList_append, String.toList_append, toList_period nested.1, List.length_append,
    List.length_append, List.length_append, slash] at least
  omega

end Routes

/-- The first log does not split, and its name is the second one's with a period behind it in
which the second one keeps a file. -/
def NamedAsPeriod (name : String) (logType : OpLogType) (name' : String) (logType' : OpLogType)
    (options' : List OpLogOption) (date' : LocalDateTime) : Prop :=
  logType = .noSplit ∧ logType' ≠ .noSplit ∧ OpLogOption.useSubDirectories ∉ options' ∧
    name = name' ++ "_" ++ period logType' date'

instance (name : String) (logType : OpLogType) (name' : String) (logType' : OpLogType)
    (options' : List OpLogOption) (date' : LocalDateTime) :
    Decidable (NamedAsPeriod name logType name' logType' options' date') :=
  inferInstanceAs (Decidable (_ ∧ _))

section Place
variable {name name' : String} {logType logType' : OpLogType} {options options' : List OpLogOption}
  {date date' : LocalDateTime}

theorem stem_eq_iff (flat : ¬ Nested logType options) (flat' : ¬ Nested logType' options')
    (different : name ≠ name') (calendar : InCalendar date) (calendar' : InCalendar date') :
    stem name logType options date = stem name' logType' options' date' ↔
      NamedAsPeriod name logType name' logType' options' date' ∨
        NamedAsPeriod name' logType' name logType options date := by
  have in_name {logType : OpLogType} {options : List OpLogOption} (flat : ¬ Nested logType options)
      (split : logType ≠ .noSplit) : OpLogOption.useSubDirectories ∉ options :=
    fun sub => flat ⟨split, sub⟩
  unfold stem NamedAsPeriod
  simp only [flat, flat', or_false]
  by_cases whole : logType = .noSplit
  · by_cases whole' : logType' = .noSplit
    · simp [whole, whole', different]
    · simp [whole, whole', in_name flat' whole']
  · by_cases whole' : logType' = .noSplit
    · simp [whole, whole', in_name flat whole, eq_comm]
    · simp only [whole, whole', if_false, false_and, or_false, iff_false]
      exact fun same => different (name_of_period whole whole' calendar calendar' same)

theorem not_named_of_nested (nested : Nested logType options) :
    ¬ NamedAsPeriod name logType name' logType' options' date' :=
  fun named => nested.1 named.1

theorem not_named_after_nested (nested : Nested logType' options') :
    ¬ NamedAsPeriod name logType name' logType' options' date' :=
  fun named => named.2.2.1 nested.2

/-- Two logs of different names in one directory. -/
theorem place_eq_iff (different : name ≠ name') (relative : slashes name = 0)
    (relative' : slashes name' = 0) (calendar : InCalendar date) (calendar' : InCalendar date')
    (path : String) :
    joined (folder path logType options date) (stem name logType options date ++ ".log") =
        joined (folder path logType' options' date') (stem name' logType' options' date' ++ ".log") ↔
      NamedAsPeriod name logType name' logType' options' date' ∨
        NamedAsPeriod name' logType' name logType options date := by
  rw [joined_inj ((slashes_stem name logType options date).trans relative)
    ((slashes_stem name' logType' options' date').trans relative'), String.append_left_inj]
  by_cases nested : Nested logType options
  · apply iff_of_false
    · rintro ⟨folders, stems⟩
      by_cases nested' : Nested logType' options'
      · unfold stem at stems
        rw [if_pos (Or.inr nested), if_pos (Or.inr nested')] at stems
        exact different stems
      · apply folder_nested path logType options date nested
        rw [folders]
        unfold folder
        rw [if_neg nested']
    · rintro (named | named)
      · exact not_named_of_nested nested named
      · exact not_named_after_nested nested named
  · by_cases nested' : Nested logType' options'
    · apply iff_of_false
      · rintro ⟨folders, -⟩
        apply folder_nested path logType' options' date' nested'
        rw [← folders]
        unfold folder
        rw [if_neg nested]
      · rintro (named | named)
        · exact not_named_after_nested nested' named
        · exact not_named_of_nested nested' named
    · rw [stem_eq_iff nested nested' different calendar calendar']
      apply and_iff_right
      unfold folder
      rw [if_neg nested, if_neg nested']

end Place

/-! ## The files of a run -/

section Runs
variable {warsaw : DateTimeUtc → LocalDateTime} {name key : String}

/-- An entry is queued under the key of its own route. -/
def Routed (name key : String) : FileOp → Prop
  | .queue _ r _ => r.key = key ∧
      ∃ (d : LogDefinition) (date : LocalDateTime) (text : String), r = d.route name date text
  | _ => True

theorem routed_logOps (now : Instant) (w : OpLogWorker) (data : OpLogData) :
    ∀ op ∈ w.logOps warsaw name key now data, Routed name key op := by
  intro op member
  unfold OpLogWorker.logOps at member
  split at member
  · cases member
  · rename_i d stored
    dsimp only at member
    split at member
    · rename_i hit
      rw [List.mem_singleton.mp member, hit.1]
      exact ⟨hit.2.symm, d, _, _, rfl⟩
    · cases member

theorem routed_logsOps (now : Instant) (logs : List OpLogData) (w : OpLogWorker) :
    ∀ op ∈ w.logsOps warsaw name key now logs, Routed name key op := by
  induction logs generalizing w with
  | nil => exact fun op member => absurd member List.not_mem_nil
  | cons data logs ih =>
    intro op member
    unfold OpLogWorker.logsOps at member
    rcases List.mem_append.mp member with first | later
    · exact routed_logOps now w data op first
    · exact ih _ op later

theorem routed_passOps (interval : LogDefinition → Duration) (env : PassEnv) (w : OpLogWorker)
    (disk : Disk) : ∀ op ∈ w.passOps warsaw name key interval env disk, Routed name key op := by
  intro op member
  unfold OpLogWorker.passOps at member
  split at member
  · cases member
  · rw [List.mem_singleton.mp member]
    trivial

theorem routed_flushOps (env : Nat → PassEnv) (left n : Nat) (w : OpLogWorker) (disk : Disk) :
    ∀ op ∈ w.flushOps warsaw name key env left n disk, Routed name key op := by
  induction left generalizing n w disk with
  | zero => exact routed_passOps _ _ w disk
  | succ left ih =>
    intro op member
    unfold OpLogWorker.flushOps at member
    dsimp only at member
    rcases List.mem_append.mp member with first | later
    · exact routed_passOps _ _ w disk op first
    · split at later
      · cases later
      · exact ih _ _ _ op later

theorem routed_opsOn (s : World) (event : Event) :
    ∀ op ∈ s.opsOn warsaw name key event, Routed name key op := by
  cases event with
  | writerTick env => exact routed_passOps _ _ _ _
  | cleanupTick now deleted completed =>
    intro op member
    rw [List.mem_singleton.mp member]
    trivial
  | message env msg =>
    cases msg with
    | flush => exact routed_flushOps _ _ _ _ _
    | getInfoAndFlush => exact routed_flushOps _ _ _ _ _
    | logBundle bundle => exact routed_logsOps _ _ _
    | log data => exact routed_logOps _ _ _
    | _ => exact fun op member => absurd member List.not_mem_nil

theorem routed_opsOf (s : World) (events : List Event) :
    ∀ op ∈ s.opsOf warsaw name key events, Routed name key op := by
  induction events generalizing s with
  | nil => exact fun op member => absurd member List.not_mem_nil
  | cons event events ih =>
    intro op member
    unfold World.opsOf at member
    rcases List.mem_append.mp member with first | later
    · exact routed_opsOn s event op first
    · exact ih _ op later

/-- No operation moves a file, and a new one is put where its key says. -/
theorem located_step (live : Option LogFile) (op : FileOp) (routed : Routed name key op)
    (located : ∀ f ∈ live, Located name key f) :
    ∀ f ∈ (op.step warsaw live).1, Located name key f := by
  intro f member
  cases op with
  | queue d r now =>
    obtain ⟨rfl, d', date, text, rfl⟩ := routed
    rw [← Option.some.inj member]
    cases live with
    | none => exact located_route date text rfl rfl
    | some g =>
      rw [d.getLogFile_some]
      exact (located g rfl).congr rfl rfl
  | attempt d flushInterval env content =>
    cases live with
    | none => cases member
    | some g =>
      rw [← Option.some.inj member]
      obtain ⟨path, logName⟩ := d.writeOne_place warsaw flushInterval env g content
      exact (located g rfl).congr path logName
  | cleanUp now =>
    cases live with
    | none => cases member
    | some g =>
      have kept : (some g).filter (·.inUse now) = some f := member
      exact located f (Option.filter_eq_some_iff.mp kept).1

/-- A run of the worker from its start leads to this state. -/
def Reached (warsaw : DateTimeUtc → LocalDateTime) (w : OpLogWorker) : Prop :=
  ∃ disk events, w = (Machine.run (World.step warsaw) ⟨.new, disk⟩ events).1.worker

theorem located_of_reached {w : OpLogWorker} (reached : Reached warsaw w) {f : LogFile}
    (live : w.file? name key = some f) : Located name key f := by
  obtain ⟨disk, events, rfl⟩ := reached
  have file := congrArg Prod.fst (@World.run_opsOf warsaw name key ⟨.new, disk⟩ events)
  have routed : Machine.Allowed (FileOp.step warsaw) (fun _ op => Routed name key op) none
      (World.opsOf warsaw name key ⟨.new, disk⟩ events) :=
    Machine.allowed_of_forall _ _ fun op member _ => routed_opsOf _ events op member
  have placed := Machine.run_state_invariant (fun live => ∀ f ∈ live, Located name key f)
    (fun live op => located_step live op) none (fun f member => by cases member) _ routed
  exact placed f (file.trans live)

/-! ## The file an entry is written to -/

/-- The file in which `log` queues the entry is the one its route leads to. -/
def LiesAt (warsaw : DateTimeUtc → LocalDateTime) (w : OpLogWorker) (name : String)
    (date : DateTimeUtc) (text : String) (r : Route) : Prop :=
  ∀ now f, (w.log warsaw name date text now).file? name r.key = some f →
    f.diskPath = joined r.path r.logName

theorem liesAt_of_reached {w : OpLogWorker} (reached : Reached warsaw w) {d : LogDefinition}
    (stored : w.definitions.get? name = some d) (date : DateTimeUtc) (text : String) :
    LiesAt warsaw w name date text (d.route name (warsaw date) text) := by
  intro now f live
  have file := @OpLogWorker.file?_log_stored warsaw w ⟨name, text, date⟩ d now stored name
    (d.route name (warsaw date) text).key
  have queued := (file.trans (if_pos ⟨rfl, rfl⟩)).symm.trans live
  rw [← Option.some.inj queued, LogFile.diskPath]
  cases before : w.file? name (d.route name (warsaw date) text).key with
  | none => rfl
  | some g =>
    have there := located_of_reached reached before
    obtain ⟨path, logName⟩ := there.unique
      (@located_route d name (warsaw date) text { g with
        path := (d.route name (warsaw date) text).path
        logName := (d.route name (warsaw date) text).logName } rfl rfl)
    rw [LogDefinition.getLogFile_some]
    exact congrArg₂ joined path logName

/-- Two logs of different names with one path, of any types and options and in any state of
the worker: their entries go to one file on disk exactly if one log does not split and has the
name of the other one with the period of its entry behind it, and the other one keeps its
periods in the names of its files. -/
theorem names_share_file_iff (calendar : ∀ date, InCalendar (warsaw date)) {w : OpLogWorker}
    {name name' path : String} {logType logType' : OpLogType} {options options' : List OpLogOption}
    (registered : RegisteredAs w name path logType options)
    (registered' : RegisteredAs w name' path logType' options') (different : name ≠ name')
    (relative : '/' ∉ name.toList) (relative' : '/' ∉ name'.toList) (date date' : DateTimeUtc)
    (text text' : String) :
    ∃ r r', QueuedAt warsaw w name date text r ∧ QueuedAt warsaw w name' date' text' r' ∧
      (Reached warsaw w →
        LiesAt warsaw w name date text r ∧ LiesAt warsaw w name' date' text' r') ∧
      (joined r.path r.logName = joined r'.path r'.logName ↔
        NamedAsPeriod name logType name' logType' options' (warsaw date') ∨
          NamedAsPeriod name' logType' name logType options (warsaw date)) := by
  obtain ⟨d, stored, rfl, rfl, rfl⟩ := registered
  obtain ⟨d', stored', path, rfl, rfl⟩ := registered'
  refine ⟨_, _, queued_route warsaw stored date text, queued_route warsaw stored' date' text',
    fun reached => ⟨liesAt_of_reached reached stored date text,
      liesAt_of_reached reached stored' date' text'⟩, ?_⟩
  obtain ⟨place, base⟩ := route_place name (warsaw date) d text
  obtain ⟨place', base'⟩ := route_place name' (warsaw date') d' text'
  rw [place, base, place', base', path]
  exact place_eq_iff different (List.count_eq_zero.mpr relative) (List.count_eq_zero.mpr relative')
    (calendar date) (calendar date') d.path

end Runs

/-! ## Two names for one file -/

def second : DateTimeUtc → LocalDateTime := fun _ => ⟨2024, 1, 2, 3, 4, 5, 0⟩

/-- A log split by days, and one that has the name of its file of the second of January. -/
def clashing : OpLogWorker :=
  (OpLogWorker.new.define ⟨"app", .perDay, "", "logs", [], 0, false⟩ 0).define
    ⟨"app_2024_01_02", .noSplit, "", "logs", [], 0, false⟩ 0

theorem names_share_file :
    let w := (clashing.log second "app" 0 "one" 0).log second "app_2024_01_02" 0 "two" 0
    (w.file? "app" "logs/app_2024_01_02.log").map LogFile.diskPath =
        some "logs/app_2024_01_02.log" ∧
      (w.file? "app_2024_01_02" "logs/app_2024_01_02.log").map LogFile.diskPath =
        some "logs/app_2024_01_02.log" := by
  decide +kernel

theorem names_share_file_iff_clashing :
    ∃ r r', QueuedAt second clashing "app" 0 "one" r ∧
      QueuedAt second clashing "app_2024_01_02" 0 "two" r' ∧
      joined r.path r.logName = joined r'.path r'.logName := by
  have calendar (date : DateTimeUtc) : InCalendar (second date) := by
    unfold InCalendar second
    decide
  have registered : RegisteredAs clashing "app" "logs" .perDay [] :=
    ⟨{ lastTimeUse := 0, autoRemoveDefinition := false, header := "", path := "logs",
        flushInterval := 0, logType := .perDay, options := [], files := .empty }, rfl, rfl, rfl, rfl⟩
  have registered' : RegisteredAs clashing "app_2024_01_02" "logs" .noSplit [] :=
    ⟨{ lastTimeUse := 0, autoRemoveDefinition := false, header := "", path := "logs",
        flushInterval := 0, logType := .noSplit, options := [], files := .empty }, rfl, rfl, rfl, rfl⟩
  obtain ⟨r, r', queued, queued', -, shared⟩ := names_share_file_iff calendar registered registered'
    (by decide) (by decide) (by decide) 0 0 "one" "two"
  refine ⟨r, r', queued, queued', shared.mpr (Or.inr ?_)⟩
  decide +kernel

end OpLog.Guarantees.Naming
