import OpLog.Format.Dates
import OpLog.Source.PerFile

/-!
# File and timestamp date an entry

The date of an entry is printed in two parts: the period in the path or the name of its file,
the rest in front of the text. Each definition that splits its log and stamps its entries lets
both be read back: the file key determines the period, and the key with the stored entry
determines the local time to the millisecond and the text.
-/
namespace OpLog.Guarantees.Dating
open Library Source Format

/-! ## Where an entry goes -/

/-- A definition with this path, split type and options is stored under the name. -/
def RegisteredAs (w : OpLogWorker) (name path : String) (logType : OpLogType)
    (options : List OpLogOption) : Prop :=
  ∃ d, w.definitions.get? name = some d ∧ d.path = path ∧ d.logType = logType ∧ d.options = options

/-- `log` queues the entry behind the others of one file, and touches no other file. -/
def QueuedAt (warsaw : DateTimeUtc → LocalDateTime) (w : OpLogWorker) (name : String)
    (date : DateTimeUtc) (text : String) (r : Route) : Prop :=
  w.routeOf warsaw ⟨name, text, date⟩ = some r ∧ ∀ now,
    (∃ f, (w.log warsaw name date text now).file? name r.key = some f ∧
      f.logs.getLast? = some r.entry) ∧
    ∀ name' key', ¬ (name' = name ∧ key' = r.key) →
      (w.log warsaw name date text now).file? name' key' = w.file? name' key'

theorem queued_route (warsaw : DateTimeUtc → LocalDateTime) {w : OpLogWorker} {name : String}
    {d : LogDefinition} (stored : w.definitions.get? name = some d) (date : DateTimeUtc)
    (text : String) : QueuedAt warsaw w name date text (d.route name (warsaw date) text) := by
  constructor
  · unfold OpLogWorker.routeOf
    rw [stored]
    rfl
  · intro now
    have logged := @OpLogWorker.file?_log_stored warsaw w ⟨name, text, date⟩ d now stored
    constructor
    · have there := (logged name (d.route name (warsaw date) text).key).trans (if_pos ⟨rfl, rfl⟩)
      exact ⟨_, there, LogFile.addToLog_last _ _ _⟩
    · intro name' key' other
      exact (logged name' key').trans (if_neg other)

/-- Only these settings of a definition matter for its routes. -/
theorem route_congr {d d' : LogDefinition} (path : d'.path = d.path)
    (logType : d'.logType = d.logType) (options : d'.options = d.options) (name : String)
    (date : LocalDateTime) (text : String) : d'.route name date text = d.route name date text := by
  unfold LogDefinition.route
  rw [path, logType, options]

/-! ## Reading it back -/

/-- The file key says the period, in either layout. -/
theorem key_eq_iff {d : LogDefinition} (split : d.logType ≠ .noSplit) (name : String)
    (date date' : LocalDateTime) (text text' : String) :
    (d.route name date text).key = (d.route name date' text').key ↔
      ∀ item ∈ formatDateInPath d.logType, Agree date date' item := by
  have some_items := (items_of_split split).1
  rw [← writeDate_eq_iff (delimited_in_path d.logType)]
  unfold LogDefinition.route Route.key
  simp only [some_items, Bool.false_eq_true, if_false]
  split
  · simp only [String.append_left_inj, String.append_right_inj]
  · simp only [String.append_left_inj, String.append_right_inj]

/-- A stamped entry says the rest of the time, and the text. -/
theorem entry_eq_iff {d : LogDefinition} (split : d.logType ≠ .noSplit)
    (dated : OpLogOption.noAddDateToLog ∉ d.options) (name : String)
    (date date' : LocalDateTime) (text text' : String) :
    (d.route name date text).entry = (d.route name date' text').entry ↔
      (∀ item ∈ formatDateInLog d.logType, Agree date date' item) ∧ text = text' := by
  have some_items := (items_of_split split).2
  have stamped : d.options.contains .noAddDateToLog = false := by simpa using dated
  have entry (date : LocalDateTime) (text : String) : (d.route name date text).entry =
      writeDate date (formatDateInLog d.logType) ++ " " ++ text := by
    have formatted : (d.route name date text).entry = formatEntry d.logType false date text := by
      unfold LogDefinition.route
      rw [stamped]
      dsimp only
      split
      · rfl
      · split <;> rfl
    rw [formatted, formatEntry, some_items]
    rfl
  rw [entry, entry]
  constructor
  · intro same
    have chars := congrArg String.toList same
    simp only [String.toList_append, List.append_assoc] at chars
    have plain (text : String) : Plain (" ".toList ++ text.toList) := by
      intro c member
      rw [← Option.some.inj member]
      rfl
    obtain ⟨agree, texts⟩ :=
      writeDate_inj (delimited_in_log d.logType) (plain text) (plain text') chars
    exact ⟨agree, String.toList_inj.mp (List.append_cancel_left texts)⟩
  · rintro ⟨agree, rfl⟩
    rw [writeDate_congr agree]

/-! ## The date -/

/-- The local times are in one period of the split type. -/
def SamePeriod (logType : OpLogType) (date date' : LocalDateTime) : Prop :=
  match logType with
  | .noSplit => True
  | .perHour => date.year = date'.year ∧ date.month = date'.month ∧ date.day = date'.day ∧
      date.hour = date'.hour
  | .perDay => date.year = date'.year ∧ date.month = date'.month ∧ date.day = date'.day
  | .perMonth => date.year = date'.year ∧ date.month = date'.month

def SameMillisecond (date date' : LocalDateTime) : Prop :=
  date.year = date'.year ∧ date.month = date'.month ∧ date.day = date'.day ∧
    date.hour = date'.hour ∧ date.minute = date'.minute ∧ date.second = date'.second ∧
    date.nanosecond / 1000000 = date'.nanosecond / 1000000

theorem agree_in_path_iff (logType : OpLogType) (date date' : LocalDateTime) :
    (∀ item ∈ formatDateInPath logType, Agree date date' item) ↔ SamePeriod logType date date' := by
  cases logType <;>
    simp [formatDateInPath, HOUR_IN_PATH, DAY_IN_PATH, MONTH_IN_PATH, SamePeriod]

/-- Whatever the split type, each field stands in one of the two formats at least. -/
theorem agree_in_both_iff {logType : OpLogType} (split : logType ≠ .noSplit)
    (date date' : LocalDateTime) :
    (∀ item ∈ formatDateInPath logType, Agree date date' item) ∧
        (∀ item ∈ formatDateInLog logType, Agree date date' item) ↔
      SameMillisecond date date' := by
  rw [agree_in_path_iff]
  unfold SamePeriod SameMillisecond formatDateInLog
  cases logType with
  | noSplit => exact absurd rfl split
  | perHour =>
    simp only [TIME_IN_LOG, List.forall_mem_cons, agree_hour, agree_minute, agree_second,
      agree_literal, agree_nanosecond3, List.not_mem_nil, IsEmpty.forall_iff, implies_true]
    tauto
  | perDay =>
    simp only [TIME_IN_LOG, List.forall_mem_cons, agree_hour, agree_minute, agree_second,
      agree_literal, agree_nanosecond3, List.not_mem_nil, IsEmpty.forall_iff, implies_true]
    tauto
  | perMonth =>
    simp only [DAY_AND_TIME_IN_LOG, List.forall_mem_cons, agree_day, agree_hour, agree_minute,
      agree_second, agree_literal, agree_space, agree_nanosecond3, List.not_mem_nil,
      IsEmpty.forall_iff, implies_true]
    tauto

section Warsaw
variable (warsaw : DateTimeUtc → LocalDateTime)

/-- Two entries under one name, whatever was logged between them: they are in one file exactly
if their local dates are in one period, and stored alike in it exactly if their local times
are the same to the millisecond and their texts are the same. -/
theorem file_and_timestamp_date {w w' : OpLogWorker} {name path : String} {logType : OpLogType}
    {options : List OpLogOption} (registered : RegisteredAs w name path logType options)
    (registered' : RegisteredAs w' name path logType options) (split : logType ≠ .noSplit)
    (dated : OpLogOption.noAddDateToLog ∉ options) (date date' : DateTimeUtc)
    (text text' : String) :
    ∃ r r', QueuedAt warsaw w name date text r ∧ QueuedAt warsaw w' name date' text' r' ∧
      (r.key = r'.key ↔ SamePeriod logType (warsaw date) (warsaw date')) ∧
      (r.key = r'.key ∧ r.entry = r'.entry ↔
        SameMillisecond (warsaw date) (warsaw date') ∧ text = text') := by
  obtain ⟨d, stored, rfl, rfl, rfl⟩ := registered
  obtain ⟨d', stored', path, logType, options⟩ := registered'
  refine ⟨_, _, queued_route warsaw stored date text, queued_route warsaw stored' date' text', ?_⟩
  rw [route_congr path logType options, key_eq_iff split, entry_eq_iff split dated, ← and_assoc,
    agree_in_both_iff split, agree_in_path_iff]
  exact ⟨Iff.rfl, Iff.rfl⟩

/-- An hourly log in directories of its own, over an hour's end. -/
theorem file_and_timestamp_date_hourly :
    ∃ r r', QueuedAt (fun utc => ⟨2024, 1, 2, utc.toNat / 3600, 0, 0, 0⟩)
        (OpLogWorker.new.define ⟨"app", .perHour, "", "logs", [.useSubDirectories], 0, false⟩ 0)
        "app" 3599 "one" r ∧
      QueuedAt (fun utc => ⟨2024, 1, 2, utc.toNat / 3600, 0, 0, 0⟩)
        (OpLogWorker.new.define ⟨"app", .perHour, "", "logs", [.useSubDirectories], 0, false⟩ 0)
        "app" 3600 "one" r' ∧ r.key ≠ r'.key := by
  have registered : RegisteredAs
      (OpLogWorker.new.define ⟨"app", .perHour, "", "logs", [.useSubDirectories], 0, false⟩ 0)
      "app" "logs" .perHour [.useSubDirectories] := ⟨_, rfl, rfl, rfl, rfl⟩
  obtain ⟨r, r', queued, queued', period, -⟩ := file_and_timestamp_date
    (fun utc => ⟨2024, 1, 2, utc.toNat / 3600, 0, 0, 0⟩) registered registered (by decide)
    (by decide) 3599 3600 "one" "one"
  refine ⟨r, r', queued, queued', fun same => ?_⟩
  exact absurd (period.mp same).2.2.2 (by decide)

end Warsaw
end OpLog.Guarantees.Dating
