import OpLog.Source.Worker

/-!
# `def`, `log` and the queue

`add_to_log.rs`. Time zones and calendars are chrono's: `warsaw` is
`with_timezone(&Warsaw)`, and a local time is what chrono's items print of it. Where the
source reads the clock several times while it handles one entry, `now` is all of them.
-/
namespace OpLog.Source
open Library

/-- The fields of a local time that the items below print; a leap second is second 60. -/
structure LocalDateTime where
  year : Int
  month : Nat
  day : Nat
  hour : Nat
  minute : Nat
  second : Nat
  nanosecond : Nat
  deriving DecidableEq, Repr

inductive Numeric where
  | year | month | day | hour | minute | second
  deriving DecidableEq, Repr

/-- chrono's items, every number padded with zeros. -/
inductive Item where
  | numeric (spec : Numeric)
  | literal (text : String)
  | space (text : String)
  | nanosecond3
  deriving DecidableEq, Repr

def TIME_IN_LOG : List Item :=
  [.numeric .hour, .literal ":", .numeric .minute, .literal ":", .numeric .second, .nanosecond3]

def DAY_AND_TIME_IN_LOG : List Item :=
  [.numeric .day, .space " ", .numeric .hour, .literal ":", .numeric .minute, .literal ":",
    .numeric .second, .nanosecond3]

def HOUR_IN_PATH : List Item :=
  [.numeric .year, .literal "_", .numeric .month, .literal "_", .numeric .day, .literal "_",
    .numeric .hour]

def DAY_IN_PATH : List Item :=
  [.numeric .year, .literal "_", .numeric .month, .literal "_", .numeric .day]

def MONTH_IN_PATH : List Item := [.numeric .year, .literal "_", .numeric .month]

def formatDateInLog : OpLogType → List Item
  | .noSplit => []
  | .perHour => TIME_IN_LOG
  | .perDay => TIME_IN_LOG
  | .perMonth => DAY_AND_TIME_IN_LOG

def formatDateInPath : OpLogType → List Item
  | .noSplit => []
  | .perHour => HOUR_IN_PATH
  | .perDay => DAY_IN_PATH
  | .perMonth => MONTH_IN_PATH

def QUEUE_MAX_BYTES : Nat := 8 * 1024 * 1024

/-- A number in decimal, with zeros in front up to `width` digits. -/
def padZero (width n : Nat) : String :=
  String.ofList (List.leftpad width '0' (Nat.toDigits 10 n))

/-- A year outside `0..=9999` is printed with its sign. -/
def Numeric.format (spec : Numeric) (date : LocalDateTime) : String :=
  match spec with
  | .year =>
    if 0 ≤ date.year ∧ date.year ≤ 9999 then padZero 4 date.year.toNat
    else (if date.year < 0 then "-" else "+") ++ padZero 4 date.year.natAbs
  | .month => padZero 2 date.month
  | .day => padZero 2 date.day
  | .hour => padZero 2 date.hour
  | .minute => padZero 2 date.minute
  | .second => padZero 2 date.second

def Item.format (date : LocalDateTime) : Item → String
  | .numeric spec => spec.format date
  | .literal text => text
  | .space text => text
  | .nanosecond3 => "." ++ padZero 3 (date.nanosecond / 1000000)

/-- The text `write_date` appends. -/
def writeDate (date : LocalDateTime) (format : List Item) : String :=
  String.join (format.map (Item.format date))

/-- `char::is_whitespace`: the Unicode property White_Space. -/
def isWhitespace (c : Char) : Bool :=
  let n := c.toNat
  (9 ≤ n ∧ n ≤ 13) ∨ n = 0x20 ∨ n = 0x85 ∨ n = 0xa0 ∨ n = 0x1680 ∨ (0x2000 ≤ n ∧ n ≤ 0x200a) ∨
    n = 0x2028 ∨ n = 0x2029 ∨ n = 0x202f ∨ n = 0x205f ∨ n = 0x3000

/-- `str::trim`. -/
def trim (text : String) : String :=
  String.ofList ((text.toList.dropWhile isWhitespace).reverse.dropWhile isWhitespace).reverse

def formatEntry (logType : OpLogType) (noDate : Bool) (date : LocalDateTime) (text : String) :
    String :=
  let dateFormat := formatDateInLog logType
  if dateFormat.isEmpty || noDate then trim text
  else writeDate date dateFormat ++ " " ++ text

/-! ## Registering a definition -/

/-- An occupied entry keeps its files and its `last_time_use`. -/
def OpLogWorker.define (w : OpLogWorker) (d : OpLogDefinition) (now : Instant) : OpLogWorker :=
  let stored : LogDefinition :=
    match w.definitions.get? d.logName with
    | some file =>
      { file with
        path := d.path
        logType := d.logType
        options := d.options
        flushInterval := d.flushInterval
        header := d.header
        autoRemoveDefinition := d.autoRemoveDefinition }
    | none =>
      { lastTimeUse := now
        autoRemoveDefinition := d.autoRemoveDefinition
        path := d.path
        flushInterval := d.flushInterval
        logType := d.logType
        options := d.options
        header := d.header
        files := .empty }
  { w with definitions := w.definitions.insert d.logName stored }

/-! ## Queueing an entry -/

/-- Where an entry goes, and the entry as it is queued. -/
structure Route where
  logName : String
  path : String
  entry : String
  deriving DecidableEq, Repr

/-- The key of a file in its definition's map. -/
def Route.key (r : Route) : String := r.path ++ "/" ++ r.logName

def LogDefinition.route (d : LogDefinition) (logName : String) (date : LocalDateTime)
    (log : String) : Route :=
  let noDate := d.options.contains .noAddDateToLog
  let entry := formatEntry d.logType noDate date log
  let dateInPathFormat := formatDateInPath d.logType
  if dateInPathFormat.isEmpty then
    { logName := logName ++ ".log", path := d.path, entry }
  else if d.options.contains .useSubDirectories then
    { logName := logName ++ ".log", path := d.path ++ "/" ++ writeDate date dateInPathFormat, entry }
  else
    { logName := logName ++ "_" ++ writeDate date dateInPathFormat ++ ".log", path := d.path, entry }

/-- The file as `get_log_file` returns it, from the entry under its key. -/
def LogDefinition.getLogFile (d : LogDefinition) (entry : Option LogFile) (logName path : String)
    (now : Instant) : LogFile :=
  match entry with
  | some file => if file.header ≠ d.header then { file with header := d.header } else file
  | none =>
    { lastTimeUse := now
      timeOfFirstAdditionOfLogAfterWrite := none
      logName
      path
      header := d.header
      logs := []
      queuedBytes := 0
      droppedLogs := 0
      writeErrorLogged := false
      tailVerified := false }

/-- The cap loop: the oldest entries go, the last one always stays. -/
def dropOldest : List String → Nat → Nat → List String × Nat × Nat
  | dropped :: next :: logs, queuedBytes, droppedLogs =>
    if queuedBytes > QUEUE_MAX_BYTES then
      dropOldest (next :: logs) (queuedBytes - byteLen dropped) (droppedLogs + 1)
    else (dropped :: next :: logs, queuedBytes, droppedLogs)
  | logs, queuedBytes, droppedLogs => (logs, queuedBytes, droppedLogs)

/-- `add_to_log` behind `get_log_file`. -/
def LogFile.addToLog (file : LogFile) (log : String) (now : Instant) : LogFile :=
  match dropOldest (file.logs ++ [log]) (file.queuedBytes + byteLen log) file.droppedLogs with
  | (logs, queuedBytes, droppedLogs) =>
    { file with
      lastTimeUse := now
      timeOfFirstAdditionOfLogAfterWrite :=
        some (file.timeOfFirstAdditionOfLogAfterWrite.getD now)
      logs
      queuedBytes
      droppedLogs }

def LogDefinition.addToLog (d : LogDefinition) (logName path log : String) (now : Instant) :
    LogDefinition :=
  let fileName := path ++ "/" ++ logName
  let logFile := d.getLogFile (d.files.get? fileName) logName path now
  { d with files := d.files.insert fileName (logFile.addToLog log now) }

def OpLogWorker.log (warsaw : DateTimeUtc → LocalDateTime) (w : OpLogWorker) (logName : String)
    (date : DateTimeUtc) (log : String) (now : Instant) : OpLogWorker :=
  match w.definitions.get? logName with
  | none => w
  | some d =>
    let d := { d with lastTimeUse := now }
    let r := d.route logName (warsaw date) log
    { w with definitions := w.definitions.insert logName (d.addToLog r.logName r.path r.entry now) }

/-! ## What an addition does -/

/-- An entry that is there only takes the definition's header over. -/
theorem LogDefinition.getLogFile_some (d : LogDefinition) (file : LogFile) (logName path : String)
    (now : Instant) :
    d.getLogFile (some file) logName path now = { file with header := d.header } := by
  unfold LogDefinition.getLogFile
  dsimp only
  split
  · rfl
  · rename_i same
    rw [← not_not.mp same]

/-- The loop drops the first `n` entries and counts them; what is left is not empty. -/
theorem dropOldest_spec (logs : List String) (queuedBytes droppedLogs : Nat) (some_left : logs ≠ []) :
    ∃ n, n < logs.length ∧ (dropOldest logs queuedBytes droppedLogs).1 = logs.drop n ∧
      (dropOldest logs queuedBytes droppedLogs).2.2 = droppedLogs + n := by
  induction logs generalizing queuedBytes droppedLogs with
  | nil => exact absurd rfl some_left
  | cons dropped logs ih =>
    cases logs with
    | nil => exact ⟨0, Nat.one_pos, rfl, rfl⟩
    | cons next logs =>
      unfold dropOldest
      split
      · obtain ⟨n, bound, rest, count⟩ :=
          ih (queuedBytes - byteLen dropped) (droppedLogs + 1) (by simp)
        refine ⟨n + 1, by simpa using bound, rest, ?_⟩
        rw [count]
        omega
      · exact ⟨0, Nat.succ_pos _, rfl, rfl⟩

/-- Adding an entry queues it at the back and moves the `n` oldest entries to the count. -/
theorem LogFile.addToLog_spec (file : LogFile) (log : String) (now : Instant) :
    ∃ n, n ≤ file.logs.length ∧ (file.addToLog log now).logs = (file.logs ++ [log]).drop n ∧
      (file.addToLog log now).droppedLogs = file.droppedLogs + n := by
  obtain ⟨n, bound, rest, count⟩ := dropOldest_spec (file.logs ++ [log])
    (file.queuedBytes + byteLen log) file.droppedLogs (by simp)
  exact ⟨n, by simpa [Nat.lt_succ_iff] using bound, rest, count⟩

/-- The entry just added always survives. -/
theorem LogFile.addToLog_last (file : LogFile) (log : String) (now : Instant) :
    (file.addToLog log now).logs.getLast? = some log := by
  obtain ⟨n, bound, rest, -⟩ := file.addToLog_spec log now
  rw [rest, List.drop_append_of_le_length bound, List.getLast?_concat]

theorem LogFile.addToLog_ne_nil (file : LogFile) (log : String) (now : Instant) :
    (file.addToLog log now).logs ≠ [] := by
  intro empty
  have last := file.addToLog_last log now
  rw [empty] at last
  cases last

end OpLog.Source
