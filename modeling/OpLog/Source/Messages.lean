/-!
# Messages and clocks

`messages.rs`, with the two kinds of time the worker reads: `Instant` (the monotonic
clock, nanoseconds since some origin) and `DateTimeUtc` (the calendar clock,
nanoseconds since the epoch). The reply channel of `GetInfoAndFlush` is left out: what
the worker sends into it is an output of the step that handles the message.
-/
namespace OpLog.Source

abbrev Instant := Nat
abbrev Duration := Nat
abbrev DateTimeUtc := Int

def Duration.fromSecs (secs : Nat) : Duration := secs * 1000000000

def Duration.fromMillis (millis : Nat) : Duration := millis * 1000000

/-- `Instant::elapsed`, read at `now`; it saturates at zero. -/
def Instant.elapsed (t now : Instant) : Duration := now - t

structure OpLogInfo where
  numberOfDefinitions : Nat
  numberOfLogs : Nat
  deriving DecidableEq, Repr

inductive OpLogType where
  | noSplit | perHour | perDay | perMonth
  deriving DecidableEq, Repr

inductive OpLogOption where
  | noAddDateToLog | useSubDirectories
  deriving DecidableEq, Repr

/-- `options` is a set in the source; only membership in it is ever asked for. -/
structure OpLogDefinition where
  logName : String
  logType : OpLogType
  header : String
  path : String
  options : List OpLogOption
  flushInterval : Duration
  autoRemoveDefinition : Bool
  deriving DecidableEq, Repr

structure OpLogData where
  logName : String
  log : String
  date : DateTimeUtc
  deriving DecidableEq, Repr

structure OpLogBundle where
  definitions : List OpLogDefinition
  logs : List OpLogData
  deriving DecidableEq, Repr

structure OpLogCleanUpDefinition where
  path : String
  deleteAfterDays : Nat
  deriving DecidableEq, Repr

inductive OpLogMessage where
  | flush
  | getInfoAndFlush
  | stopService
  | logBundle (bundle : OpLogBundle)
  | logDefinition (definition : OpLogDefinition)
  | log (data : OpLogData)
  | cleanUpRemoveAllDefinitions
  | cleanUpDefinition (definition : OpLogCleanUpDefinition)
  | cleanUpBundle (bundle : List OpLogCleanUpDefinition)
  deriving DecidableEq, Repr

end OpLog.Source
