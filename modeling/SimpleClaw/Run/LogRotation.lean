import Mathlib.Data.List.AList
import Mathlib.Data.List.Sort
import SimpleClaw.Lib.Runs
import SimpleClaw.Lib.Text

/-!
# The rotating log

The service writes two logs, each to a file of its own.  On the first write of a new day the file
is renamed to the day it was written on, and all but the latest of these daily files are removed;
when the service starts, the same is done with a file that another process has left.  Every call of
the file system can fail, and then what was done so far stays as it is.

Days are of any ordered type, and how the library writes and reads them is a parameter.  There is
one process at a time, and its clock does not go back; the day on which the bytes are written may be
later than the one the writer has looked at.

* `rotateActiveLogToDay`, `pruneDailyLogs`, `rotateIfNeeded`: the operations on the directory.
* `LogState.step`: the starts of writers, their writes, and the end of the process.
* `collectLogHistory`, `showLogs`: what is read back.
-/

namespace SimpleClaw
namespace Logging

open Transition

/-! ## Files and their names -/

abbrev Bytes := List UInt8

structure LogFile (Day : Type) where
  content : Bytes
  modifiedDay : Day

/-- The directory of the logs. -/
abbrev LogDir (Day : Type) := AList fun _ : Text => LogFile Day

/-- How a day is written in the name of a file, and read there. -/
structure DayFormat (Day : Type) where
  format : Day → Text
  parseFromStr : Text → Option Day
  parse_format : ∀ day, parseFromStr (format day) = some day

/-- The logs: the readable one, and the one with an object in each line. -/
inductive Log where
  | service
  | json
  deriving DecidableEq

def Log.baseName : Log → Text
  | .service => "service.log"
  | .json => "service.jsonl"

/-- The calls of the file system that can fail. -/
inductive FsCall where
  | openActive
  | metadata
  | modified
  | flush
  | openSource
  | openTarget
  | copy
  | removeSource
  | rename
  | readDir
  | reopen
  | write
  deriving DecidableEq

/-- How the file system answers: what fails, how much a failing copy has copied, what cannot be
removed, and in which order a directory is read. -/
structure FsAnswers where
  fails : FsCall → Bool
  copied : Nat
  unremovable : Text → Bool
  order : Text → Nat

/-- The directory afterwards, or the directory as a failed call has left it. -/
abbrev FsResult (Day : Type) := Except (LogDir Day) (LogDir Day)

section Operations

variable {Day : Type} [LinearOrder Day] (format : DayFormat Day) (fs : FsAnswers) (log : Log)

def datedLogPath (day : Day) : Text := log.baseName ++ ("." : Text) ++ format.format day

/-- The day of a daily file of the log, if it is one. -/
def dailyDay (name : Text) : Option Day :=
  (name.stripPrefix (log.baseName ++ ("." : Text))).bind format.parseFromStr

/-- The names in the directory, in the order the system lists them. -/
def readDir (dir : LogDir Day) : List Text :=
  dir.keys.insertionSort fun a b => fs.order a ≤ fs.order b

def listDailyLogFiles (dir : LogDir Day) : List (Day × Text) :=
  (readDir fs dir).filterMap fun name => (dailyDay format log name).map fun day => (day, name)

/-- Sorted by day; files of one day stay in the order they were listed in. -/
def sortedDailyLogFiles (dir : LogDir Day) : List (Day × Text) :=
  (listDailyLogFiles format fs log dir).insertionSort fun a b => a.1 ≤ b.1

/-- Opened for appending, and created if it is not there. -/
def openAppend (name : Text) (today : Day) (dir : LogDir Day) : LogDir Day :=
  if name ∈ dir then dir else dir.insert name ⟨[], today⟩

def rotateActiveLogToDay (day today : Day) (dir : LogDir Day) : FsResult Day :=
  match dir.lookup log.baseName with
  | none => .ok dir
  | some active =>
      let target := datedLogPath format log day
      match dir.lookup target with
      | some old =>
          if fs.fails .openSource || fs.fails .openTarget then .error dir
          else if fs.fails .copy then
            .error (dir.insert target ⟨old.content ++ active.content.take fs.copied, today⟩)
          else
            let dir := dir.insert target ⟨old.content ++ active.content, today⟩
            if fs.fails .removeSource then .error dir else .ok (dir.erase log.baseName)
      | none =>
          if fs.fails .rename then .error dir
          else .ok ((dir.erase log.baseName).insert target active)

/-- A removal that fails is passed over. -/
def removeFile (dir : LogDir Day) (name : Text) : LogDir Day :=
  if fs.unremovable name then dir else dir.erase name

def pruneDailyLogs (retainDailyFiles : Nat) (dir : LogDir Day) : FsResult Day :=
  if fs.fails .readDir then .error dir
  else
    let dailyLogs := sortedDailyLogFiles format fs log dir
    if dailyLogs.length ≤ retainDailyFiles then .ok dir
    else
      .ok (((dailyLogs.take (dailyLogs.length - retainDailyFiles)).map Prod.snd).foldl
        (removeFile fs) dir)

def rotateStaleActiveLogIfNeeded (today : Day) (dir : LogDir Day) : FsResult Day :=
  match dir.lookup log.baseName with
  | none => .ok dir
  | some active =>
      if fs.fails .metadata then .error dir
      else if active.content = [] then .ok dir
      else if fs.fails .modified then .error dir
      else if active.modifiedDay < today then
        rotateActiveLogToDay format fs log active.modifiedDay today dir
      else .ok dir

/-- `RotatingLogWriter::new` -/
def newWriter (retainDailyFiles : Nat) (today : Day) (dir : LogDir Day) : FsResult Day :=
  if fs.fails .openActive then .error dir
  else
    (rotateStaleActiveLogIfNeeded format fs log today
        (openAppend log.baseName today dir)).bind fun dir =>
      (pruneDailyLogs format fs log retainDailyFiles dir).bind fun dir =>
        if fs.fails .reopen then .error dir else .ok (openAppend log.baseName today dir)

def rotateIfNeeded (retainDailyFiles : Nat) (currentDay today : Day) (dir : LogDir Day) :
    FsResult Day :=
  if today = currentDay then .ok dir
  else if fs.fails .flush then .error dir
  else
    (rotateActiveLogToDay format fs log currentDay today dir).bind fun dir =>
      (pruneDailyLogs format fs log retainDailyFiles dir).bind fun dir =>
        if fs.fails .reopen then .error dir else .ok (openAppend log.baseName today dir)

/-- `collect_log_history`: the names, the active file last. -/
def collectLogHistory (dir : LogDir Day) : List Text :=
  (sortedDailyLogFiles format fs log dir).map Prod.snd ++
    if log.baseName ∈ dir then [log.baseName] else []

/-- What `show_logs` prints, without following. -/
def showLogs (dir : LogDir Day) : Bytes :=
  (collectLogHistory format fs log dir).flatMap fun name =>
    ((dir.lookup name).map LogFile.content).getD []

end Operations

/-! ## The process -/

/-- The directory, the day each writer of the running process is at, the clock, and what the
writers have been given and accepted. -/
structure LogState (Day : Type) where
  dir : LogDir Day
  currentDay : Log → Option Day
  now : Day
  accepted : Log → Bytes

/-- The bytes of a write are those that it writes. -/
inductive LogAction (Day : Type) where
  | start (log : Log) (today : Day) (fs : FsAnswers)
  | write (log : Log) (bytes : Bytes) (today written : Day) (fs : FsAnswers)
  | exit

namespace LogState

variable {Day : Type} [LinearOrder Day] (format : DayFormat Day) (retainDailyFiles : Nat)

def start (dir : LogDir Day) (now : Day) : LogState Day where
  dir := dir
  currentDay := fun _ => none
  now := now
  accepted := fun _ => []

/-- Bytes at the end of the active file, which is the one that is open: a writer that has moved it
away and failed before it could open the next one does not write until it has. -/
def append (log : Log) (bytes : Bytes) (written : Day) (dir : LogDir Day) : LogDir Day :=
  match dir.lookup log.baseName with
  | none => dir
  | some active => dir.insert log.baseName ⟨active.content ++ bytes, written⟩

/-- One step of the process.  A writer that fails to start ends the process; a write that fails has
written nothing. -/
def step (s : LogState Day) : LogAction Day → Option (LogState Day)
  | .start log today fs =>
      if s.now ≤ today ∧ s.currentDay log = none then
        match newWriter format fs log retainDailyFiles today s.dir with
        | .error dir => some { s with dir, now := today, currentDay := fun _ => none }
        | .ok dir =>
            some { s with
              dir
              now := today
              currentDay := Function.update s.currentDay log (some today) }
      else none
  | .write log bytes today written fs =>
      match s.currentDay log with
      | none => none
      | some currentDay =>
          if s.now ≤ today ∧ today ≤ written then
            match rotateIfNeeded format fs log retainDailyFiles currentDay today s.dir with
            | .error dir => some { s with dir, now := written }
            | .ok dir =>
                let s := { s with
                  dir
                  now := written
                  currentDay := Function.update s.currentDay log (some today) }
                if fs.fails .write then some s
                else
                  some { s with
                    dir := append log bytes written dir
                    accepted := Function.update s.accepted log (s.accepted log ++ bytes) }
          else none
  | .exit => some { s with currentDay := fun _ => none }

end LogState

end Logging
end SimpleClaw
