import Mathlib.Logic.Function.Basic
import SimpleClaw.Lib.Text

/-!
# Starting and stopping the service

`system start` launches the service in the background and writes its number to the pid file;
`system stop` reads the number, asks the process to end, and forces it when it does not; `restart`
is the one after the other, and `status` only looks.  Every call of the system is a step, so
processes come and go between any two of them, and a command can be cut off.

Whether a process is there is found out with `kill -0`, which cannot tell the service from another
process that has been given its number.

* `parseU32`, `readPid`: what the pid file says, with `readPid_pidText`.
* `State.step`: the commands, and what the processes do meanwhile.
-/

namespace SimpleClaw
namespace Daemon

/-! ## The pid file -/

/-- `u32::MAX` -/
def u32Max : Nat := 4294967295

def unsigned : Text → Text
  | '+' :: digits => digits
  | text => text

/-- How a number is read: digits, after a plus or none, and not too large. -/
def parseU32 (text : Text) : Option Nat :=
  let digits := unsigned text
  if digits ≠ [] ∧ digits.all Char.isDigit then
    let value := Nat.ofDigitChars 10 digits 0
    if value ≤ u32Max then some value else none
  else none

/-- Why a command gives up. -/
inductive Failure where
  | readPidFile
  | parsePidFile
  | removeStale
  | launch
  | writePidFile
  | sendStop
  | forceStop
  | didNotStop
  deriving DecidableEq

def Failure.message : Failure → Text
  | .readPidFile => "failed to read pid file"
  | .parsePidFile => "failed to parse pid file content"
  | .removeStale => "failed to remove stale pid file"
  | .launch => "failed to launch background service"
  | .writePidFile => "failed to write pid file"
  | .sendStop => "failed to send stop signal"
  | .forceStop => "failed to force stop service"
  | .didNotStop => "service did not stop after termination attempts"

/-- A file that is not there names no process. -/
def readPid (readable : Bool) : Option Text → Except Failure (Option Nat)
  | none => .ok none
  | some raw =>
      if readable then
        match parseU32 raw.trim with
        | some pid => .ok (some pid)
        | none => .error .parsePidFile
      else .error .readPidFile

/-- What `start` writes to the file. -/
def pidText (pid : Nat) : Text := Text.decimal pid ++ ("\n" : Text)

theorem pidText_injective : Function.Injective pidText := by
  intro pid pid' h
  exact Text.decimal_injective (List.append_cancel_right h)

theorem isDigit_of_mem_decimal {n : Nat} {c : Char} (h : c ∈ Text.decimal n) :
    c.isDigit = true :=
  Nat.isDigit_of_mem_toDigits (by decide) (by decide) h

theorem unsigned_decimal (n : Nat) : unsigned (Text.decimal n) = Text.decimal n := by
  unfold unsigned
  split
  · rename_i digits heq
    have hplus : ('+' : Char).isDigit = true := isDigit_of_mem_decimal (heq ▸ List.mem_cons_self)
    exact absurd hplus (by decide)
  · rfl

theorem parseU32_decimal {pid : Nat} (h : pid ≤ u32Max) :
    parseU32 (Text.decimal pid) = some pid := by
  have hvalue : Nat.ofDigitChars 10 (Text.decimal pid) 0 = pid := Nat.ofDigitChars_ten_toDigits
  have hall : (Text.decimal pid).all Char.isDigit = true :=
    List.all_eq_true.mpr fun c hc => isDigit_of_mem_decimal hc
  rw [parseU32, unsigned_decimal]
  simp only [hvalue]
  rw [if_pos ⟨Text.decimal_ne_nil pid, hall⟩, if_pos h]

theorem isWhiteSpace_of_isDigit {c : Char} (h : c.isDigit = true) :
    Text.isWhiteSpace c = false := by
  have hrange : 48 ≤ c.toNat ∧ c.toNat ≤ 57 := by
    simpa [Char.isDigit, UInt32.le_iff_toNat_le] using h
  simp only [Text.isWhiteSpace, Bool.or_eq_false_iff, Bool.and_eq_false_iff, beq_eq_false_iff_ne,
    decide_eq_false_iff_not]
  omega

theorem trim_pidText (pid : Nat) : (pidText pid).trim = Text.decimal pid := by
  have hafter : ∀ c ∈ ("\n" : Text), Text.isWhiteSpace c = true :=
    Text.forall_mem_of_all (by decide)
  have hnone : ∀ c ∈ ([] : Text), Text.isWhiteSpace c = true := fun c hc => absurd hc (by simp)
  calc
    (pidText pid).trim = (Text.decimal pid).trim :=
      Text.trimMatches_append hnone hafter (Text.decimal pid)
    _ = Text.decimal pid :=
      Text.trim_of_forall_not fun c hc => isWhiteSpace_of_isDigit (isDigit_of_mem_decimal hc)

/-- **What is written to the pid file is read back.** -/
theorem readPid_pidText {pid : Nat} (h : pid ≤ u32Max) :
    readPid true (some (pidText pid)) = .ok (some pid) := by
  rw [readPid, if_pos rfl, trim_pidText, parseU32_decimal h]

/-! ## The commands -/

/-- A process is a service that `start` has launched, or something else: a service that was run in
the foreground is none that the pid file could name. -/
inductive Process where
  | service
  | other
  deriving DecidableEq

/-- The signals of `terminate_process` and `force_kill_process`. -/
inductive Signal where
  | term
  | kill
  deriving DecidableEq

/-- A signal, with what had the number when it was sent. -/
structure Sent where
  signal : Signal
  pid : Nat
  target : Option Process

/-- The actions of `simpleclaw system`, and `simpleclaw status`. -/
inductive ServiceCommand where
  | start
  | stop
  | restart
  | status
  deriving DecidableEq

/-- The function that is under way. -/
inductive Routine where
  | startService
  | stopService
  | showStatus
  deriving DecidableEq

/-- How it came that the pid file is to be removed by `stop`. -/
inductive Gone where
  | stale
  | asked
  | forced
  deriving DecidableEq

/-- What a command prints first when it has succeeded. -/
inductive Report where
  | alreadyRunning (pid : Nat)
  | started (pid : Nat)
  | notRunning
  | gone (how : Gone)
  | running (pid : Nat)
  | stale (pid : Nat)
  | stopped

def Report.line : Report → Text
  | .alreadyRunning pid =>
      ("service already running (pid " : Text) ++ Text.decimal pid ++ (")" : Text)
  | .started pid => ("service started (pid " : Text) ++ Text.decimal pid ++ (")" : Text)
  | .notRunning => "service is not running"
  | .gone .stale => "service is not running (removed stale pid file)"
  | .gone .asked => "service stopped"
  | .gone .forced => "service stopped (forced)"
  | .running _ => "status: running"
  | .stale _ => "status: stopped (stale pid file)"
  | .stopped => "status: stopped"

/-- The next call of the system, or none when the command has ended. -/
inductive Phase where
  | readPid
  | check (pid : Nat)
  | removeStale
  | spawn
  | writePid (pid : Nat)
  | terminate (pid : Nat)
  | waitForExit (pid polls : Nat) (forced : Bool)
  | forceKill (pid : Nat)
  | discard (how : Gone)
  | done
  deriving DecidableEq

/-- A command; `starts` is set while `restart` is still stopping. -/
structure Call where
  routine : Routine
  starts : Bool
  phase : Phase

def ServiceCommand.begin : ServiceCommand → Call
  | .start => ⟨.startService, false, .readPid⟩
  | .stop => ⟨.stopService, false, .readPid⟩
  | .restart => ⟨.stopService, true, .readPid⟩
  | .status => ⟨.showStatus, false, .readPid⟩

/-- What is left of a command when the function that was under way has returned: when it was the
stopping part of a restart and has succeeded, the starting part. -/
def Call.after (call : Call) (succeeded : Bool) : Call :=
  if succeeded && call.starts then ⟨.startService, false, .readPid⟩
  else { call with phase := .done }

/-- What a command came to, with the processes there were then. -/
structure Said where
  result : Except Failure Report
  proc : Nat → Option Process

/-- How the system answers: whether a call succeeds, whether `kill -0` reaches the process that is
there, the number of a new process, and what a failed write leaves of the pid file. -/
structure Answers where
  ok : Bool
  reaches : Bool
  child : Nat
  left : Option Text

/-- The processes, the pid file and the commands that were given.  `signals` and `said` are kept
by the model only. -/
structure State where
  proc : Nat → Option Process
  pidFile : Option Text
  calls : List Call
  signals : List Sent
  said : List Said

/-- A command is given; its next call of the system is made; it is cut off; a process ends; and
another process appears. -/
inductive Action where
  | invoke (command : ServiceCommand)
  | proceed (c : Nat) (answers : Answers)
  | interrupt (c : Nat)
  | exits (pid : Nat)
  | appears (pid : Nat)

namespace State

/-- Nothing has been started, whatever else there is. -/
def new (proc : Nat → Option Process) : State := ⟨proc, none, [], [], []⟩

/-- How often `wait_for_exit` sleeps. -/
def pollsOf (timeoutMillis : Nat) : Nat := timeoutMillis / 100

/-- A number is one that the system gives out, and free. -/
def Free (proc : Nat → Option Process) (pid : Nat) : Prop :=
  proc pid = none ∧ 0 < pid ∧ pid ≤ u32Max

instance (proc : Nat → Option Process) (pid : Nat) : Decidable (Free proc pid) :=
  inferInstanceAs (Decidable (_ ∧ _ ∧ _))

section Steps

variable (s : State) (c : Nat) (call : Call)

def isProcessRunning (reaches : Bool) (pid : Nat) : Bool := (s.proc pid).isSome && reaches

/-- The command goes on with another call of the system. -/
def goOn (phase : Phase) : State :=
  { s with calls := s.calls.set c { call with phase } }

/-- The function returns. -/
def finish (result : Except Failure Report) : State :=
  { s with
    calls := s.calls.set c (call.after result.toBool)
    said := s.said ++ [⟨result, s.proc⟩] }

def send (signal : Signal) (pid : Nat) : State :=
  { s with signals := s.signals ++ [⟨signal, pid, s.proc pid⟩] }

/-- One call of the system by a command, with what the command does next. -/
def proceed (a : Answers) : Option State :=
  match call.phase with
  | .readPid =>
      match readPid a.ok s.pidFile with
      | .error failure => some (s.finish c call (.error failure))
      | .ok none =>
          match call.routine with
          | .startService => some (s.goOn c call .spawn)
          | .stopService => some (s.finish c call (.ok .notRunning))
          | .showStatus => some (s.finish c call (.ok .stopped))
      | .ok (some pid) => some (s.goOn c call (.check pid))
  | .check pid =>
      if s.isProcessRunning a.reaches pid then
        match call.routine with
        | .startService => some (s.finish c call (.ok (.alreadyRunning pid)))
        | .stopService => some (s.goOn c call (.terminate pid))
        | .showStatus => some (s.finish c call (.ok (.running pid)))
      else
        match call.routine with
        | .startService => some (s.goOn c call .removeStale)
        | .stopService => some (s.goOn c call (.discard .stale))
        | .showStatus => some (s.finish c call (.ok (.stale pid)))
  | .removeStale =>
      if a.ok then some ({ s with pidFile := none }.goOn c call .spawn)
      else some (s.finish c call (.error .removeStale))
  | .spawn =>
      if a.ok then
        if Free s.proc a.child then
          some ({ s with proc := Function.update s.proc a.child (some .service) }.goOn c call
            (.writePid a.child))
        else none
      else some (s.finish c call (.error .launch))
  | .writePid pid =>
      if a.ok then
        some ({ s with pidFile := some (pidText pid) }.finish c call (.ok (.started pid)))
      else some ({ s with pidFile := a.left }.finish c call (.error .writePidFile))
  | .terminate pid =>
      if a.ok then
        some ((s.send .term pid).goOn c call (.waitForExit pid (pollsOf 5000) false))
      else some (s.finish c call (.error .sendStop))
  | .waitForExit pid polls forced =>
      if s.isProcessRunning a.reaches pid then
        match polls with
        | polls + 1 => some (s.goOn c call (.waitForExit pid polls forced))
        | 0 =>
            if forced then some (s.finish c call (.error .didNotStop))
            else some (s.goOn c call (.forceKill pid))
      else some (s.goOn c call (.discard (if forced then .forced else .asked)))
  | .forceKill pid =>
      if a.ok then
        some ((s.send .kill pid).goOn c call (.waitForExit pid (pollsOf 2000) true))
      else some (s.finish c call (.error .forceStop))
  | .discard how =>
      -- whether the file could be removed is not looked at
      some ({ s with pidFile := if a.ok then none else s.pidFile }.finish c call (.ok (.gone how)))
  | .done => none

end Steps

def step (s : State) : Action → Option State
  | .invoke command => some { s with calls := s.calls ++ [command.begin] }
  | .proceed c answers => s.calls[c]?.bind fun call => s.proceed c call answers
  | .interrupt c =>
      s.calls[c]?.bind fun call =>
        if call.phase = .done then none else some (s.goOn c call .done)
  | .exits pid => some { s with proc := Function.update s.proc pid none }
  | .appears pid =>
      if Free s.proc pid then
        some { s with proc := Function.update s.proc pid (some .other) }
      else none

end State

end Daemon
end SimpleClaw
