import Mathlib.Data.List.Sort
import Mathlib.Logic.Function.Basic
import SimpleClaw.Error
import SimpleClaw.Lib.Tables

/-!
# Asynchronous tool runs

A run goes on after the call that started it has returned.  The manager keeps a table of the runs,
a watcher waits for each to complete, and a call may wait for some of them.  A call that waits
claims its runs first; the completion of a run that is claimed is left to the call, that of any
other is put into the inbound queue by the watcher.

* `claimRuns`, `unclaimRuns`, `shouldReinject`: the claim flags.
* `markCompleted`, `killForSession`, `autoEvict`: how a run ends and goes.
* `AsyncRuns.step`: the manager with its watchers and the calls that wait, one lock at a time.
-/

namespace SimpleClaw
namespace Tools

/-! ## The table -/

inductive AsyncToolRunKind where
  | process
  | delegated
  deriving DecidableEq

inductive AsyncToolRunStatus where
  | running
  | completed
  | killed
  deriving DecidableEq

structure ProcessRunState where
  command : Text
  pid : Option Nat
  exitCode : Option Int
  deriving DecidableEq

structure DelegatedRunState where
  request : Text
  reply : Option Text
  error : Option Text
  deriving DecidableEq

structure AsyncToolRunEntry where
  toolName : Text
  kind : AsyncToolRunKind
  summary : Text
  agentId : Text
  sessionKey : Text
  status : AsyncToolRunStatus
  startedAt : Nat
  finishedAt : Option Nat
  claimed : Bool
  process : Option ProcessRunState
  delegated : Option DelegatedRunState
  deriving DecidableEq

/-- What a run shows of its process or its delegation, the output of the process apart. -/
inductive AsyncToolRunDetails where
  | process (command : Text) (pid : Option Nat) (exitCode : Option Int)
  | delegated (request : Text) (reply error : Option Text)
  deriving DecidableEq

structure AsyncToolRunSnapshot where
  runId : Text
  toolName : Text
  kind : AsyncToolRunKind
  status : AsyncToolRunStatus
  summary : Text
  details : AsyncToolRunDetails
  startedAt : Nat
  finishedAt : Option Nat
  deriving DecidableEq

/-- The runs by their ids. -/
abbrev RunTable := Text → Option AsyncToolRunEntry

namespace AsyncToolRunEntry

def belongsTo (entry : AsyncToolRunEntry) (agentId sessionKey : Text) : Bool :=
  entry.agentId = agentId && entry.sessionKey = sessionKey

def details (entry : AsyncToolRunEntry) : AsyncToolRunDetails :=
  match entry.process, entry.delegated with
  | some process, _ => .process process.command process.pid process.exitCode
  | none, some delegated => .delegated delegated.request delegated.reply delegated.error
  | none, none => .delegated entry.summary none (some ("run details unavailable" : Text))

def snapshot (entry : AsyncToolRunEntry) (runId : Text) : AsyncToolRunSnapshot where
  runId := runId
  toolName := entry.toolName
  kind := entry.kind
  status := entry.status
  summary := entry.summary
  details := entry.details
  startedAt := entry.startedAt
  finishedAt := entry.finishedAt

/-- Marks the run as killed; `spawnError` is what the `kill` command fails to start with. -/
def kill (entry : AsyncToolRunEntry) (now : Nat) (spawnError : Option Text) :
    Except FrameworkError AsyncToolRunEntry :=
  if entry.status ≠ .running then .ok entry
  else
    match entry.process with
    | none => .error (.tool "background run kind does not support kill")
    | some process =>
        match process.pid, spawnError with
        | some _, some e => .error (.tool (("failed to kill background run: " : Text) ++ e))
        | some _, none | none, _ =>
            .ok { entry with status := .killed, finishedAt := some now,
                             process := some { process with exitCode := some (-1) } }

end AsyncToolRunEntry

/-! ## The operations of the manager -/

def unknownRun (runId : Text) : FrameworkError :=
  .tool (("unknown background run_id: " : Text) ++ runId)

def getForSession (runs : RunTable) (runId agentId sessionKey : Text) :
    Except FrameworkError AsyncToolRunSnapshot :=
  match runs runId with
  | none => .error (unknownRun runId)
  | some entry =>
      if entry.belongsTo agentId sessionKey then .ok (entry.snapshot runId)
      else .error (unknownRun runId)

def killForSession (runs : RunTable) (runId agentId sessionKey : Text) (now : Nat)
    (spawnError : Option Text) : Except FrameworkError AsyncToolRunSnapshot × RunTable :=
  match runs runId with
  | none => (.error (unknownRun runId), runs)
  | some entry =>
      if entry.belongsTo agentId sessionKey then
        match entry.kill now spawnError with
        | .error e => (.error e, runs)
        | .ok entry => (.ok (entry.snapshot runId), Function.update runs runId (some entry))
      else (.error (unknownRun runId), runs)

/-- Claims the runs one by one, each with whether it has completed, up to the first that is not a
run of the session. -/
def claimRuns (agentId sessionKey : Text) :
    RunTable → List Text → Except FrameworkError (List (Text × Bool)) × RunTable
  | runs, [] => (.ok [], runs)
  | runs, runId :: runIds =>
      match runs runId with
      | none => (.error (unknownRun runId), runs)
      | some entry =>
          if entry.belongsTo agentId sessionKey then
            let rest := claimRuns agentId sessionKey
              (Function.update runs runId (some { entry with claimed := true })) runIds
            (rest.1.map ((runId, decide (entry.status ≠ .running)) :: ·), rest.2)
          else (.error (unknownRun runId), runs)

def unclaimRuns : RunTable → List Text → RunTable
  | runs, [] => runs
  | runs, runId :: runIds =>
      match runs runId with
      | none => unclaimRuns runs runIds
      | some entry =>
          if entry.status = .running then
            unclaimRuns (Function.update runs runId (some { entry with claimed := false })) runIds
          else unclaimRuns runs runIds

def shouldReinject (runs : RunTable) (runId : Text) : Bool :=
  match runs runId with
  | none => false
  | some entry => !entry.claimed

/-- What a run completes with: an exit code, or a reply or an error. -/
inductive CompletionOutcome where
  | process (exitCode : Option Int)
  | delegated (result : Except Text Text)

def CompletionOutcome.kind : CompletionOutcome → AsyncToolRunKind
  | .process _ => .process
  | .delegated _ => .delegated

/-- The entry of a run that completes: `mark_process_completed`, `mark_delegated_completed`. -/
def AsyncToolRunEntry.complete (entry : AsyncToolRunEntry) (outcome : CompletionOutcome)
    (now : Nat) : AsyncToolRunEntry :=
  match outcome with
  | .process exitCode =>
      { entry with status := .completed, finishedAt := some now,
                   process := entry.process.map fun process => { process with exitCode } }
  | .delegated (.ok reply) =>
      { entry with
        status := .completed, finishedAt := some now
        delegated := entry.delegated.map fun delegated =>
          { delegated with reply := some reply, error := none } }
  | .delegated (.error e) =>
      { entry with
        status := .completed, finishedAt := some now
        delegated := entry.delegated.map fun delegated =>
          { delegated with reply := none, error := some e } }

def markCompleted (runs : RunTable) (runId : Text) (outcome : CompletionOutcome) (now : Nat) :
    RunTable :=
  match runs runId with
  | none => runs
  | some entry =>
      if entry.status = .running then
        Function.update runs runId (some (entry.complete outcome now))
      else runs

/-! ### Eviction -/

def maxCompleted : Nat := 64

/-- The runs that are over, in this order, with when they finished. -/
def finishedRuns (order : List Text) (runs : RunTable) : List (Text × Nat) :=
  order.filterMap fun runId =>
    (runs runId).bind fun entry =>
      if entry.status ≠ .running then some (runId, entry.finishedAt.getD entry.startedAt)
      else none

/-- The runs `auto_evict` removes: all but the latest; `order` is that of the map. -/
def evicted (order : List Text) (runs : RunTable) : List Text :=
  let completed := finishedRuns order runs
  if completed.length ≤ maxCompleted then []
  else
    ((completed.insertionSort fun a b => a.2 ≤ b.2).take (completed.length - maxCompleted)).map
      Prod.fst

def autoEvict (order : List Text) (runs : RunTable) : RunTable := fun runId =>
  if runId ∈ evicted order runs then none else runs runId

/-! ### New runs -/

def runIdOf (now seq : Nat) : Text :=
  ("async-tool-run-" : Text) ++ Text.decimal now ++ ("-" : Text) ++ Text.decimal seq

/-- What is run: a process, or a call of another agent. -/
inductive RunRequest where
  | process (command : Text) (pid : Nat)
  | delegated (request : Text)

def RunRequest.kind : RunRequest → AsyncToolRunKind
  | .process _ _ => .process
  | .delegated _ => .delegated

/-- The entry of `start_process`, `start_prepared_process` and `start_delegated`. -/
def newEntry (toolName agentId sessionKey : Text) (request : RunRequest) (now : Nat) :
    AsyncToolRunEntry where
  toolName := toolName
  kind := request.kind
  summary :=
    match request with
    | .process command _ => command
    | .delegated request => request
  agentId := agentId
  sessionKey := sessionKey
  status := .running
  startedAt := now
  finishedAt := none
  claimed := false
  process :=
    match request with
    | .process command pid => some ⟨command, some pid, none⟩
    | .delegated _ => none
  delegated :=
    match request with
    | .process _ _ => none
    | .delegated request => some ⟨request, none, none⟩

/-! ## Watchers and waiting calls -/

/-- Where the watcher of a run is: the run has not completed; it is marked, and was still running
then or not; the claim has been looked at, and the completion put into the queue or not. -/
inductive WatcherPhase where
  | running
  | marked (byItself : Bool)
  | decided (byItself reinjected : Bool)
  deriving DecidableEq

structure Watcher where
  kind : AsyncToolRunKind
  hasRoute : Bool
  phase : WatcherPhase
  deriving DecidableEq

/-- Where a call of `wait_for_session` is: it waits, looks at its runs one by one, gives up those
still running, looks at all of them once more, has returned, or has failed. -/
inductive WaitPhase where
  | waiting
  | checking (rest stillRunning : List Text)
  | collecting (rest : List Text) (snapshots : List AsyncToolRunSnapshot)
  | returned (snapshots : List AsyncToolRunSnapshot)
  | failed (error : FrameworkError)
  deriving DecidableEq

/-- A call with the runs it found running when it claimed them, and those it has given up. -/
structure WaitCall where
  runIds : List Text
  agentId : Text
  sessionKey : Text
  pending : List Text
  released : List Text
  phase : WaitPhase
  deriving DecidableEq

/-- The manager with the watchers of its runs and all calls that wait or have waited. -/
structure AsyncRuns where
  runs : RunTable
  counter : Nat
  started : List Text
  watchers : Text → Option Watcher
  calls : List WaitCall

/-- One step: a run is started, completes, has its completion put into the queue or not, or is
killed; or a call starts to wait, stops waiting, and goes on from there. -/
inductive AsyncAction where
  | start (toolName agentId sessionKey : Text) (request : RunRequest) (hasRoute : Bool) (now : Nat)
      (order : List Text)
  | complete (runId : Text) (outcome : CompletionOutcome) (now : Nat)
  | decide (runId : Text)
  | kill (runId agentId sessionKey : Text) (now : Nat) (spawnError : Option Text)
  | wait (runIds : List Text) (agentId sessionKey : Text)
  | wake (call : Nat)
  | check (call : Nat)
  | unclaim (call : Nat)
  | collect (call : Nat)

/-- The runs a call claims before it comes to one that is not of its session. -/
def claimable (agentId sessionKey : Text) (runs : RunTable) (runIds : List Text) : List Text :=
  runIds.takeWhile fun runId => (runs runId).any (·.belongsTo agentId sessionKey)

def isRunning (runs : RunTable) (runId : Text) : Bool :=
  (runs runId).any fun entry => entry.status = .running

namespace AsyncRuns

/-- No run has been started. -/
def new : AsyncRuns where
  runs := fun _ => none
  counter := 1
  started := []
  watchers := fun _ => none
  calls := []

def setCall (s : AsyncRuns) (call : Nat) (c : WaitCall) (phase : WaitPhase) : AsyncRuns :=
  { s with calls := s.calls.set call { c with phase := phase } }

def setWatcher (s : AsyncRuns) (runId : Text) (w : Watcher) (phase : WatcherPhase) : AsyncRuns :=
  { s with watchers := Function.update s.watchers runId (some { w with phase := phase }) }

/-- The run gets an id, an entry and a watcher, and the table is cleaned up. -/
def startRun (s : AsyncRuns) (toolName agentId sessionKey : Text) (request : RunRequest)
    (hasRoute : Bool) (now : Nat) (order : List Text) : AsyncRuns :=
  let runId := runIdOf now s.counter
  let entry := newEntry toolName agentId sessionKey request now
  { s with
    runs := autoEvict order (Function.update s.runs runId (some entry))
    counter := s.counter + 1
    started := s.started ++ [runId]
    watchers := Function.update s.watchers runId (some ⟨request.kind, hasRoute, .running⟩) }

def step (s : AsyncRuns) : AsyncAction → Option AsyncRuns
  | .start toolName agentId sessionKey request hasRoute now order =>
      -- the order is one of the keys of the map, the new one included
      let present := s.started.filter (fun runId => (s.runs runId).isSome) ++
        [runIdOf now s.counter]
      if order.isPerm present then
        some (s.startRun toolName agentId sessionKey request hasRoute now order)
      else none
  | .complete runId outcome now =>
      match s.watchers runId with
      | some w =>
          if w.phase = .running ∧ outcome.kind = w.kind then
            some { s.setWatcher runId w (.marked (isRunning s.runs runId)) with
              runs := markCompleted s.runs runId outcome now }
          else none
      | none => none
  | .decide runId =>
      match s.watchers runId with
      | some w =>
          match w.phase with
          | .marked byItself =>
              some (s.setWatcher runId w
                (.decided byItself (shouldReinject s.runs runId && w.hasRoute)))
          | .running | .decided _ _ => none
      | none => none
  | .kill runId agentId sessionKey now spawnError =>
      some { s with runs := (killForSession s.runs runId agentId sessionKey now spawnError).2 }
  | .wait runIds agentId sessionKey =>
      let claim := claimRuns agentId sessionKey s.runs runIds
      let call (pending : List Text) (phase : WaitPhase) : WaitCall :=
        ⟨runIds, agentId, sessionKey, pending, [], phase⟩
      match claim.1 with
      | .error e => some { s with runs := claim.2, calls := s.calls ++ [call [] (.failed e)] }
      | .ok claimed =>
          let pending := (claimed.filter fun claimed => !claimed.2).map Prod.fst
          some { s with runs := claim.2, calls := s.calls ++ [call pending .waiting] }
  | .wake call =>
      -- every run it waits for has completed, or the time is over
      match s.calls[call]? with
      | some c =>
          match c.phase with
          | .waiting => some (s.setCall call c (.checking c.runIds []))
          | .checking _ _ | .collecting _ _ | .returned _ | .failed _ => none
      | none => none
  | .check call =>
      match s.calls[call]? with
      | some c =>
          match c.phase with
          | .checking (runId :: rest) stillRunning =>
              match getForSession s.runs runId c.agentId c.sessionKey with
              | .error e => some (s.setCall call c (.failed e))
              | .ok snapshot =>
                  some (s.setCall call c (.checking rest
                    (if snapshot.status = .running then stillRunning ++ [runId]
                     else stillRunning)))
          | .checking [] _ | .waiting | .collecting _ _ | .returned _ | .failed _ => none
      | none => none
  | .unclaim call =>
      match s.calls[call]? with
      | some c =>
          match c.phase with
          | .checking [] stillRunning =>
              let c' := { c with released := stillRunning.filter (isRunning s.runs) }
              some { s.setCall call c' (.collecting c.runIds []) with
                runs := unclaimRuns s.runs stillRunning }
          | .checking (_ :: _) _ | .waiting | .collecting _ _ | .returned _ | .failed _ => none
      | none => none
  | .collect call =>
      match s.calls[call]? with
      | some c =>
          match c.phase with
          | .collecting [] snapshots => some (s.setCall call c (.returned snapshots))
          | .collecting (runId :: rest) snapshots =>
              match getForSession s.runs runId c.agentId c.sessionKey with
              | .error e => some (s.setCall call c (.failed e))
              | .ok snapshot =>
                  some (s.setCall call c (.collecting rest (snapshots ++ [snapshot])))
          | .checking _ _ | .waiting | .returned _ | .failed _ => none
      | none => none

end AsyncRuns

/-! ## What the operations do to an entry -/

section Operations

variable {runs : RunTable} {runId id agentId sessionKey : Text} {entry : AsyncToolRunEntry}

theorem isRunning_iff : isRunning runs id = true ↔
    ∃ entry, runs id = some entry ∧ entry.status = .running := by
  rw [isRunning, Option.any_eq_true]
  simp only [decide_eq_true_eq]

theorem isRunning_of_some (h : runs id = some entry) :
    isRunning runs id = decide (entry.status = .running) := by
  rw [isRunning, h]
  rfl

/-- What does not depend on the flag is the same after a flag has been set. -/
theorem any_update_claimed {p : AsyncToolRunEntry → Bool} (h : runs runId = some entry) (b : Bool)
    (hp : p { entry with claimed := b } = p entry) (id : Text) :
    (Function.update runs runId (some { entry with claimed := b }) id).any p =
      (runs id).any p := by
  by_cases hid : id = runId
  · rw [hid, Function.update_self, h]
    exact hp
  · rw [Function.update_of_ne hid]

theorem claimable_cons_of_not (runIds : List Text)
    (h : (runs runId).any (·.belongsTo agentId sessionKey) = false) :
    claimable agentId sessionKey runs (runId :: runIds) = [] :=
  List.takeWhile_cons_of_neg (by rw [h]; exact Bool.false_ne_true)

theorem claimable_cons (runIds : List Text) (h : runs runId = some entry)
    (hbelongs : entry.belongsTo agentId sessionKey = true) (b : Bool) :
    claimable agentId sessionKey runs (runId :: runIds) = runId ::
      claimable agentId sessionKey (Function.update runs runId (some { entry with claimed := b }))
        runIds := by
  rw [claimable, List.takeWhile_cons_of_pos (by rw [h]; exact hbelongs), claimable]
  congr 2
  funext id
  exact (any_update_claimed (p := (·.belongsTo agentId sessionKey)) h b rfl id).symm

/-- What can be claimed is a run of the session. -/
theorem belongsTo_of_mem_claimable {runIds : List Text}
    (h : id ∈ claimable agentId sessionKey runs runIds) :
    ∃ entry, runs id = some entry ∧ entry.belongsTo agentId sessionKey = true := by
  rw [claimable] at h
  have hany := List.mem_takeWhile_imp h
  rwa [Option.any_eq_true] at hany

/-- Claiming changes nothing but the flags of the runs it comes to. -/
theorem claimRuns_apply (runIds : List Text) :
    (claimRuns agentId sessionKey runs runIds).2 id =
      if id ∈ claimable agentId sessionKey runs runIds then
        (runs id).map fun entry => { entry with claimed := true }
      else runs id := by
  induction runIds generalizing runs with
  | nil => rfl
  | cons runId runIds ih =>
      cases hrun : runs runId with
      | none =>
          rw [claimable_cons_of_not runIds (by rw [hrun]; rfl), claimRuns, hrun]
          rfl
      | some entry =>
          by_cases hbelongs : entry.belongsTo agentId sessionKey = true
          · rw [claimable_cons runIds hrun hbelongs true, claimRuns, hrun]
            simp only [if_pos hbelongs, ih, List.mem_cons]
            by_cases hid : id = runId
            · subst hid
              simp [hrun]
            · simp [hid]
          · rw [claimable_cons_of_not runIds (by rw [hrun]; simpa using hbelongs), claimRuns, hrun]
            simp only [if_neg hbelongs]
            rfl

/-- A call that claims all its runs learns which of them have completed. -/
theorem claimRuns_ok {runIds : List Text} {claimed : List (Text × Bool)}
    (h : (claimRuns agentId sessionKey runs runIds).1 = .ok claimed) :
    claimable agentId sessionKey runs runIds = runIds ∧
      claimed = runIds.map fun runId => (runId, !isRunning runs runId) := by
  induction runIds generalizing runs claimed with
  | nil => exact ⟨rfl, (Except.ok.inj h).symm⟩
  | cons runId runIds ih =>
      rw [claimRuns] at h
      split at h
      · cases h
      · next entry hrun =>
        split at h
        · next hbelongs =>
          cases hrest : (claimRuns agentId sessionKey
              (Function.update runs runId (some { entry with claimed := true })) runIds).1 with
          | error e =>
              simp only [hrest] at h
              cases h
          | ok rest =>
              obtain ⟨hall, rfl⟩ := ih hrest
              simp only [hrest] at h
              obtain rfl := Except.ok.inj h
              rw [claimable_cons runIds hrun hbelongs true, hall]
              refine ⟨rfl, ?_⟩
              rw [List.map_cons, isRunning_of_some hrun, decide_not]
              congr 1
              refine List.map_congr_left fun id _ => ?_
              rw [isRunning, any_update_claimed
                (p := fun entry => decide (entry.status = .running)) hrun true rfl id, isRunning]
        · cases h

/-- Giving up changes nothing but the flags of the runs still running. -/
theorem unclaimRuns_apply (runIds : List Text) :
    unclaimRuns runs runIds id =
      if id ∈ runIds ∧ isRunning runs id = true then
        (runs id).map fun entry => { entry with claimed := false }
      else runs id := by
  induction runIds generalizing runs with
  | nil => simp [unclaimRuns]
  | cons runId runIds ih =>
      cases hrun : runs runId with
      | none =>
          rw [unclaimRuns, hrun]
          simp only [ih, List.mem_cons]
          by_cases hid : id = runId
          · subst hid
            simp [isRunning, hrun]
          · simp [hid]
      | some entry =>
          rw [unclaimRuns, hrun]
          by_cases hrunning : entry.status = .running
          · have hsame := any_update_claimed
              (p := fun entry => decide (entry.status = .running)) hrun false rfl id
            simp only [if_pos hrunning, ih, List.mem_cons, isRunning, hsame]
            by_cases hid : id = runId
            · subst hid
              simp [hrun, hrunning]
            · simp [hid]
          · simp only [if_neg hrunning, ih, List.mem_cons]
            by_cases hid : id = runId
            · subst hid
              simp [isRunning, hrun, hrunning]
            · simp [hid]

/-- An entry after claiming is the old one, with its flag set or not. -/
theorem claimRuns_some {runIds : List Text}
    (h : (claimRuns agentId sessionKey runs runIds).2 id = some entry) :
    ∃ old, runs id = some old ∧ entry.status = old.status ∧
      ((id ∈ claimable agentId sessionKey runs runIds ∧ entry.claimed = true) ∨
        (id ∉ claimable agentId sessionKey runs runIds ∧ entry = old)) := by
  rw [claimRuns_apply] at h
  split at h
  · next hmem =>
    obtain ⟨old, hold, rfl⟩ := Option.map_eq_some_iff.mp h
    exact ⟨old, hold, rfl, .inl ⟨hmem, rfl⟩⟩
  · next hmem => exact ⟨entry, h, rfl, .inr ⟨hmem, rfl⟩⟩

theorem claimRuns_eq_none_iff {runIds : List Text} :
    (claimRuns agentId sessionKey runs runIds).2 id = none ↔ runs id = none := by
  rw [claimRuns_apply]
  split
  · exact Option.map_eq_none_iff
  · rfl

/-- An entry after giving up is the old one, with its flag cleared if it was running. -/
theorem unclaimRuns_some {runIds : List Text} (h : unclaimRuns runs runIds id = some entry) :
    ∃ old, runs id = some old ∧ entry.status = old.status ∧
      ((id ∈ runIds ∧ isRunning runs id = true ∧ entry.claimed = false) ∨
        (¬ (id ∈ runIds ∧ isRunning runs id = true) ∧ entry = old)) := by
  rw [unclaimRuns_apply] at h
  split at h
  · next hmem =>
    obtain ⟨old, hold, rfl⟩ := Option.map_eq_some_iff.mp h
    exact ⟨old, hold, rfl, .inl ⟨hmem.1, hmem.2, rfl⟩⟩
  · next hmem => exact ⟨entry, h, rfl, .inr ⟨hmem, rfl⟩⟩

theorem unclaimRuns_eq_none_iff {runIds : List Text} :
    unclaimRuns runs runIds id = none ↔ runs id = none := by
  rw [unclaimRuns_apply]
  split
  · exact Option.map_eq_none_iff
  · rfl

theorem getForSession_ok {snapshot : AsyncToolRunSnapshot}
    (h : getForSession runs runId agentId sessionKey = .ok snapshot) :
    ∃ entry, runs runId = some entry ∧ snapshot = entry.snapshot runId := by
  rw [getForSession] at h
  split at h
  · cases h
  · next entry hrun =>
    split at h
    · exact ⟨entry, hrun, (Except.ok.inj h).symm⟩
    · cases h

theorem shouldReinject_of_some (hrun : runs runId = some entry) :
    shouldReinject runs runId = !entry.claimed := by
  rw [shouldReinject, hrun]

/-- What is gone or claimed is not reinjected. -/
theorem shouldReinject_of_claimed
    (h : ∀ entry, runs runId = some entry → entry.claimed = true) :
    shouldReinject runs runId = false := by
  cases hrun : runs runId with
  | none => rw [shouldReinject, hrun]
  | some entry => rw [shouldReinject_of_some hrun, h entry hrun, Bool.not_true]

@[simp] theorem complete_status (entry : AsyncToolRunEntry) (outcome : CompletionOutcome)
    (now : Nat) : (entry.complete outcome now).status = .completed := by
  rcases outcome with exitCode | ⟨e | reply⟩ <;> rfl

@[simp] theorem complete_claimed (entry : AsyncToolRunEntry) (outcome : CompletionOutcome)
    (now : Nat) : (entry.complete outcome now).claimed = entry.claimed := by
  rcases outcome with exitCode | ⟨e | reply⟩ <;> rfl

/-- A run that is marked too late stays as it is. -/
theorem markCompleted_of_not_running (h : isRunning runs runId = false)
    (outcome : CompletionOutcome) (now : Nat) : markCompleted runs runId outcome now = runs := by
  rw [markCompleted]
  split
  · rfl
  · next entry hrun =>
    rw [isRunning_of_some hrun, decide_eq_false_iff_not] at h
    rw [if_neg h]

/-- A run that is marked while it is running has completed. -/
theorem markCompleted_of_running (hrun : runs runId = some entry) (h : entry.status = .running)
    (outcome : CompletionOutcome) (now : Nat) : markCompleted runs runId outcome now =
      Function.update runs runId (some (entry.complete outcome now)) := by
  rw [markCompleted, hrun]
  exact if_pos h

/-- A kill leaves the table as it is, or one running entry is killed. -/
theorem killForSession_cases (runs : RunTable) (runId agentId sessionKey : Text) (now : Nat)
    (spawnError : Option Text) :
    (killForSession runs runId agentId sessionKey now spawnError).2 = runs ∨
      ∃ entry entry', runs runId = some entry ∧ entry.status = .running ∧
        entry'.status = .killed ∧ entry'.claimed = entry.claimed ∧
        (killForSession runs runId agentId sessionKey now spawnError).2 =
          Function.update runs runId (some entry') := by
  rw [killForSession]
  split
  · exact .inl rfl
  · next entry hrun =>
    split
    · rw [AsyncToolRunEntry.kill]
      by_cases hrunning : entry.status = .running
      · rw [if_neg fun h => h hrunning]
        split
        · exact .inl rfl
        · next killed hkill =>
          split at hkill
          · cases hkill
          · split at hkill
            · cases hkill
            all_goals
              obtain rfl := Except.ok.inj hkill
              refine .inr ⟨entry, _, hrun, hrunning, ?_, ?_, rfl⟩ <;> rfl
      · rw [if_pos hrunning]
        left
        show Function.update runs runId (some entry) = runs
        rw [← hrun, Function.update_eq_self]
    · exact .inl rfl

/-- What is evicted is over. -/
theorem status_of_mem_evicted {order : List Text} (h : id ∈ evicted order runs) :
    ∃ entry, runs id = some entry ∧ entry.status ≠ .running := by
  rw [evicted] at h
  split at h
  · cases h
  · obtain ⟨⟨id', time⟩, hmem, rfl⟩ := List.mem_map.mp h
    have hfinished := (List.mem_insertionSort _).mp (List.mem_of_mem_take hmem)
    obtain ⟨runId, -, hentry⟩ := List.mem_filterMap.mp hfinished
    obtain ⟨entry, hrun, hover⟩ := Option.bind_eq_some_iff.mp hentry
    split at hover
    · next hstatus =>
      obtain ⟨rfl, -⟩ := Prod.mk.inj (Option.some.inj hover)
      exact ⟨entry, hrun, hstatus⟩
    · cases hover

/-- What is in the table after the eviction was in it before. -/
theorem autoEvict_some {order : List Text} (h : autoEvict order runs runId = some entry) :
    runs runId = some entry := by
  rw [autoEvict] at h
  split at h
  · cases h
  · exact h

end Operations

/-! ## What a step does -/

namespace AsyncRuns

variable {s s' : AsyncRuns}

theorem step_start {toolName agentId sessionKey : Text} {request : RunRequest} {hasRoute : Bool}
    {now : Nat} {order : List Text}
    (h : s.step (.start toolName agentId sessionKey request hasRoute now order) = some s') :
    s' = s.startRun toolName agentId sessionKey request hasRoute now order := by
  rw [step] at h
  split at h
  · exact (Option.some.inj h).symm
  · cases h

theorem step_complete {runId : Text} {outcome : CompletionOutcome} {now : Nat}
    (h : s.step (.complete runId outcome now) = some s') :
    ∃ w, s.watchers runId = some w ∧ w.phase = .running ∧
      s' = { s.setWatcher runId w (.marked (isRunning s.runs runId)) with
             runs := markCompleted s.runs runId outcome now } := by
  rw [step] at h
  split at h
  · next w hw =>
    split at h
    · next hcond => exact ⟨w, hw, hcond.1, (Option.some.inj h).symm⟩
    · cases h
  · cases h

theorem step_decide {runId : Text} (h : s.step (.decide runId) = some s') :
    ∃ w byItself, s.watchers runId = some w ∧ w.phase = .marked byItself ∧
      s' = s.setWatcher runId w
        (.decided byItself (shouldReinject s.runs runId && w.hasRoute)) := by
  rw [step] at h
  split at h
  · next w hw =>
    split at h
    · next byItself hphase => exact ⟨w, byItself, hw, hphase, (Option.some.inj h).symm⟩
    all_goals cases h
  · cases h

/-- A call claims all its runs, or some of them and fails. -/
theorem step_wait {runIds : List Text} {agentId sessionKey : Text}
    (h : s.step (.wait runIds agentId sessionKey) = some s') :
    ∃ pending phase, s' = { s with
        runs := (claimRuns agentId sessionKey s.runs runIds).2
        calls := s.calls ++ [⟨runIds, agentId, sessionKey, pending, [], phase⟩] } ∧
      ((∃ e, (claimRuns agentId sessionKey s.runs runIds).1 = .error e ∧
          pending = [] ∧ phase = .failed e) ∨
        (∃ claimed, (claimRuns agentId sessionKey s.runs runIds).1 = .ok claimed ∧
          pending = runIds.filter (isRunning s.runs) ∧ phase = .waiting)) := by
  simp only [step] at h
  cases hclaim : (claimRuns agentId sessionKey s.runs runIds).1 with
  | error e =>
      rw [hclaim] at h
      exact ⟨[], .failed e, (Option.some.inj h).symm, .inl ⟨e, rfl, rfl, rfl⟩⟩
  | ok claimed =>
      rw [hclaim] at h
      obtain rfl := (claimRuns_ok hclaim).2
      refine ⟨_, .waiting, (Option.some.inj h).symm, .inr ⟨_, rfl, ?_, rfl⟩⟩
      rw [List.filter_map, List.map_map]
      simp [Function.comp_def]

theorem step_wake {call : Nat} (h : s.step (.wake call) = some s') :
    ∃ c, s.calls[call]? = some c ∧ c.phase = .waiting ∧
      s' = s.setCall call c (.checking c.runIds []) := by
  rw [step] at h
  split at h
  · next c hc =>
    split at h
    · next hphase => exact ⟨c, hc, hphase, (Option.some.inj h).symm⟩
    all_goals cases h
  · cases h

theorem step_check {call : Nat} (h : s.step (.check call) = some s') :
    ∃ c runId rest stillRunning, s.calls[call]? = some c ∧
      c.phase = .checking (runId :: rest) stillRunning ∧
      ((∃ e, getForSession s.runs runId c.agentId c.sessionKey = .error e ∧
          s' = s.setCall call c (.failed e)) ∨
        (∃ snapshot, getForSession s.runs runId c.agentId c.sessionKey = .ok snapshot ∧
          s' = s.setCall call c (.checking rest
            (if snapshot.status = .running then stillRunning ++ [runId]
             else stillRunning)))) := by
  rw [step] at h
  split at h
  · next c hc =>
    split at h
    · next runId rest stillRunning hphase =>
      refine ⟨c, runId, rest, stillRunning, hc, hphase, ?_⟩
      split at h
      · next e hget => exact .inl ⟨e, hget, (Option.some.inj h).symm⟩
      · next snapshot hget => exact .inr ⟨snapshot, hget, (Option.some.inj h).symm⟩
    all_goals cases h
  · cases h

theorem step_unclaim {call : Nat} (h : s.step (.unclaim call) = some s') :
    ∃ c stillRunning, s.calls[call]? = some c ∧ c.phase = .checking [] stillRunning ∧
      s' = { s with
        runs := unclaimRuns s.runs stillRunning
        calls := s.calls.set call
          { c with released := stillRunning.filter (isRunning s.runs)
                   phase := .collecting c.runIds [] } } := by
  rw [step] at h
  split at h
  · next c hc =>
    split at h
    · next stillRunning hphase => exact ⟨c, stillRunning, hc, hphase, (Option.some.inj h).symm⟩
    all_goals cases h
  · cases h

theorem step_collect {call : Nat} (h : s.step (.collect call) = some s') :
    ∃ c, s.calls[call]? = some c ∧
      ((∃ snapshots, c.phase = .collecting [] snapshots ∧
          s' = s.setCall call c (.returned snapshots)) ∨
        ∃ runId rest snapshots, c.phase = .collecting (runId :: rest) snapshots ∧
          ((∃ e, getForSession s.runs runId c.agentId c.sessionKey = .error e ∧
              s' = s.setCall call c (.failed e)) ∨
            ∃ snapshot, getForSession s.runs runId c.agentId c.sessionKey = .ok snapshot ∧
              s' = s.setCall call c (.collecting rest (snapshots ++ [snapshot])))) := by
  rw [step] at h
  split at h
  · next c hc =>
    refine ⟨c, hc, ?_⟩
    split at h
    · next snapshots hphase => exact .inl ⟨snapshots, hphase, (Option.some.inj h).symm⟩
    · next runId rest snapshots hphase =>
      refine .inr ⟨runId, rest, snapshots, hphase, ?_⟩
      split at h
      · next e hget => exact .inl ⟨e, hget, (Option.some.inj h).symm⟩
      · next snapshot hget => exact .inr ⟨snapshot, hget, (Option.some.inj h).symm⟩
    all_goals cases h
  · cases h

end AsyncRuns

/-- The ids of two runs differ in their numbers. -/
theorem runIdOf_inj {now now' seq seq' : Nat} (h : runIdOf now seq = runIdOf now' seq') :
    seq = seq' := by
  have hdash : ∀ n, '-' ∉ Text.decimal n := Text.notMem_decimal (by decide)
  have hcons : ∀ t : Text, ("-" : Text) ++ t = '-' :: t := fun _ => rfl
  unfold runIdOf at h
  simp only [List.append_assoc] at h
  have hrest := List.append_cancel_left h
  rw [hcons, hcons] at hrest
  obtain ⟨-, -, hseq⟩ := (List.append_cons_inj_of_notMem (hdash now) (hdash seq)).mp hrest
  exact Text.decimal_injective hseq

end Tools
end SimpleClaw
