import SimpleClaw.Tools.AsyncIsolation

/-!
# The stop command

`/stop` lists the runs of the owner's agent and session under one lock and then kills those it
found running one by one, each under a lock of its own, so that anything may happen to the table
in between.  It counts the kills that did not fail and says nothing about those that did.

* `StopCommand.list`, `StopCommand.step`: the command between the other steps of the manager.
* `StopsEverything`: nothing that was running is, and the count is that of the runs killed.
* `stop_stops_processes`: what the command comes to, whatever happens in between.
* `stop_misses`: a delegated run goes on, and so does a process that `kill` was not started for; a
  run that has ended by itself is counted.
-/

namespace SimpleClaw
namespace Gateway

open Tools Transition

/-! ## The command -/

/-- One kill of the command: whether the run was still running then, and what came of it. -/
structure KillAttempt where
  runId : Text
  wasRunning : Bool
  result : Except FrameworkError AsyncToolRunSnapshot

/-- The kill moved the run from running to killed. -/
def KillAttempt.moved (a : KillAttempt) : Bool :=
  a.wasRunning &&
    match a.result with
    | .ok snapshot => snapshot.status = .killed
    | .error _ => false

theorem KillAttempt.moved_of_isOk {a : KillAttempt} (hrunning : a.wasRunning = true)
    (hok : a.result.isOk = true)
    (hkilled : ∀ snapshot, a.result = .ok snapshot → snapshot.status = .killed) :
    a.moved = true := by
  cases hresult : a.result with
  | error e =>
      rw [hresult] at hok
      cases hok
  | ok snapshot =>
      rw [KillAttempt.moved, hrunning, hresult]
      exact decide_eq_true (hkilled snapshot hresult)

theorem KillAttempt.isOk_of_moved {a : KillAttempt} (h : a.moved = true) :
    a.result.isOk = true := by
  rw [KillAttempt.moved, Bool.and_eq_true] at h
  cases hresult : a.result with
  | error e =>
      rw [hresult] at h
      cases h.2
  | ok snapshot => rfl

/-- The `kill` program could not be started. -/
def KillAttempt.CouldNotStart (a : KillAttempt) : Prop :=
  ∃ e : Text, a.result = .error (.tool (("failed to kill background run: " : Text) ++ e))

def notSupported : FrameworkError := .tool "background run kind does not support kill"

/-- The command in progress: the manager, the runs it has still to kill, and what it has counted.
The attempts are kept by the model only. -/
structure StopCommand where
  manager : AsyncRunManager
  rest : List Text
  killedCount : Nat
  attempts : List KillAttempt

/-- The keys of the table. -/
def runKeys (manager : AsyncRunManager) : List Text :=
  manager.table.started.filter fun runId => (manager.table.runs runId).isSome

/-- One step: one of the manager, or the next kill of the command. -/
inductive StopAction where
  | manager (action : ManagerAction)
  | killNext (now : Nat) (spawnError : Option Text)

def stopMessage (killedCount : Nat) : Text :=
  if killedCount = 0 then "No running background tasks were found."
  else ("Stopped " : Text) ++ Text.decimal killedCount ++ (" background task(s)." : Text)

/-- `CommandResponse::Stop`. -/
structure StopResponse where
  killedCount : Nat
  message : Text
  deriving DecidableEq

def stopResponse (killedCount : Nat) : StopResponse := ⟨killedCount, stopMessage killedCount⟩

namespace StopCommand

section Step

variable (agentId sessionKey : Text)

/-- The runs of the session that the command lists as running; `order` is that of the map. -/
def listed (manager : AsyncRunManager) (order : List Text) : List Text :=
  ((listForSession order manager.table.runs agentId sessionKey).filter fun snapshot =>
    snapshot.status = .running).map AsyncToolRunSnapshot.runId

/-- The command has listed the runs. -/
def list (manager : AsyncRunManager) (order : List Text) : Option StopCommand :=
  if order.isPerm (runKeys manager) then
    some ⟨manager, listed agentId sessionKey manager order, 0, []⟩
  else none

def step (s : StopCommand) : StopAction → Option StopCommand
  | .manager action => (s.manager.step action).map fun manager => { s with manager }
  | .killNext now spawnError =>
      match s.rest with
      | [] => none
      | runId :: rest =>
          let runs := s.manager.table.runs
          let result := (killForSession runs runId agentId sessionKey now spawnError).1
          let killed := s.manager.step (.other (.kill runId agentId sessionKey now spawnError))
          killed.map fun manager =>
            { manager, rest
              killedCount := if result.isOk then s.killedCount + 1 else s.killedCount
              attempts := s.attempts ++ [⟨runId, isRunning runs runId, result⟩] }

end Step

/-- What the command returns when nothing is left to kill. -/
def response (s : StopCommand) : Option StopResponse :=
  if s.rest = [] then some (stopResponse s.killedCount) else none

/-- A command that has returned: the manager has taken some steps before it, and others between
its kills. -/
def Returned (agentId sessionKey : Text) (before : AsyncRunManager) (s : StopCommand) : Prop :=
  ∃ tr order start later, Run AsyncRunManager.step AsyncRunManager.new tr ∧
    before = Run.final AsyncRunManager.new tr ∧
    list agentId sessionKey before order = some start ∧
    Run (step agentId sessionKey) start later ∧ s = Run.final start later ∧ s.rest = []

/-- **The command has stopped everything**: no run of the session that was running when the command
listed the runs is running, and the count is that of the runs the command has killed. -/
structure StopsEverything (agentId sessionKey : Text) (before : AsyncRunManager) (s : StopCommand) :
    Prop where
  stopped : ∀ runId entry, before.table.runs runId = some entry →
    entry.belongsTo agentId sessionKey = true → entry.status = .running →
    isRunning s.manager.table.runs runId = false
  counted : s.response = some (stopResponse (s.attempts.countP KillAttempt.moved))

/-- **What the command comes to.**  No process that was running when the runs were listed is, unless
`kill` could not be started for it; a delegated run is refused; and when the command came to every
run before it ended otherwise, the count is that of the runs the command has killed. -/
structure StopsProcesses (agentId sessionKey : Text) (before : AsyncRunManager) (s : StopCommand) :
    Prop where
  stopped : ∀ runId entry, before.table.runs runId = some entry →
    entry.belongsTo agentId sessionKey = true → entry.status = .running → entry.kind = .process →
    isRunning s.manager.table.runs runId = false ∨
      ∃ a ∈ s.attempts, a.runId = runId ∧ a.CouldNotStart
  refused : ∀ a ∈ s.attempts, ∀ entry, before.table.runs a.runId = some entry →
    entry.kind = .delegated → a.wasRunning = true → a.result = .error notSupported
  once : (s.attempts.map KillAttempt.runId).Nodup
  counted : (∀ a ∈ s.attempts, a.wasRunning = true) →
    s.response = some (stopResponse (s.attempts.countP KillAttempt.moved))

/-! ## One kill -/

section Kill

variable {runs : RunTable} {runId agentId sessionKey : Text} {now : Nat}
  {spawnError : Option Text} {entry : AsyncToolRunEntry}

/-- A process is over after its kill, unless `kill` could not be started. -/
theorem kill_process
    (h : ∀ entry, runs runId = some entry → entry.belongsTo agentId sessionKey = true ∧
      entry.process.isSome = true) :
    isRunning (killForSession runs runId agentId sessionKey now spawnError).2 runId = false ∨
      ∃ e : Text, (killForSession runs runId agentId sessionKey now spawnError).1 =
        .error (.tool (("failed to kill background run: " : Text) ++ e)) := by
  cases hrun : runs runId with
  | none =>
      left
      rw [isRunning, killForSession, hrun]
      exact congrArg (Option.any _) hrun
  | some entry =>
      obtain ⟨hbelongs, hprocess⟩ := h entry hrun
      obtain ⟨process, hprocess⟩ := Option.isSome_iff_exists.mp hprocess
      simp only [killForSession, hrun, if_pos hbelongs]
      cases hkill : entry.kill now spawnError with
      | ok entry' =>
          left
          rw [isRunning_of_some (Function.update_self ..)]
          rcases AsyncToolRunEntry.kill_ok hkill with ⟨hover, rfl⟩ | ⟨-, process, -, rfl⟩
          · exact decide_eq_false hover
          · rfl
      | error e =>
          right
          rw [AsyncToolRunEntry.kill] at hkill
          split at hkill
          · cases hkill
          · rw [hprocess] at hkill
            simp only at hkill
            split at hkill
            · obtain rfl := Except.error.inj hkill
              exact ⟨_, rfl⟩
            all_goals cases hkill

/-- A delegated run that is running is refused. -/
theorem kill_delegated (hrun : runs runId = some entry)
    (hbelongs : entry.belongsTo agentId sessionKey = true) (hrunning : entry.status = .running)
    (hprocess : entry.process = none) :
    (killForSession runs runId agentId sessionKey now spawnError).1 = .error notSupported := by
  have hkill : entry.kill now spawnError = .error notSupported := by
    rw [AsyncToolRunEntry.kill, if_neg fun hne => hne hrunning, hprocess]
    rfl
  simp only [killForSession, hrun, if_pos hbelongs, hkill]

/-- A run that was running and whose kill did not fail is killed. -/
theorem status_of_kill {snapshot : AsyncToolRunSnapshot} (hrunning : isRunning runs runId = true)
    (hok : (killForSession runs runId agentId sessionKey now spawnError).1 = .ok snapshot) :
    snapshot.status = .killed := by
  rcases killForSession_own runs runId agentId sessionKey now spawnError with
    ⟨e, hkill⟩ | ⟨entry, entry', hentry, -, hkilled, hkill⟩
  · rw [hkill] at hok
    cases hok
  · rw [hkill] at hok
    obtain rfl := Except.ok.inj hok
    rw [isRunning_of_some hentry, decide_eq_true_eq] at hrunning
    rcases AsyncToolRunEntry.kill_ok hkilled with ⟨hover, -⟩ | ⟨-, process, -, rfl⟩
    · exact absurd hrunning hover
    · rfl

end Kill

/-! ## What is listed -/

section Listed

variable {manager : AsyncRunManager} {order : List Text} {agentId sessionKey runId : Text}
  {entry : AsyncToolRunEntry}

/-- Every running run of the session is listed, when the order is that of the keys. -/
theorem mem_listed_of_running (hsound : manager.Sound) (horder : order.Perm (runKeys manager))
    (hrun : manager.table.runs runId = some entry)
    (hbelongs : entry.belongsTo agentId sessionKey = true) (hrunning : entry.status = .running) :
    runId ∈ listed agentId sessionKey manager order := by
  have hkey : runId ∈ order := by
    refine horder.mem_iff.mpr (List.mem_filter.mpr ⟨(hsound.entries runId entry hrun).2.1, ?_⟩)
    rw [hrun]
    rfl
  refine List.mem_map.mpr ⟨entry.snapshot runId, List.mem_filter.mpr ⟨?_, ?_⟩, rfl⟩
  · rw [listForSession, List.mem_insertionSort, List.mem_filterMap]
    refine ⟨runId, hkey, ?_⟩
    rw [hrun, Option.bind_some, if_pos hbelongs]
  · exact decide_eq_true hrunning

/-- What is listed is a running run of the session. -/
theorem running_of_mem_listed (h : runId ∈ listed agentId sessionKey manager order) :
    ∃ entry, manager.table.runs runId = some entry ∧
      entry.belongsTo agentId sessionKey = true ∧ entry.status = .running := by
  obtain ⟨snapshot, hmem, rfl⟩ := List.mem_map.mp h
  obtain ⟨hlisted, hstatus⟩ := List.mem_filter.mp hmem
  obtain ⟨runId, entry, hrun, hbelongs, rfl⟩ := mem_listForSession hlisted
  exact ⟨entry, hrun, hbelongs, of_decide_eq_true hstatus⟩

/-- Nothing is listed twice. -/
theorem nodup_listed (horder : order.Nodup) :
    (listed agentId sessionKey manager order).Nodup := by
  have hitems : ((listForSession order manager.table.runs agentId sessionKey).map
      AsyncToolRunSnapshot.runId).Nodup := by
    rw [listForSession, ((List.perm_insertionSort _ _).map _).nodup_iff, List.map_filterMap]
    refine horder.filterMap fun id id' found hfound hfound' => ?_
    have hid (id : Text) (h : found ∈ ((manager.table.runs id).bind fun entry =>
        if entry.belongsTo agentId sessionKey then some (entry.snapshot id) else none).map
          AsyncToolRunSnapshot.runId) : found = id := by
      obtain ⟨snapshot, hsnapshot, rfl⟩ := Option.map_eq_some_iff.mp h
      obtain ⟨entry, -, hite⟩ := Option.bind_eq_some_iff.mp hsnapshot
      obtain ⟨-, heq⟩ := Option.ite_none_right_eq_some.mp hite
      rw [← Option.some.inj heq]
      rfl
    exact (hid id hfound).symm.trans (hid id' hfound')
  exact hitems.sublist (List.filter_sublist.map _)

end Listed

/-! ## The command along a run -/

/-- How far the command has come since it listed the runs. -/
structure Follows (before : AsyncRunManager) (runIds : List Text) (s : StopCommand) : Prop where
  sound : s.manager.Sound
  keeps : before.Keeps s.manager
  order : s.attempts.map KillAttempt.runId ++ s.rest = runIds
  count : s.killedCount = s.attempts.countP (·.result.isOk)
  processes : ∀ a ∈ s.attempts, ∀ entry, before.table.runs a.runId = some entry →
    entry.kind = .process → isRunning s.manager.table.runs a.runId = false ∨ a.CouldNotStart
  delegated : ∀ a ∈ s.attempts, ∀ entry, before.table.runs a.runId = some entry →
    entry.kind = .delegated → a.wasRunning = true → a.result = .error notSupported
  killed : ∀ a ∈ s.attempts, a.wasRunning = true → a.result.isOk = true → a.moved = true

variable {before : AsyncRunManager} {s s' : StopCommand} {agentId sessionKey : Text}
  {runIds : List Text}

/-- A run that has been started and is over does not run again. -/
theorem not_running_of_keeps {manager manager' : AsyncRunManager} {runId : Text}
    (h : manager.Keeps manager') (hstarted : runId ∈ manager.table.started)
    (hover : isRunning manager.table.runs runId = false) :
    isRunning manager'.table.runs runId = false := by
  rw [← Bool.not_eq_true]
  intro hrunning
  obtain ⟨entry', hentry', hstatus⟩ := isRunning_iff.mp hrunning
  obtain ⟨entry, hentry, hcontinues⟩ := h.runs runId hstarted entry' hentry'
  rw [isRunning_of_some hentry, decide_eq_false_iff_not] at hover
  obtain ⟨claimed, rfl⟩ := hcontinues.ended hover
  exact hover hstatus

/-- What a run that was listed has become. -/
theorem Follows.entry (h : s.Follows before runIds) (hsound : before.Sound) {runId : Text}
    {entry entry' : AsyncToolRunEntry} (hentry : before.table.runs runId = some entry)
    (hentry' : s.manager.table.runs runId = some entry') :
    entry.Continues entry' ∧ entry'.WellFormed := by
  have hstarted := (hsound.entries runId entry hentry).2.1
  obtain ⟨entry₁, hentry₁, hcontinues⟩ := h.keeps.runs runId hstarted entry' hentry'
  obtain rfl := Option.some.inj (hentry.symm.trans hentry₁)
  exact ⟨hcontinues, (h.sound.entries runId entry' hentry').1⟩

/-- Another step of the manager. -/
theorem Follows.onward (h : s.Follows before runIds) (hsound : before.Sound)
    {action : ManagerAction} {manager : AsyncRunManager}
    (hstep : s.manager.step action = some manager) :
    ({ s with manager } : StopCommand).Follows before runIds where
  sound := h.sound.step action hstep
  keeps := h.keeps.trans (h.sound.keeps action hstep)
  order := h.order
  count := h.count
  processes := by
    intro a ha entry hentry hkind
    rcases h.processes a ha entry hentry hkind with hover | hnot
    · refine .inl (not_running_of_keeps (h.sound.keeps action hstep) ?_ hover)
      exact h.keeps.started _ (hsound.entries a.runId entry hentry).2.1
    · exact .inr hnot
  delegated := h.delegated
  killed := h.killed

/-- **The next kill of the command.** -/
theorem Follows.killNext (h : s.Follows before runIds) (hsound : before.Sound)
    (hlisted : ∀ runId ∈ runIds, ∃ entry, before.table.runs runId = some entry ∧
      entry.belongsTo agentId sessionKey = true ∧ entry.status = .running)
    {now : Nat} {spawnError : Option Text}
    (hstep : step agentId sessionKey s (.killNext now spawnError) = some s') :
    s'.Follows before runIds := by
  rw [step] at hstep
  cases hrest : s.rest with
  | nil => simp only [hrest] at hstep; cases hstep
  | cons runId rest =>
      simp only [hrest] at hstep
      obtain ⟨manager, hmanager, rfl⟩ := Option.map_eq_some_iff.mp hstep
      have honward := h.onward hsound hmanager
      have hruns : manager.table.runs =
          (killForSession s.manager.table.runs runId agentId sessionKey now spawnError).2 := by
        rw [← Option.some.inj hmanager]
      have hlast {p : KillAttempt → Prop} {a : KillAttempt} (hall : ∀ a ∈ s.attempts, p a)
          (hp : p a) : ∀ b ∈ s.attempts ++ [a], p b := by
        intro b hb
        rcases List.mem_append.mp hb with hb | hb
        · exact hall b hb
        · rwa [List.mem_singleton.mp hb]
      -- the run is one of those listed, and its entry has gone on from the one listed
      obtain ⟨old, hold, hbelongs, -⟩ := hlisted runId (by rw [← h.order, hrest]; simp)
      have hnow : ∀ entry, s.manager.table.runs runId = some entry →
          entry.belongsTo agentId sessionKey = true ∧ old.Continues entry ∧ entry.WellFormed := by
        intro entry hentry
        obtain ⟨hcontinues, hformed⟩ := h.entry hsound hold hentry
        rw [belongsTo_iff] at hbelongs ⊢
        exact ⟨by rwa [hcontinues.agentId, hcontinues.sessionKey], hcontinues, hformed⟩
      constructor
      case sound => exact honward.sound
      case keeps => exact honward.keeps
      case order =>
        rw [List.map_append, List.map_singleton, List.append_assoc, List.singleton_append,
          ← h.order, hrest]
      case count =>
        rw [List.countP_append, List.countP_singleton, h.count]
        split <;> rfl
      case processes =>
        refine hlast honward.processes fun entry hentry hkind => ?_
        obtain rfl := Option.some.inj (hold.symm.trans hentry)
        rw [hruns]
        refine kill_process fun entry hentry => ?_
        obtain ⟨hown, hcontinues, hformed⟩ := hnow entry hentry
        exact ⟨hown, hformed.process.mpr (hcontinues.kind.trans hkind)⟩
      case delegated =>
        refine hlast honward.delegated fun entry hentry hkind hrunning => ?_
        obtain rfl := Option.some.inj (hold.symm.trans hentry)
        obtain ⟨entry, hentry, hstatus⟩ := isRunning_iff.mp hrunning
        obtain ⟨hown, hcontinues, hformed⟩ := hnow entry hentry
        refine kill_delegated hentry hown hstatus ?_
        rw [← Option.not_isSome_iff_eq_none, hformed.process, hcontinues.kind, hkind]
        exact AsyncToolRunKind.noConfusion
      case killed =>
        exact hlast honward.killed fun hrunning hok =>
          KillAttempt.moved_of_isOk hrunning hok fun snapshot => status_of_kill hrunning

theorem Follows.step (h : s.Follows before runIds) (hsound : before.Sound)
    (hlisted : ∀ runId ∈ runIds, ∃ entry, before.table.runs runId = some entry ∧
      entry.belongsTo agentId sessionKey = true ∧ entry.status = .running)
    {action : StopAction} (hstep : step agentId sessionKey s action = some s') :
    s'.Follows before runIds := by
  cases action with
  | manager action =>
      obtain ⟨manager, hmanager, rfl⟩ := Option.map_eq_some_iff.mp hstep
      exact h.onward hsound hmanager
  | killNext now spawnError => exact h.killNext hsound hlisted hstep

/-- What has come of a command that has returned. -/
theorem Follows.stopsProcesses (h : s.Follows before runIds) (hreturned : s.rest = [])
    (hnodup : runIds.Nodup)
    (hall : ∀ runId entry, before.table.runs runId = some entry →
      entry.belongsTo agentId sessionKey = true → entry.status = .running → runId ∈ runIds) :
    s.StopsProcesses agentId sessionKey before := by
  have hattempts : s.attempts.map KillAttempt.runId = runIds := by
    rw [← h.order, hreturned, List.append_nil]
  constructor
  case stopped =>
    intro runId entry hentry hbelongs hrunning hkind
    have hmem := hall runId entry hentry hbelongs hrunning
    rw [← hattempts] at hmem
    obtain ⟨a, ha, rfl⟩ := List.mem_map.mp hmem
    exact (h.processes a ha entry hentry hkind).imp_right fun hnot => ⟨a, ha, rfl, hnot⟩
  case refused => exact h.delegated
  case once => rwa [hattempts]
  case counted =>
    intro hrunning
    rw [response, if_pos hreturned, h.count]
    refine congrArg (some ∘ stopResponse) (List.countP_congr fun a ha => ?_)
    exact ⟨h.killed a ha (hrunning a ha), KillAttempt.isOk_of_moved⟩

/-- A computed command that has returned and passes a test. -/
theorem exists_returned_of_exec (agentId sessionKey : Text) (actions : List ManagerAction)
    (order : List Text) (later : List StopAction) (p : AsyncRunManager → StopCommand → Bool)
    (h : ((exec AsyncRunManager.step AsyncRunManager.new actions).bind fun tr =>
      (list agentId sessionKey (Run.final AsyncRunManager.new tr) order).bind fun start =>
      (exec (step agentId sessionKey) start later).map fun later =>
        decide ((Run.final start later).rest = []) &&
          p (Run.final AsyncRunManager.new tr) (Run.final start later)) = some true) :
    ∃ before s, Returned agentId sessionKey before s ∧ p before s = true := by
  obtain ⟨tr, htr, h⟩ := Option.bind_eq_some_iff.mp h
  obtain ⟨start, hstart, h⟩ := Option.bind_eq_some_iff.mp h
  obtain ⟨later, hlater, h⟩ := Option.map_eq_some_iff.mp h
  obtain ⟨hreturned, hp⟩ := Bool.and_eq_true_iff.mp h
  exact ⟨_, _, ⟨tr, order, start, later, run_of_exec htr, rfl, hstart, run_of_exec hlater, rfl,
    of_decide_eq_true hreturned⟩, hp⟩

/-- A process and a delegated run. -/
def startsBoth : List ManagerAction :=
  [.take, .start 1 "exec" "main" "s" (.process "make" 7) true 0 [runIdOf 0 1],
    .take, .start 2 "task" "main" "s" (.delegated "look") true 0 [runIdOf 0 1, runIdOf 0 2]]

/-- A process. -/
def startsProcess : List ManagerAction :=
  [.take, .start 1 "exec" "main" "s" (.process "make" 7) true 0 [runIdOf 0 1]]

/-- A run of the session that was running before the command and is running after it. -/
def stillRuns (runId : Text) (before : AsyncRunManager) (s : StopCommand) : Bool :=
  (before.table.runs runId).any (fun entry =>
    entry.belongsTo "main" "s" && entry.status = .running) &&
      isRunning s.manager.table.runs runId

theorem not_stopsEverything_of_stillRuns {runId : Text} (h : stillRuns runId before s = true) :
    ¬ s.StopsEverything "main" "s" before := by
  intro hall
  obtain ⟨hbefore, hrunning⟩ := Bool.and_eq_true_iff.mp h
  obtain ⟨entry, hentry, hp⟩ := (Option.any_eq_true _ _).mp hbefore
  obtain ⟨hbelongs, hstatus⟩ := Bool.and_eq_true_iff.mp hp
  have hstopped := hall.stopped runId entry hentry hbelongs (of_decide_eq_true hstatus)
  rw [hrunning] at hstopped
  cases hstopped

end StopCommand

end Gateway
end SimpleClaw
