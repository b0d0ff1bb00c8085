import SimpleClaw.Lib.Notify
import SimpleClaw.Tools.AsyncIsolation

/-!
# Waking the calls that wait

A call that waits claims its runs under the lock and takes the notifier of each that is still
running.  The futures that listen to the notifiers are created after the lock has been given up,
one by one, when `join_all` polls them for the first time.  A run that completes or is killed
notifies the futures that listen at that moment, and no others.

A wakeup here is a notification.  The time a call waits at most ends its wait too; a future whose
time is over listens no more.

* `AsyncWaits.step`: the manager, with the futures of each call.
* `LostWakeup`: a future listens to a run that is over and has not been woken.
* `run_manager`: the manager itself takes no other steps than without them.
* `no_lost_wakeup`: there is none as long as no run ends between its claim and the creation of
  the future that listens to it.
* `lost_of_gap`: as soon as a run ends there, a wakeup is lost.
-/

namespace SimpleClaw
namespace Tools

open Transition

/-! ## The runs that go on -/

section Operations

variable {runs : RunTable} {id agentId sessionKey : Text}

theorem isRunning_claimRuns (runIds : List Text) :
    isRunning (claimRuns agentId sessionKey runs runIds).2 id = isRunning runs id := by
  rw [isRunning, claimRuns_apply]
  split
  · exact Option.any_map
  · rfl

theorem isRunning_unclaimRuns (runIds : List Text) :
    isRunning (unclaimRuns runs runIds) id = isRunning runs id := by
  rw [isRunning, unclaimRuns_apply]
  split
  · exact Option.any_map
  · rfl

theorem isRunning_autoEvict (order : List Text) (h : isRunning runs id = true) :
    isRunning (autoEvict order runs) id = true := by
  rw [isRunning, autoEvict, if_neg]
  · exact h
  · intro hmem
    obtain ⟨entry, hrun, hover⟩ := status_of_mem_evicted hmem
    rw [isRunning_of_some hrun, decide_eq_true_eq] at h
    exact hover h

end Operations

namespace AsyncRunManager

/-- The run whose waiters a step notifies: one that is running and completes or is killed. -/
def notifies (runs : RunTable) : ManagerAction → Option Text
  | .other (.complete runId _ _) => if isRunning runs runId then some runId else none
  | .other (.kill runId agentId sessionKey now spawnError) =>
      if isRunning runs runId &&
          (killForSession runs runId agentId sessionKey now spawnError).1.isOk then some runId
      else none
  | .take | .start _ _ _ _ _ _ _ _ | .other (.start _ _ _ _ _ _ _) | .other (.decide _)
  | .other (.wait _ _ _) | .other (.wake _) | .other (.check _) | .other (.unclaim _)
  | .other (.collect _) => none

variable {s s' : AsyncRunManager} {id : Text}

/-- A kill ends the run it notifies the waiters of, and no other. -/
theorem isRunning_kill {runs : RunTable} {runId agentId sessionKey : Text} {now : Nat}
    {spawnError : Option Text} (hrunning : isRunning runs id = true)
    (hnot : notifies runs (.other (.kill runId agentId sessionKey now spawnError)) ≠ some id) :
    isRunning (killForSession runs runId agentId sessionKey now spawnError).2 id = true := by
  rcases killForSession_own runs runId agentId sessionKey now spawnError with
    ⟨e, hkill⟩ | ⟨entry, entry', -, -, -, hkill⟩
  · rw [hkill]
    exact hrunning
  · have hne : id ≠ runId := by
      rintro rfl
      refine hnot ?_
      rw [notifies, hrunning, hkill]
      rfl
    rw [hkill]
    show (Function.update runs runId (some entry') id).any _ = true
    rw [Function.update_of_ne hne]
    exact hrunning

/-- A completion ends the run it notifies the waiters of, and no other. -/
theorem isRunning_markCompleted {runs : RunTable} {runId : Text} {outcome : CompletionOutcome}
    {now : Nat} (hrunning : isRunning runs id = true)
    (hnot : notifies runs (.other (.complete runId outcome now)) ≠ some id) :
    isRunning (markCompleted runs runId outcome now) id = true := by
  cases hrun : isRunning runs runId with
  | false => rwa [markCompleted_of_not_running hrun]
  | true =>
      obtain ⟨entry, hentry, hstatus⟩ := isRunning_iff.mp hrun
      have hne : id ≠ runId := by
        rintro rfl
        exact hnot (if_pos hrun)
      rw [markCompleted_of_running hentry hstatus, isRunning, Function.update_of_ne hne]
      exact hrunning

/-- **A run goes on** unless the step notifies its waiters. -/
theorem isRunning_step {action : ManagerAction} (h : s.step action = some s')
    (hrunning : isRunning s.table.runs id = true)
    (hnot : notifies s.table.runs action ≠ some id) : isRunning s'.table.runs id = true := by
  cases action with
  | take =>
      obtain rfl := Option.some.inj h
      exact hrunning
  | start seq toolName agentId sessionKey request hasRoute now order =>
      obtain ⟨-, -, -, -, -, -, hruns⟩ := step_start h
      rw [hruns]
      refine isRunning_autoEvict order ?_
      by_cases hid : id = runIdOf now seq
      · rw [hid, isRunning, Function.update_self]
        rfl
      · rwa [isRunning, Function.update_of_ne hid]
  | other action =>
      have hstep := (step_other h).1
      generalize s'.table = t' at hstep
      cases action with
      | start toolName agentId sessionKey request hasRoute now order => cases h
      | complete runId outcome now =>
          obtain ⟨w, -, -, rfl⟩ := AsyncRuns.step_complete hstep
          exact isRunning_markCompleted hrunning hnot
      | decide runId =>
          obtain ⟨w, byItself, -, -, rfl⟩ := AsyncRuns.step_decide hstep
          exact hrunning
      | kill runId agentId sessionKey now spawnError =>
          obtain rfl := Option.some.inj hstep
          exact isRunning_kill hrunning hnot
      | wait runIds agentId sessionKey =>
          obtain ⟨pending, phase, rfl, -⟩ := AsyncRuns.step_wait hstep
          exact (isRunning_claimRuns runIds).trans hrunning
      | wake call =>
          obtain ⟨c, -, -, rfl⟩ := AsyncRuns.step_wake hstep
          exact hrunning
      | check call =>
          obtain ⟨c, runId, rest, stillRunning, -, -, hget⟩ := AsyncRuns.step_check hstep
          rcases hget with ⟨e, -, rfl⟩ | ⟨snapshot, -, rfl⟩ <;> exact hrunning
      | unclaim call =>
          obtain ⟨c, stillRunning, -, -, rfl⟩ := AsyncRuns.step_unclaim hstep
          exact (isRunning_unclaimRuns stillRunning).trans hrunning
      | collect call =>
          obtain ⟨c, -, hcases⟩ := AsyncRuns.step_collect hstep
          rcases hcases with ⟨snapshots, -, rfl⟩ | ⟨runId, rest, snapshots, -, hget⟩
          · exact hrunning
          · rcases hget with ⟨e, -, rfl⟩ | ⟨snapshot, -, rfl⟩ <;> exact hrunning

/-- A run whose waiters have been notified is over. -/
theorem isRunning_of_notifies {action : ManagerAction} (h : s.step action = some s')
    (hnotifies : notifies s.table.runs action = some id) :
    isRunning s'.table.runs id = false := by
  cases action with
  | take => cases hnotifies
  | start seq toolName agentId sessionKey request hasRoute now order => cases hnotifies
  | other action =>
      have hstep := (step_other h).1
      generalize s'.table = t' at hstep
      cases action with
      | complete runId outcome now =>
          rw [notifies, Option.ite_none_right_eq_some] at hnotifies
          obtain ⟨hrunning, rfl⟩ : isRunning s.table.runs runId = true ∧ runId = id :=
            ⟨hnotifies.1, Option.some.inj hnotifies.2⟩
          obtain ⟨entry, hentry, hstatus⟩ := isRunning_iff.mp hrunning
          obtain ⟨w, -, -, rfl⟩ := AsyncRuns.step_complete hstep
          show isRunning (markCompleted s.table.runs runId outcome now) runId = false
          rw [markCompleted_of_running hentry hstatus,
            isRunning_of_some (Function.update_self ..), complete_status]
          rfl
      | kill runId agentId sessionKey now spawnError =>
          rw [notifies, Option.ite_none_right_eq_some, Bool.and_eq_true] at hnotifies
          obtain ⟨⟨hrunning, hok⟩, hid⟩ := hnotifies
          obtain rfl := Option.some.inj hid
          obtain rfl := Option.some.inj hstep
          show isRunning (killForSession s.table.runs runId agentId sessionKey now spawnError).2
            runId = false
          rcases killForSession_own s.table.runs runId agentId sessionKey now spawnError with
            ⟨e, hkill⟩ | ⟨entry, entry', hentry, -, hkilled, hkill⟩
          · rw [hkill] at hok
            cases hok
          · rw [isRunning_of_some hentry, decide_eq_true_eq] at hrunning
            rcases AsyncToolRunEntry.kill_ok hkilled with ⟨hover, -⟩ | ⟨-, process, -, rfl⟩
            · exact absurd hrunning hover
            · rw [hkill, isRunning_of_some (Function.update_self ..)]
              rfl
      | start | decide | wait | wake | check | unclaim | collect => cases hnotifies

end AsyncRunManager

/-! ## The calls and their futures -/

/-- The manager with the futures of each call, in the order of the calls. -/
structure AsyncWaits where
  manager : AsyncRunManager
  futures : List (List (Notify.Future Text))

/-- One step: one of the manager; or a future of a call is polled for the first time, has been
woken and is over, or is over because its time is. -/
inductive WaitAction where
  | manager (action : ManagerAction)
  | poll (call : Nat)
  | resume (call future : Nat)
  | expire (call future : Nat)

namespace AsyncWaits

def new : AsyncWaits where
  manager := AsyncRunManager.new
  futures := []

/-- A call goes on when all its futures are over. -/
def joined (s : AsyncWaits) : ManagerAction → Bool
  | .other (.wake call) => s.futures[call]?.any Notify.allDone
  | .take | .start _ _ _ _ _ _ _ _ | .other (.start _ _ _ _ _ _ _) | .other (.complete _ _ _)
  | .other (.decide _) | .other (.kill _ _ _ _ _) | .other (.wait _ _ _) | .other (.check _)
  | .other (.unclaim _) | .other (.collect _) => true

/-- The futures of a call that has just claimed its runs: one for each that was running. -/
def claimedFutures (manager : AsyncRunManager) : List (Notify.Future Text) :=
  ((manager.table.calls.getLast?.map WaitCall.pending).getD []).map fun runId =>
    ⟨runId, .unpolled⟩

/-- The futures of the calls there are, once a step of the manager has notified them. -/
def notified (s : AsyncWaits) (action : ManagerAction) : List (List (Notify.Future Text)) :=
  match AsyncRunManager.notifies s.manager.table.runs action with
  | some runId => s.futures.map (Notify.notify runId)
  | none => s.futures

/-- The futures of a call that begins with a step of the manager, which leads to `manager`. -/
def opened (action : ManagerAction) (manager : AsyncRunManager) :
    List (List (Notify.Future Text)) :=
  match action with
  | .other (.wait _ _ _) => [claimedFutures manager]
  | _ => []

/-- A step of the futures of one call. -/
def onCall (s : AsyncWaits) (call : Nat)
    (f : List (Notify.Future Text) → Option (List (Notify.Future Text))) : Option AsyncWaits :=
  (s.futures[call]?.bind f).map fun fs => { s with futures := s.futures.set call fs }

def step (s : AsyncWaits) : WaitAction → Option AsyncWaits
  | .manager action =>
      if s.joined action then
        (s.manager.step action).map fun manager =>
          ⟨manager, s.notified action ++ opened action manager⟩
      else none
  | .poll call => s.onCall call Notify.pollNext
  | .resume call future => s.onCall call fun fs => Notify.resume fs future
  | .expire call future => s.onCall call fun fs => Notify.expire fs future

/-- The runs that go on. -/
def live (s : AsyncWaits) (runId : Text) : Bool := isRunning s.manager.table.runs runId

/-- **A lost wakeup**: a call listens to a run that is over, and has not been woken. -/
def LostWakeup (s : AsyncWaits) : Prop := ∃ fs ∈ s.futures, Notify.Lost s.live fs

/-- No run ends that a call has claimed and does not listen to yet. -/
def NoGap (s : AsyncWaits) : WaitAction → Prop
  | .manager action =>
      ∀ runId, AsyncRunManager.notifies s.manager.table.runs action = some runId →
        ∀ fs ∈ s.futures, ∀ f ∈ fs, f.key = runId → f.phase ≠ .unpolled
  | .poll _ | .resume _ _ | .expire _ _ => True

/-- The steps of the manager in a run. -/
def managerSteps (tr : List (WaitAction × AsyncWaits)) : List (ManagerAction × AsyncRunManager) :=
  tr.filterMap fun x =>
    match x.1 with
    | .manager action => some (action, x.2.manager)
    | .poll _ | .resume _ _ | .expire _ _ => none

/-! ### One step -/

/-- Every future that has not been woken has a run that goes on. -/
def Sound (s : AsyncWaits) : Prop := ∀ fs ∈ s.futures, Notify.Listening s.live fs

variable {s s' : AsyncWaits}

theorem Sound.not_lostWakeup (h : s.Sound) : ¬ s.LostWakeup := by
  rintro ⟨fs, hfs, hlost⟩
  exact (h fs hfs).not_lost hlost

theorem step_manager {action : ManagerAction} (h : s.step (.manager action) = some s') :
    s.manager.step action = some s'.manager ∧
      s'.futures = s.notified action ++ opened action s'.manager := by
  rw [step] at h
  split at h
  · obtain ⟨manager, hstep, rfl⟩ := Option.map_eq_some_iff.mp h
    exact ⟨hstep, rfl⟩
  · cases h

/-- A step of the futures of a call is none of the manager. -/
theorem onCall_some {call : Nat}
    {f : List (Notify.Future Text) → Option (List (Notify.Future Text))}
    (h : s.onCall call f = some s') :
    ∃ fs fs', s.futures[call]? = some fs ∧ f fs = some fs' ∧
      s' = { s with futures := s.futures.set call fs' } := by
  obtain ⟨fs', hbind, rfl⟩ := Option.map_eq_some_iff.mp h
  obtain ⟨fs, hfs, hf⟩ := Option.bind_eq_some_iff.mp hbind
  exact ⟨fs, fs', hfs, hf, rfl⟩

theorem Sound.onCall {call : Nat}
    {f : List (Notify.Future Text) → Option (List (Notify.Future Text))} (h : s.Sound)
    (hf : ∀ fs fs', Notify.Listening s.live fs → f fs = some fs' → Notify.Listening s.live fs')
    (hstep : s.onCall call f = some s') : s'.Sound := by
  obtain ⟨fs, fs', hfs, hf', rfl⟩ := onCall_some hstep
  intro gs hgs
  rcases List.mem_or_eq_of_mem_set hgs with hgs | rfl
  · exact h gs hgs
  · exact hf fs gs (h fs (List.mem_of_getElem? hfs)) hf'

/-- The futures of a call that claims its runs are of runs that go on. -/
theorem listening_claimedFutures {manager manager' : AsyncRunManager} {runIds : List Text}
    {agentId sessionKey : Text}
    (h : manager.step (.other (.wait runIds agentId sessionKey)) = some manager') :
    Notify.Listening (isRunning manager'.table.runs) (claimedFutures manager') := by
  refine Notify.listening_unpolled fun runId hmem => ?_
  have hstep := (AsyncRunManager.step_other h).1
  generalize manager'.table = t' at hstep hmem
  obtain ⟨pending, phase, rfl, hcases⟩ := AsyncRuns.step_wait hstep
  have hlast : runId ∈ pending := by
    simpa using hmem
  rw [isRunning_claimRuns]
  rcases hcases with ⟨e, -, rfl, -⟩ | ⟨claimed, -, rfl, -⟩
  · cases hlast
  · exact (List.mem_filter.mp hlast).2

theorem listening_opened {manager manager' : AsyncRunManager} {action : ManagerAction}
    (h : manager.step action = some manager') :
    ∀ fs ∈ opened action manager', Notify.Listening (isRunning manager'.table.runs) fs := by
  intro fs hfs
  unfold opened at hfs
  split at hfs
  · obtain rfl := List.mem_singleton.mp hfs
    exact listening_claimedFutures h
  · cases hfs

theorem Sound.notified {action : ManagerAction} (h : s.Sound) (hgap : s.NoGap (.manager action))
    (hmanager : s.manager.step action = some s'.manager) :
    ∀ fs ∈ s.notified action, Notify.Listening s'.live fs := by
  have hlive : ∀ id, AsyncRunManager.notifies s.manager.table.runs action ≠ some id →
      s.live id = true → s'.live id = true :=
    fun id hnot hrunning => AsyncRunManager.isRunning_step hmanager hrunning hnot
  intro fs hfs
  unfold AsyncWaits.notified at hfs
  split at hfs
  · next runId hnotifies =>
    obtain ⟨gs, hgs, rfl⟩ := List.mem_map.mp hfs
    refine (h gs hgs).notify (hgap runId hnotifies gs hgs) fun id hne => hlive id ?_
    rw [hnotifies]
    exact fun heq => hne (Option.some.inj heq).symm
  · next hnotifies =>
    refine (h fs hfs).mono fun id => hlive id ?_
    rw [hnotifies]
    exact Option.some_ne_none id |>.symm

/-- **One step of the manager.** -/
theorem Sound.manager {action : ManagerAction} (h : s.Sound) (hgap : s.NoGap (.manager action))
    (hstep : s.step (.manager action) = some s') : s'.Sound := by
  obtain ⟨hmanager, hfutures⟩ := step_manager hstep
  intro fs hfs
  rw [hfutures, List.mem_append] at hfs
  rcases hfs with hfs | hfs
  · exact h.notified hgap hmanager fs hfs
  · exact listening_opened hmanager fs hfs

/-- **One step.** -/
theorem Sound.step {action : WaitAction} (h : s.Sound) (hgap : s.NoGap action)
    (hstep : s.step action = some s') : s'.Sound := by
  cases action with
  | manager action => exact h.manager hgap hstep
  | poll call => exact h.onCall (fun _ _ hfs hpoll => hfs.pollNext hpoll) hstep
  | resume call future => exact h.onCall (fun _ _ hfs hresume => hfs.resume hresume) hstep
  | expire call future => exact h.onCall (fun _ _ hfs hexpire => hfs.expire hexpire) hstep

/-! ### Runs -/

/-- The manager takes no other steps than it takes by itself. -/
theorem run_manager {tr : List (WaitAction × AsyncWaits)} (hrun : Run step s tr) :
    Run AsyncRunManager.step s.manager (managerSteps tr) := by
  induction hrun with
  | nil s => exact .nil s.manager
  | @cons s s' action tr hstep _ ih =>
      have hsame {call : Nat}
          {f : List (Notify.Future Text) → Option (List (Notify.Future Text))}
          (honCall : s.onCall call f = some s') : s'.manager = s.manager := by
        obtain ⟨fs, fs', -, -, rfl⟩ := onCall_some honCall
        rfl
      cases action with
      | manager action => exact .cons (step_manager hstep).1 ih
      | poll call | resume call future | expire call future =>
          have hmanager := hsame hstep
          rw [hmanager] at ih
          exact ih

/-- **No wakeup is lost** in a run in which no run of a tool ends between the claim of a call and
the moment the call listens to it. -/
theorem no_lost_wakeup {tr : List (WaitAction × AsyncWaits)} (hrun : Run step new tr)
    (hgap : Run.StepsMeet NoGap new tr) : ∀ x ∈ tr, ¬ x.2.LostWakeup := by
  have hsound : ∀ x ∈ tr, x.2.Sound :=
    Run.invariant_of_stepsMeet (J := Sound) (fun _ _ _ h hC hstep => h.step hC hstep) hrun
      (fun fs hfs => by cases hfs) hgap
  exact fun x hx => (hsound x hx).not_lostWakeup

theorem exec_poll {call n : Nat} {fs fs' : List (Notify.Future Text)}
    (hfs : s.futures[call]? = some fs) (hpoll : Notify.pollTimes n fs = some fs') :
    ∃ tr, exec step s (List.replicate n (.poll call)) = some tr ∧
      Run.final s tr = { s with futures := s.futures.set call fs' } := by
  induction n generalizing s fs with
  | zero =>
      obtain rfl := Option.some.inj hpoll
      have hset : s.futures.set call fs = s.futures := by
        obtain ⟨hlt, rfl⟩ := List.getElem?_eq_some_iff.mp hfs
        exact List.set_getElem_self hlt
      exact ⟨[], rfl, by rw [hset, Run.final_nil]⟩
  | succ n ih =>
      obtain ⟨gs, hnext, hrest⟩ := Option.bind_eq_some_iff.mp hpoll
      have hstep : s.step (.poll call) = some { s with futures := s.futures.set call gs } := by
        rw [step, onCall, hfs, Option.bind_some, hnext, Option.map_some]
      obtain ⟨tr, hexec, hfinal⟩ :=
        ih (s := { s with futures := s.futures.set call gs })
          (Table.getElem?_set_self_of_getElem? hfs) hrest
      refine ⟨_, exec_cons hstep hexec, ?_⟩
      rw [Run.final_cons, hfinal, List.set_set]

/-- **A run that ends in the gap** loses the wakeup of a call that claimed it: once the call
listens, nothing wakes it. -/
theorem lost_of_gap {action : ManagerAction} (hstep : s.step (.manager action) = some s')
    (hgap : ¬ s.NoGap (.manager action)) :
    ∃ call n tr, exec step s' (List.replicate n (.poll call)) = some tr ∧
      (Run.final s' tr).LostWakeup := by
  obtain ⟨hmanager, hfutures⟩ := step_manager hstep
  simp only [NoGap, not_forall, not_not] at hgap
  obtain ⟨runId, hnotifies, fs, hfs, f, hf, rfl, hunpolled⟩ := hgap
  have hmem : Notify.notify f.key fs ∈ s'.futures := by
    rw [hfutures, notified, hnotifies]
    exact List.mem_append_left _ (List.mem_map_of_mem hfs)
  obtain ⟨call, hcall⟩ := List.mem_iff_getElem?.mp hmem
  have hover : s'.live f.key = false := AsyncRunManager.isRunning_of_notifies hmanager hnotifies
  obtain ⟨n, fs', hpoll, hlost⟩ :=
    Notify.exists_pollTimes_lost (Notify.mem_notify_of_unpolled hf hunpolled) hunpolled hover
  obtain ⟨tr, hexec, hfinal⟩ := exec_poll hcall hpoll
  refine ⟨call, n, tr, hexec, fs', ?_, ?_⟩
  · rw [hfinal]
    exact List.mem_of_getElem? (Table.getElem?_set_self_of_getElem? hcall)
  · rw [hfinal]
    exact hlost

/-! ### Two runs of the manager -/

/-- A call waits for a run that completes. -/
def completesAwaited : List WaitAction :=
  [.manager .take,
    .manager (.start 1 "task" "main" "s" (.delegated "look") true 0 [runIdOf 0 1]),
    .manager (.other (.wait [runIdOf 0 1] "main" "s")), .poll 0,
    .manager (.other (.complete (runIdOf 0 1) (.delegated (.ok "found")) 3)),
    .resume 0 0, .manager (.other (.wake 0))]

/-- The run completes before the call listens to it. -/
def completesInGap : List WaitAction :=
  [.manager .take,
    .manager (.start 1 "task" "main" "s" (.delegated "look") true 0 [runIdOf 0 1]),
    .manager (.other (.wait [runIdOf 0 1] "main" "s")),
    .manager (.other (.complete (runIdOf 0 1) (.delegated (.ok "found")) 3)), .poll 0]

def noGap (s : AsyncWaits) : WaitAction → Bool
  | .manager action =>
      match AsyncRunManager.notifies s.manager.table.runs action with
      | some runId => s.futures.all fun fs => fs.all fun f => f.key ≠ runId || f.phase ≠ .unpolled
      | none => true
  | .poll _ | .resume _ _ | .expire _ _ => true

theorem noGap_of_test (s : AsyncWaits) (action : WaitAction) (h : s.noGap action = true) :
    s.NoGap action := by
  cases action with
  | poll | resume | expire => trivial
  | manager action =>
      intro runId hnotifies fs hfs f hf hkey
      rw [noGap, hnotifies] at h
      have hf := List.all_eq_true.mp (List.all_eq_true.mp h fs hfs) f hf
      simpa [hkey] using hf

/-- The call listens in time. -/
theorem no_lost_wakeup_completesAwaited : ∃ tr, exec step new completesAwaited = some tr ∧
    ∀ x ∈ tr, ¬ x.2.LostWakeup := by
  obtain ⟨tr, hexec, hrun, hgap⟩ := exists_guarded_run_of_exec step new completesAwaited
    noGap_of_test (by decide +kernel)
  exact ⟨tr, hexec, no_lost_wakeup hrun hgap⟩

def lostWakeup (s : AsyncWaits) : Bool :=
  s.futures.any fun fs => fs.any fun f => f.phase = .waiting && !s.live f.key

/-- The call listens too late, and nothing will wake it. -/
theorem completion_in_gap_is_lost :
    ¬ ∀ tr : List (WaitAction × AsyncWaits), Run step new tr → ∀ x ∈ tr, ¬ x.2.LostWakeup := by
  intro h
  obtain ⟨tr, hrun, x, hx, hlost⟩ :=
    exists_run_of_exec step new completesInGap lostWakeup (by decide +kernel)
  obtain ⟨fs, hfs, hlost⟩ := List.any_eq_true.mp hlost
  obtain ⟨f, hf, hlost⟩ := List.any_eq_true.mp hlost
  obtain ⟨hwaiting, hover⟩ := Bool.and_eq_true_iff.mp hlost
  exact h tr hrun x hx
    ⟨fs, hfs, f, hf, of_decide_eq_true hwaiting, Bool.not_eq_true' _ |>.mp hover⟩

end AsyncWaits

end Tools
end SimpleClaw
