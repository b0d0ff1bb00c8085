import SimpleClaw.Lib.Runs
import SimpleClaw.Tools.AsyncRuns

/-!
# Announcing the completion of a run

A run with a route that completes by itself is to be announced: its watcher puts the completion
into the inbound queue, or a call that waits returns the run as completed; and a call that waited
for it to complete and the watcher do not both.  One flag says whether any call has claimed the
run, and each call sets and clears it for itself.

* `AsyncRuns.Delivered`: what is announced, and not twice.
* `AsyncRuns.keepsDelivery`: no call clears the flag of another, or fails and leaves one set; no
  run completes between a call's giving it up and its last look; no run is evicted before its
  watcher has looked at the flag.
* `delivered_of_keepsDelivery`: so long as that is so, every state of every run is delivered.
* `overlapping_waits_announce_twice`: two calls that wait for the same run.
-/

namespace SimpleClaw
namespace Tools

open Transition

/-! ## Announcements -/

/-- The run was still running when its watcher marked it. -/
def WatcherPhase.byItself : WatcherPhase → Bool
  | .running => false
  | .marked byItself | .decided byItself _ => byItself

def WatcherPhase.reinjected : WatcherPhase → Bool
  | .running | .marked _ => false
  | .decided _ reinjected => reinjected

def WaitPhase.inProgress : WaitPhase → Bool
  | .waiting | .checking _ _ | .collecting _ _ => true
  | .returned _ | .failed _ => false

def WaitPhase.snapshots : WaitPhase → List AsyncToolRunSnapshot
  | .collecting _ snapshots | .returned snapshots => snapshots
  | .waiting | .checking _ _ | .failed _ => []

namespace WaitCall

/-- The call has claimed the run, has not given it up and is under way. -/
def holds (c : WaitCall) (runId : Text) : Bool :=
  c.phase.inProgress && decide (runId ∈ c.runIds) && decide (runId ∉ c.released)

/-- One of the call's last snapshots shows the run as completed. -/
def reports (c : WaitCall) (runId : Text) : Bool :=
  c.phase.snapshots.any fun snapshot => snapshot.runId = runId && snapshot.status = .completed

/-- The call has returned the run as completed. -/
def returns (c : WaitCall) (runId : Text) : Bool := !c.phase.inProgress && c.reports runId

end WaitCall

namespace AsyncRuns

/-- The watcher has put the completion of the run into the queue. -/
def reinjected (s : AsyncRuns) (runId : Text) : Bool :=
  (s.watchers runId).any (·.phase.reinjected)

def announced (s : AsyncRuns) (runId : Text) : Bool :=
  s.reinjected runId || s.calls.any (·.returns runId)

/-- **What is announced, and not twice.**  A run with a route that has completed by itself is
announced once its watcher is through and no call that lists it is under way; and no run that is
reinjected is returned as completed by a call that found it running when it claimed it. -/
structure Delivered (s : AsyncRuns) : Prop where
  announced : ∀ runId w reinjected, s.watchers runId = some w → w.hasRoute = true →
    w.phase = .decided true reinjected →
    (∀ c ∈ s.calls, c.phase.inProgress = true → runId ∉ c.runIds) → s.announced runId = true
  once : ∀ runId, ∀ c ∈ s.calls, c.returns runId = true → runId ∈ c.pending →
    s.reinjected runId = false

/-! ## The guard -/

/-- A call other than this one holds the run. -/
def heldByOther (s : AsyncRuns) (call : Nat) (runId : Text) : Bool :=
  (s.calls.eraseIdx call).any (·.holds runId)

/-- The run has been killed, or is gone and has not completed by itself. -/
def dead (s : AsyncRuns) (runId : Text) : Bool :=
  (s.runs runId).all (·.status = .killed) && (s.watchers runId).all (!·.phase.byItself)

/-- No announcement is lost with a call that fails and has claimed the run: there is none to be
made, it has been made, or another call holds the run. -/
def spared (s : AsyncRuns) (call : Nat) (runId : Text) : Bool :=
  (s.watchers runId).all (!·.hasRoute) || s.dead runId || s.announced runId ||
    s.heldByOther call runId

/-- The run has completed by itself, nobody has claimed it, and its watcher is still to look. -/
def awaitsWatcher (s : AsyncRuns) (runId : Text) : Bool :=
  (s.watchers runId).any (fun w => w.hasRoute && w.phase = .marked true) &&
    (s.runs runId).any (!·.claimed)

/-- The table that `auto_evict` finds when a run is started. -/
def inserted (s : AsyncRuns) (toolName agentId sessionKey : Text) (request : RunRequest)
    (now : Nat) : RunTable :=
  Function.update s.runs (runIdOf now s.counter)
    (some (newEntry toolName agentId sessionKey request now))

/-- The call may fail here: every run it holds is spared. -/
def mayFail (s : AsyncRuns) (call : Nat) (c : WaitCall) : Bool :=
  c.runIds.all fun runId => decide (runId ∈ c.released) || s.spared call runId

/-- **The steps that keep deliveries.** -/
def keepsDelivery (s : AsyncRuns) : AsyncAction → Bool
  | .start toolName agentId sessionKey request _ now order =>
      -- eviction leaves the runs whose watchers are still to look
      (evicted order (s.inserted toolName agentId sessionKey request now)).all
        (!s.awaitsWatcher ·)
  | .wait runIds agentId sessionKey =>
      (claimRuns agentId sessionKey s.runs runIds).1.isOk ||
        (claimable agentId sessionKey s.runs runIds).all (s.spared s.calls.length)
  | .check call =>
      match s.calls[call]? with
      | some c =>
          match c.phase with
          | .checking (runId :: _) _ =>
              (getForSession s.runs runId c.agentId c.sessionKey).isOk || s.mayFail call c
          | .checking [] _ | .waiting | .collecting _ _ | .returned _ | .failed _ => true
      | none => true
  | .unclaim call =>
      match s.calls[call]? with
      | some c =>
          match c.phase with
          | .checking _ stillRunning =>
              -- nobody else has claimed what is given up
              stillRunning.all fun runId =>
                !isRunning s.runs runId || !s.heldByOther call runId
          | .waiting | .collecting _ _ | .returned _ | .failed _ => true
      | none => true
  | .collect call =>
      match s.calls[call]? with
      | some c =>
          match c.phase with
          | .collecting (runId :: _) _ =>
              match getForSession s.runs runId c.agentId c.sessionKey with
              | .ok snapshot =>
                  -- what was given up has not completed since
                  decide (runId ∉ c.released) || decide (snapshot.status ≠ .completed)
              | .error _ => s.mayFail call c
          | .collecting [] _ | .waiting | .checking _ _ | .returned _ | .failed _ => true
      | none => true
  | .complete _ _ _ | .decide _ | .kill _ _ _ _ _ | .wake _ => true

/-! ## The invariant -/

/-- The watcher of a run that has this status. -/
def Fits : AsyncToolRunStatus → WatcherPhase → Prop
  | .running, phase => phase = .running
  | .completed, phase => phase.byItself = true
  | .killed, phase => phase.byItself = false

/-- A call in progress holds the run. -/
def held (s : AsyncRuns) (runId : Text) : Bool := s.calls.any (·.holds runId)

/-- The run would not be announced if nobody held it and it had not been announced. -/
def Exposed (s : AsyncRuns) (runId : Text) : Prop :=
  ∃ w, s.watchers runId = some w ∧ w.hasRoute = true ∧
    ((∃ entry, s.runs runId = some entry ∧ entry.status ≠ .killed ∧ entry.claimed = true) ∨
      (∃ reinjected, w.phase = .decided true reinjected) ∨
      (w.phase = .marked true ∧ s.runs runId = none))

/-- The watcher of the run does not announce it. -/
structure Kept (s : AsyncRuns) (runId : Text) : Prop where
  reinjected : s.reinjected runId = false
  claimed : ∀ entry, s.runs runId = some entry → entry.claimed = true

/-- The runs a call is still to look at in its phase. -/
def remaining : WaitPhase → List Text
  | .checking rest _ | .collecting rest _ => rest
  | .waiting | .returned _ | .failed _ => []

/-- Where a call stands with a run that it holds or has reported. -/
def Settled (s : AsyncRuns) (c : WaitCall) (runId : Text) : WaitPhase → Prop
  | .waiting => c.released = []
  | .checking rest stillRunning =>
      c.released = [] ∧
        (runId ∈ rest ∨ runId ∈ stillRunning ∨ isRunning s.runs runId = false)
  | .collecting rest _ =>
      runId ∉ c.released → isRunning s.runs runId = false ∧
        (runId ∈ rest ∨ c.reports runId = true ∨ s.dead runId = true)
  | .returned _ | .failed _ => True

structure CallSound (s : AsyncRuns) (c : WaitCall) : Prop where
  listed : c.phase.inProgress = true → ∀ runId ∈ c.runIds, ∃ w, s.watchers runId = some w
  reported : ∀ runId, c.reports runId = true →
    ∃ w, s.watchers runId = some w ∧ w.phase.byItself = true
  settled : ∀ runId ∈ c.runIds, s.Settled c runId c.phase
  remaining : ∀ runId ∈ remaining c.phase, runId ∈ c.runIds

/-- **The invariant.**  A claimed run is held or announced, and a run that a call holds or reports
is one that its watcher does not announce. -/
structure Sound (s : AsyncRuns) : Prop where
  watched : ∀ runId entry, s.runs runId = some entry →
    ∃ w, s.watchers runId = some w ∧ Fits entry.status w.phase
  numbered : ∀ runId w, s.watchers runId = some w →
    ∃ now seq, runId = runIdOf now seq ∧ seq < s.counter
  covered : ∀ runId, s.Exposed runId → s.announced runId = true ∨ s.held runId = true
  kept : ∀ c ∈ s.calls, ∀ runId ∈ c.pending, c.holds runId = true ∨ c.reports runId = true →
    s.Kept runId
  calls : ∀ c ∈ s.calls, s.CallSound c

theorem sound_new : Sound new where
  watched := by
    intro runId entry h
    cases h
  numbered := by
    intro runId w h
    cases h
  covered := by
    rintro runId ⟨w, hw, -⟩
    cases hw
  kept := by
    intro c hc
    cases hc
  calls := by
    intro c hc
    cases hc

variable {s s' : AsyncRuns} {runId : Text} {c c' : WaitCall} {call : Nat}

theorem holds_iff : c.holds runId = true ↔
    c.phase.inProgress = true ∧ runId ∈ c.runIds ∧ runId ∉ c.released := by
  rw [WaitCall.holds, Bool.and_eq_true, Bool.and_eq_true, decide_eq_true_eq, decide_eq_true_eq,
    and_assoc]

theorem reinjected_iff : s.reinjected runId = true ↔
    ∃ w, s.watchers runId = some w ∧ w.phase.reinjected = true := by
  rw [reinjected, Option.any_eq_true]

theorem announced_iff : s.announced runId = true ↔
    s.reinjected runId = true ∨ ∃ c ∈ s.calls, c.returns runId = true := by
  rw [announced, Bool.or_eq_true, List.any_eq_true]

theorem held_iff : s.held runId = true ↔ ∃ c ∈ s.calls, c.holds runId = true := by
  rw [held, List.any_eq_true]

theorem dead_iff : s.dead runId = true ↔
    (∀ entry, s.runs runId = some entry → entry.status = .killed) ∧
      ∀ w, s.watchers runId = some w → w.phase.byItself = false := by
  rw [dead, Bool.and_eq_true, Option.all_eq_true, Option.all_eq_true]
  simp only [decide_eq_true_eq, Bool.not_eq_true']

/-- A run that is dead is not exposed. -/
theorem Exposed.not_dead (h : s.Exposed runId) : ¬ s.dead runId = true := by
  obtain ⟨w, hw, -, hexposed⟩ := h
  intro hdead
  obtain ⟨hkilled, hphase⟩ := dead_iff.mp hdead
  have hby := hphase w hw
  rcases hexposed with ⟨entry, hentry, hne, -⟩ | ⟨reinjected, heq⟩ | ⟨heq, -⟩
  · exact hne (hkilled entry hentry)
  · rw [heq] at hby
    exact Bool.noConfusion hby
  · rw [heq] at hby
    exact Bool.noConfusion hby

/-- **The invariant is enough.** -/
theorem Sound.delivered (h : s.Sound) : s.Delivered where
  announced := by
    intro runId w reinjected hw hroute hphase hnone
    rcases h.covered runId ⟨w, hw, hroute, .inr (.inl ⟨reinjected, hphase⟩)⟩ with hann | hheld
    · exact hann
    · obtain ⟨c, hc, hholds⟩ := held_iff.mp hheld
      obtain ⟨hprogress, hmem, -⟩ := holds_iff.mp hholds
      exact absurd hmem (hnone c hc hprogress)
  once := by
    intro runId c hc hreturns hpending
    exact (h.kept c hc runId hpending
      (.inr (Bool.and_eq_true_iff.mp hreturns).2)).reinjected

/-! ## How runs go on -/

/-- What a call has seen of the runs it knows stays true. -/
structure Advances (s s' : AsyncRuns) : Prop where
  watchers : ∀ runId w, s.watchers runId = some w → ∃ w', s'.watchers runId = some w' ∧
    (w.phase.byItself = true → w'.phase.byItself = true)
  running : ∀ runId w, s.watchers runId = some w → isRunning s.runs runId = false →
    isRunning s'.runs runId = false
  dead : ∀ runId w, s.watchers runId = some w → s.dead runId = true → s'.dead runId = true

theorem CallSound.advance (h : s.CallSound c) (hadvance : s.Advances s') : s'.CallSound c where
  listed := by
    intro hprogress runId hmem
    obtain ⟨w, hw⟩ := h.listed hprogress runId hmem
    obtain ⟨w', hw', -⟩ := hadvance.watchers runId w hw
    exact ⟨w', hw'⟩
  reported := by
    intro runId hreports
    obtain ⟨w, hw, hby⟩ := h.reported runId hreports
    obtain ⟨w', hw', hby'⟩ := hadvance.watchers runId w hw
    exact ⟨w', hw', hby' hby⟩
  settled := by
    intro runId hmem
    have hsettled := h.settled runId hmem
    have hlisted := h.listed
    generalize c.phase = phase at hsettled hlisted ⊢
    match phase with
    | .waiting => exact hsettled
    | .checking rest stillRunning =>
        obtain ⟨w, hw⟩ := hlisted rfl runId hmem
        refine ⟨hsettled.1, ?_⟩
        rcases hsettled.2 with hrest | hstill | hover
        · exact .inl hrest
        · exact .inr (.inl hstill)
        · exact .inr (.inr (hadvance.running runId w hw hover))
    | .collecting rest snapshots =>
        obtain ⟨w, hw⟩ := hlisted rfl runId hmem
        intro hreleased
        obtain ⟨hover, hseen⟩ := hsettled hreleased
        refine ⟨hadvance.running runId w hw hover, ?_⟩
        rcases hseen with hrest | hreports | hdead
        · exact .inl hrest
        · exact .inr (.inl hreports)
        · exact .inr (.inr (hadvance.dead runId w hw hdead))
    | .returned _ | .failed _ => trivial
  remaining := h.remaining

/-- The watchers of the runs a call holds or reports are there. -/
theorem CallSound.watcher (h : s.CallSound c)
    (hc : c.holds runId = true ∨ c.reports runId = true) : ∃ w, s.watchers runId = some w := by
  rcases hc with hholds | hreports
  · obtain ⟨hprogress, hmem, -⟩ := holds_iff.mp hholds
    exact h.listed hprogress runId hmem
  · obtain ⟨w, hw, -⟩ := h.reported runId hreports
    exact ⟨w, hw⟩

/-- A step of the runs keeps the invariant, the calls staying as they are. -/
theorem Sound.of_runs (h : s.Sound) (hadvance : s.Advances s') (hcalls : s'.calls = s.calls)
    (hwatched : ∀ runId entry, s'.runs runId = some entry →
      ∃ w, s'.watchers runId = some w ∧ Fits entry.status w.phase)
    (hnumbered : ∀ runId w, s'.watchers runId = some w →
      ∃ now seq, runId = runIdOf now seq ∧ seq < s'.counter)
    (hreinjected : ∀ runId, s.reinjected runId = true → s'.reinjected runId = true)
    (hexposed : ∀ runId, s'.Exposed runId → s.Exposed runId ∨ s'.reinjected runId = true)
    (hkept : ∀ runId w, s.watchers runId = some w → s.Kept runId → s'.Kept runId) :
    s'.Sound where
  watched := hwatched
  numbered := hnumbered
  covered := by
    intro runId hexp
    rw [announced_iff, held_iff, hcalls]
    rcases hexposed runId hexp with hold | hnew
    · rcases h.covered runId hold with hann | hheld
      · rcases announced_iff.mp hann with hre | hret
        · exact .inl (.inl (hreinjected runId hre))
        · exact .inl (.inr hret)
      · exact .inr (held_iff.mp hheld)
    · exact .inl (.inl hnew)
  kept := by
    rw [hcalls]
    intro c hc runId hpending hseen
    obtain ⟨w, hw⟩ := (h.calls c hc).watcher hseen
    exact hkept runId w hw (h.kept c hc runId hpending hseen)
  calls := by
    rw [hcalls]
    exact fun c hc => (h.calls c hc).advance hadvance

theorem isRunning_eq_false_iff {runs : RunTable} : isRunning runs runId = false ↔
    ∀ entry, runs runId = some entry → entry.status ≠ .running := by
  rw [Bool.eq_false_iff, ne_eq, isRunning_iff]
  constructor
  · intro h entry hentry hstatus
    exact h ⟨entry, hentry, hstatus⟩
  · rintro h ⟨entry, hentry, hstatus⟩
    exact h entry hentry hstatus

theorem Sound.fits (h : s.Sound) {entry : AsyncToolRunEntry} {w : Watcher}
    (hentry : s.runs runId = some entry) (hw : s.watchers runId = some w) :
    Fits entry.status w.phase := by
  obtain ⟨w', hw', hfits⟩ := h.watched runId entry hentry
  rwa [Option.some.inj (hw.symm.trans hw')]

/-- A run that is not running yet known to a watcher that has not marked it was killed. -/
theorem Sound.killed_of_running (h : s.Sound) {w : Watcher} {entry : AsyncToolRunEntry}
    (hw : s.watchers runId = some w) (hphase : w.phase = .running)
    (hentry : s.runs runId = some entry) (hover : entry.status ≠ .running) :
    entry.status = .killed := by
  have hfits := h.fits hentry hw
  cases hstatus : entry.status with
  | running => exact absurd hstatus hover
  | killed => rfl
  | completed =>
      rw [hstatus, hphase] at hfits
      cases hfits

/-- A step of one run keeps the invariant. -/
theorem Sound.of_run (h : s.Sound) {w w' : Watcher} (hw : s.watchers runId = some w)
    (hw' : s'.watchers runId = some w') (hcalls : s'.calls = s.calls)
    (hcounter : s'.counter = s.counter)
    (hothers : ∀ id, id ≠ runId → s'.watchers id = s.watchers id ∧ s'.runs id = s.runs id)
    (hby : w.phase.byItself = true → w'.phase.byItself = true)
    (hrunning : isRunning s.runs runId = false → isRunning s'.runs runId = false)
    (hdead : s.dead runId = true → s'.dead runId = true)
    (hfits : ∀ entry, s'.runs runId = some entry → Fits entry.status w'.phase)
    (hreinjected : s.reinjected runId = true → s'.reinjected runId = true)
    (hexposed : s'.Exposed runId → s.Exposed runId ∨ s'.reinjected runId = true)
    (hkept : s.Kept runId → s'.Kept runId) : s'.Sound := by
  refine h.of_runs ⟨fun id w₁ hw₁ => ?_, fun id w₁ hw₁ hover => ?_, fun id w₁ hw₁ hid => ?_⟩ hcalls
    (fun id entry hentry => ?_) (fun id w₁ hw₁ => ?_) (fun id hre => ?_) (fun id hexp => ?_)
    (fun id w₁ hw₁ hk => ?_)
  all_goals
    by_cases hne : id = runId
  · subst hne
    obtain rfl := Option.some.inj (hw.symm.trans hw₁)
    exact ⟨w', hw', hby⟩
  · exact ⟨w₁, by rw [(hothers id hne).1, hw₁], fun hb => hb⟩
  · subst hne
    exact hrunning hover
  · rwa [isRunning, (hothers id hne).2]
  · subst hne
    exact hdead hid
  · rwa [dead, (hothers id hne).1, (hothers id hne).2]
  · subst hne
    exact ⟨w', hw', hfits entry hentry⟩
  · rw [(hothers id hne).2] at hentry
    rw [(hothers id hne).1]
    exact h.watched id entry hentry
  · subst hne
    rw [hcounter]
    exact h.numbered id w hw
  · rw [(hothers id hne).1] at hw₁
    rw [hcounter]
    exact h.numbered id w₁ hw₁
  · subst hne
    exact hreinjected hre
  · rwa [reinjected, (hothers id hne).1]
  · subst hne
    exact hexposed hexp
  · left
    rwa [Exposed, (hothers id hne).1, (hothers id hne).2] at hexp
  · subst hne
    exact hkept hk
  · refine ⟨?_, ?_⟩
    · rw [reinjected, (hothers id hne).1]
      exact hk.reinjected
    · rw [(hothers id hne).2]
      exact hk.claimed

theorem not_reinjected_of_running {w : Watcher} (hw : s.watchers runId = some w)
    (hphase : w.phase.reinjected = false) : s.reinjected runId = false := by
  rw [reinjected, hw]
  exact hphase

theorem setWatcher_self (s : AsyncRuns) (runId : Text) (w : Watcher) (phase : WatcherPhase) :
    (s.setWatcher runId w phase).watchers runId = some { w with phase := phase } :=
  Function.update_self runId _ _

theorem setWatcher_of_ne (s : AsyncRuns) {id : Text} (hne : id ≠ runId) (w : Watcher)
    (phase : WatcherPhase) : (s.setWatcher runId w phase).watchers id = s.watchers id :=
  Function.update_of_ne hne _ _

/-- A run that was killed is marked when its process has ended. -/
theorem Sound.markKilled (h : s.Sound) {w : Watcher} (hw : s.watchers runId = some w)
    (hphase : w.phase = .running) (hover : isRunning s.runs runId = false) :
    (s.setWatcher runId w (.marked false)).Sound := by
  have hkilled : ∀ entry, s.runs runId = some entry → entry.status = .killed :=
    fun entry hentry => h.killed_of_running hw hphase hentry
      (isRunning_eq_false_iff.mp hover entry hentry)
  have hdead : (s.setWatcher runId w (.marked false)).dead runId = true := by
    refine dead_iff.mpr ⟨hkilled, fun w₁ hw₁ => ?_⟩
    obtain rfl := Option.some.inj ((setWatcher_self s runId w _).symm.trans hw₁)
    rfl
  refine h.of_run hw (setWatcher_self s runId w _) rfl rfl
    (fun id hne => ⟨setWatcher_of_ne s hne w _, rfl⟩) (fun hby => ?_) id (fun _ => hdead)
    (fun entry hentry => ?_) (fun hold => ?_) (fun hexp => absurd hdead hexp.not_dead)
    (fun hkept => ⟨?_, hkept.claimed⟩)
  · rw [hphase] at hby
    cases hby
  · rw [hkilled entry hentry]
    rfl
  · rw [not_reinjected_of_running hw (by rw [hphase]; rfl)] at hold
    cases hold
  · exact not_reinjected_of_running (setWatcher_self s runId w _) rfl

/-- **A run completes.** -/
theorem Sound.complete (h : s.Sound) {w : Watcher} (hw : s.watchers runId = some w)
    (hphase : w.phase = .running) {old : AsyncToolRunEntry} (hold : s.runs runId = some old)
    (hrunning : old.status = .running) (outcome : CompletionOutcome) (now : Nat) :
    Sound { s.setWatcher runId w (.marked true) with
      runs := Function.update s.runs runId (some (old.complete outcome now)) } := by
  have hnew : ∀ entry, Function.update s.runs runId (some (old.complete outcome now)) runId =
      some entry → entry = old.complete outcome now := by
    intro entry hentry
    rw [Function.update_self] at hentry
    exact (Option.some.inj hentry).symm
  refine h.of_run hw (setWatcher_self s runId w _) rfl rfl
    (fun id hne => ⟨setWatcher_of_ne s hne w _, Function.update_of_ne hne _ _⟩)
    (fun hby => ?_) (fun hover => ?_) (fun hdead => ?_) (fun entry hentry => ?_)
    (fun hre => ?_) (fun hexp => ?_) (fun hkept => ⟨?_, fun entry hentry => ?_⟩)
  · rw [hphase] at hby
    cases hby
  · rw [isRunning_of_some hold, hrunning] at hover
    cases hover
  · rw [(dead_iff.mp hdead).1 old hold] at hrunning
    cases hrunning
  · rw [hnew entry hentry, complete_status]
    rfl
  · rw [not_reinjected_of_running hw (by rw [hphase]; rfl)] at hre
    cases hre
  · -- the flag is as it was
    left
    obtain ⟨w₁, hw₁, hroute, hexp⟩ := hexp
    obtain rfl := Option.some.inj ((setWatcher_self s runId w _).symm.trans hw₁)
    rcases hexp with ⟨entry, hentry, -, hclaimed⟩ | ⟨reinjected, heq⟩ | ⟨-, hnone⟩
    · rw [hnew entry hentry, complete_claimed] at hclaimed
      refine ⟨w, hw, hroute, .inl ⟨old, hold, ?_, hclaimed⟩⟩
      rw [hrunning]
      exact nofun
    · cases heq
    · exact absurd (hnone.symm.trans (Function.update_self runId _ _)) nofun
  · exact not_reinjected_of_running (setWatcher_self s runId w _) rfl
  · rw [hnew entry hentry, complete_claimed]
    exact hkept.claimed old hold

/-- **The watcher looks at the flag**, and puts the completion into the queue or not. -/
theorem Sound.decide (h : s.Sound) {w : Watcher} (hw : s.watchers runId = some w)
    {byItself : Bool} (hphase : w.phase = .marked byItself) :
    (s.setWatcher runId w
      (.decided byItself (shouldReinject s.runs runId && w.hasRoute))).Sound := by
  refine h.of_run hw (setWatcher_self s runId w _) rfl rfl
    (fun id hne => ⟨setWatcher_of_ne s hne w _, rfl⟩) (fun hby => ?_) id (fun hdead => ?_)
    (fun entry hentry => ?_) (fun hold => ?_) (fun hexp => ?_) (fun hkept => ⟨?_, hkept.claimed⟩)
  · rw [hphase] at hby
    exact hby
  · obtain ⟨hkilled, hby⟩ := dead_iff.mp hdead
    refine dead_iff.mpr ⟨hkilled, fun w₁ hw₁ => ?_⟩
    obtain rfl := Option.some.inj ((setWatcher_self s runId w _).symm.trans hw₁)
    have hfalse := hby w hw
    rwa [hphase] at hfalse
  · have hfits := h.fits hentry hw
    rw [hphase] at hfits
    cases hstatus : entry.status with
    | running =>
        rw [hstatus] at hfits
        cases hfits
    | completed | killed =>
        rw [hstatus] at hfits
        exact hfits
  · rw [not_reinjected_of_running hw (by rw [hphase]; rfl)] at hold
    cases hold
  · obtain ⟨w₁, hw₁, hroute, hexp⟩ := hexp
    obtain rfl := Option.some.inj ((setWatcher_self s runId w _).symm.trans hw₁)
    cases hentry : s.runs runId with
    | none =>
        rcases hexp with ⟨entry, hsome, -⟩ | ⟨reinjected, heq⟩ | ⟨heq, -⟩
        · rw [show s.runs runId = some entry from hsome] at hentry
          cases hentry
        · obtain ⟨rfl, -⟩ := WatcherPhase.decided.inj heq
          exact .inl ⟨w, hw, hroute, .inr (.inr ⟨hphase, hentry⟩)⟩
        · cases heq
    | some entry =>
        have hcompleted : byItself = true → entry.status ≠ .killed := by
          rintro rfl hstatus
          have hfits := h.fits hentry hw
          rw [hstatus, hphase] at hfits
          cases hfits
        rcases hexp with ⟨entry', hsome, hkilled, hclaimed⟩ | ⟨reinjected, heq⟩ | ⟨heq, -⟩
        · exact .inl ⟨w, hw, hroute, .inl ⟨entry', hsome, hkilled, hclaimed⟩⟩
        · obtain ⟨hby, -⟩ := WatcherPhase.decided.inj heq
          cases hclaimed : entry.claimed with
          | true => exact .inl ⟨w, hw, hroute, .inl ⟨entry, hentry, hcompleted hby, hclaimed⟩⟩
          | false =>
              -- the watcher finds the flag unset
              refine .inr (reinjected_iff.mpr ⟨_, setWatcher_self s runId w _, ?_⟩)
              show (shouldReinject s.runs runId && w.hasRoute) = true
              rw [shouldReinject_of_some hentry, hclaimed, hroute]
              rfl
        · cases heq
  · refine not_reinjected_of_running (setWatcher_self s runId w _) ?_
    show (shouldReinject s.runs runId && w.hasRoute) = false
    rw [shouldReinject_of_claimed hkept.claimed, Bool.false_and]

/-- **A run is killed.** -/
theorem Sound.kill (h : s.Sound) {old killed : AsyncToolRunEntry} (hold : s.runs runId = some old)
    (hrunning : old.status = .running) (hkilled : killed.status = .killed)
    (hclaimed : killed.claimed = old.claimed) :
    Sound { s with runs := Function.update s.runs runId (some killed) } := by
  obtain ⟨w, hw, hfits⟩ := h.watched runId old hold
  rw [hrunning] at hfits
  have hnew : ∀ entry, Function.update s.runs runId (some killed) runId = some entry →
      entry = killed := by
    intro entry hentry
    rw [Function.update_self] at hentry
    exact (Option.some.inj hentry).symm
  have hdead : dead { s with runs := Function.update s.runs runId (some killed) } runId = true := by
    refine dead_iff.mpr ⟨fun entry hentry => by rw [hnew entry hentry, hkilled], fun w₁ hw₁ => ?_⟩
    obtain rfl := Option.some.inj (hw.symm.trans hw₁)
    rw [show w.phase = .running from hfits]
    rfl
  refine h.of_run hw hw rfl rfl (fun id hne => ⟨rfl, Function.update_of_ne hne _ _⟩) id
    (fun hover => ?_) (fun _ => hdead) (fun entry hentry => ?_) id
    (fun hexp => absurd hdead hexp.not_dead)
    (fun hkept => ⟨hkept.reinjected, fun entry hentry => ?_⟩)
  · rw [isRunning_of_some hold, hrunning] at hover
    cases hover
  · rw [hnew entry hentry, hkilled, show w.phase = .running from hfits]
    rfl
  · rw [hnew entry hentry, hclaimed]
    exact hkept.claimed old hold

/-- The id of a new run is new. -/
theorem Sound.not_watched (h : s.Sound) (now : Nat) :
    s.watchers (runIdOf now s.counter) = none := by
  cases hw : s.watchers (runIdOf now s.counter) with
  | none => rfl
  | some w =>
      obtain ⟨now', seq, hid, hlt⟩ := h.numbered _ w hw
      have hseq := runIdOf_inj hid
      omega

section Start

variable {toolName agentId sessionKey : Text} {request : RunRequest} {hasRoute : Bool} {now : Nat}
  {order : List Text}

/-- The other runs after a start: an entry is the old one. -/
theorem startRun_other {id : Text} (hne : id ≠ runIdOf now s.counter) :
    (s.startRun toolName agentId sessionKey request hasRoute now order).watchers id =
        s.watchers id ∧
      ∀ entry, (s.startRun toolName agentId sessionKey request hasRoute now order).runs id =
        some entry → s.runs id = some entry := by
  refine ⟨Function.update_of_ne hne _ _, fun entry hentry => ?_⟩
  have hsome := autoEvict_some hentry
  rwa [Function.update_of_ne hne] at hsome

/-- **A run is started**, and what is evicted has been looked at or claimed. -/
theorem Sound.start (h : s.Sound)
    (hevicted : ∀ id ∈ evicted order (s.inserted toolName agentId sessionKey request now),
      s.awaitsWatcher id = false) :
    (s.startRun toolName agentId sessionKey request hasRoute now order).Sound := by
  have hnone := h.not_watched now
  have hne : ∀ {id w}, s.watchers id = some w → id ≠ runIdOf now s.counter := by
    rintro id w hw rfl
    exact absurd (hnone.symm.trans hw) nofun
  have hself : (s.startRun toolName agentId sessionKey request hasRoute now order).watchers
      (runIdOf now s.counter) = some ⟨request.kind, hasRoute, .running⟩ :=
    Function.update_self _ _ _
  have hentryself : ∀ entry, (s.startRun toolName agentId sessionKey request hasRoute now
      order).runs (runIdOf now s.counter) = some entry →
        entry = newEntry toolName agentId sessionKey request now := by
    intro entry hentry
    have hsome := autoEvict_some hentry
    rw [Function.update_self] at hsome
    exact (Option.some.inj hsome).symm
  refine h.of_runs ⟨fun id w hw => ?_, fun id w hw hover => ?_, fun id w hw hdead => ?_⟩ rfl
    (fun id entry hentry => ?_) (fun id w hw => ?_) (fun id hre => ?_) (fun id hexp => ?_)
    (fun id w hw hkept => ⟨?_, fun entry hentry => ?_⟩)
  · refine ⟨w, ?_, fun hby => hby⟩
    rw [(startRun_other (hne hw)).1]
    exact hw
  · refine isRunning_eq_false_iff.mpr fun entry hentry => ?_
    exact isRunning_eq_false_iff.mp hover entry ((startRun_other (hne hw)).2 entry hentry)
  · obtain ⟨hkilled, hby⟩ := dead_iff.mp hdead
    refine dead_iff.mpr ⟨fun entry hentry => ?_, fun w' hw' => hby w' ?_⟩
    · exact hkilled entry ((startRun_other (hne hw)).2 entry hentry)
    · rwa [(startRun_other (hne hw)).1] at hw'
  · by_cases hid : id = runIdOf now s.counter
    · subst hid
      rw [hentryself entry hentry]
      exact ⟨_, hself, rfl⟩
    · rw [(startRun_other hid).1]
      exact h.watched id entry ((startRun_other hid).2 entry hentry)
  · by_cases hid : id = runIdOf now s.counter
    · exact ⟨now, s.counter, hid, Nat.lt_succ_self _⟩
    · rw [(startRun_other hid).1] at hw
      obtain ⟨now', seq, hseq, hlt⟩ := h.numbered id w hw
      exact ⟨now', seq, hseq, Nat.lt_succ_of_lt hlt⟩
  · obtain ⟨w, hw, hphase⟩ := reinjected_iff.mp hre
    refine reinjected_iff.mpr ⟨w, ?_, hphase⟩
    rwa [(startRun_other (hne hw)).1]
  · left
    obtain ⟨w, hw, hroute, hexp⟩ := hexp
    by_cases hid : id = runIdOf now s.counter
    · -- the new run is neither claimed nor over
      subst hid
      obtain rfl := Option.some.inj (hself.symm.trans hw)
      rcases hexp with ⟨entry, hentry, -, hclaimed⟩ | ⟨reinjected, heq⟩ | ⟨heq, -⟩
      · rw [hentryself entry hentry] at hclaimed
        cases hclaimed
      · cases heq
      · cases heq
    · rw [(startRun_other hid).1] at hw
      refine ⟨w, hw, hroute, ?_⟩
      rcases hexp with ⟨entry, hentry, hkilled, hclaimed⟩ | hdecided | ⟨heq, hgone⟩
      · exact .inl ⟨entry, (startRun_other hid).2 entry hentry, hkilled, hclaimed⟩
      · exact .inr (.inl hdecided)
      · cases hentry : s.runs id with
        | none => exact .inr (.inr ⟨heq, rfl⟩)
        | some entry =>
            -- it has been evicted, so it was claimed
            left
            have hmem : id ∈ evicted order
                (s.inserted toolName agentId sessionKey request now) := by
              by_contra hnot
              have hkeep : s.inserted toolName agentId sessionKey request now id = none := by
                rw [← hgone]
                exact (if_neg hnot).symm
              rw [inserted, Function.update_of_ne hid, hentry] at hkeep
              cases hkeep
            have hawaits := hevicted id hmem
            refine ⟨entry, rfl, ?_, ?_⟩
            · rintro hstatus
              have hfits := h.fits hentry hw
              rw [hstatus, heq] at hfits
              cases hfits
            · simpa [awaitsWatcher, hw, hroute, heq, hentry] using hawaits
  · rw [reinjected, (startRun_other (hne hw)).1]
    exact hkept.reinjected
  · exact hkept.claimed entry ((startRun_other (hne hw)).2 entry hentry)

end Start

/-! ## How calls go on -/

theorem advances_setCall (s : AsyncRuns) (call : Nat) (c : WaitCall) (phase : WaitPhase) :
    s.Advances (s.setCall call c phase) where
  watchers := fun _ w hw => ⟨w, hw, id⟩
  running := fun _ _ _ hover => hover
  dead := fun _ _ _ hdead => hdead

theorem heldByOther_iff : s.heldByOther call runId = true ↔
    ∃ i c, i ≠ call ∧ s.calls[i]? = some c ∧ c.holds runId = true := by
  rw [heldByOther, List.any_eq_true]
  constructor
  · rintro ⟨c, hmem, hholds⟩
    obtain ⟨i, hne, hi⟩ := List.mem_eraseIdx_iff_getElem?.mp hmem
    exact ⟨i, c, hne, hi, hholds⟩
  · rintro ⟨i, c, hne, hi, hholds⟩
    exact ⟨c, List.mem_eraseIdx_iff_getElem?.mpr ⟨i, hne, hi⟩, hholds⟩

theorem not_returns_of_inProgress (h : c.phase.inProgress = true) : c.returns runId = false := by
  rw [WaitCall.returns, h]
  rfl

/-- What was announced stays so when a call in progress changes. -/
theorem announced_setCall (hc : s.calls[call]? = some c) (hprogress : c.phase.inProgress = true)
    (c' : WaitCall) (phase : WaitPhase) (h : s.announced runId = true) :
    (s.setCall call c' phase).announced runId = true := by
  rw [announced_iff] at h ⊢
  rcases h with hre | ⟨c₁, hc₁, hreturns⟩
  · exact .inl hre
  · obtain ⟨i, hi⟩ := List.mem_iff_getElem?.mp hc₁
    have hne : call ≠ i := by
      rintro rfl
      obtain rfl := Option.some.inj (hc.symm.trans hi)
      rw [not_returns_of_inProgress hprogress] at hreturns
      cases hreturns
    exact .inr ⟨c₁, List.mem_of_getElem? (Table.getElem?_set_of_getElem? hi hne), hreturns⟩

/-- What others hold they hold when a call changes. -/
theorem held_setCall (c' : WaitCall) (phase : WaitPhase) (h : s.heldByOther call runId = true) :
    (s.setCall call c' phase).held runId = true := by
  obtain ⟨i, c₁, hne, hi, hholds⟩ := heldByOther_iff.mp h
  exact held_iff.mpr ⟨c₁,
    List.mem_of_getElem? (Table.getElem?_set_of_getElem? hi (Ne.symm hne)), hholds⟩

/-- A held run is held by the call or by another. -/
theorem holds_or_heldByOther (hc : s.calls[call]? = some c) (h : s.held runId = true) :
    c.holds runId = true ∨ s.heldByOther call runId = true := by
  obtain ⟨c₁, hc₁, hholds⟩ := held_iff.mp h
  obtain ⟨i, hi⟩ := List.mem_iff_getElem?.mp hc₁
  by_cases hcall : i = call
  · subst hcall
    obtain rfl := Option.some.inj (hc.symm.trans hi)
    exact .inl hholds
  · exact .inr (heldByOther_iff.mpr ⟨i, c₁, hcall, hi, hholds⟩)

/-- **A call goes on**: what it held before and is exposed, it holds, has announced, or leaves to
others. -/
theorem Sound.setCall (h : s.Sound) (hc : s.calls[call]? = some c)
    (hprogress : c.phase.inProgress = true) (phase : WaitPhase)
    (hkept : ∀ id ∈ c.pending, ({ c with phase := phase } : WaitCall).holds id = true ∨
      ({ c with phase := phase } : WaitCall).reports id = true →
        c.holds id = true ∨ c.reports id = true)
    (hcovered : ∀ id, s.Exposed id → c.holds id = true →
      ({ c with phase := phase } : WaitCall).holds id = true ∨
        ({ c with phase := phase } : WaitCall).returns id = true ∨
          s.announced id = true ∨ s.heldByOther call id = true)
    (hsound : s.CallSound { c with phase := phase }) : (s.setCall call c phase).Sound := by
  have hmem : c ∈ s.calls := List.mem_of_getElem? hc
  have hself : (s.calls.set call { c with phase := phase })[call]? =
      some { c with phase := phase } := Table.getElem?_set_self_of_getElem? hc
  refine ⟨h.watched, h.numbered, fun id hexp => ?_, fun c₁ hc₁ id hpending hseen => ?_,
    fun c₁ hc₁ => ?_⟩
  · -- the call itself is the only one that may not hold what it held
    rcases h.covered id hexp with hann | hheld
    · exact .inl (announced_setCall hc hprogress c phase hann)
    · rcases holds_or_heldByOther hc hheld with hholds | hother
      · rcases hcovered id hexp hholds with hstill | hreturns | hann | hother
        · exact .inr (held_iff.mpr ⟨_, List.mem_of_getElem? hself, hstill⟩)
        · exact .inl (announced_iff.mpr (.inr ⟨_, List.mem_of_getElem? hself, hreturns⟩))
        · exact .inl (announced_setCall hc hprogress c phase hann)
        · exact .inr (held_setCall c phase hother)
      · exact .inr (held_setCall c phase hother)
  · rcases List.mem_or_eq_of_mem_set hc₁ with hold | rfl
    · have hkeep := h.kept c₁ hold id hpending hseen
      exact ⟨hkeep.reinjected, hkeep.claimed⟩
    · have hkeep := h.kept c hmem id hpending (hkept id hpending hseen)
      exact ⟨hkeep.reinjected, hkeep.claimed⟩
  · rcases List.mem_or_eq_of_mem_set hc₁ with hold | rfl
    · exact (h.calls c₁ hold).advance (advances_setCall s call c phase)
    · exact hsound.advance (advances_setCall s call c phase)

/-- A call in a phase holds what it held in another, so long as it is under way. -/
theorem holds_setPhase {phase : WaitPhase} (hprogress : c.phase.inProgress = true)
    (hphase : phase.inProgress = true) :
    ({ c with phase := phase } : WaitCall).holds runId = c.holds runId := by
  rw [WaitCall.holds, WaitCall.holds, hprogress, hphase]

/-- A call reports the same in two phases with the same snapshots. -/
theorem reports_setPhase {phase : WaitPhase} (hsnapshots : phase.snapshots = c.phase.snapshots) :
    ({ c with phase := phase } : WaitCall).reports runId = c.reports runId := by
  rw [WaitCall.reports, WaitCall.reports, hsnapshots]

/-- **A call stays under way**: it holds what it held, and what it newly reports it holds. -/
theorem Sound.onward (h : s.Sound) (hc : s.calls[call]? = some c)
    (hprogress : c.phase.inProgress = true) {phase : WaitPhase} (hphase : phase.inProgress = true)
    (hreports : ∀ id, ({ c with phase := phase } : WaitCall).reports id = true →
      c.holds id = true ∨ c.reports id = true)
    (hsound : s.CallSound { c with phase := phase }) : (s.setCall call c phase).Sound := by
  refine h.setCall hc hprogress phase (fun id _ hseen => ?_) (fun id _ hholds => .inl ?_) hsound
  · rcases hseen with hholds | hnew
    · rw [holds_setPhase hprogress hphase] at hholds
      exact .inl hholds
    · exact hreports id hnew
  · rwa [holds_setPhase hprogress hphase]

/-- **The call has waited long enough.** -/
theorem Sound.wake (h : s.Sound) (hc : s.calls[call]? = some c) (hphase : c.phase = .waiting) :
    (s.setCall call c (.checking c.runIds [])).Sound := by
  have hsound := h.calls c (List.mem_of_getElem? hc)
  have hprogress : c.phase.inProgress = true := by rw [hphase]; rfl
  refine h.onward hc hprogress rfl (fun id hreports => ?_)
    ⟨fun _ => hsound.listed hprogress, fun id hreports => ?_, fun id hmem => ?_,
      fun id hmem => hmem⟩
  · cases hreports
  · cases hreports
  · have hsettled := hsound.settled id hmem
    rw [hphase] at hsettled
    exact ⟨hsettled, .inl hmem⟩

/-- A run that is spared and has an announcement to make has made it, or others hold it. -/
theorem announced_or_held_of_spared (h : s.spared call runId = true) {w : Watcher}
    (hw : s.watchers runId = some w) (hroute : w.hasRoute = true)
    (halive : ¬ s.dead runId = true) :
    s.announced runId = true ∨ s.heldByOther call runId = true := by
  rw [spared, Bool.or_eq_true, Bool.or_eq_true, Bool.or_eq_true] at h
  rcases h with ((hunrouted | hdead) | hann) | hother
  · rw [hw, Option.all_some, hroute] at hunrouted
    cases hunrouted
  · exact absurd hdead halive
  · exact .inl hann
  · exact .inr hother

/-- **A call fails** if what it holds is spared. -/
theorem Sound.fail (h : s.Sound) (hc : s.calls[call]? = some c)
    (hprogress : c.phase.inProgress = true) (hmay : s.mayFail call c = true)
    (error : FrameworkError) : (s.setCall call c (.failed error)).Sound := by
  refine h.setCall hc hprogress _ (fun id _ hseen => ?_) (fun id hexp hholds => ?_)
    ⟨fun hfalse => ?_, fun id hreports => ?_, fun id hmem => trivial, fun id hmem => ?_⟩
  · rcases hseen with hholds | hreports
    · cases (holds_iff.mp hholds).1
    · cases hreports
  · obtain ⟨-, hmem, hreleased⟩ := holds_iff.mp hholds
    have hspared := List.all_eq_true.mp hmay id hmem
    rw [decide_eq_false hreleased, Bool.false_or] at hspared
    have halive := hexp.not_dead
    obtain ⟨w, hw, hroute, -⟩ := hexp
    exact .inr (.inr (announced_or_held_of_spared hspared hw hroute halive))
  · cases hfalse
  · cases hreports
  · cases hmem

/-- **The call looks at a run after the wait.** -/
theorem Sound.check (h : s.Sound) (hc : s.calls[call]? = some c) {id : Text}
    {rest stillRunning : List Text} (hphase : c.phase = .checking (id :: rest) stillRunning)
    {entry : AsyncToolRunEntry} (hentry : s.runs id = some entry) :
    (s.setCall call c (.checking rest
      (if (entry.snapshot id).status = .running then stillRunning ++ [id]
       else stillRunning))).Sound := by
  have hsound := h.calls c (List.mem_of_getElem? hc)
  have hprogress : c.phase.inProgress = true := by rw [hphase]; rfl
  refine h.onward hc hprogress rfl (fun id' hreports => ?_)
    ⟨fun _ => hsound.listed hprogress, fun id' hreports => ?_, fun id' hmem => ?_,
      fun id' hmem => ?_⟩
  · cases hreports
  · cases hreports
  · have hsettled := hsound.settled id' hmem
    rw [hphase] at hsettled
    refine ⟨hsettled.1, ?_⟩
    rcases hsettled.2 with hrest | hstill | hover
    · rcases List.mem_cons.mp hrest with rfl | hrest
      · by_cases hrunning : entry.status = .running
        · refine .inr (.inl ?_)
          rw [if_pos (show (entry.snapshot id').status = .running from hrunning)]
          exact List.mem_append_right _ (List.mem_singleton_self _)
        · refine .inr (.inr ?_)
          rw [isRunning_of_some hentry]
          exact decide_eq_false hrunning
      · exact .inl hrest
    · refine .inr (.inl ?_)
      split
      · exact List.mem_append_left _ hstill
      · exact hstill
    · exact .inr (.inr hover)
  · refine hsound.remaining id' ?_
    rw [hphase]
    exact List.mem_cons_of_mem _ hmem

/-- The snapshot of a run that is over shows it as completed, or the run is dead. -/
theorem Sound.completed_or_dead (h : s.Sound) {entry : AsyncToolRunEntry}
    (hentry : s.runs runId = some entry) (hover : isRunning s.runs runId = false) :
    entry.status = .completed ∨ s.dead runId = true := by
  obtain ⟨w, hw, hfits⟩ := h.watched runId entry hentry
  cases hstatus : entry.status with
  | running => exact absurd hstatus (isRunning_eq_false_iff.mp hover entry hentry)
  | completed => exact .inl rfl
  | killed =>
      rw [hstatus] at hfits
      refine .inr (dead_iff.mpr ⟨fun entry' hentry' => ?_, fun w' hw' => ?_⟩)
      · obtain rfl := Option.some.inj (hentry.symm.trans hentry')
        exact hstatus
      · obtain rfl := Option.some.inj (hw.symm.trans hw')
        exact hfits

theorem reports_collecting {rest : List Text} {snapshots : List AsyncToolRunSnapshot}
    {entry : AsyncToolRunEntry} {id : Text} :
    ({ c with phase := .collecting rest (snapshots ++ [entry.snapshot id]) } :
        WaitCall).reports runId = true ↔
      ({ c with phase := .collecting rest snapshots } : WaitCall).reports runId = true ∨
        (id = runId ∧ entry.status = .completed) := by
  simp [WaitCall.reports, WaitPhase.snapshots, AsyncToolRunEntry.snapshot]

/-- **The call looks at a run for the last time**; a run it has given up has not completed. -/
theorem Sound.collect (h : s.Sound) (hc : s.calls[call]? = some c) {id : Text}
    {rest : List Text} {snapshots : List AsyncToolRunSnapshot}
    (hphase : c.phase = .collecting (id :: rest) snapshots) {entry : AsyncToolRunEntry}
    (hentry : s.runs id = some entry) (hgiven : id ∉ c.released ∨ entry.status ≠ .completed) :
    (s.setCall call c (.collecting rest (snapshots ++ [entry.snapshot id]))).Sound := by
  have hsound := h.calls c (List.mem_of_getElem? hc)
  have hprogress : c.phase.inProgress = true := by rw [hphase]; rfl
  have hreports : ∀ id', ({ c with phase := .collecting rest snapshots } : WaitCall).reports id' =
      c.reports id' := fun _ => reports_setPhase (by rw [hphase]; rfl)
  have hmemid : id ∈ c.runIds := by
    refine hsound.remaining id ?_
    rw [hphase]
    exact List.mem_cons_self
  refine h.onward hc hprogress rfl (fun id' hnew => ?_)
    ⟨fun _ => hsound.listed hprogress, fun id' hnew => ?_, fun id' hmem => ?_, fun id' hmem => ?_⟩
  · rcases reports_collecting.mp hnew with hold | ⟨rfl, hcompleted⟩
    · rw [hreports] at hold
      exact .inr hold
    · -- the run was not given up, so the call holds it
      rcases hgiven with hnot | hne
      · exact .inl (holds_iff.mpr ⟨hprogress, hmemid, hnot⟩)
      · exact absurd hcompleted hne
  · rcases reports_collecting.mp hnew with hold | ⟨rfl, hcompleted⟩
    · rw [hreports] at hold
      exact hsound.reported id' hold
    · obtain ⟨w, hw, hfits⟩ := h.watched id entry hentry
      rw [hcompleted] at hfits
      exact ⟨w, hw, hfits⟩
  · have hsettled := hsound.settled id' hmem
    rw [hphase] at hsettled
    intro hreleased
    obtain ⟨hover, hseen⟩ := hsettled hreleased
    refine ⟨hover, ?_⟩
    rcases hseen with hrest | hold | hdead
    · rcases List.mem_cons.mp hrest with rfl | hrest
      · rcases h.completed_or_dead hentry hover with hcompleted | hdead
        · exact .inr (.inl (reports_collecting.mpr (.inr ⟨rfl, hcompleted⟩)))
        · exact .inr (.inr hdead)
      · exact .inl hrest
    · rw [← hreports] at hold
      exact .inr (.inl (reports_collecting.mpr (.inl hold)))
    · exact .inr (.inr hdead)
  · refine hsound.remaining id' ?_
    rw [hphase]
    exact List.mem_cons_of_mem _ hmem

/-- **The call returns** all its runs that are over as completed. -/
theorem Sound.return (h : s.Sound) (hc : s.calls[call]? = some c)
    {snapshots : List AsyncToolRunSnapshot} (hphase : c.phase = .collecting [] snapshots) :
    (s.setCall call c (.returned snapshots)).Sound := by
  have hsound := h.calls c (List.mem_of_getElem? hc)
  have hprogress : c.phase.inProgress = true := by rw [hphase]; rfl
  have hreports : ∀ id, ({ c with phase := .returned snapshots } : WaitCall).reports id =
      c.reports id := fun _ => reports_setPhase (by rw [hphase]; rfl)
  refine h.setCall hc hprogress _ (fun id _ hseen => ?_) (fun id hexp hholds => ?_)
    ⟨fun hfalse => ?_, fun id hold => ?_, fun id hmem => trivial, fun id hmem => ?_⟩
  · rcases hseen with hholds | hold
    · cases (holds_iff.mp hholds).1
    · rw [hreports] at hold
      exact .inr hold
  · obtain ⟨-, hmem, hreleased⟩ := holds_iff.mp hholds
    have hsettled := hsound.settled id hmem
    rw [hphase] at hsettled
    rcases (hsettled hreleased).2 with hrest | hold | hdead
    · cases hrest
    · rw [← hreports] at hold
      exact .inr (.inl hold)
    · exact absurd hdead hexp.not_dead
  · cases hfalse
  · rw [hreports] at hold
    exact hsound.reported id hold
  · cases hmem

/-! ## Claiming and giving up -/

/-- Setting and clearing flags changes nothing that a call has seen of the runs. -/
theorem advances_of_status (hwatchers : s'.watchers = s.watchers)
    (hstatus : ∀ id entry, s'.runs id = some entry →
      ∃ old, s.runs id = some old ∧ entry.status = old.status) : s.Advances s' where
  watchers := fun id w hw => ⟨w, by rw [hwatchers, hw], fun hby => hby⟩
  running := by
    intro id w hw hover
    refine isRunning_eq_false_iff.mpr fun entry hentry => ?_
    obtain ⟨old, hold, heq⟩ := hstatus id entry hentry
    rw [heq]
    exact isRunning_eq_false_iff.mp hover old hold
  dead := by
    intro id w hw hdead
    obtain ⟨hkilled, hby⟩ := dead_iff.mp hdead
    refine dead_iff.mpr ⟨fun entry hentry => ?_, fun w' hw' => hby w' ?_⟩
    · obtain ⟨old, hold, heq⟩ := hstatus id entry hentry
      rw [heq]
      exact hkilled old hold
    · rwa [hwatchers] at hw'

/-- A running run is known to a watcher that has not marked it. -/
theorem Sound.watcher_of_isRunning (h : s.Sound) (hrunning : isRunning s.runs runId = true) :
    ∃ w, s.watchers runId = some w ∧ w.phase = .running := by
  obtain ⟨entry, hentry, hstatus⟩ := isRunning_iff.mp hrunning
  obtain ⟨w, hw, hfits⟩ := h.watched runId entry hentry
  rw [hstatus] at hfits
  exact ⟨w, hw, hfits⟩

/-- A run that is running is not reinjected. -/
theorem Sound.not_reinjected (h : s.Sound) (hrunning : isRunning s.runs runId = true) :
    s.reinjected runId = false := by
  obtain ⟨w, hw, hphase⟩ := h.watcher_of_isRunning hrunning
  exact not_reinjected_of_running hw (by rw [hphase]; rfl)

/-- Giving up changes nothing that a call has seen of the runs. -/
theorem advances_unclaimRuns (s : AsyncRuns) (call : Nat) (c : WaitCall) (phase : WaitPhase)
    (given : List Text) :
    s.Advances { s.setCall call c phase with runs := unclaimRuns s.runs given } :=
  advances_of_status rfl fun id entry hentry => by
    obtain ⟨old, hold, hstatus, -⟩ := unclaimRuns_some hentry
    exact ⟨old, hold, hstatus⟩

section Unclaim

variable {stillRunning : List Text}

/-- The call with the runs given up that it found running. -/
def givingUp (s : AsyncRuns) (c : WaitCall) (stillRunning : List Text) : WaitCall :=
  { c with released := stillRunning.filter (isRunning s.runs), phase := .collecting c.runIds [] }

/-- Nothing has been given up before, and what is not now is over. -/
theorem CallSound.of_checked (h : s.CallSound c) (hphase : c.phase = .checking [] stillRunning)
    (hmem : runId ∈ c.runIds) :
    c.released = [] ∧ (runId ∈ stillRunning ∨ isRunning s.runs runId = false) := by
  have hsettled := h.settled runId hmem
  rw [hphase] at hsettled
  obtain ⟨hnil, hrest | hseen⟩ := hsettled
  · cases hrest
  · exact ⟨hnil, hseen⟩

theorem holds_givingUp : (s.givingUp c stillRunning).holds runId = true ↔
    runId ∈ c.runIds ∧ ¬ (runId ∈ stillRunning ∧ isRunning s.runs runId = true) := by
  rw [holds_iff, givingUp, List.mem_filter]
  exact and_iff_right rfl

/-- What the call goes on to hold it has held. -/
theorem CallSound.holds_of_givingUp (h : s.CallSound c)
    (hphase : c.phase = .checking [] stillRunning)
    (hholds : (s.givingUp c stillRunning).holds runId = true) : c.holds runId = true := by
  obtain ⟨hlisted, -⟩ := holds_givingUp.mp hholds
  refine holds_iff.mpr ⟨by rw [hphase]; rfl, hlisted, ?_⟩
  rw [(h.of_checked hphase hlisted).1]
  exact List.not_mem_nil

theorem CallSound.givingUp (h : s.CallSound c) (hphase : c.phase = .checking [] stillRunning) :
    s.CallSound (s.givingUp c stillRunning) where
  listed := fun _ => h.listed (by rw [hphase]; rfl)
  reported := by
    intro id hreports
    cases hreports
  settled := by
    intro id hmem hreleased
    refine ⟨?_, .inl hmem⟩
    rcases (h.of_checked hphase hmem).2 with hstill | hover
    · rw [← Bool.not_eq_true]
      exact fun hrunning => hreleased (List.mem_filter.mpr ⟨hstill, hrunning⟩)
    · exact hover
  remaining := fun _ hmem => hmem

/-- **The call gives up** the runs still running; nobody else holds them. -/
theorem Sound.unclaim (h : s.Sound) (hc : s.calls[call]? = some c)
    (hphase : c.phase = .checking [] stillRunning)
    (halone : ∀ id ∈ stillRunning, isRunning s.runs id = true → s.heldByOther call id = false)
    (hs' : s' = { s with runs := unclaimRuns s.runs stillRunning
                         calls := s.calls.set call (s.givingUp c stillRunning) }) : s'.Sound := by
  have hsound := h.calls c (List.mem_of_getElem? hc)
  have hprogress : c.phase.inProgress = true := by rw [hphase]; rfl
  have hset : s' = { s.setCall call (s.givingUp c stillRunning) (.collecting c.runIds []) with
                     runs := unclaimRuns s.runs stillRunning } := hs'
  have hadvance : s.Advances s' := by
    rw [hset]
    exact advances_unclaimRuns s call _ _ stillRunning
  subst hs'
  refine ⟨fun id entry hentry => ?_, h.numbered, fun id hexp => ?_,
    fun c₁ hc₁ id hpending hseen => ?_, fun c₁ hc₁ => ?_⟩
  · obtain ⟨old, hold, hstatus, -⟩ := unclaimRuns_some hentry
    rw [hstatus]
    exact h.watched id old hold
  · -- an exposed run was exposed, and has not been given up
    obtain ⟨w, hw, hroute, hexp⟩ := hexp
    have hkeep : ¬ (id ∈ stillRunning ∧ isRunning s.runs id = true) := by
      rintro ⟨hstill, hrunning⟩
      obtain ⟨w', hw', hphase'⟩ := h.watcher_of_isRunning hrunning
      obtain rfl := Option.some.inj (hw'.symm.trans hw)
      rcases hexp with ⟨entry, hentry, -, hclaimed⟩ | ⟨reinjected, heq⟩ | ⟨heq, -⟩
      · obtain ⟨old, -, -, ⟨-, -, hclear⟩ | ⟨hnot, -⟩⟩ := unclaimRuns_some hentry
        · rw [hclear] at hclaimed
          cases hclaimed
        · exact hnot ⟨hstill, hrunning⟩
      · rw [hphase'] at heq
        cases heq
      · rw [hphase'] at heq
        cases heq
    have hexposed : s.Exposed id := by
      refine ⟨w, hw, hroute, ?_⟩
      rcases hexp with ⟨entry, hentry, hkilled, hclaimed⟩ | hdecided | ⟨heq, hnone⟩
      · obtain ⟨old, hold, -, ⟨hstill, hrunning, -⟩ | ⟨-, rfl⟩⟩ := unclaimRuns_some hentry
        · exact absurd ⟨hstill, hrunning⟩ hkeep
        · exact .inl ⟨entry, hold, hkilled, hclaimed⟩
      · exact .inr (.inl hdecided)
      · exact .inr (.inr ⟨heq, unclaimRuns_eq_none_iff.mp hnone⟩)
    rcases h.covered id hexposed with hann | hheld
    · exact .inl (announced_setCall hc hprogress (s.givingUp c stillRunning)
        (.collecting c.runIds []) hann)
    · rcases holds_or_heldByOther hc hheld with hholds | hother
      · exact .inr (held_iff.mpr ⟨_,
          List.mem_of_getElem? (Table.getElem?_set_self_of_getElem? hc),
          holds_givingUp.mpr ⟨(holds_iff.mp hholds).2.1, hkeep⟩⟩)
      · exact .inr (held_setCall (s.givingUp c stillRunning) (.collecting c.runIds []) hother)
  · obtain ⟨i, hi⟩ := List.mem_iff_getElem?.mp hc₁
    rcases Table.getElem?_set_cases hi with ⟨rfl, rfl⟩ | ⟨hne, hold⟩
    · -- the call itself keeps the flags of what it goes on to hold
      have hholds : (s.givingUp c stillRunning).holds id = true := by
        rcases hseen with hholds | hreports
        · exact hholds
        · cases hreports
      have hkeep := h.kept c (List.mem_of_getElem? hc) id hpending
        (.inl (hsound.holds_of_givingUp hphase hholds))
      refine ⟨hkeep.reinjected, fun entry hentry => ?_⟩
      obtain ⟨old, hentry', -, ⟨hstill, hrunning, -⟩ | ⟨-, rfl⟩⟩ := unclaimRuns_some hentry
      · exact absurd ⟨hstill, hrunning⟩ (holds_givingUp.mp hholds).2
      · exact hkeep.claimed entry hentry'
    · have hmem₁ := List.mem_of_getElem? hold
      have hkeep := h.kept c₁ hmem₁ id hpending hseen
      refine ⟨hkeep.reinjected, fun entry hentry => ?_⟩
      obtain ⟨old, hentry', -, ⟨hstill, hrunning, -⟩ | ⟨-, rfl⟩⟩ := unclaimRuns_some hentry
      · rcases hseen with hholds | hreports
        · have hother := heldByOther_iff.mpr ⟨i, c₁, Ne.symm hne, hold, hholds⟩
          rw [halone id hstill hrunning] at hother
          cases hother
        · obtain ⟨w, hw, hphase₁⟩ := h.watcher_of_isRunning hrunning
          obtain ⟨w', hw', hby⟩ := (h.calls c₁ hmem₁).reported id hreports
          obtain rfl := Option.some.inj (hw.symm.trans hw')
          rw [hphase₁] at hby
          cases hby
      · exact hkeep.claimed entry hentry'
  · rcases List.mem_or_eq_of_mem_set hc₁ with hold | rfl
    · exact (h.calls c₁ hold).advance hadvance
    · exact (hsound.givingUp hphase).advance hadvance

end Unclaim

section Wait

variable {runIds : List Text} {agentId sessionKey : Text}

/-- **A call claims runs**: those it leaves claimed it holds, or they are announced or held
already. -/
theorem Sound.wait (h : s.Sound) (c : WaitCall)
    (hs' : s' = { s with runs := (claimRuns agentId sessionKey s.runs runIds).2
                         calls := s.calls ++ [c] })
    (hcovered : ∀ id ∈ claimable agentId sessionKey s.runs runIds, s'.Exposed id →
      c.holds id = true ∨ s.announced id = true ∨ s.held id = true)
    (hkept : ∀ id ∈ c.pending, id ∈ claimable agentId sessionKey s.runs runIds ∧
      isRunning s.runs id = true)
    (hsound : s.CallSound c) : s'.Sound := by
  subst hs'
  have hadvance : s.Advances { s with runs := (claimRuns agentId sessionKey s.runs runIds).2
                                      calls := s.calls ++ [c] } :=
    advances_of_status rfl fun id entry hentry => by
      obtain ⟨old, hold, hstatus, -⟩ := claimRuns_some hentry
      exact ⟨old, hold, hstatus⟩
  refine ⟨fun id entry hentry => ?_, h.numbered, fun id hexp => ?_,
    fun c₁ hc₁ id hpending hseen => ?_, fun c₁ hc₁ => ?_⟩
  · obtain ⟨old, hold, hstatus, -⟩ := claimRuns_some hentry
    rw [hstatus]
    exact h.watched id old hold
  · have hold : s.announced id = true ∨ s.held id = true →
        announced { s with runs := (claimRuns agentId sessionKey s.runs runIds).2
                           calls := s.calls ++ [c] } id = true ∨
          held { s with runs := (claimRuns agentId sessionKey s.runs runIds).2
                        calls := s.calls ++ [c] } id = true := by
      rintro (hann | hheld)
      · refine .inl (announced_iff.mpr ?_)
        rcases announced_iff.mp hann with hre | ⟨c₁, hc₁, hreturns⟩
        · exact .inl hre
        · exact .inr ⟨c₁, List.mem_append_left _ hc₁, hreturns⟩
      · obtain ⟨c₁, hc₁, hholds⟩ := held_iff.mp hheld
        exact .inr (held_iff.mpr ⟨c₁, List.mem_append_left _ hc₁, hholds⟩)
    by_cases hclaim : id ∈ claimable agentId sessionKey s.runs runIds
    · rcases hcovered id hclaim hexp with hholds | hann
      · exact .inr (held_iff.mpr ⟨c, List.mem_append_right _ (List.mem_singleton_self _), hholds⟩)
      · exact hold hann
    · obtain ⟨w, hw, hroute, hexp⟩ := hexp
      refine hold (h.covered id ⟨w, hw, hroute, ?_⟩)
      rcases hexp with ⟨entry, hentry, hkilled, hclaimed⟩ | hdecided | ⟨heq, hnone⟩
      · obtain ⟨old, hold, -, ⟨hmem, -⟩ | ⟨-, rfl⟩⟩ := claimRuns_some hentry
        · exact absurd hmem hclaim
        · exact .inl ⟨entry, hold, hkilled, hclaimed⟩
      · exact .inr (.inl hdecided)
      · exact .inr (.inr ⟨heq, claimRuns_eq_none_iff.mp hnone⟩)
  · rcases List.mem_append.mp hc₁ with hc₁ | hc₁
    · have hkeep := h.kept c₁ hc₁ id hpending hseen
      refine ⟨hkeep.reinjected, fun entry hentry => ?_⟩
      obtain ⟨old, hold, -, ⟨-, hclaimed⟩ | ⟨-, rfl⟩⟩ := claimRuns_some hentry
      · exact hclaimed
      · exact hkeep.claimed entry hold
    · obtain rfl := List.mem_singleton.mp hc₁
      obtain ⟨hclaim, hrunning⟩ := hkept id hpending
      refine ⟨h.not_reinjected hrunning, fun entry hentry => ?_⟩
      obtain ⟨old, hold, -, ⟨-, hclaimed⟩ | ⟨hnot, -⟩⟩ := claimRuns_some hentry
      · exact hclaimed
      · exact absurd hclaim hnot
  · rcases List.mem_append.mp hc₁ with hc₁ | hc₁
    · exact (h.calls c₁ hc₁).advance hadvance
    · obtain rfl := List.mem_singleton.mp hc₁
      exact hsound.advance hadvance

/-- What a call can claim is known to a watcher. -/
theorem Sound.watcher_of_claimable (h : s.Sound)
    (hmem : runId ∈ claimable agentId sessionKey s.runs runIds) :
    ∃ w, s.watchers runId = some w := by
  obtain ⟨entry, hentry, -⟩ := belongsTo_of_mem_claimable hmem
  obtain ⟨w, hw, -⟩ := h.watched runId entry hentry
  exact ⟨w, hw⟩

/-- **A call claims all its runs** and waits. -/
theorem Sound.claim (h : s.Sound) {claimed : List (Text × Bool)}
    (hclaim : (claimRuns agentId sessionKey s.runs runIds).1 = .ok claimed) :
    Sound { s with
      runs := (claimRuns agentId sessionKey s.runs runIds).2
      calls := s.calls ++
        [⟨runIds, agentId, sessionKey, runIds.filter (isRunning s.runs), [], .waiting⟩] } := by
  have hall := (claimRuns_ok hclaim).1
  refine h.wait _ rfl (fun id hmem _ => ?_) (fun id hmem => ?_)
    ⟨fun _ id hmem => ?_, fun id hreports => ?_, fun id _ => rfl, fun id hmem => ?_⟩
  · rw [hall] at hmem
    exact .inl (holds_iff.mpr ⟨rfl, hmem, List.not_mem_nil⟩)
  · rw [hall]
    exact List.mem_filter.mp hmem
  · exact h.watcher_of_claimable (by rwa [hall])
  · cases hreports
  · cases hmem

/-- **A call fails to claim**: what it has claimed until then is spared. -/
theorem Sound.claimFailed (h : s.Sound) (error : FrameworkError)
    (hspared : (claimable agentId sessionKey s.runs runIds).all (s.spared s.calls.length) = true) :
    Sound { s with
      runs := (claimRuns agentId sessionKey s.runs runIds).2
      calls := s.calls ++ [⟨runIds, agentId, sessionKey, [], [], .failed error⟩] } := by
  refine h.wait _ rfl (fun id hmem hexp => ?_) (fun id hmem => ?_)
    ⟨fun hfalse => ?_, fun id hreports => ?_, fun id _ => trivial, fun id hmem => ?_⟩
  · have hid := List.all_eq_true.mp hspared id hmem
    have halive := hexp.not_dead
    obtain ⟨w, hw, hroute, -⟩ := hexp
    have hdead : ¬ s.dead id = true := by
      intro hdead
      refine halive (dead_iff.mpr ⟨fun entry hentry => ?_, (dead_iff.mp hdead).2⟩)
      obtain ⟨old, hold, hstatus, -⟩ := claimRuns_some hentry
      rw [hstatus]
      exact (dead_iff.mp hdead).1 old hold
    rcases announced_or_held_of_spared hid hw hroute hdead with hann | hother
    · exact .inr (.inl hann)
    · -- the call comes after all others
      rw [heldByOther, List.eraseIdx_of_length_le (Nat.le_refl _)] at hother
      exact .inr (.inr hother)
  · cases hmem
  · cases hfalse
  · cases hreports
  · cases hmem

end Wait

/-! ## Steps and runs -/

/-- **A step that keeps deliveries keeps the invariant.** -/
theorem Sound.step (h : s.Sound) {a : AsyncAction} (hkeeps : s.keepsDelivery a = true)
    (hst : s.step a = some s') : s'.Sound := by
  cases a with
  | start toolName agentId sessionKey request hasRoute now order =>
      rw [step_start hst]
      refine h.start fun id hmem => ?_
      have hawaits := List.all_eq_true.mp hkeeps id hmem
      rwa [Bool.not_eq_true'] at hawaits
  | complete runId outcome now =>
      obtain ⟨w, hw, hphase, rfl⟩ := step_complete hst
      cases hrunning : isRunning s.runs runId with
      | false =>
          rw [markCompleted_of_not_running hrunning]
          exact h.markKilled hw hphase hrunning
      | true =>
          obtain ⟨entry, hentry, hstatus⟩ := isRunning_iff.mp hrunning
          rw [markCompleted_of_running hentry hstatus]
          exact h.complete hw hphase hentry hstatus outcome now
  | decide runId =>
      obtain ⟨w, byItself, hw, hphase, rfl⟩ := step_decide hst
      exact h.decide hw hphase
  | kill runId agentId sessionKey now spawnError =>
      obtain rfl := Option.some.inj hst
      rcases killForSession_cases s.runs runId agentId sessionKey now spawnError with
        hsame | ⟨old, killed, hold, hrunning, hkilled, hclaimed, heq⟩
      · rw [hsame]
        exact h
      · rw [heq]
        exact h.kill hold hrunning hkilled hclaimed
  | wait runIds agentId sessionKey =>
      obtain ⟨pending, phase, rfl, ⟨e, herror, rfl, rfl⟩ | ⟨claimed, hok, rfl, rfl⟩⟩ :=
        step_wait hst
      · rw [keepsDelivery, herror] at hkeeps
        exact h.claimFailed e hkeeps
      · exact h.claim hok
  | wake call =>
      obtain ⟨c, hc, hphase, rfl⟩ := step_wake hst
      exact h.wake hc hphase
  | check call =>
      obtain ⟨c, runId, rest, stillRunning, hc, hphase, hget⟩ := step_check hst
      simp only [keepsDelivery, hc, hphase] at hkeeps
      rcases hget with ⟨e, herror, rfl⟩ | ⟨snapshot, hok, rfl⟩
      · rw [herror] at hkeeps
        exact h.fail hc (by rw [hphase]; rfl) hkeeps e
      · obtain ⟨entry, hentry, rfl⟩ := getForSession_ok hok
        exact h.check hc hphase hentry
  | unclaim call =>
      obtain ⟨c, stillRunning, hc, hphase, hs'⟩ := step_unclaim hst
      simp only [keepsDelivery, hc, hphase] at hkeeps
      refine h.unclaim hc hphase (fun id hmem hrunning => ?_) hs'
      have halone := List.all_eq_true.mp hkeeps id hmem
      rwa [hrunning, Bool.not_true, Bool.false_or, Bool.not_eq_true'] at halone
  | collect call =>
      obtain ⟨c, hc, ⟨snapshots, hphase, rfl⟩ | ⟨runId, rest, snapshots, hphase, hget⟩⟩ :=
        step_collect hst
      · exact h.return hc hphase
      · simp only [keepsDelivery, hc, hphase] at hkeeps
        rcases hget with ⟨e, herror, rfl⟩ | ⟨snapshot, hok, rfl⟩
        · rw [herror] at hkeeps
          exact h.fail hc (by rw [hphase]; rfl) hkeeps e
        · obtain ⟨entry, hentry, rfl⟩ := getForSession_ok hok
          rw [hok] at hkeeps
          refine h.collect hc hphase hentry ?_
          rwa [Bool.or_eq_true, decide_eq_true_eq, decide_eq_true_eq] at hkeeps

/-- **So long as every step keeps deliveries, every state is delivered.** -/
theorem delivered_of_keepsDelivery {tr : List (AsyncAction × AsyncRuns)} (hrun : Run step new tr)
    (hkeeps : Run.StepsMeet (fun s a => s.keepsDelivery a = true) new tr) :
    ∀ x ∈ tr, x.2.Delivered := by
  have hsound := Run.invariant_of_stepsMeet (J := Sound)
    (fun s a s' hs hC hst => Sound.step hs hC hst) hrun sound_new hkeeps
  exact fun x hx => (hsound x hx).delivered

/-- Two runs are started and a call waits for both; the first completes, the second does not. -/
def waitOneOfTwo : List AsyncAction :=
  let first := runIdOf 0 1
  let second := runIdOf 0 2
  [.start "exec" "main" "s" (.process "make" 7) true 0 [first],
    .start "ask" "main" "s" (.delegated "review") true 0 [second, first],
    .wait [first, second] "main" "s", .complete first (.process (some 0)) 1, .decide first,
    .wake 0, .check 0, .check 0, .unclaim 0, .collect 0, .collect 0, .collect 0,
    .complete second (.delegated (.ok "fine")) 2, .decide second]

theorem delivered_waitOneOfTwo : ∃ tr, exec step new waitOneOfTwo = some tr ∧
    ∀ x ∈ tr, x.2.Delivered := by
  obtain ⟨tr, htr, hrun, hkeeps⟩ :=
    exists_guarded_run_of_exec step new waitOneOfTwo (C := fun s a => s.keepsDelivery a = true)
      (fun _ _ h => h) (by decide +kernel)
  exact ⟨tr, htr, delivered_of_keepsDelivery hrun hkeeps⟩

/-- Two calls wait for one run; the first stops waiting and clears the flag, then the run
completes. -/
def overlappingWaits : List AsyncAction :=
  let runId := runIdOf 0 1
  [.start "exec" "main" "s" (.process "make" 7) true 0 [runId],
    .wait [runId] "main" "s", .wait [runId] "main" "s", .wake 0, .check 0, .unclaim 0,
    .complete runId (.process (some 0)) 1, .decide runId,
    .wake 1, .check 1, .unclaim 1, .collect 1, .collect 1]

/-- A call has returned a run that it waited for and that is reinjected. -/
def announcesTwice (s : AsyncRuns) : Bool :=
  s.calls.any fun c => c.pending.any fun runId => c.returns runId && s.reinjected runId

theorem overlapping_waits_announce_twice :
    ¬ ∀ tr, Run step new tr → ∀ x ∈ tr, x.2.Delivered := by
  intro hall
  obtain ⟨tr, hrun, x, hx, htwice⟩ :=
    exists_run_of_exec step new overlappingWaits announcesTwice (by decide +kernel)
  obtain ⟨c, hc, hany⟩ := List.any_eq_true.mp htwice
  obtain ⟨runId, hpending, hboth⟩ := List.any_eq_true.mp hany
  obtain ⟨hreturns, hreinjected⟩ := Bool.and_eq_true_iff.mp hboth
  rw [(hall tr hrun x hx).once runId c hc hreturns hpending] at hreinjected
  cases hreinjected

end AsyncRuns

end Tools
end SimpleClaw
