import SimpleClaw.Tools.AsyncDelivery

/-!
# The table of runs, and who sees and changes what

Runs are started, complete, are killed, are waited for and are evicted in any order, each under a
lock of its own.  A start takes its number before it has the lock, so that other starts may come
between, and may fail after it has taken it.

* `AsyncToolRunEntry.WellFormed`: a run has a finish time exactly when it is over, and the details
  of its kind.
* `Continues`: what becomes of an entry; once the run is over, nothing but its claim.
* `AsyncRunManager.step`: the manager with its numbers taken one by one.
* `async_run_table`: in every state of every run the entries are well formed and their ids unique,
  a run that is over stays as it is, and nobody sees or changes a run of another session.
-/

namespace SimpleClaw
namespace Tools

open Transition

/-! ## Listing -/

/-- The runs of a session, the latest first; `order` is that of the map. -/
def listForSession (order : List Text) (runs : RunTable) (agentId sessionKey : Text) :
    List AsyncToolRunSnapshot :=
  let items := order.filterMap fun runId =>
    (runs runId).bind fun entry =>
      if entry.belongsTo agentId sessionKey then some (entry.snapshot runId) else none
  items.insertionSort fun a b => b.startedAt ≤ a.startedAt

/-! ## One entry -/

namespace AsyncToolRunEntry

/-- A run has a finish time exactly when it is over, and the details of its kind and no others. -/
structure WellFormed (entry : AsyncToolRunEntry) : Prop where
  finished : entry.finishedAt.isSome = true ↔ entry.status ≠ .running
  process : entry.process.isSome = true ↔ entry.kind = .process
  delegated : entry.delegated.isSome = true ↔ entry.kind = .delegated

def exitCode (entry : AsyncToolRunEntry) : Option Int := entry.process.bind (·.exitCode)

/-- **What becomes of an entry.**  It stays one of its kind and its session, and once the run is
over only its claim changes. -/
structure Continues (entry entry' : AsyncToolRunEntry) : Prop where
  agentId : entry'.agentId = entry.agentId
  sessionKey : entry'.sessionKey = entry.sessionKey
  kind : entry'.kind = entry.kind
  wellFormed : entry.WellFormed → entry'.WellFormed
  ended : entry.status ≠ .running → ∃ claimed, entry' = { entry with claimed := claimed }

variable {entry entry' entry'' : AsyncToolRunEntry}

theorem Continues.refl (entry : AsyncToolRunEntry) : entry.Continues entry where
  agentId := rfl
  sessionKey := rfl
  kind := rfl
  wellFormed := id
  ended := fun _ => ⟨entry.claimed, rfl⟩

theorem Continues.trans (h : entry.Continues entry') (h' : entry'.Continues entry'') :
    entry.Continues entry'' where
  agentId := h'.agentId.trans h.agentId
  sessionKey := h'.sessionKey.trans h.sessionKey
  kind := h'.kind.trans h.kind
  wellFormed := fun hformed => h'.wellFormed (h.wellFormed hformed)
  ended := by
    intro hover
    obtain ⟨claimed, rfl⟩ := h.ended hover
    exact h'.ended hover

/-- A claim that is set or cleared. -/
theorem continues_claimed (entry : AsyncToolRunEntry) (claimed : Bool) :
    entry.Continues { entry with claimed := claimed } where
  agentId := rfl
  sessionKey := rfl
  kind := rfl
  wellFormed := fun hformed => ⟨hformed.finished, hformed.process, hformed.delegated⟩
  ended := fun _ => ⟨claimed, rfl⟩

/-- A run that completes was running. -/
theorem continues_complete (hrunning : entry.status = .running) (outcome : CompletionOutcome)
    (now : Nat) : entry.Continues (entry.complete outcome now) where
  agentId := by rcases outcome with exitCode | ⟨e | reply⟩ <;> rfl
  sessionKey := by rcases outcome with exitCode | ⟨e | reply⟩ <;> rfl
  kind := by rcases outcome with exitCode | ⟨e | reply⟩ <;> rfl
  wellFormed := by
    intro hformed
    have hprocess := hformed.process
    have hdelegated := hformed.delegated
    rcases outcome with exitCode | ⟨e | reply⟩
    all_goals
      constructor
      · exact ⟨fun _ => AsyncToolRunStatus.noConfusion, fun _ => rfl⟩
      · simpa [complete] using hprocess
      · simpa [complete] using hdelegated
  ended := fun hover => absurd hrunning hover

/-- A kill that succeeds leaves a run that is over alone, and ends a process that is running. -/
theorem kill_ok {now : Nat} {spawnError : Option Text}
    (h : entry.kill now spawnError = .ok entry') :
    (entry.status ≠ .running ∧ entry' = entry) ∨
      (entry.status = .running ∧ ∃ process, entry.process = some process ∧
        entry' = { entry with status := .killed, finishedAt := some now,
                              process := some { process with exitCode := some (-1) } }) := by
  rw [kill] at h
  by_cases hrunning : entry.status = .running
  · rw [if_neg fun hne => hne hrunning] at h
    split at h
    · cases h
    · next process hprocess =>
      refine .inr ⟨hrunning, process, hprocess, ?_⟩
      split at h
      · cases h
      all_goals exact (Except.ok.inj h).symm
  · rw [if_pos hrunning] at h
    exact .inl ⟨hrunning, (Except.ok.inj h).symm⟩

theorem continues_kill {now : Nat} {spawnError : Option Text}
    (h : entry.kill now spawnError = .ok entry') : entry.Continues entry' := by
  rcases kill_ok h with ⟨-, rfl⟩ | ⟨hrunning, process, hprocess, rfl⟩
  · exact .refl _
  · refine ⟨rfl, rfl, rfl, fun hformed => ?_, fun hover => absurd hrunning hover⟩
    refine ⟨⟨fun _ => AsyncToolRunStatus.noConfusion, fun _ => rfl⟩, ?_, hformed.delegated⟩
    exact ⟨fun _ => hformed.process.mp (by rw [hprocess]; rfl), fun _ => rfl⟩

end AsyncToolRunEntry

theorem wellFormed_newEntry (toolName agentId sessionKey : Text) (request : RunRequest)
    (now : Nat) : (newEntry toolName agentId sessionKey request now).WellFormed := by
  cases request with
  | process command pid =>
      refine ⟨⟨?_, ?_⟩, ⟨fun _ => rfl, fun _ => rfl⟩, ⟨?_, ?_⟩⟩
      · exact fun h => Bool.noConfusion h
      · exact fun h => absurd rfl h
      · exact fun h => Bool.noConfusion h
      · exact fun h => AsyncToolRunKind.noConfusion h
  | delegated request =>
      refine ⟨⟨?_, ?_⟩, ⟨?_, ?_⟩, ⟨fun _ => rfl, fun _ => rfl⟩⟩
      · exact fun h => Bool.noConfusion h
      · exact fun h => absurd rfl h
      · exact fun h => Bool.noConfusion h
      · exact fun h => AsyncToolRunKind.noConfusion h

/-! ## The table under an operation -/

section Operations

variable {runs : RunTable} {runId agentId sessionKey : Text} {entry entry' : AsyncToolRunEntry}

theorem belongsTo_iff : entry.belongsTo agentId sessionKey = true ↔
    entry.agentId = agentId ∧ entry.sessionKey = sessionKey := by
  rw [AsyncToolRunEntry.belongsTo, Bool.and_eq_true, decide_eq_true_eq, decide_eq_true_eq]

/-- No entry but those of the agent's session differs. -/
def OnlyOwn (agentId sessionKey : Text) (runs runs' : RunTable) : Prop :=
  ∀ runId, (∀ entry, runs runId = some entry → entry.belongsTo agentId sessionKey = false) →
    runs' runId = runs runId

/-- Every entry is one that was there, gone on. -/
def Evolves (runs runs' : RunTable) : Prop :=
  ∀ runId entry', runs' runId = some entry' → ∃ entry, runs runId = some entry ∧
    entry.Continues entry'

theorem Evolves.refl (runs : RunTable) : Evolves runs runs :=
  fun _ entry' h => ⟨entry', h, .refl entry'⟩

theorem evolves_update (hrun : runs runId = some entry) (h : entry.Continues entry') :
    Evolves runs (Function.update runs runId (some entry')) := by
  intro id entry'' hid
  rcases eq_or_ne id runId with rfl | hne
  · rw [Function.update_self] at hid
    obtain rfl := Option.some.inj hid
    exact ⟨entry, hrun, h⟩
  · rw [Function.update_of_ne hne] at hid
    exact ⟨entry'', hid, .refl entry''⟩

theorem onlyOwn_update (hrun : runs runId = some entry)
    (hbelongs : entry.belongsTo agentId sessionKey = true) :
    OnlyOwn agentId sessionKey runs (Function.update runs runId (some entry')) := by
  intro id hother
  have hne : id ≠ runId := by
    rintro rfl
    rw [hother entry hrun] at hbelongs
    exact Bool.noConfusion hbelongs
  exact Function.update_of_ne hne _ _

theorem evolves_markCompleted (runs : RunTable) (runId : Text) (outcome : CompletionOutcome)
    (now : Nat) : Evolves runs (markCompleted runs runId outcome now) := by
  rw [markCompleted]
  split
  · exact .refl runs
  · next entry hrun =>
    split
    · next hrunning =>
      exact evolves_update hrun (AsyncToolRunEntry.continues_complete hrunning outcome now)
    · exact .refl runs

/-- A kill is of an entry of the session, or fails and changes nothing. -/
theorem killForSession_own (runs : RunTable) (runId agentId sessionKey : Text) (now : Nat)
    (spawnError : Option Text) :
    (∃ e, killForSession runs runId agentId sessionKey now spawnError = (.error e, runs)) ∨
      ∃ entry entry', runs runId = some entry ∧ entry.belongsTo agentId sessionKey = true ∧
        entry.kill now spawnError = .ok entry' ∧
        killForSession runs runId agentId sessionKey now spawnError =
          (.ok (entry'.snapshot runId), Function.update runs runId (some entry')) := by
  rw [killForSession]
  split
  · exact .inl ⟨_, rfl⟩
  · next entry hrun =>
    split
    · next hbelongs =>
      split
      · exact .inl ⟨_, rfl⟩
      · next entry' hkill =>
        exact .inr ⟨entry, entry', hrun, hbelongs, hkill, rfl⟩
    · exact .inl ⟨_, rfl⟩

theorem evolves_claimRuns (runs : RunTable) (runIds : List Text) (agentId sessionKey : Text) :
    Evolves runs (claimRuns agentId sessionKey runs runIds).2 := by
  intro id entry' h
  rw [claimRuns_apply] at h
  split at h
  · obtain ⟨entry, hentry, rfl⟩ := Option.map_eq_some_iff.mp h
    exact ⟨entry, hentry, AsyncToolRunEntry.continues_claimed entry true⟩
  · exact ⟨entry', h, .refl entry'⟩

theorem onlyOwn_claimRuns (runs : RunTable) (runIds : List Text) (agentId sessionKey : Text) :
    OnlyOwn agentId sessionKey runs (claimRuns agentId sessionKey runs runIds).2 := by
  intro id hother
  rw [claimRuns_apply, if_neg]
  intro hmem
  obtain ⟨entry, hentry, hbelongs⟩ := belongsTo_of_mem_claimable hmem
  rw [hother entry hentry] at hbelongs
  exact Bool.noConfusion hbelongs

theorem evolves_unclaimRuns (runs : RunTable) (runIds : List Text) :
    Evolves runs (unclaimRuns runs runIds) := by
  intro id entry' h
  rw [unclaimRuns_apply] at h
  split at h
  · obtain ⟨entry, hentry, rfl⟩ := Option.map_eq_some_iff.mp h
    exact ⟨entry, hentry, AsyncToolRunEntry.continues_claimed entry false⟩
  · exact ⟨entry', h, .refl entry'⟩

theorem getForSession_own {snapshot : AsyncToolRunSnapshot}
    (h : getForSession runs runId agentId sessionKey = .ok snapshot) :
    ∃ entry, runs runId = some entry ∧ entry.belongsTo agentId sessionKey = true ∧
      snapshot = entry.snapshot runId := by
  rw [getForSession] at h
  split at h
  · cases h
  · next entry hrun =>
    split at h
    · next hbelongs => exact ⟨entry, hrun, hbelongs, (Except.ok.inj h).symm⟩
    · cases h

theorem mem_listForSession {order : List Text} {snapshot : AsyncToolRunSnapshot}
    (h : snapshot ∈ listForSession order runs agentId sessionKey) :
    ∃ runId entry, runs runId = some entry ∧ entry.belongsTo agentId sessionKey = true ∧
      snapshot = entry.snapshot runId := by
  rw [listForSession, List.mem_insertionSort, List.mem_filterMap] at h
  obtain ⟨runId, -, hentry⟩ := h
  obtain ⟨entry, hrun, hsnapshot⟩ := Option.bind_eq_some_iff.mp hentry
  split at hsnapshot
  · next hbelongs => exact ⟨runId, entry, hrun, hbelongs, (Option.some.inj hsnapshot).symm⟩
  · cases hsnapshot

end Operations

/-! ## The manager -/

/-- The manager with the numbers that starts have taken and not used, and for each run the agent
and the session it was started for, which only the model keeps. -/
structure AsyncRunManager where
  table : AsyncRuns
  taken : List Nat
  owners : Text → Option (Text × Text)

/-- One step: a start takes its number; it puts its run into the table; or any other step of the
manager. -/
inductive ManagerAction where
  | take
  | start (seq : Nat) (toolName agentId sessionKey : Text) (request : RunRequest)
      (hasRoute : Bool) (now : Nat) (order : List Text)
  | other (action : AsyncAction)

namespace AsyncRunManager

def new : AsyncRunManager where
  table := AsyncRuns.new
  taken := []
  owners := fun _ => none

def step (s : AsyncRunManager) : ManagerAction → Option AsyncRunManager
  | .take =>
      some { s with table := { s.table with counter := s.table.counter + 1 }
                    taken := s.table.counter :: s.taken }
  | .start seq toolName agentId sessionKey request hasRoute now order =>
      if seq ∈ s.taken then
        (AsyncRuns.step { s.table with counter := seq }
            (.start toolName agentId sessionKey request hasRoute now order)).map fun table =>
          { table := { table with counter := s.table.counter }
            taken := s.taken.erase seq
            owners := Function.update s.owners (runIdOf now seq) (some (agentId, sessionKey)) }
      else none
  | .other (.start _ _ _ _ _ _ _) => none
  | .other action => (s.table.step action).map fun table => { s with table := table }

/-- The agent and the session a step is made for: those of a kill, and those of a call that
waits. -/
def actsFor (s : AsyncRunManager) : ManagerAction → Option (Text × Text)
  | .other (.kill _ agentId sessionKey _ _) => some (agentId, sessionKey)
  | .other (.wait _ agentId sessionKey) => some (agentId, sessionKey)
  | .other (.wake call) | .other (.check call) | .other (.unclaim call)
  | .other (.collect call) => s.table.calls[call]?.map fun c => (c.agentId, c.sessionKey)
  | .other (.start _ _ _ _ _ _ _) | .other (.complete _ _ _) | .other (.decide _) => none
  | .take | .start _ _ _ _ _ _ _ _ => none

/-- A snapshot of a run that was started for the agent's session. -/
def OwnSnapshot (s : AsyncRunManager) (agentId sessionKey : Text)
    (snapshot : AsyncToolRunSnapshot) : Prop :=
  s.owners snapshot.runId = some (agentId, sessionKey) ∧
    ∃ entry : AsyncToolRunEntry, entry.belongsTo agentId sessionKey = true ∧
      snapshot = entry.snapshot snapshot.runId

/-- **Who sees and changes what.**  Whatever is returned to an agent's session is of runs started
for it, and no step made for it changes the entry of any other run. -/
structure Isolated (s : AsyncRunManager) : Prop where
  get : ∀ runId agentId sessionKey snapshot,
    getForSession s.table.runs runId agentId sessionKey = .ok snapshot →
    snapshot.runId = runId ∧ s.OwnSnapshot agentId sessionKey snapshot
  list : ∀ order agentId sessionKey,
    ∀ snapshot ∈ listForSession order s.table.runs agentId sessionKey,
    s.OwnSnapshot agentId sessionKey snapshot
  kill : ∀ runId agentId sessionKey now spawnError snapshot,
    (killForSession s.table.runs runId agentId sessionKey now spawnError).1 = .ok snapshot →
    snapshot.runId = runId ∧ s.OwnSnapshot agentId sessionKey snapshot
  wait : ∀ c ∈ s.table.calls, ∀ snapshot ∈ c.phase.snapshots,
    s.OwnSnapshot c.agentId c.sessionKey snapshot
  steps : ∀ action s', s.step action = some s' → ∀ owner, s.actsFor action = some owner →
    ∀ runId, s.owners runId ≠ some owner → s'.table.runs runId = s.table.runs runId

/-! ## The invariant -/

/-- The runs a call has found to be its session's. -/
def found : WaitPhase → List Text
  | .checking _ stillRunning => stillRunning
  | .waiting | .collecting _ _ | .returned _ | .failed _ => []

/-- A call knows of no runs but its session's. -/
structure CallOwn (s : AsyncRunManager) (c : WaitCall) : Prop where
  found : ∀ runId ∈ found c.phase, s.owners runId = some (c.agentId, c.sessionKey)
  snapshots : ∀ snapshot ∈ c.phase.snapshots, s.OwnSnapshot c.agentId c.sessionKey snapshot

/-- **The invariant**: the entries are those of the runs started, each of its owner, and no number
that has been taken and not used is the number of a run. -/
structure Sound (s : AsyncRunManager) : Prop where
  entries : ∀ runId entry, s.table.runs runId = some entry →
    entry.WellFormed ∧ runId ∈ s.table.started ∧
      s.owners runId = some (entry.agentId, entry.sessionKey)
  unique : s.table.started.Nodup
  owned : ∀ runId owner, s.owners runId = some owner → runId ∈ s.table.started
  numbered : ∀ runId ∈ s.table.started, ∃ now seq,
    runId = runIdOf now seq ∧ seq < s.table.counter ∧ seq ∉ s.taken
  takenOnce : s.taken.Nodup
  taken : ∀ seq ∈ s.taken, seq < s.table.counter
  calls : ∀ c ∈ s.table.calls, s.CallOwn c

theorem sound_new : Sound new where
  entries := by
    intro runId entry h
    cases h
  unique := List.nodup_nil
  owned := by
    intro runId owner h
    cases h
  numbered := by
    intro runId h
    cases h
  takenOnce := List.nodup_nil
  taken := by
    intro seq h
    cases h
  calls := by
    intro c h
    cases h

variable {s s' : AsyncRunManager} {agentId sessionKey runId : Text}

/-- An entry of a run that another started is not the session's. -/
theorem Sound.not_belongsTo (h : s.Sound) {entry : AsyncToolRunEntry}
    (howner : s.owners runId ≠ some (agentId, sessionKey))
    (hentry : s.table.runs runId = some entry) : entry.belongsTo agentId sessionKey = false := by
  rw [← Bool.not_eq_true, belongsTo_iff]
  rintro ⟨rfl, rfl⟩
  exact howner (h.entries runId entry hentry).2.2

/-- What the table shows of an entry of the session is a snapshot of its own. -/
theorem Sound.ownSnapshot (h : s.Sound) {entry : AsyncToolRunEntry}
    (hentry : s.table.runs runId = some entry)
    (hbelongs : entry.belongsTo agentId sessionKey = true) :
    s.OwnSnapshot agentId sessionKey (entry.snapshot runId) := by
  obtain ⟨rfl, rfl⟩ := belongsTo_iff.mp hbelongs
  exact ⟨(h.entries runId entry hentry).2.2, entry, hbelongs, rfl⟩

/-- The number of a run to be started is that of no run. -/
theorem Sound.not_started (h : s.Sound) (now : Nat) {seq : Nat} (hseq : seq ∈ s.taken) :
    runIdOf now seq ∉ s.table.started := by
  intro hmem
  obtain ⟨now', seq', heq, -, hfree⟩ := h.numbered _ hmem
  rw [← runIdOf_inj heq] at hfree
  exact hfree hseq

/-! ## The steps of the table -/

/-- A call goes on, and what it comes to know it has been shown as its session's. -/
structure Grows (runs : RunTable) (c c' : WaitCall) : Prop where
  agentId : c'.agentId = c.agentId
  sessionKey : c'.sessionKey = c.sessionKey
  found : ∀ runId ∈ found c'.phase, runId ∈ AsyncRunManager.found c.phase ∨
    ∃ snapshot, getForSession runs runId c.agentId c.sessionKey = .ok snapshot
  snapshots : ∀ snapshot ∈ c'.phase.snapshots, snapshot ∈ c.phase.snapshots ∨
    ∃ runId, getForSession runs runId c.agentId c.sessionKey = .ok snapshot

theorem Grows.refl (runs : RunTable) (c : WaitCall) : Grows runs c c where
  agentId := rfl
  sessionKey := rfl
  found := fun _ h => .inl h
  snapshots := fun _ h => .inl h

/-- **What a step does that starts no run**: the entries and the calls go on, and a call that is
new knows of no run. -/
structure GoesOn (t t' : AsyncRuns) : Prop where
  counter : t'.counter = t.counter
  started : t'.started = t.started
  runs : Evolves t.runs t'.runs
  calls : ∀ c' ∈ t'.calls, (∃ c ∈ t.calls, Grows t.runs c c') ∨
    (found c'.phase = [] ∧ c'.phase.snapshots = [])

variable {t t' : AsyncRuns} {c c' : WaitCall} {call : Nat}

theorem calls_same (t : AsyncRuns) : ∀ c' ∈ t.calls, (∃ c ∈ t.calls, Grows t.runs c c') ∨
    (found c'.phase = [] ∧ c'.phase.snapshots = []) :=
  fun c' hc' => .inl ⟨c', hc', .refl _ c'⟩

/-- One call goes on, the others stay as they are. -/
theorem calls_set (hc : t.calls[call]? = some c) (h : Grows t.runs c c') :
    ∀ d' ∈ t.calls.set call c', (∃ d ∈ t.calls, Grows t.runs d d') ∨
      (found d'.phase = [] ∧ d'.phase.snapshots = []) := by
  intro d' hd'
  rcases List.mem_or_eq_of_mem_set hd' with hmem | rfl
  · exact calls_same t d' hmem
  · exact .inl ⟨c, List.mem_of_getElem? hc, h⟩

theorem goesOn_setCall {phase : WaitPhase} (hc : t.calls[call]? = some c)
    (h : Grows t.runs c { c with phase := phase }) : GoesOn t (t.setCall call c phase) where
  counter := rfl
  started := rfl
  runs := .refl t.runs
  calls := calls_set hc h

/-- A phase in which a call knows of no run. -/
theorem grows_of_nothing {phase : WaitPhase} (hfound : found phase = [])
    (hsnapshots : phase.snapshots = []) (runs : RunTable) (c : WaitCall) :
    Grows runs c { c with phase := phase } where
  agentId := rfl
  sessionKey := rfl
  found := by
    intro runId hmem
    rw [hfound] at hmem
    cases hmem
  snapshots := by
    intro snapshot hmem
    rw [hsnapshots] at hmem
    cases hmem

theorem goesOn_check (h : t.step (.check call) = some t') : GoesOn t t' := by
  obtain ⟨c, runId, rest, stillRunning, hc, hphase, hget⟩ := AsyncRuns.step_check h
  rcases hget with ⟨e, -, rfl⟩ | ⟨snapshot, hget, rfl⟩
  · exact goesOn_setCall hc (grows_of_nothing rfl rfl t.runs c)
  · refine goesOn_setCall hc ⟨rfl, rfl, ?_, fun _ hmem => absurd hmem List.not_mem_nil⟩
    intro id hid
    have hid : id ∈ if snapshot.status = .running then stillRunning ++ [runId]
        else stillRunning := hid
    have hold : ∀ id ∈ stillRunning, id ∈ found c.phase := by
      rw [hphase]
      exact fun _ hmem => hmem
    split at hid
    · rcases List.mem_append.mp hid with hmem | hmem
      · exact .inl (hold id hmem)
      · obtain rfl := List.mem_singleton.mp hmem
        exact .inr ⟨snapshot, hget⟩
    · exact .inl (hold id hid)

theorem goesOn_unclaim (h : t.step (.unclaim call) = some t') : GoesOn t t' := by
  obtain ⟨c, stillRunning, hc, -, rfl⟩ := AsyncRuns.step_unclaim h
  refine ⟨rfl, rfl, evolves_unclaimRuns t.runs stillRunning, calls_set hc ⟨rfl, rfl, ?_, ?_⟩⟩
  · exact fun _ hmem => absurd hmem List.not_mem_nil
  · exact fun _ hmem => absurd hmem List.not_mem_nil

theorem goesOn_collect (h : t.step (.collect call) = some t') : GoesOn t t' := by
  obtain ⟨c, hc, hcases⟩ := AsyncRuns.step_collect h
  rcases hcases with ⟨snapshots, hphase, rfl⟩ | ⟨runId, rest, snapshots, hphase, hget⟩
  · refine goesOn_setCall hc ⟨rfl, rfl, fun _ hmem => absurd hmem List.not_mem_nil, ?_⟩
    intro snapshot hmem
    rw [hphase]
    exact .inl hmem
  · rcases hget with ⟨e, -, rfl⟩ | ⟨snapshot, hget, rfl⟩
    · exact goesOn_setCall hc (grows_of_nothing rfl rfl t.runs c)
    · refine goesOn_setCall hc ⟨rfl, rfl, fun _ hmem => absurd hmem List.not_mem_nil, ?_⟩
      intro snapshot' hmem
      rw [hphase]
      rcases List.mem_append.mp hmem with hmem | hmem
      · exact .inl hmem
      · obtain rfl := List.mem_singleton.mp hmem
        exact .inr ⟨runId, hget⟩

theorem goesOn_wait {runIds : List Text}
    (h : t.step (.wait runIds agentId sessionKey) = some t') : GoesOn t t' := by
  obtain ⟨pending, phase, rfl, hphase⟩ := AsyncRuns.step_wait h
  refine ⟨rfl, rfl, evolves_claimRuns t.runs runIds agentId sessionKey, ?_⟩
  intro c' hc'
  rcases List.mem_append.mp hc' with hmem | hmem
  · exact calls_same t c' hmem
  · obtain rfl := List.mem_singleton.mp hmem
    right
    rcases hphase with ⟨e, -, -, rfl⟩ | ⟨claimed, -, -, rfl⟩ <;> exact ⟨rfl, rfl⟩

theorem goesOn_kill {now : Nat} {spawnError : Option Text}
    (h : t.step (.kill runId agentId sessionKey now spawnError) = some t') : GoesOn t t' := by
  obtain rfl := Option.some.inj h
  refine ⟨rfl, rfl, ?_, calls_same t⟩
  rcases killForSession_own t.runs runId agentId sessionKey now spawnError with
    ⟨e, hkill⟩ | ⟨entry, entry', hrun, -, hkilled, hkill⟩
  · rw [hkill]
    exact .refl t.runs
  · rw [hkill]
    exact evolves_update hrun (AsyncToolRunEntry.continues_kill hkilled)

/-- Any other step is one of the table. -/
theorem step_other {action : AsyncAction} (h : s.step (.other action) = some s') :
    s.table.step action = some s'.table ∧ s' = { s with table := s'.table } := by
  have hmap : (s.table.step action).map (fun table => { s with table := table }) = some s' := by
    cases action with
    | start => cases h
    | _ => exact h
  obtain ⟨table, hstep, rfl⟩ := Option.map_eq_some_iff.mp hmap
  exact ⟨hstep, rfl⟩

/-- **What every step does that starts no run.** -/
theorem goesOn_of_other {action : AsyncAction} (h : s.step (.other action) = some s') :
    GoesOn s.table s'.table := by
  have hstep := (step_other h).1
  generalize s'.table = t' at hstep
  cases action with
  | start toolName agentId sessionKey request hasRoute now order => cases h
  | complete runId outcome now =>
      obtain ⟨w, -, -, rfl⟩ := AsyncRuns.step_complete hstep
      exact ⟨rfl, rfl, evolves_markCompleted s.table.runs runId outcome now, calls_same s.table⟩
  | decide runId =>
      obtain ⟨w, byItself, -, -, rfl⟩ := AsyncRuns.step_decide hstep
      exact ⟨rfl, rfl, .refl s.table.runs, calls_same s.table⟩
  | kill runId agentId sessionKey now spawnError => exact goesOn_kill hstep
  | wait runIds agentId sessionKey => exact goesOn_wait hstep
  | wake call =>
      obtain ⟨c, hc, -, rfl⟩ := AsyncRuns.step_wake hstep
      exact goesOn_setCall hc (grows_of_nothing rfl rfl s.table.runs c)
  | check call => exact goesOn_check hstep
  | unclaim call => exact goesOn_unclaim hstep
  | collect call => exact goesOn_collect hstep

/-- What a start does: its run is entered under the number it has taken, and some runs that are
over are evicted. -/
theorem step_start {seq : Nat} {toolName : Text} {request : RunRequest} {hasRoute : Bool}
    {now : Nat} {order : List Text}
    (h : s.step (.start seq toolName agentId sessionKey request hasRoute now order) = some s') :
    seq ∈ s.taken ∧ s'.taken = s.taken.erase seq ∧ s'.table.counter = s.table.counter ∧
      s'.table.started = s.table.started ++ [runIdOf now seq] ∧
      s'.table.calls = s.table.calls ∧
      s'.owners = Function.update s.owners (runIdOf now seq) (some (agentId, sessionKey)) ∧
      s'.table.runs = autoEvict order (Function.update s.table.runs (runIdOf now seq)
        (some (newEntry toolName agentId sessionKey request now))) := by
  rw [step] at h
  split at h
  · next hseq =>
    obtain ⟨table, hstep, rfl⟩ := Option.map_eq_some_iff.mp h
    obtain rfl := AsyncRuns.step_start hstep
    exact ⟨hseq, rfl, rfl, rfl, rfl, rfl, rfl⟩
  · cases h

/-! ## The invariant along a run -/

theorem CallOwn.grow (hown : s.CallOwn c) (h : s.Sound) (hgrows : Grows s.table.runs c c') :
    s.CallOwn c' where
  found := by
    intro runId hmem
    rw [hgrows.agentId, hgrows.sessionKey]
    rcases hgrows.found runId hmem with hold | ⟨snapshot, hget⟩
    · exact hown.found runId hold
    · obtain ⟨entry, hentry, hbelongs, -⟩ := getForSession_own hget
      exact (h.ownSnapshot hentry hbelongs).1
  snapshots := by
    intro snapshot hmem
    rw [hgrows.agentId, hgrows.sessionKey]
    rcases hgrows.snapshots snapshot hmem with hold | ⟨runId, hget⟩
    · exact hown.snapshots snapshot hold
    · obtain ⟨entry, hentry, hbelongs, rfl⟩ := getForSession_own hget
      exact h.ownSnapshot hentry hbelongs

theorem callOwn_of_nothing (s : AsyncRunManager) (hfound : found c.phase = [])
    (hsnapshots : c.phase.snapshots = []) : s.CallOwn c where
  found := by
    intro runId hmem
    rw [hfound] at hmem
    cases hmem
  snapshots := by
    intro snapshot hmem
    rw [hsnapshots] at hmem
    cases hmem

/-- A call keeps what it knows when runs are added. -/
theorem CallOwn.owners (hown : s.CallOwn c)
    (h : ∀ runId owner, s.owners runId = some owner → s'.owners runId = some owner) :
    s'.CallOwn c where
  found := fun runId hmem => h _ _ (hown.found runId hmem)
  snapshots := fun snapshot hmem =>
    ⟨h _ _ (hown.snapshots snapshot hmem).1, (hown.snapshots snapshot hmem).2⟩

theorem Sound.other (h : s.Sound) {action : AsyncAction}
    (hstep : s.step (.other action) = some s') : s'.Sound := by
  have hgo := goesOn_of_other hstep
  obtain ⟨-, heq⟩ := step_other hstep
  have howners : s'.owners = s.owners := by rw [heq]
  have htaken : s'.taken = s.taken := by rw [heq]
  constructor
  case entries =>
    intro runId entry' hentry'
    obtain ⟨entry, hentry, hcontinues⟩ := hgo.runs runId entry' hentry'
    obtain ⟨hformed, hstarted, howner⟩ := h.entries runId entry hentry
    rw [hgo.started, howners, hcontinues.agentId, hcontinues.sessionKey]
    exact ⟨hcontinues.wellFormed hformed, hstarted, howner⟩
  case unique =>
    rw [hgo.started]
    exact h.unique
  case owned =>
    rw [hgo.started, howners]
    exact h.owned
  case numbered =>
    rw [hgo.started, hgo.counter, htaken]
    exact h.numbered
  case takenOnce =>
    rw [htaken]
    exact h.takenOnce
  case taken =>
    rw [htaken, hgo.counter]
    exact h.taken
  case calls =>
    intro c' hc'
    refine CallOwn.owners (s := s) ?_ fun runId owner howner => by rwa [howners]
    rcases hgo.calls c' hc' with ⟨c, hc, hgrows⟩ | ⟨hfound, hsnapshots⟩
    · exact (h.calls c hc).grow h hgrows
    · exact callOwn_of_nothing s hfound hsnapshots

theorem Sound.take (h : s.Sound) (hstep : s.step .take = some s') : s'.Sound := by
  obtain rfl := Option.some.inj hstep
  refine ⟨h.entries, h.unique, h.owned, ?_, ?_, ?_, ?_⟩
  · intro runId hmem
    obtain ⟨now, seq, heq, hlt, hfree⟩ := h.numbered runId hmem
    refine ⟨now, seq, heq, Nat.lt_succ_of_lt hlt, ?_⟩
    rw [List.mem_cons]
    rintro (rfl | hmem)
    · exact Nat.lt_irrefl _ hlt
    · exact hfree hmem
  · exact List.nodup_cons.mpr ⟨fun hmem => Nat.lt_irrefl _ (h.taken _ hmem), h.takenOnce⟩
  · intro seq hmem
    rcases List.mem_cons.mp hmem with rfl | hmem
    · exact Nat.lt_succ_self _
    · exact Nat.lt_succ_of_lt (h.taken seq hmem)
  · exact fun c hc => (h.calls c hc).owners fun _ _ howner => howner

theorem Sound.start (h : s.Sound) {seq : Nat} {toolName : Text} {request : RunRequest}
    {hasRoute : Bool} {now : Nat} {order : List Text}
    (hstep : s.step (.start seq toolName agentId sessionKey request hasRoute now order) =
      some s') : s'.Sound := by
  obtain ⟨hseq, htaken, hcounter, hstarted, hcalls, howners, hruns⟩ := step_start hstep
  have hnew := h.not_started now hseq
  have hold : ∀ runId ∈ s.table.started, s'.owners runId = s.owners runId := by
    intro runId hmem
    rw [howners, Function.update_of_ne]
    rintro rfl
    exact hnew hmem
  constructor
  case entries =>
    intro runId entry hentry
    rw [hruns] at hentry
    have hentry := autoEvict_some hentry
    rcases eq_or_ne runId (runIdOf now seq) with rfl | hne
    · rw [Function.update_self] at hentry
      obtain rfl := Option.some.inj hentry
      refine ⟨wellFormed_newEntry toolName agentId sessionKey request now, ?_, ?_⟩
      · rw [hstarted]
        exact List.mem_append_right _ (List.mem_singleton_self _)
      · rw [howners, Function.update_self]
        rfl
    · rw [Function.update_of_ne hne] at hentry
      obtain ⟨hformed, hmem, howner⟩ := h.entries runId entry hentry
      rw [hold runId hmem, hstarted]
      exact ⟨hformed, List.mem_append_left _ hmem, howner⟩
  case unique =>
    rw [hstarted]
    refine List.nodup_append.mpr ⟨h.unique, List.nodup_singleton _, ?_⟩
    rintro runId hmem id hid rfl
    obtain rfl := List.mem_singleton.mp hid
    exact hnew hmem
  case owned =>
    intro runId owner howner
    rw [hstarted, List.mem_append, List.mem_singleton]
    rcases eq_or_ne runId (runIdOf now seq) with rfl | hne
    · exact .inr rfl
    · rw [howners, Function.update_of_ne hne] at howner
      exact .inl (h.owned runId owner howner)
  case numbered =>
    intro runId hmem
    rw [hcounter, htaken]
    rw [hstarted] at hmem
    rcases List.mem_append.mp hmem with hmem | hmem
    · obtain ⟨now', seq', heq, hlt, hfree⟩ := h.numbered runId hmem
      exact ⟨now', seq', heq, hlt, fun hin => hfree (List.mem_of_mem_erase hin)⟩
    · obtain rfl := List.mem_singleton.mp hmem
      exact ⟨now, seq, rfl, h.taken seq hseq, h.takenOnce.not_mem_erase⟩
  case takenOnce =>
    rw [htaken]
    exact h.takenOnce.erase seq
  case taken =>
    intro seq' hmem
    rw [htaken] at hmem
    rw [hcounter]
    exact h.taken seq' (List.mem_of_mem_erase hmem)
  case calls =>
    intro c hc
    rw [hcalls] at hc
    refine (h.calls c hc).owners fun runId owner howner => ?_
    rw [hold runId (h.owned runId owner howner)]
    exact howner

theorem Sound.step (h : s.Sound) (action : ManagerAction) (hstep : s.step action = some s') :
    s'.Sound := by
  cases action with
  | take => exact h.take hstep
  | start seq toolName agentId sessionKey request hasRoute now order => exact h.start hstep
  | other action => exact h.other hstep

/-! ## What is kept -/

/-- A run that has been started and is in the later table is in the earlier one, and has gone on
from there. -/
structure Keeps (s s' : AsyncRunManager) : Prop where
  started : ∀ runId ∈ s.table.started, runId ∈ s'.table.started
  runs : ∀ runId ∈ s.table.started, ∀ entry', s'.table.runs runId = some entry' →
    ∃ entry, s.table.runs runId = some entry ∧ entry.Continues entry'

theorem Keeps.refl (s : AsyncRunManager) : s.Keeps s where
  started := fun _ hmem => hmem
  runs := fun _ _ entry' h => ⟨entry', h, .refl entry'⟩

theorem Keeps.trans {s₁ s₂ s₃ : AsyncRunManager} (h : s₁.Keeps s₂) (h' : s₂.Keeps s₃) :
    s₁.Keeps s₃ where
  started := fun runId hmem => h'.started runId (h.started runId hmem)
  runs := by
    intro runId hmem entry₃ hentry₃
    obtain ⟨entry₂, hentry₂, hcontinues₂⟩ :=
      h'.runs runId (h.started runId hmem) entry₃ hentry₃
    obtain ⟨entry₁, hentry₁, hcontinues₁⟩ := h.runs runId hmem entry₂ hentry₂
    exact ⟨entry₁, hentry₁, hcontinues₁.trans hcontinues₂⟩

theorem Sound.keeps (h : s.Sound) (action : ManagerAction) (hstep : s.step action = some s') :
    s.Keeps s' := by
  cases action with
  | take =>
      obtain rfl := Option.some.inj hstep
      exact ⟨fun _ hmem => hmem, fun _ _ entry' hentry' => ⟨entry', hentry', .refl entry'⟩⟩
  | start seq toolName agentId sessionKey request hasRoute now order =>
      obtain ⟨hseq, -, -, hstarted, -, -, hruns⟩ := step_start hstep
      refine ⟨fun runId hmem => ?_, fun runId hmem entry' hentry' => ?_⟩
      · rw [hstarted]
        exact List.mem_append_left _ hmem
      · rw [hruns] at hentry'
        have hentry' := autoEvict_some hentry'
        rw [Function.update_of_ne] at hentry'
        · exact ⟨entry', hentry', .refl entry'⟩
        · rintro rfl
          exact h.not_started now hseq hmem
  | other action =>
      have hgo := goesOn_of_other hstep
      refine ⟨fun runId hmem => ?_, fun runId _ entry' hentry' => hgo.runs runId entry' hentry'⟩
      rw [hgo.started]
      exact hmem

/-! ## Who changes what -/

theorem Sound.eq_of_onlyOwn (h : s.Sound) {runs' : RunTable}
    (hown : OnlyOwn agentId sessionKey s.table.runs runs')
    (howner : s.owners runId ≠ some (agentId, sessionKey)) :
    runs' runId = s.table.runs runId :=
  hown runId fun _ hentry => h.not_belongsTo howner hentry

/-- **A step made for a session changes no run of another.** -/
theorem Sound.onlyOwn (h : s.Sound) {action : ManagerAction} (hstep : s.step action = some s')
    {owner : Text × Text} (hacts : s.actsFor action = some owner)
    (howner : s.owners runId ≠ some owner) : s'.table.runs runId = s.table.runs runId := by
  cases action with
  | take => cases hacts
  | start seq toolName agentId sessionKey request hasRoute now order => cases hacts
  | other action =>
    have htable := (step_other hstep).1
    generalize s'.table = t' at htable
    cases action with
    | start toolName agentId sessionKey request hasRoute now order => cases hacts
    | complete runId outcome now => cases hacts
    | decide runId => cases hacts
    | kill killed agentId sessionKey now spawnError =>
        obtain rfl := Option.some.inj hacts
        obtain rfl := Option.some.inj htable
        rcases killForSession_own s.table.runs killed agentId sessionKey now spawnError with
          ⟨e, hkill⟩ | ⟨entry, entry', hrun, hbelongs, -, hkill⟩
        · rw [hkill]
        · rw [hkill]
          exact h.eq_of_onlyOwn (onlyOwn_update hrun hbelongs) howner
    | wait runIds agentId sessionKey =>
        obtain rfl := Option.some.inj hacts
        obtain ⟨pending, phase, rfl, -⟩ := AsyncRuns.step_wait htable
        exact h.eq_of_onlyOwn (onlyOwn_claimRuns s.table.runs runIds agentId sessionKey) howner
    | wake call =>
        obtain ⟨c, -, -, rfl⟩ := AsyncRuns.step_wake htable
        rfl
    | check call =>
        obtain ⟨c, id, rest, stillRunning, -, -, hget⟩ := AsyncRuns.step_check htable
        rcases hget with ⟨e, -, rfl⟩ | ⟨snapshot, -, rfl⟩ <;> rfl
    | unclaim call =>
        obtain ⟨c, stillRunning, hc, hphase, rfl⟩ := AsyncRuns.step_unclaim htable
        have hfound := (h.calls c (List.mem_of_getElem? hc)).found
        rw [hphase] at hfound
        have hacts : s.table.calls[call]?.map (fun c => (c.agentId, c.sessionKey)) =
          some owner := hacts
        rw [hc] at hacts
        obtain rfl := Option.some.inj hacts
        show unclaimRuns s.table.runs stillRunning runId = s.table.runs runId
        rw [unclaimRuns_apply, if_neg]
        exact fun hmem => howner (hfound runId hmem.1)
    | collect call =>
        obtain ⟨c, -, hcases⟩ := AsyncRuns.step_collect htable
        rcases hcases with ⟨snapshots, -, rfl⟩ | ⟨id, rest, snapshots, -, hget⟩
        · rfl
        · rcases hget with ⟨e, -, rfl⟩ | ⟨snapshot, -, rfl⟩ <;> rfl

theorem Sound.isolated (h : s.Sound) : s.Isolated where
  get := by
    intro runId agentId sessionKey snapshot hget
    obtain ⟨entry, hentry, hbelongs, rfl⟩ := getForSession_own hget
    exact ⟨rfl, h.ownSnapshot hentry hbelongs⟩
  list := by
    intro order agentId sessionKey snapshot hmem
    obtain ⟨runId, entry, hentry, hbelongs, rfl⟩ := mem_listForSession hmem
    exact h.ownSnapshot hentry hbelongs
  kill := by
    intro runId agentId sessionKey now spawnError snapshot hok
    rcases killForSession_own s.table.runs runId agentId sessionKey now spawnError with
      ⟨e, hkill⟩ | ⟨entry, entry', hentry, hbelongs, hkilled, hkill⟩
    · rw [hkill] at hok
      cases hok
    · rw [hkill] at hok
      obtain rfl := Except.ok.inj hok
      have hcontinues := AsyncToolRunEntry.continues_kill hkilled
      refine ⟨rfl, (h.ownSnapshot hentry hbelongs).1, entry', ?_, rfl⟩
      rw [belongsTo_iff] at hbelongs ⊢
      rwa [hcontinues.agentId, hcontinues.sessionKey]
  wait := fun c hc => (h.calls c hc).snapshots
  steps := fun _ _ hstep _ hacts _ howner => h.onlyOwn hstep hacts howner

/-- **The table of runs.**  In every state of every run of the manager, every entry is well formed
and is that of one of the runs started, whose ids are all different; nobody is shown and nobody
changes a run of another session; and in every later state a run that was over, if it is still in
the table, has the status, the finish time and the exit code it had. -/
theorem async_run_table {tr later : List (ManagerAction × AsyncRunManager)}
    (hrun : Run step new tr) (hlater : Run step (Run.final new tr) later) :
    (∀ runId entry, (Run.final new tr).table.runs runId = some entry →
      entry.WellFormed ∧ runId ∈ (Run.final new tr).table.started) ∧
    (Run.final new tr).table.started.Nodup ∧
    (Run.final new tr).Isolated ∧
    ∀ runId entry entry', (Run.final new tr).table.runs runId = some entry →
      entry.status ≠ .running →
      (Run.final (Run.final new tr) later).table.runs runId = some entry' →
      entry'.status = entry.status ∧ entry'.finishedAt = entry.finishedAt ∧
        entry'.exitCode = entry.exitCode := by
  have hsound : (Run.final new tr).Sound :=
    Run.invariant_final (fun s a s' h => h.step a) hrun sound_new
  generalize Run.final new tr = s at hsound hlater
  have hkeeps : s.Keeps (Run.final s later) :=
    Run.related_final Keeps.refl (fun _ _ _ => Keeps.trans) (fun s a s' h => h.step a)
      (fun s a s' h => h.keeps a) hlater hsound
  refine ⟨fun runId entry hentry => ?_, hsound.unique, hsound.isolated, ?_⟩
  · obtain ⟨hformed, hstarted, -⟩ := hsound.entries runId entry hentry
    exact ⟨hformed, hstarted⟩
  · intro runId entry entry' hentry hover hentry'
    have hstarted := (hsound.entries runId entry hentry).2.1
    obtain ⟨entry₁, hentry₁, hcontinues⟩ := hkeeps.runs runId hstarted entry' hentry'
    obtain rfl := Option.some.inj (hentry.symm.trans hentry₁)
    obtain ⟨claimed, rfl⟩ := hcontinues.ended hover
    exact ⟨rfl, rfl, rfl⟩

/-- Two starts whose numbers are taken in the other order; the process completes. -/
def startsAndCompletes : List ManagerAction :=
  [.take, .take,
    .start 2 "task" "main" "s" (.delegated "look") true 0 [runIdOf 0 2],
    .start 1 "exec" "main" "t" (.process "make" 7) true 0 [runIdOf 0 2, runIdOf 0 1],
    .other (.wait [runIdOf 0 2] "main" "s"),
    .other (.complete (runIdOf 0 1) (.process (some 0)) 3)]

/-- The process is killed once it is over, and another session asks for it. -/
def killsTooLate : List ManagerAction :=
  [.other (.kill (runIdOf 0 1) "main" "t" 4 none), .other (.kill (runIdOf 0 1) "main" "s" 4 none),
    .other (.wait [runIdOf 0 1] "main" "s"), .other (.decide (runIdOf 0 1))]

theorem async_run_table_killsTooLate : ∃ tr later entry entry',
    exec step new startsAndCompletes = some tr ∧
    exec step (Run.final new tr) killsTooLate = some later ∧
    (Run.final new tr).table.runs (runIdOf 0 1) = some entry ∧
    (Run.final (Run.final new tr) later).table.runs (runIdOf 0 1) = some entry' ∧
    entry'.status = entry.status ∧ entry'.exitCode = entry.exitCode ∧
    (Run.final new tr).Isolated := by
  have hruns : ((exec step new startsAndCompletes).bind fun tr =>
      (exec step (Run.final new tr) killsTooLate).bind fun later =>
      (((Run.final new tr).table.runs (runIdOf 0 1)).filter (·.status ≠ .running)).bind fun _ =>
      (Run.final (Run.final new tr) later).table.runs (runIdOf 0 1)).isSome = true := by
    decide +kernel
  obtain ⟨entry', hruns⟩ := Option.isSome_iff_exists.mp hruns
  obtain ⟨tr, htr, hruns⟩ := Option.bind_eq_some_iff.mp hruns
  obtain ⟨later, hlater, hruns⟩ := Option.bind_eq_some_iff.mp hruns
  obtain ⟨entry, hfilter, hentry'⟩ := Option.bind_eq_some_iff.mp hruns
  obtain ⟨hentry, hover⟩ := Option.filter_eq_some_iff.mp hfilter
  obtain ⟨-, -, hisolated, hkept⟩ := async_run_table (run_of_exec htr) (run_of_exec hlater)
  obtain ⟨hstatus, -, hexit⟩ :=
    hkept (runIdOf 0 1) entry entry' hentry (of_decide_eq_true hover) hentry'
  exact ⟨tr, later, entry, entry', htr, hlater, hentry, hentry', hstatus, hexit, hisolated⟩

end AsyncRunManager

end Tools
end SimpleClaw
