import SimpleClaw.Lib.Runs
import SimpleClaw.Tools.AsyncRuns

/-!
# The flags a failed call leaves behind

A call that waits sets the flags of its runs one by one and clears, when the wait is over, those
of the runs still running.  It may fail before it has set all, between the two, or after: at an id
that is unknown or of another session, and at a run that has been evicted meanwhile.

* `FlagsRestored`: every run that remains has its flag as before.
* `claimed_after`: the flag of a run that the call has claimed is set in the end unless the call
  came to give it up, and that of any other is as before.
* `flagsRestored_iff`: what is restored, exactly.
* `unknown_id_leaves_claim`: a good id followed by an unknown one.
-/

namespace SimpleClaw
namespace Tools

open Transition

namespace AsyncRuns

/-- The runs started between two states. -/
def startedSince (s s' : AsyncRuns) : List Text := s'.started.drop s.started.length

/-- The run was in the table before and is in the table after, and it is the same run. -/
structure Remains (s s' : AsyncRuns) (runId : Text) (entry entry' : AsyncToolRunEntry) : Prop where
  before : s.runs runId = some entry
  after : s'.runs runId = some entry'
  same : runId ∉ s.startedSince s'

/-- **The flag of every remaining run is as before.** -/
def FlagsRestored (s s' : AsyncRuns) : Prop :=
  ∀ runId entry entry', s.Remains s' runId entry entry' → entry'.claimed = entry.claimed

/-- Calls other than this one claim only what is claimed and give up only what is not. -/
def Undisturbed (call : Nat) (s : AsyncRuns) : AsyncAction → Prop
  | .wait runIds agentId sessionKey =>
      ∀ runId ∈ claimable agentId sessionKey s.runs runIds, ∀ entry,
        s.runs runId = some entry → entry.claimed = true
  | .unclaim other =>
      other ≠ call → ∀ c rest stillRunning, s.calls[other]? = some c →
        c.phase = .checking rest stillRunning → ∀ runId ∈ stillRunning, ∀ entry,
          s.runs runId = some entry → entry.status = .running → entry.claimed = false
  | .start _ _ _ _ _ _ _ | .complete _ _ _ | .decide _ | .kill _ _ _ _ _ | .wake _ | .check _
  | .collect _ => True

/-- The step is the call's giving up of its runs, and this run is still running. -/
def givesUp (call : Nat) (runId : Text) (s : AsyncRuns) : AsyncAction → Bool
  | .unclaim other => decide (other = call) && isRunning s.runs runId
  | .start _ _ _ _ _ _ _ | .complete _ _ _ | .decide _ | .kill _ _ _ _ _ | .wait _ _ _ | .wake _
  | .check _ | .collect _ => false

/-- Along the trace the call comes to give up its runs, with this run still running. -/
def givenUp (call : Nat) (runId : Text) : AsyncRuns → List (AsyncAction × AsyncRuns) → Bool
  | _, [] => false
  | s, (a, s') :: tr => s.givesUp call runId a || givenUp call runId s' tr

/-- A call of `wait_for_session` from its start to its error, other calls not disturbing it. -/
structure FailedWait (s : AsyncRuns) (runIds : List Text) (agentId sessionKey : Text)
    (s₁ : AsyncRuns) (tr : List (AsyncAction × AsyncRuns)) : Prop where
  wait : s.step (.wait runIds agentId sessionKey) = some s₁
  run : Run step s₁ tr
  undisturbed : Run.StepsMeet (Undisturbed s.calls.length) s₁ tr
  failed : ∃ c error, (Run.final s₁ tr).calls[s.calls.length]? = some c ∧ c.phase = .failed error

/-! ## One step -/

/-- What the call has seen of a run: before it gives up, a run that it has claimed is still to be
looked at, was found running, or is over. -/
def Looked (s : AsyncRuns) (runId : Text) (ours : Bool) (c : WaitCall) : WaitPhase → Prop
  | .waiting => runId ∈ c.runIds ↔ ours = true
  | .checking rest stillRunning =>
      (runId ∈ rest ∨ runId ∈ stillRunning → ours = true) ∧
        (ours = true → runId ∈ rest ∨ runId ∈ stillRunning ∨ isRunning s.runs runId = false)
  | .collecting _ _ | .returned _ | .failed _ => True

section Step

variable {s s' : AsyncRuns} {runId : Text} {a : AsyncAction} {call : Nat} {c : WaitCall}
  {ours : Bool} {entry entry' : AsyncToolRunEntry}

/-- Only a start adds to what has been started. -/
theorem started_step (hst : s.step a = some s') : s'.started = s.started ++ s.startedSince s' := by
  have hsame : s'.started = s.started → s'.started = s.started ++ s.startedSince s' := by
    intro heq
    rw [startedSince, heq, List.drop_length, List.append_nil]
  cases a with
  | start toolName agentId sessionKey request hasRoute now order =>
      rw [step_start hst, startedSince, startRun, List.drop_left]
  | complete id outcome now =>
      obtain ⟨w, -, -, rfl⟩ := step_complete hst
      exact hsame rfl
  | decide id =>
      obtain ⟨w, byItself, -, -, rfl⟩ := step_decide hst
      exact hsame rfl
  | kill id agentId sessionKey now spawnError =>
      obtain rfl := Option.some.inj hst
      exact hsame rfl
  | wait runIds agentId sessionKey =>
      obtain ⟨pending, phase, rfl, -⟩ := step_wait hst
      exact hsame rfl
  | wake other =>
      obtain ⟨c, -, -, rfl⟩ := step_wake hst
      exact hsame rfl
  | check other =>
      obtain ⟨c, id, rest, stillRunning, -, -, ⟨e, -, rfl⟩ | ⟨snapshot, -, rfl⟩⟩ := step_check hst
      all_goals exact hsame rfl
  | unclaim other =>
      obtain ⟨c, stillRunning, -, -, rfl⟩ := step_unclaim hst
      exact hsame rfl
  | collect other =>
      obtain ⟨c, -, ⟨snapshots, -, rfl⟩ | ⟨id, rest, snapshots, -, ⟨e, -, rfl⟩ |
        ⟨snapshot, -, rfl⟩⟩⟩ := step_collect hst
      all_goals exact hsame rfl

/-- What was started between the ends of two stretches was started in one of them. -/
theorem startedSince_trans {s₁ s₂ : AsyncRuns}
    (h₁ : s₁.started = s.started ++ s.startedSince s₁)
    (h₂ : s₂.started = s₁.started ++ s₁.startedSince s₂) :
    s₂.started = s.started ++ s.startedSince s₂ ∧
      s.startedSince s₂ = s.startedSince s₁ ++ s₁.startedSince s₂ := by
  have hsince : s.startedSince s₂ = s.startedSince s₁ ++ s₁.startedSince s₂ := by
    rw [startedSince, h₂, h₁, List.append_assoc, List.drop_left]
  refine ⟨?_, hsince⟩
  rw [hsince, ← List.append_assoc, ← h₁, ← h₂]

/-- How an entry has come out of another: it is not running again, and its flag is the old one
unless the call has given the run up. -/
structure Comes (entry entry' : AsyncToolRunEntry) (gaveUp : Bool) : Prop where
  running : entry'.status = .running → entry.status = .running
  claimed : entry'.claimed = (!gaveUp && entry.claimed)

theorem Comes.refl (entry : AsyncToolRunEntry) : Comes entry entry false := ⟨id, rfl⟩

theorem Comes.trans {entry₁ : AsyncToolRunEntry} {b b' : Bool} (h : Comes entry entry₁ b)
    (h' : Comes entry₁ entry' b') : Comes entry entry' (b || b') where
  running := fun hrunning => h.running (h'.running hrunning)
  claimed := by
    rw [h'.claimed, h.claimed, Bool.not_or, ← Bool.and_assoc, Bool.and_comm (!b')]

/-- A run that completes keeps its flag. -/
theorem comes_markCompleted {outcome : CompletionOutcome} {id : Text} {now : Nat}
    (h : markCompleted s.runs id outcome now runId = some entry') :
    ∃ entry, s.runs runId = some entry ∧ Comes entry entry' false := by
  cases hrunning : isRunning s.runs id with
  | false =>
      rw [markCompleted_of_not_running hrunning] at h
      exact ⟨entry', h, .refl entry'⟩
  | true =>
      obtain ⟨entry, hentry, hstatus⟩ := isRunning_iff.mp hrunning
      rw [markCompleted_of_running hentry hstatus] at h
      by_cases hid : runId = id
      · subst hid
        rw [Function.update_self] at h
        obtain rfl := Option.some.inj h
        exact ⟨entry, hentry, fun _ => hstatus, complete_claimed entry outcome now⟩
      · rw [Function.update_of_ne hid] at h
        exact ⟨entry', h, .refl entry'⟩

/-- A run that is killed keeps its flag. -/
theorem comes_killForSession {id agentId sessionKey : Text} {now : Nat} {spawnError : Option Text}
    (h : (killForSession s.runs id agentId sessionKey now spawnError).2 runId = some entry') :
    ∃ entry, s.runs runId = some entry ∧ Comes entry entry' false := by
  rcases killForSession_cases s.runs id agentId sessionKey now spawnError with
    hsame | ⟨old, killed, hold, hrunning, -, hclaimed, heq⟩
  · rw [hsame] at h
    exact ⟨entry', h, .refl entry'⟩
  · rw [heq] at h
    by_cases hid : runId = id
    · subst hid
      rw [Function.update_self] at h
      obtain rfl := Option.some.inj h
      exact ⟨old, hold, fun _ => hrunning, hclaimed⟩
    · rw [Function.update_of_ne hid] at h
      exact ⟨entry', h, .refl entry'⟩

/-- The call gives up: the flags of its running runs are cleared. -/
theorem comes_unclaim {stillRunning : List Text}
    (hlooked : s.Looked runId ours c (.checking [] stillRunning))
    (h : unclaimRuns s.runs stillRunning runId = some entry') :
    ∃ entry, s.runs runId = some entry ∧
      Comes entry entry' (ours && isRunning s.runs runId) := by
  obtain ⟨old, hold, hstatus, ⟨hstill, hrunning, hclear⟩ | ⟨hnot, rfl⟩⟩ := unclaimRuns_some h
  · refine ⟨old, hold, fun hr => by rw [← hstatus, hr], ?_⟩
    rw [hlooked.1 (.inr hstill), hrunning, hclear]
    rfl
  · refine ⟨entry', hold, id, ?_⟩
    have hnone : (ours && isRunning s.runs runId) = false := by
      rw [Bool.and_eq_false_imp]
      intro hours
      rcases hlooked.2 hours with hrest | hstill | hover
      · cases hrest
      · rw [← Bool.not_eq_true]
        exact fun hrunning => hnot ⟨hstill, hrunning⟩
      · exact hover
    rw [hnone, Bool.not_false, Bool.true_and]

/-- **What a step does to a run that remains.** -/
theorem comes_step (hst : s.step a = some s') (hundisturbed : s.Undisturbed call a)
    (hc : s.calls[call]? = some c) (hlooked : s.Looked runId ours c c.phase)
    (hentry' : s'.runs runId = some entry') (hsame : runId ∉ s.startedSince s') :
    ∃ entry, s.runs runId = some entry ∧
      Comes entry entry' (ours && s.givesUp call runId a) := by
  have hother : s.givesUp call runId a = false →
      (∃ entry, s.runs runId = some entry ∧ Comes entry entry' false) →
      ∃ entry, s.runs runId = some entry ∧
        Comes entry entry' (ours && s.givesUp call runId a) := by
    intro hgives h
    rwa [hgives, Bool.and_false]
  cases a with
  | start toolName agentId sessionKey request hasRoute now order =>
      refine hother rfl ⟨entry', ?_, .refl entry'⟩
      rw [step_start hst] at hentry' hsame
      rw [startedSince, startRun, List.drop_left, List.mem_singleton] at hsame
      have hsome := autoEvict_some hentry'
      rwa [Function.update_of_ne hsame] at hsome
  | complete id outcome now =>
      obtain ⟨w, -, -, rfl⟩ := step_complete hst
      exact hother rfl (comes_markCompleted hentry')
  | decide id =>
      obtain ⟨w, byItself, -, -, rfl⟩ := step_decide hst
      exact hother rfl ⟨entry', hentry', .refl entry'⟩
  | kill id agentId sessionKey now spawnError =>
      obtain rfl := Option.some.inj hst
      exact hother rfl (comes_killForSession hentry')
  | wait runIds agentId sessionKey =>
      obtain ⟨pending, phase, rfl, -⟩ := step_wait hst
      refine hother rfl ?_
      obtain ⟨old, hold, hstatus, ⟨hmem, hclaimed⟩ | ⟨-, rfl⟩⟩ := claimRuns_some hentry'
      · refine ⟨old, hold, fun hr => by rw [← hstatus, hr], ?_⟩
        rw [hclaimed, hundisturbed runId hmem old hold]
        rfl
      · exact ⟨entry', hold, .refl entry'⟩
  | wake other =>
      obtain ⟨c₁, -, -, rfl⟩ := step_wake hst
      exact hother rfl ⟨entry', hentry', .refl entry'⟩
  | check other =>
      obtain ⟨c₁, id, rest, stillRunning, -, -, ⟨e, -, rfl⟩ | ⟨snapshot, -, rfl⟩⟩ := step_check hst
      all_goals exact hother rfl ⟨entry', hentry', .refl entry'⟩
  | unclaim other =>
      obtain ⟨c₁, stillRunning, hc₁, hphase, rfl⟩ := step_unclaim hst
      by_cases hcall : other = call
      · subst hcall
        obtain rfl := Option.some.inj (hc.symm.trans hc₁)
        rw [hphase] at hlooked
        rw [givesUp, decide_eq_true rfl, Bool.true_and]
        exact comes_unclaim hlooked hentry'
      · refine hother (by rw [givesUp, decide_eq_false hcall, Bool.false_and]) ?_
        obtain ⟨old, hold, hstatus, ⟨hstill, hrunning, hclear⟩ | ⟨-, rfl⟩⟩ :=
          unclaimRuns_some hentry'
        · refine ⟨old, hold, fun hr => by rw [← hstatus, hr], ?_⟩
          have holdrunning : old.status = .running := by
            rwa [isRunning_of_some hold, decide_eq_true_eq] at hrunning
          rw [hclear, hundisturbed hcall c₁ [] stillRunning hc₁ hphase runId hstill old hold
            holdrunning]
          rfl
        · exact ⟨entry', hold, .refl entry'⟩
  | collect other =>
      obtain ⟨c₁, -, ⟨snapshots, -, rfl⟩ | ⟨id, rest, snapshots, -, ⟨e, -, rfl⟩ |
        ⟨snapshot, -, rfl⟩⟩⟩ := step_collect hst
      all_goals exact hother rfl ⟨entry', hentry', .refl entry'⟩

/-! ### The call -/

/-- What has been seen stays so while the call makes no step. -/
theorem Looked.mono {phase : WaitPhase} (h : s.Looked runId ours c phase)
    (hover : isRunning s.runs runId = false → isRunning s'.runs runId = false) :
    s'.Looked runId ours c phase := by
  cases phase with
  | waiting => exact h
  | checking rest stillRunning =>
      refine ⟨h.1, fun hours => ?_⟩
      rcases h.2 hours with hrest | hstill | hnot
      · exact .inl hrest
      · exact .inr (.inl hstill)
      · exact .inr (.inr (hover hnot))
  | collecting rest snapshots | returned snapshots | failed error => trivial

/-- The call looks at the next of its runs. -/
theorem Looked.check {id : Text} {rest stillRunning : List Text} {found : Prop} [Decidable found]
    (h : s.Looked runId ours c (.checking (id :: rest) stillRunning))
    (hfound : isRunning s.runs id = true ↔ found) :
    s.Looked runId ours c
      (.checking rest (if found then stillRunning ++ [id] else stillRunning)) := by
  refine ⟨?_, fun hours => ?_⟩
  · rintro (hrest | hstill)
    · exact h.1 (.inl (List.mem_cons_of_mem _ hrest))
    · split at hstill
      · rcases List.mem_append.mp hstill with hstill | hid
        · exact h.1 (.inr hstill)
        · rw [List.mem_singleton.mp hid] at h
          exact h.1 (.inl List.mem_cons_self)
      · exact h.1 (.inr hstill)
  · rcases h.2 hours with hrest | hstill | hover
    · rcases List.mem_cons.mp hrest with rfl | hrest
      · by_cases hf : found
        · rw [if_pos hf]
          exact .inr (.inl (List.mem_append_right _ (List.mem_singleton_self _)))
        · rw [← hfound, Bool.not_eq_true] at hf
          exact .inr (.inr hf)
      · exact .inl hrest
    · refine .inr (.inl ?_)
      split
      · exact List.mem_append_left _ hstill
      · exact hstill
    · exact .inr (.inr hover)

/-- A step of a call sets the call's phase, or leaves this one as it is. -/
theorem getElem?_setCall {other : Nat} {c₁ : WaitCall} {phase : WaitPhase}
    (hc : s.calls[call]? = some c) (hc₁ : s.calls[other]? = some c₁) :
    (other = call ∧ c₁ = c ∧ (s.setCall other c₁ phase).calls[call]? =
      some { c with phase := phase }) ∨
    (other ≠ call ∧ (s.setCall other c₁ phase).calls[call]? = some c) := by
  by_cases hcall : other = call
  · subst hcall
    obtain rfl := Option.some.inj (hc.symm.trans hc₁)
    exact .inl ⟨rfl, rfl, Table.getElem?_set_self_of_getElem? hc⟩
  · exact .inr ⟨hcall, Table.getElem?_set_of_getElem? hc hcall⟩

/-- **What a step does to the call.** -/
theorem Looked.step (h : s.Looked runId ours c c.phase) (hst : s.step a = some s')
    (hc : s.calls[call]? = some c)
    (hover : isRunning s.runs runId = false → isRunning s'.runs runId = false) :
    ∃ c', s'.calls[call]? = some c' ∧ s'.Looked runId ours c' c'.phase := by
  have hstays : s'.calls[call]? = some c →
      ∃ c', s'.calls[call]? = some c' ∧ s'.Looked runId ours c' c'.phase :=
    fun hc' => ⟨c, hc', h.mono hover⟩
  cases a with
  | start toolName agentId sessionKey request hasRoute now order =>
      refine hstays ?_
      rw [step_start hst]
      exact hc
  | complete id outcome now =>
      obtain ⟨w, -, -, rfl⟩ := step_complete hst
      exact hstays hc
  | decide id =>
      obtain ⟨w, byItself, -, -, rfl⟩ := step_decide hst
      exact hstays hc
  | kill id agentId sessionKey now spawnError =>
      obtain rfl := Option.some.inj hst
      exact hstays hc
  | wait runIds agentId sessionKey =>
      obtain ⟨pending, phase, rfl, -⟩ := step_wait hst
      exact hstays (Table.getElem?_append_of_getElem? hc _)
  | wake other =>
      obtain ⟨c₁, hc₁, hphase, rfl⟩ := step_wake hst
      rcases getElem?_setCall hc hc₁ with ⟨rfl, rfl, hself⟩ | ⟨-, hc'⟩
      · rw [hphase] at h
        refine ⟨_, hself, ?_, fun hours => .inl (h.mpr hours)⟩
        rintro (hrest | hstill)
        · exact h.mp hrest
        · cases hstill
      · exact hstays hc'
  | check other =>
      obtain ⟨c₁, id, rest, stillRunning, hc₁, hphase, hget⟩ := step_check hst
      rcases hget with ⟨e, -, rfl⟩ | ⟨snapshot, hok, rfl⟩
      · rcases getElem?_setCall hc hc₁ with ⟨rfl, rfl, hself⟩ | ⟨-, hc'⟩
        · exact ⟨_, hself, trivial⟩
        · exact hstays hc'
      · obtain ⟨entry, hentry, rfl⟩ := getForSession_ok hok
        rcases getElem?_setCall hc hc₁ with ⟨rfl, rfl, hself⟩ | ⟨-, hc'⟩
        · rw [hphase] at h
          have hfound : isRunning s.runs id = true ↔ (entry.snapshot id).status = .running := by
            rw [isRunning_of_some hentry]
            exact decide_eq_true_iff
          exact ⟨_, hself, h.check hfound⟩
        · exact hstays hc'
  | unclaim other =>
      obtain ⟨c₁, stillRunning, hc₁, hphase, rfl⟩ := step_unclaim hst
      by_cases hcall : other = call
      · subst hcall
        exact ⟨_, Table.getElem?_set_self_of_getElem? hc, trivial⟩
      · exact hstays (Table.getElem?_set_of_getElem? hc hcall)
  | collect other =>
      obtain ⟨c₁, hc₁, ⟨snapshots, -, rfl⟩ | ⟨id, rest, snapshots, -, ⟨e, -, rfl⟩ |
        ⟨snapshot, -, rfl⟩⟩⟩ := step_collect hst
      all_goals
        rcases getElem?_setCall hc hc₁ with ⟨rfl, rfl, hself⟩ | ⟨-, hc'⟩
        · exact ⟨_, hself, trivial⟩
        · exact hstays hc'

end Step

/-! ## The whole call -/

section Runs

variable {s s₁ : AsyncRuns} {runId : Text} {call : Nat} {c : WaitCall} {ours : Bool}
  {entry' : AsyncToolRunEntry} {tr : List (AsyncAction × AsyncRuns)}

theorem started_run (hrun : Run step s tr) :
    (Run.final s tr).started = s.started ++ s.startedSince (Run.final s tr) := by
  induction hrun with
  | nil s => rw [startedSince, Run.final_nil, List.drop_length, List.append_nil]
  | cons hst _ ih => exact (startedSince_trans (started_step hst) ih).1

/-- **What a run of steps does to a run that remains.** -/
theorem comes_run (hrun : Run step s tr) (hundisturbed : Run.StepsMeet (Undisturbed call) s tr)
    (hc : s.calls[call]? = some c) (hlooked : s.Looked runId ours c c.phase)
    (hentry' : (Run.final s tr).runs runId = some entry')
    (hsame : runId ∉ s.startedSince (Run.final s tr)) :
    ∃ entry, s.runs runId = some entry ∧
      Comes entry entry' (ours && givenUp call runId s tr) := by
  induction hrun generalizing c with
  | nil s =>
      refine ⟨entry', hentry', ?_⟩
      rw [givenUp, Bool.and_false]
      exact .refl entry'
  | @cons s s₁ a tr hst hrun ih =>
      obtain ⟨hhere, hundisturbed⟩ := hundisturbed
      rw [Run.final_cons] at hentry' hsame
      rw [(startedSince_trans (started_step hst) (started_run hrun)).2, List.mem_append,
        not_or] at hsame
      have hstep : ∀ entry₁, s₁.runs runId = some entry₁ → ∃ entry, s.runs runId = some entry ∧
          Comes entry entry₁ (ours && s.givesUp call runId a) :=
        fun entry₁ hentry₁ => comes_step hst hhere hc hlooked hentry₁ hsame.1
      have hover : isRunning s.runs runId = false → isRunning s₁.runs runId = false := by
        intro hover
        rw [← Bool.not_eq_true, isRunning_iff]
        rintro ⟨entry₁, hentry₁, hstatus⟩
        obtain ⟨entry, hentry, hcomes⟩ := hstep entry₁ hentry₁
        rw [isRunning_of_some hentry, hcomes.running hstatus] at hover
        cases hover
      obtain ⟨c₁, hc₁, hlooked₁⟩ := hlooked.step hst hc hover
      obtain ⟨entry₁, hentry₁, hlater⟩ := ih hundisturbed hc₁ hlooked₁ hentry' hsame.2
      obtain ⟨entry, hentry, hcomes⟩ := hstep entry₁ hentry₁
      refine ⟨entry, hentry, ?_⟩
      rw [givenUp, Bool.and_or_distrib_left]
      exact hcomes.trans hlater

end Runs

section Failed

variable {s s₁ : AsyncRuns} {runIds : List Text} {agentId sessionKey runId : Text}
  {tr : List (AsyncAction × AsyncRuns)} {entry entry' : AsyncToolRunEntry}

/-- **The flags after the call**: one that the call has set stays set unless the run is given up;
any other is as before. -/
theorem FailedWait.claimed_after (h : s.FailedWait runIds agentId sessionKey s₁ tr)
    (hremains : s.Remains (Run.final s₁ tr) runId entry entry') :
    entry'.claimed =
      if runId ∈ claimable agentId sessionKey s.runs runIds then
        !givenUp s.calls.length runId s₁ tr
      else entry.claimed := by
  obtain ⟨pending, phase, hs₁, hphase⟩ := step_wait h.wait
  have hc : s₁.calls[s.calls.length]? =
      some ⟨runIds, agentId, sessionKey, pending, [], phase⟩ := by
    rw [hs₁]
    exact List.getElem?_concat_length
  have hlooked : s₁.Looked runId
      (decide (runId ∈ claimable agentId sessionKey s.runs runIds))
      ⟨runIds, agentId, sessionKey, pending, [], phase⟩ phase := by
    rcases hphase with ⟨e, -, -, rfl⟩ | ⟨claimed, hok, -, rfl⟩
    · trivial
    · show runId ∈ runIds ↔ _
      rw [(claimRuns_ok hok).1, decide_eq_true_iff]
  have hsame : runId ∉ s₁.startedSince (Run.final s₁ tr) := by
    have hstarted := hremains.same
    rw [(startedSince_trans (started_step h.wait) (started_run h.run)).2, List.mem_append,
      not_or] at hstarted
    exact hstarted.2
  obtain ⟨entry₁, hentry₁, hcomes⟩ :=
    comes_run h.run h.undisturbed hc hlooked hremains.after hsame
  rw [hs₁] at hentry₁
  obtain ⟨old, hold, -, hflag⟩ := claimRuns_some hentry₁
  obtain rfl := Option.some.inj (hold.symm.trans hremains.before)
  rw [hcomes.claimed]
  rcases hflag with ⟨hmem, hclaimed⟩ | ⟨hmem, rfl⟩
  · rw [if_pos hmem, hclaimed, decide_eq_true hmem, Bool.true_and, Bool.and_true]
  · rw [if_neg hmem, decide_eq_false hmem, Bool.false_and, Bool.not_false, Bool.true_and]

/-- **What a failed call leaves behind.**  The flags are as before exactly if of the remaining runs
that the call has claimed, those were claimed before that it did not come to give up. -/
theorem flagsRestored_iff (h : s.FailedWait runIds agentId sessionKey s₁ tr) :
    s.FlagsRestored (Run.final s₁ tr) ↔
      ∀ runId ∈ claimable agentId sessionKey s.runs runIds, ∀ entry entry',
        s.Remains (Run.final s₁ tr) runId entry entry' →
          entry.claimed = !givenUp s.calls.length runId s₁ tr := by
  constructor
  · intro hrestored runId hmem entry entry' hremains
    rw [← hrestored runId entry entry' hremains, h.claimed_after hremains, if_pos hmem]
  · intro hclaimed runId entry entry' hremains
    rw [h.claimed_after hremains]
    by_cases hmem : runId ∈ claimable agentId sessionKey s.runs runIds
    · rw [if_pos hmem, hclaimed runId hmem entry entry' hremains]
    · rw [if_neg hmem]

end Failed

/-- One run has been started. -/
def oneRun : AsyncRuns :=
  new.startRun "exec" "main" "s" (.process "make" 7) true 0 [runIdOf 0 1]

/-- And another call waits for it. -/
def oneClaimed : AsyncRuns :=
  { oneRun with
    runs := (claimRuns "main" "s" oneRun.runs [runIdOf 0 1]).2
    calls := [⟨[runIdOf 0 1], "main", "s", [runIdOf 0 1], [], .waiting⟩] }

/-- The run and an id that no run has. -/
def goodAndUnknown : List Text := [runIdOf 0 1, "async-tool-run-0-9"]

/-- The last call has failed at the unknown id. -/
def failsAtUnknown (call : Nat) (s : AsyncRuns) : Bool :=
  s.calls[call]?.any fun c => c.phase = .failed (unknownRun "async-tool-run-0-9")

theorem failedWait_of_failsAtUnknown {s s₁ : AsyncRuns}
    (hwait : s.step (.wait goodAndUnknown "main" "s") = some s₁)
    (hfails : failsAtUnknown s.calls.length s₁ = true) :
    s.FailedWait goodAndUnknown "main" "s" s₁ [] where
  wait := hwait
  run := .nil s₁
  undisturbed := trivial
  failed := by
    obtain ⟨c, hc, hphase⟩ := Option.any_eq_true _ _ |>.mp hfails
    exact ⟨c, _, hc, of_decide_eq_true hphase⟩

theorem flagsRestored_oneClaimed : ∃ s₁,
    oneClaimed.step (.wait goodAndUnknown "main" "s") = some s₁ ∧ oneClaimed.FlagsRestored s₁ := by
  have htest : (oneClaimed.step (.wait goodAndUnknown "main" "s")).any (failsAtUnknown 1) = true :=
    by decide +kernel
  have hclaimed : (claimable "main" "s" oneClaimed.runs goodAndUnknown).all
      (fun runId => (oneClaimed.runs runId).all (·.claimed)) = true := by decide +kernel
  obtain ⟨s₁, hwait, hfails⟩ := Option.any_eq_true _ _ |>.mp htest
  refine ⟨s₁, hwait, (flagsRestored_iff (failedWait_of_failsAtUnknown hwait hfails)).mpr ?_⟩
  intro runId hmem entry entry' hremains
  exact Option.all_eq_true _ _ |>.mp (List.all_eq_true.mp hclaimed runId hmem) entry
    hremains.before

theorem unknown_id_leaves_claim :
    ¬ ∀ s runIds agentId sessionKey s₁ tr, FailedWait s runIds agentId sessionKey s₁ tr →
      s.FlagsRestored (Run.final s₁ tr) := by
  intro hall
  have htest : (oneRun.step (.wait goodAndUnknown "main" "s")).any (fun s₁ =>
      failsAtUnknown 0 s₁ && (s₁.runs (runIdOf 0 1)).any (·.claimed) &&
        decide (runIdOf 0 1 ∉ oneRun.startedSince s₁)) = true := by decide +kernel
  have hbefore : (oneRun.runs (runIdOf 0 1)).any (!·.claimed) = true := by decide +kernel
  obtain ⟨s₁, hwait, hafter⟩ := Option.any_eq_true _ _ |>.mp htest
  rw [Bool.and_eq_true, Bool.and_eq_true, Option.any_eq_true, decide_eq_true_eq] at hafter
  obtain ⟨⟨hfails, entry', hentry', hclaimed⟩, hsame⟩ := hafter
  obtain ⟨entry, hentry, hunclaimed⟩ := Option.any_eq_true _ _ |>.mp hbefore
  have hflag := hall oneRun goodAndUnknown "main" "s" s₁ []
    (failedWait_of_failsAtUnknown hwait hfails) (runIdOf 0 1) entry entry'
    ⟨hentry, hentry', hsame⟩
  rw [hflag] at hclaimed
  rw [hclaimed] at hunclaimed
  cases hunclaimed

end AsyncRuns

end Tools
end SimpleClaw
