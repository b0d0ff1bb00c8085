import SimpleClaw.Approval.Registry

/-!
# What the approver is told and what the tool execution sees

When `resolve` answers `true` for a decision, the approver has been told that the request is
decided so, and `wait_for_decision` is to return that decision.  It does when the call still
waits for its channel.  But the timeout takes the receiver away before the entry leaves the
map: between the two, `resolve` finds the entry, sends to a receiver that is gone, ignores
that, and answers `true`, while the call returns that it timed out.

* `Registry.Agrees`: the property of one state.
* `Registry.ResolvesUnsettled`: a step is not a resolution of a call that has settled on
  another decision.
* `agrees_step`: out of an agreeing state, a step leads to one exactly if it is no such
  resolution.
* `agrees_iff_resolvesUnsettled`: the same along every run.
-/

namespace SimpleClaw
namespace Approval

open Transition Table

/-- **Agreement.**  What `wait_for_decision` returns for a call, once that is settled, is the
decision every successful `resolve` of the call's id was made with. -/
def Registry.Agrees (s : Registry) : Prop :=
  ∀ r ∈ s.resolved, ∀ call decision, s.calls[r.call]? = some call →
    call.phase.decision = some decision → decision = r.decision

/-- If the step is a `resolve` by the requester of an entry of the map, then the call that
waits for it has not settled on a different decision. -/
def Registry.ResolvesUnsettled (s : Registry) (a : Action) : Prop :=
  ∀ approvalId userId decision entry c call settled, a = .resolve approvalId userId decision →
    s.pending approvalId = some entry → entry.request.requestingUserId = userId →
    entry.responseTx = some c → s.calls[c]? = some call →
    call.phase.decision = some settled → settled = decision

/-! ## One step -/

/-- A call takes its decision from its channel, so it takes the one it was sent. -/
theorem Moves.decision_of_sent {channel : Channel} {phase phase' : RequestPhase}
    {sent decision : ApprovalDecision} (h : Moves channel phase phase')
    (hsent : channel = .sent sent) (hdecision : phase'.decision = some decision) :
    decision = sent := by
  cases h with
  | messageSent => cases hdecision
  | messageFailed => cases hdecision
  | decisionReceived hchannel =>
      rw [hsent] at hchannel
      cases hchannel
      exact (Option.some.inj hdecision).symm
  | senderDropped hchannel => rw [hsent] at hchannel; cases hchannel
  | timeoutElapsed hchannel => rw [hsent] at hchannel; cases hchannel

/-- Steps of the calls keep the agreement: only a `resolve` can break it. -/
theorem agrees_of_step {s s' : Registry} {a : Action} (hs : s.Consistent) (hP : s.Agrees)
    (h : Step s a s')
    (ha : ∀ approvalId userId decision, a ≠ .resolve approvalId userId decision) : s'.Agrees := by
  cases h with
  | fetchId request =>
      intro r hr call decision hcall hdecision
      rcases getElem?_append_singleton_cases hcall with hcall | ⟨_, rfl⟩
      · exact hP r hr call decision hcall hdecision
      · cases hdecision
  | inserted hnew =>
      intro r hr call decision hcall hdecision
      rcases getElem?_set_cases hcall with ⟨_, rfl⟩ | ⟨_, hcall⟩
      · cases hdecision
      · obtain ⟨old, hold, -, hphase, -⟩ := of_settleEntry_getElem? hcall
        rw [hphase] at hdecision
        exact hP r hr old decision hold hdecision
  | moved hold hmoves _ =>
      intro r hr call decision hcall hdecision
      rcases getElem?_set_cases hcall with ⟨heq, rfl⟩ | ⟨_, hcall⟩
      · -- the call's channel holds the decision it was resolved with
        obtain ⟨old, hold', hsent⟩ := hs.sends r hr
        rw [← heq, hold] at hold'
        cases hold'
        exact hmoves.decision_of_sent hsent hdecision
      · exact hP r hr call decision hcall hdecision
  | cleaned hold =>
      intro r hr call decision hcall hdecision
      obtain ⟨between, hbetween, -, hphase, -⟩ := of_settleEntry_getElem? hcall
      rw [hphase] at hdecision
      rcases getElem?_set_cases hbetween with ⟨heq, rfl⟩ | ⟨_, hbetween⟩
      · rw [heq] at hold
        exact hP r hr _ decision hold hdecision
      · exact hP r hr between decision hbetween hdecision
  | rejected _ => exact hP
  | resolved _ _ => exact absurd rfl (ha _ _ _)

/-- **Out of an agreeing state, a step leads to one exactly if it does not resolve a call
that has settled on another decision.** -/
theorem agrees_step {s s' : Registry} {a : Action} (hs : s.Consistent) (hP : s.Agrees)
    (h : s.step a = some s') : s'.Agrees ↔ s.ResolvesUnsettled a := by
  have hstep : Step s a s' := Registry.step_spec h
  by_cases ha : ∀ approvalId userId decision, a ≠ .resolve approvalId userId decision
  · refine iff_of_true (agrees_of_step hs hP hstep ha) ?_
    intro approvalId userId decision _ _ _ _ heq
    exact absurd heq (ha approvalId userId decision)
  push Not at ha
  obtain ⟨approvalId, userId, decision, rfl⟩ := ha
  cases hstep with
  | moved _ _ ha => exact absurd rfl (ha _ _ _)
  | rejected hrejected =>
      refine iff_of_true hP ?_
      intro _ _ _ entry _ _ _ heq hentry huser
      cases heq
      exact absurd huser (hrejected entry hentry)
  | @resolved _ _ _ entry hentry huser =>
      obtain ⟨c, call, hown, heq⟩ := hs.resolve_eq decision hentry huser
      obtain ⟨htx, hcall, -, -, hchannel, -⟩ := hown
      rw [heq]
      constructor
      · -- the call keeps its phase, so the new resolution has to match it
        intro hagrees _ _ _ entry' c' call' settled ha hentry' _ htx' hcall' hsettled
        cases ha
        rw [hentry] at hentry'
        cases hentry'
        rw [htx] at htx'
        cases htx'
        rw [hcall] at hcall'
        cases hcall'
        exact hagrees ⟨c, approvalId, userId, decision⟩
          (List.mem_append_right _ (List.mem_singleton.mpr rfl)) _ settled
          (getElem?_set_self_of_getElem? hcall) hsettled
      · intro hC r hr call' settled hcall' hsettled
        rcases List.mem_append.mp hr with hr | hr
        · rcases getElem?_set_cases hcall' with ⟨heq', rfl⟩ | ⟨_, hcall'⟩
          · rw [heq'] at hcall
            exact hP r hr call settled hcall hsettled
          · exact hP r hr call' settled hcall' hsettled
        · cases List.mem_singleton.mp hr
          rw [show (s.calls.set c _)[c]? = _ from getElem?_set_self_of_getElem? hcall] at hcall'
          cases hcall'
          exact hC approvalId userId decision entry c call settled rfl hentry huser htx hcall
            hsettled

/-! ## Whole runs -/

/-- **In a run of the registry, `resolve` and `wait_for_decision` agree in every state
exactly if no `resolve` takes the entry of a call that has settled on another decision.** -/
theorem agrees_iff_resolvesUnsettled {tr : List (Action × Registry)}
    (hrun : Run Registry.step Registry.new tr) :
    (∀ x ∈ tr, x.2.Agrees) ↔ Run.StepsMeet Registry.ResolvesUnsettled Registry.new tr :=
  Run.forall_iff_stepsMeet (J := Registry.Consistent) (P := Registry.Agrees)
    (fun _ _ _ hs h => hs.step (Registry.step_spec h))
    (fun _ _ _ hs hP h => agrees_step hs hP h) hrun Registry.consistent_new
    (fun _ hr => by cases hr)

/-- Some call has settled on a decision other than the one it was resolved with. -/
def Registry.disagrees (s : Registry) : Bool :=
  s.resolved.any fun r =>
    match s.calls[r.call]? with
    | some call =>
        match call.phase.decision with
        | some decision => decision != r.decision
        | none => false
    | none => false

theorem not_agrees_of_disagrees {s : Registry} (h : s.disagrees = true) : ¬ s.Agrees := by
  intro hP
  obtain ⟨r, hr, hcall⟩ := List.any_eq_true.mp h
  split at hcall
  · rename_i call hsome
    split at hcall
    · rename_i decision hdecision
      have heq : decision = r.decision := hP r hr call decision hsome hdecision
      simp [heq] at hcall
    · cases hcall
  · cases hcall

/-- The timeout fires, and the user approves before the call has removed its entry. -/
def lateApproval : List Action :=
  [.fetchId testRequest, .insert 0, .messageSent 0, .timeoutElapsed 0,
    .resolve "approval-1" "user-1" .approved, .cleanup 0]

theorem agrees_lateApproval : ∃ tr, Run Registry.step Registry.new tr ∧
    ¬ Run.StepsMeet Registry.ResolvesUnsettled Registry.new tr := by
  obtain ⟨tr, hrun, x, hx, hdisagrees⟩ :=
    exists_run_of_exec Registry.step Registry.new lateApproval Registry.disagrees (by decide)
  refine ⟨tr, hrun, fun hC => ?_⟩
  exact not_agrees_of_disagrees hdisagrees ((agrees_iff_resolvesUnsettled hrun).mpr hC x hx)

theorem lateApproval_disagrees :
    ¬ ∀ tr, Run Registry.step Registry.new tr → ∀ x ∈ tr, x.2.Agrees := by
  intro hall
  obtain ⟨tr, hrun, x, hx, hdisagrees⟩ :=
    exists_run_of_exec Registry.step Registry.new lateApproval Registry.disagrees (by decide)
  exact not_agrees_of_disagrees hdisagrees (hall tr hrun x hx)

end Approval
end SimpleClaw
