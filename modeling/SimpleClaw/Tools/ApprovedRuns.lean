import SimpleClaw.Approval.Authority
import SimpleClaw.Tools.Executor

/-!
# Executions that wait for the registry

The tool executor asks for approval through the approval registry: it registers a request, and
goes on with what `wait_for_decision` returns.  Here any number of executions run beside each
other and beside the users who resolve requests, one atomic step of one of them at a time.

* `ApprovalSystem.step`: the executions and the registry they share.
* `Registry.Accounted`: what is known of the resolutions in every run, also when ids are drawn
  twice and when the message of a request could not be sent.
* `ApprovalSystem.Approved`: whatever runs outside the sandbox was asked for and approved by the
  user it runs for, and an approval lets one call through.
* `direct_runs_approved`: so it is in every run of the system.
-/

namespace SimpleClaw
namespace Approval

open Table

/-! ## The registry in every run -/

/-- Every resolution is that of a call, by its requester; a channel holds what its call was
resolved with; and a call is approved only out of its channel. -/
structure Registry.Accounted (s : Registry) : Prop where
  consistent : s.Consistent
  recorded : ∀ r ∈ s.resolved, ∃ call, s.calls[r.call]? = some call ∧
    call.routed.approvalId = r.approvalId ∧ call.routed.requestingUserId = r.userId
  sent : ∀ (c : Nat) (call : RequestCall) (decision : ApprovalDecision),
    s.calls[c]? = some call → call.channel = .sent decision →
      ∃ r ∈ s.resolved, r.call = c ∧ r.decision = decision
  approved : ∀ (c : Nat) (call : RequestCall), s.calls[c]? = some call →
    call.phase.decision = some .approved → call.channel = .sent .approved

theorem Registry.accounted_new : Registry.new.Accounted where
  consistent := Registry.consistent_new
  recorded := nofun
  sent := nofun
  approved := nofun

/-- A call is still there after a step, with its request and its decision. -/
theorem calls_of_step {s s' : Registry} {a : Action} (hs : s.Consistent) (h : Step s a s')
    {i : Nat} {old : RequestCall} (hold : s.calls[i]? = some old) :
    ∃ call, s'.calls[i]? = some call ∧ call.routed = old.routed ∧
      ∀ decision, old.phase.decision = some decision → call.phase.decision = some decision := by
  cases h with
  | fetchId request => exact ⟨old, getElem?_append_of_getElem? hold _, rfl, fun _ h => h⟩
  | @inserted c routed channel hnew =>
      obtain ⟨between, hbetween, hrouted, hphase⟩ : ∃ between,
          (settleEntry s.calls (s.pending routed.approvalId) .closed)[i]? = some between ∧
            between.routed = old.routed ∧ between.phase = old.phase := by
        unfold settleEntry
        split
        · rename_i c' _
          obtain ⟨call, hcall, hrouted, hphase, -⟩ := settle_getElem? hold c' .closed
          exact ⟨call, hcall, hrouted, hphase⟩
        · exact ⟨old, hold, rfl, rfl⟩
      by_cases hci : c = i
      · subst hci
        obtain rfl := Option.some.inj (hnew.symm.trans hold)
        exact ⟨_, getElem?_set_self_of_getElem? hbetween, rfl, nofun⟩
      · exact ⟨between, getElem?_set_of_getElem? hbetween hci, hrouted, fun _ h => hphase ▸ h⟩
  | @moved a c routed channel phase phase' hcall hmoves _ =>
      by_cases hci : c = i
      · subst hci
        obtain rfl := Option.some.inj (hcall.symm.trans hold)
        refine ⟨_, getElem?_set_self_of_getElem? hcall, rfl, fun decision hdecision => ?_⟩
        -- no call with a decision moves
        cases hmoves <;> cases hdecision
      · exact ⟨old, getElem?_set_of_getElem? hold hci, rfl, fun _ h => h⟩
  | @cleaned c routed channel decision hcall =>
      obtain ⟨between, hbetween, hrouted, hdecision⟩ : ∃ between,
          (s.calls.set c ⟨routed, channel, .returned decision⟩)[i]? = some between ∧
            between.routed = old.routed ∧ between.phase.decision = old.phase.decision := by
        by_cases hci : c = i
        · subst hci
          obtain rfl := Option.some.inj (hcall.symm.trans hold)
          exact ⟨_, getElem?_set_self_of_getElem? hcall, rfl, rfl⟩
        · exact ⟨old, getElem?_set_of_getElem? hold hci, rfl, rfl⟩
      show ∃ call, (settleEntry (s.calls.set c ⟨routed, channel, .returned decision⟩)
        (s.pending routed.approvalId) .closed)[i]? = some call ∧ _
      unfold settleEntry
      split
      · rename_i c' _
        obtain ⟨call, hcall', hrouted', hphase', -⟩ := settle_getElem? hbetween c' .closed
        refine ⟨call, hcall', hrouted'.trans hrouted, fun d hd => ?_⟩
        rw [hphase', hdecision]
        exact hd
      · exact ⟨between, hbetween, hrouted, fun d hd => hdecision.trans hd⟩
  | rejected _ => exact ⟨old, hold, rfl, fun _ h => h⟩
  | @resolved approvalId userId decision entry hentry huser =>
      obtain ⟨c, call, hown, heq⟩ := hs.resolve_eq decision hentry huser
      rw [heq]
      by_cases hci : c = i
      · subst hci
        obtain rfl := Option.some.inj (hown.2.1.symm.trans hold)
        exact ⟨_, getElem?_set_self_of_getElem? hown.2.1, rfl, fun _ h => h⟩
      · exact ⟨old, getElem?_set_of_getElem? hold hci, rfl, fun _ h => h⟩

namespace Registry.Accounted

variable {s s' : Registry} {a : Action} (hs : s.Accounted)
include hs

theorem of_quiet (hquiet : Quiet s s') (hconsistent : s'.Consistent) : s'.Accounted where
  consistent := hconsistent
  recorded := by
    rw [hquiet.resolved]
    intro r hr
    obtain ⟨old, hold, hid, huser⟩ := hs.recorded r hr
    obtain ⟨call, hcall, hrouted⟩ := hquiet.kept r.call old hold
    exact ⟨call, hcall, by rw [hrouted, hid], by rw [hrouted, huser]⟩
  sent := by
    rw [hquiet.resolved]
    intro c call decision hcall hsent
    rcases hquiet.calls c call hcall with ⟨hwaiting, -⟩ | ⟨old, hold, hchannel, -⟩
    · rw [hwaiting] at hsent
      cases hsent
    · rcases hchannel with hchannel | ⟨-, hclosed⟩
      · exact hs.sent c old decision hold (hchannel.symm.trans hsent)
      · rw [hclosed] at hsent
        cases hsent
  approved := by
    intro c call hcall hdecision
    rcases hquiet.calls c call hcall with ⟨-, hphase⟩ | ⟨old, hold, hchannel, happroved⟩
    · rw [hphase] at hdecision
      cases hdecision
    · have hsent : old.channel = .sent .approved :=
        (happroved hdecision).elim (hs.approved c old hold) id
      rcases hchannel with hchannel | ⟨hwaiting, -⟩
      · exact hchannel.trans hsent
      · rw [hsent] at hwaiting
        cases hwaiting

/-- A resolution is added, and the channel of its call holds its decision. -/
theorem of_resolved {approvalId userId : Text} {decision : ApprovalDecision}
    {entry : PendingApproval} (hentry : s.pending approvalId = some entry)
    (huser : entry.request.requestingUserId = userId) :
    (s.resolve approvalId userId decision).2.Accounted := by
  have hconsistent : (s.resolve approvalId userId decision).2.Consistent :=
    hs.consistent.resolved hentry huser
  obtain ⟨c, call, hown, heq⟩ := hs.consistent.resolve_eq decision hentry huser
  obtain ⟨-, hcall, hrouted, hid, hchannel, -⟩ := hown
  have hself : (s.calls.set c { call with channel := .sent decision })[c]? =
      some { call with channel := .sent decision } := getElem?_set_self_of_getElem? hcall
  refine ⟨hconsistent, ?_, ?_, ?_⟩
  · rw [heq]
    refine forall_mem_append (fun r hr => ?_)
      ⟨_, hself, hid, (congrArg PendingApprovalRequest.requestingUserId hrouted).trans huser⟩
    obtain ⟨old, hold, happroval, huser'⟩ := hs.recorded r hr
    by_cases hc : c = r.call
    · subst hc
      obtain rfl := Option.some.inj (hcall.symm.trans hold)
      exact ⟨_, hself, happroval, huser'⟩
    · exact ⟨old, getElem?_set_of_getElem? hold hc, happroval, huser'⟩
  · rw [heq]
    intro c' call' decision' hcall' hsent
    rcases getElem?_set_cases hcall' with ⟨rfl, rfl⟩ | ⟨-, hcall'⟩
    · cases hsent
      exact ⟨_, List.mem_append_right _ (List.mem_singleton_self _), rfl, rfl⟩
    · obtain ⟨r, hr, hrcall, hrdecision⟩ := hs.sent c' call' decision' hcall' hsent
      exact ⟨r, List.mem_append_left _ hr, hrcall, hrdecision⟩
  · rw [heq]
    intro c' call' hcall' hdecision
    rcases getElem?_set_cases hcall' with ⟨rfl, rfl⟩ | ⟨-, hcall'⟩
    · -- the channel of the entry had not settled, so the call was not approved
      have hsent := hs.approved c call hcall hdecision
      rw [hchannel] at hsent
      cases hsent
    · exact hs.approved c' call' hcall' hdecision

/-- **Every step keeps the accounts.** -/
theorem step (h : Step s a s') : s'.Accounted := by
  by_cases ha : ∀ approvalId userId decision, a ≠ .resolve approvalId userId decision
  · exact hs.of_quiet (quiet_of_step hs.consistent h ha) (hs.consistent.step h)
  · push Not at ha
    obtain ⟨approvalId, userId, decision, rfl⟩ := ha
    cases h with
    | moved _ _ ha => exact absurd rfl (ha _ _ _)
    | rejected _ => exact hs
    | resolved hentry huser => exact hs.of_resolved hentry huser

/-- **An approved call was resolved by the user who made its request.** -/
theorem resolved_of_approved {c : Nat} {call : RequestCall} (hcall : s.calls[c]? = some call)
    (h : call.phase.decision = some .approved) :
    ∃ r ∈ s.resolved, r.call = c ∧ r.decision = .approved ∧
      r.approvalId = call.routed.approvalId ∧ r.userId = call.routed.requestingUserId := by
  obtain ⟨r, hr, rfl, hdecision⟩ := hs.sent c call .approved hcall (hs.approved c call hcall h)
  obtain ⟨call', hcall', hid, huser⟩ := hs.recorded r hr
  obtain rfl := Option.some.inj (hcall.symm.trans hcall')
  exact ⟨r, hr, rfl, hdecision, hid.symm, huser.symm⟩

end Registry.Accounted

end Approval

namespace Tools

open Approval Transition Table

/-! ## The system -/

/-- An execution under way: the call it is for, the calls it has made with their answers, what is
left of it, and the `request_approval` call it waits for, if it does. -/
structure RunningExecution (Outcome : Type) where
  entry : AgentToolEntry
  ctx : ToolExecEnv
  argsJson : Text
  sessionId : Text
  trace : List (CallEvent Outcome)
  rest : Execution Outcome Outcome
  asked : Option Nat

/-- The registry with the executions that share it.  `owners` is kept by the model only: the
execution that each `request_approval` call was made by. -/
structure ApprovalSystem (Outcome : Type) where
  registry : Registry
  executions : List (RunningExecution Outcome)
  owners : List Nat

/-- A tool call comes in; the call an execution makes is answered by its surroundings, all but
requests for approval; such a request is registered, and it returns; and what the registry does
besides. -/
inductive SystemAction (Outcome : Type) where
  | start (entry : AgentToolEntry) (ctx : ToolExecEnv) (argsJson sessionId : Text)
  | answered (execution : Nat) (answer : (call : Call) → Answer Outcome call)
  | requested (execution : Nat)
  | returned (execution : Nat) (sendError : FrameworkError)
  | registry (action : Action)

variable {Outcome : Type}

/-- An execution has just started. -/
def RunningExecution.start (entry : AgentToolEntry) (ctx : ToolExecEnv)
    (argsJson sessionId : Text) : RunningExecution Outcome :=
  ⟨entry, ctx, argsJson, sessionId, [], execute entry ctx argsJson sessionId, none⟩

/-- The call that comes next is answered. -/
def RunningExecution.answer (x : RunningExecution Outcome) (call : Call)
    (answer : Answer Outcome call) (next : Answer Outcome call → Execution Outcome Outcome) :
    RunningExecution Outcome :=
  { x with trace := x.trace ++ [⟨call, answer⟩], rest := next answer, asked := none }

/-- What `request_approval` returns, once it has. -/
def requestAnswer (sendError : FrameworkError) :
    RequestPhase → Option (Except FrameworkError ApprovalDecision)
  | .returned decision => some (.ok decision)
  | .sendFailed => some (.error sendError)
  | .allocated | .registered | .waiting | .decided _ => none

namespace ApprovalSystem

def new : ApprovalSystem Outcome := ⟨Registry.new, [], []⟩

/-- One atomic step.  Only executions register requests. -/
def step (s : ApprovalSystem Outcome) : SystemAction Outcome → Option (ApprovalSystem Outcome)
  | .start entry ctx argsJson sessionId =>
      some { s with executions := s.executions ++ [.start entry ctx argsJson sessionId] }
  | .answered i answer =>
      match s.executions[i]? with
      | some x =>
          match x.rest with
          | .call call next =>
              if call.isRequest then none
              else some { s with
                executions := s.executions.set i (x.answer call (answer call) next) }
          | .pure _ => none
      | none => none
  | .requested i =>
      match s.executions[i]? with
      | some x =>
          match x.asked, x.rest with
          | none, .call (.requestApproval request) _ =>
              some { registry := s.registry.fetchId request
                     executions :=
                       s.executions.set i { x with asked := some s.registry.calls.length }
                     owners := s.owners ++ [i] }
          | _, _ => none
      | none => none
  | .returned i sendError =>
      match s.executions[i]? with
      | some x =>
          match x.asked, x.rest with
          | some c, .call (.requestApproval request) next =>
              match s.registry.calls[c]? with
              | some call =>
                  match requestAnswer sendError call.phase with
                  | some answer => some { s with
                      executions :=
                        s.executions.set i (x.answer (.requestApproval request) answer next) }
                  | none => none
              | none => none
          | _, _ => none
      | none => none
  | .registry action =>
      match action with
      | .fetchId _ => none
      | action => (s.registry.step action).map fun registry => { s with registry }

/-! ## What a step can do -/

/-- The steps as a relation: one constructor for each outcome, with everything the step
checked. -/
inductive Step (s : ApprovalSystem Outcome) : ApprovalSystem Outcome → Prop where
  | started (entry : AgentToolEntry) (ctx : ToolExecEnv) (argsJson sessionId : Text) :
      Step s { s with executions := s.executions ++ [.start entry ctx argsJson sessionId] }
  | answered {i x call next} (hx : s.executions[i]? = some x) (hrest : x.rest = .call call next)
      (hcall : call.isRequest = false) (answer : Answer Outcome call) :
      Step s { s with executions := s.executions.set i (x.answer call answer next) }
  | requested {i x request next} (hx : s.executions[i]? = some x) (hasked : x.asked = none)
      (hrest : x.rest = .call (.requestApproval request) next) :
      Step s { registry := s.registry.fetchId request
               executions := s.executions.set i { x with asked := some s.registry.calls.length }
               owners := s.owners ++ [i] }
  | returned {i x c request next call answer sendError} (hx : s.executions[i]? = some x)
      (hasked : x.asked = some c) (hrest : x.rest = .call (.requestApproval request) next)
      (hcall : s.registry.calls[c]? = some call)
      (hanswer : requestAnswer sendError call.phase = some answer) :
      Step s { s with
        executions := s.executions.set i (x.answer (.requestApproval request) answer next) }
  | registry {action registry} (hregistry : Approval.Step s.registry action registry)
      (haction : ∀ request, action ≠ .fetchId request) : Step s { s with registry }

/-- **Every computed step is one of the listed outcomes.** -/
theorem step_spec {s s' : ApprovalSystem Outcome} {a : SystemAction Outcome}
    (h : s.step a = some s') : s.Step s' := by
  cases a with
  | start entry ctx argsJson sessionId =>
      cases h
      exact .started entry ctx argsJson sessionId
  | answered i answer =>
      simp only [step] at h
      split at h
      · rename_i x hx
        split at h
        · rename_i call next hrest
          split at h
          · cases h
          · rename_i hrequest
            cases h
            exact .answered hx hrest (Bool.eq_false_iff.mpr hrequest) (answer call)
        · cases h
      · cases h
  | requested i =>
      simp only [step] at h
      split at h
      · rename_i x hx
        split at h
        · rename_i request next hasked hrest
          cases h
          exact .requested hx hasked hrest
        · cases h
      · cases h
  | returned i sendError =>
      simp only [step] at h
      split at h
      · rename_i x hx
        split at h
        · rename_i c request next hasked hrest
          split at h
          · rename_i call hcall
            split at h
            · rename_i answer hanswer
              cases h
              exact .returned hx hasked hrest hcall hanswer
            · cases h
          · cases h
        · cases h
      · cases h
  | registry action =>
      simp only [step] at h
      split at h
      · cases h
      · rename_i hfetch
        obtain ⟨registry, hregistry, rfl⟩ := Option.map_eq_some_iff.mp h
        exact .registry (Registry.step_spec hregistry) hfetch

end ApprovalSystem

/-! ## The invariant of the system -/

/-- A request was made by the execution with the index given: by a call that is in the registry. -/
structure MadeBy (owners : List Nat) (registry : Registry) (i : Nat) (request : ApprovalRequest)
    (c : Nat) (call : RequestCall) : Prop where
  owner : owners[c]? = some i
  present : registry.calls[c]? = some call
  routed : call.routed = request.route call.routed.approvalId

/-- What holds in every run: what an execution has done and has still to do is one run of
`execute`; the call it waits for is its own, for the request it is at; and where its trace says
that a request was approved, a call of its own for that request was. -/
structure ApprovalSystem.Sound (s : ApprovalSystem Outcome) : Prop where
  accounted : s.registry.Accounted
  owned : s.owners.length = s.registry.calls.length
  unfolds : ∀ (i : Nat) (x : RunningExecution Outcome), s.executions[i]? = some x →
    ∀ tr result, Program.Runs x.rest tr result →
      Program.Runs (execute x.entry x.ctx x.argsJson x.sessionId) (x.trace ++ tr) result
  asks : ∀ (i : Nat) (x : RunningExecution Outcome) (c : Nat), s.executions[i]? = some x →
    x.asked = some c → ∃ request next call, x.rest = .call (.requestApproval request) next ∧
      MadeBy s.owners s.registry i request c call
  grants : ∀ (i : Nat) (x : RunningExecution Outcome) (request : ApprovalRequest),
    s.executions[i]? = some x → ⟨.requestApproval request, .ok .approved⟩ ∈ x.trace →
      ∃ c call, MadeBy s.owners s.registry i request c call ∧
        call.phase.decision = some .approved

/-- The registry takes a step, and more calls may be made. -/
theorem MadeBy.of_step {owners owners' : List Nat} {registry registry' : Registry} {i c : Nat}
    {request : ApprovalRequest} {call : RequestCall} {action : Action}
    (hs : registry.Consistent) (h : MadeBy owners registry i request c call)
    (hregistry : Approval.Step registry action registry') (howners : owners'[c]? = some i) :
    ∃ call', MadeBy owners' registry' i request c call' ∧
      ∀ decision, call.phase.decision = some decision → call'.phase.decision = some decision := by
  obtain ⟨call', hcall', hrouted, hdecision⟩ := calls_of_step hs hregistry h.present
  refine ⟨call', ⟨howners, hcall', ?_⟩, hdecision⟩
  rw [hrouted]
  exact h.routed

theorem decision_of_requestAnswer {sendError : FrameworkError} {phase : RequestPhase}
    {decision : ApprovalDecision} (h : requestAnswer sendError phase = some (.ok decision)) :
    phase.decision = some decision := by
  cases phase <;> cases h
  rfl

namespace ApprovalSystem

theorem sound_new : (new : ApprovalSystem Outcome).Sound where
  accounted := Registry.accounted_new
  owned := rfl
  unfolds := nofun
  asks := nofun
  grants := nofun

/-- What an execution does next is a part of its run. -/
theorem unfolds_answer {x : RunningExecution Outcome} {call : Call}
    {next : Answer Outcome call → Execution Outcome Outcome} (hrest : x.rest = .call call next)
    (answer : Answer Outcome call)
    (h : ∀ tr result, Program.Runs x.rest tr result →
      Program.Runs (execute x.entry x.ctx x.argsJson x.sessionId) (x.trace ++ tr) result)
    {tr : List (CallEvent Outcome)} {result : Except FrameworkError Outcome}
    (hruns : Program.Runs (next answer) tr result) :
    Program.Runs (execute x.entry x.ctx x.argsJson x.sessionId)
      (x.trace ++ [⟨call, answer⟩] ++ tr) result := by
  rw [List.append_assoc]
  exact h _ _ (by rw [hrest]; exact .call answer hruns)

namespace Sound

variable {s : ApprovalSystem Outcome} (hs : s.Sound)
include hs

theorem started (entry : AgentToolEntry) (ctx : ToolExecEnv) (argsJson sessionId : Text) :
    Sound { s with executions := s.executions ++ [.start entry ctx argsJson sessionId] } := by
  refine ⟨hs.accounted, hs.owned, fun i x hx => ?_, fun i x c hx hasked => ?_,
    fun i x request hx hmem => ?_⟩
  · rcases getElem?_append_singleton_cases hx with hx | ⟨-, rfl⟩
    · exact hs.unfolds i x hx
    · exact fun tr result hruns => hruns
  · rcases getElem?_append_singleton_cases hx with hx | ⟨-, rfl⟩
    · exact hs.asks i x c hx hasked
    · cases hasked
  · rcases getElem?_append_singleton_cases hx with hx | ⟨-, rfl⟩
    · exact hs.grants i x request hx hmem
    · cases hmem

/-- A call is answered.  If it is a request that was approved, so was a call of the execution. -/
theorem answer {i : Nat} {x : RunningExecution Outcome} {call : Call}
    {next : Answer Outcome call → Execution Outcome Outcome} (hx : s.executions[i]? = some x)
    (hrest : x.rest = .call call next) (answer : Answer Outcome call)
    (hgrant : ∀ request, (⟨call, answer⟩ : CallEvent Outcome) =
      ⟨.requestApproval request, .ok .approved⟩ → ∃ c call,
        MadeBy s.owners s.registry i request c call ∧ call.phase.decision = some .approved) :
    Sound { s with executions := s.executions.set i (x.answer call answer next) } := by
  refine ⟨hs.accounted, hs.owned, fun j y hy => ?_, fun j y c hy hasked => ?_,
    fun j y request hy hmem => ?_⟩
  · rcases getElem?_set_cases hy with ⟨rfl, rfl⟩ | ⟨-, hy⟩
    · exact fun tr result hruns => unfolds_answer hrest answer (hs.unfolds i x hx) hruns
    · exact hs.unfolds j y hy
  · rcases getElem?_set_cases hy with ⟨rfl, rfl⟩ | ⟨-, hy⟩
    · cases hasked
    · exact hs.asks j y c hy hasked
  · rcases getElem?_set_cases hy with ⟨rfl, rfl⟩ | ⟨-, hy⟩
    · rcases List.mem_append.mp hmem with hmem | hmem
      · exact hs.grants i x request hx hmem
      · exact hgrant request (List.mem_singleton.mp hmem).symm
    · exact hs.grants j y request hy hmem

/-- A request is registered. -/
theorem requested {i : Nat} {x : RunningExecution Outcome} {request : ApprovalRequest}
    {next : Answer Outcome (.requestApproval request) → Execution Outcome Outcome}
    (hx : s.executions[i]? = some x) (hrest : x.rest = .call (.requestApproval request) next) :
    Sound { registry := s.registry.fetchId request
            executions := s.executions.set i { x with asked := some s.registry.calls.length }
            owners := s.owners ++ [i] } := by
  have hstep : Approval.Step s.registry (.fetchId request) (s.registry.fetchId request) :=
    .fetchId request
  refine ⟨hs.accounted.step hstep, ?_, fun j y hy => ?_, fun j y c hy hasked => ?_,
    fun j y request' hy hmem => ?_⟩
  · show (s.owners ++ [i]).length = (s.registry.calls ++ [_]).length
    rw [List.length_append, List.length_append, hs.owned]
    rfl
  · rcases getElem?_set_cases hy with ⟨rfl, rfl⟩ | ⟨-, hy⟩
    · exact hs.unfolds i x hx
    · exact hs.unfolds j y hy
  · rcases getElem?_set_cases hy with ⟨rfl, rfl⟩ | ⟨-, hy⟩
    · -- the call it waits for is the last one
      cases hasked
      refine ⟨request, next, _, hrest, ?_, List.getElem?_concat_length .., rfl⟩
      rw [← hs.owned]
      exact List.getElem?_concat_length ..
    · obtain ⟨request', next', call, hrest', hmade⟩ := hs.asks j y c hy hasked
      obtain ⟨call', hmade', -⟩ := hmade.of_step hs.accounted.consistent hstep
        (getElem?_append_of_getElem? hmade.owner _)
      exact ⟨request', next', call', hrest', hmade'⟩
  · obtain ⟨y', hy', htrace⟩ : ∃ y', s.executions[j]? = some y' ∧ y.trace = y'.trace := by
      rcases getElem?_set_cases hy with ⟨rfl, rfl⟩ | ⟨-, hy⟩
      · exact ⟨x, hx, rfl⟩
      · exact ⟨y, hy, rfl⟩
    rw [htrace] at hmem
    obtain ⟨c, call, hmade, hdecision⟩ := hs.grants j y' request' hy' hmem
    obtain ⟨call', hmade', hkeeps⟩ := hmade.of_step hs.accounted.consistent hstep
      (getElem?_append_of_getElem? hmade.owner _)
    exact ⟨c, call', hmade', hkeeps _ hdecision⟩

/-- The registry takes a step in which no request is made. -/
theorem registered {action : Action} {registry : Registry}
    (hregistry : Approval.Step s.registry action registry)
    (haction : ∀ request, action ≠ .fetchId request) : Sound { s with registry } := by
  refine ⟨hs.accounted.step hregistry, ?_, hs.unfolds, fun i x c hx hasked => ?_,
    fun i x request hx hmem => ?_⟩
  · rcases s.registry.requests_step hs.accounted.consistent hregistry with
      ⟨hrequests, -⟩ | ⟨request, rfl, -⟩
    · have hlength := congrArg List.length hrequests
      rw [Registry.requests, Registry.requests, List.length_map, List.length_map] at hlength
      exact hs.owned.trans hlength.symm
    · exact absurd rfl (haction request)
  · obtain ⟨request, next, call, hrest, hmade⟩ := hs.asks i x c hx hasked
    obtain ⟨call', hmade', -⟩ := hmade.of_step hs.accounted.consistent hregistry hmade.owner
    exact ⟨request, next, call', hrest, hmade'⟩
  · obtain ⟨c, call, hmade, hdecision⟩ := hs.grants i x request hx hmem
    obtain ⟨call', hmade', hkeeps⟩ := hmade.of_step hs.accounted.consistent hregistry hmade.owner
    exact ⟨c, call', hmade', hkeeps _ hdecision⟩

/-- **A step keeps the invariant.** -/
theorem step {s' : ApprovalSystem Outcome} (h : s.Step s') : s'.Sound := by
  cases h with
  | started entry ctx argsJson sessionId => exact hs.started entry ctx argsJson sessionId
  | answered hx hrest hcall answer =>
      refine hs.answer hx hrest answer fun request heq => ?_
      -- the call answered is no request
      cases heq
      cases hcall
  | requested hx _ hrest => exact hs.requested hx hrest
  | @returned i x c request next call answer sendError hx hasked hrest hcall hanswer =>
      obtain ⟨request', next', call', hrest', hmade⟩ := hs.asks i x c hx hasked
      rw [hrest] at hrest'
      cases hrest'
      obtain rfl := Option.some.inj (hcall.symm.trans hmade.present)
      refine hs.answer hx hrest answer fun request' heq => ?_
      cases heq
      exact ⟨c, call, hmade, decision_of_requestAnswer hanswer⟩
  | registry hregistry haction => exact hs.registered hregistry haction

end Sound

end ApprovalSystem

/-! ## Whole runs -/

/-- The execution is that of a sandboxed entry, for the user. -/
def RunningExecution.isGatedFor (userId : Text) (x : RunningExecution Outcome) : Bool :=
  x.entry.executionKind ≠ .direct ∧ x.ctx.userId = userId

/-- A user's approval. -/
def isApprovalBy (userId : Text) (r : Resolved) : Bool :=
  r.userId = userId ∧ r.decision = .approved

namespace ApprovalSystem

/-- How often something has run outside the sandbox for the user, of what is sandboxed. -/
def directRuns (s : ApprovalSystem Outcome) (userId : Text) : Nat :=
  ((s.executions.filter (RunningExecution.isGatedFor userId)).flatMap
    RunningExecution.trace).countP (·.1.isDirect)

/-- The user the execution is for has approved the request. -/
def ApprovedBy (s : ApprovalSystem Outcome) (x : RunningExecution Outcome)
    (request : ApprovalRequest) (r : Resolved) : Prop :=
  r ∈ s.registry.resolved ∧ r.userId = x.ctx.userId ∧ r.decision = .approved ∧
    ∃ call, s.registry.calls[r.call]? = some call ∧ call.routed = request.route r.approvalId

/-- **Approval.**  What an execution of a sandboxed entry has run directly is its own plan, whose
escalation its user has approved; and the user has approved at least as much as has been run. -/
structure Approved (s : ApprovalSystem Outcome) : Prop where
  granted : ∀ x ∈ s.executions, x.entry.executionKind ≠ .direct →
    ∀ before event after, x.trace = before ++ event :: after → event.1.isDirect = true →
      ∃ tool plan request r, event.1 = .executeDirect tool plan ∧
        ⟨.plan tool x.argsJson, .ok plan⟩ ∈ before ∧
          Escalates x.ctx x.sessionId before tool plan request ∧ s.ApprovedBy x request r
  once : ∀ userId, s.directRuns userId ≤ s.registry.resolved.countP (isApprovalBy userId)

end ApprovalSystem

theorem Escalates.mono {ctx : ToolExecEnv} {sessionId : Text}
    {before before' : List (CallEvent Outcome)} {tool : RegisteredTool} {plan : PlanOf tool}
    {request : ApprovalRequest} (h : Escalates ctx sessionId before tool plan request)
    (hsub : before ⊆ before') : Escalates ctx sessionId before' tool plan request := by
  cases h with
  | route hneeds => exact .route hneeds
  | denial hdenied => exact .denial (hsub hdenied)

/-- The request of an escalation is made for the user. -/
theorem Escalates.requestingUserId {ctx : ToolExecEnv} {sessionId : Text}
    {before : List (CallEvent Outcome)} {tool : RegisteredTool} {plan : PlanOf tool}
    {request : ApprovalRequest} (h : Escalates ctx sessionId before tool plan request) :
    request.requestingUserId = ctx.userId := by
  cases h with
  | route _ => rfl
  | denial _ => rfl

/-- Answers for what is left of an execution: everything fails. -/
def failAll : (call : Call) → Answer Outcome call
  | .plan _ _ | .executeWasm _ _ | .executeHostSandboxed _ _ | .requestApproval _
  | .executeDirect _ _ | .executeTool _ _ _ => .error (.tool "cancelled")

/-- Every execution of a sandboxed entry is a part of a run of an arm. -/
theorem ApprovalSystem.Sound.armTrace {s : ApprovalSystem Outcome} (hs : s.Sound) {i : Nat}
    {x : RunningExecution Outcome} (hx : s.executions[i]? = some x)
    (hkind : x.entry.executionKind ≠ .direct) :
    ∃ tr result, ArmTrace x.ctx x.argsJson x.sessionId (x.trace ++ tr) result := by
  have hruns := Program.runs_runBy (fun _ => failAll) x.rest []
  exact ⟨_, _, execute_trace hkind (hs.unfolds i x hx _ _ hruns)⟩

/-- **The invariant gives the approval.** -/
theorem ApprovalSystem.Sound.approved {s : ApprovalSystem Outcome} (hs : s.Sound) :
    s.Approved := by
  -- every direct run has a resolution whose call is the execution's own
  have hgranted : ∀ (i : Nat) (x : RunningExecution Outcome), s.executions[i]? = some x →
      x.entry.executionKind ≠ .direct → ∀ before event after,
        x.trace = before ++ event :: after → event.1.isDirect = true →
          ∃ tool plan request r, event.1 = .executeDirect tool plan ∧
            ⟨.plan tool x.argsJson, .ok plan⟩ ∈ before ∧
              Escalates x.ctx x.sessionId before tool plan request ∧ s.ApprovedBy x request r ∧
                s.owners[r.call]? = some i := by
    intro i x hx hkind before event after htrace hdirect
    obtain ⟨tr, result, harm⟩ := hs.armTrace hx hkind
    have hsplit : x.trace ++ tr = before ++ event :: (after ++ tr) := by
      rw [htrace, List.append_assoc, List.cons_append]
    obtain ⟨earlier, tool, plan, request, rfl, hevent, hplan, hescalates⟩ :=
      harm.gated.approved before event (after ++ tr) hsplit hdirect
    have hmem : (⟨.requestApproval request, .ok .approved⟩ : CallEvent Outcome) ∈ x.trace := by
      rw [htrace]
      simp
    obtain ⟨c, call, hmade, hdecision⟩ := hs.grants i x request hx hmem
    obtain ⟨r, hr, rfl, happroved, hid, huser⟩ :=
      hs.accounted.resolved_of_approved hmade.present hdecision
    have hrequester : call.routed.requestingUserId = x.ctx.userId := by
      rw [hmade.routed]
      exact hescalates.requestingUserId
    refine ⟨tool, plan, request, r, hevent, List.mem_append_left _ hplan,
      hescalates.mono (List.subset_append_left _ _), ?_, hmade.owner⟩
    exact ⟨hr, huser.trans hrequester, happroved, call, hmade.present, by rw [hid]; exact hmade.routed⟩
  refine ⟨fun x hx hkind before event after htrace hdirect => ?_, fun userId => ?_⟩
  · obtain ⟨i, hi⟩ := List.mem_iff_getElem?.mp hx
    obtain ⟨tool, plan, request, r, hevent, hplan, hescalates, happroved, -⟩ :=
      hgranted i x hi hkind before event after htrace hdirect
    exact ⟨tool, plan, request, r, hevent, hplan, hescalates, happroved⟩
  · have hfew : ∀ x ∈ s.executions.filter (RunningExecution.isGatedFor userId),
        x.trace.countP (·.1.isDirect) ≤ 1 := by
      intro x hx
      obtain ⟨hmem, hgated⟩ := List.mem_filter.mp hx
      obtain ⟨i, hi⟩ := List.mem_iff_getElem?.mp hmem
      obtain ⟨tr, result, harm⟩ := hs.armTrace hi (of_decide_eq_true hgated).1
      refine Nat.le_trans ?_ harm.gated.once
      rw [List.countP_append]
      exact Nat.le_add_right _ _
    refine Nat.le_trans (countP_flatMap_le hfew) ?_
    rw [List.countP_filter]
    refine countP_le_of_owner (fun r : Resolved => s.owners[r.call]?) fun i x hi hx => ?_
    obtain ⟨hany, hgated⟩ := Bool.and_eq_true_iff.mp hx
    obtain ⟨hkind, rfl⟩ := of_decide_eq_true hgated
    obtain ⟨event, hevent, hdirect⟩ := List.any_eq_true.mp hany
    obtain ⟨before, after, htrace⟩ := List.append_of_mem hevent
    obtain ⟨tool, plan, request, r, -, -, -, ⟨hr, huser, happroved, -⟩, howner⟩ :=
      hgranted i x hi hkind before event after htrace hdirect
    exact ⟨r, hr, decide_eq_true ⟨huser, happroved⟩, howner⟩

/-- **In every run of executions beside the registry and its users, what runs outside the sandbox
was approved by the user it runs for**, each approval letting one execution through, whatever
happens to the messages and however ids are drawn. -/
theorem direct_runs_approved {tr : List (SystemAction Outcome × ApprovalSystem Outcome)}
    (hrun : Run ApprovalSystem.step ApprovalSystem.new tr) : ∀ x ∈ tr, x.2.Approved := by
  intro x hx
  have hsound := Run.invariant (J := ApprovalSystem.Sound)
    (fun _ _ _ hs h => hs.step (ApprovalSystem.step_spec h)) hrun ApprovalSystem.sound_new
  exact (hsound x hx).approved

/-- How the surroundings answer when a host command is denied the network and runs directly. -/
def lookupAnswer : (call : Call) → Answer Text call
  | .plan .exec _ => .ok lookupPlan
  | .executeHostSandboxed _ _ => .error (.sandboxPermissionDenied lookupDenial)
  | .executeDirect _ _ => .ok "93.184.215.14 example.org"
  | .plan _ _ | .executeWasm _ _ | .requestApproval _ | .executeTool _ _ _ =>
      .error (.tool "unexpected call")

/-- Two executions of one user ask for approval; one of them is approved, and the other denied. -/
def lookupTwice : List (SystemAction Text) :=
  [.start ⟨.exec, .hostSandbox⟩ agentEnv "{}" "session-1",
    .start ⟨.exec, .hostSandbox⟩ agentEnv "{}" "session-1",
    .answered 0 lookupAnswer, .answered 1 lookupAnswer, .answered 0 lookupAnswer,
    .answered 1 lookupAnswer, .requested 1, .requested 0, .registry (.insert 0),
    .registry (.insert 1), .registry (.messageSent 0), .registry (.messageSent 1),
    .registry (.resolve "approval-2" "user-1" .approved),
    .registry (.resolve "approval-1" "user-1" .denied), .registry (.decisionReceived 1),
    .registry (.decisionReceived 0), .registry (.cleanup 0), .registry (.cleanup 1),
    .returned 0 (.tool ""), .returned 1 (.tool ""), .answered 0 lookupAnswer]

theorem direct_runs_approved_lookup : ∃ tr,
    Run ApprovalSystem.step (ApprovalSystem.new : ApprovalSystem Text) tr ∧
      (∃ x ∈ tr, (x.2.directRuns "user-1" == 1) = true) ∧ ∀ x ∈ tr, x.2.Approved := by
  obtain ⟨tr, hrun, hran⟩ := exists_run_of_exec ApprovalSystem.step
    (ApprovalSystem.new : ApprovalSystem Text) lookupTwice
    (fun s => s.directRuns "user-1" == 1) (by decide +kernel)
  exact ⟨tr, hrun, hran, direct_runs_approved hrun⟩

end Tools
end SimpleClaw
