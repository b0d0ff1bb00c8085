import SimpleClaw.Channels.Discord

/-!
# What an approval button can resolve

An approval message outlives the process that sent it, but its buttons carry only an
approval id, and every process draws the ids from a fresh counter.  A button of an earlier
process can therefore name a request of the running one, and when the same user raised
both, a click on the old message decides the new request.

Here the registry is put in its surroundings: the messages that have been posted, the
decisions on their way from the click handler to the registry, and process restarts, which
forget everything but the messages.

* `World.ResolvesOwn`: no click has resolved a request other than the one its message was
  sent for.
* `World.Recognizes`: a step clicks only on messages of the running process, unless the
  click is refused, and draws an id only while the counter has not wrapped around.
* `resolvesOwn_of_recognizes`: in a run of such steps the property holds throughout.
-/

namespace SimpleClaw
namespace Approval

open Transition Table Channels

/-- A posted approval message.  It was sent for call `call` of process number `lifetime`. -/
structure ApprovalMessage where
  lifetime : Nat
  call : Nat
  request : PendingApprovalRequest
  deriving DecidableEq

/-- A successful resolution that began with a click: the message clicked on, and the process
and the call whose request was resolved. -/
structure ClickOutcome where
  message : Nat
  lifetime : Nat
  call : Nat
  deriving DecidableEq

/-- The running process, counted by `lifetime`, with the messages posted so far, the
decisions on their way (each with the message it came from), and a record of what clicks
have resolved. -/
structure World where
  lifetime : Nat
  registry : Registry
  messages : List ApprovalMessage
  inFlight : List (ApprovalResolution × Nat)
  outcomes : List ClickOutcome

def World.start : World where
  lifetime := 0
  registry := Registry.new
  messages := []
  inFlight := []
  outcomes := []

inductive WorldAction where
  | registry (action : Action)
  | post (call : Nat)
  | click (message : Nat) (button : Button) (userId channelId : Text)
  | deliver (resolution : Nat)
  | restart

namespace World

variable (s : World)

/-- The registry takes a step of one of its calls. -/
def registryStep : Action → Option World
  | .resolve _ _ _ => none
  | a => (s.registry.step a).map fun registry => { s with registry := registry }

/-- The channel posts the message of a call whose send is under way. -/
def post (c : Nat) : Option World :=
  match s.registry.calls[c]? with
  | some ⟨routed, _, .registered⟩ =>
      some { s with messages := s.messages ++ [⟨s.lifetime, c, routed⟩] }
  | _ => none

/-- `handle_approval_interaction`: a refused click changes nothing. -/
def click (m : Nat) (button : Button) (userId channelId : Text) : Option World :=
  match s.messages[m]? with
  | some message =>
      match parseApprovalCustomId (approvalCustomId message.request.approvalId button) with
      | some (approvalId, decision) =>
          match evaluateApprovalInteraction (s.registry.pendingRequest approvalId) userId
              channelId approvalId decision with
          | .authorized resolution _ =>
              some { s with inFlight := s.inFlight ++ [(resolution, m)] }
          | _ => some s
      | none => some s
  | none => none

/-- A decision under way reaches the registry. -/
def deliver (n : Nat) : Option World :=
  match s.inFlight[n]? with
  | some (resolution, m) =>
      let owner := (s.registry.pending resolution.approvalId).bind fun entry => entry.responseTx
      let answer := s.registry.resolve resolution.approvalId resolution.userId
        resolution.decision
      some { s with
        registry := answer.2
        inFlight := s.inFlight.eraseIdx n
        outcomes :=
          match answer.1, owner with
          | true, some c => s.outcomes ++ [⟨m, s.lifetime, c⟩]
          | _, _ => s.outcomes }
  | none => none

/-- The process ends and the next one starts with a fresh registry. -/
def restart : World :=
  { s with lifetime := s.lifetime + 1, registry := Registry.new, inFlight := [] }

/-- One atomic step. -/
def step : WorldAction → Option World
  | .registry a => s.registryStep a
  | .post c => s.post c
  | .click m button userId channelId => s.click m button userId channelId
  | .deliver n => s.deliver n
  | .restart => some s.restart

end World

/-- **Every request a click has resolved is the one the clicked message was sent for.** -/
def World.ResolvesOwn (s : World) : Prop :=
  ∀ o ∈ s.outcomes, ∃ message, s.messages[o.message]? = some message ∧
    message.lifetime = o.lifetime ∧ message.call = o.call

/-- The step does not click on a message of an earlier process, unless what is pending under
its id is none of the clicking user's; and it draws an id only if the counter still has a
fresh one. -/
def World.Recognizes (s : World) (a : WorldAction) : Prop :=
  (∀ m button userId channelId message, a = .click m button userId channelId →
    s.messages[m]? = some message → message.lifetime = s.lifetime ∨
      ∀ request, s.registry.pendingRequest message.request.approvalId = some request →
        request.requestingUserId ≠ userId) ∧
  ∀ request, a = .registry (.fetchId request) → s.registry.requests.length < 2 ^ 64

/-! ## The invariant -/

/-- What the messages and the decisions under way refer to: messages of the running process
to its requests, decisions under way to such a message. -/
structure World.Tracked (s : World) : Prop where
  consistent : s.registry.Consistent
  numbered : s.registry.Numbered
  few : s.registry.requests.length ≤ 2 ^ 64
  past : ∀ message ∈ s.messages, message.lifetime ≤ s.lifetime
  named : ∀ message ∈ s.messages, ∃ n, message.request.approvalId = approvalIdOf n
  current : ∀ message ∈ s.messages, message.lifetime = s.lifetime →
    s.registry.requests[message.call]? = some message.request
  inFlight : ∀ x ∈ s.inFlight, ∃ message, s.messages[x.2]? = some message ∧
    message.lifetime = s.lifetime ∧ message.request.approvalId = x.1.approvalId
  own : s.ResolvesOwn

theorem World.tracked_start : World.start.Tracked where
  consistent := Registry.consistent_new
  numbered := Registry.numbered_new
  few := by decide
  past := fun _ h => by cases h
  named := fun _ h => by cases h
  current := fun _ h => by cases h
  inFlight := fun _ h => by cases h
  own := fun _ h => by cases h

section Preservation

variable {s : World} (hs : s.Tracked)
include hs

/-- A step of the registry that keeps its requests keeps what refers to them. -/
theorem World.Tracked.registryStep {a : Action} {s' : World} (hC : s.Recognizes (.registry a))
    (h : s.registryStep a = some s') : s'.Tracked := by
  obtain ⟨registry, hreg, rfl⟩ : ∃ registry, s.registry.step a = some registry ∧
      { s with registry := registry } = s' := by
    cases a with
    | resolve => cases h
    | fetchId | insert | messageSent | messageFailed | decisionReceived | senderDropped
    | timeoutElapsed | cleanup => exact Option.map_eq_some_iff.mp h
  have hstep : Step s.registry a registry := Registry.step_spec hreg
  have hgrow : registry.requests.length ≤ 2 ^ 64 ∧
      ∀ (c : Nat) (request : PendingApprovalRequest), s.registry.requests[c]? = some request →
        registry.requests[c]? = some request := by
    rcases s.registry.requests_step hs.consistent hstep with ⟨hsame, _⟩ | ⟨request, rfl, rfl⟩
    · rw [hsame]
      exact ⟨hs.few, fun _ _ h => h⟩
    · have happend : (s.registry.fetchId request).requests =
          s.registry.requests ++ [request.route (approvalIdOf s.registry.nextId)] := by
        simp [Registry.requests, Registry.fetchId]
      rw [happend, List.length_append, List.length_singleton]
      have hfew : s.registry.requests.length < 2 ^ 64 := hC.2 request rfl
      exact ⟨by omega, fun _ _ h => getElem?_append_of_getElem? h _⟩
  exact {
    consistent := hs.consistent.step hstep
    numbered := hs.numbered.step hs.consistent hstep
    few := hgrow.1
    past := hs.past
    named := hs.named
    current := fun message hm hlife => hgrow.2 _ _ (hs.current message hm hlife)
    inFlight := hs.inFlight
    own := hs.own }

theorem World.Tracked.post {c : Nat} {s' : World} (h : s.post c = some s') : s'.Tracked := by
  unfold World.post at h
  split at h
  · rename_i routed channel hcall
    cases h
    have hrequest : s.registry.requests[c]? = some routed := by
      rw [Registry.requests, List.getElem?_map, hcall, Option.map_some]
    have hold : ∀ {m : Nat} {message : ApprovalMessage}, s.messages[m]? = some message →
        (s.messages ++ [⟨s.lifetime, c, routed⟩])[m]? = some message :=
      fun hm => getElem?_append_of_getElem? hm _
    exact {
      consistent := hs.consistent
      numbered := hs.numbered
      few := hs.few
      past := forall_mem_append hs.past (Nat.le_refl _)
      named := forall_mem_append hs.named ⟨_, hs.numbered.ids c routed hrequest⟩
      current := forall_mem_append hs.current fun _ => hrequest
      inFlight := fun x hx => by
        obtain ⟨message, hm, hmessage⟩ := hs.inFlight x hx
        exact ⟨message, hold hm, hmessage⟩
      own := fun o ho => by
        obtain ⟨message, hm, hmessage⟩ := hs.own o ho
        exact ⟨message, hold hm, hmessage⟩ }
  · cases h

/-- A click that is let through is on a message of the running process, and carries the id
of that message. -/
theorem World.Tracked.click {m : Nat} {button : Button} {userId channelId : Text} {s' : World}
    (hC : s.Recognizes (.click m button userId channelId))
    (h : s.click m button userId channelId = some s') : s'.Tracked := by
  unfold World.click at h
  split at h
  · rename_i message hm
    obtain ⟨n, hname⟩ := hs.named message (List.mem_of_getElem? hm)
    have hcolon : ':' ∉ message.request.approvalId := by
      rw [hname]
      exact colon_notMem_approvalIdOf n
    rw [parseApprovalCustomId_approvalCustomId button hcolon] at h
    simp only at h
    split at h
    · rename_i resolution rendered heval
      cases h
      obtain ⟨⟨request, hpending, huser⟩, rfl⟩ := evaluateApprovalInteraction_authorized heval
      have hlife : message.lifetime = s.lifetime := by
        rcases hC.1 m button userId channelId message rfl hm with hlife | hother
        · exact hlife
        · exact absurd huser (hother request hpending)
      exact {
        consistent := hs.consistent
        numbered := hs.numbered
        few := hs.few
        past := hs.past
        named := hs.named
        current := hs.current
        inFlight := forall_mem_append hs.inFlight ⟨message, hm, hlife, rfl⟩
        own := hs.own }
    · cases h
      exact hs
  · cases h

/-- **A decision under way resolves the request of the message it came from**: the entry
under its id is that of a call of the running process, and so is the message's; the id
tells them apart from all others. -/
theorem World.Tracked.deliver {n : Nat} {s' : World} (h : s.deliver n = some s') :
    s'.Tracked := by
  unfold World.deliver at h
  split at h
  · rename_i resolution m hn
    cases h
    obtain ⟨message, hm, hlife, hid⟩ := hs.inFlight _ (List.mem_of_getElem? hn)
    have hstep : Step s.registry
        (.resolve resolution.approvalId resolution.userId resolution.decision)
        (s.registry.resolve resolution.approvalId resolution.userId resolution.decision).2 :=
      Registry.step_spec rfl
    have hrequests := s.registry.requests_step hs.consistent hstep
    have hsame : (s.registry.resolve resolution.approvalId resolution.userId
        resolution.decision).2.requests = s.registry.requests := by
      rcases hrequests with ⟨hsame, _⟩ | ⟨_, ha, _⟩
      · exact hsame
      · cases ha
    refine {
      consistent := hs.consistent.step hstep
      numbered := hs.numbered.step hs.consistent hstep
      few := by rw [hsame]; exact hs.few
      past := hs.past
      named := hs.named
      current := by
        show ∀ message ∈ s.messages, message.lifetime = s.lifetime → _
        rw [hsame]
        exact hs.current
      inFlight := fun x hx => hs.inFlight x (List.mem_of_mem_eraseIdx hx)
      own := ?_ }
    intro o ho
    dsimp only at ho
    split at ho
    · rename_i c hanswer howner
      rcases List.mem_append.mp ho with ho | ho
      · exact hs.own o ho
      · cases List.mem_singleton.mp ho
        obtain ⟨entry, hentry, htx⟩ := Option.bind_eq_some_iff.mp howner
        obtain ⟨c', call, hown⟩ := hs.consistent.entries _ entry hentry
        have hc : c' = c := by
          rw [hown.1] at htx
          exact Option.some.inj htx
        subst hc
        have hrequest : s.registry.requests[c']? = some call.routed := by
          rw [Registry.requests, List.getElem?_map, hown.2.1, Option.map_some]
        have hmessage : s.registry.requests[message.call]? = some message.request :=
          hs.current message (List.mem_of_getElem? hm) hlife
        have hsameId : message.request.approvalId = call.routed.approvalId := by
          rw [hid, hown.2.2.2.1]
        exact ⟨message, hm, hlife,
          hs.numbered.index_unique hs.few hmessage hrequest hsameId⟩
    · exact hs.own o ho
  · cases h

theorem World.Tracked.restart : s.restart.Tracked where
  consistent := Registry.consistent_new
  numbered := Registry.numbered_new
  few := Nat.zero_le _
  past := fun message hm => Nat.le_succ_of_le (hs.past message hm)
  named := hs.named
  current := fun message hm hlife => by
    have hpast : message.lifetime ≤ s.lifetime := hs.past message hm
    have hlife : message.lifetime = s.lifetime + 1 := hlife
    omega
  inFlight := fun _ h => by cases h
  own := hs.own

/-- **Every step that recognizes its messages keeps the invariant.** -/
theorem World.Tracked.step {a : WorldAction} {s' : World} (hC : s.Recognizes a)
    (h : s.step a = some s') : s'.Tracked := by
  cases a with
  | registry a => exact hs.registryStep hC h
  | post c => exact hs.post h
  | click m button userId channelId => exact hs.click hC h
  | deliver n => exact hs.deliver h
  | restart => cases h; exact hs.restart

end Preservation

/-! ## Whole runs -/

/-- **In a run over any number of processes, in which the clicks that are let through are on
messages of the running process and no process hands out more than `2 ^ 64` ids, a click
only ever resolves the request its message was sent for.** -/
theorem resolvesOwn_of_recognizes {tr : List (WorldAction × World)}
    (hrun : Run World.step World.start tr)
    (hC : Run.StepsMeet World.Recognizes World.start tr) : ∀ x ∈ tr, x.2.ResolvesOwn := by
  intro x hx
  exact (Run.invariant_of_stepsMeet (J := World.Tracked)
    (fun _ _ _ hs hC h => hs.step hC h) hrun World.tracked_start hC x hx).own

/-- `Recognizes`, computed. -/
def World.recognizes (s : World) : WorldAction → Bool
  | .click m _ userId _ =>
      match s.messages[m]? with
      | some message =>
          message.lifetime == s.lifetime ||
            match s.registry.pendingRequest message.request.approvalId with
            | some request => request.requestingUserId != userId
            | none => true
      | none => true
  | .registry (.fetchId _) => s.registry.requests.length < 2 ^ 64
  | _ => true

theorem recognizes_of_check (s : World) (a : WorldAction) (h : s.recognizes a = true) :
    s.Recognizes a := by
  constructor
  · rintro m button userId channelId message rfl hm
    simp only [World.recognizes, hm, Bool.or_eq_true, beq_iff_eq] at h
    refine h.imp_right fun hother request hpending => ?_
    rw [hpending] at hother
    exact bne_iff_ne.mp hother
  · rintro request rfl
    exact of_decide_eq_true h

/-- A request, a restart, a click on its message when nothing is pending, then the same
request again with a message of its own, and a click on that one. -/
def clickAfterRestart : List WorldAction :=
  [.registry (.fetchId testRequest), .registry (.insert 0), .post 0, .restart,
    .click 0 .approve "user-1" "chan-1", .registry (.fetchId testRequest),
    .registry (.insert 0), .post 0, .click 1 .approve "user-1" "chan-1", .deliver 0]

theorem resolvesOwn_clickAfterRestart : ∃ tr, exec World.step World.start clickAfterRestart =
    some tr ∧ ∀ x ∈ tr, x.2.ResolvesOwn := by
  obtain ⟨tr, htr, hrun, hC⟩ :=
    exists_guarded_run_of_exec World.step World.start clickAfterRestart recognizes_of_check
      (by decide)
  exact ⟨tr, htr, resolvesOwn_of_recognizes hrun hC⟩

/-- The same, but the click on the message of the earlier process comes when the second
request is pending. -/
def staleClick : List WorldAction :=
  [.registry (.fetchId testRequest), .registry (.insert 0), .post 0, .restart,
    .registry (.fetchId { testRequest with actionSummary := "/etc/shadow" }),
    .registry (.insert 0), .click 0 .approve "user-1" "chan-1", .deliver 0]

/-- Some outcome is of another process than its message. -/
def World.crossesLifetimes (s : World) : Bool :=
  s.outcomes.any fun o =>
    match s.messages[o.message]? with
    | some message => message.lifetime != o.lifetime
    | none => false

theorem staleClick_resolves_other :
    ¬ ∀ tr, Run World.step World.start tr → ∀ x ∈ tr, x.2.ResolvesOwn := by
  intro hall
  obtain ⟨tr, hrun, x, hx, hcrosses⟩ :=
    exists_run_of_exec World.step World.start staleClick World.crossesLifetimes (by decide)
  obtain ⟨o, ho, hother⟩ := List.any_eq_true.mp hcrosses
  obtain ⟨message, hm, hlife, -⟩ := hall tr hrun x hx o ho
  rw [hm] at hother
  exact bne_iff_ne.mp hother hlife

end Approval
end SimpleClaw
