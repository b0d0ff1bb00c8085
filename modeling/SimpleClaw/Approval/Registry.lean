import Mathlib.Algebra.Group.Nat.Defs
import SimpleClaw.Error
import SimpleClaw.Lib.Tables
import SimpleClaw.Lib.Runs

/-!
# The approval registry

`approval.rs` keeps the requests that wait for a user's decision in a map from approval id
to the request and the sending half of a oneshot channel.  A `request_approval` call
registers its request, has the channel send the message with the buttons, waits for the
decision or the timeout, and removes its entry.  On the other side `resolve` looks an id
up, checks the user, removes the entry and sends the decision.

The unit of atomicity is one acquisition of the lock on the map, one draw from the id
counter, or one event of a waiting call.  A call is named by its index in `calls`, which is
also the identity of its oneshot channel.

* `Registry.step`: one atomic step, computed.
* `Step`: the same steps as a relation, one constructor for each thing that can happen.
* `Registry.Consistent`: every entry belongs to a call that has not returned, under the id
  of that call, and every decision sent is the one the channel holds.
-/

namespace SimpleClaw
namespace Approval

open Table

/-- A user's decision, or that none arrived in time. -/
inductive ApprovalDecision where
  | approved
  | denied
  | timedOut
  deriving DecidableEq

/-- A request as the tool execution raises it. -/
structure ApprovalRequest where
  agentId : Text
  agentName : Text
  sessionId : Text
  requestingUserId : Text
  toolName : Text
  executionKind : Text
  capability : SandboxCapability
  reason : Text
  actionSummary : Text
  diagnostic : Text
  deriving DecidableEq

/-- `test_request` of the source: to read a file outside the sandbox. -/
def testRequest : ApprovalRequest where
  agentId := "agent-1"
  agentName := "Agent One"
  sessionId := "sess-1"
  requestingUserId := "user-1"
  toolName := "read"
  executionKind := "preflight_escalation"
  capability := .read
  reason := "outside sandbox"
  actionSummary := "/tmp/secret.txt"
  diagnostic := "blocked"

/-- A registered request, with the id the channel callbacks resolve it by. -/
structure PendingApprovalRequest where
  approvalId : Text
  agentId : Text
  agentName : Text
  sessionId : Text
  requestingUserId : Text
  toolName : Text
  executionKind : Text
  capability : Text
  reason : Text
  actionSummary : Text
  diagnostic : Text
  deriving DecidableEq

/-- An entry of the pending map.  The sender is that of the channel of call `responseTx`. -/
structure PendingApproval where
  request : PendingApprovalRequest
  responseTx : Option Nat
  deriving DecidableEq

/-- The oneshot channel of a call: its sender still there, used, or dropped unused. -/
inductive Channel where
  | waiting
  | sent (decision : ApprovalDecision)
  | closed
  deriving DecidableEq

/-- Where a `request_approval` call is.  `allocated` has its id and not yet its entry;
`registered` has the approval message under way; `decided` has left the wait with its
decision and not yet removed the entry; `sendFailed` returned the error of the send. -/
inductive RequestPhase where
  | allocated
  | registered
  | waiting
  | decided (decision : ApprovalDecision)
  | returned (decision : ApprovalDecision)
  | sendFailed
  deriving DecidableEq

/-- What `wait_for_decision` returns, from the moment that is settled. -/
def RequestPhase.decision : RequestPhase → Option ApprovalDecision
  | .decided decision | .returned decision => some decision
  | .allocated | .registered | .waiting | .sendFailed => none

/-- The call has been registered and has not removed its entry. -/
def RequestPhase.listed : RequestPhase → Bool
  | .registered | .waiting | .decided _ | .sendFailed => true
  | .allocated | .returned _ => false

/-- A `request_approval` call. -/
structure RequestCall where
  routed : PendingApprovalRequest
  channel : Channel
  phase : RequestPhase
  deriving DecidableEq

/-- A `resolve` that returned `true`, with the call whose entry it took. -/
structure Resolved where
  call : Nat
  approvalId : Text
  userId : Text
  decision : ApprovalDecision
  deriving DecidableEq

/-- The registry with the calls that use it.  `resolved` records the run: the successful
resolutions, in their order. -/
structure Registry where
  nextId : UInt64
  pending : Text → Option PendingApproval
  calls : List RequestCall
  resolved : List Resolved

/-- `ApprovalRegistry::new`. -/
def Registry.new : Registry where
  nextId := 1
  pending := fun _ => none
  calls := []
  resolved := []

/-- The atomic steps.  `fetchId` and `insert` are the two of `register`; the last one is
that of the approver's side. -/
inductive Action where
  | fetchId (request : ApprovalRequest)
  | insert (call : Nat)
  | messageSent (call : Nat)
  | messageFailed (call : Nat)
  | decisionReceived (call : Nat)
  | senderDropped (call : Nat)
  | timeoutElapsed (call : Nat)
  | cleanup (call : Nat)
  | resolve (approvalId userId : Text) (decision : ApprovalDecision)

/-- `format!("approval-{}", n)`. -/
def approvalIdOf (n : UInt64) : Text := ("approval-" : Text) ++ Text.decimal n.toNat

/-- The request `register` routes to the channel. -/
def ApprovalRequest.route (request : ApprovalRequest) (approvalId : Text) :
    PendingApprovalRequest where
  approvalId := approvalId
  agentId := request.agentId
  agentName := request.agentName
  sessionId := request.sessionId
  requestingUserId := request.requestingUserId
  toolName := request.toolName
  executionKind := request.executionKind
  capability := request.capability.asStr
  reason := request.reason
  actionSummary := request.actionSummary
  diagnostic := request.diagnostic

/-- The sender of a call is used or dropped: its channel settles, if it has not yet. -/
def settle (calls : List RequestCall) (c : Nat) (outcome : Channel) : List RequestCall :=
  match calls[c]? with
  | some ⟨routed, .waiting, phase⟩ => calls.set c ⟨routed, outcome, phase⟩
  | _ => calls

/-- The sender of an entry that leaves the map is used or dropped. -/
def settleEntry (calls : List RequestCall) (entry : Option PendingApproval)
    (outcome : Channel) : List RequestCall :=
  match entry with
  | some ⟨_, some c⟩ => settle calls c outcome
  | _ => calls

namespace Registry

variable (s : Registry)

/-- The id of `register` is drawn from the counter, which wraps around. -/
def fetchId (request : ApprovalRequest) : Registry :=
  { s with
    nextId := s.nextId + 1
    calls := s.calls ++ [⟨request.route (approvalIdOf s.nextId), .waiting, .allocated⟩] }

/-- `pending.insert(approval_id, …)`; an entry it replaces is dropped. -/
def insert (c : Nat) : Option Registry :=
  match s.calls[c]? with
  | some ⟨routed, channel, .allocated⟩ =>
      some { s with
        pending := Function.update s.pending routed.approvalId (some ⟨routed, some c⟩)
        calls := (settleEntry s.calls (s.pending routed.approvalId) .closed).set c
          ⟨routed, channel, .registered⟩ }
  | _ => none

/-- The call goes from one phase to the next. -/
def advance (c : Nat) (next : RequestCall → Option RequestPhase) : Option Registry :=
  match s.calls[c]? with
  | some call =>
      match next call with
      | some phase => some { s with calls := s.calls.set c { call with phase := phase } }
      | none => none
  | none => none

/-- `pending.remove(approval_id)` at the end of `wait_for_decision`; the entry removed is
dropped. -/
def cleanup (c : Nat) : Option Registry :=
  match s.calls[c]? with
  | some ⟨routed, channel, .decided decision⟩ =>
      some { s with
        pending := Function.update s.pending routed.approvalId none
        calls := settleEntry (s.calls.set c ⟨routed, channel, .returned decision⟩)
          (s.pending routed.approvalId) .closed }
  | _ => none

/-- `resolve`, with its answer.  Whether the decision could be sent is ignored. -/
def resolve (approvalId userId : Text) (decision : ApprovalDecision) : Bool × Registry :=
  match s.pending approvalId with
  | none => (false, s)
  | some entry =>
      if entry.request.requestingUserId ≠ userId then (false, s)
      else
        match entry.responseTx with
        | none => (true, { s with pending := Function.update s.pending approvalId none })
        | some c =>
            (true, { s with
              pending := Function.update s.pending approvalId none
              calls := settle s.calls c (.sent decision)
              resolved := s.resolved ++ [⟨c, approvalId, userId, decision⟩] })

/-- `pending_request`. -/
def pendingRequest (approvalId : Text) : Option PendingApprovalRequest :=
  (s.pending approvalId).map fun entry => entry.request

/-- One atomic step. -/
def step : Action → Option Registry
  | .fetchId request => some (s.fetchId request)
  | .insert c => s.insert c
  | .messageSent c => s.advance c fun call =>
      if call.phase = .registered then some .waiting else none
  | .messageFailed c => s.advance c fun call =>
      if call.phase = .registered then some .sendFailed else none
  | .decisionReceived c => s.advance c fun call =>
      match call.phase, call.channel with
      | .waiting, .sent decision => some (.decided decision)
      | _, _ => none
  | .senderDropped c => s.advance c fun call =>
      if call.phase = .waiting ∧ call.channel = .closed then some (.decided .denied) else none
  | .timeoutElapsed c => s.advance c fun call =>
      -- the receiver is polled before the timer
      if call.phase = .waiting ∧ call.channel = .waiting then some (.decided .timedOut) else none
  | .cleanup c => s.cleanup c
  | .resolve approvalId userId decision => some (s.resolve approvalId userId decision).2

end Registry

/-! ## What a step can do -/

/-- A call may move between these phases without touching the map.  The decision it takes is
that of its channel, or none arrived in time. -/
inductive Moves (channel : Channel) : RequestPhase → RequestPhase → Prop where
  | messageSent : Moves channel .registered .waiting
  | messageFailed : Moves channel .registered .sendFailed
  | decisionReceived {decision} (h : channel = .sent decision) :
      Moves channel .waiting (.decided decision)
  | senderDropped (h : channel = .closed) : Moves channel .waiting (.decided .denied)
  | timeoutElapsed (h : channel = .waiting) : Moves channel .waiting (.decided .timedOut)

/-- The steps as a relation: one constructor for each outcome, with everything the step
checked. -/
inductive Step (s : Registry) : Action → Registry → Prop where
  | fetchId (request : ApprovalRequest) : Step s (.fetchId request) (s.fetchId request)
  | inserted {c routed channel} (hcall : s.calls[c]? = some ⟨routed, channel, .allocated⟩) :
      Step s (.insert c) { s with
        pending := Function.update s.pending routed.approvalId (some ⟨routed, some c⟩)
        calls := (settleEntry s.calls (s.pending routed.approvalId) .closed).set c
          ⟨routed, channel, .registered⟩ }
  | moved {a c routed channel phase phase'}
      (hcall : s.calls[c]? = some ⟨routed, channel, phase⟩) (hmoves : Moves channel phase phase')
      (ha : ∀ approvalId userId decision, a ≠ .resolve approvalId userId decision) :
      Step s a { s with calls := s.calls.set c ⟨routed, channel, phase'⟩ }
  | cleaned {c routed channel decision}
      (hcall : s.calls[c]? = some ⟨routed, channel, .decided decision⟩) :
      Step s (.cleanup c) { s with
        pending := Function.update s.pending routed.approvalId none
        calls := settleEntry (s.calls.set c ⟨routed, channel, .returned decision⟩)
          (s.pending routed.approvalId) .closed }
  | rejected {approvalId userId decision}
      (hentry : ∀ entry, s.pending approvalId = some entry →
        entry.request.requestingUserId ≠ userId) :
      Step s (.resolve approvalId userId decision) s
  | resolved {approvalId userId decision entry}
      (hentry : s.pending approvalId = some entry)
      (huser : entry.request.requestingUserId = userId) :
      Step s (.resolve approvalId userId decision) (s.resolve approvalId userId decision).2

namespace Registry

theorem advance_spec {s s' : Registry} {c : Nat} {next : RequestCall → Option RequestPhase}
    (h : s.advance c next = some s') : ∃ routed channel phase phase',
      s.calls[c]? = some ⟨routed, channel, phase⟩ ∧
        next ⟨routed, channel, phase⟩ = some phase' ∧
        s' = { s with calls := s.calls.set c ⟨routed, channel, phase'⟩ } := by
  unfold advance at h
  split at h
  · rename_i call hcall
    split at h
    · rename_i phase' hnext
      cases h
      exact ⟨call.routed, call.channel, call.phase, phase', hcall, hnext, rfl⟩
    · cases h
  · cases h

/-- **Every computed step is one of the listed outcomes.** -/
theorem step_spec {s s' : Registry} {a : Action} (h : s.step a = some s') : Step s a s' := by
  cases a with
  | fetchId request => cases h; exact .fetchId request
  | insert c =>
      simp only [step, insert] at h
      split at h
      · rename_i hcall; cases h; exact .inserted hcall
      · cases h
  | messageSent c =>
      obtain ⟨routed, channel, phase, phase', hcall, hnext, rfl⟩ := advance_spec h
      split at hnext
      · rename_i hphase
        cases hphase; cases hnext
        exact .moved hcall .messageSent nofun
      · cases hnext
  | messageFailed c =>
      obtain ⟨routed, channel, phase, phase', hcall, hnext, rfl⟩ := advance_spec h
      split at hnext
      · rename_i hphase
        cases hphase; cases hnext
        exact .moved hcall .messageFailed nofun
      · cases hnext
  | decisionReceived c =>
      obtain ⟨routed, channel, phase, phase', hcall, hnext, rfl⟩ := advance_spec h
      split at hnext
      · rename_i decision hphase hchannel
        cases hphase; cases hnext
        exact .moved hcall (.decisionReceived hchannel) nofun
      · cases hnext
  | senderDropped c =>
      obtain ⟨routed, channel, phase, phase', hcall, hnext, rfl⟩ := advance_spec h
      split at hnext
      · rename_i hphase
        obtain ⟨hphase, hchannel⟩ := hphase
        cases hphase; cases hnext
        exact .moved hcall (.senderDropped hchannel) nofun
      · cases hnext
  | timeoutElapsed c =>
      obtain ⟨routed, channel, phase, phase', hcall, hnext, rfl⟩ := advance_spec h
      split at hnext
      · rename_i hphase
        obtain ⟨hphase, hchannel⟩ := hphase
        cases hphase; cases hnext
        exact .moved hcall (.timeoutElapsed hchannel) nofun
      · cases hnext
  | cleanup c =>
      simp only [step, cleanup] at h
      split at h
      · rename_i hcall; cases h; exact .cleaned hcall
      · cases h
  | resolve approvalId userId decision =>
      simp only [step] at h
      cases hentry : s.pending approvalId with
      | none =>
          rw [show (s.resolve approvalId userId decision).2 = s by simp [resolve, hentry]] at h
          cases h
          exact .rejected (by simp [hentry])
      | some entry =>
          by_cases huser : entry.request.requestingUserId = userId
          · cases h
            exact .resolved hentry huser
          · rw [show (s.resolve approvalId userId decision).2 = s by
              simp [resolve, hentry, huser]] at h
            cases h
            exact .rejected (by simpa [hentry] using huser)

end Registry

/-! ## Channels -/

section Channels

variable {calls : List RequestCall} {i : Nat} {old call : RequestCall} {outcome : Channel}

/-- Where a call is after a channel settled: the same request in the same phase, and its
channel too unless it was the one and had not settled. -/
theorem settle_getElem? (hi : calls[i]? = some old) (c : Nat) (outcome : Channel) :
    ∃ call, (settle calls c outcome)[i]? = some call ∧ call.routed = old.routed ∧
      call.phase = old.phase ∧
      call.channel = if i = c ∧ old.channel = .waiting then outcome else old.channel := by
  unfold settle
  by_cases hic : i = c
  · subst hic
    obtain ⟨routed, channel, phase⟩ := old
    cases channel with
    | waiting =>
        simp only [hi]
        exact ⟨_, getElem?_set_self_of_getElem? hi, rfl, rfl, by simp⟩
    | sent decision => simp only [hi]; exact ⟨_, rfl, rfl, rfl, by simp⟩
    | closed => simp only [hi]; exact ⟨_, rfl, rfl, rfl, by simp⟩
  · split
    · exact ⟨old, getElem?_set_of_getElem? hi (Ne.symm hic), rfl, rfl, by simp [hic]⟩
    · exact ⟨old, hi, rfl, rfl, by simp [hic]⟩

/-- When an entry leaves the map, the calls other than its own are as before, and so is
every call whose channel has settled. -/
theorem settleEntry_getElem? (hi : calls[i]? = some old) {entry : Option PendingApproval}
    (hother : (∀ e, entry = some e → e.responseTx ≠ some i) ∨ old.channel ≠ .waiting)
    (outcome : Channel) : (settleEntry calls entry outcome)[i]? = some old := by
  unfold settleEntry
  split
  · rename_i request c
    obtain ⟨call, hcall, hrouted, hphase, hchannel⟩ := settle_getElem? hi c outcome
    have hne : ¬ (i = c ∧ old.channel = .waiting) := by
      rintro ⟨rfl, hwaiting⟩
      rcases hother with hother | hsettled
      · exact hother _ rfl rfl
      · exact hsettled hwaiting
    rw [if_neg hne] at hchannel
    obtain ⟨routed, channel, phase⟩ := call
    obtain ⟨routed', channel', phase'⟩ := old
    cases hrouted; cases hphase; cases hchannel
    exact hcall
  · exact hi

/-- A call after an entry left the map was there before, in the same phase, and with the
same channel unless the entry was its own and its channel had not settled. -/
theorem of_settleEntry_getElem? {entry : Option PendingApproval}
    (h : (settleEntry calls entry outcome)[i]? = some call) :
    ∃ old, calls[i]? = some old ∧ call.routed = old.routed ∧ call.phase = old.phase ∧
      (call.channel = old.channel ∨ (old.channel = .waiting ∧ call.channel = outcome ∧
        ∃ e, entry = some e ∧ e.responseTx = some i)) := by
  unfold settleEntry at h
  split at h
  · rename_i request c
    unfold settle at h
    split at h
    · rename_i routed phase hcall
      rcases getElem?_set_cases h with ⟨rfl, rfl⟩ | ⟨_, hi⟩
      · exact ⟨_, hcall, rfl, rfl, .inr ⟨rfl, rfl, _, rfl, rfl⟩⟩
      · exact ⟨call, hi, rfl, rfl, .inl rfl⟩
    · exact ⟨call, h, rfl, rfl, .inl rfl⟩
  · exact ⟨call, h, rfl, rfl, .inl rfl⟩

end Channels

/-! ## Entries and their calls -/

/-- The entry at an id of the map is that of a call: it has the call's request, whose id it
is entered under, and the call's channel has not settled. -/
def Registry.Owns (s : Registry) (id : Text) (entry : PendingApproval) (c : Nat)
    (call : RequestCall) : Prop :=
  entry.responseTx = some c ∧ s.calls[c]? = some call ∧ call.routed = entry.request ∧
    call.routed.approvalId = id ∧ call.channel = .waiting ∧ call.phase.listed = true

/-- The registry's invariant. -/
structure Registry.Consistent (s : Registry) : Prop where
  entries : ∀ id entry, s.pending id = some entry → ∃ c call, s.Owns id entry c call
  sends : ∀ r ∈ s.resolved, ∃ call, s.calls[r.call]? = some call ∧
    call.channel = .sent r.decision
  fresh : ∀ (c : Nat) (call : RequestCall), s.calls[c]? = some call →
    call.phase = .allocated → call.channel = .waiting

theorem Registry.consistent_new : Registry.new.Consistent where
  entries := fun _ _ h => by cases h
  sends := fun _ h => by cases h
  fresh := fun _ _ h => by cases h

/-- The calls of two entries differ when the ids do. -/
theorem Registry.Owns.ne_of_ne {s : Registry} {id id' : Text} {entry entry' : PendingApproval}
    {c c' : Nat} {call call' : RequestCall} (h : s.Owns id entry c call)
    (h' : s.Owns id' entry' c' call') (hne : id ≠ id') : c ≠ c' := by
  rintro rfl
  obtain ⟨-, hcall, -, hid, -⟩ := h
  obtain ⟨-, hcall', -, hid', -⟩ := h'
  rw [hcall] at hcall'
  cases hcall'
  exact hne (hid.symm.trans hid')

theorem Moves.listed {channel : Channel} {phase phase' : RequestPhase}
    (h : Moves channel phase phase') : phase'.listed = true := by
  cases h <;> rfl

section Preservation

variable {s : Registry} (hs : s.Consistent)
include hs

/-- An entry other than the one at `id` leaves the one at `id` alone. -/
theorem Registry.Consistent.not_responseTx {id id' : Text} {entry : PendingApproval} {c : Nat}
    {call : RequestCall} (h : s.Owns id entry c call) (hne : id' ≠ id) :
    ∀ e, s.pending id' = some e → e.responseTx ≠ some c := by
  intro e he htx
  obtain ⟨c', call', h'⟩ := hs.entries id' e he
  have heq : c' = c := by
    rw [h'.1] at htx
    exact Option.some.inj htx
  exact (h'.ne_of_ne h hne) heq

/-- A call that is not listed has no entry. -/
theorem Registry.Consistent.not_responseTx_of_not_listed {id : Text} {c : Nat}
    {call : RequestCall} (hcall : s.calls[c]? = some call) (hlisted : call.phase.listed = false) :
    ∀ e, s.pending id = some e → e.responseTx ≠ some c := by
  intro e he htx
  obtain ⟨c', call', htx', hcall', -, -, -, hlisted'⟩ := hs.entries id e he
  rw [htx'] at htx
  cases htx
  rw [hcall] at hcall'
  cases hcall'
  rw [hlisted] at hlisted'
  cases hlisted'

theorem Registry.Consistent.fetchId (request : ApprovalRequest) :
    (s.fetchId request).Consistent where
  entries := by
    intro id entry he
    obtain ⟨c, call, htx, hcall, howned⟩ := hs.entries id entry he
    exact ⟨c, call, htx, getElem?_append_of_getElem? hcall _, howned⟩
  sends := by
    intro r hr
    obtain ⟨call, hcall, hsent⟩ := hs.sends r hr
    exact ⟨call, getElem?_append_of_getElem? hcall _, hsent⟩
  fresh := by
    intro c call hcall hphase
    rcases getElem?_append_singleton_cases hcall with hcall | ⟨_, rfl⟩
    · exact hs.fresh c call hcall hphase
    · rfl

theorem Registry.Consistent.inserted {c : Nat} {routed : PendingApprovalRequest}
    {channel : Channel} (hcall : s.calls[c]? = some ⟨routed, channel, .allocated⟩) :
    Registry.Consistent { s with
      pending := Function.update s.pending routed.approvalId (some ⟨routed, some c⟩)
      calls := (settleEntry s.calls (s.pending routed.approvalId) .closed).set c
        ⟨routed, channel, .registered⟩ } := by
  have hfresh : channel = .waiting := hs.fresh c _ hcall rfl
  have hc : (settleEntry s.calls (s.pending routed.approvalId) .closed)[c]? =
      some ⟨routed, channel, .allocated⟩ :=
    settleEntry_getElem? hcall (.inl (hs.not_responseTx_of_not_listed hcall rfl)) _
  -- a call that is not `c`, and not that of the replaced entry, is as before
  have hkeep : ∀ {i : Nat} {call : RequestCall}, s.calls[i]? = some call → i ≠ c →
      ((∀ e, s.pending routed.approvalId = some e → e.responseTx ≠ some i) ∨
        call.channel ≠ .waiting) →
      ((settleEntry s.calls (s.pending routed.approvalId) .closed).set c
        ⟨routed, channel, .registered⟩)[i]? = some call :=
    fun hi hne hother =>
      getElem?_set_of_getElem? (settleEntry_getElem? hi hother _) (Ne.symm hne)
  refine ⟨fun id entry he => ?_, fun r hr => ?_, fun i call hi hphase => ?_⟩
  · rcases update_some_cases he with ⟨rfl, rfl⟩ | ⟨hid, he⟩
    · exact ⟨c, _, rfl, getElem?_set_self_of_getElem? hc, rfl, rfl, hfresh, rfl⟩
    · obtain ⟨c', call', hown⟩ := hs.entries id entry he
      have hne : c' ≠ c := fun heq =>
        hs.not_responseTx_of_not_listed hcall rfl entry he (heq ▸ hown.1)
      exact ⟨c', call', hown.1,
        hkeep hown.2.1 hne (.inl (hs.not_responseTx hown (Ne.symm hid))), hown.2.2⟩
  · obtain ⟨call, hi, hsent⟩ := hs.sends r hr
    have hne : r.call ≠ c := by
      intro heq
      rw [heq, hcall] at hi
      cases hi
      rw [hfresh] at hsent
      cases hsent
    exact ⟨call, hkeep hi hne (.inr (by rw [hsent]; nofun)), hsent⟩
  · rcases getElem?_set_cases hi with ⟨_, rfl⟩ | ⟨_, hi⟩
    · cases hphase
    · obtain ⟨old, hold, -, hphase', hchannel⟩ := of_settleEntry_getElem? hi
      have hallocated : old.phase = .allocated := hphase'.symm.trans hphase
      rcases hchannel with hchannel | ⟨-, -, e, he, htx⟩
      · rw [hchannel]
        exact hs.fresh i old hold hallocated
      · exact absurd htx (hs.not_responseTx_of_not_listed hold (by rw [hallocated]; rfl) e he)

theorem Registry.Consistent.moved {c : Nat} {routed : PendingApprovalRequest}
    {channel : Channel} {phase phase' : RequestPhase}
    (hcall : s.calls[c]? = some ⟨routed, channel, phase⟩) (hmoves : Moves channel phase phase') :
    Registry.Consistent { s with calls := s.calls.set c ⟨routed, channel, phase'⟩ } := by
  refine ⟨fun id entry he => ?_, fun r hr => ?_, fun i call hi hphase => ?_⟩
  · obtain ⟨c', call', htx, hcall', hrouted, hid, hchannel, hlisted⟩ := hs.entries id entry he
    by_cases hc : c = c'
    · subst hc
      rw [hcall] at hcall'
      cases hcall'
      exact ⟨c, _, htx, getElem?_set_self_of_getElem? hcall, hrouted, hid, hchannel,
        hmoves.listed⟩
    · exact ⟨c', call', htx, getElem?_set_of_getElem? hcall' hc, hrouted, hid, hchannel, hlisted⟩
  · obtain ⟨call, hi, hsent⟩ := hs.sends r hr
    by_cases hc : c = r.call
    · subst hc
      rw [hcall] at hi
      cases hi
      exact ⟨_, getElem?_set_self_of_getElem? hcall, hsent⟩
    · exact ⟨call, getElem?_set_of_getElem? hi hc, hsent⟩
  · rcases getElem?_set_cases hi with ⟨_, rfl⟩ | ⟨_, hi⟩
    · have hlisted := hmoves.listed
      rw [show phase' = .allocated from hphase] at hlisted
      cases hlisted
    · exact hs.fresh i call hi hphase

theorem Registry.Consistent.cleaned {c : Nat} {routed : PendingApprovalRequest}
    {channel : Channel} {decision : ApprovalDecision}
    (hcall : s.calls[c]? = some ⟨routed, channel, .decided decision⟩) :
    Registry.Consistent { s with
      pending := Function.update s.pending routed.approvalId none
      calls := settleEntry (s.calls.set c ⟨routed, channel, .returned decision⟩)
        (s.pending routed.approvalId) .closed } := by
  refine ⟨fun id entry he => ?_, fun r hr => ?_, fun i call hi hphase => ?_⟩
  · obtain ⟨hid, he⟩ := update_none_cases he
    obtain ⟨c', call', hown⟩ := hs.entries id entry he
    have hne : c ≠ c' := by
      rintro rfl
      obtain ⟨-, hcall', -, hid', -⟩ := hown
      rw [hcall] at hcall'
      cases hcall'
      exact hid hid'.symm
    refine ⟨c', call', hown.1, ?_, hown.2.2⟩
    exact settleEntry_getElem? (getElem?_set_of_getElem? hown.2.1 hne)
      (.inl (hs.not_responseTx hown (Ne.symm hid))) _
  · obtain ⟨call, hi, hsent⟩ := hs.sends r hr
    have hsettled : call.channel ≠ .waiting := by rw [hsent]; nofun
    by_cases hc : c = r.call
    · subst hc
      rw [hcall] at hi
      cases hi
      have hset : (s.calls.set r.call ⟨routed, channel, .returned decision⟩)[r.call]? =
          some ⟨routed, channel, .returned decision⟩ := getElem?_set_self_of_getElem? hcall
      exact ⟨_, settleEntry_getElem? hset (.inr hsettled) _, hsent⟩
    · exact ⟨call, settleEntry_getElem? (getElem?_set_of_getElem? hi hc) (.inr hsettled) _,
        hsent⟩
  · obtain ⟨old, hold, -, hphase', hchannel⟩ := of_settleEntry_getElem? hi
    have hallocated : old.phase = .allocated := hphase'.symm.trans hphase
    rcases getElem?_set_cases hold with ⟨_, rfl⟩ | ⟨_, hold⟩
    · cases hallocated
    · rcases hchannel with hchannel | ⟨-, -, e, he, htx⟩
      · rw [hchannel]
        exact hs.fresh i old hold hallocated
      · exact absurd htx (hs.not_responseTx_of_not_listed hold (by rw [hallocated]; rfl) e he)

/-- What a successful resolution does: it takes the entry away from its call and sends the
call the decision. -/
theorem Registry.Consistent.resolve_eq {approvalId userId : Text} (decision : ApprovalDecision)
    {entry : PendingApproval} (hentry : s.pending approvalId = some entry)
    (huser : entry.request.requestingUserId = userId) :
    ∃ c call, s.Owns approvalId entry c call ∧
      s.resolve approvalId userId decision = (true, { s with
        pending := Function.update s.pending approvalId none
        calls := s.calls.set c { call with channel := .sent decision }
        resolved := s.resolved ++ [⟨c, approvalId, userId, decision⟩] }) := by
  obtain ⟨c, ⟨routed, channel, phase⟩, hown⟩ := hs.entries approvalId entry hentry
  refine ⟨c, _, hown, ?_⟩
  obtain ⟨htx, hcall, hrouted, hid, hchannel, hlisted⟩ := hown
  cases hchannel
  unfold Registry.resolve
  simp only [hentry, huser, htx]
  rw [if_neg (by simp)]
  unfold settle
  simp only [hcall]

theorem Registry.Consistent.resolved {approvalId userId : Text} {decision : ApprovalDecision}
    {entry : PendingApproval} (hentry : s.pending approvalId = some entry)
    (huser : entry.request.requestingUserId = userId) :
    (s.resolve approvalId userId decision).2.Consistent := by
  obtain ⟨c, call, hown, heq⟩ := hs.resolve_eq decision hentry huser
  rw [heq]
  have hcall : s.calls[c]? = some call := hown.2.1
  refine ⟨fun id e he => ?_, ?_, fun i k hi hphase => ?_⟩
  · obtain ⟨hid, he⟩ := update_none_cases he
    obtain ⟨c', call', hown'⟩ := hs.entries id e he
    have hne : c ≠ c' := hown.ne_of_ne hown' (Ne.symm hid)
    exact ⟨c', call', hown'.1, getElem?_set_of_getElem? hown'.2.1 hne, hown'.2.2⟩
  · refine forall_mem_append (fun r hr => ?_)
      ⟨_, getElem?_set_self_of_getElem? hcall, rfl⟩
    obtain ⟨k, hi, hsent⟩ := hs.sends r hr
    have hne : c ≠ r.call := by
      rintro rfl
      rw [hcall] at hi
      cases hi
      rw [hown.2.2.2.2.1] at hsent
      cases hsent
    exact ⟨k, getElem?_set_of_getElem? hi hne, hsent⟩
  · rcases getElem?_set_cases hi with ⟨_, rfl⟩ | ⟨_, hi⟩
    · have hlisted : call.phase.listed = true := hown.2.2.2.2.2
      rw [show call.phase = .allocated from hphase] at hlisted
      cases hlisted
    · exact hs.fresh i k hi hphase

/-- **Every step keeps the entries with their calls.** -/
theorem Registry.Consistent.step {s' : Registry} {a : Action} (h : Step s a s') :
    s'.Consistent := by
  cases h with
  | fetchId request => exact hs.fetchId request
  | inserted hcall => exact hs.inserted hcall
  | moved hcall hmoves _ => exact hs.moved hcall hmoves
  | cleaned hcall => exact hs.cleaned hcall
  | rejected _ => exact hs
  | resolved hentry huser => exact hs.resolved hentry huser

end Preservation

/-! ## The requests and their ids -/

/-- The requests registered so far, each at the index of its call. -/
def Registry.requests (s : Registry) : List PendingApprovalRequest :=
  s.calls.map fun call => call.routed

theorem map_routed_set {calls : List RequestCall} {c : Nat} {old call : RequestCall}
    (hold : calls[c]? = some old) (hrouted : call.routed = old.routed) :
    (calls.set c call).map (fun call => call.routed) = calls.map fun call => call.routed := by
  rw [List.map_set, hrouted]
  refine List.ext_getElem? fun i => ?_
  by_cases hi : c = i
  · subst hi
    have hmap : (calls.map fun call => call.routed)[c]? = some old.routed := by
      rw [List.getElem?_map, hold, Option.map_some]
    rw [getElem?_set_self_of_getElem? hmap, hmap]
  · rw [List.getElem?_set_ne hi]

theorem map_routed_settleEntry (calls : List RequestCall) (entry : Option PendingApproval)
    (outcome : Channel) :
    (settleEntry calls entry outcome).map (fun call => call.routed) =
      calls.map fun call => call.routed := by
  unfold settleEntry
  split
  · unfold settle
    split
    · rename_i hcall
      exact map_routed_set hcall rfl
    · rfl
  · rfl

/-- A request only ever joins the list when its id is drawn. -/
theorem Registry.requests_step {s s' : Registry} {a : Action} (hs : s.Consistent)
    (h : Step s a s') : (s'.requests = s.requests ∧ s'.nextId = s.nextId) ∨
      ∃ request, a = .fetchId request ∧ s' = s.fetchId request := by
  cases h with
  | fetchId request => exact .inr ⟨request, rfl, rfl⟩
  | @inserted c routed channel hcall =>
      refine .inl ⟨?_, rfl⟩
      have hc : (settleEntry s.calls (s.pending routed.approvalId) .closed)[c]? =
          some ⟨routed, channel, .allocated⟩ :=
        settleEntry_getElem? hcall (.inl (hs.not_responseTx_of_not_listed hcall rfl)) _
      refine Eq.trans ?_
        (map_routed_settleEntry s.calls (s.pending routed.approvalId) .closed)
      exact map_routed_set hc rfl
  | moved hcall _ _ => exact .inl ⟨map_routed_set hcall rfl, rfl⟩
  | cleaned hcall =>
      refine .inl ⟨(map_routed_settleEntry _ _ _).trans ?_, rfl⟩
      exact map_routed_set hcall rfl
  | rejected _ => exact .inl ⟨rfl, rfl⟩
  | @resolved _ _ decision _ hentry huser =>
      obtain ⟨c, call, hown, heq⟩ := hs.resolve_eq decision hentry huser
      rw [heq]
      exact .inl ⟨map_routed_set hown.2.1 rfl, rfl⟩

/-- The calls drew their ids from the counter one after the other. -/
structure Registry.Numbered (s : Registry) : Prop where
  next : s.nextId = UInt64.ofNat (s.requests.length + 1)
  ids : ∀ (c : Nat) (request : PendingApprovalRequest), s.requests[c]? = some request →
    request.approvalId = approvalIdOf (UInt64.ofNat (c + 1))

theorem Registry.numbered_new : Registry.new.Numbered := ⟨rfl, fun _ _ h => by cases h⟩

theorem Registry.Numbered.step {s s' : Registry} {a : Action} (hn : s.Numbered)
    (hs : s.Consistent) (h : Step s a s') : s'.Numbered := by
  rcases s.requests_step hs h with ⟨hrequests, hnext⟩ | ⟨request, rfl, rfl⟩
  · exact ⟨by rw [hnext, hrequests]; exact hn.next, by rw [hrequests]; exact hn.ids⟩
  have happend : (s.fetchId request).requests =
      s.requests ++ [request.route (approvalIdOf s.nextId)] := by
    simp [Registry.requests, Registry.fetchId]
  refine ⟨?_, fun c r hr => ?_⟩
  · rw [happend, List.length_append, List.length_singleton]
    show s.nextId + 1 = _
    rw [hn.next]
    exact (UInt64.ofNat_add _ 1).symm
  · rw [happend] at hr
    rcases getElem?_append_singleton_cases hr with hr | ⟨rfl, rfl⟩
    · exact hn.ids c r hr
    · show approvalIdOf s.nextId = _
      rw [hn.next]

theorem approvalIdOf_injective : Function.Injective approvalIdOf := by
  intro m n h
  have hdec : Text.decimal m.toNat = Text.decimal n.toNat := List.append_cancel_left h
  exact UInt64.toNat_inj.mp (Text.decimal_injective hdec)

/-- Among fewer than `2 ^ 64` requests, the id tells which one it is. -/
theorem Registry.Numbered.index_unique {s : Registry} (hn : s.Numbered)
    (hfew : s.requests.length ≤ 2 ^ 64) {c c' : Nat} {r r' : PendingApprovalRequest}
    (hr : s.requests[c]? = some r) (hr' : s.requests[c']? = some r')
    (hid : r.approvalId = r'.approvalId) : c = c' := by
  rw [hn.ids c r hr, hn.ids c' r' hr'] at hid
  have heq : UInt64.ofNat (c + 1) = UInt64.ofNat (c' + 1) := approvalIdOf_injective hid
  have hmod := congrArg UInt64.toNat heq
  rw [UInt64.toNat_ofNat', UInt64.toNat_ofNat'] at hmod
  have hc : c < s.requests.length := (List.getElem?_eq_some_iff.mp hr).1
  have hc' : c' < s.requests.length := (List.getElem?_eq_some_iff.mp hr').1
  omega

end Approval
end SimpleClaw
