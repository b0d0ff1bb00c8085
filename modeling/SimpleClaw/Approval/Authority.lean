import Mathlib.Data.List.Nodup
import SimpleClaw.Approval.Registry

/-!
# Who may decide a request

An approval is an authority: the requester alone may give it, once, and when the request is
over nothing is left that could still be answered.  `request_approval` takes its entry out of
the map at the end of `wait_for_decision`; but when the channel fails to send the message with
the buttons, it returns the error before it gets there, and the entry stays.

* `Registry.Authorized`: the property of one state.
* `Registry.KeepsAuthority`: a step does not return the send's error while the entry is in the
  map, and draws no id that was drawn before.
* `Registry.Governed.step`: such a step keeps the invariant that carries the property.
* `authorized_of_keepsAuthority`: so the property holds along every run of such steps.
-/

namespace SimpleClaw
namespace Approval

open Transition Table

/-- `request_approval` has returned, with a decision or with the error of the send. -/
def RequestPhase.hasReturned : RequestPhase → Bool
  | .returned _ | .sendFailed => true
  | .allocated | .registered | .waiting | .decided _ => false

/-- **Authority.**  An id is resolved once at most, and by its requester; a call is approved
only by that resolution; and a call that has returned is not in the map. -/
structure Registry.Authorized (s : Registry) : Prop where
  once : (s.resolved.map Resolved.approvalId).Nodup
  byRequester : ∀ r ∈ s.resolved, ∃ call, s.calls[r.call]? = some call ∧
    call.routed.approvalId = r.approvalId ∧ call.routed.requestingUserId = r.userId
  approved : ∀ (c : Nat) (call : RequestCall), s.calls[c]? = some call →
    call.phase.decision = some .approved →
      ∃ r ∈ s.resolved, r.approvalId = call.routed.approvalId ∧
        r.userId = call.routed.requestingUserId ∧ r.decision = .approved
  unlisted : ∀ (c : Nat) (call : RequestCall), s.calls[c]? = some call →
    call.phase.hasReturned = true → s.pending call.routed.approvalId = none

/-- The step returns no send's error while the entry is in the map, and draws an id only while
there are fresh ones. -/
def Registry.KeepsAuthority (s : Registry) (a : Action) : Prop :=
  (∀ (c : Nat) (call : RequestCall), a = .messageFailed c → s.calls[c]? = some call →
    s.pending call.routed.approvalId = none) ∧
  ∀ request, a = .fetchId request → s.requests.length < 2 ^ 64

/-! ## The invariant -/

/-- What carries the authority along a run: the channels hold what was resolved and nothing
else, and the calls that failed to send are out of the map. -/
structure Registry.Governed (s : Registry) : Prop where
  consistent : s.Consistent
  numbered : s.Numbered
  few : s.requests.length ≤ 2 ^ 64
  distinct : (s.resolved.map Resolved.call).Nodup
  recorded : ∀ r ∈ s.resolved, ∃ call, s.calls[r.call]? = some call ∧
    call.routed.approvalId = r.approvalId ∧ call.routed.requestingUserId = r.userId
  sent : ∀ (c : Nat) (call : RequestCall) (decision : ApprovalDecision),
    s.calls[c]? = some call → call.channel = .sent decision →
      ∃ r ∈ s.resolved, r.call = c ∧ r.decision = decision
  approved : ∀ (c : Nat) (call : RequestCall), s.calls[c]? = some call →
    call.phase.decision = some .approved → call.channel = .sent .approved
  failed : ∀ (c : Nat) (call : RequestCall), s.calls[c]? = some call →
    call.phase = .sendFailed → s.pending call.routed.approvalId = none

theorem Registry.governed_new : Registry.new.Governed where
  consistent := Registry.consistent_new
  numbered := Registry.numbered_new
  few := by simp [Registry.requests, Registry.new]
  distinct := List.nodup_nil
  recorded := fun _ h => by cases h
  sent := fun _ _ _ h => by cases h
  approved := fun _ _ h => by cases h
  failed := fun _ _ h => by cases h

theorem Registry.requests_getElem? {s : Registry} {c : Nat} {call : RequestCall}
    (h : s.calls[c]? = some call) : s.requests[c]? = some call.routed := by
  rw [Registry.requests, List.getElem?_map, h, Option.map_some]

namespace Registry.Governed

variable {s : Registry} (hs : s.Governed)
include hs

/-- The id of a call is its own. -/
theorem index_unique {c c' : Nat} {call call' : RequestCall} (h : s.calls[c]? = some call)
    (h' : s.calls[c']? = some call') (hid : call.routed.approvalId = call'.routed.approvalId) :
    c = c' :=
  hs.numbered.index_unique hs.few (Registry.requests_getElem? h) (Registry.requests_getElem? h')
    hid

/-- An entry of the map belongs to the call with its id. -/
theorem owner_unique {c : Nat} {call : RequestCall} (h : s.calls[c]? = some call)
    {entry : PendingApproval} (hentry : s.pending call.routed.approvalId = some entry) :
    call.channel = .waiting ∧ call.phase.listed = true := by
  obtain ⟨c', call', -, hcall', -, hid, hchannel, hlisted⟩ :=
    hs.consistent.entries _ entry hentry
  obtain rfl : c' = c := hs.index_unique hcall' h hid
  rw [h] at hcall'
  cases hcall'
  exact ⟨hchannel, hlisted⟩

/-- **The invariant gives the authority.** -/
theorem authorized : s.Authorized where
  once := by
    refine List.Nodup.map_on ?_ (List.Nodup.of_map Resolved.call hs.distinct)
    intro r hr r' hr' hid
    obtain ⟨call, hcall, happroval, -⟩ := hs.recorded r hr
    obtain ⟨call', hcall', happroval', -⟩ := hs.recorded r' hr'
    have hindex : r.call = r'.call :=
      hs.index_unique hcall hcall' (happroval.trans (Eq.trans hid happroval'.symm))
    exact List.inj_on_of_nodup_map hs.distinct hr hr' hindex
  byRequester := hs.recorded
  approved := by
    intro c call hcall hdecision
    obtain ⟨r, hr, rfl, happroved⟩ :=
      hs.sent c call .approved hcall (hs.approved c call hcall hdecision)
    obtain ⟨call', hcall', hid, huser⟩ := hs.recorded r hr
    rw [hcall] at hcall'
    cases hcall'
    exact ⟨r, hr, hid.symm, huser.symm, happroved⟩
  unlisted := by
    intro c call hcall hreturned
    cases hpending : s.pending call.routed.approvalId with
    | none => rfl
    | some entry =>
        have hlisted := (hs.owner_unique hcall hpending).2
        cases hphase : call.phase with
        | sendFailed => rw [hs.failed c call hcall hphase] at hpending; cases hpending
        | returned decision => rw [hphase] at hlisted; cases hlisted
        | allocated => rw [hphase] at hreturned; cases hreturned
        | registered => rw [hphase] at hreturned; cases hreturned
        | waiting => rw [hphase] at hreturned; cases hreturned
        | decided decision => rw [hphase] at hreturned; cases hreturned

end Registry.Governed

/-! ## Steps keep the invariant -/

section Calls

variable {calls : List RequestCall} {i : Nat} {old call : RequestCall}
  {entry : Option PendingApproval} {outcome : Channel}

/-- What an entry that leaves the map does to the calls: nothing, except that the channel of
one that had not settled may settle. -/
theorem cases_of_settleEntry (h : (settleEntry calls entry outcome)[i]? = some call) :
    ∃ old, calls[i]? = some old ∧ call.routed = old.routed ∧ call.phase = old.phase ∧
      (call.channel = old.channel ∨ old.channel = .waiting ∧ call.channel = outcome) := by
  obtain ⟨old, hold, hrouted, hphase, hchannel⟩ := of_settleEntry_getElem? h
  refine ⟨old, hold, hrouted, hphase, ?_⟩
  rcases hchannel with hsame | ⟨hwaiting, houtcome, -⟩
  · exact .inl hsame
  · exact .inr ⟨hwaiting, houtcome⟩

/-- Every call is still there. -/
theorem exists_settleEntry (h : calls[i]? = some old) (entry : Option PendingApproval)
    (outcome : Channel) : ∃ call, (settleEntry calls entry outcome)[i]? = some call ∧
      call.routed = old.routed := by
  unfold settleEntry
  split
  · rename_i request c
    obtain ⟨call, hcall, hrouted, -⟩ := settle_getElem? h c outcome
    exact ⟨call, hcall, hrouted⟩
  · exact ⟨old, h, rfl⟩

/-- Every call is still there when one of them has changed, with its request. -/
theorem exists_set {c : Nat} {was new : RequestCall} (hc : calls[c]? = some was)
    (hrouted : new.routed = was.routed) (h : calls[i]? = some old) :
    ∃ call, (calls.set c new)[i]? = some call ∧ call.routed = old.routed := by
  by_cases hci : c = i
  · subst hci
    obtain rfl := Option.some.inj (hc.symm.trans h)
    exact ⟨new, getElem?_set_self_of_getElem? hc, hrouted⟩
  · exact ⟨old, getElem?_set_of_getElem? h hci, rfl⟩

end Calls

/-- A step that resolves nothing: the requests stay, no channel is sent anything, and a call is
approved only out of its channel. -/
structure Quiet (s s' : Registry) : Prop where
  resolved : s'.resolved = s.resolved
  kept : ∀ (i : Nat) (old : RequestCall), s.calls[i]? = some old →
    ∃ call, s'.calls[i]? = some call ∧ call.routed = old.routed
  calls : ∀ (i : Nat) (call : RequestCall), s'.calls[i]? = some call →
    (call.channel = .waiting ∧ call.phase = .allocated) ∨ ∃ old, s.calls[i]? = some old ∧
      (call.channel = old.channel ∨ old.channel = .waiting ∧ call.channel = .closed) ∧
      (call.phase.decision = some .approved →
        old.phase.decision = some .approved ∨ old.channel = .sent .approved)

/-- Only a `resolve` is no quiet step. -/
theorem quiet_of_step {s s' : Registry} {a : Action} (hs : s.Consistent) (h : Step s a s')
    (ha : ∀ approvalId userId decision, a ≠ .resolve approvalId userId decision) :
    Quiet s s' := by
  cases h with
  | fetchId request =>
      refine ⟨rfl, fun i old hold => ⟨old, getElem?_append_of_getElem? hold _, rfl⟩, ?_⟩
      intro i call hcall
      rcases getElem?_append_singleton_cases hcall with hcall | ⟨-, rfl⟩
      · exact .inr ⟨call, hcall, .inl rfl, .inl⟩
      · exact .inl ⟨rfl, rfl⟩
  | @inserted c routed channel hnew =>
      have hc : (settleEntry s.calls (s.pending routed.approvalId) .closed)[c]? =
          some ⟨routed, channel, .allocated⟩ :=
        settleEntry_getElem? hnew (.inl (hs.not_responseTx_of_not_listed hnew rfl)) _
      refine ⟨rfl, fun i old hold => ?_, fun i call hcall => ?_⟩
      · obtain ⟨between, hbetween, hrouted⟩ := exists_settleEntry hold
          (s.pending routed.approvalId) .closed
        obtain ⟨call, hcall, hrouted'⟩ := exists_set hc
          (show RequestCall.routed ⟨routed, channel, .registered⟩ = routed from rfl) hbetween
        exact ⟨call, hcall, hrouted'.trans hrouted⟩
      · rcases getElem?_set_cases hcall with ⟨rfl, rfl⟩ | ⟨-, hcall⟩
        · exact .inr ⟨_, hnew, .inl rfl, nofun⟩
        · obtain ⟨old, hold, -, hphase, hchannel⟩ := cases_of_settleEntry hcall
          exact .inr ⟨old, hold, hchannel, fun hdecision => .inl (hphase ▸ hdecision)⟩
  | @moved a c routed channel phase phase' hold hmoves _ =>
      refine ⟨rfl, fun i old hi => exists_set hold rfl hi, fun i call hcall => ?_⟩
      rcases getElem?_set_cases hcall with ⟨rfl, rfl⟩ | ⟨-, hcall⟩
      · refine .inr ⟨_, hold, .inl rfl, fun hdecision => .inr ?_⟩
        cases hmoves with
        | messageSent => cases hdecision
        | messageFailed => cases hdecision
        | decisionReceived hsent =>
            obtain rfl := Option.some.inj hdecision
            exact hsent
        | senderDropped _ => cases hdecision
        | timeoutElapsed _ => cases hdecision
      · exact .inr ⟨call, hcall, .inl rfl, .inl⟩
  | @cleaned c routed channel decision hold =>
      refine ⟨rfl, fun i old hi => ?_, fun i call hcall => ?_⟩
      · obtain ⟨between, hbetween, hrouted⟩ : ∃ between, (s.calls.set c
            ⟨routed, channel, .returned decision⟩)[i]? = some between ∧
              between.routed = old.routed := exists_set hold rfl hi
        obtain ⟨call, hcall, hrouted'⟩ := exists_settleEntry hbetween
          (s.pending routed.approvalId) .closed
        exact ⟨call, hcall, hrouted'.trans hrouted⟩
      · obtain ⟨between, hbetween, -, hphase, hchannel⟩ := cases_of_settleEntry hcall
        rcases getElem?_set_cases hbetween with ⟨rfl, rfl⟩ | ⟨-, hbetween⟩
        · refine .inr ⟨_, hold, hchannel, fun hdecision => .inl ?_⟩
          rw [hphase] at hdecision
          exact hdecision
        · exact .inr ⟨between, hbetween, hchannel, fun hdecision => .inl (hphase ▸ hdecision)⟩
  | rejected _ => exact absurd rfl (ha _ _ _)
  | resolved _ _ => exact absurd rfl (ha _ _ _)

/-- An entry of the map was there before the step, unless a call has just been inserted. -/
theorem pending_of_step {s s' : Registry} {a : Action} {id : Text} {entry : PendingApproval}
    (h : Step s a s') (hentry : s'.pending id = some entry) : s.pending id = some entry ∨
      ∃ (c : Nat) (call : RequestCall), s.calls[c]? = some call ∧ call.phase = .allocated ∧
        call.routed.approvalId = id := by
  cases h with
  | fetchId request => exact .inl hentry
  | inserted hnew =>
      rcases update_some_cases hentry with ⟨rfl, -⟩ | ⟨-, hentry⟩
      · exact .inr ⟨_, _, hnew, rfl, rfl⟩
      · exact .inl hentry
  | moved _ _ _ => exact .inl hentry
  | cleaned _ => exact .inl (update_none_cases hentry).2
  | rejected _ => exact .inl hentry
  | @resolved approvalId userId decision old hold huser =>
      refine .inl ?_
      unfold Registry.resolve at hentry
      simp only [hold, huser, ne_eq, not_true_eq_false, if_false] at hentry
      split at hentry
      · exact (update_none_cases hentry).2
      · exact (update_none_cases hentry).2

/-- A call that has failed to send had failed before, or fails now. -/
theorem failed_of_step {s s' : Registry} {a : Action} (hs : s.Consistent) {i : Nat}
    {call : RequestCall} (h : s.step a = some s') (hcall : s'.calls[i]? = some call)
    (hfailed : call.phase = .sendFailed) :
    ∃ old, s.calls[i]? = some old ∧ old.routed = call.routed ∧
      (old.phase = .sendFailed ∨ old.phase = .registered ∧ a = .messageFailed i) := by
  -- the call's phase only changes where the action says so
  have hadvance : ∀ {c : Nat} {next : RequestCall → Option RequestPhase},
      s.advance c next = some s' →
      (∀ old phase, next old = some phase → phase = .sendFailed →
        old.phase = .registered ∧ a = .messageFailed c) →
      ∃ old, s.calls[i]? = some old ∧ old.routed = call.routed ∧
        (old.phase = .sendFailed ∨ old.phase = .registered ∧ a = .messageFailed i) := by
    intro c next hnext hfails
    obtain ⟨routed, channel, phase, phase', hold, hphase, rfl⟩ := Registry.advance_spec hnext
    rcases getElem?_set_cases hcall with ⟨rfl, rfl⟩ | ⟨-, hcall⟩
    · exact ⟨_, hold, rfl, .inr (hfails _ _ hphase hfailed)⟩
    · exact ⟨call, hcall, rfl, .inl hfailed⟩
  cases a with
  | fetchId request =>
      cases h
      rcases getElem?_append_singleton_cases hcall with hcall | ⟨-, rfl⟩
      · exact ⟨call, hcall, rfl, .inl hfailed⟩
      · cases hfailed
  | insert c =>
      simp only [Registry.step, Registry.insert] at h
      split at h
      · cases h
        rcases getElem?_set_cases hcall with ⟨-, rfl⟩ | ⟨-, hcall⟩
        · cases hfailed
        · obtain ⟨old, hold, hrouted, hphase, -⟩ := cases_of_settleEntry hcall
          exact ⟨old, hold, hrouted.symm, .inl (hphase.symm.trans hfailed)⟩
      · cases h
  | messageSent c =>
      refine hadvance h fun old phase hnext hphase => ?_
      split at hnext
      · rw [hphase] at hnext; cases hnext
      · cases hnext
  | messageFailed c =>
      refine hadvance h fun old phase hnext _ => ?_
      split at hnext
      · exact ⟨‹_›, rfl⟩
      · cases hnext
  | decisionReceived c =>
      refine hadvance h fun old phase hnext hphase => ?_
      split at hnext
      · rw [hphase] at hnext; cases hnext
      · cases hnext
  | senderDropped c =>
      refine hadvance h fun old phase hnext hphase => ?_
      split at hnext
      · rw [hphase] at hnext; cases hnext
      · cases hnext
  | timeoutElapsed c =>
      refine hadvance h fun old phase hnext hphase => ?_
      split at hnext
      · rw [hphase] at hnext; cases hnext
      · cases hnext
  | cleanup c =>
      simp only [Registry.step, Registry.cleanup] at h
      split at h
      · cases h
        obtain ⟨between, hbetween, hrouted, hphase, -⟩ := cases_of_settleEntry hcall
        rcases getElem?_set_cases hbetween with ⟨-, rfl⟩ | ⟨-, hbetween⟩
        · rw [hphase] at hfailed; cases hfailed
        · exact ⟨between, hbetween, hrouted.symm, .inl (hphase.symm.trans hfailed)⟩
      · cases h
  | resolve approvalId userId decision =>
      cases Registry.step_spec h with
      | moved _ _ ha => exact absurd rfl (ha _ _ _)
      | rejected _ => exact ⟨call, hcall, rfl, .inl hfailed⟩
      | resolved hentry huser =>
          obtain ⟨c, owner, hown, heq⟩ := hs.resolve_eq decision hentry huser
          rw [heq] at hcall
          rcases getElem?_set_cases hcall with ⟨rfl, rfl⟩ | ⟨-, hcall⟩
          · exact ⟨owner, hown.2.1, rfl, .inl hfailed⟩
          · exact ⟨call, hcall, rfl, .inl hfailed⟩

namespace Registry.Governed

variable {s s' : Registry} {a : Action} (hs : s.Governed)
include hs

/-- Ids stay few. -/
theorem few_step (hC : s.KeepsAuthority a) (h : Step s a s') : s'.requests.length ≤ 2 ^ 64 := by
  rcases s.requests_step hs.consistent h with ⟨hrequests, -⟩ | ⟨request, rfl, rfl⟩
  · rw [hrequests]
    exact hs.few
  · have hfew := hC.2 request rfl
    rw [Registry.requests, Registry.fetchId, List.map_append, List.length_append]
    exact Nat.succ_le_of_lt hfew

/-- A call that failed to send is not in the map. -/
theorem failed_step (hC : s.KeepsAuthority a) (h : s.step a = some s') {c : Nat}
    {call : RequestCall} (hcall : s'.calls[c]? = some call) (hfailed : call.phase = .sendFailed) :
    s'.pending call.routed.approvalId = none := by
  obtain ⟨old, hold, hrouted, hphase⟩ := failed_of_step hs.consistent h hcall hfailed
  have hnone : s.pending old.routed.approvalId = none := by
    rcases hphase with hphase | ⟨-, ha⟩
    · exact hs.failed c old hold hphase
    · exact hC.1 c old ha hold
  rw [← hrouted]
  cases hpending : s'.pending old.routed.approvalId with
  | none => rfl
  | some entry =>
      rcases pending_of_step (Registry.step_spec h) hpending with hthere | hinserted
      · rw [hnone] at hthere
        cases hthere
      · obtain ⟨c', call', hcall', hallocated, hid⟩ := hinserted
        obtain rfl : c' = c := hs.index_unique hcall' hold hid
        rw [hold] at hcall'
        cases hcall'
        rcases hphase with hphase | ⟨hphase, -⟩
        · rw [hphase] at hallocated; cases hallocated
        · rw [hphase] at hallocated; cases hallocated

/-- A quiet step keeps what the invariant says about channels and resolutions. -/
theorem of_quiet (hquiet : Quiet s s') (hconsistent : s'.Consistent) (hnumbered : s'.Numbered)
    (hfew : s'.requests.length ≤ 2 ^ 64)
    (hfailed : ∀ (c : Nat) (call : RequestCall), s'.calls[c]? = some call →
      call.phase = .sendFailed → s'.pending call.routed.approvalId = none) : s'.Governed where
  consistent := hconsistent
  numbered := hnumbered
  few := hfew
  distinct := by
    rw [hquiet.resolved]
    exact hs.distinct
  recorded := by
    rw [hquiet.resolved]
    intro r hr
    obtain ⟨old, hold, hid, huser⟩ := hs.recorded r hr
    obtain ⟨call, hcall, hrouted⟩ := hquiet.kept r.call old hold
    exact ⟨call, hcall, by rw [hrouted]; exact hid, by rw [hrouted]; exact huser⟩
  sent := by
    rw [hquiet.resolved]
    intro c call decision hcall hsent
    rcases hquiet.calls c call hcall with ⟨hwaiting, -⟩ | ⟨old, hold, hchannel, -⟩
    · rw [hwaiting] at hsent; cases hsent
    · rcases hchannel with hchannel | ⟨-, hclosed⟩
      · exact hs.sent c old decision hold (hchannel.symm.trans hsent)
      · rw [hclosed] at hsent; cases hsent
  approved := by
    intro c call hcall hdecision
    rcases hquiet.calls c call hcall with ⟨-, hphase⟩ | ⟨old, hold, hchannel, happroved⟩
    · rw [hphase] at hdecision; cases hdecision
    · have hsent : old.channel = .sent .approved := by
        rcases happroved hdecision with hdecision | hsent
        · exact hs.approved c old hold hdecision
        · exact hsent
      rcases hchannel with hchannel | ⟨hwaiting, -⟩
      · exact hchannel.trans hsent
      · rw [hsent] at hwaiting; cases hwaiting
  failed := hfailed

/-- A resolution is the first of its call: it takes an entry whose channel has not settled. -/
theorem of_resolved {approvalId userId : Text} {decision : ApprovalDecision}
    {entry : PendingApproval} (hentry : s.pending approvalId = some entry)
    (huser : entry.request.requestingUserId = userId)
    (hconsistent : (s.resolve approvalId userId decision).2.Consistent)
    (hnumbered : (s.resolve approvalId userId decision).2.Numbered)
    (hfew : (s.resolve approvalId userId decision).2.requests.length ≤ 2 ^ 64)
    (hfailed : ∀ (c : Nat) (call : RequestCall),
      (s.resolve approvalId userId decision).2.calls[c]? = some call →
      call.phase = .sendFailed →
      (s.resolve approvalId userId decision).2.pending call.routed.approvalId = none) :
    (s.resolve approvalId userId decision).2.Governed := by
  obtain ⟨c, call, hown, heq⟩ := hs.consistent.resolve_eq decision hentry huser
  obtain ⟨-, hcall, hrouted, hid, hchannel, -⟩ := hown
  have hself : (s.calls.set c { call with channel := .sent decision })[c]? =
      some { call with channel := .sent decision } := getElem?_set_self_of_getElem? hcall
  refine ⟨hconsistent, hnumbered, hfew, ?_, ?_, ?_, ?_, hfailed⟩
  · rw [heq]
    simp only [List.map_append, List.map_cons, List.map_nil]
    refine List.Nodup.append hs.distinct (List.nodup_singleton _) ?_
    intro c' hmem hc'
    obtain rfl := List.mem_singleton.mp hc'
    -- the channel of a call that was resolved has settled
    obtain ⟨r, hr, rfl⟩ := List.mem_map.mp hmem
    obtain ⟨call', hcall', hsent⟩ := hs.consistent.sends r hr
    rw [hcall] at hcall'
    cases hcall'
    rw [hchannel] at hsent
    cases hsent
  · rw [heq]
    refine forall_mem_append (fun r hr => ?_)
      ⟨_, hself, hid, (congrArg PendingApprovalRequest.requestingUserId hrouted).trans huser⟩
    obtain ⟨old, hold, happroval, huser'⟩ := hs.recorded r hr
    by_cases hc : c = r.call
    · subst hc
      rw [hcall] at hold
      cases hold
      exact ⟨_, hself, happroval, huser'⟩
    · exact ⟨old, getElem?_set_of_getElem? hold hc, happroval, huser'⟩
  · rw [heq]
    intro c' call' decision' hcall' hsent
    rcases getElem?_set_cases hcall' with ⟨rfl, rfl⟩ | ⟨-, hcall'⟩
    · cases hsent
      exact ⟨_, List.mem_append_right _ (List.mem_singleton_self _), rfl, rfl⟩
    · obtain ⟨r, hr, hrcall, hrdecision⟩ := hs.sent c' call' decision' hcall' hsent
      exact ⟨r, List.mem_append_left _ hr, hrcall, hrdecision⟩
  · rw [heq]
    intro c' call' hcall' hdecision
    rcases getElem?_set_cases hcall' with ⟨rfl, rfl⟩ | ⟨-, hcall'⟩
    · -- it was approved before, so its channel had settled
      have hsent := hs.approved c call hcall hdecision
      rw [hchannel] at hsent
      cases hsent
    · exact hs.approved c' call' hcall' hdecision

/-- **A step that keeps the authority keeps the invariant.** -/
theorem step (hC : s.KeepsAuthority a) (h : s.step a = some s') : s'.Governed := by
  have hstep : Step s a s' := Registry.step_spec h
  have hconsistent : s'.Consistent := hs.consistent.step hstep
  have hnumbered : s'.Numbered := hs.numbered.step hs.consistent hstep
  have hfew := hs.few_step hC hstep
  have hfailed : ∀ (c : Nat) (call : RequestCall), s'.calls[c]? = some call →
      call.phase = .sendFailed → s'.pending call.routed.approvalId = none :=
    fun c call => hs.failed_step hC h
  by_cases ha : ∀ approvalId userId decision, a ≠ .resolve approvalId userId decision
  · exact hs.of_quiet (quiet_of_step hs.consistent hstep ha) hconsistent hnumbered hfew hfailed
  · push Not at ha
    obtain ⟨approvalId, userId, decision, rfl⟩ := ha
    cases hstep with
    | moved _ _ ha => exact absurd rfl (ha _ _ _)
    | rejected _ => exact hs
    | resolved hentry huser => exact hs.of_resolved hentry huser hconsistent hnumbered hfew hfailed

end Registry.Governed

/-! ## Whole runs -/

/-- **In a run in which no send of an approval message fails while its entry is in the map, and
no id is drawn twice, the requester alone decides, once, and no call that has returned is left
in the map.** -/
theorem authorized_of_keepsAuthority {tr : List (Action × Registry)}
    (hrun : Run Registry.step Registry.new tr)
    (hC : Run.StepsMeet Registry.KeepsAuthority Registry.new tr) :
    ∀ x ∈ tr, x.2.Authorized := by
  intro x hx
  have hgoverned := Run.invariant_of_stepsMeet (J := Registry.Governed)
    (fun _ _ _ hs hC h => hs.step hC h) hrun Registry.governed_new hC
  exact (hgoverned x hx).authorized

/-- `KeepsAuthority`, computed. -/
def Registry.keepsAuthority (s : Registry) : Action → Bool
  | .messageFailed c =>
      match s.calls[c]? with
      | some call => (s.pending call.routed.approvalId).isNone
      | none => true
  | .fetchId _ => s.requests.length < 2 ^ 64
  | _ => true

theorem keepsAuthority_of_check (s : Registry) (a : Action) (h : s.keepsAuthority a = true) :
    s.KeepsAuthority a := by
  constructor
  · rintro c call rfl hcall
    simp only [Registry.keepsAuthority, hcall] at h
    exact Option.isNone_iff_eq_none.mp h
  · rintro request rfl
    exact of_decide_eq_true h

/-- Two requests wait at once, another user tries to approve the first, its requester does,
and the second one's send fails after its requester has already denied it. -/
def approvedAndDenied : List Action :=
  [.fetchId testRequest, .insert 0, .fetchId testRequest, .messageSent 0, .insert 1,
    .resolve "approval-1" "user-2" .approved, .resolve "approval-1" "user-1" .approved,
    .resolve "approval-2" "user-1" .denied, .decisionReceived 0, .messageFailed 1, .cleanup 0]

theorem authorized_approvedAndDenied : ∃ tr, exec Registry.step Registry.new approvedAndDenied =
    some tr ∧ ∀ x ∈ tr, x.2.Authorized := by
  obtain ⟨tr, htr, hrun, hC⟩ :=
    exists_guarded_run_of_exec Registry.step Registry.new approvedAndDenied
      keepsAuthority_of_check (by decide)
  exact ⟨tr, htr, authorized_of_keepsAuthority hrun hC⟩

/-- The channel cannot send the approval message. -/
def unsentMessage : List Action := [.fetchId testRequest, .insert 0, .messageFailed 0]

/-- Some call has returned and left its entry in the map. -/
def Registry.leaves (s : Registry) : Bool :=
  s.calls.any fun call =>
    call.phase.hasReturned && (s.pending call.routed.approvalId).isSome

theorem unsentMessage_left_in_map :
    ¬ ∀ tr, Run Registry.step Registry.new tr → ∀ x ∈ tr, x.2.Authorized := by
  intro hall
  obtain ⟨tr, hrun, x, hx, hleaves⟩ :=
    exists_run_of_exec Registry.step Registry.new unsentMessage Registry.leaves (by decide)
  obtain ⟨call, hcall, hleft⟩ := List.any_eq_true.mp hleaves
  obtain ⟨hreturned, hpending⟩ := Bool.and_eq_true_iff.mp hleft
  obtain ⟨c, hc⟩ := List.mem_iff_getElem?.mp hcall
  rw [(hall tr hrun x hx).unlisted c call hc hreturned] at hpending
  cases hpending

end Approval
end SimpleClaw
