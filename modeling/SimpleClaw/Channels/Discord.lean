import SimpleClaw.Approval.Registry

/-!
# Approval messages on Discord

The part of `channels/discord.rs` that shows an approval request to the user: the text of
the message, the custom ids of its two buttons, and what a click on one of them leads to.

* `parseApprovalCustomId_approvalCustomId`: the id a button carries is the one its click is
  read as, for every approval id without a colon.
* `colon_notMem_approvalIdOf`: the ids the registry hands out have none.
-/

namespace SimpleClaw
namespace Channels

open Approval

/-! ## The message -/

/-- A mention for a numeric user id, the id itself otherwise. -/
def formatDiscordUser (userId : Text) : Text :=
  if userId.all (fun c => c.isDigit) then ("<@" : Text) ++ userId ++ (">" : Text) else userId

def renderApprovalRequest (request : PendingApprovalRequest) : Text :=
  ("**Approval required**\n" : Text) ++ request.agentName ++ (" wants to run `" : Text) ++
    request.toolName ++ ("` outside the sandbox.\n\nRequested by: " : Text) ++
    formatDiscordUser request.requestingUserId ++ ("\nAction: `" : Text) ++
    request.actionSummary ++ ("`\nWhy: " : Text) ++ request.reason

def renderResolvedApprovalRequest (_request : PendingApprovalRequest) : Text :=
  "**Approval request closed**"

/-! ## The buttons -/

inductive Button where
  | approve
  | deny
  deriving DecidableEq

def Button.text : Button → Text
  | .approve => "approve"
  | .deny => "deny"

def Button.decision : Button → ApprovalDecision
  | .approve => .approved
  | .deny => .denied

/-- The custom id of a button of `send_approval_request`. -/
def approvalCustomId (approvalId : Text) (button : Button) : Text :=
  ("simpleclaw:approval:" : Text) ++ approvalId ++ (":" : Text) ++ button.text

def parseApprovalCustomId (customId : Text) : Option (Text × ApprovalDecision) :=
  match customId.splitOn ':' with
  | [tag, kind, approvalId, decision] =>
      if tag ≠ ("simpleclaw" : Text) ∨ kind ≠ ("approval" : Text) then none
      else if decision = ("approve" : Text) then some (approvalId, .approved)
      else if decision = ("deny" : Text) then some (approvalId, .denied)
      else none
  | _ => none

theorem joinWith_four (sep : Char) (p q r t : Text) : Text.joinWith sep [p, q, r, t] =
    p ++ sep :: (q ++ [sep]) ++ r ++ [sep] ++ t := by
  simp

/-- **A button's custom id is read as its approval id and its decision.** -/
theorem parseApprovalCustomId_approvalCustomId {approvalId : Text} (button : Button)
    (hcolon : ':' ∉ approvalId) :
    parseApprovalCustomId (approvalCustomId approvalId button) =
      some (approvalId, button.decision) := by
  have hjoin : approvalCustomId approvalId button =
      Text.joinWith ':' [("simpleclaw" : Text), ("approval" : Text), approvalId, button.text] := by
    have hprefix : ("simpleclaw:approval:" : Text) =
        ("simpleclaw" : Text) ++ ':' :: (("approval" : Text) ++ [':']) := by decide
    have hcolon : (":" : Text) = [':'] := by decide
    calc approvalCustomId approvalId button
        = ("simpleclaw" : Text) ++ ':' :: (("approval" : Text) ++ [':']) ++ approvalId ++ [':'] ++
            button.text :=
          congrArg₂ (fun t sep => t ++ approvalId ++ sep ++ button.text) hprefix hcolon
      _ = _ := (joinWith_four _ _ _ _ _).symm
  have hsep : ∀ p ∈ [("simpleclaw" : Text), ("approval" : Text), approvalId, button.text],
      ':' ∉ p := by
    have hbutton : ':' ∉ button.text := by cases button <;> decide
    intro p hp
    simp only [List.mem_cons, List.not_mem_nil, or_false] at hp
    rcases hp with rfl | rfl | rfl | rfl
    · decide
    · decide
    · exact hcolon
    · exact hbutton
  have hsplit : (approvalCustomId approvalId button).splitOn ':' =
      [("simpleclaw" : Text), ("approval" : Text), approvalId, button.text] := by
    rw [hjoin]
    exact Text.splitOn_joinWith hsep (by simp)
  unfold parseApprovalCustomId
  rw [hsplit]
  show (if _ then _ else _) = _
  rw [if_neg (by decide)]
  cases button with
  | approve => exact if_pos rfl
  | deny => rw [if_neg (by decide), if_pos (by decide)]; rfl

theorem colon_notMem_approvalIdOf (n : UInt64) : ':' ∉ approvalIdOf n := by
  unfold approvalIdOf
  rw [List.mem_append, not_or]
  exact ⟨by decide, Text.notMem_decimal (by decide) _⟩

/-! ## A click -/

/-- A decision on its way from the click handler to the registry. -/
structure ApprovalResolution where
  approvalId : Text
  decision : ApprovalDecision
  channelId : Text
  userId : Text
  deriving DecidableEq

inductive ApprovalInteractionResult where
  | inactive (message : Text)
  | unauthorized (message approvalId channelId userId : Text)
  | authorized (resolution : ApprovalResolution) (renderedMessage : Text)
  deriving DecidableEq

def evaluateApprovalInteraction (pending : Option PendingApprovalRequest)
    (actorUserId channelId approvalId : Text) (decision : ApprovalDecision) :
    ApprovalInteractionResult :=
  match pending with
  | none => .inactive "This approval request expired."
  | some request =>
      if request.requestingUserId ≠ actorUserId then
        .unauthorized "Only the requester can use these buttons." approvalId channelId
          actorUserId
      else
        .authorized ⟨approvalId, decision, channelId, actorUserId⟩
          (renderResolvedApprovalRequest request)

/-- A click is let through only for the user the pending request was raised for, and then
with the id and the decision of the button. -/
theorem evaluateApprovalInteraction_authorized {pending : Option PendingApprovalRequest}
    {actorUserId channelId approvalId rendered : Text} {decision : ApprovalDecision}
    {resolution : ApprovalResolution}
    (h : evaluateApprovalInteraction pending actorUserId channelId approvalId decision =
      .authorized resolution rendered) :
    (∃ request, pending = some request ∧ request.requestingUserId = actorUserId) ∧
      resolution = ⟨approvalId, decision, channelId, actorUserId⟩ := by
  unfold evaluateApprovalInteraction at h
  split at h
  · cases h
  · rename_i request
    split at h
    · cases h
    · rename_i huser
      cases h
      exact ⟨⟨request, rfl, not_not.mp huser⟩, rfl⟩

end Channels
end SimpleClaw
