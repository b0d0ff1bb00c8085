import SimpleClaw.Channels.Discord
import SimpleClaw.Tools.Exec

/-!
# What the approver of a command is shown

A command that needs approval raises a request with one target text, which the channel shows
as the action; once approved, the whole command runs in its working directory.  The target is
the whole command only where a screen on the whole command stopped it, and the directory is
not shown at all.

* `classifyExecCommandAccess_prefixed`: a harmless command put in front of a command that a
  segment stopped changes neither the target nor the reason.
* `informed_iff`: what is shown determines what runs exactly for the commands stopped as a
  whole, on a host where they can run in one directory only.
-/

namespace SimpleClaw
namespace Tools

open Approval Channels

/-! ## The request a call raises -/

/-- The request of `request_tool_escalation`. -/
def toolEscalationRequest (ctx : ToolExecEnv) (sessionId toolName : Text)
    (capability : SandboxCapability) (target reason : Text) : ApprovalRequest where
  agentId := ctx.agentId
  agentName := ctx.agentName
  sessionId := sessionId
  requestingUserId := ctx.userId
  toolName := toolName
  executionKind := "preflight_escalation"
  capability := capability
  reason := reason
  actionSummary := target
  diagnostic := ("preflight escalation required: tool=" : Text) ++ toolName ++
    (" target=" : Text) ++ target

/-- What the approval of a plan is asked with, if it needs approval. -/
def ExecPlan.escalation (plan : ExecPlan) (ctx : ToolExecEnv) (sessionId : Text) :
    Option ApprovalRequest :=
  match plan.route with
  | .sandboxed => none
  | .needsApproval capability target reason =>
      some (toolEscalationRequest ctx sessionId "exec" capability target reason)

/-- What a request shows of itself in the approval message. -/
structure Shown where
  agentName : Text
  toolName : Text
  requester : Text
  actionSummary : Text
  reason : Text
  deriving DecidableEq

def shownBy (request : PendingApprovalRequest) : Shown where
  agentName := request.agentName
  toolName := request.toolName
  requester := formatDiscordUser request.requestingUserId
  actionSummary := request.actionSummary
  reason := request.reason

/-- The message as a function of what it shows. -/
def Shown.render (shown : Shown) : Text :=
  ("**Approval required**\n" : Text) ++ shown.agentName ++ (" wants to run `" : Text) ++
    shown.toolName ++ ("` outside the sandbox.\n\nRequested by: " : Text) ++ shown.requester ++
    ("\nAction: `" : Text) ++ shown.actionSummary ++ ("`\nWhy: " : Text) ++ shown.reason

/-- The message shows nothing else. -/
theorem renderApprovalRequest_eq (request : PendingApprovalRequest) :
    renderApprovalRequest request = (shownBy request).render := rfl

/-! ## Where the target comes from -/

/-- The screens give reasons that begin alike. -/
theorem screenCommand_reason {command : Text} {config : ExecToolConfig}
    {capability : SandboxCapability} {reason : Text}
    (h : screenCommand command config = some (capability, reason)) :
    ("command" : Text) <+: reason := by
  unfold screenCommand at h
  split at h
  · cases h
    decide
  · simp only at h
    split at h
    · cases h
      decide
    · split at h
      · cases h
        decide
      · cases h

/-- An objection to a segment never gives such a reason. -/
theorem SegmentObjection.reason {allowedRoots : List PathBuf} {capability : SandboxCapability}
    {target reason : Text}
    (h : SegmentObjection allowedRoots (.needsApproval capability target reason)) :
    ¬ ("command" : Text) <+: reason := by
  cases h with
  | glob => decide
  | outside =>
      intro hprefix
      have hhead : ('c' : Char) = 'w' := (List.cons_prefix_cons.mp hprefix).1
      exact absurd hhead (by decide)
  | noTarget => decide
  | highRisk _ hrisk =>
      have hname := List.contains_iff_mem.mp hrisk
      simp only [List.mem_cons, List.not_mem_nil, or_false] at hname
      rcases hname with rfl | rfl | rfl | rfl <;> decide

/-- A segment that settles the matter has an objection. -/
theorem classifySegments_objection {host : Host} {workdir : PathBuf} {allowedRoots : List PathBuf}
    {segments : List (List ShellToken)} {capability : SandboxCapability} {target reason : Text}
    (h : classifySegments host workdir allowedRoots segments =
      .ok (.needsApproval capability target reason)) :
    SegmentObjection allowedRoots (.needsApproval capability target reason) := by
  induction segments with
  | nil => cases h
  | cons segment segments ih =>
      rw [classifySegments] at h
      split at h
      · cases h
      · rename_i hroute
        cases h
        exact classifySegmentWriteAccess_objection hroute
      · exact ih h

/-! ## A harmless command in front -/

/-- `true;` in front of a command. -/
def prefixed (command : Text) : Text := ("true;" : Text) ++ command

theorem prefixed_eq (command : Text) : prefixed command = ("true" : Text) ++ ';' :: command := rfl

theorem tokenize_prefixed (command : Text) :
    tokenizeShellCommand (prefixed command) = (tokenizeShellCommand command).map
      fun tokens => ⟨.word, "true"⟩ :: ⟨.operator, ";"⟩ :: tokens := by
  show tokenizeFrom .unquoted [] ('t' :: 'r' :: 'u' :: 'e' :: ';' :: command) = _
  rw [tokenizeFrom_plain [] _ (by decide) (by decide),
    tokenizeFrom_plain _ _ (by decide) (by decide), tokenizeFrom_plain _ _ (by decide) (by decide),
    tokenizeFrom_plain _ _ (by decide) (by decide)]
  exact tokenizeFrom_operator _ _ (by decide) fun _ _ => rfl

theorem splitShellSegments_prefixed (tokens : List ShellToken) :
    splitShellSegments (⟨.word, "true"⟩ :: ⟨.operator, ";"⟩ :: tokens) =
      [⟨.word, "true"⟩] :: splitShellSegments tokens := rfl

theorem trim_prefixed {command : Text} (h : Text.trim command = command) :
    Text.trim (prefixed command) = prefixed command := by
  have hend : Text.trimEnd command = command := by
    rw [← h]
    exact Text.trimEnd_trim command
  rw [prefixed_eq, Text.trim]
  rw [show Text.trimStart (("true" : Text) ++ ';' :: command) = ("true" : Text) ++ ';' :: command
    from Text.trimStart_cons_of_not (by decide), Text.trimEnd_append_cons (by decide), hend]

theorem dynamicShellC_prefixed {command : Text} (h : Text.trim command = command) :
    dynamicShellC (prefixed command) = dynamicShellC command := by
  have hstart : Text.trimStart command = command := by
    rw [← h]
    exact Text.trimStart_trim command
  have hhere : dynamicShellHere (prefixed command) = false := rfl
  have hafter : dynamicShellAfterSeparator (prefixed command) =
      (dynamicShellHere (Text.trimStart command) || dynamicShellAfterSeparator command) := rfl
  rw [dynamicShellC, dynamicShellC, hhere, hafter, hstart, Bool.false_or]

theorem contains_prefixed {command pat : Text} (hsep : ';' ∉ pat)
    (hpat : Text.contains ("true" : Text) pat = false)
    (h : Text.contains (Text.toAsciiLowercase command) pat = false) :
    Text.contains (Text.toAsciiLowercase (prefixed command)) pat = false := by
  by_contra hfound
  have hlower : Text.toAsciiLowercase (prefixed command) =
      ("true" : Text) ++ ';' :: Text.toAsciiLowercase command := rfl
  rw [hlower, Bool.not_eq_false] at hfound
  rcases Text.contains_append_cons hsep hfound with h' | h'
  · rw [hpat] at h'
    exact Bool.false_ne_true h'
  · rw [h] at h'
    exact Bool.false_ne_true h'

/-- It adds no feature the preflight cannot verify. -/
theorem ambiguous_prefixed {command : Text} (htrim : Text.trim command = command)
    (h : commandUsesAmbiguousShellFeatures command = false) :
    commandUsesAmbiguousShellFeatures (prefixed command) = false := by
  unfold commandUsesAmbiguousShellFeatures at h ⊢
  simp only [Bool.or_eq_false_iff] at h ⊢
  obtain ⟨⟨⟨⟨⟨⟨⟨heval, -⟩, hback⟩, hsubst⟩, hin⟩, hout⟩, hhere⟩, hdynamic⟩ := h
  refine ⟨⟨⟨⟨⟨⟨⟨?_, rfl⟩, ?_⟩, ?_⟩, ?_⟩, ?_⟩, ?_⟩, ?_⟩
  · exact contains_prefixed (by decide) (by decide) heval
  · exact contains_prefixed (by decide) (by decide) hback
  · exact contains_prefixed (by decide) (by decide) hsubst
  · exact contains_prefixed (by decide) (by decide) hin
  · exact contains_prefixed (by decide) (by decide) hout
  · exact contains_prefixed (by decide) (by decide) hhere
  · rw [dynamicShellC_prefixed htrim, hdynamic]

/-- No screen stops the longer command if none stops the command. -/
theorem screenCommand_prefixed {command : Text} {config : ExecToolConfig}
    (htrim : Text.trim command = command) (h : screenCommand command config = none) :
    screenCommand (prefixed command) config = none ∧
      ∃ tokens, tokenizeShellCommand command = some tokens := by
  unfold screenCommand at h ⊢
  split at h
  · cases h
  · rename_i hclear
    rw [if_neg (by rw [ambiguous_prefixed htrim (by simpa using hclear)]; simp)]
    cases htokens : tokenizeShellCommand command with
    | none => simp [htokens] at h
    | some tokens =>
        refine ⟨?_, tokens, rfl⟩
        simp only [htokens, Option.getD_some] at h
        rw [tokenize_prefixed, htokens]
        simp only [Option.map_some, Option.getD_some]
        split at h
        · cases h
        · split at h
          · cases h
          · rename_i hnetwork
            rw [if_neg (by simp), if_neg]
            rintro ⟨hdisabled, hany⟩
            refine hnetwork ⟨hdisabled, ?_⟩
            rw [List.any_cons, List.any_cons] at hany
            have htrue : isNetworkTool ("true" : Text) = false := by decide
            have hsemicolon : isNetworkTool (";" : Text) = false := by decide
            simpa only [htrue, hsemicolon, Bool.and_false, Bool.false_or] using hany

theorem classifySegmentWriteAccess_true (host : Host) (workdir : PathBuf)
    (allowedRoots : List PathBuf) :
    classifySegmentWriteAccess host [⟨.word, "true"⟩] workdir allowedRoots = .ok none := rfl

/-- **A harmless command in front of a command that a segment stopped** changes neither the
target nor the reason. -/
theorem classifyExecCommandAccess_prefixed {command : Text} (host : Host) (workdir : PathBuf)
    {config : ExecToolConfig} (htrim : Text.trim command = command)
    (h : screenCommand command config = none) :
    classifyExecCommandAccess host (prefixed command) workdir config =
      classifyExecCommandAccess host command workdir config := by
  obtain ⟨hscreen, tokens, htokens⟩ := screenCommand_prefixed htrim h
  unfold classifyExecCommandAccess
  rw [hscreen, h, tokenize_prefixed, htokens]
  simp only [Option.map_some, Option.getD_some, splitShellSegments_prefixed, classifySegments,
    classifySegmentWriteAccess_true]

/-! ## What the approver knows -/

/-- The two paths are the same directory. -/
def SameDirectory (host : Host) (p q : PathBuf) : Prop :=
  p = q ∨ ∃ real, host.canonicalize p = .ok real ∧ host.canonicalize q = .ok real

/-- Whatever other call raises a request that is shown as this call's is, of whatever agent and
session, the same command runs in the same directory once it is approved. -/
def Informed (host : Host) (ctx : ToolExecEnv) (plan : ExecPlan) : Prop :=
  ∀ (ctx' : ToolExecEnv) (config' : ExecToolConfig) (args' : ExecArgs) (plan' : ExecPlan)
    (sessionId sessionId' approvalId approvalId' : Text) (request request' : ApprovalRequest),
    config'.plan host ctx' args' = .ok plan' →
    plan.escalation ctx sessionId = some request →
    plan'.escalation ctx' sessionId' = some request' →
    shownBy (request.route approvalId) = shownBy (request'.route approvalId') →
    plan.command = plan'.command ∧ SameDirectory host plan.workdir plan'.workdir

/-- The request of a plan that needs approval shows the target and the reason. -/
theorem escalation_eq {plan : ExecPlan} {capability : SandboxCapability} {target reason : Text}
    (h : plan.route = .needsApproval capability target reason) (ctx : ToolExecEnv)
    (sessionId : Text) :
    plan.escalation ctx sessionId =
      some (toolEscalationRequest ctx sessionId "exec" capability target reason) := by
  rw [ExecPlan.escalation, h]

/-- A route of a screen names the whole command. -/
theorem classifyExecCommandAccess_of_screen {host : Host} {command : Text} {workdir : PathBuf}
    {config : ExecToolConfig} {capability : SandboxCapability} {reason : Text}
    (h : screenCommand command config = some (capability, reason)) :
    classifyExecCommandAccess host command workdir config =
      .ok (.needsApproval capability command reason) := by
  rw [classifyExecCommandAccess, h]

/-- A route of a segment has a reason no screen gives. -/
theorem classifyExecCommandAccess_reason {host : Host} {command : Text} {workdir : PathBuf}
    {config : ExecToolConfig} {capability : SandboxCapability} {target reason : Text}
    (hscreen : screenCommand command config = none)
    (h : classifyExecCommandAccess host command workdir config =
      .ok (.needsApproval capability target reason)) : ¬ ("command" : Text) <+: reason := by
  unfold classifyExecCommandAccess at h
  rw [hscreen] at h
  cases hroots : allowedWriteRoots host workdir config with
  | error e =>
      simp only [hroots, bind, Except.bind] at h
      cases h
  | ok allowedRoots =>
      simp only [hroots, bind, Except.bind] at h
      exact (classifySegments_objection h).reason

section Informed

variable {host : Host} {ctx : ToolExecEnv} {config : ExecToolConfig} {args : ExecArgs}
  {plan : ExecPlan}

/-- A command that no screen stops is not shown whole: a harmless command in front of it goes
unnoticed. -/
theorem screened_of_informed (hplan : config.plan host ctx args = .ok plan)
    (hroute : plan.route ≠ .sandboxed) (hinformed : Informed host ctx plan) :
    (screenCommand plan.command config).isSome = true := by
  obtain ⟨hworkdir, hcommand, -, hdir, hclassified⟩ := plan_ok hplan
  have htrim : Text.trim plan.command = plan.command := by
    rw [hcommand, Text.trim, Text.trimStart_trim, Text.trimEnd_trim]
  by_contra hscreen
  have hscreen : screenCommand plan.command config = none := by simpa using hscreen
  have hroute' := classifyExecCommandAccess_prefixed host plan.workdir htrim hscreen
  rw [hclassified, ← trim_prefixed htrim] at hroute'
  have hplan' := plan_eq_ok ctx ⟨prefixed plan.command, false, args.workdir⟩ rfl
    (by rw [trim_prefixed htrim]; exact List.cons_ne_nil _ _) hworkdir hdir hroute'
  have hsame : plan.command = Text.trim (prefixed plan.command) := by
    cases hneeds : plan.route with
    | sandboxed => exact absurd hneeds hroute
    | needsApproval capability target reason =>
        exact (hinformed ctx config _ _ [] [] [] [] _ _ hplan' (escalation_eq hneeds ctx [])
          (escalation_eq hneeds ctx []) rfl).1
  rw [trim_prefixed htrim] at hsame
  have hlength : plan.command.length = 5 + plan.command.length := by
    calc plan.command.length = (prefixed plan.command).length := congrArg List.length hsame
      _ = 5 + plan.command.length := List.length_append
  omega

/-- A request is shown as the request of a stopped command only if it asks for that command. -/
theorem command_eq_of_shownBy {ctx' : ToolExecEnv} {config' : ExecToolConfig} {args' : ExecArgs}
    {plan' : ExecPlan} (hplan' : config'.plan host ctx' args' = .ok plan')
    {capability : SandboxCapability} {reason : Text}
    (hscreen : screenCommand plan.command config = some (capability, reason))
    {sessionId sessionId' approvalId approvalId' : Text} {request' : ApprovalRequest}
    (hrequest' : plan'.escalation ctx' sessionId' = some request')
    (hshown : shownBy ((toolEscalationRequest ctx sessionId "exec" capability plan.command
      reason).route approvalId) = shownBy (request'.route approvalId')) :
    plan.command = plan'.command := by
  obtain ⟨-, -, -, -, hclassified'⟩ := plan_ok hplan'
  cases hneeds' : plan'.route with
  | sandboxed =>
      rw [ExecPlan.escalation, hneeds'] at hrequest'
      cases hrequest'
  | needsApproval capability' target' reason' =>
      rw [escalation_eq hneeds'] at hrequest'
      obtain rfl := Option.some.inj hrequest'
      obtain ⟨-, -, -, htarget, hreason⟩ := Shown.mk.inj hshown
      have htarget : plan.command = target' := htarget
      have hreason : reason = reason' := hreason
      rw [hneeds'] at hclassified'
      cases hscreen' : screenCommand plan'.command config' with
      | none =>
          have hnot := classifyExecCommandAccess_reason hscreen' hclassified'
          rw [← hreason] at hnot
          exact absurd (screenCommand_reason hscreen) hnot
      | some found =>
          obtain ⟨capability'', reason''⟩ := found
          rw [classifyExecCommandAccess_of_screen hscreen'] at hclassified'
          cases hclassified'
          exact htarget

/-- **When the approver knows what will run.**  A command stopped by a screen is shown whole,
one stopped by a segment is not; and the directory is never shown, so it must be the only one
a command can run in. -/
theorem informed_iff (hplan : config.plan host ctx args = .ok plan)
    (hroute : plan.route ≠ .sandboxed) :
    Informed host ctx plan ↔
      (screenCommand plan.command config).isSome = true ∧
        ∀ dir, host.isDir dir = true → SameDirectory host plan.workdir dir := by
  obtain ⟨-, hcommand, hne, hdir, hclassified⟩ := plan_ok hplan
  have htrim : Text.trim plan.command = plan.command := by
    rw [hcommand, Text.trim, Text.trimStart_trim, Text.trimEnd_trim]
  constructor
  · intro hinformed
    have hscreened := screened_of_informed hplan hroute hinformed
    refine ⟨hscreened, fun dir hdir' => ?_⟩
    obtain ⟨⟨capability, reason⟩, hscreen⟩ := Option.isSome_iff_exists.mp hscreened
    -- the same command of an agent whose workspace is the other directory
    have hroute' : classifyExecCommandAccess host (Text.trim plan.command) dir config =
        .ok (.needsApproval capability plan.command reason) := by
      rw [htrim]
      exact classifyExecCommandAccess_of_screen hscreen
    have hplan' := plan_eq_ok { ctx with workspaceRoot := dir }
      ⟨plan.command, false, none⟩ rfl (by rw [htrim]; exact hne) rfl hdir' hroute'
    have hneeds : plan.route = .needsApproval capability plan.command reason := by
      rw [classifyExecCommandAccess_of_screen hscreen] at hclassified
      exact (Except.ok.inj hclassified).symm
    exact (hinformed _ config _ _ [] [] [] [] _ _ hplan' (escalation_eq hneeds ctx []) rfl rfl).2
  · rintro ⟨hscreened, honly⟩ ctx' config' args' plan' sessionId sessionId' approvalId
      approvalId' request request' hplan' hrequest hrequest' hshown
    obtain ⟨⟨capability, reason⟩, hscreen⟩ := Option.isSome_iff_exists.mp hscreened
    have hneeds : plan.route = .needsApproval capability plan.command reason := by
      rw [classifyExecCommandAccess_of_screen hscreen] at hclassified
      exact (Except.ok.inj hclassified).symm
    rw [escalation_eq hneeds] at hrequest
    obtain rfl := Option.some.inj hrequest
    exact ⟨command_eq_of_shownBy hplan' hscreen hrequest' hshown,
      honly plan'.workdir (plan_ok hplan').2.2.2.1⟩

end Informed

/-- On a host whose only directory is the workspace, a network command is shown as it runs. -/
theorem informed_network :
    let host : Host := { openHost with isDir := fun p => p = agentEnv.workspaceRoot }
    let plan : ExecPlan := ⟨"curl example.com", false, 20, [], agentEnv.workspaceRoot,
      .needsApproval .network "curl example.com"
        "command appears to use network tooling outside the default exec sandbox policy"⟩
    ExecToolConfig.plan ⟨none, true, ⟨none, [], []⟩⟩ host agentEnv
        ⟨"curl example.com", false, none⟩ = .ok plan ∧ Informed host agentEnv plan := by
  intro host plan
  have hplan : ExecToolConfig.plan ⟨none, true, ⟨none, [], []⟩⟩ host agentEnv
      ⟨"curl example.com", false, none⟩ = .ok plan := by decide +kernel
  refine ⟨hplan, (informed_iff hplan (by decide)).mpr ⟨by decide +kernel, fun dir hdir => ?_⟩⟩
  exact .inl (of_decide_eq_true hdir).symm

/-- Two commands that write the same file outside are shown alike. -/
theorem touch_not_informed :
    let reason : Text := ("write target is outside the configured exec sandbox roots: " : Text) ++
      ("/home/agent/workspace, /tmp" : Text)
    let plan (command : Text) : ExecPlan := ⟨command, false, 20, [], agentEnv.workspaceRoot,
      .needsApproval .write "/etc/motd" reason⟩
    ExecToolConfig.plan ⟨none, true, ⟨none, [], []⟩⟩ openHost agentEnv
        ⟨"touch /etc/motd", false, none⟩ = .ok (plan "touch /etc/motd") ∧
      ExecToolConfig.plan ⟨none, true, ⟨none, [], []⟩⟩ openHost agentEnv
        ⟨"rm notes.txt; touch /etc/motd", false, none⟩ =
          .ok (plan "rm notes.txt; touch /etc/motd") ∧
      ¬ Informed openHost agentEnv (plan "touch /etc/motd") := by
  intro reason plan
  have hplan' : ExecToolConfig.plan ⟨none, true, ⟨none, [], []⟩⟩ openHost agentEnv
      ⟨"rm notes.txt; touch /etc/motd", false, none⟩ =
        .ok (plan "rm notes.txt; touch /etc/motd") := by decide +kernel
  refine ⟨by decide +kernel, hplan', fun hinformed => ?_⟩
  have hsame := (hinformed agentEnv _ _ _ [] [] [] [] _ _ hplan' rfl rfl rfl).1
  exact absurd hsame (by decide)

end Tools
end SimpleClaw
