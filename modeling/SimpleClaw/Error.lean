import SimpleClaw.Lib.Text

/-!
# Capabilities and errors

The errors of `error.rs`, with the texts they are shown as.
-/

namespace SimpleClaw

/-- The capability a sandboxed execution is granted or denied. -/
inductive SandboxCapability where
  | read
  | write
  | network
  | exec
  | unknown
  deriving DecidableEq

def SandboxCapability.asStr : SandboxCapability → Text
  | .read => "read"
  | .write => "write"
  | .network => "network"
  | .exec => "exec"
  | .unknown => "unknown"

/-- What the sandbox did not allow, and to whom. -/
structure SandboxPermissionDenied where
  toolName : Text
  executionKind : Text
  capability : SandboxCapability
  target : Text
  diagnostic : Text
  deriving DecidableEq

/-- Why a call was not approved. -/
structure ApprovalDenied where
  approvalId : Text
  toolName : Text
  reason : Text
  deriving DecidableEq

/-- An error of a tool or a provider, of the sandbox or the approval flow, of the configuration,
or one passed on from the operating system, the YAML parser or the database. -/
inductive FrameworkError where
  | io (message : Text)
  | yaml (message : Text)
  | db (message : Text)
  | provider (message : Text)
  | tool (message : Text)
  | sandboxPermissionDenied (details : SandboxPermissionDenied)
  | approvalDenied (details : ApprovalDenied)
  | config (message : Text)
  deriving DecidableEq

def FrameworkError.asSandboxPermissionDenied : FrameworkError → Option SandboxPermissionDenied
  | .sandboxPermissionDenied details => some details
  | .io _ | .yaml _ | .db _ | .provider _ | .tool _ | .approvalDenied _ | .config _ => none

/-- How an error is shown. -/
def FrameworkError.display : FrameworkError → Text
  | .io message => ("io error: " : Text) ++ message
  | .yaml message => ("yaml parse error: " : Text) ++ message
  | .db message => ("database error: " : Text) ++ message
  | .provider message => ("provider error: " : Text) ++ message
  | .tool message => ("tool error: " : Text) ++ message
  | .sandboxPermissionDenied details =>
      ("sandbox permission denied: tool=" : Text) ++ details.toolName ++
        (" execution_kind=" : Text) ++ details.executionKind ++ (" capability=" : Text) ++
        details.capability.asStr ++ (" target=" : Text) ++ details.target ++
        (" diagnostic=" : Text) ++ details.diagnostic
  | .approvalDenied details =>
      ("approval denied: tool=" : Text) ++ details.toolName ++ (" approval_id=" : Text) ++
        details.approvalId ++ (" reason=" : Text) ++ details.reason
  | .config message => ("configuration error: " : Text) ++ message

/-- What succeeds in two parts succeeds in each. -/
theorem bind_eq_ok_iff {α β : Type} {x : Except FrameworkError α}
    {f : α → Except FrameworkError β} {b : β} :
    (x >>= f) = .ok b ↔ ∃ a, x = .ok a ∧ f a = .ok b := by
  cases x with
  | error e => simp [bind, Except.bind]
  | ok a => simp [bind, Except.bind]

theorem map_eq_ok_iff {α β : Type} {x : Except FrameworkError α} {f : α → β} {b : β} :
    x.map f = .ok b ↔ ∃ a, x = .ok a ∧ f a = b := by
  cases x with
  | error e => simp [Except.map]
  | ok a => simp [Except.map]

end SimpleClaw
