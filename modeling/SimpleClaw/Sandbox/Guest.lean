import SimpleClaw.Path

/-!
# The guest side of the file tools

What runs inside the wasm sandbox: `sandbox/common` resolves the path argument against the
two mounts it knows, and the list tool additionally insists on the workspace mount.
-/

namespace SimpleClaw
namespace Sandbox

def workspaceRoot : Text := "/workspace"
def personaRoot : Text := "/persona"

def workspaceName : FileName := ⟨"workspace", by decide⟩
def personaName : FileName := ⟨"persona", by decide⟩

theorem ofText_workspaceRoot :
    PathBuf.ofText workspaceRoot = PathBuf.ofNames true [workspaceName] := by decide

theorem ofText_personaRoot : PathBuf.ofText personaRoot = PathBuf.ofNames true [personaName] := by
  decide

def promptFiles : List Text :=
  ["IDENTITY.md", "AGENT.md", "USER.md", "MEMORY.md", "SOUL.md"]

/-- `persona_relative_path_allowed`: the skills tree and the prompt files themselves. -/
def personaRelativePathAllowed (relative : PathBuf) : Bool :=
  if relative.isAbsolute then false
  else
    match relative.parts with
    | .normal first :: rest =>
        if first.text = (".simpleclaw" : Text) then false
        else if first.text = ("skills" : Text) then true
        else rest.isEmpty && promptFiles.contains first.text
    | _ => false

/-- Nothing below `.simpleclaw` is allowed. -/
theorem personaRelativePathAllowed_internal {first : FileName}
    (h : first.text = (".simpleclaw" : Text)) (rest : List Part) :
    personaRelativePathAllowed ⟨false, .normal first :: rest⟩ = false := by
  rw [personaRelativePathAllowed, if_neg Bool.false_ne_true]
  exact if_pos h

/-- `guest_persona_path_allowed`. -/
def guestPersonaPathAllowed (path : PathBuf) : Bool :=
  match (normalizeAbsolutePath path).stripPrefix (PathBuf.ofText personaRoot) with
  | some relative => personaRelativePathAllowed relative
  | none => false

/-- `resolve_guest_path`. -/
def resolveGuestPath (rawPath : Text) : Except Text PathBuf :=
  let trimmed := Text.trim rawPath
  if trimmed = [] then .error "path must be non-empty"
  else
    let input := PathBuf.ofText trimmed
    let absolute := if input.isAbsolute then input else (PathBuf.ofText workspaceRoot).join input
    let normalized := normalizeAbsolutePath absolute
    if normalized.startsWith (PathBuf.ofText workspaceRoot) then .ok normalized
    else if normalized.startsWith (PathBuf.ofText personaRoot) ∧
        guestPersonaPathAllowed normalized then .ok normalized
    else
      .error (("path denied by sandbox: path=" : Text) ++ normalized.display ++
        (" workspace=" : Text) ++ workspaceRoot ++ (" persona=" : Text) ++ personaRoot)

/-- `display_root` of the list tool. -/
def displayRoot (root : PathBuf) : Except Text Text :=
  match root.stripPrefix (PathBuf.ofText workspaceRoot) with
  | none => .error (("list path is outside workspace mount: " : Text) ++ root.display)
  | some relative =>
      if relative = PathBuf.empty then .ok "./" else .ok (relative.display ++ ("/" : Text))

/-- The tools that hand a path to the guest. -/
inductive FileTool where
  | read
  | edit
  | glob
  | grep
  | list
  deriving DecidableEq

/-- The path a tool works on inside the guest, if it accepts the argument.  Only the list
tool looks at the resolved path again. -/
def FileTool.guestPath (tool : FileTool) (rawPath : Text) : Except Text PathBuf := do
  let path ← resolveGuestPath rawPath
  match tool with
  | .list =>
      let _ ← displayRoot path
      return path
  | .read | .edit | .glob | .grep => return path

/-- The list tool accepts what the others do, as long as it is below the workspace mount. -/
theorem FileTool.guestPath_ok_iff (tool : FileTool) (rawPath : Text) (p : PathBuf) :
    tool.guestPath rawPath = .ok p ↔ resolveGuestPath rawPath = .ok p ∧
      (tool = .list → p.startsWith (PathBuf.ofText workspaceRoot) = true) := by
  have hdisplay : (∃ label, displayRoot p = .ok label) ↔
      p.startsWith (PathBuf.ofText workspaceRoot) = true := by
    unfold displayRoot PathBuf.startsWith
    cases p.stripPrefix (PathBuf.ofText workspaceRoot) with
    | none => simp
    | some relative => by_cases hempty : relative = PathBuf.empty <;> simp [hempty]
  rw [← hdisplay]
  unfold FileTool.guestPath
  cases resolveGuestPath rawPath with
  | error e => simp [bind, Except.bind]
  | ok path =>
      cases tool with
      | list =>
          cases hlabel : displayRoot path with
          | error e =>
              simp only [bind, Except.bind, hlabel]
              refine iff_of_false (by simp) ?_
              rintro ⟨⟨⟩, h⟩
              obtain ⟨label, h⟩ := h trivial
              rw [hlabel] at h
              cases h
          | ok label =>
              simp only [bind, Except.bind, hlabel, pure, Except.pure, Except.ok.injEq]
              refine ⟨fun h => ⟨h, fun _ => ⟨label, by rw [← h, hlabel]⟩⟩, And.left⟩
      | read | edit | glob | grep => simp [bind, Except.bind, pure, Except.pure]

end Sandbox
end SimpleClaw
