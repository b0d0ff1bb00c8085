import SimpleClaw.Host
import SimpleClaw.Sandbox.Guest

/-!
# The host side of the wasm sandbox

Which host directories a guest is given, and under which names: the workspace, the persona
directory, the directories the tool asks for and a scratch directory of its own.  A path the
guest opens is looked up below the longest mount it starts with.
-/

namespace SimpleClaw
namespace Sandbox

/-- A host directory opened for the guest, and the name the guest knows it by. -/
structure WasmPreopenedDir where
  hostPath : PathBuf
  guestPath : Text
  deriving DecidableEq

def workspaceGuestMountPath : Text := "/workspace"
def personaGuestMountPath : Text := "/persona"
def tmpMount : Text := "/tmp"

/-- The directories `run_wasm_guest` opens, in its order.  The guest is not started if the
workspace or the persona directory cannot be made absolute. -/
def preopenedDirs (host : Host) (workspaceRoot personaRoot : PathBuf)
    (extra : List WasmPreopenedDir) (isolatedTmp : PathBuf) :
    Except FrameworkError (List WasmPreopenedDir) := do
  let workspace ← normalizeWorkspaceRoot host workspaceRoot
  let persona ← normalizeWorkspaceRoot host personaRoot
  return [⟨workspace, workspaceGuestMountPath⟩, ⟨persona, personaGuestMountPath⟩] ++ extra ++
    [⟨isolatedTmp, tmpMount⟩]

/-- The mount a guest path is looked up in: the longest one it starts with. -/
def mountOf (dirs : List WasmPreopenedDir) (path : PathBuf) : Option WasmPreopenedDir :=
  (dirs.filter fun dir => path.startsWith (PathBuf.ofText dir.guestPath)).foldl
    (fun best dir =>
      match best with
      | none => some dir
      | some found => if found.guestPath.length < dir.guestPath.length then some dir else best)
    none

/-- The host path a guest path denotes. -/
def denotes (dirs : List WasmPreopenedDir) (path : PathBuf) : Option PathBuf := do
  let dir ← mountOf dirs path
  let relative ← path.stripPrefix (PathBuf.ofText dir.guestPath)
  return normalizeAbsolutePath (dir.hostPath.join relative)

/-! ## Looking up a path when no extra directory is opened -/

section Lookup

variable {host : Host} {workspaceRoot personaRoot isolatedTmp : PathBuf}
  {dirs : List WasmPreopenedDir}

/-- The directories are opened exactly if the two roots can be made absolute. -/
theorem preopenedDirs_ok_iff {extra : List WasmPreopenedDir} :
    preopenedDirs host workspaceRoot personaRoot extra isolatedTmp = .ok dirs ↔
      ∃ workspace persona, normalizeWorkspaceRoot host workspaceRoot = .ok workspace ∧
        normalizeWorkspaceRoot host personaRoot = .ok persona ∧
        dirs = [⟨workspace, workspaceGuestMountPath⟩, ⟨persona, personaGuestMountPath⟩] ++ extra ++
          [⟨isolatedTmp, tmpMount⟩] := by
  unfold preopenedDirs
  cases normalizeWorkspaceRoot host workspaceRoot with
  | error e => simp [bind, Except.bind]
  | ok workspace =>
      cases normalizeWorkspaceRoot host personaRoot with
      | error e => simp [bind, Except.bind]
      | ok persona => simp [bind, Except.bind, pure, Except.pure, eq_comm]

def tmpName : FileName := ⟨"tmp", by decide⟩

theorem ofText_mounts :
    PathBuf.ofText workspaceGuestMountPath = PathBuf.ofNames true [workspaceName] ∧
      PathBuf.ofText personaGuestMountPath = PathBuf.ofNames true [personaName] ∧
      PathBuf.ofText tmpMount = PathBuf.ofNames true [tmpName] := by decide

variable (workspace persona : PathBuf) (tmp : PathBuf)

theorem startsWith_mount {m m' : FileName} {q : List FileName} :
    (PathBuf.ofNames true (m' :: q)).startsWith (PathBuf.ofNames true [m]) = decide (m' = m) := by
  rw [Bool.eq_iff_iff, PathBuf.startsWith_singleton]
  simp

theorem stripPrefix_mount (m : FileName) (q : List FileName) :
    (PathBuf.ofNames true (m :: q)).stripPrefix (PathBuf.ofNames true [m]) =
      some (PathBuf.ofNames false q) := by
  rw [PathBuf.stripPrefix_ofNames, if_pos ⟨q, rfl⟩]
  rfl

/-- Below the workspace mount a guest path denotes the path below the workspace. -/
theorem denotes_workspace (q : List FileName) :
    denotes ([⟨workspace, workspaceGuestMountPath⟩, ⟨persona, personaGuestMountPath⟩] ++ [] ++
        [⟨tmp, tmpMount⟩]) (PathBuf.ofNames true (workspaceName :: q)) =
      some (normalizeAbsolutePath (workspace.join (PathBuf.ofNames false q))) := by
  obtain ⟨hw, hp, ht⟩ := ofText_mounts
  have hmount : mountOf ([⟨workspace, workspaceGuestMountPath⟩,
      ⟨persona, personaGuestMountPath⟩] ++ [] ++ [⟨tmp, tmpMount⟩])
        (PathBuf.ofNames true (workspaceName :: q)) =
      some ⟨workspace, workspaceGuestMountPath⟩ := by
    have hpersona : workspaceName ≠ personaName := by decide
    have htmp : workspaceName ≠ tmpName := by decide
    simp [mountOf, List.filter, hw, hp, ht, startsWith_mount, hpersona, htmp]
  simp only [denotes, hmount, Option.bind_eq_bind, Option.bind_some, hw, stripPrefix_mount]
  rfl

/-- Below the persona mount a guest path denotes the path below the persona directory. -/
theorem denotes_persona (q : List FileName) :
    denotes ([⟨workspace, workspaceGuestMountPath⟩, ⟨persona, personaGuestMountPath⟩] ++ [] ++
        [⟨tmp, tmpMount⟩]) (PathBuf.ofNames true (personaName :: q)) =
      some (normalizeAbsolutePath (persona.join (PathBuf.ofNames false q))) := by
  obtain ⟨hw, hp, ht⟩ := ofText_mounts
  have hmount : mountOf ([⟨workspace, workspaceGuestMountPath⟩,
      ⟨persona, personaGuestMountPath⟩] ++ [] ++ [⟨tmp, tmpMount⟩])
        (PathBuf.ofNames true (personaName :: q)) =
      some ⟨persona, personaGuestMountPath⟩ := by
    have hworkspace : personaName ≠ workspaceName := by decide
    have htmp : personaName ≠ tmpName := by decide
    simp [mountOf, List.filter, hw, hp, ht, startsWith_mount, hworkspace, htmp]
  simp only [denotes, hmount, Option.bind_eq_bind, Option.bind_some, hp, stripPrefix_mount]
  rfl

end Lookup

end Sandbox
end SimpleClaw
