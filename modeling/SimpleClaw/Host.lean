import SimpleClaw.Error
import SimpleClaw.Path

/-!
# The host a tool call runs on

What the tools ask of the process and the file system at one moment: environment
variables, the current directory, which paths exist, and what a path is when symbolic links
are followed.  Everything else about the host is behind these.

* `normalizeWorkspaceRoot`: a root as an absolute path, which can fail only when a relative
  root meets an unreadable current directory.
* `underRoot`: a path is lexically at or below a root.
-/

namespace SimpleClaw

/-- The host's answers.  The current directory and canonical paths are absolute. -/
structure Host where
  envVar : Text → Option Text
  currentDir : Except Text PathBuf
  pathExists : PathBuf → Bool
  isDir : PathBuf → Bool
  canonicalize : PathBuf → Except Text PathBuf
  currentDir_absolute : ∀ dir, currentDir = .ok dir → dir.isAbsolute = true
  canonicalize_absolute : ∀ path real, canonicalize path = .ok real → real.isAbsolute = true

/-- A host with no environment and no files, started at the root. -/
def bareHost : Host where
  envVar _ := none
  currentDir := .ok ⟨true, []⟩
  pathExists _ := false
  isDir _ := false
  canonicalize _ := .error "No such file or directory (os error 2)"
  currentDir_absolute := by rintro dir ⟨⟩; rfl
  canonicalize_absolute := by rintro path real ⟨⟩

/-- A host without symbolic links on which every path is a directory. -/
def openHost : Host where
  envVar _ := none
  currentDir := .ok ⟨true, []⟩
  pathExists _ := true
  isDir _ := true
  canonicalize path := .ok (PathBuf.ofNames true path.names)
  currentDir_absolute := by rintro dir ⟨⟩; rfl
  canonicalize_absolute := by rintro path real ⟨⟩; rfl

/-- `normalize_workspace_root`. -/
def normalizeWorkspaceRoot (host : Host) (workspaceRoot : PathBuf) :
    Except FrameworkError PathBuf :=
  if workspaceRoot.isAbsolute then .ok workspaceRoot
  else
    match host.currentDir with
    | .ok cwd => .ok (cwd.join workspaceRoot)
    | .error message => .error (.io message)

theorem PathBuf.isAbsolute_join {p : PathBuf} (hp : p.isAbsolute = true) (q : PathBuf) :
    (p.join q).isAbsolute = true := by
  have hne : p ≠ PathBuf.empty := by
    rintro rfl
    exact absurd hp (by simp [PathBuf.empty])
  unfold PathBuf.join
  by_cases hq : q.isAbsolute = true
  · rw [if_pos hq, hq]
  · rw [if_neg hq, if_neg hne, hp]

/-- A root that could be made absolute is. -/
theorem normalizeWorkspaceRoot_isAbsolute {host : Host} {root abs : PathBuf}
    (h : normalizeWorkspaceRoot host root = .ok abs) : abs.isAbsolute = true := by
  unfold normalizeWorkspaceRoot at h
  split at h
  · rename_i habs
    cases h
    exact habs
  · split at h
    · rename_i cwd hcwd
      cases h
      exact PathBuf.isAbsolute_join (host.currentDir_absolute cwd hcwd) root
    · cases h

/-- The root can be made absolute. -/
def resolvable (host : Host) (root : PathBuf) : Bool :=
  match normalizeWorkspaceRoot host root with
  | .ok _ => true
  | .error _ => false

/-- The path is lexically at or below the root. -/
def underRoot (host : Host) (root path : PathBuf) : Bool :=
  match normalizeWorkspaceRoot host root with
  | .ok abs => (normalizeAbsolutePath path).startsWith (normalizeAbsolutePath abs)
  | .error _ => false

theorem resolvable_iff {host : Host} {root : PathBuf} :
    resolvable host root = true ↔ ∃ abs, normalizeWorkspaceRoot host root = .ok abs := by
  unfold resolvable
  cases normalizeWorkspaceRoot host root <;> simp

theorem underRoot_iff {host : Host} {root path : PathBuf} :
    underRoot host root path = true ↔ ∃ abs, normalizeWorkspaceRoot host root = .ok abs ∧
      ((normalizeAbsolutePath path).stripPrefix (normalizeAbsolutePath abs)).isSome = true := by
  unfold underRoot
  cases normalizeWorkspaceRoot host root <;> simp [PathBuf.startsWith]

end SimpleClaw
