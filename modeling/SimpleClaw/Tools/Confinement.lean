import SimpleClaw.Tools.FileAccess

/-!
# Confinement of the file tools

Two things the classification of a file access is there for: a write without approval stays
in the writable places, and the memory databases below `<persona>/.simpleclaw` stay out of
reach.  Both hold where the roots do not overlap in the wrong way, and the theorems say
which overlaps are the wrong ones.

* `writesConfined_iff`: writes are confined except below a root that is only readable.
* `personaInternal_unreachable_iff`: the persona internals are out of reach except where
  another root covers them.
-/

namespace SimpleClaw
namespace Tools

open Sandbox

/-! ## Writes -/

/-- A place that may be written without approval: the workspace, the allowed part of the
persona directory and the extra writable roots. -/
def Writable (host : Host) (workspaceRoot personaRoot : PathBuf) (sandbox : ToolSandboxConfig)
    (path : PathBuf) : Prop :=
  underRoot host workspaceRoot path = true ∨ allowedPersona host personaRoot path = true ∨
    ∃ root ∈ sandbox.extraWritablePaths.map PathBuf.ofText, underRoot host root path = true

/-- Every root a write is classified by can be made absolute. -/
def RootsResolvable (host : Host) (workspaceRoot personaRoot : PathBuf)
    (sandbox : ToolSandboxConfig) (capability : SandboxCapability) : Prop :=
  resolvable host workspaceRoot = true ∧ resolvable host personaRoot = true ∧
    ∀ root ∈ sandboxPathsForCapability sandbox capability, resolvable host root = true

theorem mem_sandboxPathsForCapability_write {sandbox : ToolSandboxConfig} {root : PathBuf} :
    root ∈ sandboxPathsForCapability sandbox .write ↔
      root ∈ sandbox.extraReadablePaths.map PathBuf.ofText ∨
        root ∈ sandbox.extraWritablePaths.map PathBuf.ofText := by
  rw [sandboxPathsForCapability, if_pos rfl, List.mem_append]

/-- **When unapproved writes are confined.**  The extra readable roots count as roots for
writing too, so a write of a path is confined exactly if the path is not below a readable
root alone. -/
theorem writesConfined_iff (host : Host) (hostPath workspaceRoot personaRoot : PathBuf)
    (sandbox : ToolSandboxConfig) :
    ((∃ g pre, classifyFileToolAccess host hostPath workspaceRoot personaRoot sandbox .write =
        .ok (.sandboxed g pre)) → Writable host workspaceRoot personaRoot sandbox hostPath) ↔
      (RootsResolvable host workspaceRoot personaRoot sandbox .write →
        (∃ root ∈ sandbox.extraReadablePaths.map PathBuf.ofText,
          underRoot host root hostPath = true) →
        Writable host workspaceRoot personaRoot sandbox hostPath) := by
  rw [classifyFileToolAccess_sandboxed_iff]
  constructor
  · rintro hconfined ⟨hworkspace, hpersona, hroots⟩ ⟨root, hroot, hunder⟩
    refine hconfined (.inr ⟨hworkspace, hpersona, .inr ⟨hroots, root, ?_, hunder⟩⟩)
    exact mem_sandboxPathsForCapability_write.mpr (.inl hroot)
  · rintro hreadable (hunder | ⟨hworkspace, hpersona, hallowed | ⟨hroots, root, hroot, hunder⟩⟩)
    · exact .inl hunder
    · exact .inr (.inl hallowed)
    · rcases mem_sandboxPathsForCapability_write.mp hroot with hread | hwrite
      · exact hreadable ⟨hworkspace, hpersona, hroots⟩ ⟨root, hread, hunder⟩
      · exact .inr (.inr ⟨root, hwrite, hunder⟩)

/-- A file below a root configured as readable is written without approval. -/
theorem readableRoot_written :
    let sandbox : ToolSandboxConfig := ⟨none, [], [("/data" : Text)]⟩
    let path := PathBuf.ofText "/data/notes.txt"
    classifyFileToolAccess bareHost path (PathBuf.ofText "/home/agent/workspace")
        (PathBuf.ofText "/home/agent/persona") sandbox .write =
      .ok (.sandboxed "/__extra/0/notes.txt" [⟨PathBuf.ofText "/data", "/__extra/0"⟩]) ∧
    ¬ Writable bareHost (PathBuf.ofText "/home/agent/workspace")
        (PathBuf.ofText "/home/agent/persona") sandbox path := by
  refine ⟨by decide, ?_⟩
  rintro (hunder | hallowed | ⟨root, hroot, -⟩)
  · exact absurd hunder (by decide)
  · exact absurd hallowed (by decide)
  · simp at hroot

/-! ## The internals of the persona directory -/

/-- The directory the memory databases of an agent live in. -/
def personaInternalName : FileName := ⟨".simpleclaw", by decide⟩

/-- The path normalizes into the `.simpleclaw` subtree of the persona directory. -/
def PersonaInternal (host : Host) (personaRoot path : PathBuf) : Prop :=
  ∃ abs, normalizeWorkspaceRoot host personaRoot = .ok abs ∧
    (normalizeAbsolutePath path).startsWith
      (normalizeAbsolutePath (abs.join (PathBuf.ofNames false [personaInternalName]))) = true

/-- The persona rules allow nothing in the internal subtree. -/
theorem allowedPersona_of_personaInternal {host : Host} {personaRoot path : PathBuf}
    (h : PersonaInternal host personaRoot path) : allowedPersona host personaRoot path = false := by
  obtain ⟨abs, habs, hstarts⟩ := h
  have habsolute := normalizeWorkspaceRoot_isAbsolute habs
  rw [normalizeAbsolutePath_join_ofNames habsolute] at hstarts
  by_cases hpath : path.isAbsolute = true
  · rw [normalizeAbsolutePath_eq, hpath, PathBuf.startsWith, PathBuf.stripPrefix_ofNames] at hstarts
    obtain ⟨rest, hrest⟩ : abs.names ++ [personaInternalName] <+: path.names := by
      by_contra hnot
      rw [if_neg hnot] at hstarts
      exact absurd hstarts (by simp)
    have hprefix : abs.names <+: path.names :=
      ⟨personaInternalName :: rest, by simpa using hrest⟩
    have hdrop : path.names.drop abs.names.length = personaInternalName :: rest := by
      rw [← hrest, List.append_assoc, List.drop_left, List.singleton_append]
    have hdenied : personaRelativePathAllowed
        (PathBuf.ofNames false (personaInternalName :: rest)) = false :=
      personaRelativePathAllowed_internal rfl _
    unfold allowedPersona
    simp only [habs]
    rw [normalizeAbsolutePath_eq path, normalizeAbsolutePath_eq abs, hpath, habsolute,
      PathBuf.stripPrefix_ofNames, if_pos hprefix, hdrop, Option.filter_some, hdenied]
    rfl
  · have hrelative : (normalizeAbsolutePath path).isAbsolute = false := by
      rw [normalizeAbsolutePath_eq]
      simpa using hpath
    rw [PathBuf.startsWith, PathBuf.stripPrefix_absolute_of_relative hrelative rfl] at hstarts
    exact absurd hstarts (by simp)

/-- **When the persona internals are out of reach.**  The persona rules deny them, but the
workspace and the extra roots are not checked against them: exactly where one of these
covers the path it is reached. -/
theorem personaInternal_unreachable_iff (host : Host)
    (hostPath workspaceRoot personaRoot : PathBuf) (sandbox : ToolSandboxConfig)
    (capability : SandboxCapability) (hinternal : PersonaInternal host personaRoot hostPath) :
    (∀ g pre, classifyFileToolAccess host hostPath workspaceRoot personaRoot sandbox capability ≠
        .ok (.sandboxed g pre)) ↔
      ¬ underRoot host workspaceRoot hostPath = true ∧
        ¬ (RootsResolvable host workspaceRoot personaRoot sandbox capability ∧
          ∃ root ∈ sandboxPathsForCapability sandbox capability,
            underRoot host root hostPath = true) := by
  have hreached := classifyFileToolAccess_sandboxed_iff host hostPath workspaceRoot personaRoot
    sandbox capability
  simp only [allowedPersona_of_personaInternal hinternal, Bool.false_eq_true, false_or] at hreached
  have hall : (∀ g pre, classifyFileToolAccess host hostPath workspaceRoot personaRoot sandbox
      capability ≠ .ok (.sandboxed g pre)) ↔ ¬ ∃ g pre, classifyFileToolAccess host hostPath
        workspaceRoot personaRoot sandbox capability = .ok (.sandboxed g pre) := by
    push Not
    rfl
  rw [hall, hreached, RootsResolvable, not_or, and_assoc, and_assoc]

/-- With the persona directory beside the workspace and no extra roots, the memory database
is out of reach, however the path to it is spelled. -/
theorem memoryDatabase_unreachable :
    let path := PathBuf.ofText
      "/home/agent/workspace/../persona/.simpleclaw/memory/short_term_memory.db"
    PersonaInternal bareHost (PathBuf.ofText "/home/agent/persona") path ∧
      ∀ g pre, classifyFileToolAccess bareHost path (PathBuf.ofText "/home/agent/workspace")
        (PathBuf.ofText "/home/agent/persona") ⟨none, [], []⟩ .read ≠ .ok (.sandboxed g pre) := by
  intro path
  have hinternal : PersonaInternal bareHost (PathBuf.ofText "/home/agent/persona") path :=
    ⟨PathBuf.ofText "/home/agent/persona", rfl, by decide⟩
  refine ⟨hinternal, (personaInternal_unreachable_iff bareHost _ _ _ ⟨none, [], []⟩ .read
    hinternal).mpr ⟨by decide, ?_⟩⟩
  rintro ⟨-, root, hroot, -⟩
  simp [sandboxPathsForCapability] at hroot

/-- With the persona directory inside the workspace, the memory database is handed out. -/
theorem memoryDatabase_sandboxed :
    let path := PathBuf.ofText "/home/agent/persona/.simpleclaw/memory/short_term_memory.db"
    PersonaInternal bareHost (PathBuf.ofText "/home/agent/persona") path ∧
      classifyFileToolAccess bareHost path (PathBuf.ofText "/home/agent")
          (PathBuf.ofText "/home/agent/persona") ⟨none, [], []⟩ .read =
        .ok (.sandboxed "/workspace/persona/.simpleclaw/memory/short_term_memory.db" []) :=
  ⟨⟨PathBuf.ofText "/home/agent/persona", rfl, by decide⟩, by decide⟩

end Tools
end SimpleClaw
