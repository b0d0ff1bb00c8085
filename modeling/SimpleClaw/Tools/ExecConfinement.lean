import SimpleClaw.Tools.Exec

/-!
# Confinement of the exec tool

A command let through by the preflight runs in a sandbox that may write its working directory,
and the preflight takes the working directory for the first writable root as well.  The
working directory is an argument of the call, so the argument decides what may be written.

* `writeConfined_iff`: unapproved writes stay where the agent may write exactly if the working
  directory does.
* `workdirConfined_workspace`: it does for every call that leaves the argument out.
-/

namespace SimpleClaw
namespace Tools

open Sandbox

section Confinement

variable (host : Host) (ctx : ToolExecEnv) (config : ExecToolConfig)

/-- A path the agent may write: below its workspace, below `/tmp`, or below a root configured
as writable. -/
def AgentWritable (path : PathBuf) : Prop :=
  underRoot host ctx.workspaceRoot path = true ∨
    (normalizeAbsolutePath path).startsWith (normalizeAbsolutePath (PathBuf.ofText "/tmp")) ∨
    ∃ extra ∈ config.sandbox.extraWritablePaths,
      (normalizeAbsolutePath path).startsWith (normalizeAbsolutePath (PathBuf.ofText extra))

/-- The roots the preflight would check write targets against if the call named no working
directory, as far as they can be resolved. -/
def IsAgentRoot (root : PathBuf) : Prop :=
  canonicalizeExistingPath host ctx.workspaceRoot = .ok root ∨
    canonicalizeExistingPath host (PathBuf.ofText "/tmp") = .ok root ∨
    ∃ extra ∈ config.sandbox.extraWritablePaths,
      resolveExecPath host extra ctx.workspaceRoot = .ok root

/-- What may be written without approval is what the agent may write, in the configuration the
sandbox is launched under and in the preflight. -/
structure WriteConfined (plan : ExecPlan) : Prop where
  launched : ∀ fs, config.launchConfig host plan = .ok fs →
    ∀ entry ∈ fs.allowWrite, AgentWritable host ctx config (PathBuf.ofText entry)
  preflight : ∀ allowedRoots, allowedWriteRoots host plan.workdir config = .ok allowedRoots →
    ∀ root ∈ allowedRoots, ∃ own, IsAgentRoot host ctx config own ∧ root.startsWith own = true

/-- The argument names an absolute path, whatever it is taken relative to. -/
def namesAbsolutePath (rawPath : Text) : Bool :=
  let expandedInput := expandEnvVars host (Text.trim rawPath)
  ((expandHomeDir host expandedInput).getD (PathBuf.ofText expandedInput)).isAbsolute

/-- The working directory stays where the agent may write: as it is spelled, as it is when
symbolic links are followed, and as the directory relative extra roots are taken from. -/
structure WorkdirConfined (workdir : PathBuf) : Prop where
  spelled : ∀ abs, normalizeWorkspaceRoot host workdir = .ok abs → AgentWritable host ctx config abs
  real : ∀ root, canonicalizeExistingPath host workdir = .ok root →
    ∃ own, IsAgentRoot host ctx config own ∧ root.startsWith own = true
  relative : ∀ extra ∈ config.sandbox.extraWritablePaths, namesAbsolutePath host extra = false →
    ∀ root, resolveExecPath host extra workdir = .ok root →
      ∃ own, IsAgentRoot host ctx config own ∧ root.startsWith own = true

variable {host ctx config}

/-- Only the normalized path counts. -/
theorem agentWritable_congr {p q : PathBuf}
    (h : normalizeAbsolutePath p = normalizeAbsolutePath q) :
    AgentWritable host ctx config p ↔ AgentWritable host ctx config q := by
  have hunder : underRoot host ctx.workspaceRoot p = underRoot host ctx.workspaceRoot q := by
    unfold underRoot
    rw [h]
  rw [AgentWritable, AgentWritable, h, hunder]

/-- The entries of the launch configuration, one by one. -/
theorem launchConfig_confined_iff (plan : ExecPlan) :
    (∀ fs, config.launchConfig host plan = .ok fs →
        ∀ entry ∈ fs.allowWrite, AgentWritable host ctx config (PathBuf.ofText entry)) ↔
      ∀ abs, normalizeWorkspaceRoot host plan.workdir = .ok abs →
        AgentWritable host ctx config abs := by
  unfold ExecToolConfig.launchConfig prepareCommandForExec
  cases hworkdir : normalizeWorkspaceRoot host plan.workdir with
  | error e => simp [bind, Except.bind]
  | ok abs =>
      have habsolute := normalizeWorkspaceRoot_isAbsolute hworkdir
      have hread : AgentWritable host ctx config (PathBuf.ofText abs.display) ↔
          AgentWritable host ctx config abs :=
        agentWritable_congr (normalizeAbsolutePath_ofText_display habsolute)
      constructor
      · rintro h _ ⟨⟩
        exact hread.mp (h _ rfl _ List.mem_cons_self)
      · rintro h _ ⟨⟩ entry hentry
        rcases List.mem_append.mp hentry with hentry | hentry
        · rcases List.mem_cons.mp hentry with rfl | hentry
          · exact hread.mpr (h abs rfl)
          · rw [List.mem_singleton.mp hentry]
            exact .inr (.inl (PathBuf.startsWith_self _))
        · exact .inr (.inr ⟨entry, hentry, PathBuf.startsWith_self _⟩)

/-- An argument that names an absolute path is resolved alike from every directory. -/
theorem resolveExecPath_of_namesAbsolutePath {rawPath : Text}
    (h : namesAbsolutePath host rawPath = true) (workdir workdir' : PathBuf) :
    resolveExecPath host rawPath workdir = resolveExecPath host rawPath workdir' := by
  have hread : resolvePathForRead host rawPath workdir =
      resolvePathForRead host rawPath workdir' := by
    unfold namesAbsolutePath at h
    simp only [resolvePathForRead, h, if_true]
  rw [resolveExecPath, resolveExecPath, hread]

/-- The preflight of a call only adds what the working directory adds: its canonical form, and
the relative extra roots taken from it. -/
theorem preflight_confined_iff {workdir : PathBuf} {allowedRoots : List PathBuf}
    (h : allowedWriteRoots host workdir config = .ok allowedRoots) :
    (∀ root ∈ allowedRoots, ∃ own, IsAgentRoot host ctx config own ∧
        root.startsWith own = true) ↔
      (∀ root, canonicalizeExistingPath host workdir = .ok root →
        ∃ own, IsAgentRoot host ctx config own ∧ root.startsWith own = true) ∧
      ∀ extra ∈ config.sandbox.extraWritablePaths, namesAbsolutePath host extra = false →
        ∀ root, resolveExecPath host extra workdir = .ok root →
          ∃ own, IsAgentRoot host ctx config own ∧ root.startsWith own = true := by
  constructor
  · intro hroots
    refine ⟨fun root hroot => hroots root ((mem_allowedWriteRoots h root).mpr (.inl hroot)), ?_⟩
    intro extra hextra _ root hroot
    exact hroots root ((mem_allowedWriteRoots h root).mpr (.inr (.inr ⟨extra, hextra, hroot⟩)))
  · rintro ⟨hreal, hrelative⟩ root hroot
    rcases (mem_allowedWriteRoots h root).mp hroot with hroot | hroot | ⟨extra, hextra, hroot⟩
    · exact hreal root hroot
    · exact ⟨root, .inr (.inl hroot), PathBuf.startsWith_self root⟩
    · cases habsolute : namesAbsolutePath host extra with
      | false => exact hrelative extra hextra habsolute root hroot
      | true =>
          rw [resolveExecPath_of_namesAbsolutePath habsolute workdir ctx.workspaceRoot] at hroot
          exact ⟨root, .inr (.inr ⟨extra, hextra, hroot⟩), PathBuf.startsWith_self root⟩

/-- The workspace itself stays where the agent may write, so a call without the argument does. -/
theorem workdirConfined_workspace : WorkdirConfined host ctx config ctx.workspaceRoot where
  spelled := by
    intro abs habs
    refine .inl (underRoot_iff.mpr ⟨abs, habs, ?_⟩)
    exact PathBuf.startsWith_self (normalizeAbsolutePath abs)
  real := fun root hroot => ⟨root, .inl hroot, PathBuf.startsWith_self root⟩
  relative := fun extra hextra _ root hroot =>
    ⟨root, .inr (.inr ⟨extra, hextra, hroot⟩), PathBuf.startsWith_self root⟩

end Confinement

/-- **When unapproved writes are confined to the agent.**  The paths the sandbox is launched
with and the roots the preflight goes by are the agent's exactly if the working directory the
call names is, both as it is spelled and as it really is, and extra roots that are relative do
not move out with it. -/
theorem writeConfined_iff {host : Host} {ctx : ToolExecEnv} {config : ExecToolConfig}
    {args : ExecArgs} {plan : ExecPlan} (hplan : config.plan host ctx args = .ok plan)
    (hroute : plan.route = .sandboxed) :
    WriteConfined host ctx config plan ↔ ∃ workdir,
      resolveWorkdir host ctx args.workdir = .ok workdir ∧
        WorkdirConfined host ctx config workdir := by
  obtain ⟨hworkdir, -, -, -, hclassified⟩ := plan_ok hplan
  rw [hroute] at hclassified
  obtain ⟨-, allowedRoots, hroots, -⟩ :=
    (classifyExecCommandAccess_sandboxed_iff _ _ _ _).mp hclassified
  constructor
  · intro hconfined
    have hpreflight := (preflight_confined_iff hroots).mp (hconfined.preflight _ hroots)
    exact ⟨plan.workdir, hworkdir, (launchConfig_confined_iff plan).mp hconfined.launched,
      hpreflight.1, hpreflight.2⟩
  · rintro ⟨workdir, hworkdir', hconfined⟩
    obtain rfl : plan.workdir = workdir := by
      rw [hworkdir] at hworkdir'
      exact Except.ok.inj hworkdir'
    refine ⟨(launchConfig_confined_iff plan).mpr hconfined.spelled, fun roots' hroots' => ?_⟩
    exact (preflight_confined_iff hroots').mpr ⟨hconfined.real, hconfined.relative⟩

/-- A workspace of its own, `/tmp` and one extra root. -/
def confinedConfig : ExecToolConfig := ⟨none, true, ⟨none, [("/srv/cache" : Text)], []⟩⟩

/-- A call that names a directory of its workspace. -/
theorem writeConfined_build :
    let plan : ExecPlan := ⟨"touch out", false, 20, [],
      PathBuf.ofText "/home/agent/workspace/build", .sandboxed⟩
    confinedConfig.plan openHost agentEnv ⟨"touch out", false, some "build"⟩ = .ok plan ∧
      WriteConfined openHost agentEnv confinedConfig plan := by
  intro plan
  have hplan : confinedConfig.plan openHost agentEnv ⟨"touch out", false, some "build"⟩ =
      .ok plan := by decide +kernel
  refine ⟨hplan, (writeConfined_iff hplan rfl).mpr
    ⟨PathBuf.ofText "/home/agent/workspace/build", by decide +kernel, ?_, ?_, ?_⟩⟩
  · rintro abs habs
    obtain rfl : PathBuf.ofText "/home/agent/workspace/build" = abs := Except.ok.inj habs
    exact .inl (by decide)
  · rintro root hroot
    obtain rfl : PathBuf.ofText "/home/agent/workspace/build" = root := Except.ok.inj hroot
    exact ⟨PathBuf.ofText "/home/agent/workspace", .inl (by decide), by decide⟩
  · intro extra hextra hrelative
    obtain rfl := List.mem_singleton.mp hextra
    exact absurd hrelative (by decide)

/-- A call that names the root of the file system may delete anything: the root is writable for
the preflight and for the sandbox. -/
theorem workdirRoot_not_confined :
    let plan : ExecPlan := ⟨"rm -rf home/other", false, 20, [], PathBuf.ofText "/", .sandboxed⟩
    confinedConfig.plan openHost agentEnv ⟨"rm -rf home/other", false, some "/"⟩ = .ok plan ∧
      ¬ WriteConfined openHost agentEnv confinedConfig plan := by
  refine ⟨by decide +kernel, fun h => ?_⟩
  have hentry := h.launched ⟨[], [("/" : Text), ("/tmp" : Text), ("/srv/cache" : Text)], [],
    some false⟩ (by decide) "/" (by decide)
  rcases hentry with hunder | htmp | ⟨extra, hextra, hstarts⟩
  · exact absurd hunder (by decide)
  · exact absurd htmp (by decide)
  · obtain rfl := List.mem_singleton.mp hextra
    exact absurd hstarts (by decide)

end Tools
end SimpleClaw
