import SimpleClaw.Sandbox.HostCommand
import SimpleClaw.Tools.FileAccess
import SimpleClaw.Tools.ShellTokens

/-!
# The exec tool

`tools/builtin/exec.rs` plans a shell command: it resolves the working directory and decides
whether the command may run in the host sandbox or needs approval to run outside of it.  The
decision rests on screens on the whole command and on the write targets the preflight finds in
its segments, each resolved on the host and compared with the roots that may be written.

* `classifyWriteTarget_none_iff`: when a write target is let through.
* `classifyExecCommandAccess_sandboxed_iff`: when a command is, as a condition on its tokens.
-/

namespace SimpleClaw
namespace Tools

open Sandbox

structure ExecToolConfig where
  timeoutSeconds : Option Nat
  allowBackground : Bool
  sandbox : ToolSandboxConfig
  deriving DecidableEq

inductive ExecToolRoute where
  | sandboxed
  | needsApproval (capability : SandboxCapability) (target reason : Text)
  deriving DecidableEq

structure ExecPlan where
  command : Text
  background : Bool
  timeoutSeconds : Nat
  env : List (Text × Text)
  workdir : PathBuf
  route : ExecToolRoute
  deriving DecidableEq

/-- The arguments of a call as `parse_exec_args` read them. -/
structure ExecArgs where
  command : Text
  background : Bool
  workdir : Option Text
  deriving DecidableEq

/-- What a call finds in its environment. -/
structure ToolExecEnv where
  agentId : Text
  agentName : Text
  userId : Text
  workspaceRoot : PathBuf
  env : List (Text × Text)
  allowAsyncTools : Bool
  deriving DecidableEq

/-- The environment of an agent in its workspace. -/
def agentEnv : ToolExecEnv where
  agentId := "agent-1"
  agentName := "Agent One"
  userId := "user-1"
  workspaceRoot := PathBuf.ofText "/home/agent/workspace"
  env := []
  allowAsyncTools := true

/-! ## Canonical paths -/

def canonicalizeExistingPath (host : Host) (path : PathBuf) : Except FrameworkError PathBuf :=
  match host.canonicalize path with
  | .ok real => .ok real
  | .error e =>
      .error (.tool (("failed to canonicalize " : Text) ++ path.display ++ (": " : Text) ++ e))

/-- The loop of `canonicalize_with_existing_ancestor` over the parts of the path from the last
one on: the nearest ancestor that exists, and the names below it. -/
def existingAncestor (host : Host) (isAbsolute : Bool) :
    List Part → List FileName → PathBuf × List FileName
  | .normal name :: parts, suffix =>
      if host.pathExists ⟨isAbsolute, (.normal name :: parts).reverse⟩ then
        (⟨isAbsolute, (.normal name :: parts).reverse⟩, suffix)
      else existingAncestor host isAbsolute parts (name :: suffix)
  | parts, suffix => (⟨isAbsolute, parts.reverse⟩, suffix)

def canonicalizeWithExistingAncestor (host : Host) (path : PathBuf) :
    Except FrameworkError PathBuf :=
  if host.pathExists path then canonicalizeExistingPath host path
  else
    let (current, suffix) := existingAncestor host path.isAbsolute path.parts.reverse []
    (canonicalizeExistingPath host current).map fun resolved =>
      suffix.foldl (fun p name => p.join (PathBuf.ofNames false [name])) resolved

/-- `resolve_exec_path`. -/
def resolveExecPath (host : Host) (rawPath : Text) (workdir : PathBuf) :
    Except FrameworkError PathBuf := do
  let normalized ← resolvePathForRead host rawPath workdir
  canonicalizeWithExistingAncestor host normalized

/-- `allowed_write_roots`. -/
def allowedWriteRoots (host : Host) (workdir : PathBuf) (config : ExecToolConfig) :
    Except FrameworkError (List PathBuf) := do
  let real ← canonicalizeExistingPath host workdir
  let tmp ← canonicalizeExistingPath host (PathBuf.ofText "/tmp")
  let extra ← config.sandbox.extraWritablePaths.mapM (resolveExecPath host · workdir)
  return [real, tmp] ++ extra

theorem mem_mapM_ok {α β ε : Type} {f : α → Except ε β} {l : List α} {ys : List β}
    (h : l.mapM f = .ok ys) (y : β) : y ∈ ys ↔ ∃ x ∈ l, f x = .ok y := by
  induction l generalizing ys with
  | nil =>
      rw [List.mapM_nil] at h
      cases h
      simp
  | cons x l ih =>
      rw [List.mapM_cons] at h
      cases hx : f x with
      | error e => simp [hx, bind, Except.bind] at h
      | ok z =>
          cases hl : l.mapM f with
          | error e => simp [hx, hl, bind, Except.bind] at h
          | ok zs =>
              simp only [hx, hl, bind, Except.bind, pure, Except.pure] at h
              cases h
              rw [List.mem_cons, ih hl]
              simp [hx, eq_comm]

/-- The roots of the preflight, one by one. -/
theorem mem_allowedWriteRoots {host : Host} {config : ExecToolConfig} {workdir : PathBuf}
    {allowedRoots : List PathBuf}
    (h : allowedWriteRoots host workdir config = .ok allowedRoots) (root : PathBuf) :
    root ∈ allowedRoots ↔
      canonicalizeExistingPath host workdir = .ok root ∨
        canonicalizeExistingPath host (PathBuf.ofText "/tmp") = .ok root ∨
        ∃ extra ∈ config.sandbox.extraWritablePaths, resolveExecPath host extra workdir = .ok root
    := by
  unfold allowedWriteRoots at h
  cases hreal : canonicalizeExistingPath host workdir with
  | error e =>
      simp only [hreal, bind, Except.bind] at h
      cases h
  | ok real =>
      cases htmp : canonicalizeExistingPath host (PathBuf.ofText "/tmp") with
      | error e =>
          simp only [hreal, htmp, bind, Except.bind] at h
          cases h
      | ok tmp =>
          cases hextra : config.sandbox.extraWritablePaths.mapM
              (resolveExecPath host · workdir) with
          | error e =>
              simp only [hreal, htmp, hextra, bind, Except.bind] at h
              cases h
          | ok extra =>
              simp only [hreal, htmp, hextra, bind, Except.bind, pure, Except.pure] at h
              cases h
              rw [List.mem_append, mem_mapM_ok hextra, List.mem_cons, List.mem_singleton, or_assoc,
                Except.ok.injEq, Except.ok.injEq, @eq_comm _ root real, @eq_comm _ root tmp]

/-- `render_allowed_roots`. -/
def renderAllowedRoots (roots : List PathBuf) : Text :=
  (", " : Text).intercalate (roots.map PathBuf.display)

/-! ## The preflight -/

/-- `classify_write_target`. -/
def classifyWriteTarget (host : Host) (rawTarget : Text) (workdir : PathBuf)
    (allowedRoots : List PathBuf) : Except FrameworkError (Option ExecToolRoute) :=
  if '*' ∈ rawTarget ∨ '?' ∈ rawTarget ∨ '[' ∈ rawTarget then
    .ok (some (.needsApproval .write rawTarget
      "write target uses glob expansion that preflight cannot verify safely"))
  else
    match resolveExecPath host rawTarget workdir with
    | .error e => .error e
    | .ok resolved =>
        if allowedRoots.any resolved.startsWith then .ok none
        else .ok (some (.needsApproval .write resolved.display
          (("write target is outside the configured exec sandbox roots: " : Text) ++
            renderAllowedRoots allowedRoots)))

/-- The first loop of `classify_segment_write_access`: the redirections. -/
def classifyRedirections (host : Host) (workdir : PathBuf) (allowedRoots : List PathBuf) :
    List ShellToken → Except FrameworkError (Option ExecToolRoute)
  | [] => .ok none
  | token :: tokens =>
      if isRedirectionOperator token.text then
        match nextWord tokens with
        | none => .ok (some (.needsApproval .write token.text
            "shell redirection target could not be resolved safely"))
        | some target =>
            match classifyWriteTarget host target workdir allowedRoots with
            | .ok none => classifyRedirections host workdir allowedRoots tokens
            | found => found
      else classifyRedirections host workdir allowedRoots tokens

/-- The second loop: the write targets of the command. -/
def classifyWriteTargets (host : Host) (workdir : PathBuf) (allowedRoots : List PathBuf) :
    List Text → Except FrameworkError (Option ExecToolRoute)
  | [] => .ok none
  | target :: targets =>
      if target = ("-" : Text) then classifyWriteTargets host workdir allowedRoots targets
      else
        match classifyWriteTarget host target workdir allowedRoots with
        | .ok none => classifyWriteTargets host workdir allowedRoots targets
        | found => found

def isHighRisk (commandName : Text) : Bool :=
  [("chmod" : Text), ("chown" : Text), ("mount" : Text), ("umount" : Text)].contains commandName

/-- `classify_segment_write_access`. -/
def classifySegmentWriteAccess (host : Host) (tokens : List ShellToken) (workdir : PathBuf)
    (allowedRoots : List PathBuf) : Except FrameworkError (Option ExecToolRoute) :=
  match classifyRedirections host workdir allowedRoots tokens with
  | .ok none =>
      match segmentCommandName tokens with
      | none => .ok none
      | some commandName =>
          if isHighRisk commandName then
            .ok (some (.needsApproval .exec commandName
              (commandName ++ (" is treated as a high-risk exec operation" : Text))))
          else
            classifyWriteTargets host workdir allowedRoots (writeTargets commandName tokens)
  | found => found

/-- The loop over the segments. -/
def classifySegments (host : Host) (workdir : PathBuf) (allowedRoots : List PathBuf) :
    List (List ShellToken) → Except FrameworkError ExecToolRoute
  | [] => .ok .sandboxed
  | segment :: segments =>
      match classifySegmentWriteAccess host segment workdir allowedRoots with
      | .error e => .error e
      | .ok (some route) => .ok route
      | .ok none => classifySegments host workdir allowedRoots segments

/-- The three screens at the start of `classify_exec_command_access`: what is asked for the
command as a whole. -/
def screenCommand (command : Text) (config : ExecToolConfig) :
    Option (SandboxCapability × Text) :=
  if commandUsesAmbiguousShellFeatures command then
    some (.exec, "command uses shell features that preflight cannot verify safely")
  else
    let tokens := (tokenizeShellCommand command).getD []
    if tokens = [] then
      some (.exec, "command could not be parsed safely during exec preflight")
    else if config.sandbox.networkEnabled.getD false = false ∧
        tokens.any (fun token => token.kind = .word && isNetworkTool token.text) then
      some (.network,
        "command appears to use network tooling outside the default exec sandbox policy")
    else none

/-- `classify_exec_command_access`. -/
def classifyExecCommandAccess (host : Host) (command : Text) (workdir : PathBuf)
    (config : ExecToolConfig) : Except FrameworkError ExecToolRoute :=
  match screenCommand command config with
  | some (capability, reason) => .ok (.needsApproval capability command reason)
  | none => do
      let allowedRoots ← allowedWriteRoots host workdir config
      classifySegments host workdir allowedRoots
        (splitShellSegments ((tokenizeShellCommand command).getD []))

/-! ## What is let through -/

/-- The preflight is content with a write target. -/
def Passes (host : Host) (workdir : PathBuf) (allowedRoots : List PathBuf) (target : Text) :
    Prop :=
  ('*' ∉ target ∧ '?' ∉ target ∧ '[' ∉ target) ∧
    ∃ resolved, resolveExecPath host target workdir = .ok resolved ∧
      ∃ root ∈ allowedRoots, resolved.startsWith root = true

theorem classifyWriteTarget_none_iff (host : Host) (target : Text) (workdir : PathBuf)
    (allowedRoots : List PathBuf) :
    classifyWriteTarget host target workdir allowedRoots = .ok none ↔
      Passes host workdir allowedRoots target := by
  unfold classifyWriteTarget Passes
  by_cases hglob : '*' ∈ target ∨ '?' ∈ target ∨ '[' ∈ target
  · rw [if_pos hglob]
    refine iff_of_false (by simp) ?_
    rintro ⟨⟨hstar, hmark, hbracket⟩, -⟩
    rcases hglob with h | h | h
    · exact hstar h
    · exact hmark h
    · exact hbracket h
  · rw [if_neg hglob]
    push Not at hglob
    cases hresolve : resolveExecPath host target workdir with
    | error e => simp
    | ok resolved =>
        by_cases hany : allowedRoots.any resolved.startsWith = true
        · simp only [if_pos hany, true_iff]
          exact ⟨hglob, resolved, rfl, List.any_eq_true.mp hany⟩
        · simp only [if_neg hany]
          refine iff_of_false (by simp) ?_
          rintro ⟨-, resolved', ⟨⟩, hroots⟩
          exact hany (List.any_eq_true.mpr hroots)

theorem classifyRedirections_none_iff (host : Host) (workdir : PathBuf)
    (allowedRoots : List PathBuf) (tokens : List ShellToken) :
    classifyRedirections host workdir allowedRoots tokens = .ok none ↔
      ∀ found ∈ redirectionTargets tokens, ∃ target, found = some target ∧
        Passes host workdir allowedRoots target := by
  induction tokens with
  | nil => simp [classifyRedirections, redirectionTargets]
  | cons token tokens ih =>
      rw [classifyRedirections, redirectionTargets]
      by_cases hredir : isRedirectionOperator token.text = true
      · rw [if_pos hredir, if_pos hredir, List.forall_mem_cons]
        cases hword : nextWord tokens with
        | none => simp
        | some target =>
            have htarget := classifyWriteTarget_none_iff host target workdir allowedRoots
            simp only [Option.some.injEq, exists_eq_left', ← htarget, ← ih]
            split
            · rename_i hnone
              simp [hnone]
            · rename_i hsome
              exact iff_of_false hsome fun h => hsome h.1
      · rw [if_neg hredir, if_neg hredir, ih]

theorem classifyWriteTargets_none_iff (host : Host) (workdir : PathBuf)
    (allowedRoots : List PathBuf) (targets : List Text) :
    classifyWriteTargets host workdir allowedRoots targets = .ok none ↔
      ∀ target ∈ targets, target ≠ ("-" : Text) → Passes host workdir allowedRoots target := by
  induction targets with
  | nil => simp [classifyWriteTargets]
  | cons target targets ih =>
      rw [classifyWriteTargets, List.forall_mem_cons, ← ih,
        ← classifyWriteTarget_none_iff host target workdir allowedRoots]
      by_cases hdash : target = ("-" : Text)
      · simp [hdash]
      · rw [if_neg hdash]
        split
        · rename_i hnone
          simp [hnone]
        · rename_i hsome
          exact iff_of_false hsome fun h => hsome (h.1 hdash)

/-- The preflight has no objection to a segment. -/
structure SegmentPasses (host : Host) (workdir : PathBuf) (allowedRoots : List PathBuf)
    (segment : List ShellToken) : Prop where
  redirections : ∀ found ∈ redirectionTargets segment, ∃ target, found = some target ∧
    Passes host workdir allowedRoots target
  lowRisk : ∀ commandName, segmentCommandName segment = some commandName →
    isHighRisk commandName = false
  targets : ∀ commandName, segmentCommandName segment = some commandName →
    ∀ target ∈ writeTargets commandName segment, target ≠ ("-" : Text) →
      Passes host workdir allowedRoots target

theorem classifySegmentWriteAccess_none_iff (host : Host) (segment : List ShellToken)
    (workdir : PathBuf) (allowedRoots : List PathBuf) :
    classifySegmentWriteAccess host segment workdir allowedRoots = .ok none ↔
      SegmentPasses host workdir allowedRoots segment := by
  have hredir := classifyRedirections_none_iff host workdir allowedRoots segment
  unfold classifySegmentWriteAccess
  split
  · rename_i hnone
    have hredir := hredir.mp hnone
    cases hname : segmentCommandName segment with
    | none =>
        refine iff_of_true rfl ⟨hredir, ?_, ?_⟩
        · simp [hname]
        · simp [hname]
    | some commandName =>
        by_cases hrisk : isHighRisk commandName = true
        · simp only [if_pos hrisk]
          refine iff_of_false (by simp) fun h => ?_
          rw [h.lowRisk commandName hname] at hrisk
          exact Bool.false_ne_true hrisk
        · simp only [if_neg hrisk]
          rw [classifyWriteTargets_none_iff]
          constructor
          · intro htargets
            refine ⟨hredir, ?_, ?_⟩
            · rintro name hname'
              rw [hname] at hname'
              cases hname'
              simpa using hrisk
            · rintro name hname'
              rw [hname] at hname'
              cases hname'
              exact htargets
          · intro h
            exact h.targets commandName hname
  · rename_i hsome
    exact iff_of_false hsome fun h => hsome (hredir.mpr h.redirections)

/-- The objections the preflight can have to a segment. -/
inductive SegmentObjection (allowedRoots : List PathBuf) : ExecToolRoute → Prop where
  | glob (target : Text) :
      SegmentObjection allowedRoots (.needsApproval .write target
        "write target uses glob expansion that preflight cannot verify safely")
  | outside (resolved : PathBuf) :
      SegmentObjection allowedRoots (.needsApproval .write resolved.display
        (("write target is outside the configured exec sandbox roots: " : Text) ++
          renderAllowedRoots allowedRoots))
  | noTarget (operator : Text) :
      SegmentObjection allowedRoots (.needsApproval .write operator
        "shell redirection target could not be resolved safely")
  | highRisk (commandName : Text) (h : isHighRisk commandName = true) :
      SegmentObjection allowedRoots (.needsApproval .exec commandName
        (commandName ++ (" is treated as a high-risk exec operation" : Text)))

section Objections

variable {host : Host} {workdir : PathBuf} {allowedRoots : List PathBuf} {route : ExecToolRoute}

theorem classifyWriteTarget_objection {target : Text}
    (h : classifyWriteTarget host target workdir allowedRoots = .ok (some route)) :
    SegmentObjection allowedRoots route := by
  unfold classifyWriteTarget at h
  split at h
  · cases h
    exact .glob target
  · split at h
    · cases h
    · rename_i resolved _
      split at h
      · cases h
      · cases h
        exact .outside resolved

theorem classifyRedirections_objection {tokens : List ShellToken}
    (h : classifyRedirections host workdir allowedRoots tokens = .ok (some route)) :
    SegmentObjection allowedRoots route := by
  induction tokens with
  | nil => cases h
  | cons token tokens ih =>
      rw [classifyRedirections] at h
      split at h
      · split at h
        · cases h
          exact .noTarget token.text
        · split at h
          · exact ih h
          · exact classifyWriteTarget_objection h
      · exact ih h

theorem classifyWriteTargets_objection {targets : List Text}
    (h : classifyWriteTargets host workdir allowedRoots targets = .ok (some route)) :
    SegmentObjection allowedRoots route := by
  induction targets with
  | nil => cases h
  | cons target targets ih =>
      rw [classifyWriteTargets] at h
      split at h
      · exact ih h
      · split at h
        · exact ih h
        · exact classifyWriteTarget_objection h

/-- **What a segment is stopped for.** -/
theorem classifySegmentWriteAccess_objection {segment : List ShellToken}
    (h : classifySegmentWriteAccess host segment workdir allowedRoots = .ok (some route)) :
    SegmentObjection allowedRoots route := by
  unfold classifySegmentWriteAccess at h
  split at h
  · split at h
    · cases h
    · rename_i commandName _
      split at h
      · rename_i hrisk
        cases h
        exact .highRisk commandName hrisk
      · exact classifyWriteTargets_objection h
  · exact classifyRedirections_objection h

end Objections

theorem classifySegments_sandboxed_iff (host : Host) (workdir : PathBuf)
    (allowedRoots : List PathBuf) (segments : List (List ShellToken)) :
    classifySegments host workdir allowedRoots segments = .ok .sandboxed ↔
      ∀ segment ∈ segments, classifySegmentWriteAccess host segment workdir allowedRoots =
        .ok none := by
  induction segments with
  | nil => simp [classifySegments]
  | cons segment segments ih =>
      rw [classifySegments, List.forall_mem_cons, ← ih]
      rcases hsegment : classifySegmentWriteAccess host segment workdir allowedRoots with
        e | _ | route
      · simp
      · simp
      · have hroute : route ≠ .sandboxed := by
          rintro rfl
          exact nomatch classifySegmentWriteAccess_objection hsegment
        simp [hroute]

/-- **When a command is let through**: no screen stops it, the roots that may be written can be
resolved, and the preflight has no objection to a segment. -/
theorem classifyExecCommandAccess_sandboxed_iff (host : Host) (command : Text)
    (workdir : PathBuf) (config : ExecToolConfig) :
    classifyExecCommandAccess host command workdir config = .ok .sandboxed ↔
      screenCommand command config = none ∧
        ∃ allowedRoots, allowedWriteRoots host workdir config = .ok allowedRoots ∧
          ∀ segment ∈ splitShellSegments ((tokenizeShellCommand command).getD []),
            SegmentPasses host workdir allowedRoots segment := by
  unfold classifyExecCommandAccess
  cases hscreen : screenCommand command config with
  | some found => simp
  | none =>
      cases hroots : allowedWriteRoots host workdir config with
      | error e => simp [bind, Except.bind]
      | ok allowedRoots =>
          simp only [bind, Except.bind, classifySegments_sandboxed_iff,
            classifySegmentWriteAccess_none_iff]
          simp

/-! ## Planning and launching -/

/-- The working directory of a call. -/
def resolveWorkdir (host : Host) (ctx : ToolExecEnv) (workdir : Option Text) :
    Except FrameworkError PathBuf :=
  match workdir with
  | some workdir => resolvePathForRead host workdir ctx.workspaceRoot
  | none => .ok ctx.workspaceRoot

/-- `ExecTool::plan`, after the arguments are parsed. -/
def ExecToolConfig.plan (config : ExecToolConfig) (host : Host) (ctx : ToolExecEnv)
    (args : ExecArgs) : Except FrameworkError ExecPlan :=
  if Text.trim args.command = [] then .error (.tool "exec requires a non-empty command")
  else if args.background = true ∧ config.allowBackground = false then
    .error (.tool "exec background mode is disabled by tools.exec.allow_background")
  else if args.background = true ∧ ctx.allowAsyncTools = false then
    .error (.tool "background async tools are not allowed in delegated runs")
  else
    match resolveWorkdir host ctx args.workdir with
    | .error e => .error e
    | .ok workdir =>
        if host.isDir workdir = false then
          .error (.tool (("exec workdir must be a directory: " : Text) ++ workdir.display))
        else
          match classifyExecCommandAccess host (Text.trim args.command) workdir config with
          | .error e => .error e
          | .ok route => .ok
              { command := Text.trim args.command
                background := args.background
                timeoutSeconds := config.timeoutSeconds.getD 20
                env := ctx.env
                route := route
                workdir := workdir }

/-- What a plan was made from. -/
theorem plan_ok {host : Host} {ctx : ToolExecEnv} {config : ExecToolConfig} {args : ExecArgs}
    {plan : ExecPlan} (h : config.plan host ctx args = .ok plan) :
    resolveWorkdir host ctx args.workdir = .ok plan.workdir ∧
      plan.command = Text.trim args.command ∧ plan.command ≠ [] ∧
      host.isDir plan.workdir = true ∧
      classifyExecCommandAccess host plan.command plan.workdir config = .ok plan.route := by
  unfold ExecToolConfig.plan at h
  split at h
  · cases h
  · rename_i hcommand
    split at h
    · cases h
    · split at h
      · cases h
      · split at h
        · cases h
        · rename_i workdir hworkdir
          split at h
          · cases h
          · rename_i hdir
            split at h
            · cases h
            · rename_i route hroute
              cases h
              exact ⟨hworkdir, rfl, hcommand, by simpa using hdir, hroute⟩

/-- A call in the foreground is planned if its directory and its command are in order. -/
theorem plan_eq_ok {host : Host} {config : ExecToolConfig} (ctx : ToolExecEnv) (args : ExecArgs)
    {workdir : PathBuf} {route : ExecToolRoute} (hforeground : args.background = false)
    (hcommand : Text.trim args.command ≠ [])
    (hworkdir : resolveWorkdir host ctx args.workdir = .ok workdir)
    (hdir : host.isDir workdir = true)
    (hroute : classifyExecCommandAccess host (Text.trim args.command) workdir config = .ok route) :
    config.plan host ctx args = .ok ⟨Text.trim args.command, false,
      config.timeoutSeconds.getD 20, ctx.env, workdir, route⟩ := by
  unfold ExecToolConfig.plan
  rw [if_neg hcommand, if_neg (by simp [hforeground]), if_neg (by simp [hforeground])]
  simp [hworkdir, hdir, hroute, hforeground]

/-- `sandbox_policy`. -/
def ExecToolConfig.sandboxPolicy (config : ExecToolConfig) : SandboxPolicy where
  networkEnabled := config.sandbox.networkEnabled.getD false
  extraWritablePaths := config.sandbox.extraWritablePaths

/-- What `execute_host_sandboxed` launches a plan under, in the foreground or prepared for the
background alike. -/
def ExecToolConfig.launchConfig (config : ExecToolConfig) (host : Host) (plan : ExecPlan) :
    Except FrameworkError FilesystemConfig :=
  prepareCommandForExec host plan.workdir config.sandboxPolicy

end Tools
end SimpleClaw
