import SimpleClaw.Invoke.Registry
import SimpleClaw.Lib.ProgramLogic

/-!
# What the tools of a run do

The executor runs an entry with the configuration of its tool.  What that comes to is a program
that asks its surroundings: the provider, the user, the sandboxes, the shell, the runs in the
background and the invoker of agents.  The answers are any.  A file or web tool is planned and
run by a call each, a direct tool by one call with its arguments as they are.

* `parseExecArgs`, `parseSummonArgs`, `parseTaskArgs`: the arguments of the tools that can start
  something in the background.
* `execute`: an entry, executed.
* `SystemCall.Stays`: the call starts no run, invokes nobody and is none of the removed tools.
* `execute_stays`: in a run without background tools, whatever the arguments are.
-/

namespace SimpleClaw
namespace Invoke

open Approval (ApprovalRequest ApprovalDecision)
open Providers
open React (StartedAsyncToolRun ToolExecutionOutcome ToolExecutionResult)
open Sandbox (SandboxPolicy)
open Tools (ExecArgs ExecPlan ExecToolConfig PlanOf ToolExecEnv)

/-! ## Invocations -/

structure AgentInvokeRequest where
  targetAgentId : Text
  sessionId : Text
  userId : Text
  prompt : Text
  deriving DecidableEq

structure WorkerInvokeRequest where
  currentAgentId : Text
  sessionId : Text
  userId : Text
  prompt : Text
  maxStepsOverride : Option Nat
  deriving DecidableEq

/-- What the invoker is asked for. -/
inductive Invocation where
  | agent (request : AgentInvokeRequest)
  | worker (request : WorkerInvokeRequest)
  deriving DecidableEq

structure InvokeOutcome where
  reply : Text
  toolCalls : List ToolExecutionResult

/-! ## The calls of a run -/

structure HostRunResult where
  stdout : Text
  stderr : Text
  exitCode : Int
  deriving DecidableEq

structure PreparedHostCommand where
  wrappedCommand : Text
  normalizedWorkspaceRoot : PathBuf
  deriving DecidableEq

/-- What a run asks of its surroundings. -/
inductive SystemCall where
  | generate (systemPrompt : Text) (history : List Message) (toolSpecs : List ToolDefinition)
  | generateStream (systemPrompt : Text) (history : List Message)
      (toolSpecs : List ToolDefinition)
  | requestApproval (request : ApprovalRequest)
  | planTool (tool : Tools.RegisteredTool) (argsJson : Text)
  | runWasm (tool : Tools.RegisteredTool) (plan : PlanOf tool)
  | runUnsandboxed (tool : Tools.RegisteredTool) (plan : PlanOf tool)
  | execShellCommand (command : Text) (workdir : PathBuf) (env : List (Text × Text))
      (timeoutSeconds : Nat)
  | runHostCommand (command : Text) (workspaceRoot : PathBuf) (policy : SandboxPolicy)
      (env : List (Text × Text)) (timeoutSeconds : Nat)
  | prepareSpawn (command : Text) (workspaceRoot : PathBuf) (policy : SandboxPolicy)
  | startProcess (toolName command agentId sessionKey : Text) (workspaceRoot : PathBuf)
      (env : List (Text × Text))
  | startPreparedProcess (toolName command agentId sessionKey : Text)
      (prepared : PreparedHostCommand) (env : List (Text × Text))
  | startDelegated (toolName request agentId sessionKey : Text) (future : Invocation)
  | invoke (invocation : Invocation)
  | direct (tool : DirectTool) (argsJson sessionId : Text)

def SystemAnswer : SystemCall → Type
  | .generate _ _ _ => Except FrameworkError ProviderResponse
  | .generateStream _ _ _ => Except FrameworkError (List StreamEvent)
  | .requestApproval _ => Except FrameworkError ApprovalDecision
  | .planTool tool _ => Except FrameworkError (PlanOf tool)
  | .runWasm _ _ | .runUnsandboxed _ _ | .direct _ _ _ => Except FrameworkError Text
  | .execShellCommand _ _ _ _ | .runHostCommand _ _ _ _ _ => Except FrameworkError HostRunResult
  | .prepareSpawn _ _ _ => Except FrameworkError PreparedHostCommand
  | .startProcess _ _ _ _ _ _ | .startPreparedProcess _ _ _ _ _ _ | .startDelegated _ _ _ _ _ =>
      Except FrameworkError StartedAsyncToolRun
  | .invoke _ => Except FrameworkError InvokeOutcome

abbrev SystemProgram (α : Type) := Program SystemCall SystemAnswer α

abbrev SystemEvent := Program.Event SystemCall SystemAnswer

/-- The call is made and answered. -/
def perform (call : SystemCall) : SystemProgram (SystemAnswer call) := Program.ask call

/-- The execution of a tool. -/
abbrev ToolProgram := SystemProgram (Except FrameworkError ToolExecutionOutcome)

/-- The tool completes with the text it was answered. -/
def completing (p : SystemProgram (Except FrameworkError Text)) : ToolProgram :=
  Program.andThen p fun output => .pure (.ok (.completed output []))

/-- What the tools of a run work with. -/
structure ToolRun where
  json : SerdeJson
  host : Host
  env : ToolExecEnv
  ownerIds : List Text

/-! ## Arguments -/

/-- The arguments are read off an object with a text under the key.  A text in place of the object
is that text, and so is what cannot be read, without the quotation marks around it. -/
def readArgs {α : Type} (json : SerdeJson) (argsJson key : Text) (ofObject : Value → Text → α)
    (ofText : Text → α) : α :=
  match json.fromStr argsJson with
  | .ok value =>
      match value.str key, value.asStr with
      | some text, _ => ofObject value text
      | none, some text => ofText text
      | none, none => ofText (argsJson.trimMatches (· == '"'))
  | .error _ => ofText (argsJson.trimMatches (· == '"'))

/-- Whether `background` is set. -/
def backgroundFlag (value : Value) : Bool :=
  ((value.get "background").bind Value.asBool).getD false

def parseExecArgs (json : SerdeJson) (argsJson : Text) : ExecArgs :=
  readArgs json argsJson "command"
    (fun value command =>
      { command
        background := backgroundFlag value
        workdir := ((value.get "workdir").or (value.get "cwd")).bind Value.asStr })
    fun command => ⟨command, false, none⟩

structure SummonArgs where
  agent : Text
  summary : Text
  background : Bool
  deriving DecidableEq

def parseSummonArgs (json : SerdeJson) (argsJson : Text) : SummonArgs :=
  readArgs json argsJson "agent"
    (fun value agent =>
      { agent
        summary := (value.str "summary").getD []
        background := backgroundFlag value })
    fun agent => ⟨agent, [], false⟩

structure TaskArgs where
  prompt : Text
  background : Bool
  deriving DecidableEq

def parseTaskArgs (json : SerdeJson) (argsJson : Text) : TaskArgs :=
  readArgs json argsJson "prompt" (fun value prompt => ⟨prompt, backgroundFlag value⟩)
    fun prompt => ⟨prompt, false⟩

/-! ## Shell commands -/

def truncateForToolOutput (text : Text) (maxChars : Nat) : Text :=
  let total := text.length
  if total ≤ maxChars then text
  else
    let headBudget := maxChars / 5
    let tailBudget := maxChars - headBudget
    text.take headBudget ++ ("\n...[" : Text) ++
      (toString (total - headBudget - tailBudget)).toList ++
      (" chars truncated]...\n" : Text) ++ text.drop (total - tailBudget)

def commandOutputToJson (exitCode : Int) (stdout stderr : Text) : Value :=
  .object [("status", .string "completed"), ("exitCode", .number (toString exitCode).toList),
    ("stdout", .string (truncateForToolOutput stdout 8000)),
    ("stderr", .string (truncateForToolOutput stderr 4000))]

/-- `ExecTool::execute_direct` -/
def execDirect (run : ToolRun) (plan : ExecPlan) (sessionId : Text) : ToolProgram :=
  if plan.background then
    Program.andThen (perform (.startProcess "exec" plan.command run.env.agentId sessionId
      plan.workdir plan.env)) fun started => .pure (.ok (.asyncStarted started))
  else
    Program.andThen (perform (.execShellCommand plan.command plan.workdir plan.env
      plan.timeoutSeconds)) fun output =>
        .pure (.ok (.completed (run.json.toString (commandOutputToJson output.exitCode
          (Text.trim output.stdout) (Text.trim output.stderr))) []))

def defaultSandboxExecTimeoutSecs : Nat := 120

/-- `ExecTool::execute_host_sandboxed` -/
def execHostSandboxed (run : ToolRun) (config : ExecToolConfig) (plan : ExecPlan)
    (sessionId : Text) : ToolProgram :=
  if plan.background then
    Program.andThen (perform (.prepareSpawn plan.command plan.workdir config.sandboxPolicy))
      fun prepared =>
        Program.andThen (perform (.startPreparedProcess "exec" plan.command run.env.agentId
          sessionId prepared plan.env)) fun started => .pure (.ok (.asyncStarted started))
  else
    Program.andThen (perform (.runHostCommand plan.command plan.workdir config.sandboxPolicy
      plan.env (config.timeoutSeconds.getD defaultSandboxExecTimeoutSecs))) fun output =>
        .pure (.ok (.completed (run.json.toString (commandOutputToJson output.exitCode
          output.stdout output.stderr)) []))

/-- `ExecTool::execute` -/
def execTool (run : ToolRun) (config : ExecToolConfig) (argsJson sessionId : Text) : ToolProgram :=
  match config.plan run.host run.env (parseExecArgs run.json argsJson) with
  | .error err => .pure (.error err)
  | .ok plan => execDirect run plan sessionId

/-! ## Delegation -/

/-- Where `summon` and `task` do the same: what they ask of the invoker, in the background if that
is wanted and allowed. -/
def delegate (run : ToolRun) (toolName : Text) (background allowBackground : Bool)
    (request sessionId : Text) (invocation : Invocation) : ToolProgram :=
  if background then
    if allowBackground = false then
      .pure (.error (.tool (toolName ++ (" background mode is disabled by tools." : Text) ++
        toolName ++ (".allow_background" : Text))))
    else if run.env.allowAsyncTools = false then
      .pure (.error (.tool "background async tools are not allowed in delegated runs"))
    else
      Program.andThen (perform (.startDelegated toolName request run.env.agentId sessionId
        invocation)) fun started => .pure (.ok (.asyncStarted started))
  else
    Program.andThen (perform (.invoke invocation)) fun outcome =>
      .pure (.ok (.completed outcome.reply outcome.toolCalls))

def handoff (args : SummonArgs) : Text :=
  if Text.trim args.summary = [] then
    ("You were summoned as agent `" : Text) ++ args.agent ++
      ("`. Continue from session context and produce a final answer." : Text)
  else
    ("You were summoned as agent `" : Text) ++ args.agent ++
      ("` with handoff summary:\n" : Text) ++ args.summary

/-- `SummonTool::execute_with_trace` -/
def summonTool (run : ToolRun) (config : SummonToolConfig) (argsJson sessionId : Text) :
    ToolProgram :=
  let args := parseSummonArgs run.json argsJson
  if args.agent ∉ config.allowed then
    .pure (.error (.tool (("summon target '" : Text) ++ args.agent ++
      ("' is not allowed by tools.summon.allowed" : Text))))
  else
    delegate run "summon" args.background config.allowBackground (handoff args) sessionId
      (.agent ⟨args.agent, sessionId, run.env.userId, handoff args⟩)

/-- `TaskTool::execute_with_trace` -/
def taskTool (run : ToolRun) (config : TaskToolConfig) (argsJson sessionId : Text) :
    ToolProgram :=
  let args := parseTaskArgs run.json argsJson
  delegate run "task" args.background config.allowBackground args.prompt sessionId
    (.worker ⟨run.env.agentId, sessionId, run.env.userId, args.prompt, config.workerMaxSteps⟩)

/-! ## The executor -/

/-- A file or web tool, planned and run. -/
def plannedTool (tool : Tools.RegisteredTool) (argsJson : Text) : ToolProgram :=
  Program.andThen (perform (.planTool tool argsJson)) fun plan =>
    completing (perform (.runUnsandboxed tool plan))

/-- `RegisteredTool::execute_direct` -/
def RegisteredTool.executeDirect (run : ToolRun) (tool : RegisteredTool)
    (argsJson sessionId : Text) : ToolProgram :=
  match tool with
  | .exec config => execTool run config argsJson sessionId
  | .summon config => summonTool run config argsJson sessionId
  | .task config => taskTool run config argsJson sessionId
  | .direct tool => completing (perform (.direct tool argsJson sessionId))
  | .webSearch | .webFetch | .read | .edit | .glob | .grep | .list =>
      plannedTool tool.plain argsJson

/-- The configuration of commands, as `tools.exec` has it if it is left out. -/
def RegisteredTool.execConfig : RegisteredTool → ExecToolConfig
  | .exec config => config
  | _ => ⟨none, true, ⟨none, [], []⟩⟩

/-- What the tool does for each call of the executor. -/
def RegisteredTool.answer (run : ToolRun) (tool : RegisteredTool) (sessionId : Text) :
    (call : Tools.Call) → SystemProgram (Tools.Answer ToolExecutionOutcome call)
  | .plan .exec argsJson =>
      .pure (tool.execConfig.plan run.host run.env (parseExecArgs run.json argsJson))
  | .plan planned argsJson => perform (.planTool planned argsJson)
  | .executeWasm executed plan => completing (perform (.runWasm executed plan))
  | .executeHostSandboxed plan sessionId => execHostSandboxed run tool.execConfig plan sessionId
  | .requestApproval request => perform (.requestApproval request)
  | .executeDirect .exec plan => execDirect run plan sessionId
  | .executeDirect executed plan => completing (perform (.runUnsandboxed executed plan))
  | .executeTool _ argsJson sessionId => tool.executeDirect run argsJson sessionId

/-- An entry is executed with the configuration of its tool. -/
def execute (run : ToolRun) (entry : AgentToolEntry) (argsJson sessionId : Text) : ToolProgram :=
  (Tools.execute entry.plain.toAgentToolEntry run.env argsJson sessionId).interp
    (entry.tool.answer run sessionId)

/-! ## What the calls are -/

/-- The call starts an async tool run. -/
def SystemCall.startsRun : SystemCall → Bool
  | .startProcess _ _ _ _ _ _ | .startPreparedProcess _ _ _ _ _ _ | .startDelegated _ _ _ _ _ =>
      true
  | .generate _ _ _ | .generateStream _ _ _ | .requestApproval _ | .planTool _ _ | .runWasm _ _
  | .runUnsandboxed _ _ | .execShellCommand _ _ _ _ | .runHostCommand _ _ _ _ _
  | .prepareSpawn _ _ _ | .invoke _ | .direct _ _ _ => false

/-- What the call invokes, now or in the background. -/
def SystemCall.invocation : SystemCall → Option Invocation
  | .invoke invocation | .startDelegated _ _ _ _ invocation => some invocation
  | .generate _ _ _ | .generateStream _ _ _ | .requestApproval _ | .planTool _ _ | .runWasm _ _
  | .runUnsandboxed _ _ | .execShellCommand _ _ _ _ | .runHostCommand _ _ _ _ _
  | .prepareSpawn _ _ _ | .startProcess _ _ _ _ _ _ | .startPreparedProcess _ _ _ _ _ _
  | .direct _ _ _ => none

/-- The direct tool the call runs. -/
def SystemCall.directTool : SystemCall → Option DirectTool
  | .direct tool _ _ => some tool
  | .generate _ _ _ | .generateStream _ _ _ | .requestApproval _ | .planTool _ _ | .runWasm _ _
  | .runUnsandboxed _ _ | .execShellCommand _ _ _ _ | .runHostCommand _ _ _ _ _
  | .prepareSpawn _ _ _ | .startProcess _ _ _ _ _ _ | .startPreparedProcess _ _ _ _ _ _
  | .startDelegated _ _ _ _ _ | .invoke _ => none

/-- The call starts no run, invokes nobody and is none of the removed tools. -/
structure SystemCall.Stays (removed : List Text) (call : SystemCall) : Prop where
  startsRun : call.startsRun = false
  invocation : call.invocation = none
  directTool : ∀ tool, call.directTool = some tool → tool.name ∉ removed

/-- The program stays where it is, whatever it is answered, and returns what it may. -/
abbrev StaysInside {α : Type} (removed : List Text) (post : α → Prop) (p : SystemProgram α) :
    Prop :=
  p.Meets (SystemCall.Stays removed) (fun _ _ => True) post

/-! ## What the executor relies on -/

/-- Commands are planned for the foreground. -/
def PlansForeground : (call : Tools.Call) → Tools.Answer ToolExecutionOutcome call → Prop
  | .plan .exec _, answer => ∀ plan : ExecPlan, answer = .ok plan → plan.background = false
  | _, _ => True

/-- Commands are run in the foreground. -/
def RunsForeground : Tools.Call → Prop
  | .executeHostSandboxed plan _ => plan.background = false
  | .executeDirect .exec plan => ExecPlan.background plan = false
  | _ => True

/-- The executor runs what was planned: commands planned for the foreground it runs there. -/
abbrev KeepsForeground (p : Tools.Execution ToolExecutionOutcome ToolExecutionOutcome) : Prop :=
  p.Meets RunsForeground PlansForeground fun _ => True

section Executor

variable {tool : Tools.RegisteredTool} {ctx : ToolExecEnv} {argsJson sessionId : Text}

/-- A call of the executor, for a command one in the foreground. -/
theorem meets_perform {call : Tools.Call} (h : RunsForeground call) :
    (Tools.perform call : Program Tools.Call (Tools.Answer ToolExecutionOutcome) _).Meets
      RunsForeground PlansForeground (PlansForeground call) :=
  Program.meets_ask h

/-- A tool that is planned is run with a plan for the foreground. -/
theorem meets_plan {f : PlanOf tool → Tools.Execution ToolExecutionOutcome ToolExecutionOutcome}
    (hf : ∀ plan, RunsForeground (.executeDirect tool plan) → KeepsForeground (f plan)) :
    KeepsForeground (Program.andThen (Tools.perform (.plan tool argsJson)) f) := by
  have hplan := @meets_perform (.plan tool argsJson) trivial
  refine Program.Meets.andThen hplan (fun _ _ => trivial) fun plan hforeground => hf plan ?_
  cases tool with
  | exec => exact hforeground plan rfl
  | webSearch | webFetch | read | edit | glob | grep | list | summon | task | direct => trivial

/-- What follows an escalation is what counts. -/
theorem meets_escalation {toolName : Text} {capability : SandboxCapability}
    {target reason : Text} {p : Tools.Execution ToolExecutionOutcome ToolExecutionOutcome}
    (h : KeepsForeground p) :
    KeepsForeground (Program.andThen
      (Tools.requestToolEscalation ctx sessionId toolName capability target reason)
      fun _ => p) := by
  have hrequest : (Tools.requestToolEscalation ctx sessionId toolName capability target reason :
      Tools.Execution ToolExecutionOutcome Unit).Meets RunsForeground PlansForeground
        fun _ => True := by
    refine Program.Meets.andThen (meets_perform trivial) (fun _ _ => trivial) fun decision _ => ?_
    cases decision <;> trivial
  exact hrequest.andThen (fun _ _ => trivial) fun _ _ => h

/-- A call of the executor that ends it. -/
theorem meets_last {call : Tools.Call} (h : RunsForeground call) :
    (Tools.perform call : Program Tools.Call (Tools.Answer ToolExecutionOutcome) _).Meets
      RunsForeground PlansForeground fun _ => True :=
  (meets_perform h).mono fun _ _ => trivial

theorem executeUnsandboxed_keepsForeground :
    KeepsForeground (Tools.executeUnsandboxed tool argsJson) :=
  meets_plan fun _ hplan => meets_last hplan

theorem executeWeb_keepsForeground : KeepsForeground (Tools.executeWeb tool argsJson) :=
  meets_plan fun _ _ => meets_last trivial

theorem executeFile_keepsForeground {route : PlanOf tool → Tools.FileToolRoute}
    {toolName : Text} :
    KeepsForeground (Tools.executeFile tool route ctx argsJson sessionId toolName) := by
  refine meets_plan fun plan hplan => ?_
  cases route plan with
  | sandboxed =>
      have hwasm := @meets_perform (.executeWasm tool plan) trivial
      exact hwasm.bind fun _ _ => trivial
  | needsApproval => exact meets_escalation (meets_last hplan)

/-- A command runs as it was planned, in the sandbox and outside. -/
theorem executeCommand_keepsForeground :
    KeepsForeground (Tools.executeCommand ctx argsJson sessionId) := by
  refine meets_plan fun (plan : ExecPlan) hplan => ?_
  have hdirect : KeepsForeground (Tools.perform (.executeDirect .exec plan)) := meets_last hplan
  cases plan.route with
  | needsApproval => exact meets_escalation hdirect
  | sandboxed =>
      have hsandboxed := @meets_perform (.executeHostSandboxed plan sessionId) hplan
      refine hsandboxed.bind fun answer _ => ?_
      cases answer with
      | ok outcome => trivial
      | error err =>
          dsimp only
          cases err.asSandboxPermissionDenied with
          | none => trivial
          | some denial => exact meets_escalation hdirect

/-- **The executor runs commands as they are planned.** -/
theorem execute_keepsForeground (entry : Tools.AgentToolEntry) :
    KeepsForeground (Tools.execute entry ctx argsJson sessionId) := by
  obtain ⟨tool, kind⟩ := entry
  cases kind with
  | direct =>
      cases tool with
      | webSearch | webFetch | read | edit | glob | grep | list | exec =>
          exact executeUnsandboxed_keepsForeground
      | summon | task | direct name => exact meets_last trivial
  | wasmSandbox =>
      cases tool with
      | webSearch | webFetch => exact executeWeb_keepsForeground
      | read | edit | glob | grep | list => exact executeFile_keepsForeground
      | exec | summon | task | direct name => trivial
  | hostSandbox =>
      cases tool with
      | exec => exact executeCommand_keepsForeground
      | webSearch | webFetch | read | edit | glob | grep | list | summon | task | direct name =>
          trivial

end Executor

/-! ## What the tools stay inside of -/

section Stays

variable {run : ToolRun} {removed : List Text} {argsJson sessionId : Text}

theorem stays_perform {call : SystemCall} (h : call.Stays removed) :
    StaysInside removed (fun _ => True) (perform call) :=
  (Program.meets_ask h).mono fun _ _ => trivial

/-- A call that neither starts, invokes nor runs a direct tool. -/
theorem stays_of_none {call : SystemCall} (hstarts : call.startsRun = false)
    (hinvocation : call.invocation = none) (hdirect : call.directTool = none) :
    call.Stays removed where
  startsRun := hstarts
  invocation := hinvocation
  directTool := by
    intro tool htool
    rw [hdirect] at htool
    cases htool

theorem stays_completing {p : SystemProgram (Except FrameworkError Text)}
    (h : StaysInside removed (fun _ => True) p) :
    StaysInside removed (fun _ => True) (completing p) :=
  h.andThen (fun _ _ => trivial) fun _ _ => trivial

/-- A command in the foreground starts nothing. -/
theorem stays_execDirect {plan : ExecPlan} (h : plan.background = false) :
    StaysInside removed (fun _ => True) (execDirect run plan sessionId) := by
  rw [execDirect, if_neg (by rw [h]; exact Bool.false_ne_true)]
  exact (stays_perform (stays_of_none rfl rfl rfl)).andThen (fun _ _ => trivial)
    fun _ _ => trivial

theorem stays_execHostSandboxed {config : ExecToolConfig} {plan : ExecPlan}
    (h : plan.background = false) :
    StaysInside removed (fun _ => True) (execHostSandboxed run config plan sessionId) := by
  rw [execHostSandboxed, if_neg (by rw [h]; exact Bool.false_ne_true)]
  exact (stays_perform (stays_of_none rfl rfl rfl)).andThen (fun _ _ => trivial)
    fun _ _ => trivial

/-- **Without background tools no command is planned for the background**, whatever its
configuration and its arguments are. -/
theorem plan_foreground {host : Host} {ctx : ToolExecEnv} {config : ExecToolConfig}
    {args : ExecArgs} {plan : ExecPlan} (hasync : ctx.allowAsyncTools = false)
    (h : config.plan host ctx args = .ok plan) : plan.background = false := by
  unfold ExecToolConfig.plan at h
  split at h
  · cases h
  · split at h
    · cases h
    · split at h
      · cases h
      · next hbackground =>
          have hargs : args.background = false := by
            by_contra hne
            exact hbackground ⟨Bool.eq_true_of_not_eq_false hne, hasync⟩
          split at h
          · cases h
          · split at h
            · cases h
            · split at h
              · cases h
              · cases h
                exact hargs

/-- The tools that are left, run directly. -/
theorem stays_executeDirect {tool : RegisteredTool} (hasync : run.env.allowAsyncTools = false)
    (hsummon : ("summon" : Text) ∈ removed) (htask : ("task" : Text) ∈ removed)
    (hname : tool.name ∉ removed) :
    StaysInside removed (fun _ => True) (tool.executeDirect run argsJson sessionId) := by
  cases tool with
  | exec config =>
      rw [RegisteredTool.executeDirect, execTool]
      cases hplan : config.plan run.host run.env (parseExecArgs run.json argsJson) with
      | error err => trivial
      | ok plan => exact stays_execDirect (plan_foreground hasync hplan)
  | summon config => exact absurd hsummon hname
  | task config => exact absurd htask hname
  | direct tool =>
      refine stays_completing (stays_perform ⟨rfl, rfl, ?_⟩)
      rintro _ ⟨⟩
      exact hname
  | webSearch | webFetch | read | edit | glob | grep | list =>
      exact (stays_perform (stays_of_none rfl rfl rfl)).andThen (fun _ _ => trivial)
        fun _ _ => stays_completing (stays_perform (stays_of_none rfl rfl rfl))

/-- What a tool that is left does for the calls of the executor. -/
theorem stays_answer {tool : RegisteredTool} (hasync : run.env.allowAsyncTools = false)
    (hsummon : ("summon" : Text) ∈ removed) (htask : ("task" : Text) ∈ removed)
    (hname : tool.name ∉ removed)
    {call : Tools.Call} (h : RunsForeground call) :
    StaysInside removed (PlansForeground call) (tool.answer run sessionId call) := by
  cases call with
  | plan planned argsJson =>
      cases planned with
      | exec => exact fun plan hplan => plan_foreground hasync hplan
      | webSearch | webFetch | read | edit | glob | grep | list | summon | task | direct =>
          exact (stays_perform (stays_of_none rfl rfl rfl)).mono fun _ _ => trivial
  | executeWasm executed plan =>
      exact (stays_completing (stays_perform (stays_of_none rfl rfl rfl))).mono fun _ _ => trivial
  | executeHostSandboxed plan sessionId =>
      exact (stays_execHostSandboxed h).mono fun _ _ => trivial
  | requestApproval request =>
      exact (stays_perform (stays_of_none rfl rfl rfl)).mono fun _ _ => trivial
  | executeDirect executed plan =>
      cases executed with
      | exec => exact (stays_execDirect h).mono fun _ _ => trivial
      | webSearch | webFetch | read | edit | glob | grep | list | summon | task | direct =>
          exact (stays_completing (stays_perform (stays_of_none rfl rfl rfl))).mono
            fun _ _ => trivial
  | executeTool executed argsJson sessionId =>
      exact (stays_executeDirect hasync hsummon htask hname).mono fun _ _ => trivial

/-- **An entry that is left starts no run, invokes nobody and runs no removed tool**, in a run
without background tools, whatever the arguments of the call are. -/
theorem execute_stays {entry : AgentToolEntry} (hasync : run.env.allowAsyncTools = false)
    (hsummon : ("summon" : Text) ∈ removed) (htask : ("task" : Text) ∈ removed)
    (hname : entry.tool.name ∉ removed) :
    StaysInside removed (fun _ => True) (execute run entry argsJson sessionId) :=
  (execute_keepsForeground _).interp fun _ hcall =>
    stays_answer hasync hsummon htask hname hcall

end Stays

end Invoke
end SimpleClaw
