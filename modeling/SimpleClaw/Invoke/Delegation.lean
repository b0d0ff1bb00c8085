import SimpleClaw.Invoke.ToolRuns
import SimpleClaw.React.Loop
import SimpleClaw.Turn.Prepare

/-!
# Delegated runs

`invoke_agent` runs another agent on a prompt, `invoke_worker` the same agent as a worker.  Both
take `summon`, `task` and `background` from its tools, switch background off in the others if
commands are enabled, and forbid async tools in the environment of the run.  The loop is the one
of every run, here with the tools as they are configured and with any dispatcher in place of the
native one.  The executions of one response are listed one after the other: as they are answered
in any way, their calls in any other order are those of such a run as well.

* `runLoop`: the loop.
* `DirectAgentInvoker.invoke`: a delegated run.
* `OneLevel`: what such a run never does, and how deep runs are nested.
* `delegation_one_level`: for every invoker, directory and request.
-/

namespace SimpleClaw
namespace Invoke

open Providers
open React (DispatchAction ParsedToolCall RunOutcome ToolCaller ToolExecutionResult
  ToolExecutionStatus)
open Tools (ToolExecEnv)

/-! ## The loop -/

/-- `ToolDispatcher` -/
structure ToolDispatcher where
  parseResponse : ProviderResponse → DispatchAction
  formatForHistory : List ParsedToolCall → List ToolExecutionResult → List Message
  promptInstructions : List ToolDefinition → Text
  shouldSendToolSpecs : Bool

def nativeDispatcher (json : SerdeJson) : ToolDispatcher where
  parseResponse := React.NativeDispatcher.parseResponse json
  formatForHistory := React.NativeDispatcher.formatForHistory json
  promptInstructions := React.NativeDispatcher.promptInstructions
  shouldSendToolSpecs := React.NativeDispatcher.shouldSendToolSpecs

structure RunParams where
  providerKey : Text
  systemPrompt : Text
  agentId : Text
  agentName : Text
  sessionId : Text
  maxSteps : Nat
  executionEnv : List (Text × Text)
  workspaceRoot : PathBuf
  userId : Text
  ownerIds : List Text
  toolRegistry : AgentToolRegistry
  sourceMessageId : Option Text
  onTextDelta : Bool
  allowAsyncTools : Bool

def ToolRun.caller (run : ToolRun) : ToolCaller := ⟨run.env.userId, run.ownerIds⟩

/-- A call that is executed has the result of its execution, any other one says why not. -/
def executeToolCall (run : ToolRun) (activeTools : AgentToolRegistry) (sessionId : Text)
    (call : ParsedToolCall) : SystemProgram ToolExecutionResult :=
  let argsJson := run.json.toString call.arguments
  let result : Text × List ToolExecutionResult × ToolExecutionStatus → ToolExecutionResult :=
    fun (output, nestedToolCalls, status) =>
      { name := call.name, argsJson, output, status, toolCallId := call.toolCallId
        nestedToolCalls }
  match activeTools.get call.name with
  | some entry =>
      match React.authorize entry.plain run.caller with
      | .ok () =>
          Program.bind (execute run entry argsJson sessionId) fun answer =>
            .pure (result (React.observation run.json (.execute entry.plain) answer))
      | .error err => .pure (result (("tool_error: " : Text) ++ err.display, [], .toolError))
  | none =>
      .pure (result (("tool_error: unknown tool: " : Text) ++ call.name, [], .toolError))

def executeToolCalls (run : ToolRun) (activeTools : AgentToolRegistry) (sessionId : Text)
    (calls : List ParsedToolCall) : SystemProgram (List ToolExecutionResult) :=
  Program.forEach (executeToolCall run activeTools sessionId) calls

/-- Streamed if there is someone to show the text to. -/
def generateProviderResponse (systemPrompt : Text) (history : List Message)
    (toolSpecs : List ToolDefinition) (onTextDelta : Bool) :
    SystemProgram (Except FrameworkError ProviderResponse) :=
  if onTextDelta then
    Program.andThen (perform (.generateStream systemPrompt history toolSpecs))
      fun (events : List StreamEvent) => .pure (React.collectStream [] [] events)
  else perform (.generate systemPrompt history toolSpecs)

/-- What a loop works with. -/
structure LoopContext where
  run : ToolRun
  dispatcher : ToolDispatcher
  turnTools : AgentToolRegistry
  effectiveSystemPrompt : Text
  toolSpecs : List ToolDefinition
  sessionId : Text
  onTextDelta : Bool

/-- The steps that are left, with the history and the results so far. -/
def LoopContext.steps (ctx : LoopContext) : Nat → List Message → List ToolExecutionResult →
    SystemProgram (Except FrameworkError RunOutcome)
  | 0, _, executedToolCalls =>
      .pure (.ok (.of "max_steps reached without final response" executedToolCalls))
  | n + 1, history, executedToolCalls =>
      Program.andThen
        (generateProviderResponse ctx.effectiveSystemPrompt history ctx.toolSpecs ctx.onTextDelta)
        fun response =>
          match ctx.dispatcher.parseResponse response with
          | .toolCalls calls =>
              Program.bind (executeToolCalls ctx.run ctx.turnTools ctx.sessionId calls)
                fun results =>
                  ctx.steps n (history ++ ctx.dispatcher.formatForHistory calls results)
                    (executedToolCalls ++ results)
          | .finalResponse text => .pure (.ok (.of text executedToolCalls))
          | .empty => ctx.steps n history executedToolCalls

/-- The loops of the process: how the provider of a key is found, and whether it has tools of its
own; the dispatcher for those that do not; and how tools are described. -/
structure ReactLoop where
  json : SerdeJson
  host : Host
  provider : Text → Except FrameworkError Bool
  xmlDispatcher : ToolDispatcher
  definition : RegisteredTool → ToolDefinition

namespace ReactLoop

variable (loop : ReactLoop)

def resolveDispatcher (supportsNativeTools : Bool) : ToolDispatcher :=
  if supportsNativeTools then nativeDispatcher loop.json else loop.xmlDispatcher

/-- Without a message to react to, there is no tool for it. -/
def loopContext (dispatcher : ToolDispatcher) (params : RunParams) : LoopContext :=
  let turnTools :=
    if params.sourceMessageId.isSome then params.toolRegistry
    else params.toolRegistry.without "react"
  let definitions := turnTools.ordered.map fun entry => loop.definition entry.tool
  let extraInstructions := dispatcher.promptInstructions definitions
  { run :=
      { json := loop.json
        host := loop.host
        env :=
          { agentId := params.agentId
            agentName := params.agentName
            userId := params.userId
            workspaceRoot := params.workspaceRoot
            env := params.executionEnv
            allowAsyncTools := params.allowAsyncTools }
        ownerIds := params.ownerIds }
    dispatcher, turnTools
    effectiveSystemPrompt :=
      if extraInstructions = [] then params.systemPrompt ++ React.noReplyPromptInstruction
      else params.systemPrompt ++ extraInstructions ++ React.noReplyPromptInstruction
    toolSpecs := if dispatcher.shouldSendToolSpecs then definitions else []
    sessionId := params.sessionId
    onTextDelta := params.onTextDelta }

/-- `ReactLoop::run` -/
def run (params : RunParams) (history : List Message) :
    SystemProgram (Except FrameworkError RunOutcome) :=
  match loop.provider params.providerKey with
  | .error err => .pure (.error err)
  | .ok supportsNativeTools =>
      (loop.loopContext (loop.resolveDispatcher supportsNativeTools) params).steps
        params.maxSteps history []

end ReactLoop

/-! ## The invoker -/

/-- What a delegated run reads of an agent; `toolsExec` is whether commands are enabled, if
`tools.exec` is there. -/
structure AgentRuntimeConfig where
  agentName : Text
  providerKey : Text
  effectiveExecution : Turn.ExecutionDefaultsConfig
  ownerIds : List Text
  toolsExec : Option Bool
  toolRegistry : AgentToolRegistry
  workspaceRoot : PathBuf
  systemPrompt : Text

/-- What is taken from the tools of an agent that is invoked. -/
def removedFromAgent : List Text := ["summon", "task", "background"]

def removedFromWorker : List Text := ["summon", "task", "background", "memorize", "forget"]

namespace AgentRuntimeConfig

variable (config : AgentRuntimeConfig)

def execEnabled : Bool := config.toolsExec.getD true

def delegatedToolRegistry : AgentToolRegistry :=
  (config.toolRegistry.withoutNames removedFromAgent).withAsyncDisabledIf config.execEnabled

def workerToolRegistry : AgentToolRegistry :=
  (config.toolRegistry.withoutNames removedFromWorker).withAsyncDisabledIf config.execEnabled

end AgentRuntimeConfig

/-- The agents by their ids, and which of them have a memory. -/
structure AgentDirectory where
  config : Text → Option AgentRuntimeConfig
  memory : Text → Bool

/-- The loop is gone once the process shuts down. -/
structure DirectAgentInvoker where
  reactLoop : Option ReactLoop
  agents : AgentDirectory

namespace DirectAgentInvoker

variable (invoker : DirectAgentInvoker)

/-- The run both invocations end in. -/
def runPrompt (params : RunParams) (prompt : Text) :
    SystemProgram (Except FrameworkError InvokeOutcome) :=
  match invoker.reactLoop with
  | none => .pure (.error (.tool "react loop unavailable"))
  | some loop =>
      Program.andThen (loop.run params [Message.text .user prompt]) fun outcome =>
        .pure (.ok ⟨outcome.reply, outcome.toolCalls⟩)

def invokeAgent (request : AgentInvokeRequest) :
    SystemProgram (Except FrameworkError InvokeOutcome) :=
  match invoker.agents.config request.targetAgentId with
  | none => .pure (.error (.tool ("unknown agent: " ++ request.targetAgentId)))
  | some targetConfig =>
      if invoker.agents.memory request.targetAgentId = false then
        .pure (.error (.tool ("no memory for agent: " ++ request.targetAgentId)))
      else
        match targetConfig.effectiveExecution.resolvedEnv with
        | .error err => .pure (.error err)
        | .ok executionEnv =>
            invoker.runPrompt
              { providerKey := targetConfig.providerKey
                systemPrompt := targetConfig.systemPrompt
                agentId := request.targetAgentId
                agentName := targetConfig.agentName
                sessionId := request.sessionId
                maxSteps := targetConfig.effectiveExecution.maxSteps
                executionEnv
                workspaceRoot := targetConfig.workspaceRoot
                userId := request.userId
                ownerIds := targetConfig.ownerIds
                toolRegistry := targetConfig.delegatedToolRegistry
                sourceMessageId := none
                onTextDelta := false
                allowAsyncTools := false }
              request.prompt

def workerSystemPrompt : Text :=
  "You are a task worker. Complete the assigned task and return a concise result."

def invokeWorker (request : WorkerInvokeRequest) :
    SystemProgram (Except FrameworkError InvokeOutcome) :=
  match invoker.agents.config request.currentAgentId with
  | none => .pure (.error (.tool "current agent config unavailable"))
  | some currentConfig =>
      if invoker.agents.memory request.currentAgentId = false then
        .pure (.error (.tool "current agent memory unavailable"))
      else
        match currentConfig.effectiveExecution.resolvedEnv with
        | .error err => .pure (.error err)
        | .ok executionEnv =>
            invoker.runPrompt
              { providerKey := currentConfig.providerKey
                systemPrompt := workerSystemPrompt
                agentId := "task-worker"
                agentName := "Task Worker"
                sessionId := request.sessionId
                maxSteps :=
                  request.maxStepsOverride.getD currentConfig.effectiveExecution.maxSteps
                executionEnv
                workspaceRoot := currentConfig.workspaceRoot
                userId := request.userId
                ownerIds := currentConfig.ownerIds
                toolRegistry := currentConfig.workerToolRegistry
                sourceMessageId := none
                onTextDelta := false
                allowAsyncTools := false }
              request.prompt

def invoke : Invocation → SystemProgram (Except FrameworkError InvokeOutcome)
  | .agent request => invoker.invokeAgent request
  | .worker request => invoker.invokeWorker request

/-- The run of one invocation makes the other one. -/
def Delegates (outer inner : Invocation) : Prop :=
  ∃ tr result, Program.Runs (invoker.invoke outer) tr result ∧
    ∃ event ∈ tr, event.1.invocation = some inner

/-- **Delegation is one level deep and synchronous inside.**  The tools of a delegated run lack
`summon`, `task` and `background`, in both representations, and those of a worker `memorize` and
`forget` as well.  Whatever the model asks for, a delegated run starts no async tool run and
invokes nobody, and a worker runs neither of the two.  So runs that invoke each other are no
longer a chain than one. -/
structure OneLevel : Prop where
  tools : ∀ config : AgentRuntimeConfig, ∀ name : Text, name ∈ removedFromAgent →
    config.delegatedToolRegistry.Lacks name
  workerTools : ∀ config : AgentRuntimeConfig, ∀ name : Text, name ∈ removedFromWorker →
    config.workerToolRegistry.Lacks name
  synchronous : ∀ invocation tr result, Program.Runs (invoker.invoke invocation) tr result →
    ∀ event ∈ tr, event.1.startsRun = false ∧ event.1.invocation = none
  forgetful : ∀ request tr result, Program.Runs (invoker.invokeWorker request) tr result →
    ∀ event ∈ tr, event.1.directTool ≠ some .memorize ∧ event.1.directTool ≠ some .forget
  depth : ∀ chain : List Invocation, chain.IsChain invoker.Delegates → chain.length ≤ 1

end DirectAgentInvoker

/-! ## What a loop stays inside of -/

section Stays

variable {run : ToolRun} {removed : List Text} {activeTools : AgentToolRegistry} {sessionId : Text}

/-- A call of the loop is one of the dispatch: its result is that of the dispatch with some
answer to the execution. -/
theorem executeToolCall_dispatches (call : ParsedToolCall) :
    (executeToolCall run activeTools sessionId call).Meets (fun _ => True) (fun _ _ => True)
      fun result => ∃ answer,
        result = React.toolResult run.json activeTools.plain run.caller call answer := by
  unfold executeToolCall React.toolResult React.planToolCall
  rw [AgentToolRegistry.get_plain]
  cases activeTools.get call.name with
  | none => exact ⟨.error (.tool ""), rfl⟩
  | some entry =>
      dsimp only [Option.map_some]
      cases React.authorize entry.plain run.caller with
      | error err => exact ⟨.error err, rfl⟩
      | ok =>
          have hexecute : (execute run entry (run.json.toString call.arguments) sessionId).Meets
              (fun _ => True) (fun _ _ => True) fun _ => True := Program.meets_true _
          exact hexecute.bind fun answer _ => ⟨answer, rfl⟩

/-- A call stays inside, whatever its name and its arguments are. -/
theorem executeToolCall_stays (hasync : run.env.allowAsyncTools = false)
    (hsummon : ("summon" : Text) ∈ removed) (htask : ("task" : Text) ∈ removed)
    (hlacks : ∀ name ∈ removed, activeTools.Lacks name) (call : ParsedToolCall) :
    StaysInside removed (fun _ => True) (executeToolCall run activeTools sessionId call) := by
  unfold executeToolCall
  cases hget : activeTools.get call.name with
  | none => trivial
  | some entry =>
      dsimp only
      cases React.authorize entry.plain run.caller with
      | error err => trivial
      | ok =>
          have hname : entry.tool.name ∉ removed := fun hmem =>
            (hlacks _ hmem).found call.name entry hget rfl
          exact (execute_stays hasync hsummon htask hname).bind fun _ _ => trivial

theorem generateProviderResponse_stays {systemPrompt : Text} {history : List Message}
    {toolSpecs : List ToolDefinition} {onTextDelta : Bool} :
    StaysInside removed (fun _ => True)
      (generateProviderResponse systemPrompt history toolSpecs onTextDelta) := by
  cases onTextDelta with
  | true =>
      exact (stays_perform (stays_of_none rfl rfl rfl)).andThen (fun _ _ => trivial)
        fun _ _ => trivial
  | false => exact stays_perform (stays_of_none rfl rfl rfl)

/-- **The steps of a loop stay inside**, by induction on their number: each asks the provider,
and what it executes then stays inside. -/
theorem steps_stays {ctx : LoopContext} (hasync : ctx.run.env.allowAsyncTools = false)
    (hsummon : ("summon" : Text) ∈ removed) (htask : ("task" : Text) ∈ removed)
    (hlacks : ∀ name ∈ removed, ctx.turnTools.Lacks name) (n : Nat) (history : List Message)
    (executedToolCalls : List ToolExecutionResult) :
    StaysInside removed (fun _ => True) (ctx.steps n history executedToolCalls) := by
  induction n generalizing history executedToolCalls with
  | zero => trivial
  | succ n ih =>
      refine generateProviderResponse_stays.andThen (fun _ _ => trivial) fun response _ => ?_
      cases ctx.dispatcher.parseResponse response with
      | finalResponse text => trivial
      | empty => exact ih history executedToolCalls
      | toolCalls calls =>
          have hcalls : StaysInside removed (fun results => ∀ result ∈ results, True)
              (executeToolCalls ctx.run ctx.turnTools ctx.sessionId calls) :=
            Program.Meets.forEach fun call _ =>
              executeToolCall_stays hasync hsummon htask hlacks call
          exact hcalls.bind fun results _ => ih _ _

theorem run_stays {loop : ReactLoop} {params : RunParams} {history : List Message}
    (hasync : params.allowAsyncTools = false)
    (hsummon : ("summon" : Text) ∈ removed) (htask : ("task" : Text) ∈ removed)
    (hlacks : ∀ name ∈ removed, params.toolRegistry.Lacks name) :
    StaysInside removed (fun _ => True) (loop.run params history) := by
  unfold ReactLoop.run
  cases loop.provider params.providerKey with
  | error err => trivial
  | ok supportsNativeTools =>
      refine steps_stays hasync hsummon htask ?_ _ _ _
      intro name hname
      unfold ReactLoop.loopContext
      cases params.sourceMessageId with
      | none => exact (hlacks name hname).without "react"
      | some messageId => exact hlacks name hname

end Stays

/-! ## What a delegated run stays inside of -/

section Invoked

variable (config : AgentRuntimeConfig) (invoker : DirectAgentInvoker)

theorem delegatedToolRegistry_lacks {name : Text} (h : name ∈ removedFromAgent) :
    config.delegatedToolRegistry.Lacks name :=
  (AgentToolRegistry.lacks_withoutNames h).withAsyncDisabledIf config.execEnabled

theorem workerToolRegistry_lacks {name : Text} (h : name ∈ removedFromWorker) :
    config.workerToolRegistry.Lacks name :=
  (AgentToolRegistry.lacks_withoutNames h).withAsyncDisabledIf config.execEnabled

variable {invoker} in
/-- A prompt is run without background tools and with a registry that lacks what was removed. -/
theorem runPrompt_stays {removed : List Text} {params : RunParams} {prompt : Text}
    (hasync : params.allowAsyncTools = false) (hsummon : ("summon" : Text) ∈ removed)
    (htask : ("task" : Text) ∈ removed)
    (hlacks : ∀ name ∈ removed, params.toolRegistry.Lacks name) :
    StaysInside removed (fun _ => True) (invoker.runPrompt params prompt) := by
  unfold DirectAgentInvoker.runPrompt
  cases invoker.reactLoop with
  | none => trivial
  | some loop =>
      exact (run_stays hasync hsummon htask hlacks).andThen (fun _ _ => trivial)
        fun _ _ => trivial

theorem invokeAgent_stays (request : AgentInvokeRequest) :
    StaysInside removedFromAgent (fun _ => True) (invoker.invokeAgent request) := by
  unfold DirectAgentInvoker.invokeAgent
  cases invoker.agents.config request.targetAgentId with
  | none => trivial
  | some targetConfig =>
      dsimp only
      split_ifs with hmemory
      · trivial
      · cases targetConfig.effectiveExecution.resolvedEnv with
        | error err => trivial
        | ok executionEnv =>
            refine runPrompt_stays rfl ?_ ?_ fun name hname =>
              delegatedToolRegistry_lacks targetConfig hname
            · exact List.mem_cons_self
            · exact List.mem_cons_of_mem _ List.mem_cons_self

theorem invokeWorker_stays (request : WorkerInvokeRequest) :
    StaysInside removedFromWorker (fun _ => True) (invoker.invokeWorker request) := by
  unfold DirectAgentInvoker.invokeWorker
  cases invoker.agents.config request.currentAgentId with
  | none => trivial
  | some currentConfig =>
      dsimp only
      split_ifs with hmemory
      · trivial
      · cases currentConfig.effectiveExecution.resolvedEnv with
        | error err => trivial
        | ok executionEnv =>
            refine runPrompt_stays rfl ?_ ?_ fun name hname =>
              workerToolRegistry_lacks currentConfig hname
            · exact List.mem_cons_self
            · exact List.mem_cons_of_mem _ List.mem_cons_self

/-- In the runs of a program that stays inside, every call does. -/
theorem StaysInside.calls {α : Type} {removed : List Text} {post : α → Prop}
    {p : SystemProgram α} (h : StaysInside removed post p) {tr : List SystemEvent} {a : α}
    (hrun : Program.Runs p tr a) {event : SystemEvent} (hevent : event ∈ tr) :
    event.1.Stays removed :=
  (h.of_runs hrun fun _ _ => trivial).1 event hevent

theorem invoke_stays (invocation : Invocation) :
    ∃ removed, StaysInside removed (fun _ => True) (invoker.invoke invocation) := by
  cases invocation with
  | agent request => exact ⟨removedFromAgent, invokeAgent_stays invoker request⟩
  | worker request => exact ⟨removedFromWorker, invokeWorker_stays invoker request⟩

theorem not_delegates (outer inner : Invocation) : ¬ invoker.Delegates outer inner := by
  rintro ⟨tr, result, hrun, event, hevent, hinner⟩
  obtain ⟨removed, hstays⟩ := invoke_stays invoker outer
  have hnone := (hstays.calls hrun hevent).invocation
  rw [hinner] at hnone
  cases hnone

/-- **Delegation is one level deep and synchronous inside**, for every directory of agents, every
loop and every request, whatever the model, the user and the tools answer. -/
theorem delegation_one_level : invoker.OneLevel where
  tools := fun config _ hname => delegatedToolRegistry_lacks config hname
  workerTools := fun config _ hname => workerToolRegistry_lacks config hname
  synchronous := by
    intro invocation tr result hrun event hevent
    obtain ⟨removed, hstays⟩ := invoke_stays invoker invocation
    have hcall := hstays.calls hrun hevent
    exact ⟨hcall.startsRun, hcall.invocation⟩
  forgetful := by
    intro request tr result hrun event hevent
    have hcall := (invokeWorker_stays invoker request).calls hrun hevent
    have hremoved : DirectTool.memorize.name ∈ removedFromWorker ∧
        DirectTool.forget.name ∈ removedFromWorker := by decide
    exact ⟨fun h => hcall.directTool _ h hremoved.1, fun h => hcall.directTool _ h hremoved.2⟩
  depth := by
    intro chain hchain
    match chain with
    | [] => exact Nat.zero_le 1
    | [_] => exact Nat.le_refl 1
    | outer :: inner :: rest =>
        exact absurd (List.isChain_cons_cons.mp hchain).1 (not_delegates invoker outer inner)

end Invoked

end Invoke
end SimpleClaw
