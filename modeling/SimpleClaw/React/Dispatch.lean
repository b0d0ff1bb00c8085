import SimpleClaw.Providers.Messages
import SimpleClaw.Tools.AsyncRuns
import SimpleClaw.Tools.Executor

/-!
# Dispatching the tool calls of a response

A response with tool calls has each of them looked up, authorized and executed, all at the same
time; the results are listed in the order of the calls, whichever ends first.  A call that is not
executed has a result as well, which says why.  The time an execution takes is left out.

* `planToolCall`: what a call comes to, before anything is executed.
* `toolResult`: the result of a call, given how its execution ended.
* `NativeDispatcher.parseResponse`, `NativeDispatcher.formatForHistory`: from the provider and
  back to it.
-/

namespace SimpleClaw
namespace React

open Providers Tools

/-! ## Tools and callers -/

/-- An entry of the registry: a tool, with whether it is only for the owner. -/
structure RegistryEntry extends AgentToolEntry where
  ownerRestricted : Bool
  deriving DecidableEq

structure AgentToolRegistry where
  ordered : List RegistryEntry
  byName : List (Text × RegistryEntry)

def AgentToolRegistry.get (registry : AgentToolRegistry) (name : Text) : Option RegistryEntry :=
  registry.byName.lookup name

/-- The entries by their names, the last one of a name if there are several. -/
def indexByName (ordered : List RegistryEntry) : List (Text × RegistryEntry) :=
  (ordered.map fun entry => (entry.tool.name, entry)).reverse

def AgentToolRegistry.without (registry : AgentToolRegistry) (name : Text) : AgentToolRegistry :=
  let ordered := registry.ordered.filter fun entry => entry.tool.name ≠ name
  ⟨ordered, indexByName ordered⟩

/-- Who the tools are called for. -/
structure ToolCaller where
  userId : Text
  ownerIds : List Text
  deriving DecidableEq

def ownerAllowed (userId : Text) (ownerIds : List Text) : Bool :=
  !ownerIds.isEmpty && ownerIds.any (· == userId)

def ToolCaller.isOwner (caller : ToolCaller) : Bool := ownerAllowed caller.userId caller.ownerIds

/-- `DefaultToolAuthorizer::authorize`. -/
def authorize (entry : RegistryEntry) (caller : ToolCaller) : Except FrameworkError Unit :=
  if entry.ownerRestricted = false then .ok ()
  else if caller.ownerIds = [] then
    .error (.tool "owner restriction misconfigured: runtime.owner_ids is empty")
  else if caller.isOwner then .ok ()
  else .error (.tool "permission denied: this tool is restricted to the owner")

/-! ## Calls and their results -/

structure ParsedToolCall where
  name : Text
  arguments : Value
  toolCallId : Option Text

inductive ToolExecutionStatus where
  | ok
  | accepted
  | toolError
  deriving DecidableEq

def ToolExecutionStatus.asStr : ToolExecutionStatus → Text
  | .ok => "ok"
  | .accepted => "accepted"
  | .toolError => "tool_error"

structure ToolExecutionResult where
  name : Text
  argsJson : Text
  output : Text
  status : ToolExecutionStatus
  toolCallId : Option Text
  nestedToolCalls : List ToolExecutionResult

structure StartedAsyncToolRun where
  runId : Text
  toolName : Text
  kind : AsyncToolRunKind
  deriving DecidableEq

def asyncKindStr : AsyncToolRunKind → Text
  | .process => "process"
  | .delegated => "delegated"

def StartedAsyncToolRun.acceptedOutput (json : SerdeJson) (started : StartedAsyncToolRun) : Text :=
  json.toString (.object [("status", .string "accepted"), ("runId", .string started.runId),
    ("tool", .string started.toolName), ("kind", .string (asyncKindStr started.kind))])

/-- How an execution ends that does not fail. -/
inductive ToolExecutionOutcome where
  | completed (output : Text) (nestedToolCalls : List ToolExecutionResult)
  | asyncStarted (started : StartedAsyncToolRun)

/-- What a call comes to: a result without an execution, or the execution of an entry. -/
inductive ToolCallPlan where
  | rejected (output : Text)
  | execute (entry : RegistryEntry)
  deriving DecidableEq

def planToolCall (activeTools : AgentToolRegistry) (caller : ToolCaller) (call : ParsedToolCall) :
    ToolCallPlan :=
  match activeTools.get call.name with
  | some entry =>
      match authorize entry caller with
      | .ok () => .execute entry
      | .error err => .rejected (("tool_error: " : Text) ++ err.display)
  | none => .rejected (("tool_error: unknown tool: " : Text) ++ call.name)

/-- The output of a call with the calls made inside it and its status. -/
def observation (json : SerdeJson) (plan : ToolCallPlan)
    (answer : Except FrameworkError ToolExecutionOutcome) :
    Text × List ToolExecutionResult × ToolExecutionStatus :=
  match plan with
  | .rejected output => (output, [], .toolError)
  | .execute _ =>
      match answer with
      | .ok (.completed output nestedToolCalls) => (output, nestedToolCalls, .ok)
      | .ok (.asyncStarted started) => (started.acceptedOutput json, [], .accepted)
      | .error err => (("tool_error: " : Text) ++ err.display, [], .toolError)

/-- The result of a call, with how the execution it comes to is answered. -/
def toolResult (json : SerdeJson) (activeTools : AgentToolRegistry) (caller : ToolCaller)
    (call : ParsedToolCall) (answer : Except FrameworkError ToolExecutionOutcome) :
    ToolExecutionResult :=
  let (output, nestedToolCalls, status) :=
    observation json (planToolCall activeTools caller call) answer
  { name := call.name
    argsJson := json.toString call.arguments
    output, status
    toolCallId := call.toolCallId
    nestedToolCalls }

/-- An execution, with the place of its call among those of the response. -/
structure ToolJob where
  position : Nat
  entry : RegistryEntry
  argsJson : Text
  sessionId : Text
  deriving DecidableEq

/-- The executions that the calls come to. -/
def toolJobs (json : SerdeJson) (activeTools : AgentToolRegistry) (caller : ToolCaller)
    (sessionId : Text) (calls : List ParsedToolCall) : List ToolJob :=
  calls.zipIdx.filterMap fun (call, position) =>
    match planToolCall activeTools caller call with
    | .rejected _ => none
    | .execute entry =>
        some { position, entry, argsJson := json.toString call.arguments, sessionId }

/-- The results of `execute_tool_calls`, with the answers to the executions by their places. -/
def toolResults (json : SerdeJson) (activeTools : AgentToolRegistry) (caller : ToolCaller)
    (calls : List ParsedToolCall) (answers : Nat → Except FrameworkError ToolExecutionOutcome) :
    List ToolExecutionResult :=
  calls.zipIdx.map fun (call, position) =>
    toolResult json activeTools caller call (answers position)

/-! ## The native dispatcher -/

inductive DispatchAction where
  | toolCalls (calls : List ParsedToolCall)
  | finalResponse (text : Text)
  | empty

namespace NativeDispatcher

/-- Arguments that cannot be read count as none. -/
def parsedFromProviderCalls (json : SerdeJson) (toolCalls : List ToolCall) :
    List ParsedToolCall :=
  toolCalls.map fun call =>
    { name := call.name
      arguments := match json.fromStr call.argsJson with
        | .ok arguments => arguments
        | .error _ => .object []
      toolCallId := call.id }

def parseResponse (json : SerdeJson) (response : ProviderResponse) : DispatchAction :=
  if response.toolCalls ≠ [] then .toolCalls (parsedFromProviderCalls json response.toolCalls)
  else
    match response.outputText with
    | some text => .finalResponse text
    | none => .empty

/-- A result as the provider gets it. -/
def resultForHistory (result : ToolExecutionResult) : ToolResult where
  callId := result.toolCallId
  name := result.name
  response := .object [("status", .string result.status.asStr), ("content", .string result.output)]

def formatForHistory (json : SerdeJson) (calls : List ParsedToolCall)
    (results : List ToolExecutionResult) : List Message :=
  let toolCalls := calls.map fun call =>
    { id := call.toolCallId, name := call.name, argsJson := json.toString call.arguments }
  [.assistantToolCalls toolCalls, .ofToolResults (results.map resultForHistory)]

def promptInstructions (_tools : List ToolDefinition) : Text := []

def shouldSendToolSpecs : Bool := true

end NativeDispatcher

/-! ## What a dispatch satisfies -/

section Spec

variable {json : SerdeJson} {activeTools : AgentToolRegistry} {caller : ToolCaller}

theorem authorize_eq_ok_iff {entry : RegistryEntry} :
    authorize entry caller = .ok () ↔
      (entry.ownerRestricted = true → caller.userId ∈ caller.ownerIds) := by
  have howner : caller.isOwner = true ↔ caller.userId ∈ caller.ownerIds := by
    unfold ToolCaller.isOwner ownerAllowed
    cases caller.ownerIds with
    | nil => simp
    | cons ownerId ownerIds => simp [@eq_comm _ ownerId]
  unfold authorize
  split_ifs with hfree hempty hallowed
  · simp [hfree]
  · simp [hfree, hempty]
  · simpa [hfree] using howner.mp hallowed
  · simpa [hfree] using mt howner.mpr hallowed

/-- Only a tool of the registry is executed, and one for the owner only for the owner. -/
theorem planToolCall_eq_execute_iff {call : ParsedToolCall} {entry : RegistryEntry} :
    planToolCall activeTools caller call = .execute entry ↔
      activeTools.get call.name = some entry ∧
        (entry.ownerRestricted = true → caller.userId ∈ caller.ownerIds) := by
  rw [← authorize_eq_ok_iff]
  unfold planToolCall
  cases hget : activeTools.get call.name with
  | none => simp
  | some found =>
      cases hauthorize : authorize found caller with
      | ok =>
          simp only [hauthorize, ToolCallPlan.execute.injEq, Option.some.injEq]
          exact ⟨fun h => ⟨h, h ▸ hauthorize⟩, fun h => h.1⟩
      | error e =>
          simp only [hauthorize, reduceCtorEq, Option.some.injEq, false_iff]
          rintro ⟨rfl, hok⟩
          rw [hauthorize] at hok
          cases hok

theorem mem_toolJobs {sessionId : Text} {calls : List ParsedToolCall} {job : ToolJob}
    (h : job ∈ toolJobs json activeTools caller sessionId calls) :
    ∃ call ∈ calls, planToolCall activeTools caller call = .execute job.entry := by
  rw [toolJobs, List.mem_filterMap] at h
  obtain ⟨⟨call, position⟩, hmem, hjob⟩ := h
  cases hplan : planToolCall activeTools caller call with
  | rejected output => simp [hplan] at hjob
  | execute entry =>
      simp only [hplan, Option.some.injEq] at hjob
      refine ⟨call, List.mem_of_getElem? (List.mk_mem_zipIdx_iff_getElem?.mp hmem), ?_⟩
      rw [← hjob]
      exact hplan

/-- There is one result for each call, of its id and its name, in the order of the calls. -/
theorem resultsFor_formatForHistory (calls : List ParsedToolCall)
    (answers : Nat → Except FrameworkError ToolExecutionOutcome) :
    WellFormed (NativeDispatcher.formatForHistory json calls
      (toolResults json activeTools caller calls answers)) := by
  refine WellFormed.calls_results ?_
  have hnames : ∀ (k : Nat) (calls : List ParsedToolCall), (calls.zipIdx k).map
        (fun x => (x.1.toolCallId, x.1.name)) = calls.map fun call =>
          (call.toolCallId, call.name) := by
    intro k calls
    induction calls generalizing k with
    | nil => rfl
    | cons call calls ih => rw [List.zipIdx_cons, List.map_cons, List.map_cons, ih]
  unfold ResultsFor toolResults
  rw [List.map_map, List.map_map, List.map_map]
  exact hnames 0 calls

end Spec

end React
end SimpleClaw
