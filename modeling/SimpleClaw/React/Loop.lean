import SimpleClaw.Lib.Program
import SimpleClaw.React.Dispatch

/-!
# The react loop

The model is asked for a response; if it calls tools, their results are added to the history and
it is asked again, up to a number of steps.  The provider and the executions of the tools are
calls of a program, answered in any way.  The executions of one response are one call: they run
together, and the answers are told apart by the places of their calls.  What is shown of a
response while it streams in is left out.

* `runLoop`: the loop, with the history afterwards.
* `FollowsProtocol`: what is sent to the provider, what is executed, how often the provider is
  asked, and which results are returned.
* `react_history_protocol`: every run of the loop follows the protocol.
-/

namespace SimpleClaw
namespace React

open Providers Tools

/-! ## The calls of the loop -/

inductive ReactCall where
  | generate (systemPrompt : Text) (history : List Message) (toolSpecs : List ToolDefinition)
  | generateStream (systemPrompt : Text) (history : List Message)
      (toolSpecs : List ToolDefinition)
  | executeAll (jobs : List ToolJob)

/-- The answers to a call; those to executions by the places of their calls. -/
def ReactAnswer : ReactCall → Type
  | .generate _ _ _ => Except FrameworkError ProviderResponse
  | .generateStream _ _ _ => Except FrameworkError (List StreamEvent)
  | .executeAll _ => Nat → Except FrameworkError ToolExecutionOutcome

abbrev ReactProgram (α : Type) := Program ReactCall ReactAnswer α

abbrev ReactEvent := Program.Event ReactCall ReactAnswer

/-- The response a stream comes to, from its text and its calls so far. -/
def collectStream (outputText : Text) (toolCalls : List ToolCall) :
    List StreamEvent → Except FrameworkError ProviderResponse
  | [] => .ok ⟨if outputText = [] then none else some outputText, toolCalls⟩
  | .textDelta delta :: events => collectStream (outputText ++ delta) toolCalls events
  | .toolCallComplete toolCall :: events =>
      collectStream outputText (toolCalls ++ [toolCall]) events
  | .done :: _ => .ok ⟨if outputText = [] then none else some outputText, toolCalls⟩
  | .error message :: _ => .error (.provider message)

/-- `generate_provider_response`: streamed if there is someone to show the text to. -/
def generateProviderResponse (systemPrompt : Text) (history : List Message)
    (toolSpecs : List ToolDefinition) (onTextDelta : Bool) :
    ReactProgram (Except FrameworkError ProviderResponse) :=
  if onTextDelta then
    Program.andThen (Program.ask (ReactCall.generateStream systemPrompt history toolSpecs) :
      ReactProgram (Except FrameworkError (List StreamEvent)))
      fun events => .pure (collectStream [] [] events)
  else Program.ask (ReactCall.generate systemPrompt history toolSpecs)

/-! ## The loop -/

structure RunParams where
  systemPrompt : Text
  sessionId : Text
  maxSteps : Nat
  sourceMessageId : Option Text
  onTextDelta : Bool
  deriving DecidableEq

structure RunOutcome where
  reply : Text
  toolCalls : List ToolExecutionResult
  memoryRecallUsed : Bool
  memoryRecallShortHits : Nat
  memoryRecallLongHits : Nat

def RunOutcome.of (reply : Text) (toolCalls : List ToolExecutionResult) : RunOutcome :=
  ⟨reply, toolCalls, false, 0, 0⟩

def noReplyPromptInstruction : Text :=
  ("\n\nNO-REPLY BEHAVIOR:\n- If you intentionally want the system to send no user-facing " ++
    "message, respond with exactly NO_REPLY (no extra text)." : String)

/-- What a loop works with. -/
structure LoopContext where
  json : SerdeJson
  turnTools : AgentToolRegistry
  caller : ToolCaller
  effectiveSystemPrompt : Text
  toolSpecs : List ToolDefinition
  sessionId : Text
  onTextDelta : Bool

namespace LoopContext

variable (ctx : LoopContext)

/-- The calls of a response. -/
def callsOf (response : ProviderResponse) : List ParsedToolCall :=
  NativeDispatcher.parsedFromProviderCalls ctx.json response.toolCalls

/-- The results of the calls of a response. -/
def resultsOf (response : ProviderResponse)
    (answers : Nat → Except FrameworkError ToolExecutionOutcome) : List ToolExecutionResult :=
  toolResults ctx.json ctx.turnTools ctx.caller (ctx.callsOf response) answers

/-- The steps that are left, with the results so far. -/
def steps : Nat → List Message → List ToolExecutionResult →
    ReactProgram (Except FrameworkError RunOutcome × List Message)
  | 0, history, executedToolCalls =>
      .pure (.ok (.of "max_steps reached without final response" executedToolCalls), history)
  | n + 1, history, executedToolCalls =>
      Program.bind
        (generateProviderResponse ctx.effectiveSystemPrompt history ctx.toolSpecs ctx.onTextDelta)
        fun
        | .error err => .pure (.error err, history)
        | .ok response =>
            match NativeDispatcher.parseResponse ctx.json response with
            | .toolCalls calls =>
                Program.bind (Program.ask (.executeAll
                  (toolJobs ctx.json ctx.turnTools ctx.caller ctx.sessionId calls)))
                  fun (answers : Nat → Except FrameworkError ToolExecutionOutcome) =>
                    let results := toolResults ctx.json ctx.turnTools ctx.caller calls answers
                    steps n (history ++ NativeDispatcher.formatForHistory ctx.json calls results)
                      (executedToolCalls ++ results)
            | .finalResponse text =>
                .pure (.ok (.of text executedToolCalls), history ++ [.text .assistant text])
            | .empty => steps n history executedToolCalls

end LoopContext

/-- Without a message to react to, there is no tool for it. -/
def turnTools (params : RunParams) (activeTools : AgentToolRegistry) : AgentToolRegistry :=
  if params.sourceMessageId.isSome then activeTools else activeTools.without "react"

/-- The context of a loop; `definition` describes the tools to the provider. -/
def loopContext (json : SerdeJson) (definition : RegisteredTool → ToolDefinition)
    (params : RunParams) (caller : ToolCaller) (activeTools : AgentToolRegistry) : LoopContext :=
  let turnTools := turnTools params activeTools
  let definitions := turnTools.ordered.map fun entry => definition entry.tool
  let extraInstructions := NativeDispatcher.promptInstructions definitions
  { json, turnTools, caller
    effectiveSystemPrompt :=
      if extraInstructions = [] then params.systemPrompt ++ noReplyPromptInstruction
      else params.systemPrompt ++ extraInstructions ++ noReplyPromptInstruction
    toolSpecs := if NativeDispatcher.shouldSendToolSpecs then definitions else []
    sessionId := params.sessionId
    onTextDelta := params.onTextDelta }

def runLoop (json : SerdeJson) (definition : RegisteredTool → ToolDefinition)
    (params : RunParams) (caller : ToolCaller) (activeTools : AgentToolRegistry)
    (history : List Message) : ReactProgram (Except FrameworkError RunOutcome × List Message) :=
  (loopContext json definition params caller activeTools).steps params.maxSteps history []

/-! ## Reading a trace -/

/-- The history the call sends to the provider. -/
def ReactCall.sentHistory : ReactCall → Option (List Message)
  | .generate _ history _ | .generateStream _ history _ => some history
  | .executeAll _ => none

/-- What the call executes. -/
def ReactCall.jobs : ReactCall → List ToolJob
  | .generate _ _ _ | .generateStream _ _ _ => []
  | .executeAll jobs => jobs

/-- The response the provider gives in the event. -/
def responseOf : ReactEvent → Option ProviderResponse
  | ⟨.generate _ _ _, .ok response⟩ => some response
  | ⟨.generateStream _ _ _, .ok events⟩ => (collectStream [] [] events).toOption
  | ⟨.generate _ _ _, .error _⟩ | ⟨.generateStream _ _ _, .error _⟩ | ⟨.executeAll _, _⟩ => none

/-- The answers to the executions in the event. -/
def answersOf : ReactEvent → Option (Nat → Except FrameworkError ToolExecutionOutcome)
  | ⟨.executeAll _, answers⟩ => some answers
  | ⟨.generate _ _ _, _⟩ | ⟨.generateStream _ _ _, _⟩ => none

/-- The responses with tool calls. -/
def callingResponses (tr : List ReactEvent) : List ProviderResponse :=
  (tr.filterMap responseOf).filter fun response => response.toolCalls ≠ []

/-- The results of all the steps, in their order. -/
def LoopContext.resultsIn (ctx : LoopContext) (tr : List ReactEvent) :
    List (List ToolExecutionResult) :=
  List.zipWith ctx.resultsOf (callingResponses tr) (tr.filterMap answersOf)

/-- **The protocol of a loop.**  The provider is sent well-formed histories only, and at most so
many; what is executed is a tool of the turn, and one for the owner only for the owner; and what
is returned are the results of the steps, each of which has one. -/
structure FollowsProtocol (ctx : LoopContext) (maxSteps : Nat)
    (executedToolCalls : List ToolExecutionResult) (tr : List ReactEvent)
    (result : Except FrameworkError RunOutcome) : Prop where
  histories : ∀ event ∈ tr, ∀ history, event.1.sentHistory = some history → WellFormed history
  providerCalls : tr.countP (fun event => event.1.sentHistory.isSome) ≤ maxSteps
  executes : ∀ event ∈ tr, ∀ job ∈ event.1.jobs,
    (∃ name, ctx.turnTools.get name = some job.entry) ∧
      (job.entry.ownerRestricted = true → ctx.caller.userId ∈ ctx.caller.ownerIds)
  rounds : ∀ outcome, result = .ok outcome →
    (callingResponses tr).length = (tr.filterMap answersOf).length
  returned : ∀ outcome, result = .ok outcome →
    outcome.toolCalls = executedToolCalls ++ (ctx.resultsIn tr).flatten

/-! ## What the calls of a step are -/

/-- Asking the provider is one event. -/
theorem runs_generateProviderResponse {systemPrompt : Text} {history : List Message}
    {toolSpecs : List ToolDefinition} {onTextDelta : Bool} {tr : List ReactEvent}
    {response : Except FrameworkError ProviderResponse}
    (h : Program.Runs (generateProviderResponse systemPrompt history toolSpecs onTextDelta) tr
      response) :
    ∃ event : ReactEvent, tr = [event] ∧ event.1.sentHistory = some history ∧
      event.1.jobs = [] ∧ answersOf event = none ∧ responseOf event = response.toOption := by
  cases onTextDelta with
  | true =>
    rcases Program.runs_andThen_iff.mp h with ⟨e, hask, rfl⟩ | ⟨events, tr₁, tr₂, rfl, hask, hpure⟩
    · obtain rfl := Program.runs_ask_iff.mp hask
      exact ⟨_, rfl, rfl, rfl, rfl, rfl⟩
    · obtain rfl := Program.runs_ask_iff.mp hask
      obtain ⟨rfl, rfl⟩ := Program.runs_pure_iff.mp hpure
      exact ⟨_, rfl, rfl, rfl, rfl, rfl⟩
  | false =>
    obtain rfl := Program.runs_ask_iff.mp h
    cases response <;> exact ⟨_, rfl, rfl, rfl, rfl, rfl⟩

/-- A response with tool calls is parsed into these. -/
theorem parseResponse_cases (json : SerdeJson) (response : ProviderResponse) :
    (response.toolCalls ≠ [] ∧ NativeDispatcher.parseResponse json response =
        .toolCalls (NativeDispatcher.parsedFromProviderCalls json response.toolCalls)) ∨
      (response.toolCalls = [] ∧
        ((∃ text, NativeDispatcher.parseResponse json response = .finalResponse text) ∨
          NativeDispatcher.parseResponse json response = .empty)) := by
  unfold NativeDispatcher.parseResponse
  by_cases hcalls : response.toolCalls = []
  · refine Or.inr ⟨hcalls, ?_⟩
    rw [if_neg (not_not_intro hcalls)]
    cases response.outputText with
    | some text => exact Or.inl ⟨text, rfl⟩
    | none => exact Or.inr rfl
  · exact Or.inl ⟨hcalls, if_pos hcalls⟩

theorem callingResponses_cons_calls {event : ReactEvent} {tr : List ReactEvent}
    {response : ProviderResponse} (h : responseOf event = some response)
    (hcalls : response.toolCalls ≠ []) :
    callingResponses (event :: tr) = response :: callingResponses tr := by
  rw [callingResponses, List.filterMap_cons_some h, List.filter_cons_of_pos (by simpa using hcalls)]
  rfl

theorem callingResponses_cons_other {event : ReactEvent} {tr : List ReactEvent}
    (h : ∀ response, responseOf event = some response → response.toolCalls = []) :
    callingResponses (event :: tr) = callingResponses tr := by
  cases hresponse : responseOf event with
  | none => rw [callingResponses, List.filterMap_cons_none hresponse, callingResponses]
  | some response =>
      rw [callingResponses, List.filterMap_cons_some hresponse,
        List.filter_cons_of_neg (by simpa using h response hresponse), callingResponses]

/-! ## The protocol along the loop -/

section Protocol

variable {ctx : LoopContext} {n : Nat} {executedToolCalls : List ToolExecutionResult}
  {history : List Message} {event : ReactEvent} {tr : List ReactEvent}
  {result : Except FrameworkError RunOutcome}

/-- Nothing is asked any more. -/
theorem FollowsProtocol.nil
    (h : ∀ outcome, result = .ok outcome → outcome.toolCalls = executedToolCalls) :
    FollowsProtocol ctx n executedToolCalls [] result where
  histories := nofun
  providerCalls := Nat.zero_le n
  executes := nofun
  rounds := fun _ _ => rfl
  returned := by
    intro outcome hresult
    rw [h outcome hresult]
    exact (List.append_nil _).symm

/-- The provider gives a response without tool calls, or none. -/
theorem FollowsProtocol.ask (hhistory : WellFormed history)
    (hsent : event.1.sentHistory = some history) (hjobs : event.1.jobs = [])
    (hanswers : answersOf event = none)
    (hresponse : ∀ response, responseOf event = some response → response.toolCalls = [])
    (hrest : FollowsProtocol ctx n executedToolCalls tr result) :
    FollowsProtocol ctx (n + 1) executedToolCalls (event :: tr) result where
  histories := by
    intro e he sent hesent
    rcases List.mem_cons.mp he with rfl | he
    · rw [hsent] at hesent
      exact Option.some.inj hesent ▸ hhistory
    · exact hrest.histories e he sent hesent
  providerCalls := by
    rw [List.countP_cons_of_pos (by rw [hsent]; rfl)]
    exact Nat.succ_le_succ hrest.providerCalls
  executes := by
    intro e he job hjob
    rcases List.mem_cons.mp he with rfl | he
    · rw [hjobs] at hjob
      cases hjob
    · exact hrest.executes e he job hjob
  rounds := by
    intro outcome hresult
    rw [callingResponses_cons_other hresponse, List.filterMap_cons_none hanswers]
    exact hrest.rounds outcome hresult
  returned := by
    intro outcome hresult
    rw [hrest.returned outcome hresult, LoopContext.resultsIn, LoopContext.resultsIn,
      callingResponses_cons_other hresponse, List.filterMap_cons_none hanswers]

/-- The provider calls tools, and these are executed. -/
theorem FollowsProtocol.round (hhistory : WellFormed history)
    (hsent : event.1.sentHistory = some history) (hjobs : event.1.jobs = [])
    (hanswers : answersOf event = none) {response : ProviderResponse}
    (hresponse : responseOf event = some response) (hcalls : response.toolCalls ≠ [])
    {executed : ReactEvent} (hnone : executed.1.sentHistory = none)
    (hexecuted : executed.1.jobs =
      toolJobs ctx.json ctx.turnTools ctx.caller ctx.sessionId (ctx.callsOf response))
    (hno : responseOf executed = none)
    {answers : Nat → Except FrameworkError ToolExecutionOutcome}
    (hexecutions : answersOf executed = some answers)
    (hrest : FollowsProtocol ctx n (executedToolCalls ++ ctx.resultsOf response answers) tr
      result) :
    FollowsProtocol ctx (n + 1) executedToolCalls (event :: executed :: tr) result where
  histories := by
    intro e he sent hesent
    rcases List.mem_cons.mp he with rfl | he
    · rw [hsent] at hesent
      exact Option.some.inj hesent ▸ hhistory
    · rcases List.mem_cons.mp he with rfl | he
      · rw [hnone] at hesent
        cases hesent
      · exact hrest.histories e he sent hesent
  providerCalls := by
    rw [List.countP_cons_of_pos (by rw [hsent]; rfl),
      List.countP_cons_of_neg (by rw [hnone]; exact nofun)]
    exact Nat.succ_le_succ hrest.providerCalls
  executes := by
    intro e he job hjob
    rcases List.mem_cons.mp he with rfl | he
    · rw [hjobs] at hjob
      cases hjob
    · rcases List.mem_cons.mp he with rfl | he
      · rw [hexecuted] at hjob
        obtain ⟨call, -, hplan⟩ := mem_toolJobs hjob
        obtain ⟨hget, howner⟩ := planToolCall_eq_execute_iff.mp hplan
        exact ⟨⟨call.name, hget⟩, howner⟩
      · exact hrest.executes e he job hjob
  rounds := by
    intro outcome hresult
    have hother : callingResponses (executed :: tr) = callingResponses tr :=
      callingResponses_cons_other fun r hr => by rw [hno] at hr; cases hr
    rw [callingResponses_cons_calls hresponse hcalls, hother,
      List.filterMap_cons_none hanswers, List.filterMap_cons_some hexecutions, List.length_cons,
      List.length_cons, hrest.rounds outcome hresult]
  returned := by
    intro outcome hresult
    have hother : callingResponses (executed :: tr) = callingResponses tr :=
      callingResponses_cons_other fun r hr => by rw [hno] at hr; cases hr
    rw [hrest.returned outcome hresult, LoopContext.resultsIn, LoopContext.resultsIn,
      callingResponses_cons_calls hresponse hcalls, hother,
      List.filterMap_cons_none hanswers, List.filterMap_cons_some hexecutions,
      List.zipWith_cons_cons, List.flatten_cons, List.append_assoc]

/-- **The steps that are left follow the protocol**, by induction on their number: the history
stays well formed because each round adds the calls together with their results. -/
theorem followsProtocol_steps {outcome : Except FrameworkError RunOutcome × List Message}
    (hhistory : WellFormed history)
    (hrun : Program.Runs (ctx.steps n history executedToolCalls) tr outcome) :
    FollowsProtocol ctx n executedToolCalls tr outcome.1 := by
  induction n generalizing history executedToolCalls tr with
  | zero =>
      obtain ⟨rfl, rfl⟩ := Program.runs_pure_iff.mp hrun
      refine FollowsProtocol.nil fun outcome hresult => ?_
      rw [← Except.ok.inj hresult]
      rfl
  | succ n ih =>
      rw [LoopContext.steps] at hrun
      obtain ⟨answer, tr₁, tr₂, rfl, hask, hrest⟩ := Program.runs_bind_iff.mp hrun
      obtain ⟨event, rfl, hsent, hjobs, hanswers, hresponse⟩ := runs_generateProviderResponse hask
      cases answer with
      | error e =>
          obtain ⟨rfl, rfl⟩ := Program.runs_pure_iff.mp hrest
          refine FollowsProtocol.ask hhistory hsent hjobs hanswers ?_ (.nil nofun)
          intro response hr
          rw [hr] at hresponse
          cases hresponse
      | ok response =>
          rcases parseResponse_cases ctx.json response with
            ⟨hcalls, hparse⟩ | ⟨hnone, ⟨text, hparse⟩ | hparse⟩
          · simp only [hparse] at hrest
            obtain ⟨answers, tr₃, tr₄, rfl, hexecute, hloop⟩ := Program.runs_bind_iff.mp hrest
            obtain rfl := Program.runs_ask_iff.mp hexecute
            refine FollowsProtocol.round hhistory hsent hjobs hanswers hresponse hcalls rfl rfl rfl
              rfl ?_
            exact ih (hhistory.append (resultsFor_formatForHistory _ answers)) hloop
          · simp only [hparse] at hrest
            obtain ⟨rfl, rfl⟩ := Program.runs_pure_iff.mp hrest
            refine FollowsProtocol.ask hhistory hsent hjobs hanswers ?_ (.nil ?_)
            · intro r hr
              rw [hresponse] at hr
              exact Option.some.inj hr ▸ hnone
            · intro outcome hresult
              rw [← Except.ok.inj hresult]
              rfl
          · simp only [hparse] at hrest
            refine FollowsProtocol.ask hhistory hsent hjobs hanswers ?_ (ih hhistory hrest)
            intro r hr
            rw [hresponse] at hr
            exact Option.some.inj hr ▸ hnone

end Protocol

/-- **The protocol of the react loop.**  Whatever the provider answers and however the executions
end, from a well-formed history the loop sends well-formed histories only, asks the provider at
most `max_steps` times, executes tools of the registry only, those for the owner only for the
owner, and returns the results of its steps in their order. -/
theorem react_history_protocol (json : SerdeJson) (definition : RegisteredTool → ToolDefinition)
    (params : RunParams) (caller : ToolCaller) (activeTools : AgentToolRegistry)
    {history : List Message} (hhistory : WellFormed history) {tr : List ReactEvent}
    {outcome : Except FrameworkError RunOutcome × List Message}
    (hrun : Program.Runs (runLoop json definition params caller activeTools history) tr outcome) :
    FollowsProtocol (loopContext json definition params caller activeTools) params.maxSteps [] tr
      outcome.1 :=
  followsProtocol_steps hhistory hrun

/-! ## A run with a call of each kind -/

/-- Reads and writes an empty object. -/
def emptyObjectJson : SerdeJson where
  fromStr t := if t = ("{}" : Text) then .ok (.object []) else .error "expected value"
  toString _ := "{}"

def clockEntry : RegistryEntry := ⟨⟨.direct "clock", .direct⟩, false⟩

def execEntry : RegistryEntry := ⟨⟨.exec, .hostSandbox⟩, true⟩

/-- A guest asks an agent with two tools, one of them for the owner. -/
def guestRun (answer : List ReactEvent → (call : ReactCall) → ReactAnswer call) :
    List ReactEvent × Except FrameworkError RunOutcome × List Message :=
  (runLoop emptyObjectJson (fun tool => ⟨tool.name, "", "{}"⟩)
    ⟨"", "session", 8, none, false⟩ ⟨"guest", ["owner"]⟩
    ⟨[clockEntry, execEntry], indexByName [clockEntry, execEntry]⟩
    [.text .user "what time is it?"]).runBy answer []

/-- The model calls a tool, one that is not there and the one of the owner, and then answers. -/
def askTheTime (before : List ReactEvent) : (call : ReactCall) → ReactAnswer call
  | .generate _ _ _ =>
      .ok (if before.isEmpty then
        ⟨none, [⟨some "1".toList, "clock", "{}"⟩, ⟨some "2".toList, "ls", "{}"⟩,
          ⟨none, "exec", "{}"⟩]⟩
        else ⟨some "noon".toList, []⟩)
  | .generateStream _ _ _ => .ok []
  | .executeAll _ => fun _ => .ok (.completed "12:00" [])

theorem react_history_protocol_guest :
    (guestRun askTheTime).1.length = 3 ∧
      (guestRun askTheTime).2.1.toOption.map (fun outcome => outcome.toolCalls.map (·.output)) =
        some ["12:00".toList, "tool_error: unknown tool: ls".toList,
          ("tool_error: tool error: permission denied: " ++
            "this tool is restricted to the owner").toList] ∧
      FollowsProtocol (loopContext emptyObjectJson (fun tool => ⟨tool.name, "", "{}"⟩)
        ⟨"", "session", 8, none, false⟩ ⟨"guest", ["owner"]⟩
        ⟨[clockEntry, execEntry], indexByName [clockEntry, execEntry]⟩) 8 []
        (guestRun askTheTime).1 (guestRun askTheTime).2.1 := by
  have hhistory : WellFormed [.text .user "what time is it?"] :=
    WellFormed.of_forall (by simp [Message.text])
  refine ⟨by decide +kernel, by decide +kernel, ?_⟩
  exact react_history_protocol _ _ _ _ _ hhistory (Program.runs_runBy _ _ [])

end React
end SimpleClaw
