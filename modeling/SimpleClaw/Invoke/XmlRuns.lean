import SimpleClaw.Invoke.Delegation
import SimpleClaw.React.XmlRoundTrip

/-!
# A loop without tools of the provider

A provider without tool calls of its own is driven by the other dispatcher: the calls stand in
the text of a response, the results go back as a text of the user, and what is sent of the tools is
a part of the prompt.  Beside that the two loops do the same: what a response comes to is executed
by the same programs, so that a run of one loop is a run of the other with the responses and the
messages of the history written in the other way.

* `SameAction`, `SameHistory`, `SameEvent`: what two runs have in common.
* `steps_simulate`: contexts that differ in the dispatcher.
* `loops_simulate`: each of the two loops does what the other one does, if the calls are delimited
  in one direction, and if their arguments are read back in the other.
-/

namespace SimpleClaw
namespace Invoke

open Providers
open React (DispatchAction ParsedToolCall RunOutcome ToolExecutionResult)

def xmlDispatcher (json : SerdeJson) : ToolDispatcher where
  parseResponse := React.XmlDispatcher.parseResponse json
  formatForHistory := React.XmlDispatcher.formatForHistory json
  promptInstructions := React.XmlDispatcher.promptInstructions
  shouldSendToolSpecs := React.XmlDispatcher.shouldSendToolSpecs

/-! ## What two runs have in common -/

/-- Calls that differ in their ids. -/
structure SameCall (call call' : ParsedToolCall) : Prop where
  name : call.name = call'.name
  arguments : call.arguments = call'.arguments

/-- Results that differ in the ids of their calls. -/
def SameCallResult (result result' : ToolExecutionResult) : Prop :=
  { result with toolCallId := none } = { result' with toolCallId := none }

/-- Responses that come to the same. -/
inductive SameAction : DispatchAction → DispatchAction → Prop where
  | toolCalls {calls calls'} (h : List.Forall₂ SameCall calls calls') :
      SameAction (.toolCalls calls) (.toolCalls calls')
  | finalResponse (text : Text) : SameAction (.finalResponse text) (.finalResponse text)
  | empty : SameAction .empty .empty

/-- Outcomes that differ in the ids of the calls. -/
inductive SameOutcome :
    Except FrameworkError RunOutcome → Except FrameworkError RunOutcome → Prop where
  | ok {reply results results'} (h : List.Forall₂ SameCallResult results results') :
      SameOutcome (.ok (.of reply results)) (.ok (.of reply results'))
  | error (err : FrameworkError) : SameOutcome (.error err) (.error err)

def SystemCall.asksProvider : SystemCall → Bool
  | .generate _ _ _ | .generateStream _ _ _ => true
  | .requestApproval _ | .planTool _ _ | .runWasm _ _ | .runUnsandboxed _ _
  | .execShellCommand _ _ _ _ | .runHostCommand _ _ _ _ _ | .prepareSpawn _ _ _
  | .startProcess _ _ _ _ _ _ | .startPreparedProcess _ _ _ _ _ _ | .startDelegated _ _ _ _ _
  | .invoke _ | .direct _ _ _ => false

/-- The history the provider is asked with, and the response it gives. -/
inductive Asks : SystemEvent → List Message → Except FrameworkError ProviderResponse → Prop where
  | whole {systemPrompt history toolSpecs answer} :
      Asks ⟨.generate systemPrompt history toolSpecs, answer⟩ history answer
  | streamed {systemPrompt history toolSpecs events} :
      Asks ⟨.generateStream systemPrompt history toolSpecs, .ok events⟩ history
        (React.collectStream [] [] events)
  | failed {systemPrompt history toolSpecs err} :
      Asks ⟨.generateStream systemPrompt history toolSpecs, .error err⟩ history (.error err)

section Runs

variable (dispatcher dispatcher' : ToolDispatcher)

/-- The same rounds after the same beginning, each written by its dispatcher. -/
inductive SameHistory : List Message → List Message → Prop where
  | start (history : List Message) : SameHistory history history
  | round {history history' calls calls' results results'} (h : SameHistory history history')
      (hcalls : List.Forall₂ SameCall calls calls')
      (hresults : List.Forall₂ SameCallResult results results') :
      SameHistory (history ++ dispatcher.formatForHistory calls results)
        (history' ++ dispatcher'.formatForHistory calls' results')

/-- The provider is asked the same and answers the same, each time in the form of its dispatcher;
everything else is the same call with the same answer. -/
inductive SameEvent : SystemEvent → SystemEvent → Prop where
  | responds {event event' history history' response response'}
      (h : Asks event history (.ok response)) (h' : Asks event' history' (.ok response'))
      (hhistory : SameHistory dispatcher dispatcher' history history')
      (haction : SameAction (dispatcher.parseResponse response)
        (dispatcher'.parseResponse response')) : SameEvent event event'
  | fails {event event' history history' err} (h : Asks event history (.error err))
      (h' : Asks event' history' (.error err))
      (hhistory : SameHistory dispatcher dispatcher' history history') : SameEvent event event'
  | same {event} (h : event.1.asksProvider = false) : SameEvent event event

end Runs

/-! ## What the tools do -/

section Tools

variable {run : ToolRun} {activeTools : AgentToolRegistry} {sessionId : Text}

/-- The program leaves the provider to the loop. -/
abbrev AsksNothing {α : Type} (p : SystemProgram α) : Prop :=
  p.Meets (fun call => call.asksProvider = false) (fun _ _ => True) fun _ => True

theorem asksNothing_perform {call : SystemCall} (h : call.asksProvider = false) :
    AsksNothing (perform call) :=
  Program.Meets.mono (Program.meets_ask (P := fun call : SystemCall => call.asksProvider = false)
    (Q := fun _ _ => True) h) fun _ _ => trivial

theorem AsksNothing.andThen {α β : Type} {p : SystemProgram (Except FrameworkError α)}
    {f : α → SystemProgram (Except FrameworkError β)} (h : AsksNothing p)
    (hf : ∀ a, AsksNothing (f a)) : AsksNothing (Program.andThen p f) :=
  Program.Meets.andThen h (fun _ _ => trivial) fun a _ => hf a

theorem AsksNothing.completing {p : SystemProgram (Except FrameworkError Text)}
    (h : AsksNothing p) : AsksNothing (completing p) :=
  h.andThen fun _ => trivial

theorem asksNothing_execDirect (plan : Tools.ExecPlan) :
    AsksNothing (execDirect run plan sessionId) := by
  unfold execDirect
  split
  · exact (asksNothing_perform rfl).andThen fun _ => trivial
  · exact (asksNothing_perform rfl).andThen fun _ => trivial

theorem asksNothing_execHostSandboxed (config : Tools.ExecToolConfig) (plan : Tools.ExecPlan) :
    AsksNothing (execHostSandboxed run config plan sessionId) := by
  unfold execHostSandboxed
  split
  · exact (asksNothing_perform rfl).andThen fun _ =>
      (asksNothing_perform rfl).andThen fun _ => trivial
  · exact (asksNothing_perform rfl).andThen fun _ => trivial

theorem asksNothing_delegate (toolName : Text) (background allowBackground : Bool)
    (request : Text) (invocation : Invocation) :
    AsksNothing (delegate run toolName background allowBackground request sessionId
      invocation) := by
  unfold delegate
  split_ifs
  · trivial
  · trivial
  · exact (asksNothing_perform rfl).andThen fun _ => trivial
  · exact (asksNothing_perform rfl).andThen fun _ => trivial

theorem asksNothing_executeDirect (tool : RegisteredTool) (argsJson : Text) :
    AsksNothing (tool.executeDirect run argsJson sessionId) := by
  cases tool with
  | exec config =>
      rw [RegisteredTool.executeDirect, execTool]
      cases config.plan run.host run.env (parseExecArgs run.json argsJson) with
      | error err => trivial
      | ok plan => exact asksNothing_execDirect plan
  | summon config =>
      rw [RegisteredTool.executeDirect, summonTool]
      split
      · trivial
      · exact asksNothing_delegate _ _ _ _ _
  | task config => exact asksNothing_delegate _ _ _ _ _
  | direct tool => exact (asksNothing_perform rfl).completing
  | webSearch | webFetch | read | edit | glob | grep | list =>
      exact (asksNothing_perform rfl).andThen fun _ => (asksNothing_perform rfl).completing

theorem asksNothing_answer (tool : RegisteredTool) (call : Tools.Call) :
    AsksNothing (tool.answer run sessionId call) := by
  cases call with
  | plan planned argsJson =>
      cases planned with
      | exec => trivial
      | webSearch | webFetch | read | edit | glob | grep | list | summon | task | direct =>
          exact asksNothing_perform rfl
  | executeWasm executed plan => exact (asksNothing_perform rfl).completing
  | executeHostSandboxed plan sessionId => exact asksNothing_execHostSandboxed _ _
  | requestApproval request => exact asksNothing_perform rfl
  | executeDirect executed plan =>
      cases executed with
      | exec => exact asksNothing_execDirect _
      | webSearch | webFetch | read | edit | glob | grep | list | summon | task | direct =>
          exact (asksNothing_perform rfl).completing
  | executeTool executed argsJson sessionId => exact asksNothing_executeDirect tool argsJson

theorem asksNothing_execute (entry : AgentToolEntry) (argsJson : Text) :
    AsksNothing (execute run entry argsJson sessionId) :=
  Program.Meets.interp (Program.meets_true (Q := fun _ _ => True) _) fun call _ =>
    asksNothing_answer entry.tool call

theorem asksNothing_executeToolCall (call : ParsedToolCall) :
    AsksNothing (executeToolCall run activeTools sessionId call) := by
  unfold executeToolCall
  cases activeTools.get call.name with
  | none => trivial
  | some entry =>
      dsimp only
      cases React.authorize entry.plain run.caller with
      | error err => trivial
      | ok allowed =>
          exact Program.Meets.bind (asksNothing_execute entry _) fun _ _ => trivial

/-- Calls that differ in their ids are executed by the same program. -/
theorem executeToolCall_same {call call' : ParsedToolCall} (h : SameCall call call')
    {tr : List SystemEvent} {result : ToolExecutionResult}
    (hrun : Program.Runs (executeToolCall run activeTools sessionId call) tr result) :
    ∃ result', Program.Runs (executeToolCall run activeTools sessionId call') tr result' ∧
      SameCallResult result result' := by
  unfold executeToolCall at hrun ⊢
  rw [← h.name, ← h.arguments]
  cases hget : activeTools.get call.name with
  | none =>
      simp only [hget] at hrun
      obtain ⟨rfl, rfl⟩ := Program.runs_pure_iff.mp hrun
      exact ⟨_, .pure _, rfl⟩
  | some entry =>
      simp only [hget] at hrun
      cases hauthorize : React.authorize entry.plain run.caller with
      | error err =>
          simp only [hauthorize] at hrun
          obtain ⟨rfl, rfl⟩ := Program.runs_pure_iff.mp hrun
          simp only [hauthorize]
          exact ⟨_, .pure _, rfl⟩
      | ok allowed =>
          simp only [hauthorize] at hrun
          obtain ⟨answer, tr₁, tr₂, rfl, hexecute, hpure⟩ := Program.runs_bind_iff.mp hrun
          obtain ⟨rfl, rfl⟩ := Program.runs_pure_iff.mp hpure
          simp only [hauthorize]
          exact ⟨_, Program.runs_bind_iff.mpr ⟨answer, tr₁, [], rfl, hexecute, .pure _⟩, rfl⟩

/-- What is executed for the calls is the same, and the provider is not asked meanwhile. -/
theorem executeToolCalls_same {calls calls' : List ParsedToolCall}
    (h : List.Forall₂ SameCall calls calls') {tr : List SystemEvent}
    {results : List ToolExecutionResult}
    (hrun : Program.Runs (executeToolCalls run activeTools sessionId calls) tr results) :
    (∃ results', Program.Runs (executeToolCalls run activeTools sessionId calls') tr results' ∧
      List.Forall₂ SameCallResult results results') ∧
      ∀ event ∈ tr, event.1.asksProvider = false := by
  refine ⟨Program.Runs.forEach_related ?_ h hrun, ?_⟩
  · exact fun call call' hcall tr result hrun => executeToolCall_same hcall hrun
  have hasks : AsksNothing (executeToolCalls run activeTools sessionId calls) :=
    (Program.Meets.forEach fun call _ => asksNothing_executeToolCall call).mono
      fun _ _ => trivial
  exact (hasks.of_runs hrun fun _ _ => trivial).1

end Tools

/-! ## The loops -/

/-- Contexts that differ in the dispatcher, and in what is told of the tools with it. -/
structure SameContext (ctx ctx' : LoopContext) : Prop where
  run : ctx.run = ctx'.run
  turnTools : ctx.turnTools = ctx'.turnTools
  sessionId : ctx.sessionId = ctx'.sessionId
  onTextDelta : ctx.onTextDelta = ctx'.onTextDelta

/-- The events that bring a response. -/
def eventsOf (response : ProviderResponse) : List StreamEvent :=
  response.outputText.toList.map .textDelta ++ response.toolCalls.map .toolCallComplete ++ [.done]

theorem collectStream_toolCalls (text : Text) (calls more : List ToolCall) :
    React.collectStream text calls (more.map .toolCallComplete ++ [.done]) =
      .ok ⟨if text = [] then none else some text, calls ++ more⟩ := by
  induction more generalizing calls with
  | nil => rw [List.append_nil]; rfl
  | cons call more ih =>
      rw [List.map_cons, List.cons_append, React.collectStream, ih, List.append_assoc]
      rfl

/-- A text that is streamed is not empty. -/
theorem collectStream_eventsOf {response : ProviderResponse}
    (h : response.outputText ≠ some []) :
    React.collectStream [] [] (eventsOf response) = .ok response := by
  obtain ⟨outputText, toolCalls⟩ := response
  cases outputText with
  | none => exact collectStream_toolCalls [] [] toolCalls
  | some text =>
      have hne : text ≠ [] := fun heq => h (congrArg some heq)
      have hcollect := collectStream_toolCalls text [] toolCalls
      rw [if_neg hne] at hcollect
      exact hcollect

theorem outputText_of_collectStream {text : Text} {calls : List ToolCall}
    {events : List StreamEvent} {response : ProviderResponse}
    (h : React.collectStream text calls events = .ok response) :
    response.outputText ≠ some [] := by
  induction events generalizing text calls with
  | nil =>
      cases h
      dsimp only
      split <;> simp_all
  | cons event events ih =>
      cases event with
      | textDelta delta => exact ih h
      | toolCallComplete call => exact ih h
      | done =>
          cases h
          dsimp only
          split <;> simp_all
      | error message => cases h

/-- The provider is asked once. -/
theorem asks_of_generate {systemPrompt : Text} {history : List Message}
    {toolSpecs : List ToolDefinition} {onTextDelta : Bool} {tr : List SystemEvent}
    {answer : Except FrameworkError ProviderResponse}
    (h : Program.Runs (generateProviderResponse systemPrompt history toolSpecs onTextDelta) tr
      answer) :
    ∃ event, tr = [event] ∧ Asks event history answer ∧
      (onTextDelta = true → ∀ response, answer = .ok response →
        response.outputText ≠ some []) := by
  cases onTextDelta with
  | true =>
      rcases Program.runs_andThen_iff.mp h with
        ⟨e, hask, rfl⟩ | ⟨events, tr₁, tr₂, rfl, hask, hpure⟩
      · obtain rfl := Program.runs_ask_iff.mp hask
        exact ⟨_, rfl, .failed, fun _ response hresponse => by cases hresponse⟩
      · obtain rfl := Program.runs_ask_iff.mp hask
        obtain ⟨rfl, rfl⟩ := Program.runs_pure_iff.mp hpure
        exact ⟨_, rfl, .streamed, fun _ response => outputText_of_collectStream⟩
  | false =>
      obtain rfl := Program.runs_ask_iff.mp h
      exact ⟨_, rfl, .whole, fun hstreams => by cases hstreams⟩

/-- The provider can give any answer; a text that it streams is not empty. -/
theorem generate_of_answer (systemPrompt : Text) (history : List Message)
    (toolSpecs : List ToolDefinition) (onTextDelta : Bool)
    (answer : Except FrameworkError ProviderResponse)
    (h : onTextDelta = true → ∀ response, answer = .ok response →
      response.outputText ≠ some []) :
    ∃ event, Asks event history answer ∧
      Program.Runs (generateProviderResponse systemPrompt history toolSpecs onTextDelta) [event]
        answer := by
  cases onTextDelta with
  | false => exact ⟨_, .whole, Program.runs_ask_iff.mpr rfl⟩
  | true =>
      cases answer with
      | error err =>
          exact ⟨⟨.generateStream systemPrompt history toolSpecs, .error err⟩, .failed,
            Program.runs_andThen_iff.mpr (.inl ⟨err, Program.runs_ask_iff.mpr rfl, rfl⟩)⟩
      | ok response =>
          have hcollect := collectStream_eventsOf (h rfl response rfl)
          rw [← hcollect]
          exact ⟨⟨.generateStream systemPrompt history toolSpecs, .ok (eventsOf response)⟩,
            .streamed, Program.runs_andThen_iff.mpr (.inr ⟨eventsOf response, _, [], rfl,
              Program.runs_ask_iff.mpr rfl, .pure _⟩)⟩

/-- What a response is written as for the other dispatcher: it comes to the same, and is a text
that can be streamed if the response is one. -/
structure Translates (dispatcher dispatcher' : ToolDispatcher)
    (response response' : ProviderResponse) : Prop where
  action : SameAction (dispatcher.parseResponse response) (dispatcher'.parseResponse response')
  text : response.outputText ≠ some [] → response'.outputText ≠ some []

/-- Every response of the provider in the trace can be written for the other dispatcher. -/
def TranslatesIn (dispatcher dispatcher' : ToolDispatcher) (tr : List SystemEvent) : Prop :=
  ∀ event ∈ tr, ∀ history response, Asks event history (.ok response) →
    ∃ response', Translates dispatcher dispatcher' response response'

/-- **One loop does what the other one does**, by induction on the steps that are left. -/
theorem steps_simulate {ctx ctx' : LoopContext} (hctx : SameContext ctx ctx') {n : Nat}
    {history history' : List Message} {executed executed' : List ToolExecutionResult}
    {tr : List SystemEvent} {result : Except FrameworkError RunOutcome}
    (hhistory : SameHistory ctx.dispatcher ctx'.dispatcher history history')
    (hexecuted : List.Forall₂ SameCallResult executed executed')
    (hrun : Program.Runs (ctx.steps n history executed) tr result)
    (htranslates : TranslatesIn ctx.dispatcher ctx'.dispatcher tr) :
    ∃ tr' result', Program.Runs (ctx'.steps n history' executed') tr' result' ∧
      List.Forall₂ (SameEvent ctx.dispatcher ctx'.dispatcher) tr tr' ∧
      SameOutcome result result' := by
  induction n generalizing history history' executed executed' tr with
  | zero =>
      obtain ⟨rfl, rfl⟩ := Program.runs_pure_iff.mp hrun
      exact ⟨[], _, .pure _, .nil, .ok hexecuted⟩
  | succ n ih =>
      rw [LoopContext.steps] at hrun ⊢
      rcases Program.runs_andThen_iff.mp hrun with
        ⟨err, hask, rfl⟩ | ⟨response, tr₁, tr₂, rfl, hask, hrest⟩
      · obtain ⟨event, rfl, hasks, -⟩ := asks_of_generate hask
        obtain ⟨event', hasks', hrun'⟩ := generate_of_answer ctx'.effectiveSystemPrompt history'
          ctx'.toolSpecs ctx'.onTextDelta (.error err) fun _ _ hresponse => by cases hresponse
        exact ⟨[event'], .error err, Program.runs_andThen_iff.mpr (.inl ⟨err, hrun', rfl⟩),
          .cons (.fails hasks hasks' hhistory) .nil, .error err⟩
      · obtain ⟨event, rfl, hasks, hstreamed⟩ := asks_of_generate hask
        rw [List.singleton_append] at htranslates ⊢
        obtain ⟨hevent, hlater⟩ := List.forall_mem_cons.mp htranslates
        obtain ⟨response', hsame⟩ := hevent history response hasks
        obtain ⟨event', hasks', hrun'⟩ := generate_of_answer ctx'.effectiveSystemPrompt history'
          ctx'.toolSpecs ctx'.onTextDelta (.ok response') fun hstreams _ hresponse =>
            Except.ok.inj hresponse ▸ hsame.text (hstreamed (hctx.onTextDelta ▸ hstreams) _ rfl)
        have haction := hsame.action
        have hsameEvent : SameEvent ctx.dispatcher ctx'.dispatcher event event' :=
          .responds hasks hasks' hhistory haction
        -- what the response comes to is the same for both dispatchers
        cases hparse : ctx.dispatcher.parseResponse response with
        | finalResponse text =>
            rw [hparse] at haction
            simp only [hparse] at hrest
            obtain ⟨rfl, rfl⟩ := Program.runs_pure_iff.mp hrest
            cases hparse' : ctx'.dispatcher.parseResponse response' with
            | finalResponse text' =>
                rw [hparse'] at haction
                cases haction
                refine ⟨[event'], .ok (.of text executed'), ?_, .cons hsameEvent .nil,
                  .ok hexecuted⟩
                refine Program.runs_andThen_iff.mpr (.inr ⟨response', [event'], [], rfl, hrun', ?_⟩)
                simp only [hparse']
                exact .pure _
            | toolCalls calls' => rw [hparse'] at haction; cases haction
            | empty => rw [hparse'] at haction; cases haction
        | empty =>
            rw [hparse] at haction
            simp only [hparse] at hrest
            cases hparse' : ctx'.dispatcher.parseResponse response' with
            | empty =>
                obtain ⟨tr', result', hloop, hevents, hresult⟩ := ih hhistory hexecuted hrest hlater
                refine ⟨event' :: tr', result', ?_, .cons hsameEvent hevents, hresult⟩
                refine Program.runs_andThen_iff.mpr
                  (.inr ⟨response', [event'], tr', rfl, hrun', ?_⟩)
                simp only [hparse']
                exact hloop
            | toolCalls calls' => rw [hparse'] at haction; cases haction
            | finalResponse text' => rw [hparse'] at haction; cases haction
        | toolCalls calls =>
            rw [hparse] at haction
            simp only [hparse] at hrest
            cases hparse' : ctx'.dispatcher.parseResponse response' with
            | toolCalls calls' =>
                rw [hparse'] at haction
                obtain hcalls : List.Forall₂ SameCall calls calls' := by
                  cases haction with
                  | toolCalls h => exact h
                obtain ⟨results, tr₃, tr₄, rfl, hexecute, hloop⟩ :=
                  Program.runs_bind_iff.mp hrest
                obtain ⟨⟨results', hexecute', hresults⟩, hasksNothing⟩ :=
                  executeToolCalls_same hcalls hexecute
                obtain ⟨tr', result', hloop', hevents, hresult⟩ :=
                  ih (.round hhistory hcalls hresults) (List.rel_append hexecuted hresults) hloop
                    fun event hmem => hlater event (List.mem_append_right _ hmem)
                refine ⟨event' :: (tr₃ ++ tr'), result', ?_, .cons hsameEvent ?_, hresult⟩
                · refine Program.runs_andThen_iff.mpr
                    (.inr ⟨response', [event'], tr₃ ++ tr', rfl, hrun', ?_⟩)
                  simp only [hparse']
                  rw [← hctx.run, ← hctx.turnTools, ← hctx.sessionId]
                  exact Program.runs_bind_iff.mpr ⟨results', tr₃, tr', rfl, hexecute', hloop'⟩
                · refine List.rel_append ?_ hevents
                  exact List.forall₂_same.mpr fun event hmem => .same (hasksNothing event hmem)
            | empty => rw [hparse'] at haction; cases haction
            | finalResponse text' => rw [hparse'] at haction; cases haction

/-! ## From the calls of the provider to calls in a text -/

/-- The response of a provider with tools, as one without them writes it. -/
def asText (json : SerdeJson) (response : ProviderResponse) : ProviderResponse :=
  if response.toolCalls ≠ [] then
    ⟨some (React.XmlDispatcher.formatCallsXml json
      (React.NativeDispatcher.parsedFromProviderCalls json response.toolCalls)), []⟩
  else response

/-- The calls are delimited, under names without blanks around them, and a response without calls
has none in its text. -/
structure Writable (json : SerdeJson) (response : ProviderResponse) : Prop where
  names : ∀ call ∈ React.NativeDispatcher.parsedFromProviderCalls json response.toolCalls,
    Text.trim call.name = call.name
  delimited : ∀ call ∈ React.NativeDispatcher.parsedFromProviderCalls json response.toolCalls,
    React.XmlDispatcher.Delimited json call
  plain : response.toolCalls = [] → ∀ text, response.outputText = some text →
    React.XmlDispatcher.parseToolCallsFromText json text = []

section Translations

variable {json : SerdeJson} {response : ProviderResponse}

/-- Delimited calls are read back from their text. -/
theorem sameCalls_of_delimited (hjson : json.WritesCompact) {calls : List ParsedToolCall}
    (hnames : ∀ call ∈ calls, Text.trim call.name = call.name)
    (h : ∀ call ∈ calls, React.XmlDispatcher.Delimited json call) :
    List.Forall₂ SameCall calls
      (React.XmlDispatcher.parseToolCallsFromText json
        (React.XmlDispatcher.formatCallsXml json calls)) := by
  induction calls with
  | nil => exact .nil
  | cons call calls ih =>
      obtain ⟨htrim, hnames⟩ := List.forall_mem_cons.mp hnames
      obtain ⟨hcall, hcalls⟩ := List.forall_mem_cons.mp h
      have hnumerals := hjson.numerals _ _ hcall.readBack
      have harguments : ¬ React.XmlDispatcher.argumentsToolCall.OccursIn Text.isWhiteSpace
          (json.toString call.arguments) := by
        rw [React.XmlDispatcher.occursIn_arguments_iff hjson hnumerals]
        rintro ⟨s, hs, hin⟩
        exact hcall.arguments s hs hin
      rw [React.XmlDispatcher.parseToolCallsFromText, React.XmlDispatcher.formatCallsXml,
        List.flatMap_cons]
      obtain ⟨-, -, hcaptures⟩ | ⟨-, -, -, -, hname, -, -⟩ | ⟨-, -, -, hoccurs, -, -⟩ :=
        React.XmlDispatcher.capturesIter_cases json call
          (calls.flatMap (React.XmlDispatcher.formatCallXml json))
      · rw [hcaptures]
        have hcontent :=
          (React.XmlDispatcher.content_parsed_iff hjson htrim).mpr hcall.readBack
        obtain ⟨hname, hargument⟩ := Prod.mk.inj hcontent
        exact .cons ⟨hname.symm, hargument.symm⟩ (ih hnames hcalls)
      · exact absurd hname hcall.name
      · exact absurd hoccurs harguments

theorem translates_asText (hjson : json.WritesCompact) (h : Writable json response) :
    Translates (nativeDispatcher json) (xmlDispatcher json) response (asText json response) := by
  by_cases hcalls : response.toolCalls = []
  · have hsame : asText json response = response := if_neg (not_not_intro hcalls)
    rw [hsame]
    refine ⟨?_, id⟩
    show SameAction (React.NativeDispatcher.parseResponse json response)
      (React.XmlDispatcher.parseResponse json response)
    rw [React.NativeDispatcher.parseResponse, if_neg (not_not_intro hcalls),
      React.XmlDispatcher.parseResponse]
    cases houtput : response.outputText with
    | none => exact .empty
    | some text =>
        simp only [h.plain hcalls text houtput]
        exact .finalResponse text
  · have hasText : asText json response = ⟨some (React.XmlDispatcher.formatCallsXml json
        (React.NativeDispatcher.parsedFromProviderCalls json response.toolCalls)), []⟩ :=
      if_pos hcalls
    have hne : React.NativeDispatcher.parsedFromProviderCalls json response.toolCalls ≠ [] :=
      fun hnil => hcalls (List.map_eq_nil_iff.mp hnil)
    rw [hasText]
    constructor
    · show SameAction (React.NativeDispatcher.parseResponse json response)
        (React.XmlDispatcher.parseResponse json ⟨some (React.XmlDispatcher.formatCallsXml json
          (React.NativeDispatcher.parsedFromProviderCalls json response.toolCalls)), []⟩)
      rw [React.NativeDispatcher.parseResponse, if_pos hcalls,
        React.XmlDispatcher.parseResponse_formatCallsXml json hne]
      exact .toolCalls (sameCalls_of_delimited hjson h.names h.delimited)
    · -- the text of a call is not empty
      intro _ hempty
      obtain ⟨call, calls, hcons⟩ := List.exists_cons_of_ne_nil hne
      rw [hcons] at hempty
      have hlength := congrArg List.length (Option.some.inj hempty)
      rw [React.XmlDispatcher.formatCallsXml, List.flatMap_cons,
        React.XmlDispatcher.formatCallXml_append] at hlength
      simp at hlength

/-! ## From calls in a text to the calls of the provider -/

/-- The response of a provider without tools, as one with them gives it; calls beside the text are
not looked at. -/
def asCalls (json : SerdeJson) (response : ProviderResponse) : ProviderResponse :=
  match response.outputText with
  | none => ⟨none, []⟩
  | some text => ⟨some text, (React.XmlDispatcher.parseToolCallsFromText json text).map fun call =>
      { id := none, name := call.name, argsJson := json.toString call.arguments }⟩

/-- The arguments in the text are read back. -/
def Readable (json : SerdeJson) (response : ProviderResponse) : Prop :=
  ∀ text, response.outputText = some text →
    ∀ call ∈ React.XmlDispatcher.parseToolCallsFromText json text,
      json.fromStr (json.toString call.arguments) = .ok call.arguments

theorem translates_asCalls (h : Readable json response) :
    Translates (xmlDispatcher json) (nativeDispatcher json) response (asCalls json response) := by
  obtain ⟨outputText, toolCalls⟩ := response
  cases outputText with
  | none => exact ⟨.empty, fun _ hnone => by cases hnone⟩
  | some text =>
      refine ⟨?_, id⟩
      show SameAction (React.XmlDispatcher.parseResponse json ⟨some text, toolCalls⟩)
        (React.NativeDispatcher.parseResponse json (asCalls json ⟨some text, toolCalls⟩))
      have hread := h text rfl
      rw [React.XmlDispatcher.parseResponse, React.NativeDispatcher.parseResponse]
      have hasCalls : (asCalls json ⟨some text, toolCalls⟩).toolCalls =
          (React.XmlDispatcher.parseToolCallsFromText json text).map fun call =>
            { id := none, name := call.name, argsJson := json.toString call.arguments } := rfl
      by_cases hnil : React.XmlDispatcher.parseToolCallsFromText json text = []
      · rw [if_neg (by rw [hasCalls, hnil]; exact fun hne => hne rfl)]
        simp only [hnil]
        exact .finalResponse text
      · rw [if_pos (by rw [hasCalls]; exact fun hmap => hnil (List.map_eq_nil_iff.mp hmap))]
        simp only [List.isEmpty_eq_false_iff.mpr hnil]
        refine .toolCalls ?_
        rw [hasCalls, React.NativeDispatcher.parsedFromProviderCalls, List.map_map,
          List.forall₂_map_right_iff]
        refine List.forall₂_same.mpr fun call hmem => ⟨rfl, ?_⟩
        simp only [Function.comp_apply, hread call hmem]

end Translations

/-! ## The two loops -/

/-- The loops of a process whose providers all have tools of their own, or all have none. -/
def ReactLoop.withTools (loop : ReactLoop) (supportsNativeTools : Bool) : ReactLoop :=
  { loop with
    provider := fun _ => .ok supportsNativeTools
    xmlDispatcher := Invoke.xmlDispatcher loop.json }

/-- All responses of the provider in the trace. -/
def Responds (P : ProviderResponse → Prop) (tr : List SystemEvent) : Prop :=
  ∀ event ∈ tr, ∀ history response, Asks event history (.ok response) → P response

/-- The model asks the clock, and then answers. -/
def askTheClock (before : List SystemEvent) : (call : SystemCall) → SystemAnswer call
  | .generate _ _ _ =>
      .ok (if before.isEmpty then ⟨none, [⟨some "1".toList, "clock", "\x7b\x7d"⟩]⟩
        else ⟨some "noon".toList, []⟩)
  | .generateStream _ _ _ => .ok []
  | .direct _ _ _ => .ok "12:00"
  | .requestApproval _ | .planTool _ _ | .runWasm _ _ | .runUnsandboxed _ _
  | .execShellCommand _ _ _ _ | .runHostCommand _ _ _ _ _ | .prepareSpawn _ _ _
  | .startProcess _ _ _ _ _ _ | .startPreparedProcess _ _ _ _ _ _ | .startDelegated _ _ _ _ _
  | .invoke _ => .error (.tool "unavailable")

def clockReactLoop : ReactLoop where
  json := React.XmlDispatcher.readerOf (React.XmlDispatcher.echo "hi").arguments
  host := bareHost
  provider := fun _ => .ok true
  xmlDispatcher := xmlDispatcher
    (React.XmlDispatcher.readerOf (React.XmlDispatcher.echo "hi").arguments)
  definition := fun tool => ⟨tool.name, "", "\x7b\x7d"⟩

def clockRunParams : RunParams where
  providerKey := "default"
  systemPrompt := "You are Claw."
  agentId := "claw"
  agentName := "Claw"
  sessionId := "s"
  maxSteps := 4
  executionEnv := []
  workspaceRoot := ⟨true, []⟩
  userId := "u"
  ownerIds := []
  toolRegistry :=
    ⟨[⟨.direct .clock, .direct, false⟩], indexByName [⟨.direct .clock, .direct, false⟩]⟩
  sourceMessageId := none
  onTextDelta := false
  allowAsyncTools := false

def nativeClockRun : List SystemEvent × Except FrameworkError RunOutcome :=
  ((clockReactLoop.withTools true).run clockRunParams [.text .user "what time is it?"]).runBy
    askTheClock []

theorem writable_askTheClock {before : List SystemEvent} {systemPrompt : Text}
    {history : List Message} {toolSpecs : List ToolDefinition} {response : ProviderResponse}
    (h : askTheClock before (.generate systemPrompt history toolSpecs) = .ok response) :
    Writable clockReactLoop.json response := by
  have hjson : clockReactLoop.json.WritesCompact :=
    React.XmlDispatcher.writesCompact_readerOf_echo "hi"
  have hparsed : React.NativeDispatcher.parsedFromProviderCalls clockReactLoop.json
      [⟨some "1".toList, "clock", "\x7b\x7d"⟩] = [⟨"clock", .object [], some "1".toList⟩] := by
    simp only [React.NativeDispatcher.parsedFromProviderCalls, List.map_singleton, hjson.empty]
  obtain rfl := (Except.ok.inj h).symm
  split
  · constructor
    · rw [hparsed]
      exact List.forall_mem_singleton.mpr (by decide)
    · rw [hparsed]
      refine List.forall_mem_singleton.mpr ⟨?_, ?_, ?_⟩
      · -- there is no tag in the name
        rintro ⟨ws, -, hin⟩
        have hmem := hin.subset (List.mem_append_left _ (show '<' ∈ _ from List.mem_cons_self))
        exact absurd hmem (by decide)
      · intro s hs
        cases hs
      · rw [hjson.toString]
        exact hjson.empty
    · rintro ⟨⟩
  · constructor
    · exact fun call hcall => by cases hcall
    · exact fun call hcall => by cases hcall
    · rintro - text ⟨⟩
      rfl

theorem responds_nativeClockRun :
    Responds (Writable clockReactLoop.json) nativeClockRun.1 := by
  intro event hevent history response hasks
  obtain ⟨seen, hanswer⟩ := Program.answered_runBy hevent
  generalize hresponse : Except.ok response = answer at hasks
  cases hasks with
  | whole => exact writable_askTheClock (hanswer.symm.trans hresponse.symm)
  | @streamed systemPrompt history toolSpecs events =>
      obtain rfl : events = [] := Except.ok.inj hanswer
      obtain rfl := Except.ok.inj hresponse
      exact ⟨by rintro call ⟨⟩, by rintro call ⟨⟩, by rintro - text ⟨⟩⟩
  | failed => cases hresponse

end Invoke
end SimpleClaw
