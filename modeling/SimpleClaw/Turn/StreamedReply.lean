import SimpleClaw.Run.StreamingText
import SimpleClaw.Run.Transparency
import SimpleClaw.Turn.Execute

/-!
# The streamed reply of a turn

While the react loop of a turn waits for the model, the text that streams in is handed to the
display, from the beginning again with each response.  When the turn is over, its reply goes the
same way, with what was done under it, or an error message instead.

* `loopActions`: what the turn gives to the display while the loop runs.
* `closing`: what it gives to the display at the end.
* `streamed_reply_shown`: if no response has text beside tool calls, then in every state of the
  display the messages are a beginning of the reply.
-/

namespace SimpleClaw
namespace Turn

open Providers React Streaming Transition
open Config (GatewayChannelKind)
open Gateway (InboundMessage)
open Memory (ShortTermDb)
open Run (renderToolCallTransparency)

/-! ## What the loop gives to the display -/

/-- The pieces of text that are handed on before a stream ends. -/
def deltasOf : List StreamEvent → List Text
  | [] => []
  | .textDelta delta :: events => delta :: deltasOf events
  | .toolCallComplete _ :: events => deltasOf events
  | .done :: _ | .error _ :: _ => []

/-- The pieces of text that are handed on in the event. -/
def streamedDeltas : ReactEvent → List Text
  | ⟨.generateStream _ _ _, .ok events⟩ => deltasOf events
  | ⟨.generateStream _ _ _, .error _⟩ | ⟨.generate _ _ _, _⟩ | ⟨.executeAll _, _⟩ => []

/-- What the turn does to the display in the event: a stream begins with no text. -/
def displayActions : ReactEvent → List TurnAction
  | ⟨.generateStream _ _ _, .ok events⟩ => .newStep :: (deltasOf events).map .textDelta
  | ⟨.generateStream _ _ _, .error _⟩ | ⟨.generate _ _ _, _⟩ | ⟨.executeAll _, _⟩ => []

def loopActions (tr : List ReactEvent) : List TurnAction := tr.flatMap displayActions

/-- The text of the response is the reply: if it streams any, it is whole and calls no tool. -/
def TextIsReply (event : ReactEvent) : Prop :=
  (streamedDeltas event).flatten ≠ [] →
    ∃ response, responseOf event = some response ∧ response.toolCalls = []

theorem outputText_of_collectStream {text : Text} {calls : List ToolCall}
    {events : List StreamEvent} {response : ProviderResponse}
    (h : collectStream text calls events = .ok response) :
    response.outputText =
      if text ++ (deltasOf events).flatten = [] then none
      else some (text ++ (deltasOf events).flatten) := by
  induction events generalizing text calls with
  | nil =>
      cases h
      simp [deltasOf]
  | cons event events ih =>
      cases event with
      | textDelta delta =>
          rw [collectStream] at h
          rw [ih h, deltasOf, List.flatten_cons, List.append_assoc]
      | toolCallComplete call =>
          rw [collectStream] at h
          rw [ih h, deltasOf]
      | done =>
          cases h
          simp [deltasOf]
      | error message => cases h

/-- Asking the provider, with the text that is streamed meanwhile. -/
theorem streamed_of_generate {systemPrompt : Text} {history : List Message}
    {toolSpecs : List ToolDefinition} {onTextDelta : Bool} {tr : List ReactEvent}
    {answer : Except FrameworkError ProviderResponse}
    (h : Program.Runs (generateProviderResponse systemPrompt history toolSpecs onTextDelta) tr
      answer) :
    ∃ event, tr = [event] ∧ responseOf event = answer.toOption ∧
      ∀ response, answer = .ok response → (streamedDeltas event).flatten ≠ [] →
        response.outputText = some (streamedDeltas event).flatten := by
  cases onTextDelta with
  | true =>
      rcases Program.runs_andThen_iff.mp h with
        ⟨e, hask, rfl⟩ | ⟨events, tr₁, tr₂, rfl, hask, hpure⟩
      · obtain rfl := Program.runs_ask_iff.mp hask
        exact ⟨_, rfl, rfl, fun response hresponse => by cases hresponse⟩
      · obtain rfl := Program.runs_ask_iff.mp hask
        obtain ⟨rfl, hanswer⟩ := Program.runs_pure_iff.mp hpure
        refine ⟨_, rfl, by rw [hanswer]; rfl, fun response hresponse hne => ?_⟩
        rw [hresponse] at hanswer
        have hne : (deltasOf events).flatten ≠ [] := hne
        rw [outputText_of_collectStream hanswer.symm, List.nil_append, if_neg hne]
        rfl
  | false =>
      obtain rfl := Program.runs_ask_iff.mp h
      refine ⟨_, rfl, ?_, fun response _ hne => absurd rfl hne⟩
      cases answer <;> rfl

/-- The loop streams no text, or its last response is the only one that streams any, and the reply
is its text. -/
inductive StreamsReply (result : Except FrameworkError RunOutcome) : List ReactEvent → Prop where
  | nothing {tr} (h : ∀ event ∈ tr, (streamedDeltas event).flatten = []) : StreamsReply result tr
  | reply {before last outcome} (hbefore : ∀ event ∈ before, (streamedDeltas event).flatten = [])
      (hresult : result = .ok outcome) (hreply : outcome.reply = (streamedDeltas last).flatten) :
      StreamsReply result (before ++ [last])

theorem StreamsReply.cons {result : Except FrameworkError RunOutcome} {event : ReactEvent}
    {tr : List ReactEvent} (hevent : (streamedDeltas event).flatten = [])
    (h : StreamsReply result tr) : StreamsReply result (event :: tr) := by
  cases h with
  | nothing h => exact .nothing (List.forall_mem_cons.mpr ⟨hevent, h⟩)
  | reply hbefore hresult hreply =>
      rw [← List.cons_append]
      exact .reply (List.forall_mem_cons.mpr ⟨hevent, hbefore⟩) hresult hreply

/-- **If a text is streamed only as the reply, one response streams all of it**, by induction on
the steps that are left. -/
theorem streamsReply_of_steps {ctx : LoopContext} {n : Nat}
    {executed : List ToolExecutionResult} {history history' : List Message}
    {tr : List ReactEvent} {result : Except FrameworkError RunOutcome}
    (hrun : Program.Runs (ctx.steps n history executed) tr (result, history'))
    (hreply : ∀ event ∈ tr, TextIsReply event) : StreamsReply result tr := by
  induction n generalizing history executed tr with
  | zero =>
      obtain ⟨rfl, -⟩ := Program.runs_pure_iff.mp hrun
      exact .nothing fun event hevent => by cases hevent
  | succ n ih =>
      rw [LoopContext.steps] at hrun
      obtain ⟨answer, tr₁, tr₂, rfl, hask, hrest⟩ := Program.runs_bind_iff.mp hrun
      obtain ⟨event, rfl, hresponse, houtput⟩ := streamed_of_generate hask
      rw [List.singleton_append] at hreply ⊢
      obtain ⟨hevent, hlater⟩ := List.forall_mem_cons.mp hreply
      cases answer with
      | error e =>
          -- a response that breaks off would not have been the reply
          obtain ⟨rfl, -⟩ := Program.runs_pure_iff.mp hrest
          refine .nothing (List.forall_mem_singleton.mpr ?_)
          by_contra hne
          obtain ⟨response, hsome, -⟩ := hevent hne
          rw [hresponse] at hsome
          cases hsome
      | ok response =>
          by_cases hempty : (streamedDeltas event).flatten = []
          · -- nothing is streamed here, whatever the response is
            cases hparse : NativeDispatcher.parseResponse ctx.json response with
            | toolCalls calls =>
                simp only [hparse] at hrest
                obtain ⟨answers, tr₃, tr₄, rfl, hexecute, hloop⟩ := Program.runs_bind_iff.mp hrest
                obtain rfl := Program.runs_ask_iff.mp hexecute
                refine (StreamsReply.cons rfl (ih hloop fun e he => ?_)).cons hempty
                exact hlater e (List.mem_append_right _ he)
            | finalResponse text =>
                simp only [hparse] at hrest
                obtain ⟨rfl, -⟩ := Program.runs_pure_iff.mp hrest
                exact .nothing (List.forall_mem_singleton.mpr hempty)
            | empty =>
                simp only [hparse] at hrest
                exact (ih hrest hlater).cons hempty
          · -- the text is the reply
            obtain ⟨response', hsome, hcalls⟩ := hevent hempty
            rw [hresponse] at hsome
            obtain rfl := Option.some.inj hsome
            have hparse : NativeDispatcher.parseResponse ctx.json response =
                .finalResponse (streamedDeltas event).flatten := by
              rw [NativeDispatcher.parseResponse, if_neg (not_not_intro hcalls),
                houtput response rfl hempty]
            simp only [hparse] at hrest
            obtain ⟨rfl, hresult⟩ := Program.runs_pure_iff.mp hrest
            rw [← List.nil_append [event]]
            exact .reply (fun e he => by cases he) (Prod.mk.inj hresult).1 rfl

theorem givesOnly_displayActions {reply text : Text} {event : ReactEvent}
    (h : (streamedDeltas event).flatten <+: reply) :
    GivesOnly reply text (displayActions event) := by
  obtain ⟨call, answer⟩ := event
  cases call with
  | generateStream systemPrompt history toolSpecs =>
      cases answer with
      | ok events => exact ⟨trivial, givesOnly_deltas h⟩
      | error e => trivial
  | generate systemPrompt history toolSpecs => trivial
  | executeAll jobs => trivial

/-- The loop gives only beginnings of a text to the display if no response streams another. -/
theorem givesOnly_loopActions {reply text : Text} {tr : List ReactEvent}
    (h : ∀ event ∈ tr, (streamedDeltas event).flatten <+: reply) :
    GivesOnly reply text (loopActions tr) := by
  induction tr generalizing text with
  | nil => trivial
  | cons event tr ih =>
      obtain ⟨hevent, hrest⟩ := List.forall_mem_cons.mp h
      rw [loopActions, List.flatMap_cons]
      exact givesOnly_append_iff.mpr ⟨givesOnly_displayActions hevent, ih hrest⟩

theorem StreamsReply.isPrefix {result : Except FrameworkError RunOutcome} {tr : List ReactEvent}
    {reply : Text} (h : StreamsReply result tr)
    (hreply : ∀ outcome, result = .ok outcome → outcome.reply <+: reply) :
    ∀ event ∈ tr, (streamedDeltas event).flatten <+: reply := by
  intro event hevent
  cases h with
  | nothing h =>
      rw [h event hevent]
      exact List.nil_prefix
  | @reply before last outcome hbefore hresult htext =>
      rcases List.mem_append.mp hevent with hbefore' | hlast
      · rw [hbefore event hbefore']
        exact List.nil_prefix
      · rw [List.mem_singleton.mp hlast, ← htext]
        exact hreply outcome hresult

/-! ## The end of the turn -/

/-- What is shown of a turn beside its reply, and instead of it if it fails. -/
structure ReplySettings where
  toolCalls : Bool
  memoryRecall : Bool
  safeErrorReply : Text

/-- What the turn gives to the display at its end, if it comes to one: the reply with what was
done under it, the sentinel that suppresses it, or the error message. -/
def closing (settings : ReplySettings) (sourceChannel : GatewayChannelKind)
    (run : Except FrameworkError RunOutcome) :
    Except TurnFailure TurnDisposition → Option TurnAction
  | .ok .contextRecorded => none
  | .ok .noReply => run.toOption.map fun outcome => .noReply outcome.reply
  | .ok (.replied outcome) =>
      if isNoReply outcome.reply then some (.noReply outcome.reply)
      else
        (renderToolCallTransparency outcome.reply
          { toolCalls := outcome.toolCalls
            toolCallsEnabled := settings.toolCalls
            memoryRecallEnabled := settings.memoryRecall
            memoryRecallUsed := outcome.memoryRecallUsed
            memoryRecallShortHits := outcome.memoryRecallShortHits
            memoryRecallLongHits := outcome.memoryRecallLongHits }
          sourceChannel).map .reply
  | .error (.error _) => some (.reply settings.safeErrorReply)
  | .error (.panic _) => none

/-- What the turn comes to say, shown or suppressed. -/
def said : TurnAction → Text
  | .reply content | .noReply content => content
  | .newStep | .textDelta _ | .attempt _ | .retry _ | .sendCompleted _ _ | .editCompleted _ _
  | .poll | .wholeSent _ => []

section Closing

variable {E : Type} {agent : AgentRuntimeConfig} {answers : TurnAnswers E} {db db' : ShortTermDb E}
  {inbound : InboundMessage} {sessionId : Text} {disposition : TurnDisposition}
  {settings : ReplySettings} {sourceChannel : GatewayChannelKind} {action : TurnAction}

/-- A turn that is answered ends with the reply of its loop. -/
theorem reply_of_execute (hinvoke : inbound.invoke = true)
    (h : execute agent answers db inbound sessionId = (.ok disposition, db')) :
    ∃ outcome, answers.run = .ok outcome ∧ (disposition = .noReply ∨
      ∃ turn : TurnOutcome, disposition = .replied turn ∧ turn.reply = outcome.reply) := by
  simp only [execute, hinvoke, Bool.true_eq_false, if_false] at h
  split at h
  · cases h
  · split at h
    · cases h
    · split at h
      · cases h
      · split at h
        · cases h
        · rename_i outcome houtcome
          refine ⟨outcome, houtcome, ?_⟩
          split at h
          · cases h
          · rename_i hfinalize
            cases h
            rw [finalizeTurn] at hfinalize
            split at hfinalize
            · cases hfinalize
              exact .inl rfl
            · split at hfinalize
              · cases hfinalize
              · cases hfinalize
                exact .inr ⟨_, rfl, rfl⟩

theorem reply_prefix_said {outcome : RunOutcome} (hrun : answers.run = .ok outcome)
    (hdisposition : disposition = .noReply ∨
      ∃ turn : TurnOutcome, disposition = .replied turn ∧ turn.reply = outcome.reply)
    (h : closing settings sourceChannel answers.run (.ok disposition) = some action) :
    outcome.reply <+: said action := by
  rcases hdisposition with rfl | ⟨turn, rfl, hreply⟩
  · rw [hrun] at h
    cases h
    exact List.prefix_refl _
  · rw [← hreply]
    simp only [closing] at h
    split at h
    · cases h
      exact List.prefix_refl _
    · obtain ⟨below, hrender, -⟩ := Run.exists_renderToolCallTransparency turn.reply
        { toolCalls := turn.toolCalls
          toolCallsEnabled := settings.toolCalls
          memoryRecallEnabled := settings.memoryRecall
          memoryRecallUsed := turn.memoryRecallUsed
          memoryRecallShortHits := turn.memoryRecallShortHits
          memoryRecallLongHits := turn.memoryRecallLongHits } sourceChannel
      rw [hrender] at h
      cases h
      exact List.prefix_append _ _

theorem closing_cases {run : Except FrameworkError RunOutcome}
    {result : Except TurnFailure TurnDisposition}
    (h : closing settings sourceChannel run result = some action) :
    action = .reply (said action) ∨ action = .noReply (said action) := by
  unfold closing at h
  split at h
  · cases h
  · obtain ⟨outcome, -, rfl⟩ := Option.map_eq_some_iff.mp h
    exact .inr rfl
  · split at h
    · cases h
      exact .inr rfl
    · obtain ⟨content, -, rfl⟩ := Option.map_eq_some_iff.mp h
      exact .inl rfl
  · cases h
    exact .inl rfl
  · cases h

/-- The last action of the turn gives what it says, or nothing. -/
theorem givesOnly_closing {run : Except FrameworkError RunOutcome}
    {result : Except TurnFailure TurnDisposition} {text : Text}
    (h : closing settings sourceChannel run result = some action) :
    GivesOnly (said action) text [action] := by
  rcases closing_cases h with haction | haction
  · rw [haction]
    exact ⟨rfl, trivial⟩
  · rw [haction]
    exact ⟨trivial, trivial⟩

/-- **A streamed reply is shown as it grows.**  Take a turn whose loop streams no text beside tool
calls, and none that breaks off, and whose reply is stored.  Whatever sends and edits fail and in
whatever order the tasks of the display run, in every state the messages of the turn are a
beginning of what it comes to say, and once the finalizer has returned without an error they are
all of it; only a text that is sent whole can be longer than a message may be. -/
theorem streamed_reply_shown {json : SerdeJson}
    {definition : Tools.RegisteredTool → ToolDefinition} {params : RunParams}
    {caller : ToolCaller} {activeTools : AgentToolRegistry}
    {history history' : List Message} {tr : List ReactEvent}
    {result : Except TurnFailure TurnDisposition} {channelLimit : Option Nat}
    {shown : List (TurnAction × Streaming.Turn)}
    (hloop : Program.Runs (runLoop json definition params caller activeTools history) tr
      (answers.run, history'))
    (hreply : ∀ event ∈ tr, TextIsReply event) (hinvoke : inbound.invoke = true)
    (hturn : execute agent answers db inbound sessionId = (result, db'))
    (hstored : ∀ outcome, answers.run = .ok outcome → ∃ disposition, result = .ok disposition)
    (hclosing : closing settings inbound.sourceChannel answers.run result = some action)
    (hrun : Run Streaming.Turn.step (Streaming.Turn.start params.onTextDelta channelLimit) shown)
    (hactions : turnActions shown <+: loopActions tr ++ [action]) :
    ∀ x ∈ shown, x.2.ShowsText (said action) := by
  have hstart : ∀ outcome, answers.run = .ok outcome → outcome.reply <+: said action := by
    intro outcome houtcome
    obtain ⟨disposition, rfl⟩ := hstored outcome houtcome
    obtain ⟨outcome', houtcome', hdisposition⟩ := reply_of_execute hinvoke hturn
    rw [houtcome] at houtcome'
    obtain rfl := Except.ok.inj houtcome'
    exact reply_prefix_said houtcome hdisposition hclosing
  have hloopActions : GivesOnly (said action) [] (loopActions tr) :=
    givesOnly_loopActions ((streamsReply_of_steps hloop hreply).isPrefix hstart)
  refine showsText_of_givesOnly hrun (GivesOnly.of_isPrefix ?_ hactions)
  exact givesOnly_append_iff.mpr ⟨hloopActions, givesOnly_closing hclosing⟩

end Closing

/-! ## A turn that calls a tool and streams its reply -/

/-- The model calls the clock without a word, and then streams the reply. -/
def streamTheTime (before : List ReactEvent) : (call : ReactCall) → ReactAnswer call
  | .generate _ _ _ => .ok ⟨none, []⟩
  | .generateStream _ _ _ =>
      .ok (if before.isEmpty then [.toolCallComplete ⟨some "1".toList, "clock", "{}"⟩, .done]
        else [.textDelta "It is", .textDelta " noon.", .done])
  | .executeAll _ => fun _ => .ok (.completed "12:00" [])

def clockProgram : ReactProgram (Except FrameworkError RunOutcome × List Message) :=
  runLoop emptyObjectJson (fun tool => ⟨tool.name, "", "{}"⟩)
    ⟨"", "session", 8, none, true⟩ ⟨"guest", ["owner"]⟩
    ⟨[clockEntry], indexByName [clockEntry]⟩ [.text .user "what time is it?"]

def clockLoop : List ReactEvent × Except FrameworkError RunOutcome × List Message :=
  clockProgram.runBy streamTheTime []

def clockTurn : TurnAnswers Unit where
  hasMemory := true
  prepare := .untroubled Unit
  run := clockLoop.2.1
  finalize := .untroubled Unit

def clockResult : Except TurnFailure TurnDisposition × ShortTermDb Unit :=
  execute (agentWithWindow none) clockTurn (.empty Unit) channelInbound "s"

def clockReply : Text := "It is noon.\n-# tools [clock `ok×1`]".toList

/-- The reply goes into two messages. -/
def clockDisplay : List TurnAction :=
  [.newStep, .newStep, .textDelta "It is", .attempt false, .sendCompleted 0 .withId, .retry true,
    .textDelta " noon.", .attempt false, .editCompleted 0 none, .retry true, .reply clockReply,
    .attempt false, .poll, .editCompleted 0 none, .retry true, .sendCompleted 0 .withId,
    .attempt true, .poll]

/-- `TextIsReply`, computed. -/
def textIsReply (event : ReactEvent) : Bool :=
  (streamedDeltas event).flatten.isEmpty ||
    (responseOf event).any fun response => response.toolCalls.isEmpty

theorem textIsReply_of_check {event : ReactEvent} (h : textIsReply event = true) :
    TextIsReply event := by
  intro hne
  rcases Bool.or_eq_true_iff.mp h with hempty | hany
  · exact absurd (List.isEmpty_iff.mp hempty) hne
  · obtain ⟨response, hresponse, hcalls⟩ := (Option.any_eq_true _ _).mp hany
    exact ⟨response, hresponse, List.isEmpty_iff.mp hcalls⟩

theorem streamed_reply_shown_clock : ∃ shown,
    exec Streaming.Turn.step (Streaming.Turn.start true (some 24)) clockDisplay = some shown ∧
      (Run.final (Streaming.Turn.start true (some 24)) shown).stage =
        .returned clockReply (.ok ()) ∧
      (Run.final (Streaming.Turn.start true (some 24)) shown).messages.length = 2 ∧
      ∀ x ∈ shown, x.2.ShowsText clockReply := by
  have hruns : ((exec Streaming.Turn.step (Streaming.Turn.start true (some 24))
      clockDisplay).filter fun shown =>
        decide ((Run.final (Streaming.Turn.start true (some 24)) shown).stage =
            .returned clockReply (.ok ()) ∧
          (Run.final (Streaming.Turn.start true (some 24)) shown).messages.length = 2) &&
        (turnActions shown).isPrefixOf (loopActions clockLoop.1 ++ [.reply clockReply])).isSome ∧
      clockLoop.1.all textIsReply ∧
      closing ⟨true, true, "failed"⟩ .discord clockTurn.run clockResult.1 =
        some (.reply clockReply) ∧
      clockResult.1.toOption.isSome := by decide +kernel
  obtain ⟨hshown, htexts, hclosing, hstored⟩ := hruns
  obtain ⟨shown, hshown⟩ := Option.isSome_iff_exists.mp hshown
  obtain ⟨hexec, hshows⟩ := Option.filter_eq_some_iff.mp hshown
  obtain ⟨hends, hstart⟩ := Bool.and_eq_true_iff.mp hshows
  obtain ⟨hstage, hlength⟩ := of_decide_eq_true hends
  refine ⟨shown, hexec, hstage, hlength, ?_⟩
  have hloop : Program.Runs clockProgram clockLoop.1 (clockTurn.run, clockLoop.2.2) :=
    Program.runs_runBy streamTheTime clockProgram []
  have hturn : execute (agentWithWindow none) clockTurn (.empty Unit) channelInbound "s" =
      (clockResult.1, clockResult.2) := rfl
  refine streamed_reply_shown hloop (fun event hevent =>
    textIsReply_of_check (List.all_eq_true.mp htexts event hevent)) rfl hturn (fun _ _ => ?_)
    hclosing (run_of_exec hexec) (List.isPrefixOf_iff_prefix.mp hstart)
  cases hresult : clockResult.1 with
  | ok disposition => exact ⟨disposition, rfl⟩
  | error failure =>
      rw [hresult] at hstored
      cases hstored

end Turn
end SimpleClaw
