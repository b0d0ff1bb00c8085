import SimpleClaw.Error
import SimpleClaw.Lib.EventStream
import SimpleClaw.Providers.Json
import SimpleClaw.Providers.Types

/-!
# The stream of the Codex provider

The payload of an event is one JSON value, or one a line.  A value may be an error, which ends the
stream; otherwise it may bring a piece of text, the whole text where there was no piece before, or
a tool call, which is kept until the stream ends.

* `parseProviderResponse`: the text and the calls of a whole response.
* `CodexStreamAccumulator.pushBytes`, `CodexStreamAccumulator.finish`: the accumulator.
* `handlePayload_fails_iff`: what a payload fails with does not depend on what came before.
-/

namespace SimpleClaw
namespace Providers
namespace OpenaiCodex

/-! ## Whole responses -/

def firstNonemptyStr (value : Option Text) : Option Text :=
  (value.map Text.trim).filter (· ≠ [])

/-- The text of a part, if it is a part of text. -/
def partText (part : Value) : Option Text :=
  let kind := part.str "type"
  if kind = some "output_text" ∨ kind = some "input_text" ∨ kind = some "text" then
    firstNonemptyStr (part.str "text")
  else none

def parseOutputText (response : Value) : Option Text :=
  match firstNonemptyStr (response.str "output_text") with
  | some text => some text
  | none =>
      let chunks := (response.items "output").flatMap fun item =>
        (firstNonemptyStr (item.str "text")).toList ++ (item.items "content").filterMap partText
      if chunks = [] then none else some (Text.joinWith '\n' chunks)

def normalizeToolArguments (json : SerdeJson) (argsJson : Text) : Text :=
  match json.fromStr argsJson with
  | .ok (.object map) => json.toString (.object map)
  | .ok (.null) | .ok (.bool _) | .ok (.number _) | .ok (.string _) | .ok (.array _)
  | .error _ => "{}"

/-- The arguments of a call as text. -/
def toolArguments (json : SerdeJson) : Option Value → Text
  | some (.string raw) => normalizeToolArguments json raw
  | some (.object map) => json.toString (.object map)
  | some .null | some (.bool _) | some (.number _) | some (.array _) | none => "{}"

def parseToolCall (json : SerdeJson) (item : Value) : Option ToolCall :=
  let kind := item.str "type"
  if kind ≠ some "function_call" ∧ kind ≠ some "tool_call" then none
  else
    let function := item.get "function"
    let nameValue := (item.get "name").or (function.bind (Value.get "name"))
    let name := (nameValue.bind Value.asStr).getD []
    if name = [] then none
    else
      let args := ((item.get "arguments").or (function.bind (Value.get "arguments"))).or
        (item.get "args")
      some { id := ((item.get "call_id").or (item.get "id")).bind Value.asStr
             name := name
             argsJson := toolArguments json args }

/-- The calls of a value and of what it contains. -/
def collectToolCalls (json : SerdeJson) (node : Value) : List ToolCall :=
  (parseToolCall json node).toList ++
    (node.items "output").attach.flatMap (fun item => collectToolCalls json item.1) ++
    (node.items "content").attach.flatMap (fun item => collectToolCalls json item.1) ++
    (node.items "tool_calls").attach.flatMap (fun item => collectToolCalls json item.1)
termination_by sizeOf node
decreasing_by all_goals exact Value.sizeOf_lt_of_mem_items item.2

def parseProviderResponse (json : SerdeJson) (response : Value) : ProviderResponse where
  outputText := parseOutputText response
  toolCalls := collectToolCalls json response

/-! ## The events of a stream -/

def extractStreamErrorMessage (event : Value) : Option Text :=
  if event.str "type" = some "error" then
    firstNonemptyStr (((event.str "message").or (event.str "code")).or
      ((event.get "error").bind fun error => error.str "message"))
  else if event.str "type" = some "response.failed" then
    firstNonemptyStr ((event.get "response").bind fun response =>
      (response.get "error").bind fun error => error.str "message")
  else none

structure CodexState extends ToolCallTable where
  sawTextDelta : Bool
  emittedFallbackText : Bool

def CodexState.default : CodexState where
  toToolCallTable := .empty
  sawTextDelta := false
  emittedFallbackText := false

def CodexState.recordToolCall (s : CodexState) (toolCall : ToolCall) : CodexState :=
  { s with toToolCallTable := s.toToolCallTable.recordToolCall toolCall }

/-- What the processing of events sends and fails with. -/
abbrev Processing (α : Type) := Sends StreamEvent FrameworkError α

/-- A piece of the text. -/
def outputTextDelta (s : CodexState) (event : Value) : Processing CodexState :=
  match event.str "delta" with
  | some delta =>
      if event.str "type" = some "response.output_text.delta" ∧ delta ≠ [] then do
        tell [.textDelta delta]
        pure { s with sawTextDelta := true }
      else pure s
  | none => pure s

/-- The whole text, where no part of it came before. -/
def fallbackText (s : CodexState) (text : Option Text) : Processing CodexState :=
  match text with
  | some text =>
      if s.sawTextDelta = false ∧ s.emittedFallbackText = false then do
        tell [.textDelta text]
        pure { s with emittedFallbackText := true }
      else pure s
  | none => pure s

def outputTextDone (s : CodexState) (event : Value) : Processing CodexState :=
  if event.str "type" = some "response.output_text.done" then
    fallbackText s (firstNonemptyStr (event.str "text"))
  else pure s

/-- A tool call. -/
def outputItem (json : SerdeJson) (s : CodexState) (event : Value) : CodexState :=
  let kind := event.str "type"
  if kind = some "response.output_item.done" ∨ kind = some "response.output_item.added" then
    match (event.get "item").bind (parseToolCall json) with
    | some toolCall => s.recordToolCall toolCall
    | none => s
  else s

/-- The response as a whole. -/
def responseCompleted (json : SerdeJson) (s : CodexState) (event : Value) :
    Processing CodexState :=
  let kind := event.str "type"
  if kind = some "response.completed" ∨ kind = some "response.done" then
    match event.get "response" with
    | some responsePayload => do
        let parsed := parseProviderResponse json responsePayload
        let s ← fallbackText s parsed.outputText
        pure (parsed.toolCalls.foldl CodexState.recordToolCall s)
    | none => pure s
  else pure s

def processEvent (json : SerdeJson) (s : CodexState) (event : Value) : Processing CodexState :=
  match extractStreamErrorMessage event with
  | some message => Sends.fail (.provider (("openai_codex stream error: " : Text) ++ message))
  | none => do
      let s ← outputTextDelta s event
      let s ← outputTextDone s event
      responseCompleted json (outputItem json s event) event

/-- The values of a payload: it is one, or its lines are, as far as they can be read. -/
def eventValues (json : SerdeJson) (payload : Text) : List Value :=
  match json.fromStr (Text.trim payload) with
  | .ok value => [value]
  | .error _ =>
      (Text.lines payload).filterMap fun line =>
        let line := Text.trim line
        if line = [] ∨ line = "[DONE]" then none else (json.fromStr line).toOption

def handlePayload (json : SerdeJson) (s : CodexState) (payload : Text) : Processing CodexState :=
  let trimmed := Text.trim payload
  if trimmed = [] ∨ trimmed = "[DONE]" then pure s
  else (eventValues json payload).foldlM (processEvent json) s

/-! ### What fails -/

/-- A value of the payload is an error. -/
def payloadFails (json : SerdeJson) (payload : Text) : Bool :=
  let trimmed := Text.trim payload
  if trimmed = [] ∨ trimmed = "[DONE]" then false
  else (eventValues json payload).any fun event => (extractStreamErrorMessage event).isSome

theorem not_fails_outputTextDelta (s : CodexState) (event : Value) :
    ¬ (outputTextDelta s event).Fails := by
  rw [outputTextDelta]
  split
  · split
    · exact Sends.not_fails_bind (Sends.not_fails_tell _) fun _ => Sends.not_fails_pure _
    · exact Sends.not_fails_pure s
  · exact Sends.not_fails_pure s

theorem not_fails_fallbackText (s : CodexState) (text : Option Text) :
    ¬ (fallbackText s text).Fails := by
  cases text with
  | none => exact Sends.not_fails_pure s
  | some text =>
      rw [fallbackText]
      split
      · exact Sends.not_fails_bind (Sends.not_fails_tell _) fun _ => Sends.not_fails_pure _
      · exact Sends.not_fails_pure s

theorem not_fails_outputTextDone (s : CodexState) (event : Value) :
    ¬ (outputTextDone s event).Fails := by
  rw [outputTextDone]
  split
  · exact not_fails_fallbackText s _
  · exact Sends.not_fails_pure s

theorem not_fails_responseCompleted (json : SerdeJson) (s : CodexState) (event : Value) :
    ¬ (responseCompleted json s event).Fails := by
  rw [responseCompleted]
  split
  · split
    · exact Sends.not_fails_bind (not_fails_fallbackText s _) fun _ => Sends.not_fails_pure _
    · exact Sends.not_fails_pure s
  · exact Sends.not_fails_pure s

/-- Only an error makes the processing of a value fail. -/
theorem processEvent_fails_iff (json : SerdeJson) (s : CodexState) (event : Value) :
    (processEvent json s event).Fails ↔ (extractStreamErrorMessage event).isSome = true := by
  rw [processEvent]
  cases extractStreamErrorMessage event with
  | some message => simp
  | none =>
      simp only [Option.isSome_none, Bool.false_eq_true, iff_false]
      refine Sends.not_fails_bind (not_fails_outputTextDelta s event) fun s => ?_
      refine Sends.not_fails_bind (not_fails_outputTextDone s event) fun s => ?_
      exact not_fails_responseCompleted json _ event

/-- **What a payload fails with does not depend on what came before.** -/
theorem handlePayload_fails_iff (json : SerdeJson) (s : CodexState) (payload : Text) :
    (handlePayload json s payload).Fails ↔ payloadFails json payload = true := by
  rw [handlePayload, payloadFails]
  by_cases hnone : Text.trim payload = [] ∨ Text.trim payload = "[DONE]"
  · rw [if_pos hnone, if_pos hnone]
    simp [Sends.not_fails_pure]
  · rw [if_neg hnone, if_neg hnone, Sends.foldlM_fails_iff (processEvent_fails_iff json),
      List.any_eq_true]

/-! ## The accumulator -/

abbrev CodexStreamAccumulator := EventReader CodexState

namespace CodexStreamAccumulator

def default : CodexStreamAccumulator := ⟨.empty, [], CodexState.default⟩

def invalidBytes (err : Utf8.Error) : FrameworkError :=
  .provider (("invalid codex stream bytes: " : Text) ++ err.display)

def pushBytes (json : SerdeJson) (acc : CodexStreamAccumulator) (bytes : List UInt8) :
    Processing CodexStreamAccumulator :=
  EventReader.pushBytes (handlePayload json) invalidBytes acc bytes

def finish (json : SerdeJson) (acc : CodexStreamAccumulator) : Processing Unit :=
  EventReader.finish (handlePayload json) (fun s => s.lastEvents) acc

/-- No payload fails with what is said of bytes. -/
theorem handlePayload_avoids (json : SerdeJson) (s : CodexState) (payload : Text) :
    (handlePayload json s payload).Avoids fun e => ∃ err, e = invalidBytes err := by
  rw [handlePayload]
  split
  · exact Sends.avoids_pure s
  · refine Sends.Avoids.foldlM (fun s event => ?_) _ _
    cases hmessage : extractStreamErrorMessage event with
    | none =>
        refine Sends.avoids_of_not_fails fun h => ?_
        have hsome := (processEvent_fails_iff json s event).mp h
        rw [hmessage] at hsome
        cases hsome
    | some message =>
        rw [processEvent, hmessage]
        refine Sends.avoids_fail ?_
        rintro ⟨err, h⟩
        -- the two messages begin with different letters
        have hhead : some 'o' = some 'i' := congrArg List.head? (FrameworkError.provider.inj h)
        exact absurd hhead (by decide)

/-- The chunks of a stream one after the other, and its end. -/
def decode (json : SerdeJson) (chunks : List (List UInt8)) : Processing Unit := do
  let acc ← chunks.foldlM (pushBytes json) default
  finish json acc

end CodexStreamAccumulator

end OpenaiCodex
end Providers
end SimpleClaw
