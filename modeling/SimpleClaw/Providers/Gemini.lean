import SimpleClaw.Error
import SimpleClaw.Lib.EventStream
import SimpleClaw.Providers.Json
import SimpleClaw.Providers.Types

/-!
# The stream of the Gemini provider

The payload of an event is one JSON value with the parts of the first candidate; a payload that is
none ends the stream.  A part brings a piece of the text, a tool call, or both.

* `parseProviderResponse`: the text and the calls of a whole response.
* `GeminiStreamAccumulator.pushBytes`, `GeminiStreamAccumulator.finish`: the accumulator.
* `handlePayload_fails_iff`: the payloads that are no JSON fail.
-/

namespace SimpleClaw
namespace Providers
namespace Gemini

/-! ## Parts -/

/-- The parts of the first candidate. -/
def candidateParts (value : Value) : List Value :=
  (((value.items "candidates").head?.bind (Value.get "content")).map (Value.items · "parts")).getD
    []

def parseToolCallPart (json : SerdeJson) (part : Value) : Option ToolCall :=
  (part.get "functionCall").bind fun functionCall =>
    let name := (functionCall.str "name").getD []
    if name = [] then none
    else
      some { id := ((functionCall.get "id").or (functionCall.get "callId")).bind Value.asStr
             name := name
             argsJson := json.toString ((functionCall.get "args").getD (.object [])) }

/-! ## Whole responses -/

/-- The text with one more part of it. -/
def addText (outputText : Option Text) (text : Text) : Option Text :=
  match outputText with
  | some existing =>
      if existing ≠ [] then some (existing ++ '\n' :: text) else some (existing ++ text)
  | none => some text

def parseProviderResponse (json : SerdeJson) (responseValue : Value) : ProviderResponse where
  outputText := ((candidateParts responseValue).filterMap (·.str "text")).foldl addText none
  toolCalls := (candidateParts responseValue).filterMap (parseToolCallPart json)

/-! ## The events of a stream -/

/-- What the processing of events sends and fails with. -/
abbrev Processing (α : Type) := Sends StreamEvent FrameworkError α

/-- A piece of the text, if it is not empty. -/
def sendText (text : Option Text) : Processing PUnit :=
  match text with
  | some text => if text ≠ [] then tell [.textDelta text] else pure ⟨⟩
  | none => pure ⟨⟩

def processPart (json : SerdeJson) (table : ToolCallTable) (part : Value) :
    Processing ToolCallTable := do
  sendText (part.str "text")
  pure ((parseToolCallPart json part).elim table table.recordToolCall)

def invalidEvent (err : Text) : FrameworkError :=
  .provider (("invalid gemini stream event: " : Text) ++ err)

def handlePayload (json : SerdeJson) (table : ToolCallTable) (payload : Text) :
    Processing ToolCallTable :=
  if Text.trim payload = "[DONE]" then pure table
  else
    match json.fromStr payload with
    | .error err => Sends.fail (invalidEvent err)
    | .ok value => (candidateParts value).foldlM (processPart json) table

/-- What is made of the value of a payload. -/
def processValue (json : SerdeJson) (table : ToolCallTable) (value : Value) :
    Processing ToolCallTable :=
  (candidateParts value).foldlM (processPart json) table

theorem handlePayload_eq {json : SerdeJson} {payload : Text} {value : Value}
    (hdone : Text.trim payload ≠ "[DONE]") (hread : json.fromStr payload = .ok value)
    (table : ToolCallTable) : handlePayload json table payload = processValue json table value := by
  rw [handlePayload, if_neg hdone, hread]
  rfl

/-! ### What fails -/

/-- The payload is not the end and is no JSON. -/
def payloadFails (json : SerdeJson) (payload : Text) : Bool :=
  if Text.trim payload = "[DONE]" then false
  else
    match json.fromStr payload with
    | .error _ => true
    | .ok _ => false

theorem not_fails_processPart (json : SerdeJson) (table : ToolCallTable) (part : Value) :
    ¬ (processPart json table part).Fails := by
  refine Sends.not_fails_bind ?_ fun _ => Sends.not_fails_pure _
  cases part.str "text" with
  | none => exact Sends.not_fails_pure _
  | some text =>
      rw [sendText]
      split
      · exact Sends.not_fails_tell _
      · exact Sends.not_fails_pure _

/-- **The payloads that are no JSON fail**, whatever came before. -/
theorem handlePayload_fails_iff (json : SerdeJson) (table : ToolCallTable) (payload : Text) :
    (handlePayload json table payload).Fails ↔ payloadFails json payload = true := by
  rw [handlePayload, payloadFails]
  split
  · simp [Sends.not_fails_pure]
  · cases json.fromStr payload with
    | error err => simp
    | ok value =>
        have hparts : ((candidateParts value).foldlM (processPart json) table).Fails ↔
            ∃ part ∈ candidateParts value, False :=
          Sends.foldlM_fails_iff
            (fun table part => iff_false_intro (not_fails_processPart json table part)) _ _
        simp [hparts]

/-! ## The accumulator -/

abbrev GeminiStreamAccumulator := EventReader ToolCallTable

namespace GeminiStreamAccumulator

def default : GeminiStreamAccumulator := ⟨.empty, [], .empty⟩

def invalidBytes (err : Utf8.Error) : FrameworkError :=
  .provider (("invalid gemini stream bytes: " : Text) ++ err.display)

def pushBytes (json : SerdeJson) (acc : GeminiStreamAccumulator) (bytes : List UInt8) :
    Processing GeminiStreamAccumulator :=
  EventReader.pushBytes (handlePayload json) invalidBytes acc bytes

def finish (json : SerdeJson) (acc : GeminiStreamAccumulator) : Processing Unit :=
  EventReader.finish (handlePayload json) ToolCallTable.lastEvents acc

/-- No payload fails with what is said of bytes. -/
theorem handlePayload_avoids (json : SerdeJson) (table : ToolCallTable) (payload : Text) :
    (handlePayload json table payload).Avoids fun e => ∃ err, e = invalidBytes err := by
  rw [handlePayload]
  split
  · exact Sends.avoids_pure table
  · split
    · next err _ =>
      refine Sends.avoids_fail ?_
      rintro ⟨err', h⟩
      -- the two messages differ after "invalid gemini stream "
      have hdiffer : some 'e' = some 'b' :=
        congrArg (fun t : Text => t[22]?) (FrameworkError.provider.inj h)
      exact absurd hdiffer (by decide)
    · refine Sends.Avoids.foldlM (fun table part => ?_) _ _
      exact Sends.avoids_of_not_fails (not_fails_processPart json table part)

/-- The chunks of a stream one after the other, and its end. -/
def decode (json : SerdeJson) (chunks : List (List UInt8)) : Processing Unit := do
  let acc ← chunks.foldlM (pushBytes json) default
  finish json acc

end GeminiStreamAccumulator

end Gemini
end Providers
end SimpleClaw
