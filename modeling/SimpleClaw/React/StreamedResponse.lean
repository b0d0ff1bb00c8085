import SimpleClaw.Lib.Gaps
import SimpleClaw.Providers.Gemini
import SimpleClaw.Providers.OpenaiCodex
import SimpleClaw.Providers.ToolCallTable
import SimpleClaw.React.Loop

/-!
# Streamed and whole responses

A response arrives as a whole or as a stream of events, and comes to a text and calls either way.
Streamed, the text is the pieces one after the other, and the calls are kept in a table; as a
whole, the text is made of the texts of the parts, and the calls are listed.

* `OpenaiCodex.OutputItem`, `Gemini.Part`: responses, with how they are sent as a whole and as
  events.
* `React.streamedResponse`: what a stream comes to, with `streamedResponse_stream` for each of the
  providers.
* `streamed_eq_plain_iff`: when that is what the whole response comes to.
-/

namespace SimpleClaw
namespace React

open Providers

/-- The response that the events of a stream are collected to; a stream that fails ends with an
error. -/
def streamedResponse (stream : Sends StreamEvent FrameworkError Unit) :
    Except FrameworkError ProviderResponse :=
  match stream.run with
  | .ok (_, events) => collectStream [] [] events
  | .error err => .error (.provider err.display)

/-- A text that is not empty. -/
def textOf (t : Text) : Option Text := if t = [] then none else some t

/-- Pieces of text and then calls are collected. -/
theorem collectStream_textDeltas (text : Text) (calls : List ToolCall) (pieces : List Text)
    (events : List StreamEvent) :
    collectStream text calls (pieces.map .textDelta ++ events) =
      collectStream (text ++ pieces.flatten) calls events := by
  induction pieces generalizing text with
  | nil => simp
  | cons piece pieces ih =>
      rw [List.map_cons, List.cons_append, collectStream, ih, List.flatten_cons, List.append_assoc]

theorem collectStream_lastEvents (text : Text) (calls : List ToolCall) (table : ToolCallTable) :
    collectStream text calls table.lastEvents =
      .ok ⟨textOf text, calls ++ table.toolCalls⟩ := by
  rw [ToolCallTable.lastEvents]
  induction table.toolCalls generalizing calls with
  | nil => rw [List.append_nil]; rfl
  | cons call rest ih =>
      rw [List.map_cons, List.cons_append, collectStream, ih, List.append_assoc]
      rfl

end React

namespace Providers

/-! ## Codex -/

namespace OpenaiCodex

/-- An item of a response: a message of parts, each with the pieces of its text, or a call. -/
inductive OutputItem where
  | message (parts : List (List Text))
  | functionCall (callId : Option Text) (name arguments : Text)

namespace OutputItem

/-- The entry of the id, if the call has one. -/
def callIdEntry : Option Text → List (Text × Value)
  | some callId => [("call_id", .string callId)]
  | none => []

def partValue (pieces : List Text) : Value :=
  .object [("type", .string "output_text"), ("text", .string pieces.flatten)]

def value : OutputItem → Value
  | .message parts =>
      .object [("type", .string "message"), ("role", .string "assistant"),
        ("content", .array (parts.map partValue))]
  | .functionCall callId name arguments =>
      .object (("type", .string "function_call") :: ("name", .string name) ::
        ("arguments", .string arguments) :: callIdEntry callId)

/-- The events an item is streamed as. -/
def events : OutputItem → List Value
  | .message parts => parts.flatten.map fun piece =>
      .object [("type", .string "response.output_text.delta"), ("delta", .string piece)]
  | .functionCall callId name arguments =>
      [.object [("type", .string "response.output_item.done"),
        ("item", value (.functionCall callId name arguments))]]

/-- The texts of the parts. -/
def texts : OutputItem → List Text
  | .message parts => parts.map List.flatten
  | .functionCall _ _ _ => []

/-- The call that is made of an item. -/
def call (json : SerdeJson) : OutputItem → Option ToolCall
  | .message _ => none
  | .functionCall callId name arguments =>
      if name = [] then none else some ⟨callId, name, normalizeToolArguments json arguments⟩

end OutputItem

/-- The whole response. -/
def responseValue (output : List OutputItem) : Value :=
  .object [("output", .array (output.map OutputItem.value))]

/-- The events of a response: those of its items, and then the whole response. -/
def streamValues (output : List OutputItem) : List Value :=
  output.flatMap OutputItem.events ++
    [.object [("type", .string "response.completed"), ("response", responseValue output)]]

/-- The events one after the other, and the end of the stream. -/
def stream (json : SerdeJson) (output : List OutputItem) : Processing Unit := do
  let s ← (streamValues output).foldlM (processEvent json) CodexState.default
  tell s.lastEvents

/-! ### The whole response -/

theorem parseToolCall_value (json : SerdeJson) (item : OutputItem) :
    parseToolCall json item.value = item.call json := by
  cases item with
  | message parts => rfl
  | functionCall callId name arguments => cases callId <;> rfl

/-- What a value contains is gone through in order. -/
theorem collectToolCalls_eq (json : SerdeJson) (node : Value) :
    collectToolCalls json node = (parseToolCall json node).toList ++
      (node.items "output").flatMap (collectToolCalls json) ++
      (node.items "content").flatMap (collectToolCalls json) ++
      (node.items "tool_calls").flatMap (collectToolCalls json) := by
  rw [collectToolCalls]
  simp only [List.flatMap_subtype, List.unattach_attach]

theorem collectToolCalls_partValue (json : SerdeJson) (pieces : List Text) :
    collectToolCalls json (OutputItem.partValue pieces) = [] := by
  rw [collectToolCalls_eq]
  rfl

theorem collectToolCalls_value (json : SerdeJson) (item : OutputItem) :
    collectToolCalls json item.value = (item.call json).toList := by
  rw [collectToolCalls_eq, parseToolCall_value]
  cases item with
  | message parts =>
      show [] ++ [] ++ (parts.map OutputItem.partValue).flatMap (collectToolCalls json) ++ [] = []
      rw [List.flatMap_map, List.append_nil, List.nil_append, List.nil_append,
        List.flatMap_eq_nil_iff]
      exact fun pieces _ => collectToolCalls_partValue json pieces
  | functionCall callId name arguments =>
      have hnone : ∀ calls : List ToolCall, calls ++ [] ++ [] ++ [] = calls := by simp
      cases callId <;> exact hnone _

theorem collectToolCalls_responseValue (json : SerdeJson) (output : List OutputItem) :
    collectToolCalls json (responseValue output) = output.filterMap (OutputItem.call json) := by
  rw [collectToolCalls_eq]
  show [] ++ (output.map OutputItem.value).flatMap (collectToolCalls json) ++ [] ++ [] = _
  rw [List.flatMap_map, List.append_nil, List.append_nil, List.nil_append,
    List.filterMap_eq_flatMap_toList]
  exact List.flatMap_congr fun item _ => collectToolCalls_value json item

/-- The texts of the parts that are not blank, trimmed. -/
def shownTexts (output : List OutputItem) : List Text :=
  ((output.flatMap OutputItem.texts).map Text.trim).filter (· ≠ [])

theorem partTexts (parts : List (List Text)) :
    (parts.map OutputItem.partValue).filterMap partText =
      ((parts.map List.flatten).map Text.trim).filter (· ≠ []) := by
  induction parts with
  | nil => rfl
  | cons pieces parts ih =>
      have hpart : partText (OutputItem.partValue pieces) =
          (some (Text.trim pieces.flatten)).filter (· ≠ []) := rfl
      rw [List.map_cons, List.filterMap_cons, hpart, ih]
      by_cases h : Text.trim pieces.flatten = [] <;> simp [h, Option.filter]

theorem parseOutputText_responseValue (output : List OutputItem) :
    parseOutputText (responseValue output) =
      if shownTexts output = [] then none else some (Text.joinWith '\n' (shownTexts output)) := by
  have hchunks : (output.map OutputItem.value).flatMap (fun item =>
      (firstNonemptyStr (item.str "text")).toList ++ (item.items "content").filterMap partText) =
        shownTexts output := by
    rw [List.flatMap_map, shownTexts, List.map_flatMap, List.filter_flatMap]
    refine List.flatMap_congr fun item _ => ?_
    cases item with
    | message parts => exact partTexts parts
    | functionCall callId name arguments => cases callId <;> rfl
  rw [← hchunks]
  rfl

/-! ### The stream -/

/-- The pieces of text that are sent of an item. -/
def OutputItem.pieces : OutputItem → List Text
  | .message parts => parts.flatten.filter (· ≠ [])
  | .functionCall _ _ _ => []

/-- The state after pieces of text and calls. -/
def CodexState.received (s : CodexState) (pieces : List Text) (calls : List ToolCall) :
    CodexState where
  toToolCallTable := s.toToolCallTable.recordAll calls
  sawTextDelta := pieces ≠ [] || s.sawTextDelta
  emittedFallbackText := s.emittedFallbackText

theorem CodexState.received_received (s : CodexState) (pieces pieces' : List Text)
    (calls calls' : List ToolCall) :
    (s.received pieces calls).received pieces' calls' =
      s.received (pieces ++ pieces') (calls ++ calls') := by
  simp only [received, ToolCallTable.recordAll, List.foldl_append]
  cases pieces <;> cases pieces' <;> simp

theorem CodexState.foldl_recordToolCall (s : CodexState) (calls : List ToolCall) :
    calls.foldl CodexState.recordToolCall s = s.received [] calls := by
  induction calls generalizing s with
  | nil => rfl
  | cons call calls ih => exact ih (s.recordToolCall call)

/-- What is received in turn is received together. -/
theorem CodexState.foldl_received {ι : Type} (pieces : ι → List Text) (calls : ι → List ToolCall)
    (is : List ι) (s : CodexState) :
    is.foldl (fun s i => s.received (pieces i) (calls i)) s =
      s.received (is.flatMap pieces) (is.flatMap calls) := by
  induction is generalizing s with
  | nil => rfl
  | cons i is ih =>
      rw [List.foldl_cons, ih, CodexState.received_received, List.flatMap_cons, List.flatMap_cons]

theorem run_processEvent_piece (json : SerdeJson) (s : CodexState) (piece : Text) :
    (processEvent json s (.object [("type", .string "response.output_text.delta"),
        ("delta", .string piece)])).run =
      .ok (s.received ([piece].filter (· ≠ [])) [], ([piece].filter (· ≠ [])).map .textDelta) := by
  cases piece <;> rfl

theorem run_processEvent_call (json : SerdeJson) (s : CodexState) (callId : Option Text)
    (name arguments : Text) :
    (processEvent json s (.object [("type", .string "response.output_item.done"),
        ("item", OutputItem.value (.functionCall callId name arguments))])).run =
      .ok (s.received [] ((OutputItem.functionCall callId name arguments).call json).toList,
        []) := by
  let event : Value := .object [("type", .string "response.output_item.done"),
    ("item", OutputItem.value (.functionCall callId name arguments))]
  have hprocess : processEvent json s event = pure (outputItem json s event) := rfl
  have hcall : (event.get "item").bind (parseToolCall json) =
      (OutputItem.functionCall callId name arguments).call json :=
    parseToolCall_value json (.functionCall callId name arguments)
  rw [hprocess, outputItem, if_pos (.inl rfl), hcall]
  cases (OutputItem.functionCall callId name arguments).call json <;> rfl

/-- The events of an item send its pieces, and keep its call. -/
theorem run_events (json : SerdeJson) (s : CodexState) (item : OutputItem) :
    (item.events.foldlM (processEvent json) s).run =
      .ok (s.received item.pieces (item.call json).toList, item.pieces.map .textDelta) := by
  cases item with
  | message parts =>
      rw [OutputItem.events, List.foldlM_map,
        Sends.run_foldlM fun s piece => run_processEvent_piece json s piece,
        CodexState.foldl_received, List.flatMap_eq_nil_iff.mpr fun _ _ => rfl,
        ← List.map_flatMap, ← List.filter_flatMap, List.flatMap_singleton']
      rfl
  | functionCall callId name arguments =>
      rw [OutputItem.events, List.foldlM_cons]
      exact Sends.run_bind_eq_ok_iff.mpr
        ⟨_, _, _, run_processEvent_call json s callId name arguments, rfl, rfl⟩

/-- The events of the items send their pieces, and keep their calls. -/
theorem run_items (json : SerdeJson) (s : CodexState) (output : List OutputItem) :
    ((output.flatMap OutputItem.events).foldlM (processEvent json) s).run =
      .ok (s.received (output.flatMap OutputItem.pieces) (output.filterMap (OutputItem.call json)),
        (output.flatMap OutputItem.pieces).map .textDelta) := by
  rw [Sends.run_foldlM_flatMap (run_events json), CodexState.foldl_received,
    ← List.filterMap_eq_flatMap_toList, ← List.map_flatMap]

/-- The whole response at the end sends no text where there is none or pieces were seen, and its
calls are kept once more. -/
theorem run_processEvent_completed (json : SerdeJson) (s : CodexState) (output : List OutputItem)
    (hs : s.sawTextDelta = false → parseOutputText (responseValue output) = none) :
    (processEvent json s (.object [("type", .string "response.completed"),
        ("response", responseValue output)])).run =
      .ok (s.received [] (output.filterMap (OutputItem.call json)), []) := by
  have hprocess : processEvent json s (.object [("type", .string "response.completed"),
      ("response", responseValue output)]) = (do
        let s ← pure s
        let s ← pure s
        let s ← fallbackText s (parseOutputText (responseValue output))
        pure ((collectToolCalls json (responseValue output)).foldl CodexState.recordToolCall s)) :=
    rfl
  have hnothing : fallbackText s (parseOutputText (responseValue output)) = pure s := by
    cases hsaw : s.sawTextDelta with
    | false => rw [hs hsaw, fallbackText]
    | true =>
        cases parseOutputText (responseValue output) with
        | none => rfl
        | some text => rw [fallbackText, hsaw, if_neg (by simp)]
  rw [hprocess, pure_bind, pure_bind, hnothing, pure_bind, collectToolCalls_responseValue,
    CodexState.foldl_recordToolCall]
  rfl

theorem flatten_pieces (output : List OutputItem) :
    (output.flatMap OutputItem.pieces).flatten = (output.flatMap OutputItem.texts).flatten := by
  induction output with
  | nil => rfl
  | cons item output ih =>
      rw [List.flatMap_cons, List.flatMap_cons, List.flatten_append, List.flatten_append, ih]
      congr 1
      cases item with
      | message parts =>
          rw [OutputItem.pieces, OutputItem.texts, ← List.flatten_flatten]
          exact List.flatten_filter_ne_nil
      | functionCall callId name arguments => rfl

/-- Where no piece is sent, no text shows. -/
theorem shownTexts_eq_nil {output : List OutputItem}
    (h : (output.flatMap OutputItem.texts).flatten = []) : shownTexts output = [] := by
  rw [shownTexts, List.filter_eq_nil_iff]
  intro shown hshown
  obtain ⟨text, htext, rfl⟩ := List.mem_map.mp hshown
  rw [List.flatten_eq_nil_iff.mp h text htext]
  decide

/-- What a stream sends: all pieces, and the calls that are kept of those recorded twice. -/
theorem run_stream (json : SerdeJson) (output : List OutputItem) :
    (stream json output).run =
      .ok ((), (output.flatMap OutputItem.pieces).map .textDelta ++
        ((ToolCallTable.empty.recordAll (output.filterMap (OutputItem.call json))).recordAll
          (output.filterMap (OutputItem.call json))).lastEvents) := by
  have hcompleted := run_processEvent_completed json
    (CodexState.default.received (output.flatMap OutputItem.pieces)
      (output.filterMap (OutputItem.call json))) output fun hsaw => by
    have hpieces : output.flatMap OutputItem.pieces = [] :=
      not_not.mp (of_decide_eq_false (Bool.or_eq_false_iff.mp hsaw).1)
    rw [parseOutputText_responseValue, if_pos (shownTexts_eq_nil _)]
    rw [← flatten_pieces, hpieces]
    rfl
  have hvalues : ((streamValues output).foldlM (processEvent json) CodexState.default).run =
      .ok ((CodexState.default.received (output.flatMap OutputItem.pieces)
          (output.filterMap (OutputItem.call json))).received []
            (output.filterMap (OutputItem.call json)),
        (output.flatMap OutputItem.pieces).map .textDelta) := by
    rw [streamValues, List.foldlM_append]
    exact Sends.run_bind_eq_ok_iff.mpr ⟨_, _, _, run_items json CodexState.default output,
      Sends.run_bind_eq_ok_iff.mpr ⟨_, _, _, hcompleted, rfl, rfl⟩, (List.append_nil _).symm⟩
  exact Sends.run_bind_eq_ok_iff.mpr ⟨_, _, _, hvalues, rfl, rfl⟩

/-- **What a stream comes to.** -/
theorem streamedResponse_stream (json : SerdeJson) (output : List OutputItem) :
    React.streamedResponse (stream json output) =
      .ok ⟨React.textOf (output.flatMap OutputItem.texts).flatten,
        ((ToolCallTable.empty.recordAll (output.filterMap (OutputItem.call json))).recordAll
          (output.filterMap (OutputItem.call json))).toolCalls⟩ := by
  rw [React.streamedResponse, run_stream]
  show React.collectStream [] [] _ = _
  rw [React.collectStream_textDeltas, React.collectStream_lastEvents, List.nil_append,
    List.nil_append, flatten_pieces]

/-- **Texts are kept as they are** exactly if the white space of them is what joining puts between
those that show. -/
theorem textOf_flatten_eq_iff (output : List OutputItem) :
    React.textOf (output.flatMap OutputItem.texts).flatten =
        (if shownTexts output = [] then none
          else some (Text.joinWith '\n' (shownTexts output))) ↔
      Text.JoinedByNewlines (output.flatMap OutputItem.texts) := by
  rw [← Text.flatten_eq_joinWith_iff, React.textOf]
  by_cases hshown : shownTexts output = []
  · have hjoined : shownTexts output = [] := hshown
    rw [shownTexts] at hjoined
    rw [if_pos hshown, hjoined, Text.joinWith_nil, ite_eq_left_iff]
    simp
  · have htext : (output.flatMap OutputItem.texts).flatten ≠ [] := mt shownTexts_eq_nil hshown
    rw [if_neg htext, if_neg hshown, Option.some.injEq, shownTexts]

end OpenaiCodex

/-! ## Gemini -/

namespace Gemini

/-- A part of a response: a text, with its pieces, or a call. -/
inductive Part where
  | text (pieces : List Text)
  | functionCall (id : Option Text) (name : Text) (args : Value)

namespace Part

/-- The entry of the id, if the call has one. -/
def idEntry : Option Text → List (Text × Value)
  | some id => [("id", .string id)]
  | none => []

def value : Part → Value
  | .text pieces => .object [("text", .string pieces.flatten)]
  | .functionCall id name args =>
      .object [("functionCall", .object (("name", .string name) :: ("args", args) :: idEntry id))]

/-- The text of a part. -/
def text? : Part → Option Text
  | .text pieces => some pieces.flatten
  | .functionCall _ _ _ => none

/-- The call that is made of a part. -/
def call (json : SerdeJson) : Part → Option ToolCall
  | .text _ => none
  | .functionCall id name args => if name = [] then none else some ⟨id, name, json.toString args⟩

end Part

/-- A response of one candidate. -/
def candidate (parts : List Value) : Value :=
  .object [("candidates", .array [.object [("content",
    .object [("parts", .array parts), ("role", .string "model")])]])]

/-- The whole response. -/
def responseValue (parts : List Part) : Value := candidate (parts.map Part.value)

/-- The responses that a part is streamed as. -/
def Part.events : Part → List Value
  | .text pieces => pieces.map fun piece => candidate [.object [("text", .string piece)]]
  | .functionCall id name args => [candidate [value (.functionCall id name args)]]

/-- The responses one after the other, and the end of the stream. -/
def stream (json : SerdeJson) (parts : List Part) : Processing Unit := do
  let table ← (parts.flatMap Part.events).foldlM (processValue json) .empty
  tell table.lastEvents

/-! ### The whole response -/

theorem parseToolCallPart_value (json : SerdeJson) (part : Part) :
    parseToolCallPart json part.value = part.call json := by
  cases part with
  | text pieces => rfl
  | functionCall id name args => cases id <;> rfl

theorem parseProviderResponse_responseValue (json : SerdeJson) (parts : List Part) :
    parseProviderResponse json (responseValue parts) =
      ⟨(parts.filterMap Part.text?).foldl addText none, parts.filterMap (Part.call json)⟩ := by
  have hparts : candidateParts (responseValue parts) = parts.map Part.value := rfl
  rw [parseProviderResponse, hparts, List.filterMap_map, List.filterMap_map,
    show parseToolCallPart json ∘ Part.value = Part.call json from
      funext (parseToolCallPart_value json),
    show (fun value : Value => value.str "text") ∘ Part.value = Part.text? from
      funext fun part => by cases part <;> rfl]

/-- After a text that is not empty, each one is put on a line of its own. -/
theorem foldl_addText_of_ne_nil {existing : Text} (h : existing ≠ []) (texts : List Text) :
    texts.foldl addText (some existing) = some (existing ++ texts.flatMap ('\n' :: ·)) := by
  induction texts generalizing existing with
  | nil => simp
  | cons text texts ih =>
      rw [List.foldl_cons, addText, if_pos h, ih (by simp), List.flatMap_cons, List.append_assoc]

/-- Empty texts at the beginning are passed over. -/
theorem foldl_addText_nil (texts : List Text) :
    texts.foldl addText (some []) =
      some (match texts.dropWhile (· = []) with
        | [] => []
        | first :: rest => first ++ rest.flatMap ('\n' :: ·)) := by
  induction texts with
  | nil => rfl
  | cons text texts ih =>
      rw [List.foldl_cons, addText, if_neg (by simp), List.nil_append]
      by_cases h : text = []
      · rw [List.dropWhile_cons_of_pos (by simpa using h), h, ih]
      · rw [List.dropWhile_cons_of_neg (by simpa using h), foldl_addText_of_ne_nil h]

theorem flatten_dropWhile (texts : List Text) :
    (texts.dropWhile (· = [])).flatten = texts.flatten := by
  induction texts with
  | nil => rfl
  | cons text texts ih =>
      by_cases h : text = []
      · rw [List.dropWhile_cons_of_pos (by simpa using h), ih, h, List.flatten_cons,
          List.nil_append]
      · rw [List.dropWhile_cons_of_neg (by simpa using h)]

/-- Lines of their own make a text longer. -/
theorem flatten_eq_flatMap_cons_iff (texts : List Text) :
    texts.flatten = texts.flatMap ('\n' :: ·) ↔ texts = [] := by
  constructor
  · intro h
    have hlen : ∀ texts : List Text,
        (texts.flatMap ('\n' :: ·)).length = texts.flatten.length + texts.length := by
      intro texts
      induction texts with
      | nil => rfl
      | cons text texts ih =>
          rw [List.flatMap_cons, List.flatten_cons, List.length_append, List.length_append, ih,
            List.length_cons, List.length_cons]
          omega
    have hsame := hlen texts
    rw [← h] at hsame
    exact List.eq_nil_of_length_eq_zero (by omega)
  · rintro rfl
    rfl

/-- **Texts are kept as they are** exactly if there are none, or just one after empty ones. -/
theorem textOf_flatten_eq_iff (texts : List Text) :
    React.textOf texts.flatten = texts.foldl addText none ↔
      texts = [] ∨ (texts.dropWhile (· = [])).length = 1 := by
  cases texts with
  | nil => simp [React.textOf]
  | cons text texts =>
      have hfold : (text :: texts).foldl addText none = (text :: texts).foldl addText (some []) :=
        rfl
      rw [hfold, foldl_addText_nil, ← flatten_dropWhile]
      have hhead := List.head?_dropWhile_not (· = []) (text :: texts)
      cases hdrop : (text :: texts).dropWhile (· = []) with
      | nil => simp [React.textOf]
      | cons first rest =>
          rw [hdrop] at hhead
          have hfirst : first ≠ [] := by simpa using hhead
          rw [List.flatten_cons, React.textOf, if_neg (by simp [hfirst]), Option.some.injEq,
            List.append_cancel_left_eq, flatten_eq_flatMap_cons_iff]
          simp

/-! ### The stream -/

/-- The pieces of text that are sent of a part. -/
def Part.pieces : Part → List Text
  | .text pieces => pieces.filter (· ≠ [])
  | .functionCall _ _ _ => []

theorem run_processValue_piece (json : SerdeJson) (table : ToolCallTable) (piece : Text) :
    (processValue json table (candidate [.object [("text", .string piece)]])).run =
      .ok (table, ([piece].filter (· ≠ [])).map .textDelta) := by
  cases piece <;> rfl

theorem run_processValue_call (json : SerdeJson) (table : ToolCallTable) (id : Option Text)
    (name : Text) (args : Value) :
    (processValue json table (candidate [Part.value (.functionCall id name args)])).run =
      .ok (table.recordAll ((Part.functionCall id name args).call json).toList, []) := by
  have hprocess : (processValue json table (candidate
      [Part.value (.functionCall id name args)])).run =
        .ok ((parseToolCallPart json (Part.value (.functionCall id name args))).elim table
          table.recordToolCall, []) := rfl
  rw [hprocess, parseToolCallPart_value]
  cases (Part.functionCall id name args).call json <;> rfl

/-- The responses of a part send its pieces, and keep its call. -/
theorem run_events (json : SerdeJson) (table : ToolCallTable) (part : Part) :
    (part.events.foldlM (processValue json) table).run =
      .ok (table.recordAll (part.call json).toList, part.pieces.map .textDelta) := by
  cases part with
  | text pieces =>
      rw [Part.events, List.foldlM_map,
        Sends.run_foldlM fun table piece => run_processValue_piece json table piece,
        ← List.map_flatMap, ← List.filter_flatMap, List.flatMap_singleton', List.foldl_fixed]
      rfl
  | functionCall id name args =>
      rw [Part.events, List.foldlM_cons]
      exact Sends.run_bind_eq_ok_iff.mpr
        ⟨_, _, _, run_processValue_call json table id name args, rfl, rfl⟩

/-- What a stream sends: all pieces, and the calls that are kept. -/
theorem run_stream (json : SerdeJson) (parts : List Part) :
    (stream json parts).run =
      .ok ((), (parts.flatMap Part.pieces).map .textDelta ++
        (ToolCallTable.empty.recordAll (parts.filterMap (Part.call json))).lastEvents) := by
  have hparts : ∀ (table : ToolCallTable) (parts : List Part),
      ((parts.flatMap Part.events).foldlM (processValue json) table).run =
        .ok (table.recordAll (parts.filterMap (Part.call json)),
          (parts.flatMap Part.pieces).map .textDelta) := by
    intro table parts
    rw [Sends.run_foldlM_flatMap (run_events json), List.filterMap_eq_flatMap_toList,
      ToolCallTable.recordAll, List.foldl_flatMap, ← List.map_flatMap]
    rfl
  exact Sends.run_bind_eq_ok_iff.mpr ⟨_, _, _, hparts .empty parts, rfl, rfl⟩

theorem flatten_pieces (parts : List Part) :
    (parts.flatMap Part.pieces).flatten = (parts.filterMap Part.text?).flatten := by
  induction parts with
  | nil => rfl
  | cons part parts ih =>
      rw [List.flatMap_cons, List.flatten_append, ih]
      cases part with
      | text pieces =>
          have hpieces : (pieces.filter (· ≠ [])).flatten = pieces.flatten :=
            List.flatten_filter_ne_nil
          rw [Part.pieces, hpieces]
          rfl
      | functionCall id name args => rfl

/-- **What a stream comes to.** -/
theorem streamedResponse_stream (json : SerdeJson) (parts : List Part) :
    React.streamedResponse (stream json parts) =
      .ok ⟨React.textOf (parts.filterMap Part.text?).flatten,
        (ToolCallTable.empty.recordAll (parts.filterMap (Part.call json))).toolCalls⟩ := by
  rw [React.streamedResponse, run_stream]
  show React.collectStream [] [] _ = _
  rw [React.collectStream_textDeltas, React.collectStream_lastEvents, List.nil_append,
    List.nil_append, flatten_pieces]

end Gemini

/-! ## Both providers -/

/-- **When a stream comes to what the whole response comes to.**  For Codex the white space of the
texts has to be what joining them by newlines puts between them, and every call has its own id;
for Gemini there is at most one text, after empty ones, and no id is there twice. -/
theorem streamed_eq_plain_iff (json : SerdeJson) :
    (∀ output : List OpenaiCodex.OutputItem,
      React.streamedResponse (OpenaiCodex.stream json output) =
          .ok (OpenaiCodex.parseProviderResponse json (OpenaiCodex.responseValue output)) ↔
        Text.JoinedByNewlines (output.flatMap OpenaiCodex.OutputItem.texts) ∧
          (∀ call ∈ output.filterMap (OpenaiCodex.OutputItem.call json), call.id ≠ none) ∧
          ((output.filterMap (OpenaiCodex.OutputItem.call json)).filterMap ToolCall.id).Nodup) ∧
    ∀ parts : List Gemini.Part,
      React.streamedResponse (Gemini.stream json parts) =
          .ok (Gemini.parseProviderResponse json (Gemini.responseValue parts)) ↔
        (parts.filterMap Gemini.Part.text? = [] ∨
          ((parts.filterMap Gemini.Part.text?).dropWhile (· = [])).length = 1) ∧
          ((parts.filterMap (Gemini.Part.call json)).filterMap ToolCall.id).Nodup := by
  refine ⟨fun output => ?_, fun parts => ?_⟩
  · rw [OpenaiCodex.streamedResponse_stream, OpenaiCodex.parseProviderResponse,
      OpenaiCodex.parseOutputText_responseValue, OpenaiCodex.collectToolCalls_responseValue,
      Except.ok.injEq, ProviderResponse.mk.injEq, ToolCallTable.recordAll_twice_eq_iff,
      OpenaiCodex.textOf_flatten_eq_iff]
  · rw [Gemini.streamedResponse_stream, Gemini.parseProviderResponse_responseValue,
      Except.ok.injEq, ProviderResponse.mk.injEq, ToolCallTable.recordAll_eq_iff,
      Gemini.textOf_flatten_eq_iff]

/-- **Streams that do not come to the whole response**: of Codex a text that ends with a newline,
and a call without an id; of Gemini a text in two parts. -/
theorem streamed_ne_plain :
    (¬ ∀ (json : SerdeJson) (output : List OpenaiCodex.OutputItem),
      React.streamedResponse (OpenaiCodex.stream json output) =
        .ok (OpenaiCodex.parseProviderResponse json (OpenaiCodex.responseValue output))) ∧
    (¬ ∀ (json : SerdeJson) (name arguments : Text),
      React.streamedResponse (OpenaiCodex.stream json [.functionCall none name arguments]) =
        .ok (OpenaiCodex.parseProviderResponse json
          (OpenaiCodex.responseValue [.functionCall none name arguments]))) ∧
    ¬ ∀ (json : SerdeJson) (parts : List Gemini.Part),
      React.streamedResponse (Gemini.stream json parts) =
        .ok (Gemini.parseProviderResponse json (Gemini.responseValue parts)) := by
  refine ⟨fun h => ?_, fun h => ?_, fun h => ?_⟩
  · have hsame := h React.emptyObjectJson [.message [["hi\n"]]]
    rw [OpenaiCodex.streamedResponse_stream, OpenaiCodex.parseProviderResponse,
      OpenaiCodex.collectToolCalls_responseValue] at hsame
    exact absurd (Except.ok.inj hsame) (by decide)
  · have hsame := h React.emptyObjectJson "clock" "{}"
    rw [OpenaiCodex.streamedResponse_stream, OpenaiCodex.parseProviderResponse,
      OpenaiCodex.collectToolCalls_responseValue] at hsame
    exact absurd (Except.ok.inj hsame) (by decide)
  · have hsame := h React.emptyObjectJson [.text ["a"], .text ["b"]]
    rw [Gemini.streamedResponse_stream, Gemini.parseProviderResponse_responseValue] at hsame
    exact absurd (Except.ok.inj hsame) (by decide)

end Providers
end SimpleClaw
