import Mathlib.Data.List.Forall2
import SimpleClaw.Providers.Messages
import SimpleClaw.Providers.OpenaiCodex

/-!
# Histories as they are sent

A history is sent as a list of items, in the order of its messages.  A call and its result are
matched by an id, which a call need not have: then one is made of its name.  For Codex the ids are
cut to the characters and to the length that are allowed.

* `OpenaiCodex.buildInput`, `MoonshotCompatible.buildMessages`: the items of a history.
* `OpenaiCodex.callId_eq_map_mask`: the id a call is sent with, told character by character.
* `wire_ids_iff`: results always have the ids of their calls, and when the calls of a message have
  different ones.
-/

namespace SimpleClaw
namespace Providers

/-! ## Two providers -/

namespace OpenaiCodex

/-! ### Codex -/

def maxIdentifierLen : Nat := 64

/-- A character that may be in an identifier; any other is replaced. -/
def mask (c : Char) : Char := if c.isAlphanum = true ∨ c = '_' ∨ c = '-' then c else '_'

def sanitizeIdentifier (raw fallback : Text) : Text :=
  let sanitized := (Text.trim raw).map mask
  let trimmed := Text.trimMatches (· == '_') sanitized
  if trimmed = [] then fallback else trimmed.take maxIdentifierLen

def normalizeToolResultOutput (json : SerdeJson) (value : Value) : Value :=
  match value with
  | .string text => .string text
  | .array items =>
      if items.all Value.isObject then .array items else .string (json.toString value)
  | .null | .bool _ | .number _ | .object _ => .string (json.toString value)

/-- The name a call is sent with. -/
def wireName (name : Text) : Text := sanitizeIdentifier name "tool"

/-- The id a call or a result is sent with, given the one it has. -/
def wireId (id : Option Text) (name : Text) : Text :=
  let fallbackCallId := "call_" ++ wireName name
  sanitizeIdentifier ((id.filter fun value => Text.trim value ≠ []).getD fallbackCallId)
    fallbackCallId

def callItem (json : SerdeJson) (call : ToolCall) : Value :=
  .object [("type", .string "function_call"), ("name", .string (wireName call.name)),
    ("call_id", .string (wireId call.id call.name)),
    ("arguments", .string (normalizeToolArguments json call.argsJson))]

def resultItem (json : SerdeJson) (result : ToolResult) : Value :=
  .object [("type", .string "function_call_output"),
    ("call_id", .string (wireId result.callId result.name)),
    ("output", normalizeToolResultOutput json result.response)]

/-- The role and the kind of the text of a message. -/
def wireRole : Role → Text × Text
  | .system => ("system", "input_text")
  | .user => ("user", "input_text")
  | .assistant => ("assistant", "output_text")
  | .tool => ("user", "input_text")

def messageItem (message : Message) : Value :=
  let (role, contentType) := wireRole message.role
  .object [("type", .string "message"), ("role", .string role),
    ("content", .array [.object [("type", .string contentType),
      ("text", .string message.content)]])]

/-- What a message adds. -/
def inputItems (json : SerdeJson) (message : Message) : List Value :=
  message.toolCalls.map (callItem json) ++
    if message.toolCalls ≠ [] ∧ Text.trim message.content = [] then []
    else
      message.toolResults.map (resultItem json) ++
        if Text.trim message.content = [] then [] else [messageItem message]

def buildInput (json : SerdeJson) (history : List Message) : List Value :=
  history.flatMap (inputItems json)

end OpenaiCodex

namespace MoonshotCompatible

/-! ### Moonshot -/

/-- The id a call or a result is sent with, given the one it has. -/
def wireId (id : Option Text) (name : Text) : Text := id.getD ("call_" ++ name)

def callValue (call : ToolCall) : Value :=
  .object [("id", .string (wireId call.id call.name)), ("type", .string "function"),
    ("function", .object [("name", .string call.name), ("arguments", .string call.argsJson)])]

def resultMessage (json : SerdeJson) (result : ToolResult) : Value :=
  .object [("role", .string "tool"), ("tool_call_id", .string (wireId result.callId result.name)),
    ("name", .string result.name), ("content", .string (json.toString result.response))]

def wireRole : Role → Text
  | .system => "system"
  | .user => "user"
  | .assistant => "assistant"
  | .tool => "user"

/-- What a message adds. -/
def wireMessages (json : SerdeJson) (message : Message) : List Value :=
  if message.toolCalls ≠ [] then
    [.object [("role", .string "assistant"),
      ("content", if Text.trim message.content = [] then .null else .string message.content),
      ("tool_calls", .array (message.toolCalls.map callValue))]]
  else if message.toolResults ≠ [] then message.toolResults.map (resultMessage json)
  else if Text.trim message.content = [] then []
  else
    [.object [("role", .string (wireRole message.role)), ("content", .string message.content)]]

def buildMessages (json : SerdeJson) (systemPrompt : Text) (history : List Message) : List Value :=
  (if Text.trim systemPrompt = [] then []
    else [.object [("role", .string "system"), ("content", .string systemPrompt)]]) ++
    history.flatMap (wireMessages json)

end MoonshotCompatible

/-! ## Calls and results that are sent -/

/-- The ids of the calls among the items of Codex. -/
def OpenaiCodex.callIds (items : List Value) : List Text :=
  items.filterMap fun (item : Value) =>
    if item.str "type" = some "function_call" then item.str "call_id" else none

/-- The ids that results are sent for among the items of Codex. -/
def OpenaiCodex.resultIds (items : List Value) : List Text :=
  items.filterMap fun (item : Value) =>
    if item.str "type" = some "function_call_output" then item.str "call_id" else none

/-- The ids of the calls among the messages of Moonshot. -/
def MoonshotCompatible.callIds (messages : List Value) : List Text :=
  messages.flatMap fun message => (message.items "tool_calls").filterMap fun call => call.str "id"

/-- The ids that results are sent for among the messages of Moonshot. -/
def MoonshotCompatible.resultIds (messages : List Value) : List Text :=
  messages.filterMap fun message => message.str "tool_call_id"

/-! ## Which ids are told apart -/

namespace OpenaiCodex

/-- A character that an identifier may begin and end with. -/
def isWord (c : Char) : Bool := c.isAlphanum || c == '-'

/-- The text from the first such character to the last. -/
def significant (t : Text) : Text := Text.trimMatches (fun c => !isWord c) t

/-- What is told of a name. -/
def shownName (name : Text) : Text :=
  if significant name = [] then "tool" else (significant name).take maxIdentifierLen

/-- What is told of the id of a call, or of its name where it has none. -/
def shownId (id : Option Text) (name : Text) : Text :=
  match id.filter fun value => Text.trim value ≠ [] with
  | some id =>
      if significant id = [] then "call_" ++ shownName name
      else (significant id).take maxIdentifierLen
  | none => (significant ("call_" ++ shownName name)).take maxIdentifierLen

/-- Two texts that differ at most in characters that are replaced anyway. -/
def Alike : Text → Text → Prop :=
  List.Forall₂ fun c d => c = d ∨ (isWord c = false ∧ isWord d = false)

instance decidableAlike : DecidableRel Alike := fun s t =>
  inferInstanceAs (Decidable (List.Forall₂ _ s t))

/-- No two calls are sent alike. -/
def CallsApart (calls : List ToolCall) : Prop :=
  calls.Pairwise fun c d => ¬ Alike (shownId c.id c.name) (shownId d.id d.name)

instance decidableCallsApart (calls : List ToolCall) : Decidable (CallsApart calls) :=
  inferInstanceAs (Decidable (calls.Pairwise _))

theorem mask_eq_iff (c : Char) : mask c = '_' ↔ isWord c = false := by
  rw [mask, isWord]
  by_cases hunder : c = '_'
  · subst hunder
    decide
  · simp only [hunder, false_or]
    split
    · rename_i h
      rcases h with h | h <;> simp [h, hunder]
    · rename_i h
      simpa [not_or] using h

/-- A character that may be at an end is kept. -/
theorem mask_of_isWord {c : Char} (h : isWord c = true) : mask c = c := by
  rw [isWord, Bool.or_eq_true, beq_iff_eq] at h
  rw [mask, if_pos (h.imp_right .inr)]

theorem mask_mask (c : Char) : mask (mask c) = mask c := by
  cases h : isWord c with
  | true => rw [mask_of_isWord h, mask_of_isWord h]
  | false =>
      rw [(mask_eq_iff c).mpr h]
      decide

theorem isWord_mask (c : Char) : isWord (mask c) = isWord c := by
  cases h : isWord c with
  | true => rw [mask_of_isWord h, h]
  | false =>
      rw [(mask_eq_iff c).mpr h]
      decide

/-- Characters are masked alike if they are the same or both replaced. -/
theorem mask_inj_iff (c d : Char) :
    mask c = mask d ↔ c = d ∨ (isWord c = false ∧ isWord d = false) := by
  cases hc : isWord c with
  | true =>
      rw [mask_of_isWord hc]
      cases hd : isWord d with
      | true => simp [mask_of_isWord hd]
      | false =>
          have hne : c ≠ '_' := fun h => by rw [h] at hc; exact absurd hc (by decide)
          have hne' : c ≠ d := fun h => by rw [h, hd] at hc; cases hc
          simp [(mask_eq_iff d).mpr hd, hne, hne']
  | false =>
      rw [(mask_eq_iff c).mpr hc, eq_comm, mask_eq_iff]
      refine ⟨fun h => .inr ⟨rfl, h⟩, ?_⟩
      rintro (rfl | ⟨-, h⟩)
      · exact hc
      · exact h

theorem map_mask_inj_iff (s t : Text) : s.map mask = t.map mask ↔ Alike s t := by
  rw [Alike, ← List.forall₂_eq_eq_eq, List.forall₂_map_left_iff, List.forall₂_map_right_iff]
  simp only [mask_inj_iff]

theorem isWord_eq_false_of_isWhiteSpace {c : Char} (h : Text.isWhiteSpace c = true) :
    isWord c = false := by
  rw [isWord, Bool.or_eq_false_iff, beq_eq_false_iff_ne]
  simp only [Text.isWhiteSpace, Bool.or_eq_true, Bool.and_eq_true, decide_eq_true_eq,
    beq_iff_eq] at h
  constructor
  · have hc : c.val.toNat = c.toNat := rfl
    have hupper : 'A'.val.toNat = 65 ∧ 'Z'.val.toNat = 90 := ⟨rfl, rfl⟩
    have hlower : 'a'.val.toNat = 97 ∧ 'z'.val.toNat = 122 := ⟨rfl, rfl⟩
    have hdigit : '0'.val.toNat = 48 ∧ '9'.val.toNat = 57 := ⟨rfl, rfl⟩
    have hranges : c.isAlphanum = (decide (c.val ≥ 'A'.val ∧ c.val ≤ 'Z'.val) ||
        (decide (c.val ≥ 'a'.val) && decide (c.val ≤ 'z'.val)) ||
        (decide (c.val ≥ '0'.val) && decide (c.val ≤ '9'.val))) := rfl
    simp only [hranges, Bool.or_eq_false_iff, Bool.and_eq_false_iff, decide_eq_false_iff_not,
      ge_iff_le, UInt32.le_iff_toNat_le]
    omega
  · rintro rfl
    exact absurd h (by decide)

theorem significant_map_mask (t : Text) : significant (t.map mask) = (significant t).map mask := by
  rw [significant, Text.trimMatches_map, significant]
  congr 2
  funext c
  simp [isWord_mask]

theorem significant_ne_nil {t : Text} {c : Char} (hc : c ∈ t) (hword : isWord c = true) :
    significant t ≠ [] := by
  intro hnil
  obtain ⟨before, after, ht, hbefore, hafter⟩ := Text.exists_trimMatches (fun c => !isWord c) t
  rw [show Text.trimMatches (fun c => !isWord c) t = [] from hnil] at ht
  rw [ht] at hc
  simp only [List.nil_append, List.mem_append] at hc
  rcases hc with hc | hc
  · simpa [hword] using hbefore c hc
  · simpa [hword] using hafter c hc

/-- **Sanitizing masks what is told of a text.** -/
theorem sanitizeIdentifier_eq (raw fallback : Text) :
    sanitizeIdentifier raw fallback =
      if significant raw = [] then fallback
      else ((significant raw).take maxIdentifierLen).map mask := by
  have hmask : (fun c => c == '_') ∘ mask = fun c => !isWord c := by
    funext c
    rw [Function.comp_apply, Bool.eq_iff_iff, beq_iff_eq, mask_eq_iff, Bool.not_eq_true']
  have htrimmed : Text.trimMatches (· == '_') ((Text.trim raw).map mask) =
      (significant raw).map mask := by
    rw [Text.trimMatches_map, hmask, ← Text.trimMatches_isWhiteSpace,
      Text.trimMatches_trimMatches, significant]
    intro c hc
    simp [isWord_eq_false_of_isWhiteSpace hc]
  rw [sanitizeIdentifier, htrimmed]
  simp only [List.map_eq_nil_iff, List.map_take]

theorem wireName_eq_map_mask (name : Text) : wireName name = (shownName name).map mask := by
  rw [wireName, sanitizeIdentifier_eq, shownName]
  split
  · decide
  · rfl

theorem call_append_map_mask (t : Text) :
    ("call_" : Text) ++ t.map mask = (("call_" : Text) ++ t).map mask := by
  rw [List.map_append]
  rfl

/-- **The id a call is sent with is the masked text of what is told of it.** -/
theorem wireId_eq_map_mask (id : Option Text) (name : Text) :
    wireId id name = (shownId id name).map mask := by
  rw [wireId, shownId]
  simp only [sanitizeIdentifier_eq, wireName_eq_map_mask, call_append_map_mask]
  cases id.filter fun value => Text.trim value ≠ [] with
  | some id =>
      simp only [Option.getD_some]
      split <;> rfl
  | none =>
      simp only [Option.getD_none, significant_map_mask]
      rw [if_neg, ← List.map_take, List.map_map]
      · exact List.map_congr_left fun c _ => mask_mask c
      · rw [List.map_eq_nil_iff]
        exact significant_ne_nil (c := 'c') (by simp) (by decide)

end OpenaiCodex

namespace MoonshotCompatible

/-- The ids of two calls differ, where the name stands in for an id. -/
def IdsDiffer (c d : ToolCall) : Prop :=
  match c.id, d.id with
  | some id, some id' => id ≠ id'
  | some id, none => id ≠ "call_" ++ d.name
  | none, some id' => "call_" ++ c.name ≠ id'
  | none, none => c.name ≠ d.name

instance decidableIdsDiffer : DecidableRel IdsDiffer
  | ⟨some id, _, _⟩, ⟨some id', _, _⟩ => inferInstanceAs (Decidable (id ≠ id'))
  | ⟨some id, _, _⟩, ⟨none, name', _⟩ => inferInstanceAs (Decidable (id ≠ "call_" ++ name'))
  | ⟨none, name, _⟩, ⟨some id', _, _⟩ => inferInstanceAs (Decidable ("call_" ++ name ≠ id'))
  | ⟨none, name, _⟩, ⟨none, name', _⟩ => inferInstanceAs (Decidable (name ≠ name'))

theorem wireId_ne_iff (c d : ToolCall) :
    wireId c.id c.name ≠ wireId d.id d.name ↔ IdsDiffer c d := by
  rw [wireId, wireId, IdsDiffer]
  cases c.id with
  | some id => cases d.id <;> rfl
  | none =>
      cases d.id with
      | some id' => rfl
      | none => simp only [Option.getD_none, ne_eq, List.append_cancel_left_eq]

end MoonshotCompatible

/-! ## Matched histories -/

/-- How a provider is sent a history: the items of all of it and what a message adds, with how the
ids are read from them. -/
structure Wire where
  build : List Message → List Value
  items : Message → List Value
  callIds : List Value → List Text
  resultIds : List Value → List Text

def OpenaiCodex.wire (json : SerdeJson) : Wire :=
  ⟨buildInput json, inputItems json, callIds, resultIds⟩

def MoonshotCompatible.wire (json : SerdeJson) (systemPrompt : Text) : Wire :=
  ⟨buildMessages json systemPrompt, wireMessages json, callIds, resultIds⟩

namespace Wire

/-- The calls of a message are sent with the ids that its results are sent for, one for each call
and no two the same. -/
structure Matched (wire : Wire) (message next : Message) : Prop where
  length_callIds : (wire.callIds (wire.items message)).length = message.toolCalls.length
  resultIds_eq : wire.resultIds (wire.items next) = wire.callIds (wire.items message)
  nodup_callIds : (wire.callIds (wire.items message)).Nodup

/-- Wherever a message with calls is, its items and those of its results are sent after what was
sent before, and they are matched. -/
def MatchesCalls (wire : Wire) (history : List Message) : Prop :=
  ∀ before message next rest, history = before ++ message :: next :: rest →
    message.toolCalls ≠ [] →
    wire.build history = wire.build before ++ (wire.items message ++ wire.items next) ++
        rest.flatMap wire.items ∧
      wire.Matched message next

/-- How the items of calls and of their results are built, given what tells calls apart. -/
structure Sends (wire : Wire) (wireId : Option Text → Text → Text) : Prop where
  build_append : ∀ before after,
    wire.build (before ++ after) = wire.build before ++ after.flatMap wire.items
  callIds_items : ∀ message, wire.callIds (wire.items message) =
    message.toolCalls.map fun call => wireId call.id call.name
  resultIds_items : ∀ message, message.toolCalls = [] → wire.resultIds (wire.items message) =
    message.toolResults.map fun result => wireId result.callId result.name

variable {wire : Wire} {wireId : Option Text → Text → Text}

/-- Results have the ids of their calls, whatever the ids are made of. -/
theorem Sends.resultIds_eq (h : wire.Sends wireId) {message next : Message}
    (hnext : next.toolCalls = []) (hresults : ResultsFor message.toolCalls next.toolResults) :
    wire.resultIds (wire.items next) = wire.callIds (wire.items message) := by
  have hids := congrArg (List.map fun p : Option Text × Text => wireId p.1 p.2) hresults
  rw [List.map_map, List.map_map] at hids
  rw [h.resultIds_items next hnext, h.callIds_items]
  exact hids

/-- **The calls of a history are matched when those of each message have different ids.** -/
theorem Sends.matchesCalls_iff (h : wire.Sends wireId) {history : List Message}
    (hwf : WellFormed history) :
    wire.MatchesCalls history ↔ ∀ message ∈ history,
      message.toolCalls.Pairwise fun c d => wireId c.id c.name ≠ wireId d.id d.name := by
  constructor
  · intro hmatch message hmem
    by_cases hcalls : message.toolCalls = []
    · rw [hcalls]
      exact List.Pairwise.nil
    · obtain ⟨before, after, hsplit⟩ := List.append_of_mem hmem
      obtain ⟨-, next, rest, rfl, -⟩ := hwf before message after hsplit hcalls
      have hnodup := (hmatch before message next rest hsplit hcalls).2.nodup_callIds
      rwa [h.callIds_items, List.Nodup, List.pairwise_map] at hnodup
  · intro hids before message next rest hsplit hcalls
    obtain ⟨-, next', rest', hrest, hrole, hresults⟩ := hwf before message _ hsplit hcalls
    obtain ⟨rfl, rfl⟩ := List.cons.inj hrest
    -- a message of the tools makes no calls itself
    have hnext : next.toolCalls = [] := by
      by_contra hne
      have := (hwf (before ++ [message]) next rest (by rw [hsplit]; simp) hne).1
      rw [hrole] at this
      cases this
    refine ⟨?_, ?_, h.resultIds_eq hnext hresults, ?_⟩
    · rw [hsplit, h.build_append]
      simp [List.append_assoc]
    · rw [h.callIds_items, List.length_map]
    · rw [h.callIds_items, List.Nodup, List.pairwise_map]
      exact hids message (by rw [hsplit]; simp)

end Wire

/-! ### What is sent -/

namespace OpenaiCodex

theorem callIds_callItem (json : SerdeJson) (calls : List ToolCall) :
    callIds (calls.map (callItem json)) = calls.map fun call => wireId call.id call.name := by
  rw [callIds, List.filterMap_map, ← List.filterMap_eq_map]
  rfl

theorem callIds_resultItem (json : SerdeJson) (results : List ToolResult) :
    callIds (results.map (resultItem json)) = [] := by
  rw [callIds, List.filterMap_map, List.filterMap_eq_nil_iff]
  exact fun _ _ => rfl

theorem resultIds_resultItem (json : SerdeJson) (results : List ToolResult) :
    resultIds (results.map (resultItem json)) =
      results.map fun result => wireId result.callId result.name := by
  rw [resultIds, List.filterMap_map, ← List.filterMap_eq_map]
  rfl

theorem callIds_append (items items' : List Value) :
    callIds (items ++ items') = callIds items ++ callIds items' := List.filterMap_append

theorem resultIds_append (items items' : List Value) :
    resultIds (items ++ items') = resultIds items ++ resultIds items' := List.filterMap_append

theorem callIds_messageItem (message : Message) : callIds [messageItem message] = [] := rfl

theorem resultIds_messageItem (message : Message) : resultIds [messageItem message] = [] := rfl

theorem sends (json : SerdeJson) : (wire json).Sends wireId where
  build_append before after := List.flatMap_append
  callIds_items message := by
    show callIds (inputItems json message) = _
    rw [inputItems, callIds_append, callIds_callItem]
    split
    · exact List.append_nil _
    · rw [callIds_append, callIds_resultItem]
      split
      · exact List.append_nil _
      · rw [callIds_messageItem]
        exact List.append_nil _
  resultIds_items message hcalls := by
    show resultIds (inputItems json message) = _
    rw [inputItems, hcalls, if_neg (by simp), List.map_nil, List.nil_append, resultIds_append,
      resultIds_resultItem]
    split
    · exact List.append_nil _
    · rw [resultIds_messageItem, List.append_nil]

end OpenaiCodex

namespace MoonshotCompatible

theorem callIds_wireMessages (json : SerdeJson) (message : Message) :
    callIds (wireMessages json message) =
      message.toolCalls.map fun call => wireId call.id call.name := by
  rw [wireMessages]
  split
  · rw [callIds, List.flatMap_singleton]
    show ((message.toolCalls.map callValue).filterMap fun call => call.str "id") = _
    rw [List.filterMap_map, ← List.filterMap_eq_map]
    rfl
  · rename_i hcalls
    rw [not_ne_iff.mp hcalls, List.map_nil]
    split
    · rw [callIds, List.flatMap_map, List.flatMap_eq_nil_iff]
      exact fun _ _ => rfl
    · split <;> rfl

theorem resultIds_wireMessages (json : SerdeJson) {message : Message}
    (hcalls : message.toolCalls = []) :
    resultIds (wireMessages json message) =
      message.toolResults.map fun result => wireId result.callId result.name := by
  rw [wireMessages, if_neg (not_not.mpr hcalls)]
  split
  · rw [resultIds, List.filterMap_map, ← List.filterMap_eq_map]
    rfl
  · rename_i hresults
    rw [not_ne_iff.mp hresults]
    split <;> rfl

theorem sends (json : SerdeJson) (systemPrompt : Text) :
    (wire json systemPrompt).Sends wireId where
  build_append before after := by
    show buildMessages json systemPrompt (before ++ after) =
      buildMessages json systemPrompt before ++ after.flatMap (wireMessages json)
    rw [buildMessages, buildMessages, List.flatMap_append, List.append_assoc]
  callIds_items message := callIds_wireMessages json message
  resultIds_items _ hcalls := resultIds_wireMessages json hcalls

end MoonshotCompatible

/-- **When the calls of a history are matched.**  Results always have the ids of their calls; for
Codex the calls of a message have different ids when no two are told alike, and for Moonshot when
their ids differ, with the names in the place of those that are missing. -/
theorem wire_ids_iff (json : SerdeJson) (systemPrompt : Text) {history : List Message}
    (hwf : WellFormed history) :
    ((OpenaiCodex.wire json).MatchesCalls history ↔
        ∀ message ∈ history, OpenaiCodex.CallsApart message.toolCalls) ∧
      ((MoonshotCompatible.wire json systemPrompt).MatchesCalls history ↔
        ∀ message ∈ history, message.toolCalls.Pairwise MoonshotCompatible.IdsDiffer) := by
  refine ⟨?_, ?_⟩
  · rw [(OpenaiCodex.sends json).matchesCalls_iff hwf]
    refine forall₂_congr fun message _ => List.Pairwise.iff fun c d => ?_
    rw [OpenaiCodex.wireId_eq_map_mask, OpenaiCodex.wireId_eq_map_mask, ne_eq,
      OpenaiCodex.map_mask_inj_iff]
  · rw [(MoonshotCompatible.sends json systemPrompt).matchesCalls_iff hwf]
    exact forall₂_congr fun message _ =>
      List.Pairwise.iff fun c d => MoonshotCompatible.wireId_ne_iff c d

/-! ### Calls of one tool -/

/-- Reads and writes an empty object. -/
def noArgumentsJson : SerdeJson where
  fromStr t := if t = ("{}" : Text) then .ok (.object []) else .error "expected value"
  toString _ := "{}"

/-- The time is asked for under some ids, and told. -/
def askedUnder (ids : List (Option Text)) : List Message :=
  [.assistantToolCalls (ids.map fun id => ⟨id, "clock", "{}"⟩),
    .ofToolResults (ids.map fun id => ⟨id, "clock", .object []⟩)]

theorem wellFormed_askedUnder (ids : List (Option Text)) : WellFormed (askedUnder ids) := by
  apply WellFormed.calls_results
  rw [ResultsFor, List.map_map, List.map_map]
  rfl

/-- An id with white space around it, a missing one and one of other words are told apart. -/
theorem wire_ids_askedUnder :
    (OpenaiCodex.wire noArgumentsJson).MatchesCalls
        (askedUnder [some " call id / 1 ".toList, none, some "call-2".toList]) ∧
      (MoonshotCompatible.wire noArgumentsJson []).MatchesCalls
        (askedUnder [some " call id / 1 ".toList, none, some "call-2".toList]) := by
  have hiff := wire_ids_iff noArgumentsJson []
    (wellFormed_askedUnder [some " call id / 1 ".toList, none, some "call-2".toList])
  exact ⟨hiff.1.mpr (by decide), hiff.2.mpr (by decide)⟩

/-- **Two calls without ids of one tool are sent with the same id.** -/
theorem not_matchesCalls_twice :
    WellFormed (askedUnder [none, none]) ∧
      ¬ (OpenaiCodex.wire noArgumentsJson).MatchesCalls (askedUnder [none, none]) ∧
      ¬ (MoonshotCompatible.wire noArgumentsJson []).MatchesCalls (askedUnder [none, none]) := by
  refine ⟨wellFormed_askedUnder _, fun h => ?_, fun h => ?_⟩
  · have hnodup := (h [] _ _ [] rfl (by simp [Message.assistantToolCalls])).2.nodup_callIds
    rw [(OpenaiCodex.sends noArgumentsJson).callIds_items] at hnodup
    exact absurd hnodup (by decide)
  · have hnodup := (h [] _ _ [] rfl (by simp [Message.assistantToolCalls])).2.nodup_callIds
    rw [(MoonshotCompatible.sends noArgumentsJson []).callIds_items] at hnodup
    exact absurd hnodup (by decide)

end Providers
end SimpleClaw
