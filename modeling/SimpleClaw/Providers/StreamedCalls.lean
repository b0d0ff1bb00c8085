import Mathlib.Data.Set.List
import SimpleClaw.Providers.Gemini
import SimpleClaw.Providers.OpenaiCodex
import SimpleClaw.Providers.ToolCallTable

/-!
# The tool calls of a stream

An event brings tool calls in several ways: as an item that is added, the same item when it is
done, and once more within the whole response.  However they come, a stream ends with the calls of
all its events, each id once.

* `OpenaiCodex.receivedCalls`, `Gemini.receivedCalls`: the calls an event brings.
* `OpenaiCodex.processEvents`, `Gemini.processEvents`: the events of a stream, and its end.
* `streamedCalls_emitted`: a stream that does not fail sends pieces of text, and then what the table
  keeps of the calls received.
-/

namespace SimpleClaw
namespace Providers

open ToolCallTable (Emits emits_recordAll)

/-- Pieces of text come first, then the calls, then the end. -/
def SendsCalls (received : List ToolCall) (sent : List StreamEvent) : Prop :=
  ∃ (deltas : List Text) (calls : List ToolCall),
    sent = deltas.map .textDelta ++ calls.map .toolCallComplete ++ [.done] ∧ Emits received calls

def IsTextDelta (event : StreamEvent) : Prop := ∃ delta, StreamEvent.textDelta delta = event

theorem exists_map_textDelta {sent : List StreamEvent} (h : ∀ event ∈ sent, IsTextDelta event) :
    ∃ deltas : List Text, deltas.map .textDelta = sent := by
  have hrange : sent ∈ Set.range (List.map StreamEvent.textDelta) := by
    rw [Set.range_list_map]
    exact h
  exact hrange

/-- Events that record calls and send pieces of text, and then the end of the stream. -/
theorem sendsCalls_of_ensures {σ : Type} {x : Sends StreamEvent FrameworkError σ}
    (view : σ → ToolCallTable) {received : List ToolCall} {sent : List StreamEvent}
    (hx : x.Ensures (fun s => view s = ToolCallTable.empty.recordAll received) IsTextDelta)
    (hsent : (x >>= fun s => tell (view s).lastEvents).run = .ok ((), sent)) :
    SendsCalls received sent := by
  obtain ⟨s, out, last, hrun, hlast, rfl⟩ := Sends.run_bind_eq_ok_iff.mp hsent
  obtain ⟨hview, hout⟩ := hx s out hrun
  obtain ⟨deltas, rfl⟩ := exists_map_textDelta hout
  obtain rfl : (view s).lastEvents = last := congrArg Prod.snd (Except.ok.inj hlast)
  refine ⟨deltas, (view s).toolCalls, (List.append_assoc _ _ _).symm, ?_⟩
  rw [hview]
  exact emits_recordAll received

/-- Calls are recorded event by event. -/
theorem foldl_recordAll (calls : Value → List ToolCall) (events : List Value)
    (table : ToolCallTable) :
    events.foldl (fun table event => table.recordAll (calls event)) table =
      table.recordAll (events.flatMap calls) := by
  rw [ToolCallTable.recordAll, List.foldl_flatMap]
  rfl

/-! ## Codex -/

namespace OpenaiCodex

/-- The call of an item. -/
def itemCalls (json : SerdeJson) (event : Value) : List ToolCall :=
  let kind := event.str "type"
  if kind = some "response.output_item.done" ∨ kind = some "response.output_item.added" then
    ((event.get "item").bind (parseToolCall json)).toList
  else []

/-- The calls of a whole response. -/
def responseCalls (json : SerdeJson) (event : Value) : List ToolCall :=
  let kind := event.str "type"
  if kind = some "response.completed" ∨ kind = some "response.done" then
    (event.get "response").elim [] (collectToolCalls json)
  else []

def receivedCalls (json : SerdeJson) (event : Value) : List ToolCall :=
  itemCalls json event ++ responseCalls json event

/-- The events one after the other, and the end of the stream. -/
def processEvents (json : SerdeJson) (events : List Value) : Processing Unit := do
  let s ← events.foldlM (processEvent json) CodexState.default
  CodexStreamAccumulator.finish json ⟨.empty, [], s⟩

/-- The table becomes this one, and only pieces of text are sent. -/
abbrev Brings (table : ToolCallTable) (x : Processing CodexState) : Prop :=
  x.Ensures (fun s => s.toToolCallTable = table) IsTextDelta

theorem isTextDelta_singleton (delta : Text) :
    ∀ event ∈ [StreamEvent.textDelta delta], IsTextDelta event := by
  intro event hevent
  obtain rfl := List.mem_singleton.mp hevent
  exact ⟨delta, rfl⟩

theorem brings_outputTextDelta (s : CodexState) (event : Value) :
    Brings s.toToolCallTable (outputTextDelta s event) := by
  rw [outputTextDelta]
  split
  · next delta _ =>
    split
    · exact (Sends.ensures_tell (isTextDelta_singleton delta)).bind fun _ _ =>
        Sends.ensures_pure rfl
    · exact Sends.ensures_pure rfl
  · exact Sends.ensures_pure rfl

theorem brings_fallbackText (s : CodexState) (text : Option Text) :
    Brings s.toToolCallTable (fallbackText s text) := by
  cases text with
  | none => exact Sends.ensures_pure rfl
  | some text =>
      rw [fallbackText]
      split
      · exact (Sends.ensures_tell (isTextDelta_singleton text)).bind fun _ _ =>
          Sends.ensures_pure rfl
      · exact Sends.ensures_pure rfl

theorem brings_outputTextDone (s : CodexState) (event : Value) :
    Brings s.toToolCallTable (outputTextDone s event) := by
  rw [outputTextDone]
  split
  · exact brings_fallbackText s _
  · exact Sends.ensures_pure rfl

theorem table_outputItem (json : SerdeJson) (s : CodexState) (event : Value) :
    (outputItem json s event).toToolCallTable =
      s.toToolCallTable.recordAll (itemCalls json event) := by
  simp only [outputItem, itemCalls]
  split
  · split
    · next toolCall hcall =>
      rw [hcall]
      rfl
    · next hnone =>
      rw [hnone]
      rfl
  · rfl

theorem table_foldl_recordToolCall (s : CodexState) (calls : List ToolCall) :
    (calls.foldl CodexState.recordToolCall s).toToolCallTable =
      s.toToolCallTable.recordAll calls := by
  induction calls generalizing s with
  | nil => rfl
  | cons call calls ih => exact ih (s.recordToolCall call)

theorem brings_responseCompleted (json : SerdeJson) (s : CodexState) (event : Value) :
    Brings (s.toToolCallTable.recordAll (responseCalls json event))
      (responseCompleted json s event) := by
  simp only [responseCompleted, responseCalls]
  split
  · split
    · next response hresponse =>
      rw [hresponse]
      refine (brings_fallbackText s _).bind fun s' hs' => Sends.ensures_pure ?_
      rw [table_foldl_recordToolCall, hs']
      rfl
    · next hnone =>
      rw [hnone]
      exact Sends.ensures_pure rfl
  · exact Sends.ensures_pure rfl

/-- **An event records the calls it brings.** -/
theorem brings_processEvent (json : SerdeJson) (s : CodexState) (event : Value) :
    Brings (s.toToolCallTable.recordAll (receivedCalls json event))
      (processEvent json s event) := by
  rw [processEvent]
  split
  · exact Sends.ensures_fail _
  · refine (brings_outputTextDelta s event).bind fun s₁ hs₁ => ?_
    refine (brings_outputTextDone s₁ event).bind fun s₂ hs₂ => ?_
    have hresponse := brings_responseCompleted json (outputItem json s₂ event) event
    rw [table_outputItem, hs₂, hs₁] at hresponse
    rw [receivedCalls, ToolCallTable.recordAll, List.foldl_append]
    exact hresponse

theorem processEvents_eq (json : SerdeJson) (events : List Value) :
    processEvents json events =
      events.foldlM (processEvent json) CodexState.default >>= fun s =>
        tell s.toToolCallTable.lastEvents :=
  rfl

/-- A stream fails exactly if one of its events is an error. -/
theorem processEvents_fails_iff (json : SerdeJson) (events : List Value) :
    (processEvents json events).Fails ↔
      ∃ event ∈ events, (extractStreamErrorMessage event).isSome = true := by
  rw [processEvents_eq, Sends.fails_bind_iff, Sends.foldlM_fails_iff (processEvent_fails_iff json)]
  exact or_iff_left fun ⟨_, _, _, hfails⟩ => Sends.not_fails_tell _ hfails

theorem sendsCalls_processEvents (json : SerdeJson) {events : List Value}
    {sent : List StreamEvent} (h : (processEvents json events).run = .ok ((), sent)) :
    SendsCalls (events.flatMap (receivedCalls json)) sent := by
  refine sendsCalls_of_ensures CodexState.toToolCallTable ?_ h
  have hevents := Sends.Ensures.foldlM CodexState.toToolCallTable
    (fun table event => table.recordAll (receivedCalls json event)) (brings_processEvent json)
    events CodexState.default
  rwa [foldl_recordAll] at hevents

end OpenaiCodex

/-! ## Gemini -/

namespace Gemini

def receivedCalls (json : SerdeJson) (event : Value) : List ToolCall :=
  (candidateParts event).filterMap (parseToolCallPart json)

/-- The events one after the other, and the end of the stream. -/
def processEvents (json : SerdeJson) (events : List Value) : Processing Unit := do
  let table ← events.foldlM (processValue json) .empty
  GeminiStreamAccumulator.finish json ⟨.empty, [], table⟩

theorem ensures_sendText (text : Option Text) :
    (sendText text).Ensures (fun _ => True) IsTextDelta := by
  cases text with
  | none => exact Sends.ensures_pure trivial
  | some text =>
      rw [sendText]
      split
      · refine Sends.ensures_tell fun event hevent => ?_
        obtain rfl := List.mem_singleton.mp hevent
        exact ⟨text, rfl⟩
      · exact Sends.ensures_pure trivial

theorem ensures_processPart (json : SerdeJson) (table : ToolCallTable) (part : Value) :
    (processPart json table part).Ensures
      (fun table' => table' = table.recordAll (parseToolCallPart json part).toList)
      IsTextDelta := by
  refine (ensures_sendText _).bind fun _ _ => Sends.ensures_pure ?_
  cases parseToolCallPart json part <;> rfl

/-- **An event records the calls of its parts.** -/
theorem ensures_processValue (json : SerdeJson) (table : ToolCallTable) (event : Value) :
    (processValue json table event).Ensures
      (fun table' => table' = table.recordAll (receivedCalls json event)) IsTextDelta := by
  have hparts := Sends.Ensures.foldlM id
    (fun table part => table.recordAll (parseToolCallPart json part).toList)
    (ensures_processPart json) (candidateParts event) table
  rwa [foldl_recordAll, ← List.filterMap_eq_flatMap_toList] at hparts

theorem processEvents_eq (json : SerdeJson) (events : List Value) :
    processEvents json events =
      events.foldlM (processValue json) .empty >>= fun table => tell table.lastEvents :=
  rfl

theorem not_fails_processEvents (json : SerdeJson) (events : List Value) :
    ¬ (processEvents json events).Fails := by
  have hvalue : ∀ table event, (processValue json table event).Fails ↔ False := by
    intro table event
    have hparts : (processValue json table event).Fails ↔ ∃ part ∈ candidateParts event, False :=
      Sends.foldlM_fails_iff
        (fun table part => iff_false_intro (not_fails_processPart json table part)) _ _
    simp [hparts]
  rw [processEvents_eq, Sends.fails_bind_iff, Sends.foldlM_fails_iff hvalue]
  rintro (⟨_, _, hfalse⟩ | ⟨_, _, _, hfails⟩)
  · exact hfalse
  · exact Sends.not_fails_tell _ hfails

theorem sendsCalls_processEvents (json : SerdeJson) {events : List Value}
    {sent : List StreamEvent} (h : (processEvents json events).run = .ok ((), sent)) :
    SendsCalls (events.flatMap (receivedCalls json)) sent := by
  refine sendsCalls_of_ensures id ?_ h
  have hevents := Sends.Ensures.foldlM id
    (fun table event => table.recordAll (receivedCalls json event)) (ensures_processValue json)
    events ToolCallTable.empty
  rwa [foldl_recordAll] at hevents

end Gemini

/-! ## Both providers -/

/-- **A stream ends with the calls of its events**, of Codex unless one of them is an error, which
ends it before. -/
theorem streamedCalls_emitted (json : SerdeJson) (events : List Value) :
    ((∃ event ∈ events, (OpenaiCodex.extractStreamErrorMessage event).isSome = true) ∧
        (OpenaiCodex.processEvents json events).Fails ∨
      (∀ event ∈ events, OpenaiCodex.extractStreamErrorMessage event = none) ∧
        ∃ sent, (OpenaiCodex.processEvents json events).run = .ok ((), sent) ∧
          SendsCalls (events.flatMap (OpenaiCodex.receivedCalls json)) sent) ∧
    ∃ sent, (Gemini.processEvents json events).run = .ok ((), sent) ∧
      SendsCalls (events.flatMap (Gemini.receivedCalls json)) sent := by
  have hfails := OpenaiCodex.processEvents_fails_iff json events
  constructor
  · by_cases herror : ∃ event ∈ events,
        (OpenaiCodex.extractStreamErrorMessage event).isSome = true
    · exact .inl ⟨herror, hfails.mpr herror⟩
    · refine .inr ⟨fun event hevent => ?_, ?_⟩
      · exact Option.not_isSome_iff_eq_none.mp fun hsome => herror ⟨event, hevent, hsome⟩
      · obtain ⟨_, sent, hrun⟩ := Sends.exists_run_of_not_fails (mt hfails.mp herror)
        exact ⟨sent, hrun, OpenaiCodex.sendsCalls_processEvents json hrun⟩
  · obtain ⟨_, sent, hrun⟩ :=
      Sends.exists_run_of_not_fails (Gemini.not_fails_processEvents json events)
    exact ⟨sent, hrun, Gemini.sendsCalls_processEvents json hrun⟩

end Providers
end SimpleClaw
