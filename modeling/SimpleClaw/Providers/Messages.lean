import SimpleClaw.Providers.Json
import SimpleClaw.Providers.Types

/-!
# Messages

What a provider is sent is a history: texts, the tool calls of the model and the results it was
given for them.

* `ResultsFor`: one result for each call, in their order.
* `WellFormed`: every message with calls is followed by one with the results.
* `WellFormed.append`: histories are put together without further ado.
-/

namespace SimpleClaw
namespace Providers

inductive Role where
  | system
  | user
  | assistant
  | tool
  deriving DecidableEq

structure ToolResult where
  callId : Option Text
  name : Text
  response : Value

structure Message where
  role : Role
  content : Text
  toolCalls : List ToolCall
  toolResults : List ToolResult

structure ToolDefinition where
  name : Text
  description : Text
  inputSchemaJson : Text
  deriving DecidableEq

def Message.text (role : Role) (content : Text) : Message := ⟨role, content, [], []⟩

def Message.assistantToolCalls (toolCalls : List ToolCall) : Message :=
  ⟨.assistant, [], toolCalls, []⟩

def Message.ofToolResults (toolResults : List ToolResult) : Message :=
  ⟨.tool, [], [], toolResults⟩

/-- One result for each call, of its id and its name, in the order of the calls. -/
def ResultsFor (calls : List ToolCall) (results : List ToolResult) : Prop :=
  results.map (fun result => (result.callId, result.name)) =
    calls.map fun call => (call.id, call.name)

/-- Every message with tool calls comes from the model, and the next one is a message of the tools
with the results for them. -/
def WellFormed (history : List Message) : Prop :=
  ∀ before message after, history = before ++ message :: after → message.toolCalls ≠ [] →
    message.role = .assistant ∧ ∃ next rest, after = next :: rest ∧ next.role = .tool ∧
      ResultsFor message.toolCalls next.toolResults

theorem WellFormed.nil : WellFormed [] := by
  intro before message after h
  simp at h

/-- **Well-formed histories are put together.** -/
theorem WellFormed.append {history later : List Message} (h : WellFormed history)
    (h' : WellFormed later) : WellFormed (history ++ later) := by
  intro before message after hsplit hcalls
  rcases List.append_eq_append_iff.mp hsplit with ⟨m, hbefore, hlater⟩ | ⟨m, hhistory, hm⟩
  · -- the message is in the later part
    exact h' m message after hlater hcalls
  · cases m with
    | nil => exact h' [] message after hm.symm hcalls
    | cons first m =>
        obtain ⟨rfl, rfl⟩ := List.cons.inj hm
        obtain ⟨hrole, next, rest, rfl, hnext⟩ := h before message m hhistory hcalls
        exact ⟨hrole, next, rest ++ later, rfl, hnext⟩

/-- Messages without tool calls ask for nothing. -/
theorem WellFormed.of_forall {history : List Message}
    (h : ∀ message ∈ history, message.toolCalls = []) : WellFormed history := by
  intro before message after hsplit hcalls
  exact absurd (h message (by rw [hsplit]; simp)) hcalls

/-- Calls of the model with their results. -/
theorem WellFormed.calls_results {calls : List ToolCall} {results : List ToolResult}
    (h : ResultsFor calls results) :
    WellFormed [.assistantToolCalls calls, .ofToolResults results] := by
  intro before message after hsplit hcalls
  rcases List.cons_eq_append_iff.mp hsplit with ⟨rfl, hhead⟩ | ⟨before', rfl, hrest⟩
  · obtain ⟨rfl, rfl⟩ := List.cons.inj hhead
    exact ⟨rfl, _, [], rfl, rfl, h⟩
  · -- the message of the results has no calls
    rcases List.cons_eq_append_iff.mp hrest with ⟨rfl, hhead⟩ | ⟨before'', rfl, hnil⟩
    · obtain ⟨rfl, -⟩ := List.cons.inj hhead
      exact absurd rfl hcalls
    · simp at hnil

end Providers
end SimpleClaw
