import Mathlib.Data.List.Basic
import SimpleClaw.Lib.Text

/-!
# What providers answer

A response has a text and tool calls; streamed, it is a sequence of events.  The tool calls of a
stream are kept in a table until the stream ends.
-/

namespace SimpleClaw
namespace Providers

structure ToolCall where
  id : Option Text
  name : Text
  argsJson : Text
  deriving DecidableEq

structure ProviderResponse where
  outputText : Option Text
  toolCalls : List ToolCall
  deriving DecidableEq

inductive StreamEvent where
  | textDelta (delta : Text)
  | toolCallComplete (toolCall : ToolCall)
  | done
  | error (message : Text)
  deriving DecidableEq

/-- The tool calls so far, and where the one of an id is. -/
structure ToolCallTable where
  toolCallIndicesById : List (Text × Nat)
  toolCalls : List ToolCall

namespace ToolCallTable

def empty : ToolCallTable := ⟨[], []⟩

/-- A call takes the place of the one of its id. -/
def recordToolCall (table : ToolCallTable) (toolCall : ToolCall) : ToolCallTable :=
  match toolCall.id with
  | some id =>
      match table.toolCallIndicesById.lookup id with
      | some index => { table with toolCalls := table.toolCalls.set index toolCall }
      | none =>
          { toolCallIndicesById := (id, table.toolCalls.length) :: table.toolCallIndicesById
            toolCalls := table.toolCalls ++ [toolCall] }
  | none => { table with toolCalls := table.toolCalls ++ [toolCall] }

/-- What is sent at the end of a stream. -/
def lastEvents (table : ToolCallTable) : List StreamEvent :=
  table.toolCalls.map .toolCallComplete ++ [.done]

end ToolCallTable

end Providers
end SimpleClaw
