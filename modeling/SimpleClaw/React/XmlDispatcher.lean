import SimpleClaw.Lib.LazyMatch
import SimpleClaw.React.Dispatch

/-!
# The dispatcher for tool calls in a text

A model without tool calls of its own writes them into its answer, between tags.  The calls are
searched with a regular expression, and they are written in the same form for the history.  Nothing
is escaped on either side.

* `XmlDispatcher.toolCallAt`: a match of the expression, at the beginning of a text.
* `XmlDispatcher.parseToolCallsFromText`, `XmlDispatcher.formatCallsXml`: the two directions.
* `XmlDispatcher.parseResponse`, `XmlDispatcher.formatForHistory`: from the provider and back to it.
* `XmlDispatcher.promptInstructions`: what the model is told of the form and of the tools.
-/

namespace SimpleClaw
namespace React

open Providers

namespace XmlDispatcher

/-! ## The expression -/

/-- `<tool_call>\s*<name>` -/
def toolCallName : TagPair where
  first := "<tool_call>"
  second := "<name>"
  first_isTag := by decide
  second_isTag := by decide
  apart := by decide

/-- `</name>\s*<arguments>` -/
def nameArguments : TagPair where
  first := "</name>"
  second := "<arguments>"
  first_isTag := by decide
  second_isTag := by decide
  apart := by decide

/-- `</arguments>\s*</tool_call>` -/
def argumentsToolCall : TagPair where
  first := "</arguments>"
  second := "</tool_call>"
  first_isTag := by decide
  second_isTag := by decide
  apart := by decide

/-- A match at the beginning of the text: the two groups, and what follows the match. -/
def toolCallAt (t : Text) : Option ((Text × Text) × Text) :=
  (toolCallName.after t).bind fun t =>
    (lazyUntil (fun t => (nameArguments.after t).bind (lazyUntil argumentsToolCall.after)) t).map
      fun (name, arguments, rest) => ((name, arguments), rest)

/-- `captures_iter` -/
def capturesIter (text : Text) : List (Text × Text) := matchesFrom toolCallAt 0 text

/-! ## Reading and writing -/

/-- Arguments that cannot be read count as none. -/
def parsedFromCapture (json : SerdeJson) (capture : Text × Text) : ParsedToolCall where
  name := Text.trim capture.1
  arguments := match json.fromStr (Text.trim capture.2) with
    | .ok arguments => arguments
    | .error _ => .object []
  toolCallId := none

def parseToolCallsFromText (json : SerdeJson) (text : Text) : List ParsedToolCall :=
  (capturesIter text).map (parsedFromCapture json)

/-- What one call contributes to the text. -/
def formatCallXml (json : SerdeJson) (call : ParsedToolCall) : Text :=
  ("<tool_call>\n<name>" : Text) ++ call.name ++ ("</name>\n<arguments>" : Text) ++
    json.toString call.arguments ++ ("</arguments>\n</tool_call>\n" : Text)

def formatCallsXml (json : SerdeJson) (calls : List ParsedToolCall) : Text :=
  calls.flatMap (formatCallXml json)

def statusXml : ToolExecutionStatus → Text
  | .ok => "ok"
  | .accepted => "accepted"
  | .toolError => "error"

def formatResultXml (result : ToolExecutionResult) : Text :=
  ("<tool_result>\n<name>" : Text) ++ result.name ++ ("</name>\n<status>" : Text) ++
    statusXml result.status ++ ("</status>\n<output>" : Text) ++ result.output ++
    ("</output>\n</tool_result>\n" : Text)

def formatResultsXml (results : List ToolExecutionResult) : Text :=
  results.flatMap formatResultXml

/-! ## The dispatcher -/

def parseResponse (json : SerdeJson) (response : ProviderResponse) : DispatchAction :=
  match response.outputText with
  | some text =>
      let calls := parseToolCallsFromText json text
      if calls.isEmpty = false then .toolCalls calls else .finalResponse text
  | none => .empty

def formatForHistory (json : SerdeJson) (calls : List ParsedToolCall)
    (results : List ToolExecutionResult) : List Message :=
  [.text .assistant (formatCallsXml json calls), .text .user (formatResultsXml results)]

/-- What the instructions say of one tool. -/
def toolInstructions (tool : ToolDefinition) : Text :=
  ("### " : Text) ++ tool.name ++ ("\n\n" : Text) ++ tool.description ++ ("\n\n" : Text) ++
    ("**Parameters:**\n```json\n" : Text) ++ tool.inputSchemaJson ++ ("\n```\n\n" : Text)

def promptInstructions (tools : List ToolDefinition) : Text :=
  let protocol : String :=
    "\n\n# Tool Calling Protocol\n\n" ++
    "You have access to tools. To call a tool, include XML tags in your response:\n\n" ++
    "```xml\n" ++
    "<tool_call>\n" ++
    "<name>tool_name</name>\n" ++
    "<arguments>\x7b\"key\": \"value\"\x7d</arguments>\n" ++
    "</tool_call>\n" ++
    "```\n\n" ++
    "You may call multiple tools in one response by including multiple " ++
    "`<tool_call>` blocks.\n\n" ++
    "Tool results will be provided in this format:\n\n" ++
    "```xml\n" ++
    "<tool_result>\n" ++
    "<name>tool_name</name>\n" ++
    "<status>ok</status>\n" ++
    "<output>result text</output>\n" ++
    "</tool_result>\n" ++
    "```\n\n" ++
    "## Available Tools\n\n"
  protocol.toList ++ tools.flatMap toolInstructions

def shouldSendToolSpecs : Bool := false

end XmlDispatcher

end React
end SimpleClaw
