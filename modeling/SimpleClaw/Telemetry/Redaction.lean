import SimpleClaw.Lib.ByteSearch
import SimpleClaw.Providers.Json

/-!
# Redacting what is logged

`sanitize_preview` of `telemetry.rs`: a text that is logged has its sensitive values replaced by a
mark, its white space normalized and its end cut off.  Text that reads as JSON is redacted by the
keys of its objects; any other text is scanned once for each sensitive key and each separator, and
once for bearer tokens.

A scan keeps a byte from which it goes on.  A slice from a byte within a character panics, so a
scan is an `Outcome`.  The texts that the scans rewrite are lists of any entries that are read as
characters, so that a scan can also be run on characters that remember where they come from.

* `redactTurn`, `redactLoop`: one turn of a scan, and the scan.
* `redactAfterKey`, `redactBearerToken`, `redactText`: the scans of a text that is not JSON.
* `redactJsonValue`: the redaction of a value.
* `redactSensitiveValues`, `sanitizePreview`: the two together, and the preview.
-/

namespace SimpleClaw
namespace Telemetry

open Text Providers

def REDACTED : Text := "***REDACTED***"

def sensitiveKeys : List Text :=
  ["api_key", "apikey", "token", "secret", "password", "authorization", "access_token",
    "refresh_token"]

def isSecretValueTerminator (ch : Char) : Bool :=
  isWhiteSpace ch || decide (ch ∈ ['"', '\'', ',', '&', ';', ')', '(', ']', '[', '\x7b', '\x7d'])

/-- What a scan ends with. -/
inductive Outcome (β : Type*) where
  | returned (result : β)
  | panicked
  | outOfFuel
  deriving DecidableEq

namespace Outcome

variable {β γ : Type*}

/-- The scans one after the other. -/
def bind : Outcome β → (β → Outcome γ) → Outcome γ
  | returned result, next => next result
  | panicked, _ => panicked
  | outOfFuel, _ => outOfFuel

def map (f : β → γ) (outcome : Outcome β) : Outcome γ :=
  outcome.bind fun result => returned (f result)

/-- A result, or the panic in its place. -/
def ofOption : Option β → Outcome β
  | some result => returned result
  | none => panicked

@[simp] theorem ofOption_some (result : β) : ofOption (some result) = returned result := rfl

@[simp] theorem ofOption_none : ofOption (none : Option β) = panicked := rfl

@[simp] theorem bind_returned (result : β) (next : β → Outcome γ) :
    (returned result).bind next = next result := rfl

@[simp] theorem bind_panicked (next : β → Outcome γ) : panicked.bind next = panicked := rfl

@[simp] theorem bind_outOfFuel (next : β → Outcome γ) : outOfFuel.bind next = outOfFuel := rfl

@[simp] theorem map_returned (f : β → γ) (result : β) :
    (returned result).map f = returned (f result) := rfl

@[simp] theorem map_panicked (f : β → γ) : panicked.map f = panicked := rfl

theorem map_bind {δ : Type*} (f : γ → δ) (outcome : Outcome β) (next : β → Outcome γ) :
    (outcome.bind next).map f = outcome.bind fun result => (next result).map f := by
  cases outcome <;> rfl

end Outcome

/-! ## One turn of a scan -/

/-- What a turn decides: to stop, to go on from a byte, or to replace what is between two. -/
inductive Turn where
  | stop
  | skip (searchFrom : Nat)
  | replace (valueStart valueEnd : Nat)
  deriving DecidableEq

/-- `&text[start..]`. -/
def sliceFrom (start : Nat) (text : Text) : Option Text := (splitBytes start text).map Prod.snd

/-- Where the value ends that is looked at from `start` on. -/
def valueEndFrom (output : Text) (start : Nat) : Option Nat :=
  (sliceFrom start output).map fun value =>
    ((findChar isSecretValueTerminator value).map (start + ·)).getD (utf8Len output)

def redactTurn (needle : Text) (takesBearer : Bool) (output : Text) (searchFrom : Nat) :
    Option Turn :=
  if utf8Len output ≤ searchFrom then some .stop
  else
    (sliceFrom searchFrom (toAsciiLowercase output)).bind fun lower =>
      match findText needle lower with
      | none => some .stop
      | some relativeIdx =>
          let tokenStart := searchFrom + relativeIdx
          let valueStart := tokenStart + utf8Len needle
          if utf8Len output ≤ valueStart then some .stop
          else
            (sliceFrom valueStart output).bind fun value =>
              (valueEndFrom output
                (if takesBearer = true ∧ ("bearer " : Text) <+: toAsciiLowercase value then
                  valueStart + utf8Len "bearer " else valueStart)).map fun valueEnd =>
                if valueEnd = valueStart then .skip (valueStart + 1)
                else .replace valueStart valueEnd

/-! ## The scans -/

section Scans

variable {α : Type*} (char : α → Char) (mark : List α)

/-- `replace_range(start..stop, replacement)`. -/
def replaceRange (output : List α) (start stop : Nat) (replacement : List α) : Option (List α) :=
  if stop < start then none
  else
    (splitBytes start (output.map char)).bind fun before =>
      (splitBytes stop (output.map char)).map fun upTo =>
        output.take before.1.length ++ (replacement ++ output.drop upTo.1.length)

def redactLoop (needle : Text) (takesBearer : Bool) : Nat → List α → Nat → Outcome (List α)
  | 0, _, _ => .outOfFuel
  | fuel + 1, output, searchFrom =>
      match redactTurn needle takesBearer (output.map char) searchFrom with
      | none => .panicked
      | some .stop => .returned output
      | some (.skip searchFrom) => redactLoop needle takesBearer fuel output searchFrom
      | some (.replace valueStart valueEnd) =>
          match replaceRange char output valueStart valueEnd mark with
          | none => .panicked
          | some output =>
              redactLoop needle takesBearer fuel output (valueStart + utf8Len (mark.map char))

/-- A scan, with a turn for each character and one more. -/
def redactScan (needle : Text) (takesBearer : Bool) (input : List α) : Outcome (List α) :=
  redactLoop char mark needle takesBearer (input.length + 1) input 0

/-- A key and the separator after it.  The value of `authorization` may be the word `Bearer` and a
token. -/
def redactAfterKey (input : List α) (key : Text) (separator : Char) : Outcome (List α) :=
  redactScan char mark (key ++ [separator])
    (decide (toAsciiLowercase key = toAsciiLowercase "authorization")) input

def redactBearerToken (input : List α) : Outcome (List α) :=
  redactScan char mark "bearer " false input

/-- The loop over the keys. -/
def redactAfterKeys : List Text → List α → Outcome (List α)
  | [], redacted => .returned redacted
  | key :: keys, redacted =>
      (redactAfterKey char mark redacted key '=').bind fun redacted =>
        (redactAfterKey char mark redacted key ':').bind fun redacted =>
          redactAfterKeys keys redacted

/-- What is done to a text that is not JSON. -/
def redactText (text : List α) : Outcome (List α) :=
  (redactAfterKeys char mark sensitiveKeys text).bind (redactBearerToken char mark)

end Scans

/-! ## JSON -/

def isSensitiveKey (key : Text) : Bool :=
  sensitiveKeys.any fun candidate => (toAsciiLowercase key).contains candidate

mutual

def redactJsonValue : Value → Value
  | .object map => .object (redactEntries map)
  | .array items => .array (redactItems items)
  | .null => .null
  | .bool b => .bool b
  | .number literal => .number literal
  | .string s => .string s

/-- The loop over the entries of an object. -/
def redactEntries : List (Text × Value) → List (Text × Value)
  | [] => []
  | (key, child) :: map =>
      (key, if isSensitiveKey key then .string REDACTED else redactJsonValue child) ::
        redactEntries map

/-- The loop over the items of an array. -/
def redactItems : List Value → List Value
  | [] => []
  | item :: items => redactJsonValue item :: redactItems items

end

/-! ## The preview -/

variable (json : SerdeJson)

def redactSensitiveValues (text : Text) : Outcome Text :=
  match json.fromStr text with
  | .ok value => .returned (json.toString (redactJsonValue value))
  | .error _ => redactText id REDACTED text

def normalizeForLogLine (text : Text) : Text := joinWith ' ' (splitWhitespace text)

def truncateForLog (text : Text) (maxChars : Nat) : Text :=
  if text.length ≤ maxChars then text else text.take maxChars ++ "...[truncated]".toList

def sanitizePreview (text : Text) (maxChars : Nat) : Outcome Text :=
  (redactSensitiveValues json text).map fun redacted =>
    truncateForLog (normalizeForLogLine redacted) maxChars

example : redactText id REDACTED "a, token=x, authorization: Bearer y".toList =
    .returned "a, token=***REDACTED***, authorization: Bearer ***REDACTED***".toList := by
  decide +kernel

example : redactText id REDACTED "token=\u00a0x".toList = .panicked := by decide +kernel

end Telemetry
end SimpleClaw
