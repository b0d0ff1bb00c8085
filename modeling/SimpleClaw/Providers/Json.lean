import Mathlib.Data.List.Basic
import SimpleClaw.Lib.Text

/-!
# JSON values

The values a provider answers with.  They are read from text and written as text by a library,
which is a parameter: nothing here depends on the syntax of JSON.

* `Value.get`, `Value.str`, `Value.items`: looking into a value.
* `Value.sizeOf_lt_of_mem_items`: what is found inside is smaller, for recursion on it.
-/

namespace SimpleClaw
namespace Providers

inductive Value where
  | null
  | bool (b : Bool)
  | number (literal : Text)
  | string (s : Text)
  | array (items : List Value)
  | object (entries : List (Text × Value))

/-- Reading and writing of values.  What cannot be read has an error with a text. -/
structure SerdeJson where
  fromStr : Text → Except Text Value
  toString : Value → Text

namespace Value

/-- `get(key)`. -/
def get (key : Text) : Value → Option Value
  | .object entries => entries.lookup key
  | .null | .bool _ | .number _ | .string _ | .array _ => none

def isObject : Value → Bool
  | .object _ => true
  | .null | .bool _ | .number _ | .string _ | .array _ => false

def asStr : Value → Option Text
  | .string s => some s
  | .null | .bool _ | .number _ | .array _ | .object _ => none

def asBool : Value → Option Bool
  | .bool b => some b
  | .null | .number _ | .string _ | .array _ | .object _ => none

def asArray : Value → Option (List Value)
  | .array items => some items
  | .null | .bool _ | .number _ | .string _ | .object _ => none

/-- The text under a key. -/
def str (v : Value) (key : Text) : Option Text := (v.get key).bind asStr

/-- The entries of the array under a key, none if there is no array. -/
def items (v : Value) (key : Text) : List Value := ((v.get key).bind asArray).getD []

theorem sizeOf_lt_of_lookup {entries : List (Text × Value)} {key : Text} {v : Value}
    (h : entries.lookup key = some v) : sizeOf v < sizeOf entries := by
  induction entries with
  | nil => cases h
  | cons entry entries ih =>
      obtain ⟨k, v'⟩ := entry
      rw [List.lookup_cons] at h
      split at h
      · obtain rfl := Option.some.inj h
        simp only [List.cons.sizeOf_spec, Prod.mk.sizeOf_spec]
        omega
      · have := ih h
        simp only [List.cons.sizeOf_spec]
        omega

/-- **What is found inside a value is smaller.** -/
theorem sizeOf_lt_of_mem_items {v item : Value} {key : Text} (h : item ∈ v.items key) :
    sizeOf item < sizeOf v := by
  rw [items] at h
  cases v with
  | null | bool | number | string | array => cases h
  | object entries =>
      cases hget : entries.lookup key with
      | none =>
          rw [get, hget] at h
          cases h
      | some found =>
          have hfound := sizeOf_lt_of_lookup hget
          rw [get, hget] at h
          cases found with
          | null | bool | number | string | object => cases h
          | array items =>
              have hitem := List.sizeOf_lt_of_mem (show item ∈ items from h)
              rw [array.sizeOf_spec] at hfound
              rw [object.sizeOf_spec]
              omega

end Value

end Providers
end SimpleClaw
