import Mathlib.Data.Char
import Mathlib.Data.List.Lex
import SimpleClaw.Providers.Json

/-!
# Tool schemas

The parameters of a tool are described by a schema, which comes from anywhere, and the Codex
provider takes only some.  A schema is made into one of these before it is sent: what is no object
where a schema should be becomes the empty schema, and what is no list of names or of schemas
becomes an empty one.  An object is the list of its entries, in the order of their keys.

* `normalizeSchemaNode`, `normalizeToolSchema`: the normalization.
* `WellFormed`, `ToolSchema`: the schemas that are taken.
* `normalizeToolSchema_wellFormed`: what is made of any value, and which are left as they are.
-/

namespace SimpleClaw
namespace Providers

namespace Value

def isArray : Value → Bool
  | .array _ => true
  | .null | .bool _ | .number _ | .string _ | .object _ => false

def isString : Value → Bool
  | .string _ => true
  | .null | .bool _ | .number _ | .array _ | .object _ => false

theorem sizeOf_lt_of_mem_entries {map : List (Text × Value)} {key : Text} {value : Value}
    (h : (key, value) ∈ map) : sizeOf value < sizeOf (object map) := by
  have hentry := List.sizeOf_lt_of_mem h
  rw [Prod.mk.sizeOf_spec] at hentry
  rw [object.sizeOf_spec]
  omega

theorem sizeOf_lt_of_mem_array {items : List Value} {item : Value} (h : item ∈ items) :
    sizeOf item < sizeOf (array items) := by
  have hitem := List.sizeOf_lt_of_mem h
  rw [array.sizeOf_spec]
  omega

theorem eq_object_of_isObject {value : Value} (h : value.isObject = true) :
    ∃ entries, value = .object entries := by
  cases value with
  | object entries => exact ⟨entries, rfl⟩
  | null | bool | number | string | array => cases h

theorem eq_array_of_isArray {value : Value} (h : value.isArray = true) :
    ∃ items, value = .array items := by
  cases value with
  | array items => exact ⟨items, rfl⟩
  | null | bool | number | string | object => cases h

end Value

namespace OpenaiCodex

def defaultToolSchema : Value :=
  .object [("properties", .object []), ("type", .string "object")]

/-- The keys of alternative schemas. -/
def IsAlternatives (key : Text) : Prop := key = "anyOf" ∨ key = "oneOf" ∨ key = "allOf"

instance : DecidablePred IsAlternatives := fun _ => inferInstanceAs (Decidable (_ ∨ _ ∨ _))

/-- A schema within a tool schema.  Each key is looked up and changed by itself. -/
def normalizeSchemaNode : Value → Value
  | .object map => .object <| map.attach.map fun ⟨(key, value), _hentry⟩ => (key,
      if key = "properties" then
        match value, _hentry with
        | .object properties, _hentry =>
            .object (properties.attach.map fun ⟨(name, property), _hproperty⟩ =>
              (name, normalizeSchemaNode property))
        | .null, _ | .bool _, _ | .number _, _ | .string _, _ | .array _, _ => .object []
      else if key = "required" then
        match value with
        | .array items => .array (items.filter Value.isString)
        | .null | .bool _ | .number _ | .string _ | .object _ => .array []
      else if key = "items" then normalizeSchemaNode value
      else if key = "additionalProperties" then
        if value.isObject then normalizeSchemaNode value else value
      else if IsAlternatives key then
        match value, _hentry with
        | .array entries, _hentry =>
            .array (entries.attach.map fun ⟨item, _hitem⟩ =>
              if item.isObject then normalizeSchemaNode item else item)
        | .null, _ | .bool _, _ | .number _, _ | .string _, _ | .object _, _ => .array []
      else value)
  | .null | .bool _ | .number _ | .string _ | .array _ => defaultToolSchema
termination_by value => sizeOf value
decreasing_by
  · exact (Value.sizeOf_lt_of_mem_entries _hproperty).trans (Value.sizeOf_lt_of_mem_entries _hentry)
  · exact Value.sizeOf_lt_of_mem_entries _hentry
  · exact Value.sizeOf_lt_of_mem_entries _hentry
  · exact (Value.sizeOf_lt_of_mem_array _hitem).trans (Value.sizeOf_lt_of_mem_entries _hentry)

/-- An entry is put where its key belongs, in the place of the one that is there. -/
def insertEntry (key : Text) (value : Value) : List (Text × Value) → List (Text × Value)
  | [] => [(key, value)]
  | entry :: map =>
      if key = entry.1 then (key, value) :: map
      else if key < entry.1 then (key, value) :: entry :: map
      else entry :: insertEntry key value map

def normalizeToolSchema : Value → Value
  | .object map =>
      let map :=
        if (Value.object map).str "type" ≠ some "object" then
          insertEntry "type" (.string "object") map
        else map
      -- a key that is missing has no object either
      let map :=
        if ((Value.object map).get "properties").any Value.isObject = false then
          insertEntry "properties" (.object []) map
        else map
      normalizeSchemaNode (.object map)
  | .null | .bool _ | .number _ | .string _ | .array _ => defaultToolSchema

/-! ## Entry by entry -/

/-- What becomes of the entry of a key. -/
def normalizeEntry (key : Text) (value : Value) : Value :=
  if key = "properties" then
    match value with
    | .object properties =>
        .object (properties.map fun property => (property.1, normalizeSchemaNode property.2))
    | .null | .bool _ | .number _ | .string _ | .array _ => .object []
  else if key = "required" then
    match value with
    | .array items => .array (items.filter Value.isString)
    | .null | .bool _ | .number _ | .string _ | .object _ => .array []
  else if key = "items" then normalizeSchemaNode value
  else if key = "additionalProperties" then
    if value.isObject then normalizeSchemaNode value else value
  else if IsAlternatives key then
    match value with
    | .array entries =>
        .array (entries.map fun item => if item.isObject then normalizeSchemaNode item else item)
    | .null | .bool _ | .number _ | .string _ | .object _ => .array []
  else value

theorem map_attach_eq {α β : Type} {l : List α} {f : {a // a ∈ l} → β} {g : α → β}
    (h : ∀ a, f a = g a.1) : l.attach.map f = l.map g := by
  have hf : f = g ∘ Subtype.val := funext h
  rw [hf, ← List.map_map, List.attach_map_subtype_val]

theorem normalizeSchemaNode_object (map : List (Text × Value)) :
    normalizeSchemaNode (.object map) =
      .object (map.map fun entry => (entry.1, normalizeEntry entry.1 entry.2)) := by
  rw [normalizeSchemaNode]
  congr 1
  refine map_attach_eq fun ⟨(key, value), hentry⟩ => Prod.ext rfl ?_
  simp only [normalizeEntry]
  split
  · cases value with
    | object properties => exact congrArg Value.object (map_attach_eq fun _ => rfl)
    | null | bool | number | string | array => rfl
  · split
    · cases value <;> rfl
    · split
      · rfl
      · split
        · rfl
        · split
          · cases value with
            | array entries => exact congrArg Value.array (map_attach_eq fun _ => rfl)
            | null | bool | number | string | object => rfl
          · rfl

/-- An entry of the result comes from one of the schema. -/
theorem mem_normalized {map : List (Text × Value)} {key : Text} {value : Value}
    (h : (key, value) ∈ map.map fun entry => (entry.1, normalizeEntry entry.1 entry.2)) :
    ∃ old, (key, old) ∈ map ∧ value = normalizeEntry key old := by
  obtain ⟨⟨key', old⟩, hmem, heq⟩ := List.mem_map.mp h
  obtain ⟨rfl, rfl⟩ := Prod.mk.inj heq
  exact ⟨old, hmem, rfl⟩

section Keys

variable (value : Value)

theorem normalizeEntry_properties : normalizeEntry "properties" value =
    .object (match value with
      | .object properties => properties.map fun p => (p.1, normalizeSchemaNode p.2)
      | .null | .bool _ | .number _ | .string _ | .array _ => []) := by
  cases value <;> rfl

theorem normalizeEntry_required : normalizeEntry "required" value =
    .array (match value with
      | .array items => items.filter Value.isString
      | .null | .bool _ | .number _ | .string _ | .object _ => []) := by
  cases value <;> rfl

theorem normalizeEntry_items : normalizeEntry "items" value = normalizeSchemaNode value := rfl

theorem normalizeEntry_additionalProperties : normalizeEntry "additionalProperties" value =
    if value.isObject then normalizeSchemaNode value else value :=
  rfl

theorem normalizeEntry_alternatives {key : Text} (h : IsAlternatives key) :
    normalizeEntry key value =
      .array (match value with
        | .array entries => entries.map fun item =>
            if item.isObject then normalizeSchemaNode item else item
        | .null | .bool _ | .number _ | .string _ | .object _ => []) := by
  obtain rfl | rfl | rfl := h
  · cases value <;> rfl
  · cases value <;> rfl
  · cases value <;> rfl

end Keys

/-! ## Schemas that are taken -/

/-- The entry of a key is this value. -/
def HasEntry (map : List (Text × Value)) (key : Text) (value : Value) : Prop := (key, value) ∈ map

/-- The value is a schema, and so is every schema within it: the properties, the items, additional
properties that are an object, and alternatives that are objects. -/
inductive WellFormed : Value → Prop where
  | object {map : List (Text × Value)}
      (properties : ∀ value, HasEntry map "properties" value → value.isObject = true)
      (property : ∀ entries name value, HasEntry map "properties" (.object entries) →
        HasEntry entries name value → WellFormed value)
      (required : ∀ value, HasEntry map "required" value → value.isArray = true)
      (requiredItem : ∀ items item, HasEntry map "required" (.array items) → item ∈ items →
        item.isString = true)
      (items : ∀ value, HasEntry map "items" value → WellFormed value)
      (additionalProperties : ∀ value, HasEntry map "additionalProperties" value →
        value.isObject = true → WellFormed value)
      (alternatives : ∀ key value, IsAlternatives key → HasEntry map key value →
        value.isArray = true)
      (alternative : ∀ key items item, IsAlternatives key → HasEntry map key (.array items) →
        item ∈ items → item.isObject = true → WellFormed item) :
      WellFormed (.object map)

/-- The schema of a tool is one of an object with properties. -/
structure ToolSchema (schema : Value) : Prop where
  type : schema.str "type" = some "object"
  properties : ∃ entries, schema.get "properties" = some (.object entries)
  wellFormed : WellFormed schema

theorem key_of_defaultToolSchema {key : Text} {value : Value}
    (h : HasEntry [("properties", .object []), ("type", .string "object")] key value) :
    key = "properties" ∧ value = .object [] ∨ key = "type" := by
  obtain h | h := List.mem_cons.mp h
  · exact .inl (Prod.mk.inj h)
  · exact .inr (Prod.mk.inj (List.mem_singleton.mp h)).1

theorem wellFormed_defaultToolSchema : WellFormed defaultToolSchema := by
  have halternatives : ∀ {key value}, IsAlternatives key →
      ¬ HasEntry [("properties", .object []), ("type", .string "object")] key value := by
    rintro key value hkey h
    obtain ⟨rfl, -⟩ | rfl := key_of_defaultToolSchema h
    · exact absurd hkey (by decide)
    · exact absurd hkey (by decide)
  refine .object ?_ ?_ ?_ ?_ ?_ ?_ ?_ ?_
  · intro value h
    obtain ⟨-, rfl⟩ := (key_of_defaultToolSchema h).resolve_right (by decide)
    rfl
  · intro entries name value h hmem
    obtain ⟨-, hnil⟩ := (key_of_defaultToolSchema h).resolve_right (by decide)
    obtain rfl := Value.object.inj hnil
    exact absurd hmem List.not_mem_nil
  · exact fun value h => absurd ((key_of_defaultToolSchema h).imp_left And.left) (by decide)
  · exact fun items item h => absurd ((key_of_defaultToolSchema h).imp_left And.left) (by decide)
  · exact fun value h => absurd ((key_of_defaultToolSchema h).imp_left And.left) (by decide)
  · exact fun value h => absurd ((key_of_defaultToolSchema h).imp_left And.left) (by decide)
  · exact fun key value hkey h => absurd h (halternatives hkey)
  · exact fun key items item hkey h => absurd h (halternatives hkey)

/-- **What is made of a value is a schema, at every depth.** -/
theorem wellFormed_normalizeSchemaNode (value : Value) :
    WellFormed (normalizeSchemaNode value) := by
  induction value using WellFounded.induction (measure (sizeOf : Value → Nat)).wf with
  | h value ih =>
    cases value with
    | null | bool | number | string | array =>
        rw [normalizeSchemaNode]
        exact wellFormed_defaultToolSchema
    | object map =>
        rw [normalizeSchemaNode_object]
        refine .object ?_ ?_ ?_ ?_ ?_ ?_ ?_ ?_
        · intro value h
          obtain ⟨old, -, rfl⟩ := mem_normalized h
          rw [normalizeEntry_properties]
          rfl
        · intro entries name value h hmem
          obtain ⟨old, hold, heq⟩ := mem_normalized h
          rw [normalizeEntry_properties] at heq
          cases old with
          | object properties =>
              obtain rfl := Value.object.inj heq
              obtain ⟨⟨name', property⟩, hproperty, hpair⟩ := List.mem_map.mp hmem
              obtain ⟨rfl, rfl⟩ := Prod.mk.inj hpair
              exact ih property ((Value.sizeOf_lt_of_mem_entries hproperty).trans
                (Value.sizeOf_lt_of_mem_entries hold))
          | null | bool | number | string | array =>
              obtain rfl := Value.object.inj heq
              exact absurd hmem List.not_mem_nil
        · intro value h
          obtain ⟨old, -, rfl⟩ := mem_normalized h
          rw [normalizeEntry_required]
          rfl
        · intro items item h hmem
          obtain ⟨old, -, heq⟩ := mem_normalized h
          rw [normalizeEntry_required] at heq
          cases old with
          | array items' =>
              obtain rfl := Value.array.inj heq
              exact (List.mem_filter.mp hmem).2
          | null | bool | number | string | object =>
              obtain rfl := Value.array.inj heq
              exact absurd hmem List.not_mem_nil
        · intro value h
          obtain ⟨old, hold, rfl⟩ := mem_normalized h
          rw [normalizeEntry_items]
          exact ih old (Value.sizeOf_lt_of_mem_entries hold)
        · intro value h hobject
          obtain ⟨old, hold, rfl⟩ := mem_normalized h
          rw [normalizeEntry_additionalProperties] at hobject ⊢
          split
          · exact ih old (Value.sizeOf_lt_of_mem_entries hold)
          · next hnot =>
            rw [if_neg hnot] at hobject
            exact absurd hobject hnot
        · intro key value hkey h
          obtain ⟨old, -, rfl⟩ := mem_normalized h
          rw [normalizeEntry_alternatives old hkey]
          rfl
        · intro key items item hkey h hmem hobject
          obtain ⟨old, hold, heq⟩ := mem_normalized h
          rw [normalizeEntry_alternatives old hkey] at heq
          cases old with
          | array entries =>
              obtain rfl := Value.array.inj heq
              obtain ⟨entry, hentry, rfl⟩ := List.mem_map.mp hmem
              split
              · exact ih entry ((Value.sizeOf_lt_of_mem_array hentry).trans
                  (Value.sizeOf_lt_of_mem_entries hold))
              · next hnot =>
                rw [if_neg hnot] at hobject
                exact absurd hobject hnot
          | null | bool | number | string | object =>
              obtain rfl := Value.array.inj heq
              exact absurd hmem List.not_mem_nil

/-- **A schema is left as it is.** -/
theorem normalizeSchemaNode_eq_self {value : Value} (h : WellFormed value) :
    normalizeSchemaNode value = value := by
  induction h with
  | @object map properties property required requiredItem items additionalProperties alternatives
      alternative ihProperty ihItems ihAdditional ihAlternative =>
    rw [normalizeSchemaNode_object]
    congr 1
    refine (List.map_congr_left fun entry hentry => ?_).trans (List.map_id _)
    obtain ⟨key, value⟩ := entry
    refine Prod.ext rfl ?_
    show normalizeEntry key value = value
    by_cases hproperties : key = "properties"
    · subst hproperties
      obtain ⟨entries, rfl⟩ := Value.eq_object_of_isObject (properties value hentry)
      rw [normalizeEntry_properties]
      refine congrArg Value.object ((List.map_congr_left fun p hp => ?_).trans (List.map_id _))
      exact Prod.ext rfl (ihProperty entries p.1 p.2 hentry hp)
    by_cases hrequired : key = "required"
    · subst hrequired
      obtain ⟨items', rfl⟩ := Value.eq_array_of_isArray (required value hentry)
      rw [normalizeEntry_required]
      exact congrArg Value.array
        (List.filter_eq_self.mpr fun item hitem => requiredItem items' item hentry hitem)
    by_cases hitems : key = "items"
    · subst hitems
      exact ihItems value hentry
    by_cases hadditional : key = "additionalProperties"
    · subst hadditional
      rw [normalizeEntry_additionalProperties]
      split
      · next hobject => exact ihAdditional value hentry hobject
      · rfl
    by_cases halternatives : IsAlternatives key
    · obtain ⟨entries, rfl⟩ := Value.eq_array_of_isArray
        (alternatives key value halternatives hentry)
      rw [normalizeEntry_alternatives _ halternatives]
      refine congrArg Value.array ((List.map_congr_left fun item hitem => ?_).trans (List.map_id _))
      split
      · next hobject => exact ihAlternative key entries item halternatives hentry hitem hobject
      · rfl
    · unfold normalizeEntry
      rw [if_neg hproperties, if_neg hrequired, if_neg hitems, if_neg hadditional,
        if_neg halternatives]

/-! ## The schema of a tool -/

theorem lookup_insertEntry_self (key : Text) (value : Value) (map : List (Text × Value)) :
    (insertEntry key value map).lookup key = some value := by
  induction map with
  | nil => rw [insertEntry, List.lookup_cons_self]
  | cons entry map ih =>
      rw [insertEntry]
      split
      · rw [List.lookup_cons_self]
      · next hne =>
        split
        · rw [List.lookup_cons_self]
        · rw [List.lookup_cons, beq_false_of_ne hne]
          exact ih

theorem lookup_insertEntry_of_ne {key other : Text} (h : other ≠ key) (value : Value)
    (map : List (Text × Value)) :
    (insertEntry key value map).lookup other = map.lookup other := by
  induction map with
  | nil => rw [insertEntry, List.lookup_cons, beq_false_of_ne h]
  | cons entry map ih =>
      rw [insertEntry]
      split
      · next heq => rw [List.lookup_cons, List.lookup_cons, ← heq, beq_false_of_ne h]
      · split
        · rw [List.lookup_cons, beq_false_of_ne h]
        · rw [List.lookup_cons, List.lookup_cons, ih]

theorem lookup_normalized (map : List (Text × Value)) (key : Text) :
    (map.map fun entry => (entry.1, normalizeEntry entry.1 entry.2)).lookup key =
      (map.lookup key).map (normalizeEntry key) := by
  induction map with
  | nil => rfl
  | cons entry map ih =>
      rw [List.map_cons, List.lookup_cons, List.lookup_cons]
      cases hkey : key == entry.1 with
      | true =>
          obtain rfl := eq_of_beq hkey
          rfl
      | false => exact ih

/-- The two keys that every schema of a tool has. -/
structure HasObjectKeys (map : List (Text × Value)) : Prop where
  type : (Value.object map).get "type" = some (.string "object")
  properties : ∃ entries, (Value.object map).get "properties" = some (.object entries)

theorem toolSchema_normalizeSchemaNode {map : List (Text × Value)} (h : HasObjectKeys map) :
    ToolSchema (normalizeSchemaNode (.object map)) := by
  refine ⟨?_, ?_, wellFormed_normalizeSchemaNode _⟩
  · have htype : map.lookup ("type" : Text) = some (.string "object") := h.type
    rw [normalizeSchemaNode_object, Value.str, Value.get, lookup_normalized, htype]
    rfl
  · obtain ⟨entries, hentries⟩ := h.properties
    have hproperties : map.lookup ("properties" : Text) = some (.object entries) := hentries
    rw [normalizeSchemaNode_object, Value.get, lookup_normalized, hproperties]
    exact ⟨_, congrArg some (normalizeEntry_properties _)⟩

theorem eq_string_of_asStr {value : Value} {t : Text} (h : value.asStr = some t) :
    value = .string t := by
  cases value with
  | string s => exact congrArg Value.string (Option.some.inj h)
  | null | bool | number | array | object => cases h

theorem str_type_eq_iff {map : List (Text × Value)} :
    (Value.object map).str "type" = some "object" ↔
      (Value.object map).get "type" = some (.string "object") := by
  constructor
  · intro h
    obtain ⟨value, hvalue, hstr⟩ := Option.bind_eq_some_iff.mp h
    obtain rfl := eq_string_of_asStr hstr
    exact hvalue
  · intro h
    rw [Value.str, h]
    rfl

theorem any_isObject_iff {value : Option Value} :
    value.any Value.isObject = true ↔ ∃ entries, value = some (.object entries) := by
  constructor
  · intro h
    cases value with
    | none => cases h
    | some value =>
        obtain ⟨entries, rfl⟩ := Value.eq_object_of_isObject h
        exact ⟨entries, rfl⟩
  · rintro ⟨entries, rfl⟩
    rfl

/-- The two keys are put in where they are missing. -/
theorem exists_normalizeToolSchema (map : List (Text × Value)) : ∃ map', HasObjectKeys map' ∧
    normalizeToolSchema (.object map) = normalizeSchemaNode (.object map') ∧
      (HasObjectKeys map → map' = map) := by
  have hne : ("type" : Text) ≠ "properties" := by decide
  refine ⟨_, ?_, rfl, ?_⟩
  · have htype : ∀ map : List (Text × Value), (if (Value.object map).str "type" ≠ some "object" then
        insertEntry "type" (.string "object") map else map).lookup ("type" : Text) =
          some (.string "object") := by
      intro map
      split
      · exact lookup_insertEntry_self _ _ _
      · next h => exact str_type_eq_iff.mp (not_not.mp h)
    generalize hmap' : (if (Value.object map).str "type" ≠ some "object" then
      insertEntry "type" (.string "object") map else map) = map'
    have htype' := hmap' ▸ htype map
    split
    · exact ⟨(lookup_insertEntry_of_ne hne _ _).trans htype', [], lookup_insertEntry_self _ _ _⟩
    · next h => exact ⟨htype', any_isObject_iff.mp (by simpa using h)⟩
  · intro h
    have hkeep : (if (Value.object map).str "type" ≠ some "object" then
        insertEntry "type" (.string "object") map else map) = map :=
      if_neg (not_not_intro (str_type_eq_iff.mpr h.type))
    simp only [hkeep]
    refine if_neg ?_
    rw [any_isObject_iff.mpr h.properties]
    exact Bool.noConfusion

theorem toolSchema_normalizeToolSchema (schema : Value) :
    ToolSchema (normalizeToolSchema schema) := by
  cases schema with
  | object map =>
      obtain ⟨map', hkeys, heq, -⟩ := exists_normalizeToolSchema map
      rw [heq]
      exact toolSchema_normalizeSchemaNode hkeys
  | null | bool | number | string | array => exact ⟨rfl, ⟨[], rfl⟩, wellFormed_defaultToolSchema⟩

theorem normalizeToolSchema_eq_self {schema : Value} (h : ToolSchema schema) :
    normalizeToolSchema schema = schema := by
  cases schema with
  | object map =>
      obtain ⟨map', -, heq, hkeep⟩ := exists_normalizeToolSchema map
      rw [heq, hkeep ⟨str_type_eq_iff.mp h.type, h.properties⟩]
      exact normalizeSchemaNode_eq_self h.wellFormed
  | null | bool | number | string | array => cases h.wellFormed

/-- **Any value is made into a schema of a tool**, and just the schemas of tools are left as they
are. -/
theorem normalizeToolSchema_wellFormed (schema : Value) :
    ToolSchema (normalizeToolSchema schema) ∧
      normalizeToolSchema (normalizeToolSchema schema) = normalizeToolSchema schema ∧
        (normalizeToolSchema schema = schema ↔ ToolSchema schema) := by
  have hschema := toolSchema_normalizeToolSchema schema
  exact ⟨hschema, normalizeToolSchema_eq_self hschema, fun heq => heq ▸ hschema,
    normalizeToolSchema_eq_self⟩

end OpenaiCodex
end Providers
end SimpleClaw
