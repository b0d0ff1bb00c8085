import SimpleClaw.Lib.JsonText
import SimpleClaw.Lib.LazyMatch
import SimpleClaw.Providers.Json

/-!
# Values as they are written

A value is written without white space.  Its strings and keys are literals, and everything else is
numerals, words and punctuation.

* `Value.compact`: the text of a value.
* `Value.atoms`: the parts of a value that have no parts themselves, keys as strings.
* `Value.quoted_compact`: every `<` of the text is in a literal.
* `Value.occursIn_compact_iff`: two tags occur in the text if they occur in one of the strings, with
  white space between them that is not escaped.
* `SerdeJson.WritesCompact`: what is documented of values and their texts.
-/

namespace SimpleClaw
namespace Providers

open JsonText (isPlain escape literal Quoted EndsInLiteral)

namespace Value

mutual

/-- `to_string`. -/
def compact : Value → Text
  | .null => "null"
  | .bool true => "true"
  | .bool false => "false"
  | .number numeral => numeral
  | .string s => literal s
  | .array items => '[' :: (Text.joinWith ',' (compactItems items) ++ [']'])
  | .object entries => '\x7b' :: (Text.joinWith ',' (compactEntries entries) ++ ['\x7d'])

def compactItems : List Value → List Text
  | [] => []
  | v :: items => v.compact :: compactItems items

def compactEntries : List (Text × Value) → List Text
  | [] => []
  | (key, v) :: entries => (literal key ++ ':' :: v.compact) :: compactEntries entries

end

mutual

/-- The parts without parts.  A key counts as a string. -/
def atoms : Value → List Value
  | .array items => atomsOfItems items
  | .object entries => atomsOfEntries entries
  | .null => [.null]
  | .bool b => [.bool b]
  | .number numeral => [.number numeral]
  | .string s => [.string s]

def atomsOfItems : List Value → List Value
  | [] => []
  | v :: items => v.atoms ++ atomsOfItems items

def atomsOfEntries : List (Text × Value) → List Value
  | [] => []
  | (key, v) :: entries => .string key :: (v.atoms ++ atomsOfEntries entries)

end

theorem compactItems_eq_map (items : List Value) : compactItems items = items.map compact := by
  induction items with
  | nil => rfl
  | cons v items ih => rw [compactItems, ih, List.map_cons]

theorem compactEntries_eq_map (entries : List (Text × Value)) :
    compactEntries entries = entries.map fun e => literal e.1 ++ ':' :: e.2.compact := by
  induction entries with
  | nil => rfl
  | cons e entries ih => rw [compactEntries, ih, List.map_cons]

theorem mem_atomsOfItems {atom : Value} {items : List Value} :
    atom ∈ atomsOfItems items ↔ ∃ v ∈ items, atom ∈ v.atoms := by
  induction items with
  | nil => simp [atomsOfItems]
  | cons v items ih => simp [atomsOfItems, ih]

theorem mem_atomsOfEntries {atom : Value} {entries : List (Text × Value)} :
    atom ∈ atomsOfEntries entries ↔ ∃ e ∈ entries, atom = .string e.1 ∨ atom ∈ e.2.atoms := by
  induction entries with
  | nil => simp [atomsOfEntries]
  | cons e entries ih => simp [atomsOfEntries, ih, or_assoc]

/-- A value is an atom, or a list of values, or a list of values with keys. -/
theorem induction {P : Value → Prop} (null : P .null) (bool : ∀ b, P (.bool b))
    (number : ∀ numeral, P (.number numeral)) (string : ∀ s, P (.string s))
    (array : ∀ items, (∀ v ∈ items, P v) → P (.array items))
    (object : ∀ entries, (∀ e ∈ entries, P e.2) → P (.object entries)) (v : Value) : P v :=
  Value.rec (motive_1 := P) (motive_2 := fun items => ∀ v ∈ items, P v)
    (motive_3 := fun entries => ∀ e ∈ entries, P e.2) (motive_4 := fun e => P e.2)
    null bool number string array object (fun _ h => by cases h)
    (fun _ _ hv hitems => List.forall_mem_cons.mpr ⟨hv, hitems⟩) (fun _ h => by cases h)
    (fun _ _ he hentries => List.forall_mem_cons.mpr ⟨he, hentries⟩) (fun _ _ hv => hv) v

/-! ## Numerals -/

/-- The characters of numerals. -/
def isNumeralChar (c : Char) : Bool := c.isDigit || "+-.eE".toList.contains c

theorem isWhiteSpace_of_isNumeralChar {c : Char} (h : isNumeralChar c = true) :
    Text.isWhiteSpace c = false := by
  rw [isNumeralChar, Bool.or_eq_true] at h
  obtain h | h := h
  · have hrange : 48 ≤ c.toNat ∧ c.toNat ≤ 57 := by
      simpa [Char.isDigit, UInt32.le_iff_toNat_le] using h
    simp only [Text.isWhiteSpace, Bool.or_eq_false_iff, Bool.and_eq_false_iff,
      decide_eq_false_iff_not, beq_eq_false_iff_ne]
    omega
  · have hsigns : ∀ d ∈ "+-.eE".toList, Text.isWhiteSpace d = false :=
      Text.forall_mem_of_all (by decide)
    exact hsigns c (List.contains_iff_mem.mp h)

/-- The numbers of the value are numerals. -/
def HasNumerals (v : Value) : Prop := ∀ numeral, .number numeral ∈ v.atoms →
  ∀ c ∈ numeral, isNumeralChar c = true

theorem HasNumerals.of_mem {items : List Value} (h : (Value.array items).HasNumerals) {v : Value}
    (hv : v ∈ items) : v.HasNumerals :=
  fun numeral hmem => h numeral (mem_atomsOfItems.mpr ⟨v, hv, hmem⟩)

theorem HasNumerals.of_mem_entries {entries : List (Text × Value)}
    (h : (Value.object entries).HasNumerals) {e : Text × Value} (he : e ∈ entries) :
    e.2.HasNumerals :=
  fun numeral hmem => h numeral (mem_atomsOfEntries.mpr ⟨e, he, .inr hmem⟩)

theorem HasNumerals.notMem {numeral : Text} (h : (Value.number numeral).HasNumerals) {c : Char}
    (hc : isNumeralChar c = false) : c ∉ numeral := fun hmem => by
  have := h numeral (List.mem_singleton_self _) c hmem
  rw [hc] at this
  cases this

/-! ## The text of a value -/

theorem quoted_punctuation {c : Char} (hquote : c ≠ '"') (hopen : c ≠ '<') : Quoted [c] :=
  .of_notMem (by simp [hquote.symm]) (by simp [hopen.symm])

theorem quoted_bracketed {c d : Char} (hc : Quoted [c]) (hd : Quoted [d]) {t : Text}
    (ht : Quoted t) : Quoted (c :: (t ++ [d])) := by
  rw [← List.singleton_append]
  exact hc.append (ht.append hd)

/-- **Every `<` of the text is in a literal.** -/
theorem quoted_compact {v : Value} (h : v.HasNumerals) : Quoted v.compact := by
  induction v using Value.induction with
  | null => exact .of_notMem (by decide) (by decide)
  | bool b => cases b <;> exact .of_notMem (by decide) (by decide)
  | number numeral => exact .of_notMem (h.notMem (by decide)) (h.notMem (by decide))
  | string s => exact .literal s
  | array items ih =>
      rw [compact, compactItems_eq_map]
      refine quoted_bracketed (quoted_punctuation (by decide) (by decide))
        (quoted_punctuation (by decide) (by decide)) (.joinWith (by decide) ?_)
      intro t ht
      obtain ⟨v, hv, rfl⟩ := List.mem_map.mp ht
      exact ih v hv (h.of_mem hv)
  | object entries ih =>
      rw [compact, compactEntries_eq_map]
      refine quoted_bracketed (quoted_punctuation (by decide) (by decide))
        (quoted_punctuation (by decide) (by decide)) (.joinWith (by decide) ?_)
      intro t ht
      obtain ⟨e, he, rfl⟩ := List.mem_map.mp ht
      rw [List.append_cons]
      exact ((Quoted.literal e.1).append (quoted_punctuation (by decide) (by decide))).append
        (ih e he (h.of_mem_entries he))

/-- **There is no white space around the text.** -/
theorem trim_compact {v : Value} (h : v.HasNumerals) : Text.trim v.compact = v.compact := by
  cases v with
  | null => decide
  | bool b => cases b <;> decide
  | number numeral =>
      exact Text.trim_of_forall_not fun c hc =>
        isWhiteSpace_of_isNumeralChar (h numeral (List.mem_singleton_self _) c hc)
  | string s => exact Text.trim_cons_concat (by decide) (by decide) _
  | array items => exact Text.trim_cons_concat (by decide) (by decide) _
  | object entries => exact Text.trim_cons_concat (by decide) (by decide) _

/-- A string is quoted in the text. -/
theorem literal_infix_compact {s : Text} {v : Value} (h : .string s ∈ v.atoms) :
    literal s <:+: v.compact := by
  induction v using Value.induction with
  | null | bool | number => simp [atoms] at h
  | string t =>
      simp only [atoms, List.mem_singleton, string.injEq] at h
      rw [h, compact]
  | array items ih =>
      obtain ⟨v, hv, hmem⟩ := mem_atomsOfItems.mp h
      rw [compact, compactItems_eq_map]
      have hjoin := (ih v hv hmem).trans (Text.infix_joinWith_of_mem ',' (List.mem_map_of_mem hv))
      exact List.infix_cons (hjoin.trans (List.prefix_append _ _).isInfix)
  | object entries ih =>
      obtain ⟨e, he, hmem⟩ := mem_atomsOfEntries.mp h
      rw [compact, compactEntries_eq_map]
      have hentry : literal s <:+: literal e.1 ++ ':' :: e.2.compact := by
        obtain heq | hmem := hmem
        · rw [Value.string.inj heq]
          exact (List.prefix_append _ _).isInfix
        · exact (ih e he hmem).trans
            ((List.suffix_cons _ _).trans (List.suffix_append _ _)).isInfix
      have hjoin := hentry.trans (Text.infix_joinWith_of_mem ','
        (List.mem_map_of_mem (f := fun e => literal e.1 ++ ':' :: e.2.compact) he))
      exact List.infix_cons (hjoin.trans (List.prefix_append _ _).isInfix)

/-- What stands outside the atoms, with the quotation mark. -/
def punctuation : Text := ['"', ',', ':', '[', ']', '\x7b', '\x7d']

theorem infix_of_infix_bracketed {c d : Char} {x t : Text} (hc : c ∉ x) (hd : d ∉ x) (hx : x ≠ [])
    (h : x <:+: c :: (t ++ [d])) : x <:+: t := by
  have hnil : ¬ Text.contains [] x = true := fun hin =>
    hx (List.infix_nil.mp (Text.contains_iff.mp hin))
  obtain hin | hin := Text.contains_append_cons (s := []) hc (Text.contains_iff.mpr h)
  · exact absurd hin hnil
  · obtain hin | hin := Text.contains_append_cons hd hin
    · exact Text.contains_iff.mp hin
    · exact absurd hin hnil

/-- **What begins with `<` and has no punctuation is found in the text only if it is in one of the
strings.** -/
theorem exists_string_of_infix {x : Text} (hopen : '<' ∈ x) (hx : ∀ c ∈ punctuation, c ∉ x)
    {v : Value} (hv : v.HasNumerals) (h : x <:+: v.compact) :
    ∃ s, .string s ∈ v.atoms ∧ x <:+: escape s := by
  have hne : x ≠ [] := List.ne_nil_of_mem hopen
  have hliteral : ∀ s, x <:+: literal s → x <:+: escape s := fun s =>
    infix_of_infix_bracketed (hx _ (by decide)) (hx _ (by decide)) hne
  induction v using Value.induction with
  | null => exact absurd (h.subset hopen) (by decide)
  | bool b => cases b <;> exact absurd (h.subset hopen) (by decide)
  | number numeral => exact absurd (h.subset hopen) (hv.notMem (by decide))
  | string s => exact ⟨s, List.mem_singleton_self _, hliteral s h⟩
  | array items ih =>
      rw [compact, compactItems_eq_map] at h
      obtain ⟨t, ht, hin⟩ := Text.exists_infix_of_infix_joinWith (hx _ (by decide)) hne
        (infix_of_infix_bracketed (hx _ (by decide)) (hx _ (by decide)) hne h)
      obtain ⟨v, hmem, rfl⟩ := List.mem_map.mp ht
      obtain ⟨s, hs, hin⟩ := ih v hmem (hv.of_mem hmem) hin
      exact ⟨s, mem_atomsOfItems.mpr ⟨v, hmem, hs⟩, hin⟩
  | object entries ih =>
      rw [compact, compactEntries_eq_map] at h
      obtain ⟨t, ht, hin⟩ := Text.exists_infix_of_infix_joinWith (hx _ (by decide)) hne
        (infix_of_infix_bracketed (hx _ (by decide)) (hx _ (by decide)) hne h)
      obtain ⟨e, he, rfl⟩ := List.mem_map.mp ht
      obtain hin | hin := Text.contains_append_cons (hx ':' (by decide)) (Text.contains_iff.mpr hin)
      · exact ⟨e.1, mem_atomsOfEntries.mpr ⟨e, he, .inl rfl⟩, hliteral _ (Text.contains_iff.mp hin)⟩
      · obtain ⟨s, hs, hin⟩ := ih e he (hv.of_mem_entries he) (Text.contains_iff.mp hin)
        exact ⟨s, mem_atomsOfEntries.mpr ⟨e, he, .inr hs⟩, hin⟩

/-! ## Tags in the text of a value -/

/-- White space that is not escaped. -/
def plainBlank (c : Char) : Bool := Text.isWhiteSpace c && isPlain c

theorem plainBlank_eq_true {c : Char} :
    plainBlank c = true ↔ Text.isWhiteSpace c = true ∧ isPlain c = true := Bool.and_eq_true_iff

/-- **Two tags occur in the text if they occur in one of the strings**, with white space between
them that is not escaped. -/
theorem occursIn_compact_iff {pair : TagPair}
    (hplain : ∀ c ∈ pair.first ++ pair.second, isPlain c = true ∧ c ∉ punctuation) {v : Value}
    (hv : v.HasNumerals) :
    pair.OccursIn Text.isWhiteSpace v.compact ↔
      ∃ s, .string s ∈ v.atoms ∧ pair.OccursIn plainBlank s := by
  obtain ⟨body, hfirst, -⟩ := pair.first_isTag.exists_eq
  constructor
  · rintro ⟨ws, hws, hin⟩
    have hfree : ∀ c ∈ pair.first ++ (ws ++ pair.second), c ≠ '\\' ∧ c ∉ punctuation := by
      intro c hc
      obtain htag | hblank := pair.mem_cases hc
      · obtain ⟨hc, hpunctuation⟩ := hplain c htag
        refine ⟨?_, hpunctuation⟩
        rintro rfl
        exact absurd hc (by decide)
      · have hpunctuation : ∀ d ∈ '\\' :: punctuation, Text.isWhiteSpace d = false :=
          Text.forall_mem_of_all (by decide)
        have hnot : c ∉ '\\' :: punctuation := fun hmem =>
          absurd ((hpunctuation c hmem).symm.trans (hws c hblank)) Bool.false_ne_true
        exact ⟨fun heq => hnot (heq ▸ List.mem_cons_self),
          fun hmem => hnot (List.mem_cons_of_mem _ hmem)⟩
    have hopen : '<' ∈ pair.first ++ (ws ++ pair.second) := by simp [hfirst]
    obtain ⟨s, hs, hin⟩ := exists_string_of_infix hopen
      (fun c hc hmem => (hfree c hmem).2 hc) hv hin
    rw [hfirst, List.cons_append] at hin
    obtain ⟨hfound, hall⟩ := JsonText.infix_of_infix_escape
      (fun hmem => (hfree _ (by rw [hfirst]; exact List.mem_cons_of_mem _ hmem)).1 rfl) hin
    exact ⟨s, hs, ws, fun c hc => plainBlank_eq_true.mpr ⟨hws c hc, hall c (by simp [hc])⟩,
      by rwa [hfirst]⟩
  · rintro ⟨s, hs, ws, hws, hin⟩
    have hall : ∀ c ∈ pair.first ++ (ws ++ pair.second), isPlain c = true := by
      intro c hc
      obtain htag | hblank := pair.mem_cases hc
      · exact (hplain c htag).1
      · exact (plainBlank_eq_true.mp (hws c hblank)).2
    have hliteral : escape s <:+: literal s := List.infix_cons (List.prefix_append _ _).isInfix
    exact ⟨ws, fun c hc => (plainBlank_eq_true.mp (hws c hc)).1,
      (JsonText.infix_escape_of_infix hall hin).trans (hliteral.trans (literal_infix_compact hs))⟩

end Value

/-- Values are written without white space.  What is read has numerals for numbers, and its string
literals are closed. -/
structure SerdeJson.WritesCompact (json : SerdeJson) : Prop where
  toString : ∀ v, json.toString v = v.compact
  empty : json.fromStr "\x7b\x7d" = .ok (.object [])
  numerals : ∀ t v, json.fromStr t = .ok v → v.HasNumerals
  closed : ∀ t v, json.fromStr t = .ok v → ¬ EndsInLiteral t

/-- **The text of a value that is cut in front of a `<` is not read.** -/
theorem SerdeJson.WritesCompact.fromStr_cut_ne {json : SerdeJson} (hjson : json.WritesCompact)
    {v : Value} (hv : v.HasNumerals) {p q : Text} (h : v.compact = p ++ '<' :: q) (v' : Value) :
    json.fromStr (Text.trim p) ≠ .ok v' := fun hread =>
  hjson.closed _ v' hread ((Value.quoted_compact hv).inLiteral p q h).trim

end Providers
end SimpleClaw
