import SimpleClaw.Telemetry.BearerWords

/-!
# Which secrets are redacted

A secret stands behind a key, a separator and a gap of blanks, and behind `authorization` the gap
may have the word `Bearer` in it.  In a text that is not JSON the scans remove it where nothing but
`Bearer` stands between the separator and it, where it is the token of a `Bearer` that a blank
stands on each side of, or one of an `authorization` that is scanned with its `Bearer`; anywhere
else it is left, unless a key within it cuts it.  In JSON a string is redacted for the keys of the
objects around it, whatever is in the string.

* `Fragment`: a key, a separator, a gap and a secret.
* `Fragment.Removed`: when the scans remove it, with `survives_fragment_iff`.
* `follow`: the keys on the way to a place in a value, with `follow_redactJsonValue`.
* `redactSensitiveValues_removes_iff`: the two together.
-/

namespace SimpleClaw
namespace Telemetry

open Text Providers

/-! ## Fragments -/

/-- A sensitive key, a separator, blanks, for `authorization` maybe the word `Bearer` and further
blanks, and a secret. -/
structure Fragment where
  key : Text
  separator : Char
  blanks : Nat
  scheme : Option (Text × Nat)
  secret : Text
  key_mem : toAsciiLowercase key ∈ sensitiveKeys
  separator_mem : separator ∈ ['=', ':']
  scheme_eq : ∀ s, scheme = some s →
    toAsciiLowercase key = "authorization".toList ∧ toAsciiLowercase s.1 = "bearer".toList
  secret_ne : secret ≠ []
  secret_word : IsWord secret

namespace Fragment

variable (f : Fragment)

/-- What is between the separator and the secret. -/
def gap : Text :=
  List.replicate f.blanks ' ' ++
    match f.scheme with
    | none => []
    | some (word, blanks) => word ++ List.replicate blanks ' '

/-- The fragment without its secret. -/
def lead : Text := f.key ++ f.separator :: f.gap

/-- What is between the last blank and the secret. -/
def front : Text :=
  match f.scheme with
  | some (word, 0) => word
  | some (_, _ + 1) => []
  | none => []

end Fragment

/-- The scan for `authorization` and the separator. -/
def authorizationPass (separator : Char) : Pass := ⟨"authorization".toList ++ [separator], true⟩

/-- The scans before that one. -/
def passesBefore (separator : Char) : List Pass :=
  passes.takeWhile fun pass => decide (pass.needle ≠ (authorizationPass separator).needle)

/-- A scan that takes bearer tokens is one for `authorization`. -/
theorem authorization_of_takesBearer : ∀ pass ∈ passes, pass.takesBearer = true →
    ∃ sep ∈ ['=', ':'], pass = authorizationPass sep := by
  have hall : ∀ pass ∈ passes, pass.takesBearer = true →
      pass = authorizationPass '=' ∨ pass = authorizationPass ':' := by decide
  intro pass hpass htakes
  obtain h | h := hall pass hpass htakes
  · exact ⟨'=', List.mem_cons_self, h⟩
  · exact ⟨':', List.mem_cons_of_mem _ List.mem_cons_self, h⟩

/-- The scan is one of the scans, behind those before it. -/
theorem exists_passes_eq {sep : Char} (hsep : sep ∈ ['=', ':']) :
    ∃ later, passes = passesBefore sep ++ authorizationPass sep :: later := by
  have hall : ∀ sep ∈ ['=', ':'], passes = passesBefore sep ++ authorizationPass sep ::
      passes.drop ((passesBefore sep).length + 1) := forall_mem_of_all (by decide)
  exact ⟨_, hall sep hsep⟩

/-- The scan for `authorization` and the separator takes the word behind the text. -/
def TakesNext (separator : Char) (text : Text) : Prop :=
  armedAfter (fun p => joins ((passesBefore separator).map Pass.needle)
    (authorizationPass separator) (textOf id p)) (spaced id) false
    (leftByAll id [] (passesBefore separator) (words id text)) = true

/-- The scans remove the secret of the fragment, or a part of it. -/
def Fragment.Removed (f : Fragment) (before : Text) : Prop :=
  ' ' ∉ f.gap ∨
    (∃ n < (f.front ++ f.secret).length, EndsIn needles ((f.front ++ f.secret).take n)) ∨
    ∃ word, f.scheme = some (word, 1) ∧
      (f.blanks ≠ 0 ∨ TakesNext f.separator (before ++ (f.key ++ f.separator :: word)))

/-! ## The words of a fragment -/

theorem words_append_blank (text : Text) {front : Text} (hfront : IsWord front) :
    words id (text ++ ' ' :: front) = words id text ++ [⟨some ' ', front⟩] := by
  have hblank : isEnd (id : Char → Char) ' ' = true := by decide
  have hword : ∀ c ∈ front, isEnd (id : Char → Char) c = false := hfront
  rw [words, Chunk.split_append_cons hblank, Chunk.split_of_forall_not hword]
  rfl

theorem words_append_word (text : Text) {word : Text} (hword : IsWord word) :
    ∃ before last, words id text = before ++ [last] ∧
      words id (text ++ word) = before ++ [{ last with word := last.word ++ word }] :=
  Chunk.split_append (fun c hc => hword c hc) none text

/-- Words are settled whose text does not end as `bearer` does. -/
theorem settled_words_concat (text : Text) {c : Char} (hc : c.toLower ≠ 'r') (done : List Text) :
    Settled id done (words id (text ++ [c])) := by
  obtain ⟨before, last, hwords⟩ := (List.eq_nil_or_concat' (words id (text ++ [c]))).resolve_left
    (Chunk.split_ne_nil _ _ _)
  rw [hwords, settled_concat]
  intro hsuffix
  have hjoin : Chunk.join (words id (text ++ [c])) = text ++ [c] := join_words _
  rw [hwords, Chunk.join_append] at hjoin
  have hlast : last.word <:+ text ++ [c] := by
    rw [← hjoin]
    refine List.IsSuffix.trans ?_ (List.suffix_append _ _)
    rw [Chunk.join_cons, Chunk.join_nil, List.append_nil]
    exact List.suffix_append _ _
  rw [textOf, List.map_id] at hsuffix
  have hall : ("bearer" : Text) <:+ toAsciiLowercase text ++ [c.toLower] :=
    hsuffix.trans (by rw [← List.map_singleton, ← toAsciiLowercase, ← toAsciiLowercase_append]
                      exact hlast.map _)
  obtain hnil | ⟨front, hbearer, -⟩ := List.suffix_concat_iff.mp hall
  · cases hnil
  · have hr : ("bearer" : Text) = "beare".toList ++ ['r'] := rfl
    rw [hr] at hbearer
    exact absurd (List.singleton_injective (List.append_inj_right' hbearer rfl)).symm hc

namespace Fragment

variable (f : Fragment)

theorem key_word : IsWord f.key := by
  have hall : ∀ key ∈ sensitiveKeys, IsWord key := by decide
  exact isWord_toAsciiLowercase.mp (hall _ f.key_mem)

theorem separator_word : IsWord [f.separator] := by
  have hall : ∀ sep ∈ ['=', ':'], IsWord [sep] := forall_mem_of_all (by decide)
  exact hall _ f.separator_mem

theorem separator_toLower : f.separator.toLower = f.separator ∧ f.separator ≠ 'r' := by
  have hall : ∀ sep ∈ ['=', ':'], sep.toLower = sep ∧ sep ≠ 'r' :=
    forall_mem_of_all (by decide)
  exact hall _ f.separator_mem

theorem scheme_word {word : Text} {blanks : Nat} (h : f.scheme = some (word, blanks)) :
    IsWord word := by
  have hbearer : IsWord "bearer" := by decide
  exact isWord_toAsciiLowercase.mp ((f.scheme_eq _ h).2 ▸ hbearer)

/-- The key and the separator are a needle. -/
theorem endsIn_needles (text : Text) : EndsIn needles (text ++ (f.key ++ [f.separator])) := by
  have hall : ∀ key ∈ sensitiveKeys,
      ['=', ':'].all (fun sep => decide (key ++ [sep] ∈ needles)) = true := by decide
  refine ⟨_, forall_mem_of_all (hall _ f.key_mem) _ f.separator_mem, ?_⟩
  rw [toAsciiLowercase_append, toAsciiLowercase_append]
  refine List.IsSuffix.trans ?_ (List.suffix_append _ _)
  rw [show toAsciiLowercase [f.separator] = [f.separator.toLower] from rfl, f.separator_toLower.1]

theorem mem_gap {c : Char} (h : c ∈ f.gap) : c = ' ' ∨ isSecretValueTerminator c = false := by
  rw [gap] at h
  obtain h | h := List.mem_append.mp h
  · exact .inl (List.mem_replicate.mp h).2
  · cases hscheme : f.scheme with
    | none =>
        rw [hscheme] at h
        cases h
    | some scheme =>
        obtain ⟨word, blanks⟩ := scheme
        rw [hscheme] at h
        obtain h | h := List.mem_append.mp h
        · exact .inr (f.scheme_word hscheme c h)
        · exact .inl (List.mem_replicate.mp h).2

/-- The key and the separator are in one word with what is directly behind them. -/
theorem isWord_key_append {t : Text} (ht : IsWord t) : IsWord (f.key ++ f.separator :: t) := by
  intro c hc
  obtain hc | hc := List.mem_append.mp hc
  · exact f.key_word c hc
  · obtain rfl | hc := List.mem_cons.mp hc
    · exact f.separator_word _ List.mem_cons_self
    · exact ht c hc

/-- A gap without a blank is in the word of the key. -/
theorem gap_word (h : ' ' ∉ f.gap) : IsWord f.gap := by
  intro c hc
  exact (f.mem_gap hc).resolve_left fun heq => h (heq ▸ hc)

theorem front_word : IsWord f.front := by
  rw [front]
  split
  · next hscheme => exact f.scheme_word hscheme
  · exact fun c hc => by cases hc
  · exact fun c hc => by cases hc

/-- Blanks are none, or end with one. -/
theorem replicate_cases (n : Nat) : List.replicate n ' ' = [] ∨
    ∃ t, List.replicate n ' ' = t ++ [' '] := by
  cases n with
  | zero => exact .inl rfl
  | succ n => exact .inr ⟨List.replicate n ' ', List.replicate_succ'⟩

/-- **What is before the last blank of the gap**: nothing, something that ends with a blank, or the
word `Bearer` behind the first blanks. -/
theorem exists_gap_eq (h : ' ' ∈ f.gap) : ∃ t, f.gap = t ++ ' ' :: f.front ∧
    (((t = [] ∨ ∃ t', t = t' ++ [' ']) ∧ ∀ word, f.scheme ≠ some (word, 1)) ∨
      ∃ word, f.scheme = some (word, 1) ∧ t = List.replicate f.blanks ' ' ++ word) := by
  have hblanks {front : Text} (hfront : ' ' ∉ front)
      (hgap : f.gap = List.replicate f.blanks ' ' ++ front) :
      ∃ n, f.gap = List.replicate n ' ' ++ ' ' :: front := by
    rw [hgap] at h
    obtain h | h := List.mem_append.mp h
    · obtain ⟨n, hn⟩ := Nat.exists_eq_succ_of_ne_zero (List.mem_replicate.mp h).1
      exact ⟨n, by rw [hgap, hn, Nat.succ_eq_add_one, List.replicate_succ', List.append_assoc]; rfl⟩
    · exact absurd h hfront
  rw [front]
  cases hscheme : f.scheme with
  | none =>
      have hempty : ' ' ∉ ([] : Text) := by simp
      obtain ⟨n, hn⟩ := hblanks hempty (by rw [gap, hscheme])
      exact ⟨_, hn, .inl ⟨replicate_cases n, fun word hword => by cases hword⟩⟩
  | some scheme =>
      obtain ⟨word, blanks⟩ := scheme
      have hgap : f.gap = List.replicate f.blanks ' ' ++ (word ++ List.replicate blanks ' ') := by
        rw [gap, hscheme]
      cases blanks with
      | zero =>
          have hword : ' ' ∉ word := (f.scheme_word hscheme).notMem (by decide)
          obtain ⟨n, hn⟩ := hblanks hword (by rw [hgap, List.replicate_zero, List.append_nil])
          exact ⟨_, hn, .inl ⟨replicate_cases n, fun word hword => by cases hword⟩⟩
      | succ n =>
          refine ⟨List.replicate f.blanks ' ' ++ (word ++ List.replicate n ' '), ?_, ?_⟩
          · rw [hgap, List.replicate_succ', List.append_assoc, List.append_assoc]
          · cases n with
            | zero => exact .inr ⟨word, rfl, by rw [List.replicate_zero, List.append_nil]⟩
            | succ n =>
                refine .inl ⟨.inr
                  ⟨List.replicate f.blanks ' ' ++ (word ++ List.replicate n ' '), ?_⟩,
                  fun word hword => by cases hword⟩
                rw [List.replicate_succ', List.append_assoc, List.append_assoc]

/-! ## Secrets that are removed -/

/-- Blanks behind the separator leave nothing to be taken. -/
theorem settled_words_lead (before t : Text) (ht : t = [] ∨ ∃ t', t = t' ++ [' ']) :
    Settled id [] (words id (before ++ (f.key ++ f.separator :: t))) := by
  obtain rfl | ⟨t', rfl⟩ := ht
  · have hsep : f.separator.toLower ≠ 'r' := by
      rw [f.separator_toLower.1]
      exact f.separator_toLower.2
    rw [← List.append_assoc]
    exact settled_words_concat (before ++ f.key) hsep []
  · have hsplit : before ++ (f.key ++ f.separator :: (t' ++ [' '])) =
        (before ++ (f.key ++ f.separator :: t')) ++ [' '] := by simp
    rw [hsplit]
    exact settled_words_concat _ (by decide) []

/-- Behind the word `Bearer` between blanks the secret is taken. -/
theorem takenBy_of_blanks {word : Text} (hscheme : f.scheme = some (word, 1))
    (hblanks : f.blanks ≠ 0) (before : Text) :
    TakenBy id [] passes (words id (before ++ (f.key ++ f.separator ::
      (List.replicate f.blanks ' ' ++ word)))) := by
  obtain ⟨n, hn⟩ := Nat.exists_eq_succ_of_ne_zero hblanks
  have hsplit : before ++ (f.key ++ f.separator :: (List.replicate f.blanks ' ' ++ word)) =
      (before ++ (f.key ++ f.separator :: List.replicate n ' ')) ++ ' ' :: word := by
    rw [hn, Nat.succ_eq_add_one, List.replicate_succ']
    simp
  rw [hsplit, words_append_blank _ (f.scheme_word hscheme)]
  refine takenBy_concat_bearer passes isNeedle_of_mem_passes [] (fun _ h => by cases h)
    (f.settled_words_lead before _ (replicate_cases n)) ?_
  rw [textOf, List.map_id]
  exact (f.scheme_eq _ hscheme).2

/-- Behind a key, a separator and `Bearer` in one word, the scan for the key decides. -/
theorem takenBy_iff_takesNext {word : Text} (hscheme : f.scheme = some (word, 1)) (before : Text) :
    TakenBy id [] passes (words id (before ++ (f.key ++ f.separator :: word))) ↔
      TakesNext f.separator (before ++ (f.key ++ f.separator :: word)) := by
  obtain ⟨hkey, hbearer⟩ : toAsciiLowercase f.key = "authorization".toList ∧
      toAsciiLowercase word = "bearer".toList := f.scheme_eq _ hscheme
  obtain ⟨front, last, -, hwords⟩ :=
    words_append_word before (f.isWord_key_append (f.scheme_word hscheme))
  let q : Chunk Char := { last with word := last.word ++ (f.key ++ f.separator :: word) }
  have hq : textOf id q = (last.word ++ (f.key ++ [f.separator])) ++ word := by
    simp [q, textOf]
  have hneedle : toAsciiLowercase (f.key ++ [f.separator]) =
      (authorizationPass f.separator).needle := by
    rw [toAsciiLowercase_append, hkey,
      show toAsciiLowercase [f.separator] = [f.separator.toLower] from rfl, f.separator_toLower.1]
    rfl
  obtain ⟨later, hpasses⟩ := exists_passes_eq f.separator_mem
  rw [hwords, TakesNext, hwords]
  conv_lhs => rw [hpasses]
  have hendsAt : EndsAt id q [] (front ++ [q]) := .inl ⟨front, rfl⟩
  refine takenBy_iff_armedAfter (passesBefore f.separator) later
    (authorizationPass f.separator) ?_ ?_ [] hendsAt
  · intro pass hpass done
    refine Bool.eq_false_iff.mpr fun hjoins => ?_
    obtain ⟨htakes, -, n, hcut, hdrop⟩ := joins_iff.mp hjoins
    obtain ⟨sep, -, rfl⟩ := authorization_of_takesBearer pass
      ((List.takeWhile_sublist _).subset hpass) htakes
    have hne : (authorizationPass sep).needle ≠ (authorizationPass f.separator).needle := by
      simpa using List.mem_takeWhile_imp hpass
    obtain ⟨hlt, hendsIn, -⟩ := cutLength_eq_some_iff.mp hcut
    have hn : n = (last.word ++ (f.key ++ [f.separator])).length := by
      have hdropLength := congrArg List.length hdrop
      have hwordLength := congrArg List.length hbearer
      rw [length_toAsciiLowercase] at hdropLength hwordLength
      rw [List.length_drop, hq, List.length_append] at hdropLength
      rw [hq, List.length_append] at hlt
      omega
    rw [hq, hn, List.take_left, endsIn_singleton, toAsciiLowercase_append, hneedle] at hendsIn
    have hsuffix : [] ++ (authorizationPass sep).needle <:+
        toAsciiLowercase last.word ++ (authorizationPass f.separator).needle := hendsIn
    have hlength : (authorizationPass sep).needle.length =
        (authorizationPass f.separator).needle.length := rfl
    exact hne ((List.suffix_append_inj_of_length_eq hlength).mp hsuffix).2
  · intro hnone
    rw [cutLength_eq_none_iff, hq] at hnone
    refine hnone (last.word ++ (f.key ++ [f.separator])).length ?_ ?_
    · have hwordLength := congrArg List.length hbearer
      rw [length_toAsciiLowercase] at hwordLength
      have hpos : 0 < ("bearer" : Text).length := by decide
      have hlength := @List.length_append _ (last.word ++ (f.key ++ [f.separator])) word
      omega
    · rw [List.take_left, endsIn_singleton, toAsciiLowercase_append, hneedle]
      exact List.suffix_append _ _

/-- With a blank in the gap, the word behind the last of them is taken if the scheme is there with
one blank, and the key's scan leaves it. -/
theorem takenBy_before_blank_iff (before : Text) {t : Text}
    (ht : ((t = [] ∨ ∃ t', t = t' ++ [' ']) ∧ ∀ word, f.scheme ≠ some (word, 1)) ∨
      ∃ word, f.scheme = some (word, 1) ∧ t = List.replicate f.blanks ' ' ++ word) :
    TakenBy id [] passes (words id (before ++ (f.key ++ f.separator :: t))) ↔
      ∃ word, f.scheme = some (word, 1) ∧
        (f.blanks ≠ 0 ∨ TakesNext f.separator (before ++ (f.key ++ f.separator :: word))) := by
  obtain ⟨hblank, hnot⟩ | ⟨word, hscheme, rfl⟩ := ht
  · exact iff_of_false (not_takenBy_of_settled passes [] (f.settled_words_lead before t hblank))
      fun ⟨word, hword, _⟩ => hnot word hword
  · have hunique : (∃ word', f.scheme = some (word', 1) ∧ (f.blanks ≠ 0 ∨
        TakesNext f.separator (before ++ (f.key ++ f.separator :: word')))) ↔
        (f.blanks ≠ 0 ∨ TakesNext f.separator (before ++ (f.key ++ f.separator :: word))) := by
      rw [hscheme]
      simp
    rw [hunique]
    by_cases hblanks : f.blanks = 0
    · rw [hblanks, List.replicate_zero, List.nil_append, f.takenBy_iff_takesNext hscheme]
      simp
    · exact iff_of_true (f.takenBy_of_blanks hscheme hblanks before) (.inl hblanks)

/-- Without a blank in the gap, the key's scan cuts the word in front of the secret. -/
theorem endsIn_take_of_no_blank (hgap : ' ' ∉ f.gap) (before : Text) {front : List (Chunk Char)}
    {last : Chunk Char} (hwords : words id (before ++ f.lead) = front ++ [last]) :
    ∃ n < (last.word ++ f.secret).length, EndsIn needles ((last.word ++ f.secret).take n) := by
  obtain ⟨front', last', -, hlead⟩ :=
    words_append_word before (f.isWord_key_append (f.gap_word hgap))
  rw [← lead, hwords] at hlead
  obtain ⟨-, hlast⟩ := List.append_inj' hlead rfl
  have hpos := List.length_pos_iff.mpr f.secret_ne
  have hsplit : last.word ++ f.secret =
      (last'.word ++ (f.key ++ [f.separator])) ++ (f.gap ++ f.secret) := by
    rw [List.singleton_injective hlast]
    simp [lead]
  refine ⟨(last'.word ++ (f.key ++ [f.separator])).length, ?_, ?_⟩
  · rw [hsplit]
    simp only [List.length_append]
    omega
  · rw [hsplit, List.take_left]
    exact f.endsIn_needles _

/-- **The scans remove the secrets that they are said to remove, and no others.** -/
theorem survives_iff (before after : Text) {output : List (Char × Bool)}
    (houtput : redactText Prod.fst (unflagged REDACTED)
      (track (before ++ f.lead) f.secret after) = .returned output) :
    Survives f.secret output ↔ ¬ f.Removed before := by
  obtain ⟨front, last, hwords, hsurvives⟩ :=
    survives_track_iff f.secret_word f.secret_ne (before ++ f.lead) after houtput
  rw [hsurvives]
  by_cases hgap : ' ' ∈ f.gap
  · obtain ⟨t, ht, hcases⟩ := f.exists_gap_eq hgap
    have hsplit : before ++ f.lead =
        (before ++ (f.key ++ f.separator :: t)) ++ ' ' :: f.front := by
      rw [lead, ht]
      simp
    rw [hsplit, words_append_blank _ f.front_word] at hwords
    obtain ⟨rfl, hlast⟩ := List.append_inj' hwords rfl
    obtain rfl := List.singleton_injective hlast
    have hspaced : spaced id (⟨some ' ', f.front⟩ : Chunk Char) = true := decide_eq_true rfl
    have hgapNot : ¬ ' ' ∉ f.gap := not_not.mpr hgap
    rw [Removed, not_or, and_iff_right hgapNot, not_or, ← f.takenBy_before_blank_iff before hcases,
      and_iff_right hspaced, and_comm]
    simp
  · refine iff_of_false (fun h => ?_) fun h => h (.inl hgap)
    obtain ⟨n, hn, hends⟩ := f.endsIn_take_of_no_blank hgap before hwords
    exact h.2 n hn hends

end Fragment

/-! ## JSON -/

/-- The entry or the item of a value at a position, with the key of an entry. -/
def child : Value → Nat → Option (Option Text × Value)
  | .object map, i => map[i]?.map fun entry => (some entry.1, entry.2)
  | .array items, i => items[i]?.map fun item => (none, item)
  | .null, _ | .bool _, _ | .number _, _ | .string _, _ => none

/-- What is at a place of a value, with the keys on the way. -/
def follow : List Nat → Value → Option (List Text × Value)
  | [], value => some ([], value)
  | i :: path, value =>
      (child value i).bind fun entry =>
        (follow path entry.2).map fun place => (entry.1.toList ++ place.1, place.2)

theorem getElem?_redactEntries (map : List (Text × Value)) (i : Nat) :
    (redactEntries map)[i]? = map[i]?.map fun entry =>
      (entry.1, if isSensitiveKey entry.1 then .string REDACTED else redactJsonValue entry.2) := by
  induction map generalizing i with
  | nil => rfl
  | cons entry map ih =>
      cases i with
      | zero => rfl
      | succ i => exact ih i

theorem getElem?_redactItems (items : List Value) (i : Nat) :
    (redactItems items)[i]? = items[i]?.map redactJsonValue := by
  induction items generalizing i with
  | nil => rfl
  | cons item items ih =>
      cases i with
      | zero => rfl
      | succ i => exact ih i

/-- **Each entry is redacted for its key, or by itself.** -/
theorem child_redactJsonValue (value : Value) (i : Nat) :
    child (redactJsonValue value) i = (child value i).map fun entry =>
      (entry.1, if entry.1.any isSensitiveKey then .string REDACTED
        else redactJsonValue entry.2) := by
  cases value with
  | object map =>
      rw [redactJsonValue, child, child, getElem?_redactEntries, Option.map_map, Option.map_map]
      rfl
  | array items =>
      rw [redactJsonValue, child, child, getElem?_redactItems, Option.map_map, Option.map_map]
      rfl
  | null | bool | number | string => rfl

/-- **A string is left where no key on the way to it is sensitive.** -/
theorem follow_redactJsonValue {text : Text} (htext : text ≠ REDACTED) (path : List Nat)
    {value : Value} {keys : List Text} (h : follow path value = some (keys, .string text)) :
    (∃ keys', follow path (redactJsonValue value) = some (keys', .string text)) ↔
      ∀ key ∈ keys, isSensitiveKey key = false := by
  induction path generalizing value keys with
  | nil =>
      obtain ⟨rfl, rfl⟩ := Prod.mk.inj (Option.some.inj h)
      exact iff_of_true ⟨[], rfl⟩ fun key hkey => by cases hkey
  | cons i path ih =>
      rw [follow, Option.bind_eq_some_iff] at h
      obtain ⟨⟨key, item⟩, hchild, hplace⟩ := h
      obtain ⟨⟨keys', leaf⟩, hfollow, hkeys⟩ := Option.map_eq_some_iff.mp hplace
      obtain ⟨rfl, rfl⟩ := Prod.mk.inj hkeys
      rw [follow, child_redactJsonValue, hchild, Option.map_some, Option.bind_some]
      by_cases hsensitive : key.any isSensitiveKey = true
      · rw [if_pos hsensitive]
        refine iff_of_false ?_ fun hall => ?_
        · rintro ⟨keys'', hplace⟩
          obtain ⟨⟨keys₀, leaf⟩, hleaf, hkeys⟩ := Option.map_eq_some_iff.mp hplace
          obtain ⟨-, rfl⟩ := Prod.mk.inj hkeys
          cases path with
          | nil =>
              have hstring := (Prod.mk.inj (Option.some.inj hleaf)).2
              exact htext (Value.string.inj hstring).symm
          | cons j path => cases hleaf
        · cases key with
          | none => cases hsensitive
          | some key =>
              rw [Option.any_some, hall key (by simp)] at hsensitive
              cases hsensitive
      · rw [if_neg hsensitive]
        have hkey : ∀ k ∈ key.toList, isSensitiveKey k = false := by
          intro k hk
          rw [Option.mem_toList.mp hk, Option.any_some] at hsensitive
          exact Bool.eq_false_iff.mpr hsensitive
        have hrest := ih hfollow
        constructor
        · rintro ⟨keys'', hplace⟩
          obtain ⟨⟨keys₀, leaf⟩, hleaf, hkeys⟩ := Option.map_eq_some_iff.mp hplace
          obtain ⟨-, rfl⟩ := Prod.mk.inj hkeys
          intro k hk
          obtain hk | hk := List.mem_append.mp hk
          · exact hkey k hk
          · exact hrest.mp ⟨keys₀, hleaf⟩ k hk
        · intro hall
          obtain ⟨keys₀, hleaf⟩ := hrest.mpr fun k hk => hall k (List.mem_append_right _ hk)
          exact ⟨key.toList ++ keys₀, by rw [hleaf]; rfl⟩

/-! ## Secrets -/

/-- A text with a fragment in it is not the mark. -/
theorem Fragment.ne_redacted (f : Fragment) (before after : Text) :
    before ++ (f.lead ++ (f.secret ++ after)) ≠ REDACTED := by
  intro heq
  have hall : ∀ sep ∈ ['=', ':'], sep ∉ REDACTED := forall_mem_of_all (by decide)
  refine hall _ f.separator_mem ?_
  rw [← heq, Fragment.lead]
  simp

/-- **Which secrets are removed.**  In a text that is not JSON it is those of the fragments that
are said to be removed; in JSON those of a string with a sensitive key on the way to it. -/
theorem redactSensitiveValues_removes_iff (json : SerdeJson) (f : Fragment) (before after : Text) :
    (∀ error output, json.fromStr (before ++ (f.lead ++ (f.secret ++ after))) = .error error →
      redactSensitiveValues json (before ++ (f.lead ++ (f.secret ++ after))) = .returned output →
      ∃ tracked, redactText Prod.fst (unflagged REDACTED)
          (track (before ++ f.lead) f.secret after) = .returned tracked ∧
        tracked.map Prod.fst = output ∧ (¬ Survives f.secret tracked ↔ f.Removed before)) ∧
    ∀ text value path keys, json.fromStr text = .ok value →
      follow path value = some (keys, .string (before ++ (f.lead ++ (f.secret ++ after)))) →
      redactSensitiveValues json text = .returned (json.toString (redactJsonValue value)) ∧
        ((¬ ∃ keys', follow path (redactJsonValue value) =
            some (keys', .string (before ++ (f.lead ++ (f.secret ++ after))))) ↔
          ∃ key ∈ keys, isSensitiveKey key = true) := by
  constructor
  · intro error output herror hreturned
    have hmap := map_redactText Prod.fst (unflagged REDACTED)
      (track (before ++ f.lead) f.secret after)
    rw [map_fst_track, map_fst_unflagged, List.append_assoc] at hmap
    simp only [redactSensitiveValues, herror] at hreturned
    rw [hreturned] at hmap
    cases htracked : redactText Prod.fst (unflagged REDACTED)
        (track (before ++ f.lead) f.secret after) with
    | returned tracked =>
        rw [htracked, Outcome.map_returned, Outcome.returned.injEq] at hmap
        refine ⟨tracked, rfl, hmap, ?_⟩
        rw [f.survives_iff before after htracked, not_not]
    | panicked =>
        rw [htracked] at hmap
        cases hmap
    | outOfFuel =>
        rw [htracked] at hmap
        cases hmap
  · intro text value path keys hvalue hfollow
    refine ⟨by simp only [redactSensitiveValues, hvalue], ?_⟩
    rw [follow_redactJsonValue (f.ne_redacted before after) path hfollow]
    simp

/-- JSON that is an object with a note. -/
def noteJson : SerdeJson where
  fromStr text :=
    if text = "\x7b\"note\":\"token=abc\"\x7d".toList then
      .ok (.object [("note", .string "token=abc")])
    else .error "expected value"
  toString
    | .object [(key, .string note)] => "\x7b\"" ++ key ++ "\":\"" ++ note ++ "\"\x7d"
    | _ => []

/-- `token`, a separator, blanks and `abc`. -/
def tokenFragment (blanks : Nat) : Fragment where
  key := "token"
  separator := '='
  blanks := blanks
  scheme := none
  secret := "abc"
  key_mem := by decide
  separator_mem := by decide
  scheme_eq := nofun
  secret_ne := by decide
  secret_word := by decide

theorem redactSensitiveValues_removes_iff_note :
    (∃ tracked, redactText Prod.fst (unflagged REDACTED) (track "token=" "abc" []) =
        .returned tracked ∧ tracked.map Prod.fst = "token=***REDACTED***".toList ∧
        (¬ Survives "abc" tracked ↔ (tokenFragment 0).Removed [])) ∧
      redactSensitiveValues noteJson "\x7b\"note\":\"token=abc\"\x7d" =
          .returned "\x7b\"note\":\"token=abc\"\x7d".toList ∧
        ((¬ ∃ keys', follow [0] (redactJsonValue (.object [("note", .string "token=abc")])) =
            some (keys', .string "token=abc")) ↔
          ∃ key ∈ [("note" : Text)], isSensitiveKey key = true) :=
  have h := redactSensitiveValues_removes_iff noteJson (tokenFragment 0) [] []
  ⟨h.1 "expected value" "token=***REDACTED***" rfl (by decide +kernel),
    h.2 "\x7b\"note\":\"token=abc\"\x7d" (.object [("note", .string "token=abc")]) [0] ["note"]
      rfl rfl⟩

/-- A blank behind the separator leaves the secret in the output, and so does JSON around it. -/
theorem redactSensitiveValues_leaks :
    ¬ (∀ (f : Fragment) (before after : Text) (tracked : List (Char × Bool)),
      redactText Prod.fst (unflagged REDACTED) (track (before ++ f.lead) f.secret after) =
        .returned tracked → ¬ Survives f.secret tracked) ∧
    redactSensitiveValues noteJson "\x7b\"note\":\"token=abc\"\x7d" =
      .returned "\x7b\"note\":\"token=abc\"\x7d".toList := by
  refine ⟨fun h => ?_, rfl⟩
  have hrun : redactText Prod.fst (unflagged REDACTED) (track "token= " "abc" []) =
      .returned (track "token= " "abc" []) := by decide +kernel
  exact h (tokenFragment 1) [] [] _ hrun (by decide)

end Telemetry
end SimpleClaw
