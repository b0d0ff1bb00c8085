import SimpleClaw.Lib.LikePattern
import SimpleClaw.Telemetry.Scan

/-!
# Where words are cut

A run of characters that are no terminators is a word.  A key with its separator behind it is a
needle, and a needle inside a word cuts the word behind itself: what follows is replaced by the
mark.

* `isSecretValueTerminator_toLower`: letters in lower case end words as they did.
* `EndsIn`, `cutLength`: the shortest beginning of a word, short of the whole, that ends with one
  of some needles.
* `IsNeedle`: a needle has no terminator and ends with a separator, so no needle ends in the mark.
* `cutWord`: the word that is cut, with `cutWord_cutWord`: what one scan leaves the next one cuts.
* `Blocks`, `joins`, `bears`: what a word does to what is behind it, with `blocks_cutWord_iff`,
  `joins_cutWord`, `bears_cutWord`: a word that is cut does none of it.
-/

namespace SimpleClaw
namespace Telemetry

open Text

/-! ## Terminators and letters -/

theorem isSecretValueTerminator_of_letter {c : Char}
    (h : 65 ≤ c.toNat ∧ c.toNat ≤ 90 ∨ 97 ≤ c.toNat ∧ c.toNat ≤ 122) :
    isSecretValueTerminator c = false := by
  have hspace : isWhiteSpace c = false := by
    simp only [isWhiteSpace, Bool.or_eq_false_iff, Bool.and_eq_false_iff, beq_eq_false_iff_ne,
      decide_eq_false_iff_not]
    omega
  rw [isSecretValueTerminator, hspace, Bool.false_or, decide_eq_false_iff_not]
  intro hmem
  have hcodes : ∀ d ∈ ['"', '\'', ',', '&', ';', ')', '(', ']', '[', '\x7b', '\x7d'],
      ¬ (65 ≤ d.toNat ∧ d.toNat ≤ 90 ∨ 97 ≤ d.toNat ∧ d.toNat ≤ 122) :=
    forall_mem_of_all (by decide)
  exact hcodes c hmem h

/-- **A character in lower case ends a word as it did.** -/
theorem isSecretValueTerminator_toLower (c : Char) :
    isSecretValueTerminator c.toLower = isSecretValueTerminator c := by
  obtain h | hletter := LikePattern.toLower_cases c
  · rw [h]
  · by_cases hc : c.toLower = c
    · rw [hc]
    · have hupper : 65 ≤ c.toNat ∧ c.toNat ≤ 90 := by
        unfold Char.toLower at hc
        split at hc
        · next h => exact ⟨UInt32.le_iff_toNat_le.mp h.1, UInt32.le_iff_toNat_le.mp h.2⟩
        · exact absurd rfl hc
      rw [isSecretValueTerminator_of_letter (.inr hletter),
        isSecretValueTerminator_of_letter (.inl hupper)]

/-- A text without terminators. -/
def IsWord (text : Text) : Prop := ∀ c ∈ text, isSecretValueTerminator c = false

instance (text : Text) : Decidable (IsWord text) := List.decidableBAll _ _

theorem isWord_toAsciiLowercase {text : Text} : IsWord (toAsciiLowercase text) ↔ IsWord text := by
  constructor
  · intro h c hc
    rw [← isSecretValueTerminator_toLower]
    exact h _ (List.mem_map_of_mem hc)
  · intro h c hc
    obtain ⟨d, hd, rfl⟩ := List.mem_map.mp hc
    rw [isSecretValueTerminator_toLower]
    exact h d hd

theorem IsWord.take {text : Text} (h : IsWord text) (n : Nat) : IsWord (text.take n) :=
  fun c hc => h c (List.mem_of_mem_take hc)

theorem IsWord.drop {text : Text} (h : IsWord text) (n : Nat) : IsWord (text.drop n) :=
  fun c hc => h c (List.mem_of_mem_drop hc)

/-- The terminator is not in the word. -/
theorem IsWord.notMem {text : Text} (h : IsWord text) {c : Char}
    (hc : isSecretValueTerminator c = true) : c ∉ text := by
  intro hmem
  rw [h c hmem] at hc
  cases hc

/-! ## The cut -/

/-- The text ends with one of the needles, in any letter case. -/
def EndsIn (needles : List Text) (text : Text) : Prop :=
  ∃ needle ∈ needles, needle <:+ toAsciiLowercase text

instance (needles : List Text) (text : Text) : Decidable (EndsIn needles text) :=
  inferInstanceAs (Decidable (∃ needle ∈ needles, needle <:+ toAsciiLowercase text))

theorem endsIn_append {needles more : List Text} {text : Text} :
    EndsIn (needles ++ more) text ↔ EndsIn needles text ∨ EndsIn more text := by
  simp only [EndsIn, List.mem_append, or_and_right, exists_or]

theorem endsIn_singleton {needle text : Text} :
    EndsIn [needle] text ↔ needle <:+ toAsciiLowercase text := by
  simp only [EndsIn, List.mem_singleton, exists_eq_left]

/-- Where the word is cut. -/
def cutLength (needles : List Text) (word : Text) : Option Nat :=
  (List.range word.length).find? fun n => decide (EndsIn needles (word.take n))

theorem cutLength_eq_some_iff {needles : List Text} {word : Text} {n : Nat} :
    cutLength needles word = some n ↔
      n < word.length ∧ EndsIn needles (word.take n) ∧ ∀ m < n, ¬ EndsIn needles (word.take m) := by
  rw [cutLength, List.find?_range_eq_some, List.mem_range, decide_eq_true_iff]
  simp only [Bool.not_eq_true', decide_eq_false_iff_not]
  exact and_left_comm

theorem cutLength_eq_none_iff {needles : List Text} {word : Text} :
    cutLength needles word = none ↔ ∀ n < word.length, ¬ EndsIn needles (word.take n) := by
  rw [cutLength, List.find?_range_eq_none]
  simp only [Bool.not_eq_true', decide_eq_false_iff_not]

@[simp] theorem cutLength_nil (word : Text) : cutLength [] word = none := by
  rw [cutLength_eq_none_iff]
  rintro n - ⟨needle, hmem, -⟩
  cases hmem

theorem cutLength_append_eq_none_iff {needles more : List Text} {word : Text} :
    cutLength (needles ++ more) word = none ↔
      cutLength needles word = none ∧ cutLength more word = none := by
  simp only [cutLength_eq_none_iff, endsIn_append, not_or, imp_and, forall_and]

/-! ## Needles and the mark -/

/-- A key and a separator. -/
structure IsNeedle (needle : Text) : Prop where
  word : IsWord needle
  separator : ∃ key sep, needle = key ++ [sep] ∧ (sep = '=' ∨ sep = ':')

theorem IsNeedle.ne_nil {needle : Text} (h : IsNeedle needle) : needle ≠ [] := by
  obtain ⟨key, sep, rfl, -⟩ := h.separator
  exact List.append_ne_nil_of_right_ne_nil key (List.cons_ne_nil sep [])

/-- What ends with a needle ends with a separator. -/
theorem EndsIn.exists_eq_concat {needles : List Text}
    (hneedles : ∀ needle ∈ needles, IsNeedle needle) {text : Text} (h : EndsIn needles text) :
    ∃ front sep, text = front ++ [sep] ∧ (sep = '=' ∨ sep = ':') := by
  obtain ⟨needle, hmem, before, hbefore⟩ := h
  obtain ⟨key, sep, rfl, hsep⟩ := (hneedles needle hmem).separator
  have hne : text ≠ [] := by
    rintro rfl
    exact absurd hbefore (by simp [toAsciiLowercase])
  obtain ⟨front, last, rfl⟩ := (List.eq_nil_or_concat' text).resolve_left hne
  rw [toAsciiLowercase_append, ← List.append_assoc] at hbefore
  have hlast : sep = last.toLower := List.singleton_injective (List.append_inj_right' hbefore rfl)
  refine ⟨front, last, rfl, ?_⟩
  obtain rfl | rfl := hsep
  · exact .inl ((LikePattern.toLower_eq_iff (by decide)).mp hlast.symm)
  · exact .inr ((LikePattern.toLower_eq_iff (by decide)).mp hlast.symm)

/-- No needle ends within the mark. -/
theorem not_endsIn_append_take {needles : List Text}
    (hneedles : ∀ needle ∈ needles, IsNeedle needle) (front : Text) {n : Nat}
    (hn : n ≠ 0) : ¬ EndsIn needles (front ++ REDACTED.take n) := by
  intro h
  obtain ⟨before, sep, heq, hsep⟩ := h.exists_eq_concat hneedles
  have htake : REDACTED.take n ≠ [] := by
    rw [ne_eq, List.take_eq_nil_iff, not_or]
    exact ⟨hn, by decide⟩
  obtain ⟨mark, last, hmark⟩ := (List.eq_nil_or_concat' _).resolve_left htake
  rw [hmark, ← List.append_assoc] at heq
  obtain rfl : last = sep := List.singleton_injective (List.append_inj_right' heq rfl)
  have hmem : last ∈ REDACTED := by
    refine List.mem_of_mem_take (i := n) ?_
    rw [hmark]
    exact List.mem_append_right _ List.mem_cons_self
  have hnot : '=' ∉ REDACTED ∧ ':' ∉ REDACTED := by decide
  obtain rfl | rfl := hsep
  · exact hnot.1 hmem
  · exact hnot.2 hmem

/-- What ends with a needle in a word that is cut ends with it in the word. -/
theorem endsIn_take_append_mark_iff {needles : List Text}
    (hneedles : ∀ needle ∈ needles, IsNeedle needle) {word : Text} {n m : Nat}
    (hn : n ≤ word.length) :
    EndsIn needles ((word.take n ++ REDACTED).take m) ↔ m ≤ n ∧ EndsIn needles (word.take m) := by
  by_cases hle : m ≤ n
  · rw [List.take_append_of_le_length (by rw [List.length_take]; omega), List.take_take,
      min_eq_left hle, and_iff_right hle]
  · refine iff_of_false ?_ fun h => hle h.1
    rw [List.take_append, List.take_of_length_le (by rw [List.length_take]; omega),
      List.length_take, min_eq_left hn]
    exact not_endsIn_append_take hneedles _ (by omega)

/-- Where a word is cut again that is cut. -/
theorem cutLength_take_append_mark {needles more : List Text}
    (hmore : ∀ needle ∈ more, IsNeedle needle) {word : Text} {n : Nat}
    (hn : cutLength needles word = some n) :
    (cutLength more (word.take n ++ REDACTED) = none ∧ cutLength (needles ++ more) word = some n) ∨
      ∃ m ≤ n, cutLength more (word.take n ++ REDACTED) = some m ∧
        cutLength (needles ++ more) word = some m := by
  obtain ⟨hlt, hends, hfirst⟩ := cutLength_eq_some_iff.mp hn
  have hlength : n < (word.take n ++ REDACTED).length := by
    have hmark : 0 < REDACTED.length := by decide
    rw [List.length_append, List.length_take]
    omega
  cases hcut : cutLength more (word.take n ++ REDACTED) with
  | none =>
      rw [cutLength_eq_none_iff] at hcut
      refine .inl ⟨rfl, cutLength_eq_some_iff.mpr ⟨hlt, endsIn_append.mpr (.inl hends), ?_⟩⟩
      intro m hm hboth
      obtain h | h := endsIn_append.mp hboth
      · exact hfirst m hm h
      · exact hcut m (by omega)
          ((endsIn_take_append_mark_iff hmore hlt.le).mpr ⟨hm.le, h⟩)
  | some m =>
      obtain ⟨hmlt, hmends, hmfirst⟩ := cutLength_eq_some_iff.mp hcut
      obtain ⟨hmn, hmword⟩ := (endsIn_take_append_mark_iff hmore hlt.le).mp hmends
      refine .inr ⟨m, hmn, rfl, cutLength_eq_some_iff.mpr
        ⟨by omega, endsIn_append.mpr (.inr hmword), ?_⟩⟩
      intro i hi hboth
      obtain h | h := endsIn_append.mp hboth
      · exact hfirst i (by omega) h
      · exact hmfirst i hi
          ((endsIn_take_append_mark_iff hmore hlt.le).mpr ⟨by omega, h⟩)

/-- A word that is cut does not end with `bearer`. -/
theorem not_bearer_suffix (front : Text) :
    ¬ ("bearer" : Text) <:+ toAsciiLowercase (front ++ REDACTED) := by
  intro h
  have hmark : ("bearer" : Text) <:+ toAsciiLowercase REDACTED := by
    rw [toAsciiLowercase_append] at h
    obtain hle | hle := List.suffix_or_suffix_of_suffix h (List.suffix_append _ _)
    · exact hle
    · exact absurd hle.length_le (by decide)
  exact absurd hmark (by decide)

/-! ## Words that are cut -/

section CutWord

variable {α : Type*} (char : α → Char) (mark : List α)

/-- The word that is cut. -/
def cutWord (needles : List Text) (word : List α) : List α :=
  match cutLength needles (word.map char) with
  | some n => word.take n ++ mark
  | none => word

variable {char mark} {needles more : List Text} {word : List α}

theorem cutWord_of_none (h : cutLength needles (word.map char) = none) :
    cutWord char mark needles word = word := by
  rw [cutWord, h]

theorem cutWord_of_some {n : Nat} (h : cutLength needles (word.map char) = some n) :
    cutWord char mark needles word = word.take n ++ mark := by
  rw [cutWord, h]

theorem map_take_append_mark (hmark : mark.map char = REDACTED) (n : Nat) :
    (word.take n ++ mark).map char = (word.map char).take n ++ REDACTED := by
  rw [List.map_append, List.map_take, hmark]

/-- **What one scan leaves, the next one cuts.** -/
theorem cutWord_cutWord (hmark : mark.map char = REDACTED)
    (hmore : ∀ needle ∈ more, IsNeedle needle) (word : List α) :
    cutWord char mark more (cutWord char mark needles word) =
      cutWord char mark (needles ++ more) word := by
  cases hn : cutLength needles (word.map char) with
  | none =>
      have hboth :
          cutLength (needles ++ more) (word.map char) = cutLength more (word.map char) := by
        cases hm : cutLength more (word.map char) with
        | none => exact cutLength_append_eq_none_iff.mpr ⟨hn, hm⟩
        | some m =>
            obtain ⟨hlt, hends, hfirst⟩ := cutLength_eq_some_iff.mp hm
            rw [cutLength_eq_none_iff] at hn
            refine cutLength_eq_some_iff.mpr ⟨hlt, endsIn_append.mpr (.inr hends), ?_⟩
            intro i hi h
            exact (endsIn_append.mp h).elim (hn i (by omega)) (hfirst i hi)
      rw [cutWord_of_none hn, cutWord, cutWord, hboth]
  | some n =>
      have hlt := (cutLength_eq_some_iff.mp hn).1
      rw [List.length_map] at hlt
      rw [cutWord_of_some hn]
      obtain ⟨hnone, hboth⟩ | ⟨m, hm, hsome, hboth⟩ := cutLength_take_append_mark hmore hn
      · rw [← map_take_append_mark hmark] at hnone
        rw [cutWord_of_none hnone, cutWord_of_some hboth]
      · rw [← map_take_append_mark hmark] at hsome
        rw [cutWord_of_some hsome, cutWord_of_some hboth,
          List.take_append_of_le_length (by rw [List.length_take]; omega), List.take_take,
          min_eq_left hm]

@[simp] theorem cutWord_nil_needles (word : List α) : cutWord char mark [] word = word :=
  cutWord_of_none (cutLength_nil _)

/-- A word that is cut is a word. -/
theorem isWord_cutWord (hmark : mark.map char = REDACTED) (h : IsWord (word.map char)) :
    IsWord ((cutWord char mark needles word).map char) := by
  cases hn : cutLength needles (word.map char) with
  | none => rwa [cutWord_of_none hn]
  | some n =>
      rw [cutWord_of_some hn, map_take_append_mark hmark]
      have hred : IsWord REDACTED := by decide
      intro c hc
      exact (List.mem_append.mp hc).elim (h.take n c) (hred c)

/-- Only an empty word is cut to nothing. -/
theorem cutWord_eq_nil_iff (hmark : mark.map char = REDACTED) :
    cutWord char mark needles word = [] ↔ word = [] := by
  cases hn : cutLength needles (word.map char) with
  | none => rw [cutWord_of_none hn]
  | some n =>
      have hlt := (cutLength_eq_some_iff.mp hn).1
      rw [List.length_map] at hlt
      rw [cutWord_of_some hn]
      refine iff_of_false (fun hnil => ?_) (List.ne_nil_of_length_pos (by omega))
      rw [(List.append_eq_nil_iff.mp hnil).2] at hmark
      cases hmark

/-! ## What a word does to its neighbours -/

/-- A scan for a needle, and whether it takes a bearer token. -/
structure Pass where
  needle : Text
  takesBearer : Bool
  deriving DecidableEq

/-- The needle is the end of the word, and no needle cuts it. -/
def Blocks (done : List Text) (needle word : Text) : Prop :=
  EndsIn [needle] word ∧ cutLength (done ++ [needle]) word = none

/-- The needle is followed by the word `bearer`, and no needle before cuts the word. -/
def joins (done : List Text) (pass : Pass) (word : Text) : Bool :=
  pass.takesBearer && (cutLength done word).isNone &&
    (cutLength [pass.needle] word).any fun n =>
      decide (toAsciiLowercase (word.drop n) = "bearer".toList)

/-- The word ends with `bearer`, and no needle cuts it. -/
def bears (done : List Text) (word : Text) : Bool :=
  (cutLength done word).isNone && decide (("bearer" : Text) <:+ toAsciiLowercase word)

instance (done : List Text) (needle word : Text) : Decidable (Blocks done needle word) :=
  inferInstanceAs (Decidable (_ ∧ _))

theorem joins_iff {done : List Text} {pass : Pass} {text : Text} :
    joins done pass text = true ↔ pass.takesBearer = true ∧ cutLength done text = none ∧
      ∃ n, cutLength [pass.needle] text = some n ∧
        toAsciiLowercase (text.drop n) = "bearer".toList := by
  simp only [joins, Bool.and_eq_true, Option.isNone_iff_eq_none, Option.any_eq_true,
    decide_eq_true_iff, and_assoc]

theorem bears_iff {done : List Text} {text : Text} :
    bears done text = true ↔
      cutLength done text = none ∧ ("bearer" : Text) <:+ toAsciiLowercase text := by
  simp only [bears, Bool.and_eq_true, Option.isNone_iff_eq_none, decide_eq_true_iff]

/-- A word that another one is joined to ends with `bearer`. -/
theorem bearer_suffix_of_joins {done : List Text} {pass : Pass} {text : Text}
    (h : joins done pass text = true) : ("bearer" : Text) <:+ toAsciiLowercase text := by
  obtain ⟨-, -, n, -, hdrop⟩ := joins_iff.mp h
  rw [← hdrop]
  exact (List.drop_suffix n text).map _

variable {needle : Text} {pass : Pass}

/-- **A word that is cut blocks nothing.** -/
theorem blocks_cutWord_iff (hmark : mark.map char = REDACTED) (hneedle : IsNeedle needle) :
    Blocks [] needle ((cutWord char mark needles word).map char) ↔
      Blocks needles needle (word.map char) := by
  cases hn : cutLength needles (word.map char) with
  | none =>
      rw [cutWord_of_none hn, Blocks, Blocks, List.nil_append, cutLength_append_eq_none_iff]
      exact and_congr_right fun _ => (and_iff_right hn).symm
  | some n =>
      rw [cutWord_of_some hn, map_take_append_mark hmark]
      refine iff_of_false (fun h => ?_) fun h => ?_
      · have hall : ∀ k ∈ [needle], IsNeedle k := by simpa using hneedle
        have hlength : REDACTED.length ≠ 0 := by decide
        refine not_endsIn_append_take hall ((word.map char).take n) hlength ?_
        rw [List.take_length]
        exact h.1
      · rw [Blocks, cutLength_append_eq_none_iff, hn] at h
        cases h.2.1

/-- **Nothing is joined to a word that is cut.** -/
theorem joins_cutWord (hmark : mark.map char = REDACTED) :
    joins [] pass ((cutWord char mark needles word).map char) =
      joins needles pass (word.map char) := by
  cases hn : cutLength needles (word.map char) with
  | none => rw [cutWord_of_none hn, joins, joins, hn, cutLength_nil]
  | some n =>
      rw [cutWord_of_some hn, map_take_append_mark hmark, Bool.eq_iff_iff]
      refine iff_of_false (fun h => not_bearer_suffix _ (bearer_suffix_of_joins h)) fun h => ?_
      rw [joins_iff, hn] at h
      cases h.2.1

/-- **A word that is cut bears no token.** -/
theorem bears_cutWord (hmark : mark.map char = REDACTED) :
    bears [] ((cutWord char mark needles word).map char) = bears needles (word.map char) := by
  cases hn : cutLength needles (word.map char) with
  | none => rw [cutWord_of_none hn, bears, bears, hn, cutLength_nil]
  | some n =>
      rw [cutWord_of_some hn, map_take_append_mark hmark, Bool.eq_iff_iff]
      refine iff_of_false (fun h => not_bearer_suffix _ (bears_iff.mp h).2) fun h => ?_
      rw [bears_iff, hn] at h
      cases h.1

end CutWord

end Telemetry
end SimpleClaw
