import SimpleClaw.Lib.ByteSlice
import SimpleClaw.Lib.Occurrences

/-!
# Searching a text for a byte offset

What is found is told by the byte at which it begins.

* `Text.findText`: where a fragment is first found.
* `Text.findChar`: where a character of some kind is first found, with `Text.findChar_getD`.
* `Text.FirstEnd`: the shortest beginning of a text that ends with the fragment, which is what the
  search finds (`Text.findText_cases`).
-/

namespace Text

variable {pat : Text}

/-- `find(pat)`. -/
def findText (pat : Text) : Text → Option Nat
  | [] => if pat = [] then some 0 else none
  | c :: t => if pat.isPrefixOf (c :: t) then some 0 else (findText pat t).map (c.utf8Size + ·)

/-- `find(p)`. -/
def findChar (p : Char → Bool) : Text → Option Nat
  | [] => none
  | c :: t => if p c then some 0 else (findChar p t).map (c.utf8Size + ·)

/-- **The search for a character stops behind those that are of another kind.** -/
theorem findChar_getD (p : Char → Bool) (t : Text) :
    (findChar p t).getD (utf8Len t) = utf8Len (t.takeWhile fun c => !p c) := by
  induction t with
  | nil => rfl
  | cons c t ih =>
      rw [findChar]
      by_cases hc : p c = true
      · rw [if_pos hc, List.takeWhile_cons_of_neg (by simp [hc])]
        rfl
      · rw [if_neg hc, List.takeWhile_cons_of_pos (by simp [hc]), utf8Len_cons, utf8Len_cons,
          ← ih]
        cases findChar p t with
        | none => rfl
        | some n => rfl

/-! ## Where a fragment first ends -/

/-- A fragment at the end of a text is behind the characters that it does not have. -/
theorem suffix_of_suffix_append_cons {s t : Text} {c : Char} (hc : c ∉ pat)
    (h : pat <:+ s ++ c :: t) : pat <:+ t := by
  have ht : t <:+ s ++ c :: t := ⟨s ++ [c], by rw [List.append_assoc, List.singleton_append]⟩
  obtain hle | hle := List.suffix_or_suffix_of_suffix h ht
  · exact hle
  · obtain ⟨before, rfl⟩ := hle
    have hsuffix : before ++ t <:+ (s ++ [c]) ++ t := by
      rwa [List.append_assoc, List.singleton_append]
    obtain rfl | ⟨front, rfl, -⟩ := List.suffix_concat_iff.mp
      ((List.suffix_append_inj_of_length_eq rfl).mp hsuffix).1
    · exact List.suffix_rfl
    · exact absurd (by simp) hc

/-- The shortest beginning of the text that ends with the fragment has `n` characters. -/
structure FirstEnd (pat t : Text) (n : Nat) : Prop where
  le : n ≤ t.length
  ends : pat <:+ t.take n
  first : ∀ m < n, ¬ pat <:+ t.take m

/-- A beginning ends with the fragment where the fragment stands in front of its end. -/
theorem suffix_take_iff {t : Text} {n : Nat} (hn : n ≤ t.length) :
    pat <:+ t.take n ↔ ∃ i, i + pat.length = n ∧ OccursAt t pat i := by
  constructor
  · rintro ⟨before, hbefore⟩
    have hlength := congrArg List.length hbefore
    rw [List.length_append, List.length_take, min_eq_left hn] at hlength
    refine ⟨before.length, hlength, t.drop n, ?_⟩
    conv_rhs => rw [← List.take_append_drop n t, ← hbefore]
    rw [List.append_assoc, List.drop_left]
  · rintro ⟨i, rfl, after, hafter⟩
    refine ⟨t.take i, ?_⟩
    rw [List.take_add, ← hafter, List.take_left]

theorem FirstEnd.of_leftmostSplit {t before after : Text} (hpat : pat ≠ [])
    (h : LeftmostSplit t pat before after) : FirstEnd pat t (before.length + pat.length) := by
  have hlength : t.length = before.length + (pat.length + after.length) := by
    rw [h.eq, List.length_append, List.length_append]
  have hpos := List.length_pos_iff.mpr hpat
  have hle : before.length + pat.length ≤ t.length := by omega
  refine ⟨hle, (suffix_take_iff hle).mpr ⟨_, rfl, h.occursAt⟩, ?_⟩
  intro m hm hends
  obtain ⟨i, rfl, hi⟩ := (suffix_take_iff (by omega)).mp hends
  have := h.length_le hi
  omega

theorem LeftmostSplit.findText_eq {t before after : Text} (hpat : pat ≠ [])
    (h : LeftmostSplit t pat before after) : findText pat t = some (utf8Len before) := by
  induction before generalizing t with
  | nil =>
      obtain ⟨c, cs, rfl⟩ := List.exists_cons_of_ne_nil hpat
      rw [h.eq, List.nil_append, List.cons_append, findText, ← List.cons_append,
        if_pos (List.isPrefixOf_iff_prefix.mpr (List.prefix_append (c :: cs) after))]
      rfl
  | cons c before ih =>
      obtain ⟨t', rfl, hnot, h'⟩ := h.of_cons
      rw [findText, if_neg fun hp => hnot (List.isPrefixOf_iff_prefix.mp hp), ih h']
      rfl

theorem findText_eq_none {t : Text} (hpat : pat ≠ []) (h : ¬ ∃ i, OccursAt t pat i) :
    findText pat t = none := by
  induction t with
  | nil => exact if_neg hpat
  | cons c t ih =>
      have hfirst : ¬ pat <+: c :: t := fun hp => h ⟨0, hp⟩
      rw [findText, if_neg fun hp => hfirst (List.isPrefixOf_iff_prefix.mp hp),
        ih fun ⟨i, hi⟩ => h ⟨i + 1, hi⟩]
      rfl

/-- **The search finds the first end of the fragment, if there is one.** -/
theorem findText_cases (hpat : pat ≠ []) (t : Text) :
    (findText pat t = none ∧ ∀ n ≤ t.length, ¬ pat <:+ t.take n) ∨
      ∃ n i, FirstEnd pat t n ∧ findText pat t = some i ∧
        i + utf8Len pat = utf8Len (t.take n) := by
  by_cases h : ∃ i, OccursAt t pat i
  · obtain ⟨before, after, hsplit⟩ := exists_leftmostSplit hpat h
    refine .inr ⟨_, _, .of_leftmostSplit hpat hsplit, hsplit.findText_eq hpat, ?_⟩
    rw [hsplit.eq, ← List.append_assoc, ← List.length_append, List.take_left, utf8Len_append]
  · refine .inl ⟨findText_eq_none hpat h, fun n hn hends => ?_⟩
    obtain ⟨i, -, hi⟩ := (suffix_take_iff hn).mp hends
    exact h ⟨i, hi⟩

end Text
