import Mathlib.Data.Nat.Find
import SimpleClaw.Lib.Text

/-!
# Where a fragment occurs

Searching a text for a fragment goes from left to right and steps over what it has found, so it
counts and replaces occurrences that do not overlap.  The positions at which the fragment stands
may overlap.

* `Text.OccursAt`: the fragment stands at a position of the text.
* `Text.LeftmostSplit`: the text before the leftmost occurrence and the text after it, with what
  counting and replacing make of the text in terms of these.
* `Text.matchCount_eq_zero_iff`, `Text.one_lt_matchCount_iff`: no match where the fragment
  stands nowhere, and several matches where two occurrences keep clear of each other.
-/

namespace Text

variable {pat replacement : Text}

/-- The fragment stands at position `i` of the text. -/
def OccursAt (t pat : Text) (i : Nat) : Prop := pat <+: t.drop i

instance (t pat : Text) (i : Nat) : Decidable (OccursAt t pat i) :=
  inferInstanceAs (Decidable (pat <+: t.drop i))

/-- `split_once`: what stands before the leftmost occurrence, and after it. -/
def splitOnce (t pat : Text) : Option (Text × Text) :=
  match t with
  | [] => if pat = [] then some ([], []) else none
  | c :: t =>
      if pat.isPrefixOf (c :: t) then some ([], (c :: t).drop pat.length)
      else (splitOnce t pat).map fun pieces => (c :: pieces.1, pieces.2)

example : splitOnce "a - b - c" " - " = some ("a".toList, "b - c".toList) ∧
    splitOnce "a-b" " - " = none := by decide

theorem OccursAt.exists_split {t : Text} {i : Nat} (hpat : pat ≠ []) (h : OccursAt t pat i) :
    ∃ before after, t = before ++ (pat ++ after) ∧ before.length = i := by
  obtain ⟨after, hafter⟩ := h
  refine ⟨t.take i, after, by rw [hafter, List.take_append_drop], ?_⟩
  have hi : i < t.length := by
    by_contra hi
    rw [List.drop_eq_nil_of_le (not_lt.mp hi)] at hafter
    exact hpat (List.append_eq_nil_iff.mp hafter).1
  rw [List.length_take, min_eq_left hi.le]

/-- An occurrence begins inside the text. -/
theorem OccursAt.lt_length {t : Text} {i : Nat} (hpat : pat ≠ []) (h : OccursAt t pat i) :
    i < t.length := by
  obtain ⟨before, after, rfl, rfl⟩ := h.exists_split hpat
  have hpos := List.length_pos_iff.mpr hpat
  rw [List.length_append, List.length_append]
  omega

theorem occursAt_append (before pat after : Text) :
    OccursAt (before ++ (pat ++ after)) pat before.length := by
  rw [OccursAt, List.drop_left]
  exact List.prefix_append pat after

/-- Past the first part of a text, a fragment stands where it stands in the rest. -/
theorem occursAt_append_add {s t : Text} {i : Nat} :
    OccursAt (s ++ t) pat (s.length + i) ↔ OccursAt t pat i := by
  rw [OccursAt, OccursAt, List.drop_append, List.drop_eq_nil_of_le (by omega), List.nil_append,
    Nat.add_sub_cancel_left]

/-! ## The search, step by step -/

/-- The characters to skip are dropped. -/
theorem matchCountFrom_eq_drop (pat : Text) (skip : Nat) (t : Text) :
    matchCountFrom pat skip t = matchCountFrom pat 0 (t.drop skip) := by
  induction t generalizing skip with
  | nil => cases skip <;> rfl
  | cons c t ih =>
      cases skip with
      | zero => rfl
      | succ skip =>
          rw [matchCountFrom, List.drop_succ_cons]
          exact ih skip

theorem replaceFrom_eq_drop (pat replacement : Text) (limit : Option Nat) (skip : Nat) (t : Text) :
    replaceFrom pat replacement limit skip t =
      replaceFrom pat replacement limit 0 (t.drop skip) := by
  induction t generalizing skip with
  | nil => cases skip <;> rfl
  | cons c t ih =>
      cases skip with
      | zero => rfl
      | succ skip =>
          rw [replaceFrom, List.drop_succ_cons]
          exact ih skip

@[simp] theorem matchCount_nil (pat : Text) : matchCount [] pat = 0 := rfl

@[simp] theorem replace_nil (pat replacement : Text) : replace [] pat replacement = [] := rfl

/-- A match at the front is counted, and the search goes on behind it. -/
theorem matchCount_append_self (hpat : pat ≠ []) (t : Text) :
    matchCount (pat ++ t) pat = matchCount t pat + 1 := by
  obtain ⟨c, cs, rfl⟩ := List.exists_cons_of_ne_nil hpat
  have hfront : (c :: cs).isPrefixOf (c :: (cs ++ t)) = true :=
    List.isPrefixOf_iff_prefix.mpr (List.prefix_append (c :: cs) t)
  rw [matchCount, List.cons_append, matchCountFrom, if_pos hfront, matchCountFrom_eq_drop]
  simp [matchCount]

theorem matchCount_cons_of_not {c : Char} {t : Text} (h : ¬ pat <+: c :: t) :
    matchCount (c :: t) pat = matchCount t pat := by
  rw [matchCount, matchCountFrom, if_neg fun hp => h (List.isPrefixOf_iff_prefix.mp hp)]
  rfl

/-- A match at the front is replaced, as long as the limit allows it. -/
theorem replaceFrom_append_self (hpat : pat ≠ []) {limit : Option Nat} (hlimit : limit ≠ some 0)
    (replacement t : Text) :
    replaceFrom pat replacement limit 0 (pat ++ t) =
      replacement ++ replaceFrom pat replacement (limit.map (· - 1)) 0 t := by
  obtain ⟨c, cs, rfl⟩ := List.exists_cons_of_ne_nil hpat
  have hfront : (c :: cs).isPrefixOf (c :: (cs ++ t)) = true :=
    List.isPrefixOf_iff_prefix.mpr (List.prefix_append (c :: cs) t)
  rw [List.cons_append, replaceFrom, if_pos ⟨hlimit, hfront⟩, replaceFrom_eq_drop]
  simp

theorem replaceFrom_cons_of_not {c : Char} {t : Text} (h : ¬ pat <+: c :: t)
    (replacement : Text) (limit : Option Nat) :
    replaceFrom pat replacement limit 0 (c :: t) = c :: replaceFrom pat replacement limit 0 t := by
  rw [replaceFrom, if_neg fun hp => h (List.isPrefixOf_iff_prefix.mp hp.2)]

theorem replace_append_self (hpat : pat ≠ []) (replacement t : Text) :
    replace (pat ++ t) pat replacement = replacement ++ replace t pat replacement :=
  replaceFrom_append_self hpat (by simp) replacement t

theorem replace_cons_of_not {c : Char} {t : Text} (h : ¬ pat <+: c :: t) (replacement : Text) :
    replace (c :: t) pat replacement = c :: replace t pat replacement :=
  replaceFrom_cons_of_not h replacement none

/-- Nothing is replaced where nothing may be. -/
theorem replaceFrom_zero (pat replacement t : Text) :
    replaceFrom pat replacement (some 0) 0 t = t := by
  induction t with
  | nil => rfl
  | cons c t ih => rw [replaceFrom, if_neg (by simp), ih]

/-- Where the fragment stands nowhere, nothing is replaced. -/
theorem replaceFrom_of_not_occursAt {t : Text} (h : ¬ ∃ i, OccursAt t pat i)
    (replacement : Text) (limit : Option Nat) : replaceFrom pat replacement limit 0 t = t := by
  induction t with
  | nil => rfl
  | cons c t ih =>
      rw [replaceFrom_cons_of_not fun hp => h ⟨0, hp⟩, ih fun ⟨i, hi⟩ => h ⟨i + 1, hi⟩]

/-! ## The leftmost occurrence -/

/-- The text split at the leftmost position at which the fragment stands. -/
structure LeftmostSplit (t pat before after : Text) : Prop where
  eq : t = before ++ (pat ++ after)
  leftmost : ∀ i < before.length, ¬ OccursAt t pat i

/-- **A fragment that stands somewhere has a leftmost occurrence.** -/
theorem exists_leftmostSplit (hpat : pat ≠ []) {t : Text} (h : ∃ i, OccursAt t pat i) :
    ∃ before after, LeftmostSplit t pat before after := by
  obtain ⟨before, after, ht, hlength⟩ := (Nat.find_spec h).exists_split hpat
  exact ⟨before, after, ht, fun i hi => Nat.find_min h (by rwa [hlength] at hi)⟩

namespace LeftmostSplit

variable {t before after : Text}

theorem occursAt (h : LeftmostSplit t pat before after) : OccursAt t pat before.length := by
  rw [h.eq]
  exact occursAt_append before pat after

/-- No occurrence is further left. -/
theorem length_le (h : LeftmostSplit t pat before after) {i : Nat} (hi : OccursAt t pat i) :
    before.length ≤ i := by
  by_contra hlt
  exact h.leftmost i (not_le.mp hlt) hi

theorem take_eq (h : LeftmostSplit t pat before after) : t.take before.length = before := by
  rw [h.eq, List.take_left]

theorem drop_eq (h : LeftmostSplit t pat before after) :
    t.drop (before.length + pat.length) = after := by
  rw [h.eq, ← List.append_assoc, ← List.length_append, List.drop_left]

/-- The characters before the leftmost occurrence begin no occurrence. -/
theorem of_cons {c : Char} (h : LeftmostSplit t pat (c :: before) after) :
    ∃ t', t = c :: t' ∧ ¬ pat <+: c :: t' ∧ LeftmostSplit t' pat before after := by
  refine ⟨before ++ (pat ++ after), h.eq, ?_, rfl, fun i hi => ?_⟩
  · have hfirst := h.leftmost 0 (Nat.succ_pos _)
    rwa [OccursAt, List.drop_zero, h.eq] at hfirst
  · have hnext := h.leftmost (i + 1) (Nat.succ_lt_succ hi)
    rwa [OccursAt, h.eq, List.cons_append, List.drop_succ_cons] at hnext

/-- The leftmost occurrence is counted first. -/
theorem matchCount_eq (hpat : pat ≠ []) (h : LeftmostSplit t pat before after) :
    matchCount t pat = matchCount after pat + 1 := by
  induction before generalizing t with
  | nil =>
      rw [h.eq, List.nil_append]
      exact matchCount_append_self hpat after
  | cons c before ih =>
      obtain ⟨t', rfl, hnot, h'⟩ := h.of_cons
      rw [matchCount_cons_of_not hnot]
      exact ih h'

/-- The leftmost occurrence is replaced first. -/
theorem replaceFrom_eq (hpat : pat ≠ []) {limit : Option Nat} (hlimit : limit ≠ some 0)
    (h : LeftmostSplit t pat before after) (replacement : Text) :
    replaceFrom pat replacement limit 0 t =
      before ++ (replacement ++ replaceFrom pat replacement (limit.map (· - 1)) 0 after) := by
  induction before generalizing t with
  | nil =>
      rw [h.eq, List.nil_append]
      exact replaceFrom_append_self hpat hlimit replacement after
  | cons c before ih =>
      obtain ⟨t', rfl, hnot, h'⟩ := h.of_cons
      rw [replaceFrom_cons_of_not hnot, ih h', List.cons_append]

theorem replacen_one (hpat : pat ≠ []) (h : LeftmostSplit t pat before after)
    (replacement : Text) : replacen t pat replacement 1 = before ++ (replacement ++ after) := by
  rw [replacen, h.replaceFrom_eq hpat (by simp) replacement]
  exact congrArg (fun rest => before ++ (replacement ++ rest))
    (replaceFrom_zero pat replacement after)

end LeftmostSplit

/-! ## What the count says -/

/-- **Nothing is found exactly where the fragment stands nowhere.** -/
theorem matchCount_eq_zero_iff (hpat : pat ≠ []) {t : Text} :
    matchCount t pat = 0 ↔ ¬ ∃ i, OccursAt t pat i := by
  constructor
  · intro hzero h
    obtain ⟨before, after, hsplit⟩ := exists_leftmostSplit hpat h
    rw [hsplit.matchCount_eq hpat] at hzero
    exact Nat.succ_ne_zero _ hzero
  · intro h
    induction t with
    | nil => rfl
    | cons c t ih =>
        rw [matchCount_cons_of_not fun hp => h ⟨0, hp⟩]
        exact ih fun ⟨i, hi⟩ => h ⟨i + 1, hi⟩

/-- **Several matches are found exactly where two occurrences keep clear of each other.** -/
theorem one_lt_matchCount_iff (hpat : pat ≠ []) {t : Text} :
    1 < matchCount t pat ↔
      ∃ i j, OccursAt t pat i ∧ OccursAt t pat j ∧ i + pat.length ≤ j := by
  by_cases h : ∃ i, OccursAt t pat i
  · obtain ⟨before, after, hsplit⟩ := exists_leftmostSplit hpat h
    have hpast (j : Nat) :
        OccursAt t pat (before.length + pat.length + j) ↔ OccursAt after pat j := by
      rw [hsplit.eq, ← List.append_assoc, ← List.length_append]
      exact occursAt_append_add
    have hafter : 1 < matchCount t pat ↔ ∃ j, OccursAt after pat j := by
      rw [hsplit.matchCount_eq hpat, ← not_iff_not, ← matchCount_eq_zero_iff hpat]
      omega
    rw [hafter]
    constructor
    · rintro ⟨j, hj⟩
      exact ⟨before.length, _, hsplit.occursAt, (hpast j).mpr hj, Nat.le_add_right _ j⟩
    · rintro ⟨i, j, hi, hj, hij⟩
      have hle := hsplit.length_le hi
      refine ⟨j - (before.length + pat.length), (hpast _).mp ?_⟩
      rwa [Nat.add_sub_cancel' (by omega)]
  · rw [(matchCount_eq_zero_iff hpat).mpr h]
    constructor
    · intro hlt
      exact absurd hlt (by omega)
    · rintro ⟨i, -, hi, -, -⟩
      exact absurd ⟨i, hi⟩ h

/-- Where the fragment stands at one position only, one match is found. -/
theorem matchCount_eq_one_of_unique (hpat : pat ≠ []) {t : Text} {i : Nat}
    (hi : OccursAt t pat i) (hunique : ∀ j, OccursAt t pat j → j = i) : matchCount t pat = 1 := by
  have hpos : matchCount t pat ≠ 0 := fun h => (matchCount_eq_zero_iff hpat).mp h ⟨i, hi⟩
  have hone : ¬ 1 < matchCount t pat := by
    rw [one_lt_matchCount_iff hpat]
    rintro ⟨j, k, hj, hk, hjk⟩
    have hlength := List.length_pos_iff.mpr hpat
    rw [hunique j hj, hunique k hk] at hjk
    omega
  omega

/-- **What pieces of a text have, their replacements have together.**  A property that survives
cutting occurrences out and joining what is left survives replacing them. -/
theorem replaceFrom_induction {P : Text → Prop} (hpat : pat ≠ [])
    (happend : ∀ s t, P s → P t → P (s ++ t))
    (hcut : ∀ before after, P (before ++ (pat ++ after)) → P before ∧ P after)
    (hreplacement : P replacement) (limit : Option Nat) {t : Text} (ht : P t) :
    P (replaceFrom pat replacement limit 0 t) := by
  induction hlength : t.length using Nat.strong_induction_on generalizing t limit with
  | _ n ih =>
      by_cases hlimit : limit = some 0
      · rw [hlimit, replaceFrom_zero]
        exact ht
      · by_cases h : ∃ i, OccursAt t pat i
        · obtain ⟨before, after, hsplit⟩ := exists_leftmostSplit hpat h
          rw [hsplit.replaceFrom_eq hpat hlimit]
          obtain ⟨hbefore, hafter⟩ := hcut before after (hsplit.eq ▸ ht)
          have hshorter : after.length < n := by
            have hpos := List.length_pos_iff.mpr hpat
            rw [← hlength, hsplit.eq, List.length_append, List.length_append]
            omega
          exact happend _ _ hbefore (happend _ _ hreplacement (ih _ hshorter _ hafter rfl))
        · rw [replaceFrom_of_not_occursAt h]
          exact ht

end Text
