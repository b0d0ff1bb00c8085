import Mathlib.Data.List.Infix
import Mathlib.Data.List.DropRight

/-!
# Text as a list of characters

A Unicode string is the list of its characters.  Everything a program asks of a
string character by character --- trimming, splitting at a separator, searching
for a fragment, printing a number in decimal --- is a list function here, so that
list lemmas apply to it as they stand.

* `Text.trim`: both ends stripped of Unicode white space.
* `Text.trimMatches`: both ends stripped of the characters of any kind.
* `Text.decimal`: the decimal numeral of a natural number, with
  `Text.decimal_injective` and `Text.notMem_decimal`.
* `Text.joinWith`, with `Text.splitOn_joinWith`: splitting at a separator undoes
  joining pieces that do not contain it.
-/

/-- A string, as its characters. -/
abbrev Text := List Char

/-- A string literal is written as text. -/
instance : Coe String Text := ⟨String.toList⟩

/-- The comparison of texts, named once for everything that looks a text up in a list. -/
instance Text.instLawfulBEq : LawfulBEq Text := inferInstance

namespace Text

/-! ## White space -/

/-- The Unicode property `White_Space`. -/
def isWhiteSpace (c : Char) : Bool :=
  (9 ≤ c.toNat && c.toNat ≤ 13) || c.toNat == 0x20 || c.toNat == 0x85 || c.toNat == 0xA0 ||
    c.toNat == 0x1680 || (0x2000 ≤ c.toNat && c.toNat ≤ 0x200A) || c.toNat == 0x2028 ||
    c.toNat == 0x2029 || c.toNat == 0x202F || c.toNat == 0x205F || c.toNat == 0x3000

/-- The text without its leading white space. -/
def trimStart (t : Text) : Text := t.dropWhile isWhiteSpace

/-- The text without its trailing white space. -/
def trimEnd (t : Text) : Text := t.rdropWhile isWhiteSpace

/-- The text without leading and trailing white space. -/
def trim (t : Text) : Text := trimEnd (trimStart t)

@[simp] theorem trimEnd_nil : trimEnd [] = [] := rfl

/-- No leading white space is left to strip off a text that starts with something else. -/
theorem trimStart_cons_of_not {c : Char} {t : Text} (h : isWhiteSpace c = false) :
    trimStart (c :: t) = c :: t := by
  rw [trimStart, List.dropWhile_cons_of_neg (by simp [h])]

/-- Trailing white space is stripped after the last character that is none. -/
theorem trimEnd_append_cons {c : Char} (h : isWhiteSpace c = false) (s t : Text) :
    trimEnd (s ++ c :: t) = s ++ c :: trimEnd t := by
  induction t using List.reverseRecOn with
  | nil =>
      rw [trimEnd_nil, trimEnd, List.rdropWhile_concat_neg _ _ _ (by simp [h])]
  | append_singleton t x ih =>
      have hsplit : s ++ c :: (t ++ [x]) = (s ++ c :: t) ++ [x] := by simp
      by_cases hx : isWhiteSpace x = true
      · rw [hsplit, trimEnd, List.rdropWhile_concat_pos _ _ _ hx, trimEnd,
          List.rdropWhile_concat_pos _ _ _ hx]
        exact ih
      · rw [hsplit, trimEnd, List.rdropWhile_concat_neg _ _ _ hx, trimEnd,
          List.rdropWhile_concat_neg _ _ _ hx]
        simp

/-- What is left after trimming the end starts as the text does. -/
theorem trimEnd_prefix (t : Text) : trimEnd t <+: t := List.rdropWhile_prefix _ t

/-- Trimming the end twice is trimming it once. -/
theorem trimEnd_trimEnd (t : Text) : trimEnd (trimEnd t) = trimEnd t :=
  List.rdropWhile_idempotent _ t

theorem trimEnd_trim (t : Text) : trimEnd (trim t) = trim t := trimEnd_trimEnd _

theorem trimStart_trim (t : Text) : trimStart (trim t) = trim t := by
  cases hstart : trimStart t with
  | nil => rw [trim, hstart]; rfl
  | cons c rest =>
      have hc : isWhiteSpace c = false := by
        have := List.head_dropWhile_not isWhiteSpace (l := t)
          (by rw [show t.dropWhile isWhiteSpace = c :: rest from hstart]; simp)
        simpa [show t.dropWhile isWhiteSpace = c :: rest from hstart] using this
      have htrim : trim t = c :: trimEnd rest := by
        rw [trim, hstart]
        exact trimEnd_append_cons hc [] rest
      rw [htrim, trimStart_cons_of_not hc]

/-- Trimming twice is trimming once. -/
theorem trim_trim (t : Text) : trim (trim t) = trim t := by
  rw [trim, trimStart_trim, trimEnd_trim]

/-- Nothing is stripped off a text without white space. -/
theorem trim_of_forall_not {t : Text} (h : ∀ c ∈ t, isWhiteSpace c = false) : trim t = t := by
  have hstart : trimStart t = t := by
    cases t with
    | nil => rfl
    | cons c t => exact trimStart_cons_of_not (h c List.mem_cons_self)
  rw [trim, hstart, trimEnd, List.rdropWhile_eq_self_iff]
  intro hne hlast
  rw [h _ (List.getLast_mem hne)] at hlast
  cases hlast

/-- Nothing is stripped off between two characters that are no white space. -/
theorem trim_cons_concat {c d : Char} (hc : isWhiteSpace c = false) (hd : isWhiteSpace d = false)
    (t : Text) : trim (c :: (t ++ [d])) = c :: (t ++ [d]) := by
  rw [trim, trimStart_cons_of_not hc, ← List.cons_append, trimEnd_append_cons hd, trimEnd_nil]

/-! ## Both ends -/

/-- `trim_matches`: both ends stripped of the characters that `p` holds of. -/
def trimMatches (p : Char → Bool) (t : Text) : Text := (t.dropWhile p).rdropWhile p

theorem trimMatches_isWhiteSpace (t : Text) : trimMatches isWhiteSpace t = trim t := rfl

/-- Characters at the ends that are stripped anyway make no difference. -/
theorem trimMatches_append {p : Char → Bool} {before after : Text} (hbefore : ∀ c ∈ before, p c)
    (hafter : ∀ c ∈ after, p c) (t : Text) :
    trimMatches p (before ++ (t ++ after)) = trimMatches p t := by
  rw [trimMatches, trimMatches, List.dropWhile_append_of_pos hbefore, List.dropWhile_append]
  cases hstart : t.dropWhile p with
  | nil =>
      have hall : after.dropWhile p = [] := List.dropWhile_eq_nil_iff.mpr hafter
      simp [hall]
  | cons c rest =>
      rw [if_neg (by simp), List.rdropWhile, List.rdropWhile, List.reverse_append,
        List.dropWhile_append_of_pos fun c hc => hafter c (List.mem_reverse.mp hc)]

/-- What is stripped is at the ends. -/
theorem exists_trimMatches (p : Char → Bool) (t : Text) :
    ∃ before after, t = before ++ (trimMatches p t ++ after) ∧ (∀ c ∈ before, p c) ∧
      ∀ c ∈ after, p c := by
  refine ⟨t.takeWhile p, (t.dropWhile p).rtakeWhile p, ?_, fun c => List.mem_takeWhile_imp,
    fun c => List.mem_rtakeWhile_imp⟩
  rw [trimMatches, List.rdropWhile_append_rtakeWhile, List.takeWhile_append_dropWhile]

/-- Stripping less first makes no difference. -/
theorem trimMatches_trimMatches {p q : Char → Bool} (h : ∀ c, q c → p c) (t : Text) :
    trimMatches p (trimMatches q t) = trimMatches p t := by
  obtain ⟨before, after, ht, hbefore, hafter⟩ := exists_trimMatches q t
  conv_rhs => rw [ht]
  exact (trimMatches_append (fun c hc => h c (hbefore c hc)) (fun c hc => h c (hafter c hc)) _).symm

/-- Stripping characters of a text that are replaced one by one. -/
theorem trimMatches_map (p : Char → Bool) (f : Char → Char) (t : Text) :
    trimMatches p (t.map f) = (trimMatches (p ∘ f) t).map f := by
  rw [trimMatches, trimMatches, List.dropWhile_map, List.rdropWhile, List.rdropWhile,
    ← List.map_reverse, List.dropWhile_map, List.map_reverse]

/-! ## Case, search and membership -/

/-- What is checked for every character of a text, rather than for every character. -/
theorem forall_mem_of_all {p : Char → Prop} [DecidablePred p] {t : Text}
    (h : t.all (fun c => decide (p c)) = true) : ∀ c ∈ t, p c := fun c hc =>
  of_decide_eq_true (List.all_eq_true.mp h c hc)

/-- ASCII letters in lower case, everything else as it is. -/
def toAsciiLowercase (t : Text) : Text := t.map Char.toLower

/-- `pat` occurs somewhere in `t`. -/
def contains (t pat : Text) : Bool := decide (pat <:+: t)

@[simp] theorem contains_iff {t pat : Text} : contains t pat = true ↔ pat <:+: t := by
  simp [contains]

/-- A fragment without the separator is found before it or after it. -/
theorem contains_append_cons {pat s t : Text} {sep : Char} (hsep : sep ∉ pat)
    (h : contains (s ++ sep :: t) pat = true) : contains s pat = true ∨ contains t pat = true := by
  simp only [contains_iff] at h ⊢
  obtain ⟨before, after, h⟩ := h
  rw [List.append_assoc] at h
  rcases List.append_eq_append_iff.mp h with ⟨m, hs, hm⟩ | ⟨m, hbefore, hm⟩
  · -- the fragment begins before the separator, so it ends before it
    rcases List.append_eq_append_iff.mp hm with ⟨m', hm', -⟩ | ⟨m', hpat, hm'⟩
    · exact .inl ⟨before, m', by rw [hs, hm', List.append_assoc]⟩
    · rcases List.cons_eq_append_iff.mp hm' with ⟨rfl, -⟩ | ⟨m'', rfl, -⟩
      · exact .inl ⟨before, [], by rw [hs, hpat, List.append_nil, List.append_nil]⟩
      · exact absurd (by rw [hpat]; simp) hsep
  · rcases List.cons_eq_append_iff.mp hm with ⟨-, hpat⟩ | ⟨m', -, ht⟩
    · cases pat with
      | nil => exact .inr (List.nil_infix)
      | cons c pat =>
          rw [List.cons_append, List.cons.injEq] at hpat
          exact absurd (by rw [← hpat.1]; exact List.mem_cons_self) hsep
    · exact .inr ⟨m', after, by rw [ht, List.append_assoc]⟩

/-- Walking through a text, with a number of characters to skip: how often the fragment occurs,
left to right and without overlap. -/
def matchCountFrom (pat : Text) : Nat → Text → Nat
  | _, [] => 0
  | 0, c :: t =>
      if pat.isPrefixOf (c :: t) then matchCountFrom pat (pat.length - 1) t + 1
      else matchCountFrom pat 0 t
  | skip + 1, _ :: t => matchCountFrom pat skip t

/-- `match_indices(pat).count()`, for a fragment that is not empty. -/
def matchCount (t pat : Text) : Nat := matchCountFrom pat 0 t

/-- The walk that replaces as many occurrences as are allowed. -/
def replaceFrom (pat replacement : Text) : Option Nat → Nat → Text → Text
  | _, _, [] => []
  | limit, 0, c :: t =>
      if limit ≠ some 0 ∧ pat.isPrefixOf (c :: t) = true then
        replacement ++ replaceFrom pat replacement (limit.map (· - 1)) (pat.length - 1) t
      else c :: replaceFrom pat replacement limit 0 t
  | limit, skip + 1, _ :: t => replaceFrom pat replacement limit skip t

/-- `replace(pat, replacement)`, for a fragment that is not empty. -/
def replace (t pat replacement : Text) : Text := replaceFrom pat replacement none 0 t

/-- `replacen(pat, replacement, count)`. -/
def replacen (t pat replacement : Text) (count : Nat) : Text :=
  replaceFrom pat replacement (some count) 0 t

example : replace "a-bb-c" "-" "+" = "a+bb+c".toList ∧ replacen "aaa" "aa" "b" 1 = "ba".toList ∧
    matchCount "aaaa" "aa" = 2 := by decide

/-- Where the separator is in neither tail, two texts are split at their last separator. -/
theorem append_cons_inj_of_notMem {sep : Char} {s s' t t' : Text} (ht : sep ∉ t) (ht' : sep ∉ t')
    (h : s ++ sep :: t = s' ++ sep :: t') : s = s' ∧ t = t' := by
  rcases List.append_eq_append_iff.mp h with ⟨m, hs, hm⟩ | ⟨m, hs, hm⟩
  · rcases List.cons_eq_append_iff.mp hm with ⟨rfl, htail⟩ | ⟨m', rfl, rfl⟩
    · exact ⟨by rw [hs, List.append_nil], ((List.cons.inj htail).2).symm⟩
    · exact absurd (by simp) ht
  · rcases List.cons_eq_append_iff.mp hm with ⟨rfl, htail⟩ | ⟨m', rfl, rfl⟩
    · exact ⟨by rw [hs, List.append_nil], (List.cons.inj htail).2⟩
    · exact absurd (by simp) ht'

/-- Where the separator is in neither beginning, two texts are split at their first separator. -/
theorem append_cons_inj_of_notMem_left {sep : Char} {s s' t t' : Text} (hs : sep ∉ s)
    (hs' : sep ∉ s') (h : s ++ sep :: t = s' ++ sep :: t') : s = s' ∧ t = t' := by
  have hreverse : t.reverse ++ sep :: s.reverse = t'.reverse ++ sep :: s'.reverse := by
    have := congrArg List.reverse h
    simpa using this
  obtain ⟨ht, hs⟩ := append_cons_inj_of_notMem (by simpa using hs) (by simpa using hs') hreverse
  exact ⟨List.reverse_injective hs, List.reverse_injective ht⟩

/-! ## Decimal numerals -/

/-- The decimal numeral of a natural number. -/
def decimal (n : Nat) : Text := Nat.toDigits 10 n

theorem decimal_injective : Function.Injective decimal := by
  intro m n h
  have hm := Nat.ofDigitChars_ten_toDigits (n := m)
  rw [show Nat.toDigits 10 m = Nat.toDigits 10 n from h, Nat.ofDigitChars_ten_toDigits] at hm
  exact hm.symm

/-- A numeral consists of digits, so no other character occurs in it. -/
theorem notMem_decimal {c : Char} (h : c.isDigit = false) (n : Nat) : c ∉ decimal n := by
  intro hc
  have := Nat.isDigit_of_mem_toDigits (by decide) (by decide) hc
  rw [h] at this
  exact absurd this (by simp)

theorem decimal_ne_nil (n : Nat) : decimal n ≠ [] := Nat.toDigits_ne_nil

/-! ## Joining and splitting -/

/-- The pieces, with a separator between any two neighbours. -/
def joinWith (sep : Char) (pieces : List Text) : Text := [sep].intercalate pieces

@[simp] theorem joinWith_nil (sep : Char) : joinWith sep [] = [] := rfl

@[simp] theorem joinWith_singleton (sep : Char) (p : Text) : joinWith sep [p] = p := by
  simp [joinWith, List.intercalate]

@[simp] theorem joinWith_cons_cons (sep : Char) (p q : Text) (ps : List Text) :
    joinWith sep (p :: q :: ps) = p ++ sep :: joinWith sep (q :: ps) := by
  simp [joinWith, List.intercalate]

/-- Two runs of pieces are joined by one more separator. -/
theorem joinWith_append (sep : Char) {ps qs : List Text} (hps : ps ≠ []) (hqs : qs ≠ []) :
    joinWith sep (ps ++ qs) = joinWith sep ps ++ sep :: joinWith sep qs := by
  induction ps with
  | nil => exact absurd rfl hps
  | cons p ps ih =>
      by_cases hrest : ps = []
      · subst hrest
        obtain ⟨q, qs, rfl⟩ := List.exists_cons_of_ne_nil hqs
        simp
      · obtain ⟨p', ps', rfl⟩ := List.exists_cons_of_ne_nil hrest
        have := ih hrest
        rw [List.cons_append] at this
        rw [List.cons_append, List.cons_append, joinWith_cons_cons, this, joinWith_cons_cons,
          List.append_assoc, List.cons_append]

/-- A fragment without the separator is in one of the pieces. -/
theorem exists_infix_of_infix_joinWith {sep : Char} {pat : Text} (hsep : sep ∉ pat) (hne : pat ≠ [])
    {pieces : List Text} (h : pat <:+: joinWith sep pieces) : ∃ p ∈ pieces, pat <:+: p := by
  induction pieces with
  | nil => exact absurd (List.infix_nil.mp h) hne
  | cons p pieces ih =>
      cases pieces with
      | nil => exact ⟨p, List.mem_singleton_self p, by rwa [joinWith_singleton] at h⟩
      | cons q pieces =>
          rw [joinWith_cons_cons, ← contains_iff] at h
          obtain h | h := contains_append_cons hsep h
          · exact ⟨p, List.mem_cons_self, contains_iff.mp h⟩
          · obtain ⟨r, hr, hpat⟩ := ih (contains_iff.mp h)
            exact ⟨r, List.mem_cons_of_mem p hr, hpat⟩

theorem infix_joinWith_of_mem (sep : Char) {p : Text} {pieces : List Text} (h : p ∈ pieces) :
    p <:+: joinWith sep pieces := by
  induction pieces with
  | nil => cases h
  | cons q pieces ih =>
      cases pieces with
      | nil =>
          rw [List.mem_singleton.mp h, joinWith_singleton]
      | cons r pieces =>
          rw [joinWith_cons_cons]
          obtain rfl | h := List.mem_cons.mp h
          · exact (List.prefix_append _ _).isInfix
          · exact (ih h).trans ((List.suffix_cons _ _).trans (List.suffix_append _ _)).isInfix

/-- Trailing white space of joined pieces is trailing white space of the last piece. -/
theorem trimEnd_joinWith_concat {sep : Char} (hsep : isWhiteSpace sep = false) {ps : List Text}
    (hps : ps ≠ []) (last : Text) :
    trimEnd (joinWith sep (ps ++ [last])) = joinWith sep (ps ++ [trimEnd last]) := by
  rw [joinWith_append sep hps (by simp), joinWith_append sep hps (by simp), joinWith_singleton,
    joinWith_singleton, trimEnd_append_cons hsep]

/-- **Splitting undoes joining**, for pieces that do not contain the separator. -/
theorem splitOn_joinWith {sep : Char} {pieces : List Text} (hsep : ∀ p ∈ pieces, sep ∉ p)
    (hne : pieces ≠ []) : (joinWith sep pieces).splitOn sep = pieces :=
  List.splitOn_intercalate sep hsep hne

/-- The separator is in none of the pieces. -/
theorem notMem_of_mem_splitOn {sep : Char} {t piece : Text} (h : piece ∈ t.splitOn sep) :
    sep ∉ piece := by
  induction t generalizing piece with
  | nil =>
    rw [List.splitOn_nil, List.mem_singleton] at h
    rw [h]
    exact List.not_mem_nil
  | cons c t ih =>
    rw [List.splitOn_cons_eq_if_modifyHead] at h
    split at h
    · rcases List.mem_cons.mp h with rfl | h
      · exact List.not_mem_nil
      · exact ih h
    · next hc =>
      obtain ⟨first, rest, hsplit⟩ := List.exists_cons_of_ne_nil (List.splitOn_ne_nil sep t)
      rw [hsplit, List.modifyHead_cons] at h
      rcases List.mem_cons.mp h with rfl | h
      · rw [List.mem_cons, not_or]
        exact ⟨fun hsep => hc (by rw [hsep, beq_self_eq_true]), ih (hsplit ▸ List.mem_cons_self)⟩
      · exact ih (hsplit ▸ List.mem_cons_of_mem first h)

/-- `split_whitespace`: the words between white space. -/
def splitWhitespace (t : Text) : List Text :=
  (t.splitOnP isWhiteSpace).filter (· ≠ [])

/-! ## Lines -/

/-- A line without the carriage return at its end. -/
def withoutCr (line : Text) : Text := if line.getLast? = some '\r' then line.dropLast else line

/-- `lines`: the last one need not have ended. -/
def lines (t : Text) : List Text :=
  let pieces := t.splitOn '\n'
  pieces.dropLast.map withoutCr ++ (pieces.getLast?.filter (· ≠ [])).toList

/-- `strip_prefix(fragment)`. -/
def stripPrefix (t fragment : Text) : Option Text :=
  if fragment.isPrefixOf t then some (t.drop fragment.length) else none

example : lines "a\r\n\nb\r" = ["a".toList, [], "b\r".toList] ∧ lines "a\n" = ["a".toList] ∧
    stripPrefix "data: x" "data:" = some " x".toList := by decide

theorem stripPrefix_eq_some_iff {t fragment rest : Text} :
    t.stripPrefix fragment = some rest ↔ t = fragment ++ rest := by
  rw [stripPrefix]
  split
  · next h =>
    obtain ⟨after, rfl⟩ := List.isPrefixOf_iff_prefix.mp h
    rw [Option.some.injEq, List.drop_left]
    exact ⟨fun heq => by rw [heq], fun heq => List.append_cancel_left heq⟩
  · next h =>
    refine iff_of_false (fun heq => by cases heq) ?_
    rintro rfl
    exact h (List.isPrefixOf_iff_prefix.mpr ⟨rest, rfl⟩)

end Text
