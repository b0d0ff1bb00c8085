import Mathlib.Data.List.TakeWhile
import SimpleClaw.Lib.Text

/-!
# Patterns of LIKE

A pattern has two characters that stand for others: `%` for any text and `_` for any one character.
Letters are compared without their case, as long as they are ASCII, and both the pattern and the
text end at a NUL.

* `like`: whether a text is like a pattern.
* `like_containing_iff`: a text without these characters between two `%` is looked for as it is.
* `like_filled`: any other one is found where it is not.
-/

namespace LikePattern

/-! ## Letters in lower case -/

/-- A character in lower case is the same one or a letter. -/
theorem toLower_cases (c : Char) :
    c.toLower = c ∨ 97 ≤ c.toLower.toNat ∧ c.toLower.toNat ≤ 122 := by
  unfold Char.toLower
  split
  · next h =>
    right
    obtain ⟨hlow, hhigh⟩ := h
    rw [ge_iff_le, UInt32.le_iff_toNat_le] at hlow
    rw [UInt32.le_iff_toNat_le] at hhigh
    have hA : ('A').val.toNat = 65 := by decide
    have hZ : ('Z').val.toNat = 90 := by decide
    have hsub : ('a'.val - 'A'.val).toNat = 32 := by decide
    show 97 ≤ (c.val + ('a'.val - 'A'.val)).toNat ∧ (c.val + ('a'.val - 'A'.val)).toNat ≤ 122
    rw [UInt32.toNat_add, hsub]
    omega
  · exact .inl rfl

theorem toLower_toLower (c : Char) : c.toLower.toLower = c.toLower := by
  obtain h | ⟨hlow, -⟩ := toLower_cases c
  · rw [h, h]
  · have hlower : ∀ {d : Char}, 97 ≤ d.toNat → d.toLower = d := by
      intro d hd
      unfold Char.toLower
      rw [dif_neg]
      rintro ⟨-, hhigh⟩
      rw [UInt32.le_iff_toNat_le] at hhigh
      have hZ : ('Z').val.toNat = 90 := by decide
      have hval : d.val.toNat = d.toNat := rfl
      omega
    exact hlower hlow

/-- A character that is no letter comes from itself only. -/
theorem toLower_eq_iff {c e : Char} (he : e.toNat < 65 ∨ e.toNat = 95) :
    c.toLower = e ↔ c = e := by
  constructor
  · intro h
    obtain hc | ⟨hlow, hhigh⟩ := toLower_cases c
    · exact hc ▸ h
    · rw [h] at hlow hhigh
      omega
  · rintro rfl
    obtain hc | ⟨hlow, hhigh⟩ := toLower_cases c
    · exact hc
    · unfold Char.toLower
      rw [dif_neg]
      rintro ⟨hA, hZ⟩
      rw [ge_iff_le, UInt32.le_iff_toNat_le] at hA
      rw [UInt32.le_iff_toNat_le] at hZ
      have hA' : ('A').val.toNat = 65 := by decide
      have hZ' : ('Z').val.toNat = 90 := by decide
      have hc : c.val.toNat = c.toNat := rfl
      omega

/-! ## Patterns -/

/-- The text up to its first NUL. -/
def untilNul (t : Text) : Text := t.takeWhile (· ≠ '\x00')

/-- The whole text is like the whole pattern. -/
def matchAll : Text → Text → Bool
  | [], t => t.isEmpty
  | c :: p, t =>
      if c = '%' then t.tails.any (matchAll p)
      else
        match t with
        | [] => false
        | d :: t => (c = '_' || c.toLower = d.toLower) && matchAll p t

/-- `text LIKE pattern`. -/
def like (pattern t : Text) : Bool := matchAll (untilNul pattern) (untilNul t)

example : like "%b_d%" "ABCDE" = true ∧ like "%b_d%" "abcce" = false ∧ like "a%" "" = false := by
  decide

theorem matchAll_cons (c : Char) (p t : Text) :
    matchAll (c :: p) t =
      if c = '%' then t.tails.any (matchAll p)
      else
        match t with
        | [] => false
        | d :: t => (c = '_' || c.toLower = d.toLower) && matchAll p t := rfl

theorem matchAll_percent_iff {p t : Text} :
    matchAll ('%' :: p) t = true ↔ ∃ u, u <:+ t ∧ matchAll p u = true := by
  rw [matchAll_cons, if_pos rfl, List.any_eq_true]
  simp only [List.mem_tails]

theorem matchAll_cons_iff {c : Char} (hc : c ≠ '%') {p t : Text} :
    matchAll (c :: p) t = true ↔ ∃ d u, t = d :: u ∧ (c = '_' ∨ c.toLower = d.toLower) ∧
      matchAll p u = true := by
  rw [matchAll_cons, if_neg hc]
  cases t with
  | nil => simp
  | cons d t => simp

/-- Two texts after each other are like the patterns after each other. -/
theorem matchAll_append {p q s t : Text} (hp : matchAll p s = true) (hq : matchAll q t = true) :
    matchAll (p ++ q) (s ++ t) = true := by
  induction p generalizing s with
  | nil =>
      obtain rfl := List.isEmpty_iff.mp hp
      exact hq
  | cons c p ih =>
      by_cases hc : c = '%'
      · subst hc
        obtain ⟨u, ⟨before, rfl⟩, hu⟩ := matchAll_percent_iff.mp hp
        rw [List.cons_append, matchAll_percent_iff]
        exact ⟨u ++ t, ⟨before, (List.append_assoc _ _ _).symm⟩, ih hu⟩
      · obtain ⟨d, u, rfl, hd, hu⟩ := (matchAll_cons_iff hc).mp hp
        rw [List.cons_append, matchAll_cons_iff hc]
        exact ⟨d, u ++ t, rfl, hd, ih hu⟩

theorem matchAll_percent (t : Text) : matchAll ['%'] t = true :=
  matchAll_percent_iff.mpr ⟨[], List.nil_suffix, rfl⟩

/-- The case of the pattern does not matter. -/
theorem matchAll_toAsciiLowercase_left (p t : Text) :
    matchAll (Text.toAsciiLowercase p) t = matchAll p t := by
  induction p generalizing t with
  | nil => rfl
  | cons c p ih =>
      have hcons : Text.toAsciiLowercase (c :: p) = c.toLower :: Text.toAsciiLowercase p := rfl
      have hpercent : c.toLower = '%' ↔ c = '%' := toLower_eq_iff (.inl (by decide))
      have hunderscore : c.toLower = '_' ↔ c = '_' := toLower_eq_iff (.inr (by decide))
      rw [hcons, matchAll_cons, matchAll_cons, funext ih]
      simp only [hpercent, hunderscore, toLower_toLower]

/-- Nor does that of the text. -/
theorem matchAll_toAsciiLowercase_right (p t : Text) :
    matchAll p (Text.toAsciiLowercase t) = matchAll p t := by
  induction p generalizing t with
  | nil => cases t <;> rfl
  | cons c p ih =>
      rw [Bool.eq_iff_iff]
      by_cases hc : c = '%'
      · subst hc
        rw [matchAll_percent_iff, matchAll_percent_iff]
        constructor
        · rintro ⟨u, hu, hmatch⟩
          obtain ⟨v, hv, rfl⟩ := List.suffix_map_iff.mp hu
          exact ⟨v, hv, (ih v).symm.trans hmatch⟩
        · rintro ⟨u, hu, hmatch⟩
          exact ⟨Text.toAsciiLowercase u, hu.map _, (ih u).trans hmatch⟩
      · rw [matchAll_cons_iff hc, matchAll_cons_iff hc]
        cases t with
        | nil => simp [Text.toAsciiLowercase]
        | cons d t =>
            have hcons :
                Text.toAsciiLowercase (d :: t) = d.toLower :: Text.toAsciiLowercase t := rfl
            rw [hcons]
            constructor
            · rintro ⟨d', u, heq, hd, hu⟩
              obtain ⟨rfl, rfl⟩ := List.cons.inj heq
              rw [toLower_toLower] at hd
              exact ⟨d, t, rfl, hd, (ih t).symm.trans hu⟩
            · rintro ⟨d', u, heq, hd, hu⟩
              obtain ⟨rfl, rfl⟩ := List.cons.inj heq
              refine ⟨d.toLower, _, rfl, ?_, (ih t).trans hu⟩
              rw [toLower_toLower]
              exact hd

theorem untilNul_untilNul (t : Text) : untilNul (untilNul t) = untilNul t :=
  List.takeWhile_idem

/-- Letters in lower case stand where they stood. -/
theorem untilNul_toAsciiLowercase (t : Text) :
    untilNul (Text.toAsciiLowercase t) = Text.toAsciiLowercase (untilNul t) := by
  have hnul : ∀ c : Char, (decide (c.toLower ≠ '\x00')) = decide (c ≠ '\x00') := by
    intro c
    exact decide_eq_decide.mpr (not_congr (toLower_eq_iff (.inl (by decide))))
  rw [untilNul, Text.toAsciiLowercase, List.takeWhile_map, show (fun c => decide (c ≠ '\x00')) ∘
    Char.toLower = fun c => decide (c ≠ '\x00') from funext hnul]
  rfl

/-- **The case of the letters does not matter.** -/
theorem like_toAsciiLowercase (pattern t : Text) :
    like (Text.toAsciiLowercase pattern) (Text.toAsciiLowercase t) = like pattern t := by
  rw [like, untilNul_toAsciiLowercase, untilNul_toAsciiLowercase, matchAll_toAsciiLowercase_left,
    matchAll_toAsciiLowercase_right, like]

/-- What comes after a NUL is not seen. -/
theorem like_untilNul (pattern t : Text) : like pattern (untilNul t) = like pattern t := by
  rw [like, untilNul_untilNul, like]

/-! ## Looking for a text -/

/-- The pattern of the texts that contain this one. -/
def containing (q : Text) : Text := ("%" : Text) ++ q ++ ("%" : Text)

/-- No character of the text stands for others, and none ends it. -/
structure Plain (q : Text) : Prop where
  percent : '%' ∉ q
  underscore : '_' ∉ q
  nul : '\x00' ∉ q

instance (q : Text) : Decidable (Plain q) :=
  decidable_of_iff ('%' ∉ q ∧ '_' ∉ q ∧ '\x00' ∉ q)
    ⟨fun h => ⟨h.1, h.2.1, h.2.2⟩, fun h => ⟨h.percent, h.underscore, h.nul⟩⟩

theorem notMem_untilNul (t : Text) : '\x00' ∉ untilNul t := by
  intro hmem
  have hnot : decide ('\x00' ≠ '\x00') = true :=
    List.mem_takeWhile_imp (p := fun c => decide (c ≠ '\x00')) hmem
  exact absurd rfl (of_decide_eq_true hnot)

theorem untilNul_of_notMem {t : Text} (h : '\x00' ∉ t) : untilNul t = t :=
  List.takeWhile_eq_self_iff.mpr fun _ hc => decide_eq_true fun heq => h (heq ▸ hc)

/-- A plain text stands for itself, in any case. -/
theorem matchAll_plain_percent_iff {q t : Text} (hpercent : '%' ∉ q) (hunderscore : '_' ∉ q) :
    matchAll (q ++ ['%']) t = true ↔ Text.toAsciiLowercase q <+: Text.toAsciiLowercase t := by
  induction q generalizing t with
  | nil => exact iff_of_true (matchAll_percent t) List.nil_prefix
  | cons c q ih =>
      rw [List.mem_cons, not_or] at hpercent hunderscore
      rw [List.cons_append, matchAll_cons_iff (Ne.symm hpercent.1)]
      cases t with
      | nil =>
          refine iff_of_false ?_ fun h => ?_
          · rintro ⟨d, u, hnil, -⟩
            cases hnil
          · cases List.prefix_nil.mp h
      | cons d t =>
          have hcons : ∀ (c : Char) (t : Text),
              Text.toAsciiLowercase (c :: t) = c.toLower :: Text.toAsciiLowercase t :=
            fun _ _ => rfl
          rw [hcons, hcons, List.cons_prefix_cons, ← ih hpercent.2 hunderscore.2]
          constructor
          · rintro ⟨d', u, heq, hd, hu⟩
            obtain ⟨rfl, rfl⟩ := List.cons.inj heq
            exact ⟨hd.resolve_left (Ne.symm hunderscore.1), hu⟩
          · rintro ⟨hd, hu⟩
            exact ⟨d, t, rfl, .inr hd, hu⟩

/-- **A plain text is looked for as it is**, in texts without a NUL. -/
theorem like_containing_iff {q t : Text} (hq : Plain q) (ht : '\x00' ∉ t) :
    like (containing q) t = true ↔ Text.toAsciiLowercase q <:+: Text.toAsciiLowercase t := by
  have hpattern : untilNul (containing q) = '%' :: (q ++ ['%']) := by
    refine untilNul_of_notMem fun hmem => ?_
    obtain hmem | hmem := List.mem_append.mp hmem
    · obtain hmem | hmem := List.mem_append.mp hmem
      · exact absurd hmem (by decide)
      · exact hq.nul hmem
    · exact absurd hmem (by decide)
  rw [like, hpattern, untilNul_of_notMem ht, matchAll_percent_iff, List.infix_iff_prefix_suffix]
  constructor
  · rintro ⟨u, hu, hmatch⟩
    exact ⟨_, (matchAll_plain_percent_iff hq.percent hq.underscore).mp hmatch, hu.map _⟩
  · rintro ⟨s, hprefix, hsuffix⟩
    obtain ⟨u, hu, rfl⟩ := List.suffix_map_iff.mp hsuffix
    exact ⟨u, hu, (matchAll_plain_percent_iff hq.percent hq.underscore).mpr hprefix⟩

/-- A text with a letter for each character that stands for others, up to the NUL. -/
def filled (q : Text) : Text := (untilNul q).map fun c => if c = '%' ∨ c = '_' then 'x' else c

theorem matchAll_filled (p : Text) :
    matchAll p (p.map fun c => if c = '%' ∨ c = '_' then 'x' else c) = true := by
  induction p with
  | nil => rfl
  | cons c p ih =>
      rw [List.map_cons]
      by_cases hc : c = '%'
      · subst hc
        rw [matchAll_percent_iff]
        exact ⟨_, List.suffix_cons _ _, ih⟩
      · rw [matchAll_cons_iff hc]
        refine ⟨_, _, rfl, ?_, ih⟩
        by_cases hunderscore : c = '_'
        · exact .inl hunderscore
        · right
          rw [if_neg (by simp [hc, hunderscore])]

theorem plain_filled (q : Text) : Plain (filled q) := by
  have hchar : ∀ {c : Char}, c ∈ filled q → c ≠ '%' ∧ c ≠ '_' ∧ c ≠ '\x00' := by
    intro c hc
    obtain ⟨d, hd, rfl⟩ := List.mem_map.mp hc
    have hnul : decide (d ≠ '\x00') = true :=
      List.mem_takeWhile_imp (p := fun c => decide (c ≠ '\x00')) hd
    split
    · decide
    · next hnot =>
      rw [not_or] at hnot
      exact ⟨hnot.1, hnot.2, of_decide_eq_true hnul⟩
  exact ⟨fun h => (hchar h).1 rfl, fun h => (hchar h).2.1 rfl, fun h => (hchar h).2.2 rfl⟩

/-- **Any text is found** where its characters that stand for others are filled in. -/
theorem like_filled (q : Text) : like (containing q) (filled q) = true := by
  rw [like, untilNul_of_notMem (plain_filled q).nul]
  have hempty : matchAll ['%'] [] = true := rfl
  have hq := matchAll_append hempty (matchAll_filled (untilNul q))
  have hpattern : untilNul (containing q) = '%' :: untilNul (q ++ ['%']) := by
    rw [containing, List.append_assoc]
    exact List.takeWhile_cons_of_pos (by decide)
  rw [hpattern, untilNul, List.takeWhile_append]
  split
  · rw [List.takeWhile_cons_of_pos (by decide), List.takeWhile_nil]
    next hall =>
    have hself : untilNul q = q :=
      (List.takeWhile_prefix _).eq_of_length hall
    rw [hself] at hq
    have hmore := matchAll_append hq (matchAll_percent [])
    rw [List.append_nil, List.nil_append, List.append_assoc] at hmore
    rw [filled, hself]
    exact hmore
  · exact hq

/-- Where they are filled in the text itself is not, unless there were none. -/
theorem not_infix_filled {q : Text} (h : ¬ Plain q) :
    ¬ Text.toAsciiLowercase q <:+: Text.toAsciiLowercase (filled q) := by
  intro hwithin
  have hplain := plain_filled q
  have hmem : ∀ {e : Char}, e.toNat < 65 ∨ e.toNat = 95 → e ∈ q → e ∈ filled q := by
    intro e he hmem
    have hlower : e.toLower = e := (toLower_eq_iff he).mpr rfl
    obtain ⟨c, hc, hce⟩ := List.mem_map.mp (hwithin.subset (List.mem_map_of_mem hmem))
    rw [hlower, toLower_eq_iff he] at hce
    exact hce ▸ hc
  exact h ⟨fun hq => hplain.percent (hmem (.inl (by decide)) hq),
    fun hq => hplain.underscore (hmem (.inr (by decide)) hq),
    fun hq => hplain.nul (hmem (.inl (by decide)) hq)⟩

end LikePattern
