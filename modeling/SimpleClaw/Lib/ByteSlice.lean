import SimpleClaw.Lib.Text

/-!
# Slicing a text at a byte

A text is kept as UTF-8, and a slice is cut at a byte.  Where the byte is within a character there
is no slice.

* `Text.utf8Len`: how many bytes a text takes.
* `Text.splitBytes`: the text before a byte and the text from it on.
* `Text.Straddles`: the byte is within a character.
* `Text.splitBytes_eq_none_iff`: up to the end of the text a split fails exactly there.
-/

namespace Text

/-- The length of the text in bytes. -/
def utf8Len : Text → Nat
  | [] => 0
  | c :: t => c.utf8Size + utf8Len t

@[simp] theorem utf8Len_nil : utf8Len [] = 0 := rfl

@[simp] theorem utf8Len_cons (c : Char) (t : Text) : utf8Len (c :: t) = c.utf8Size + utf8Len t :=
  rfl

theorem utf8Len_append (s t : Text) : utf8Len (s ++ t) = utf8Len s + utf8Len t := by
  induction s with
  | nil => rw [List.nil_append, utf8Len_nil, Nat.zero_add]
  | cons c s ih => rw [List.cons_append, utf8Len_cons, utf8Len_cons, ih, Nat.add_assoc]

theorem length_le_utf8Len (t : Text) : t.length ≤ utf8Len t := by
  induction t with
  | nil => exact Nat.le_refl 0
  | cons c t ih =>
      have hpos := c.utf8Size_pos
      rw [List.length_cons, utf8Len_cons]
      omega

/-- Letters in lower case take as many bytes. -/
theorem utf8Size_toLower (c : Char) : c.toLower.utf8Size = c.utf8Size := by
  unfold Char.toLower
  split
  · next h =>
    have hle : c.val.toNat ≤ 90 := UInt32.le_iff_toNat_le.mp h.2
    have hone : c.utf8Size = 1 := Char.utf8Size_eq_one_iff.mpr
      (UInt32.le_iff_toNat_le.mpr (Nat.le_trans hle (by decide)))
    rw [hone, Char.utf8Size_eq_one_iff, UInt32.le_iff_toNat_le, UInt32.toNat_add]
    have hsub : ('a'.val - 'A'.val).toNat = 32 := by decide
    have hmax : (127 : UInt32).toNat = 127 := rfl
    rw [hsub, hmax]
    omega
  · rfl

theorem utf8Len_toAsciiLowercase (t : Text) : utf8Len (toAsciiLowercase t) = utf8Len t := by
  induction t with
  | nil => rfl
  | cons c t ih =>
      show c.toLower.utf8Size + utf8Len (toAsciiLowercase t) = c.utf8Size + utf8Len t
      rw [utf8Size_toLower, ih]

/-! ## Splits -/

/-- The text before byte `n` and the text from it on. -/
def splitBytes : Nat → Text → Option (Text × Text)
  | 0, t => some ([], t)
  | _ + 1, [] => none
  | n + 1, c :: t =>
      if c.utf8Size ≤ n + 1 then
        (splitBytes (n + 1 - c.utf8Size) t).map fun split => (c :: split.1, split.2)
      else none

/-- **A split is at the end of the characters before it.** -/
theorem splitBytes_eq_some_iff {n : Nat} {t p s : Text} :
    splitBytes n t = some (p, s) ↔ t = p ++ s ∧ utf8Len p = n := by
  induction t generalizing n p with
  | nil =>
      cases n with
      | zero =>
          rw [splitBytes, Option.some.injEq, Prod.mk.injEq]
          constructor
          · rintro ⟨rfl, rfl⟩
            exact ⟨rfl, rfl⟩
          · rintro ⟨hnil, -⟩
            obtain ⟨rfl, rfl⟩ := List.append_eq_nil_iff.mp hnil.symm
            exact ⟨rfl, rfl⟩
      | succ n =>
          rw [splitBytes]
          refine iff_of_false (fun h => by cases h) ?_
          rintro ⟨hnil, hlen⟩
          obtain ⟨rfl, -⟩ := List.append_eq_nil_iff.mp hnil.symm
          cases hlen
  | cons c t ih =>
      have hpos := c.utf8Size_pos
      cases p with
      | nil =>
          cases n with
          | zero =>
              rw [splitBytes, Option.some.injEq, Prod.mk.injEq]
              exact ⟨fun h => ⟨h.2, rfl⟩, fun h => ⟨rfl, h.1⟩⟩
          | succ n =>
              refine iff_of_false ?_ fun h => by cases h.2
              rw [splitBytes]
              split
              · rw [Option.map_eq_some_iff]
                rintro ⟨split, -, hsplit⟩
                cases hsplit
              · exact fun h => by cases h
      | cons d p =>
          cases n with
          | zero =>
              rw [splitBytes, Option.some.injEq, Prod.mk.injEq]
              refine iff_of_false (fun h => by cases h.1) ?_
              rintro ⟨-, hlen⟩
              rw [utf8Len_cons] at hlen
              have hpos := d.utf8Size_pos
              omega
          | succ n =>
              rw [splitBytes, List.cons_append, List.cons.injEq, utf8Len_cons]
              split
              · next hle =>
                rw [Option.map_eq_some_iff]
                constructor
                · rintro ⟨split, hsplit, heq⟩
                  obtain ⟨hcons, rfl⟩ := Prod.mk.inj heq
                  obtain ⟨rfl, rfl⟩ := List.cons.inj hcons
                  obtain ⟨rfl, hlen⟩ := ih.mp hsplit
                  exact ⟨⟨rfl, rfl⟩, by omega⟩
                · rintro ⟨⟨rfl, rfl⟩, hlen⟩
                  exact ⟨(p, s), ih.mpr ⟨rfl, by omega⟩, rfl⟩
              · next hle =>
                refine iff_of_false (fun h => by cases h) ?_
                rintro ⟨⟨rfl, -⟩, hlen⟩
                omega

/-- A character of the text begins before byte `n` and ends after it. -/
def Straddles (n : Nat) (t : Text) : Prop :=
  ∃ p c s, t = p ++ c :: s ∧ utf8Len p < n ∧ n < utf8Len p + c.utf8Size

theorem not_straddles_nil (n : Nat) : ¬ Straddles n [] := by
  rintro ⟨p, c, s, hnil, -⟩
  cases p <;> cases hnil

theorem not_straddles_zero (t : Text) : ¬ Straddles 0 t := by
  rintro ⟨p, c, s, -, hlt, -⟩
  exact Nat.not_lt_zero _ hlt

theorem Straddles.lt {n : Nat} {t : Text} (h : Straddles n t) : n < utf8Len t := by
  obtain ⟨p, c, s, rfl, -, hlt⟩ := h
  rw [utf8Len_append, utf8Len_cons]
  omega

/-- **Up to the end of the text a split fails exactly within a character.** -/
theorem splitBytes_eq_none_iff {n : Nat} {t : Text} (hle : n ≤ utf8Len t) :
    splitBytes n t = none ↔ Straddles n t := by
  induction t generalizing n with
  | nil =>
      obtain rfl := Nat.le_zero.mp hle
      exact iff_of_false (fun h => by cases h) (not_straddles_nil 0)
  | cons c t ih =>
      rw [utf8Len_cons] at hle
      cases n with
      | zero => exact iff_of_false (fun h => by cases h) (not_straddles_zero _)
      | succ n =>
          rw [splitBytes]
          split
          · next hfits =>
            rw [Option.map_eq_none_iff, ih (by omega)]
            constructor
            · rintro ⟨p, d, s, rfl, hlt, hgt⟩
              exact ⟨c :: p, d, s, rfl, by rw [utf8Len_cons]; omega, by rw [utf8Len_cons]; omega⟩
            · rintro ⟨p, d, s, heq, hlt, hgt⟩
              cases p with
              | nil =>
                  obtain ⟨rfl, rfl⟩ := List.cons.inj heq
                  rw [utf8Len_nil] at hgt
                  omega
              | cons e p =>
                  obtain ⟨rfl, rfl⟩ := List.cons.inj heq
                  rw [utf8Len_cons] at hlt hgt
                  exact ⟨p, d, s, rfl, by omega, by omega⟩
          · next hfits =>
            refine iff_of_true rfl ⟨[], c, t, rfl, Nat.succ_pos n, ?_⟩
            rw [utf8Len_nil]
            omega

/-- No byte is within a character of a text of one-byte characters. -/
theorem not_straddles_of_ascii {n : Nat} {t : Text} (h : ∀ c ∈ t, c.utf8Size = 1) :
    ¬ Straddles n t := by
  rintro ⟨p, c, s, rfl, hlt, hgt⟩
  rw [h c (List.mem_append_right _ List.mem_cons_self)] at hgt
  omega

/-- The byte at which a character is first found. -/
def findByte (t : Text) (c : Char) : Option Nat :=
  if c ∈ t then some (utf8Len (t.takeWhile (· ≠ c))) else none

theorem findByte_append_cons {p s : Text} {c : Char} (h : c ∉ p) :
    findByte (p ++ c :: s) c = some (utf8Len p) := by
  have htake : (p ++ c :: s).takeWhile (· ≠ c) = p := by
    rw [List.takeWhile_append_of_pos, List.takeWhile_cons_of_neg (by simp), List.append_nil]
    intro d hd
    exact decide_eq_true fun heq => h (heq ▸ hd)
  rw [findByte, if_pos (List.mem_append_right _ List.mem_cons_self), htake]

theorem exists_append_of_findByte {t : Text} {c : Char} {n : Nat} (h : findByte t c = some n) :
    ∃ p s, t = p ++ c :: s ∧ c ∉ p ∧ utf8Len p = n := by
  rw [findByte] at h
  split at h
  · next hmem =>
    obtain ⟨p, s, rfl, hnot⟩ := List.eq_append_cons_of_mem hmem
    refine ⟨p, s, rfl, hnot, ?_⟩
    have hfind := findByte_append_cons (s := s) hnot
    rw [findByte, if_pos hmem] at hfind
    rw [h] at hfind
    exact (Option.some.inj hfind).symm
  · cases h

end Text
