import SimpleClaw.Lib.Text

/-!
# Texts and the white space between them

A list of texts put one after the other shows the texts that are not blank, trimmed, with white
space between them, before the first and after the last.  The same texts may be joined by a
newline each.

* `Text.gaps`: the texts that are not blank, each with the white space before it.
* `Text.flatten_eq_gaps`: nothing else is there.
* `Text.flatten_eq_joinWith_iff`: when texts put one after the other are the joined ones.
-/

namespace Text

/-! ## White space around a text -/

def leading (t : Text) : Text := t.takeWhile isWhiteSpace

def trailing (t : Text) : Text := (trimStart t).rtakeWhile isWhiteSpace

/-- The text is white space. -/
def Blank (t : Text) : Prop := ∀ c ∈ t, isWhiteSpace c = true

theorem blank_nil : Blank [] := by simp [Blank]

theorem Blank.append {s t : Text} (hs : Blank s) (ht : Blank t) : Blank (s ++ t) := by
  intro c hc
  exact (List.mem_append.mp hc).elim (hs c) (ht c)

theorem blank_leading (t : Text) : Blank (leading t) := fun _ => List.mem_takeWhile_imp

theorem blank_trailing (t : Text) : Blank (trailing t) := fun _ => List.mem_rtakeWhile_imp

/-- **A text is what is left of it after trimming, with white space around it.** -/
theorem leading_append_trim (t : Text) : leading t ++ (trim t ++ trailing t) = t := by
  rw [trim, trimEnd, trailing, List.rdropWhile_append_rtakeWhile]
  exact List.takeWhile_append_dropWhile

/-- Just white space is trimmed to nothing. -/
theorem trim_eq_nil_iff {t : Text} : trim t = [] ↔ Blank t := by
  constructor
  · intro h
    rw [← leading_append_trim t, h]
    exact (blank_leading t).append (blank_trailing t)
  · intro h
    rw [trim, trimStart, List.dropWhile_eq_nil_iff.mpr h]
    rfl

/-- What is left after trimming starts with no white space. -/
theorem trim_eq_cons_imp {t rest : Text} {c : Char} (h : trim t = c :: rest) :
    isWhiteSpace c = false := by
  have hstart := trimStart_trim t
  by_contra hc
  rw [Bool.not_eq_false] at hc
  rw [h, trimStart, List.dropWhile_cons_of_pos hc] at hstart
  have hlen := congrArg List.length hstart
  have hle := (List.dropWhile_sublist (l := rest) isWhiteSpace).length_le
  rw [List.length_cons] at hlen
  omega

/-! ## Texts one after the other -/

/-- A text that shows, with the white space before it. -/
structure Shown where
  gap : Text
  text : Text
  blank_gap : Blank gap
  exists_text : ∃ c rest, text = c :: rest ∧ isWhiteSpace c = false

def Shown.whole (shown : Shown) : Text := shown.gap ++ shown.text

/-- White space followed by a text that shows is told from other such white space. -/
theorem Shown.append_eq_iff (shown : Shown) {gap : Text} (hgap : Blank gap) (s t : Text) :
    shown.whole ++ s = gap ++ shown.text ++ t ↔ shown.gap = gap ∧ s = t := by
  obtain ⟨gap', text, hgap', c, rest, rfl, hc⟩ := shown
  have htake : ∀ {g : Text} (t : Text), Blank g →
      (g ++ (c :: rest ++ t)).takeWhile isWhiteSpace = g := by
    intro g t hg
    rw [List.takeWhile_append_of_pos hg, List.cons_append,
      List.takeWhile_cons_of_neg (by simp [hc]), List.append_nil]
  simp only [whole, List.append_assoc]
  constructor
  · intro h
    have hgaps := congrArg (List.takeWhile isWhiteSpace) h
    rw [htake s hgap', htake t hgap] at hgaps
    subst hgaps
    exact ⟨rfl, List.append_cancel_left (List.append_cancel_left h)⟩
  · rintro ⟨rfl, rfl⟩
    rfl

/-- The texts that show, each with the white space since the one before, and the white space after
the last; `pending` is white space that comes before all of them. -/
def gaps (pending : {t : Text // Blank t}) : List Text → List Shown × {t : Text // Blank t}
  | [] => ([], pending)
  | part :: parts =>
      if h : trim part = [] then
        gaps ⟨pending.1 ++ part, pending.2.append (trim_eq_nil_iff.mp h)⟩ parts
      else
        let (shown, last) := gaps ⟨trailing part, blank_trailing part⟩ parts
        (⟨pending.1 ++ leading part, trim part, pending.2.append (blank_leading part),
          (List.exists_cons_of_ne_nil h).imp fun _ => Exists.imp fun _ hcons =>
            ⟨hcons, trim_eq_cons_imp hcons⟩⟩ :: shown, last)

/-- The texts that show are the trimmed ones that are not empty. -/
theorem map_text_gaps (pending : {t : Text // Blank t}) (parts : List Text) :
    (gaps pending parts).1.map Shown.text = (parts.map trim).filter (· ≠ []) := by
  induction parts generalizing pending with
  | nil => rfl
  | cons part parts ih =>
      rw [gaps, List.map_cons]
      split
      · next h => rw [ih, List.filter_cons_of_neg (by simp [h])]
      · next h => rw [List.filter_cons_of_pos (by simpa using h), List.map_cons, ih]

/-- **Texts one after the other are the texts that show and the white space between them.** -/
theorem flatten_eq_gaps (pending : {t : Text // Blank t}) (parts : List Text) :
    pending.1 ++ parts.flatten =
      (gaps pending parts).1.flatMap Shown.whole ++ (gaps pending parts).2.1 := by
  induction parts generalizing pending with
  | nil => simp [gaps]
  | cons part parts ih =>
      rw [gaps, List.flatten_cons]
      split
      · rw [← ih, List.append_assoc]
      · rw [List.flatMap_cons, List.append_assoc, ← ih, Shown.whole]
        conv_lhs => rw [← leading_append_trim part]
        simp only [List.append_assoc]

/-- No white space is before the first text and after the last, and a newline is between any two
neighbours. -/
def JoinedByNewlines (parts : List Text) : Prop :=
  (gaps ⟨[], blank_nil⟩ parts).2.1 = [] ∧
    match (gaps ⟨[], blank_nil⟩ parts).1 with
    | [] => True
    | first :: rest => first.gap = [] ∧ ∀ shown ∈ rest, shown.gap = ['\n']

theorem blank_newline : Blank ['\n'] := by
  simp [Blank, isWhiteSpace]

/-- Texts after another one are joined to it by newlines. -/
theorem flatMap_whole_eq_iff (rest : List Shown) (last : Text) :
    rest.flatMap Shown.whole ++ last = rest.flatMap (fun shown => '\n' :: shown.text) ↔
      last = [] ∧ ∀ shown ∈ rest, shown.gap = ['\n'] := by
  induction rest with
  | nil => simp
  | cons shown rest ih =>
      rw [List.flatMap_cons, List.flatMap_cons, List.append_assoc,
        show '\n' :: shown.text = ['\n'] ++ shown.text from rfl,
        shown.append_eq_iff blank_newline, ih, List.forall_mem_cons]
      exact and_left_comm

theorem joinWith_cons_eq_flatMap (sep : Char) (first : Text) (rest : List Text) :
    joinWith sep (first :: rest) = first ++ rest.flatMap (sep :: ·) := by
  induction rest generalizing first with
  | nil => simp
  | cons next rest ih => rw [joinWith_cons_cons, ih, List.flatMap_cons, List.cons_append]

/-- **Texts put one after the other are the joined ones**, of those that show, if the white space
is what joining puts between them. -/
theorem flatten_eq_joinWith_iff {parts : List Text} :
    parts.flatten = joinWith '\n' ((parts.map trim).filter (· ≠ [])) ↔
      JoinedByNewlines parts := by
  have hwhole := flatten_eq_gaps ⟨[], blank_nil⟩ parts
  rw [List.nil_append] at hwhole
  rw [hwhole, ← map_text_gaps ⟨[], blank_nil⟩, JoinedByNewlines]
  cases (gaps ⟨[], blank_nil⟩ parts).1 with
  | nil => simp
  | cons first rest =>
      rw [List.map_cons, joinWith_cons_eq_flatMap, List.flatMap_map, List.flatMap_cons,
        List.append_assoc, ← List.nil_append first.text, first.append_eq_iff blank_nil,
        flatMap_whole_eq_iff]
      exact and_left_comm

end Text
