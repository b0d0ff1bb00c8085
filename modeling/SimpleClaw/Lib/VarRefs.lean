import Mathlib.Data.List.Basic
import SimpleClaw.Lib.Text

/-!
# References to variables in a text

A text is read as pieces: characters that stand for themselves, and references to variables,
written `$name` or with the name in braces.  What stands for a reference is up to the reader; how
the text falls into pieces is not.

* `VarRefs.firstPiece`, `VarRefs.pieces`: the pieces of a text.
* `VarRefs.expand`: the text with something put for each piece.
* `VarRefs.pieces_append_cons`: a separator, which no reference reaches across.
* `VarRefs.expand_eq_expand_iff`: two ways to expand, one of which is never longer, agree on a
  text only if they agree on its pieces.
-/

namespace VarRefs

/-- A character, or a reference to a variable, in braces or not. -/
inductive Piece where
  | char (c : Char)
  | ref (key : Text) (braced : Bool)
  deriving DecidableEq

/-- The piece as it is written. -/
def Piece.text : Piece → Text
  | .char c => [c]
  | .ref key true => '$' :: '{' :: key ++ ['}']
  | .ref key false => '$' :: key

/-- The variable a piece refers to. -/
def Piece.key : Piece → Option Text
  | .char _ => none
  | .ref key _ => some key

section Pieces

/-! ## Pieces of a text -/

variable (isNameChar : Char → Bool → Bool)

/-- A name in braces: its first character may be restricted further. -/
def isName : Text → Bool
  | [] => false
  | c :: cs => isNameChar c true && cs.all fun c => isNameChar c false

/-- The first piece of a text, with what comes after it. -/
def firstPiece : Text → Option (Piece × Text)
  | [] => none
  | '$' :: '{' :: rest =>
      if '}' ∈ rest ∧ isName isNameChar (rest.takeWhile (· ≠ '}')) = true then
        some (.ref (rest.takeWhile (· ≠ '}')) true, (rest.dropWhile (· ≠ '}')).tail)
      else some (.char '$', '{' :: rest)
  | '$' :: first :: rest =>
      if isNameChar first true then
        some (.ref (first :: rest.takeWhile (isNameChar · false)) false,
          rest.dropWhile (isNameChar · false))
      else some (.char '$', first :: rest)
  | c :: rest => some (.char c, rest)

def piecesFrom : Nat → Text → List Piece
  | 0, _ => []
  | fuel + 1, t =>
      match firstPiece isNameChar t with
      | none => []
      | some (piece, rest) => piece :: piecesFrom fuel rest

/-- Every piece takes at least one character, so the length of the text is enough fuel. -/
def pieces (t : Text) : List Piece := piecesFrom isNameChar t.length t

/-- The variables a text refers to. -/
def references (t : Text) : List Text := (pieces isNameChar t).filterMap Piece.key

/-- The text with something put for each piece. -/
def expand (value : Piece → Text) (t : Text) : Text := (pieces isNameChar t).flatMap value

variable {isNameChar}

theorem firstPiece_cons_of_ne {c : Char} (hc : c ≠ '$') (rest : Text) :
    firstPiece isNameChar (c :: rest) = some (.char c, rest) := by
  rw [firstPiece] <;> simp [hc]

theorem firstPiece_dollar : firstPiece isNameChar ['$'] = some (.char '$', []) := rfl

theorem firstPiece_braced (rest : Text) :
    firstPiece isNameChar ('$' :: '{' :: rest) =
      if '}' ∈ rest ∧ isName isNameChar (rest.takeWhile (· ≠ '}')) = true then
        some (.ref (rest.takeWhile (· ≠ '}')) true, (rest.dropWhile (· ≠ '}')).tail)
      else some (.char '$', '{' :: rest) := by
  rw [firstPiece]

theorem firstPiece_bare {first : Char} (hfirst : first ≠ '{') (rest : Text) :
    firstPiece isNameChar ('$' :: first :: rest) =
      if isNameChar first true then
        some (.ref (first :: rest.takeWhile (isNameChar · false)) false,
          rest.dropWhile (isNameChar · false))
      else some (.char '$', first :: rest) := by
  rw [firstPiece]
  simpa using hfirst

/-- Only the empty text has no first piece. -/
theorem eq_nil_of_firstPiece_eq_none {t : Text} (h : firstPiece isNameChar t = none) : t = [] := by
  unfold firstPiece at h
  split at h
  · rfl
  · split_ifs at h
  · split_ifs at h
  · cases h

/-- A piece takes something off the text. -/
theorem firstPiece_length {t rest : Text} {piece : Piece}
    (h : firstPiece isNameChar t = some (piece, rest)) : rest.length < t.length := by
  unfold firstPiece at h
  split at h
  · cases h
  · split at h
    · cases h
      have := List.length_dropWhile_le (· ≠ '}') ‹List Char›
      simp only [List.length_tail, List.length_cons]
      omega
    · cases h
      simp
  · split at h
    · cases h
      have := List.length_dropWhile_le (isNameChar · false) ‹List Char›
      simp only [List.length_cons]
      omega
    · cases h
      simp
  · cases h
    simp

/-- More fuel than the text is long changes nothing. -/
theorem piecesFrom_eq {fuel : Nat} {t : Text} (h : t.length ≤ fuel) :
    piecesFrom isNameChar fuel t = pieces isNameChar t := by
  suffices hfuel : ∀ n t, t.length ≤ n → ∀ m, t.length ≤ m →
      piecesFrom isNameChar n t = piecesFrom isNameChar m t from hfuel fuel t h _ le_rfl
  intro n
  induction n with
  | zero =>
      intro t ht m _
      obtain rfl := List.length_eq_zero_iff.mp (Nat.le_zero.mp ht)
      cases m <;> rfl
  | succ n ih =>
      intro t ht m hm
      cases m with
      | zero =>
          obtain rfl := List.length_eq_zero_iff.mp (Nat.le_zero.mp hm)
          rfl
      | succ m =>
          rw [piecesFrom, piecesFrom]
          cases hfirst : firstPiece isNameChar t with
          | none => rfl
          | some step =>
              obtain ⟨piece, rest⟩ := step
              have hlt := firstPiece_length hfirst
              dsimp only
              rw [ih rest (by omega) m (by omega)]

/-- A text is read piece by piece. -/
theorem pieces_of_firstPiece {t rest : Text} {piece : Piece}
    (h : firstPiece isNameChar t = some (piece, rest)) :
    pieces isNameChar t = piece :: pieces isNameChar rest := by
  have hlt := firstPiece_length h
  obtain ⟨n, hn⟩ : ∃ n, t.length = n + 1 := ⟨t.length - 1, by omega⟩
  rw [pieces, hn, piecesFrom, h]
  dsimp only
  rw [piecesFrom_eq (by omega)]

/-! ## Separators -/

/-- A character that is part of no reference. -/
structure Separates (isNameChar : Char → Bool → Bool) (s : Char) : Prop where
  name : ∀ first, isNameChar s first = false
  dollar : s ≠ '$'
  opens : s ≠ '{'
  closes : s ≠ '}'

variable {s : Char}

theorem isName_of_mem (hs : Separates isNameChar s) {key : Text} (h : s ∈ key) :
    isName isNameChar key = false := by
  cases key with
  | nil => rfl
  | cons c cs =>
      rw [isName]
      rcases List.mem_cons.mp h with rfl | h
      · rw [hs.name true, Bool.false_and]
      · have hall : cs.all (fun c => isNameChar c false) = false :=
          List.all_eq_false.mpr ⟨s, h, by rw [hs.name false]; exact Bool.false_ne_true⟩
        rw [hall, Bool.and_false]

/-- What is taken before a closing brace is taken whatever follows. -/
theorem takeWhile_append_of_mem {p : Char → Bool} {rest after : Text} {c : Char} (h : c ∈ rest)
    (hc : p c = false) : (rest ++ after).takeWhile p = rest.takeWhile p ∧
      (rest ++ after).dropWhile p = rest.dropWhile p ++ after := by
  induction rest with
  | nil => cases h
  | cons d rest ih =>
      rw [List.cons_append, List.takeWhile_cons, List.takeWhile_cons, List.dropWhile_cons,
        List.dropWhile_cons]
      by_cases hd : p d = true
      · rw [if_pos hd, if_pos hd, if_pos hd, if_pos hd]
        rcases List.mem_cons.mp h with rfl | h
        · rw [hc] at hd
          cases hd
        · exact ⟨congrArg _ (ih h).1, (ih h).2⟩
      · rw [if_neg hd, if_neg hd, if_neg hd, if_neg hd]
        exact ⟨rfl, rfl⟩

/-- What is taken before a character that is not taken, in front of it. -/
theorem takeWhile_append_cons {p : Char → Bool} {rest after : Text} (hs : p s = false) :
    (rest ++ s :: after).takeWhile p = rest.takeWhile p ∧
      (rest ++ s :: after).dropWhile p = rest.dropWhile p ++ s :: after := by
  induction rest with
  | nil =>
      rw [List.nil_append, List.takeWhile_cons, List.dropWhile_cons, hs]
      exact ⟨rfl, rfl⟩
  | cons d rest ih =>
      rw [List.cons_append, List.takeWhile_cons, List.takeWhile_cons, List.dropWhile_cons,
        List.dropWhile_cons]
      by_cases hd : p d = true
      · rw [if_pos hd, if_pos hd, if_pos hd, if_pos hd]
        exact ⟨congrArg _ ih.1, ih.2⟩
      · rw [if_neg hd, if_neg hd, if_neg hd, if_neg hd]
        exact ⟨rfl, rfl⟩

/-- A text is dropped up to the first of a character. -/
theorem dropWhile_ne_of_mem {c : Char} {rest : Text} (h : c ∈ rest) :
    rest.dropWhile (· ≠ c) = c :: (rest.dropWhile (· ≠ c)).tail := by
  induction rest with
  | nil => cases h
  | cons d rest ih =>
      rw [List.dropWhile_cons]
      by_cases hd : d = c
      · rw [if_neg (by simpa using hd), hd, List.tail_cons]
      · rw [if_pos (by simpa using hd)]
        exact ih ((List.mem_cons.mp h).resolve_left fun heq => hd heq.symm)

/-- The first piece of a text ends before the separator after it. -/
theorem firstPiece_append_cons (hs : Separates isNameChar s) {u rest : Text} {piece : Piece}
    (v : Text) (h : firstPiece isNameChar u = some (piece, rest)) :
    firstPiece isNameChar (u ++ s :: v) = some (piece, rest ++ s :: v) := by
  match u with
  | [] => cases h
  | c :: u =>
      by_cases hc : c = '$'
      · subst hc
        match u with
        | [] =>
            rw [firstPiece_dollar] at h
            cases h
            rw [List.singleton_append, firstPiece_bare hs.opens, hs.name true]
            rfl
        | first :: u =>
            by_cases hopen : first = '{'
            · subst hopen
              rw [firstPiece_braced] at h
              rw [List.cons_append, List.cons_append, firstPiece_braced]
              by_cases hclosed : '}' ∈ u
              · have hfalse : (decide ('}' ≠ '}')) = false := by decide
                obtain ⟨htake, hdrop⟩ :=
                  @takeWhile_append_of_mem (· ≠ '}') u (s :: v) '}' hclosed hfalse
                rw [htake, hdrop]
                have hmem : '}' ∈ u ++ s :: v := List.mem_append_left _ hclosed
                have hne : u.dropWhile (· ≠ '}') ≠ [] := by
                  rw [dropWhile_ne_of_mem hclosed]
                  exact List.cons_ne_nil _ _
                split_ifs at h with hcond
                · cases h
                  rw [if_pos ⟨hmem, hcond.2⟩, List.tail_append_of_ne_nil hne]
                · cases h
                  rw [if_neg fun hand => hcond ⟨hclosed, hand.2⟩]
                  rfl
              · -- a brace after the separator closes nothing: the name would reach across it
                rw [if_neg fun hand => hclosed hand.1] at h
                cases h
                rw [if_neg]
                · rfl
                · rintro ⟨-, hname⟩
                  have hmem : s ∈ (u ++ s :: v).takeWhile (· ≠ '}') := by
                    have hall : ∀ c ∈ u, (decide (c ≠ '}')) = true := fun c hc =>
                      decide_eq_true fun heq => hclosed (heq ▸ hc)
                    rw [List.takeWhile_append_of_pos hall, List.takeWhile_cons,
                      if_pos (decide_eq_true hs.closes)]
                    exact List.mem_append_right _ List.mem_cons_self
                  rw [isName_of_mem hs hmem] at hname
                  cases hname
            · rw [firstPiece_bare hopen] at h
              rw [List.cons_append, List.cons_append, firstPiece_bare hopen]
              obtain ⟨htake, hdrop⟩ :=
                @takeWhile_append_cons s (isNameChar · false) u v (hs.name false)
              rw [htake, hdrop]
              split_ifs at h ⊢ with hfirst
              · cases h
                rfl
              · cases h
                rfl
      · rw [firstPiece_cons_of_ne hc] at h
        cases h
        rw [List.cons_append, firstPiece_cons_of_ne hc]

/-- **No reference reaches across a separator**, by induction on the length of the text before
it. -/
theorem pieces_append_cons (hs : Separates isNameChar s) (u v : Text) :
    pieces isNameChar (u ++ s :: v) =
      pieces isNameChar u ++ .char s :: pieces isNameChar v := by
  induction hn : u.length using Nat.strong_induction_on generalizing u with
  | _ n ih =>
      cases hfirst : firstPiece isNameChar u with
      | none =>
          obtain rfl := eq_nil_of_firstPiece_eq_none hfirst
          exact pieces_of_firstPiece (firstPiece_cons_of_ne hs.dollar v)
      | some step =>
          obtain ⟨piece, rest⟩ := step
          have hlt := firstPiece_length hfirst
          rw [pieces_of_firstPiece (firstPiece_append_cons hs v hfirst),
            pieces_of_firstPiece hfirst, ih rest.length (by omega) rest rfl, List.cons_append]

theorem expand_append_cons (hs : Separates isNameChar s) {value : Piece → Text}
    (hvalue : value (.char s) = [s]) (u v : Text) :
    expand isNameChar value (u ++ s :: v) =
      expand isNameChar value u ++ s :: expand isNameChar value v := by
  rw [expand, pieces_append_cons hs, List.flatMap_append, List.flatMap_cons, hvalue]
  rfl

/-! ## What is put for the pieces -/

/-- The first piece, as it is written, is the start of the text. -/
theorem firstPiece_text {t rest : Text} {piece : Piece}
    (h : firstPiece isNameChar t = some (piece, rest)) : piece.text ++ rest = t := by
  unfold firstPiece at h
  split at h
  · cases h
  · next rest' =>
      split_ifs at h with hcond
      · cases h
        have hsplit := dropWhile_ne_of_mem hcond.1
        have hrest : rest'.takeWhile (· ≠ '}') ++ '}' :: (rest'.dropWhile (· ≠ '}')).tail =
            rest' := by
          rw [← hsplit, List.takeWhile_append_dropWhile]
        rw [Piece.text, List.append_assoc]
        exact congrArg (fun t => '$' :: '{' :: t) hrest
      · cases h
        rfl
  · next first rest' _ =>
      split_ifs at h
      · cases h
        exact congrArg (fun t => '$' :: first :: t) List.takeWhile_append_dropWhile
      · cases h
        rfl
  · cases h
    rfl

/-- The pieces, as they are written, are the text. -/
theorem expand_text (t : Text) : expand isNameChar Piece.text t = t := by
  induction hn : t.length using Nat.strong_induction_on generalizing t with
  | _ n ih =>
      cases hfirst : firstPiece isNameChar t with
      | none =>
          obtain rfl := eq_nil_of_firstPiece_eq_none hfirst
          rfl
      | some step =>
          obtain ⟨piece, rest⟩ := step
          have hlt := firstPiece_length hfirst
          have hrest := ih rest.length (by omega) rest rfl
          rw [expand, pieces_of_firstPiece hfirst, List.flatMap_cons]
          rw [expand] at hrest
          rw [hrest]
          exact firstPiece_text hfirst

/-- A text without references is what it is expanded to. -/
theorem expand_of_references_eq_nil {value : Piece → Text}
    (hvalue : ∀ c, value (.char c) = [c]) {t : Text} (h : references isNameChar t = []) :
    expand isNameChar value t = t := by
  have hpieces : ∀ piece ∈ pieces isNameChar t, value piece = piece.text := by
    intro piece hpiece
    have hkey : piece.key = none := List.filterMap_eq_nil_iff.mp h piece hpiece
    cases piece with
    | char c => exact hvalue c
    | ref key braced => cases hkey
  have htext := @expand_text isNameChar t
  rw [expand, List.flatMap_congr hpieces]
  exact htext

/-- Two ways of putting something for each piece come to the same if they agree on every one,
and, where one is never longer than the other, only then. -/
theorem flatMap_eq_flatMap_iff {α : Type*} {f g : α → Text} {ps : List α}
    (h : ∀ p ∈ ps, f p = g p ∨ (f p).length < (g p).length) :
    ps.flatMap f = ps.flatMap g ↔ ∀ p ∈ ps, f p = g p := by
  have hle : ∀ ps : List α, (∀ p ∈ ps, f p = g p ∨ (f p).length < (g p).length) →
      (ps.flatMap f).length ≤ (ps.flatMap g).length := by
    intro ps
    induction ps with
    | nil => exact fun _ => le_rfl
    | cons p ps ih =>
        intro hall
        have hp : (f p).length ≤ (g p).length := by
          rcases hall p List.mem_cons_self with heq | hlt
          · rw [heq]
          · exact hlt.le
        have hps := ih fun q hq => hall q (List.mem_cons_of_mem _ hq)
        rw [List.flatMap_cons, List.flatMap_cons, List.length_append, List.length_append]
        omega
  constructor
  · induction ps with
    | nil => exact fun _ => nofun
    | cons p ps ih =>
        intro heq
        obtain ⟨hp, hps⟩ := List.forall_mem_cons.mp h
        have hlength := hle ps hps
        rw [List.flatMap_cons, List.flatMap_cons] at heq
        rcases hp with hpeq | hlt
        · rw [hpeq] at heq
          exact List.forall_mem_cons.mpr ⟨hpeq, ih hps (List.append_cancel_left heq)⟩
        · -- a shorter piece is never made up for
          have hsame := congrArg List.length heq
          rw [List.length_append, List.length_append] at hsame
          omega
  · exact fun hall => List.flatMap_congr hall

theorem expand_eq_expand_iff {f g : Piece → Text} {t : Text}
    (h : ∀ p ∈ pieces isNameChar t, f p = g p ∨ (f p).length < (g p).length) :
    expand isNameChar f t = expand isNameChar g t ↔ ∀ p ∈ pieces isNameChar t, f p = g p :=
  flatMap_eq_flatMap_iff h

end Pieces

end VarRefs
