import SimpleClaw.Sandbox.Guest

/-!
# Where a normalized path is

Whether a path is below a root is decided on the two paths alone: both are normalized, and the one
is to start with the other, name by name.  Here the text of a path is walked piece by piece, as the
file system would without symbolic links, and the two are compared.

* `walkText`: the reference walk along the text of a path.
* `walk_parts_ofText`: the components of a path are walked as the pieces of its text are.
* `normalizeAbsolutePath_contains`: a normalized path is where the walk ends, and a joined path is
  below the root exactly if the walk from the root ends below it.
-/

namespace SimpleClaw
namespace Sandbox

open StackWalk (walk NeverAbove)

/-! ## The reference walk -/

/-- The move of a piece between two slashes. -/
def pieceMove (piece : Text) : StackWalk.Move Text :=
  if piece = [] ∨ piece = ['.'] then .stay
  else if piece = ['.', '.'] then .up
  else .down piece

/-- The moves of a text, one for each piece. -/
def textMoves (t : Text) : List (StackWalk.Move Text) := (t.splitOn '/').map pieceMove

/-- Where a walk along a text ends; nothing is above the root. -/
def walkText (start : List Text) (t : Text) : List Text := walk start (textMoves t)

/-- A piece is nothing, the parent or a name, to the one as to the other. -/
theorem ofPiece_cases {piece : Text} (hslash : '/' ∉ piece) :
    (Part.ofPiece piece = none ∧ pieceMove piece = .stay) ∨
      (Part.ofPiece piece = some .parentDir ∧ pieceMove piece = .up) ∨
      ∃ name : FileName, Part.ofPiece piece = some (.normal name) ∧
        pieceMove piece = .down name.text := by
  by_cases hempty : piece = [] ∨ piece = ['.']
  · refine .inl ⟨?_, if_pos hempty⟩
    rcases hempty with rfl | rfl <;> decide
  · by_cases hup : piece = ['.', '.']
    · exact .inr (.inl (by subst hup; exact ⟨by decide, rfl⟩))
    · obtain ⟨hne, hdot⟩ := not_or.mp hempty
      refine .inr (.inr ⟨⟨piece, hslash, hne, hdot, hup⟩, dif_pos ⟨hslash, hne, hdot, hup⟩, ?_⟩)
      rw [pieceMove, if_neg hempty, if_neg hup]

theorem walk_filterMap_ofPiece {pieces : List Text} (hslash : ∀ piece ∈ pieces, '/' ∉ piece)
    (start : List FileName) :
    (walk start ((pieces.filterMap Part.ofPiece).map Part.move)).map FileName.text =
      walk (start.map FileName.text) (pieces.map pieceMove) := by
  induction pieces generalizing start with
  | nil => rfl
  | cons piece pieces ih =>
    obtain ⟨hpiece, hslash⟩ := List.forall_mem_cons.mp hslash
    rw [List.map_cons, StackWalk.walk_cons]
    rcases ofPiece_cases hpiece with ⟨hpart, hmove⟩ | ⟨hpart, hmove⟩ | ⟨name, hpart, hmove⟩
    · rw [List.filterMap_cons_none hpart, ih hslash, hmove, StackWalk.move]
    · rw [List.filterMap_cons_some hpart, List.map_cons, StackWalk.walk_cons, ih hslash, hmove,
        StackWalk.map_move]
      rfl
    · rw [List.filterMap_cons_some hpart, List.map_cons, StackWalk.walk_cons, ih hslash, hmove,
        StackWalk.map_move]
      rfl

/-- **The components of a path are walked as the pieces of its text are.** -/
theorem walk_parts_ofText (t : Text) (start : List FileName) :
    (walk start ((PathBuf.ofText t).parts.map Part.move)).map FileName.text =
      walkText (start.map FileName.text) t := by
  have hslash : ∀ piece ∈ t.splitOn '/', '/' ∉ piece := fun piece => Text.notMem_of_mem_splitOn
  have hpieces := walk_filterMap_ofPiece hslash start
  rw [walkText, textMoves, ← hpieces]
  cases habs : (PathBuf.ofText t).isAbsolute with
  | true =>
    congr 2
    unfold PathBuf.ofText at habs ⊢
    split at habs
    · rfl
    · split at habs <;> cases habs
  | false => rw [PathBuf.walk_ofText habs]

/-! ## What normalization comes to -/

/-- No prefix of the path has more `..` than names. -/
def NeverPopsBelow (q : Text) : Prop :=
  ∀ pieces, pieces <+: q.splitOn '/' →
    pieces.countP (fun piece => (pieceMove piece).isUp) ≤
      pieces.countP fun piece => (pieceMove piece).isDown

/-- What the normalization of a path is to be, and where a path joined to a root is. -/
structure NormalizesLexically (p r : Text) : Prop where
  isAbsolute : (normalizeAbsolutePath (PathBuf.ofText p)).isAbsolute = true
  names : ∀ part ∈ (normalizeAbsolutePath (PathBuf.ofText p)).parts, ∃ name, part = .normal name
  fixed : normalizeAbsolutePath (normalizeAbsolutePath (PathBuf.ofText p)) =
    normalizeAbsolutePath (PathBuf.ofText p)
  reread : normalizeAbsolutePath
    (PathBuf.ofText (normalizeAbsolutePath (PathBuf.ofText p)).display) =
      normalizeAbsolutePath (PathBuf.ofText p)
  walk : (normalizeAbsolutePath (PathBuf.ofText p)).parts.map Part.text = walkText [] p
  contains : ∀ q, (PathBuf.ofText q).isAbsolute = false →
    ((normalizeAbsolutePath ((PathBuf.ofText r).join (PathBuf.ofText q))).startsWith
        (normalizeAbsolutePath (PathBuf.ofText r)) = true ↔
      walkText [] r <+: walkText (walkText [] r) q)
  below : ∀ q, (PathBuf.ofText q).isAbsolute = false → NeverPopsBelow q →
    (normalizeAbsolutePath ((PathBuf.ofText r).join (PathBuf.ofText q))).startsWith
      (normalizeAbsolutePath (PathBuf.ofText r)) = true

theorem map_text_names_ofText (t : Text) :
    (PathBuf.ofText t).names.map FileName.text = walkText [] t :=
  walk_parts_ofText t []

theorem map_text_prefix_iff {m n : List FileName} :
    m.map FileName.text <+: n.map FileName.text ↔ m <+: n := by
  have hinjective : Function.Injective FileName.text := fun _ _ => FileName.ext
  exact map_prefix_map_iff hinjective

/-- The names of a joined path are where the walk goes on from the root. -/
theorem names_join {r : PathBuf} (hr : r.isAbsolute = true) {q : PathBuf}
    (hq : q.isAbsolute = false) : (r.join q).names = walk r.names (q.parts.map Part.move) := by
  have hne : r ≠ PathBuf.empty := by
    rintro rfl
    exact absurd hr (by simp [PathBuf.empty])
  rw [PathBuf.join_parts hne hq, PathBuf.names, List.map_append, StackWalk.walk_append,
    Part.walk_filter]
  rfl

theorem startsWith_join_iff {r : PathBuf} (hr : r.isAbsolute = true) {q : PathBuf}
    (hq : q.isAbsolute = false) :
    (normalizeAbsolutePath (r.join q)).startsWith (normalizeAbsolutePath r) = true ↔
      r.names <+: walk r.names (q.parts.map Part.move) := by
  rw [normalizeAbsolutePath_eq, normalizeAbsolutePath_eq, PathBuf.isAbsolute_join_eq, hq, hr,
    Bool.false_or, PathBuf.startsWith, PathBuf.stripPrefix_ofNames, names_join hr hq]
  split <;> simp_all

/-- **Normalization is the walk along the text of a path**, and whether a joined path is below a
root is told by its normalization as by the walk from the root. -/
theorem normalizeAbsolutePath_contains {p r : Text} (hp : (PathBuf.ofText p).isAbsolute = true)
    (hr : (PathBuf.ofText r).isAbsolute = true) : NormalizesLexically p r := by
  have hcontains : ∀ q, (PathBuf.ofText q).isAbsolute = false →
      ((normalizeAbsolutePath ((PathBuf.ofText r).join (PathBuf.ofText q))).startsWith
          (normalizeAbsolutePath (PathBuf.ofText r)) = true ↔
        walkText [] r <+: walkText (walkText [] r) q) := by
    intro q hq
    rw [startsWith_join_iff hr hq, ← map_text_names_ofText, ← walk_parts_ofText,
      map_text_prefix_iff]
  constructor
  case isAbsolute =>
    rw [normalizeAbsolutePath_eq, PathBuf.isAbsolute_ofNames, hp]
  case names =>
    intro part hpart
    rw [normalizeAbsolutePath_eq] at hpart
    obtain ⟨name, -, rfl⟩ := List.mem_map.mp hpart
    exact ⟨name, rfl⟩
  case fixed =>
    rw [normalizeAbsolutePath_eq (PathBuf.ofText p), normalizeAbsolutePath_ofNames]
  case reread =>
    rw [normalizeAbsolutePath_eq (PathBuf.ofText p), hp, PathBuf.ofText_display_ofNames,
      normalizeAbsolutePath_ofNames]
  case walk =>
    rw [normalizeAbsolutePath_eq, ← map_text_names_ofText]
    exact List.map_map
  case contains => exact hcontains
  case below =>
    intro q hq hnever
    refine (hcontains q hq).mpr (NeverAbove.prefix_walk ?_ _)
    intro moves hmoves
    obtain ⟨pieces, hpieces, rfl⟩ := List.prefix_map_iff.mp hmoves
    have hcount := hnever pieces hpieces
    rwa [List.countP_map, List.countP_map]

/-- Up past the root, down again and up once more; a path that leaves its root and comes back. -/
theorem normalizeAbsolutePath_contains_workspace :
    let r : Text := "/work/./space"
    NormalizesLexically "/../a//b/./../c/" r ∧
      (normalizeAbsolutePath ((PathBuf.ofText r).join (PathBuf.ofText "../space/x"))).startsWith
        (normalizeAbsolutePath (PathBuf.ofText r)) = true :=
  have h := normalizeAbsolutePath_contains (p := "/../a//b/./../c/") (r := "/work/./space")
    (by decide) (by decide)
  ⟨h, (h.contains "../space/x" (by decide)).mpr ⟨[("x" : Text)], by decide⟩⟩

end Sandbox
end SimpleClaw
