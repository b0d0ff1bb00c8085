import SimpleClaw.Lib.Text
import SimpleClaw.Lib.StackWalk

/-!
# File paths

The paths of the standard library, component by component, on a Unix host with
UTF-8 names.  A path is absolute or relative and has a list of parts; two paths
are equal when their components are, so empty pieces and inner `.` pieces are
already gone.  `PathBuf.ofText` reads a path and `PathBuf.display` prints it.

`normalizeAbsolutePath` is the lexical normalization of `sandbox/common`: the
parts are walked over a stack, `..` pops, and nothing pops above the root.
`normalizeAbsolutePath_eq` says so in terms of `StackWalk.walk`, and every later
fact about it is read off that walk.

`PathBuf.Extends` says that a path goes on below another one, and is kept by joining
(`PathBuf.Extends.join`) and had by writing after a slash (`PathBuf.ofText_append_slash`).
-/

namespace SimpleClaw

/-- A name a directory entry can have. -/
structure FileName where
  text : Text
  isName : '/' ∉ text ∧ text ≠ [] ∧ text ≠ ['.'] ∧ text ≠ ['.', '.']
  deriving DecidableEq

@[ext] theorem FileName.ext {m n : FileName} (h : m.text = n.text) : m = n := by
  cases m; cases n; cases h; rfl

/-- One part of a path after its root. -/
inductive Part where
  | curDir
  | parentDir
  | normal (name : FileName)
  deriving DecidableEq

/-- A path: whether it starts at the root, and its parts. -/
structure PathBuf where
  isAbsolute : Bool
  parts : List Part
  deriving DecidableEq

/-! ## Reading and printing -/

/-- The part a piece between two slashes stands for; empty pieces and `.` stand for none. -/
def Part.ofPiece (piece : Text) : Option Part :=
  if h : '/' ∉ piece ∧ piece ≠ [] ∧ piece ≠ ['.'] ∧ piece ≠ ['.', '.'] then
    some (.normal ⟨piece, h⟩)
  else if piece = ['.', '.'] then some .parentDir
  else none

/-- A `.` counts as a part only where it starts a relative path. -/
def Part.ofFirstPiece (piece : Text) : Option Part :=
  if piece = ['.'] then some .curDir else Part.ofPiece piece

/-- `PathBuf::from` together with `Path::components`. -/
def PathBuf.ofText (t : Text) : PathBuf :=
  match t with
  | '/' :: _ => ⟨true, (t.splitOn '/').filterMap Part.ofPiece⟩
  | _ =>
      match t.splitOn '/' with
      | [] => ⟨false, []⟩
      | p :: ps => ⟨false, (Part.ofFirstPiece p).toList ++ ps.filterMap Part.ofPiece⟩

/-- A part as it is written. -/
def Part.text : Part → Text
  | .curDir => ['.']
  | .parentDir => ['.', '.']
  | .normal name => name.text

/-- `Path::display`. -/
def PathBuf.display (p : PathBuf) : Text :=
  (if p.isAbsolute then ['/'] else []) ++ Text.joinWith '/' (p.parts.map Part.text)

/-- `Path::new("")`. -/
def PathBuf.empty : PathBuf := ⟨false, []⟩

/-- `Path::new(".")`. -/
def PathBuf.current : PathBuf := ⟨false, [.curDir]⟩

/-- `Path::parent`: neither the empty path nor the root has one. -/
def PathBuf.parent (p : PathBuf) : Option PathBuf :=
  if p.parts = [] then none else some { p with parts := p.parts.dropLast }

/-- `Path::file_name`: the last part, if it is a name. -/
def PathBuf.fileName (p : PathBuf) : Option FileName :=
  match p.parts.getLast? with
  | some (.normal name) => some name
  | _ => none

/-- `Path::join`: an absolute right-hand side replaces the left-hand side. -/
def PathBuf.join (p q : PathBuf) : PathBuf :=
  if q.isAbsolute then q
  else if p = PathBuf.empty then q
  else ⟨p.isAbsolute, p.parts ++ q.parts.filter (· ≠ .curDir)⟩

/-- `Path::strip_prefix`, by components. -/
def PathBuf.stripPrefix (p base : PathBuf) : Option PathBuf :=
  if base.isAbsolute = p.isAbsolute then
    if base.parts <+: p.parts then some ⟨false, p.parts.drop base.parts.length⟩ else none
  else if base = PathBuf.empty then some p
  else none

/-- `Path::starts_with`, by components. -/
def PathBuf.startsWith (p base : PathBuf) : Bool := (p.stripPrefix base).isSome

/-- `path.components().count()`. -/
def PathBuf.componentCount (p : PathBuf) : Nat :=
  p.parts.length + if p.isAbsolute then 1 else 0

/-! ## Lexical normalization -/

/-- One turn of the loop of `normalize_absolute_path`; what has been built so far has only
names after its root, so it can be popped as long as there is one. -/
def normalizeStep (normalized : PathBuf) : Part → PathBuf
  | .curDir => normalized
  | .parentDir =>
      let canPop := normalized.parts ≠ []
      if canPop then { normalized with parts := normalized.parts.dropLast } else normalized
  | .normal part => { normalized with parts := normalized.parts ++ [.normal part] }

/-- `normalize_absolute_path`. -/
def normalizeAbsolutePath (path : PathBuf) : PathBuf :=
  path.parts.foldl normalizeStep ⟨path.isAbsolute, []⟩

/-- The move a part makes on the stack of names. -/
def Part.move : Part → StackWalk.Move FileName
  | .curDir => .stay
  | .parentDir => .up
  | .normal name => .down name

/-- A path whose parts are all names. -/
def PathBuf.ofNames (isAbsolute : Bool) (names : List FileName) : PathBuf :=
  ⟨isAbsolute, names.map Part.normal⟩

/-- The names a path walks to, starting from a stack of names. -/
def PathBuf.names (p : PathBuf) : List FileName := StackWalk.walk [] (p.parts.map Part.move)

theorem Part.normal_injective : Function.Injective Part.normal := by
  intro m n h
  injection h

/-- Names only go down. -/
theorem Part.map_move_normal (names : List FileName) :
    (names.map Part.normal).map Part.move = names.map StackWalk.Move.down := by
  rw [List.map_map]
  rfl

theorem normalizeStep_ofNames (b : Bool) (names : List FileName) (part : Part) :
    normalizeStep (PathBuf.ofNames b names) part =
      PathBuf.ofNames b (StackWalk.move names part.move) := by
  cases part with
  | curDir => rfl
  | parentDir =>
      rcases List.eq_nil_or_concat names with rfl | ⟨init, last, rfl⟩
      · rfl
      · simp [normalizeStep, PathBuf.ofNames, Part.move, StackWalk.move]
  | normal name => simp [normalizeStep, PathBuf.ofNames, Part.move, StackWalk.move]

/-- **Normalization is a walk over a stack of names.** -/
theorem normalizeAbsolutePath_eq (p : PathBuf) :
    normalizeAbsolutePath p = PathBuf.ofNames p.isAbsolute p.names := by
  have hwalk : ∀ (b : Bool) (parts : List Part) (names : List FileName),
      parts.foldl normalizeStep (PathBuf.ofNames b names) =
        PathBuf.ofNames b (StackWalk.walk names (parts.map Part.move)) := by
    intro b parts
    induction parts with
    | nil => intro names; rfl
    | cons part parts ih =>
        intro names
        rw [List.foldl_cons, normalizeStep_ofNames, ih, List.map_cons, StackWalk.walk_cons]
  exact hwalk p.isAbsolute p.parts []

@[simp] theorem PathBuf.names_ofNames (b : Bool) (names : List FileName) :
    (PathBuf.ofNames b names).names = names := by
  rw [PathBuf.names, PathBuf.ofNames, Part.map_move_normal, StackWalk.walk_map_down,
    List.nil_append]

@[simp] theorem PathBuf.isAbsolute_ofNames (b : Bool) (names : List FileName) :
    (PathBuf.ofNames b names).isAbsolute = b := rfl

/-- Normalizing a normalized path changes nothing. -/
@[simp] theorem normalizeAbsolutePath_ofNames (b : Bool) (names : List FileName) :
    normalizeAbsolutePath (PathBuf.ofNames b names) = PathBuf.ofNames b names := by
  rw [normalizeAbsolutePath_eq, PathBuf.names_ofNames, PathBuf.isAbsolute_ofNames]

theorem PathBuf.ofNames_injective {b b' : Bool} {m n : List FileName}
    (h : PathBuf.ofNames b m = PathBuf.ofNames b' n) : b = b' ∧ m = n := by
  injection h with hb hparts
  exact ⟨hb, List.map_injective_iff.mpr Part.normal_injective hparts⟩

/-! ## Prefixes of normalized paths -/

theorem PathBuf.ofNames_ne_current (b : Bool) (names : List FileName) :
    PathBuf.ofNames b names ≠ PathBuf.current := by
  intro h
  have hparts : names.map Part.normal = [.curDir] := congrArg PathBuf.parts h
  obtain ⟨name, hname⟩ : ∃ name, Part.normal name = .curDir := by
    have hmem : Part.curDir ∈ names.map Part.normal := hparts ▸ List.mem_singleton_self _
    obtain ⟨name, -, hname⟩ := List.mem_map.mp hmem
    exact ⟨name, hname⟩
  exact Part.noConfusion hname

/-- The parent of a name path is what comes before its last name. -/
theorem PathBuf.parent_ofNames_concat (b : Bool) (names : List FileName) (name : FileName) :
    (PathBuf.ofNames b (names ++ [name])).parent = some (PathBuf.ofNames b names) := by
  simp [PathBuf.parent, PathBuf.ofNames]

theorem PathBuf.parent_length {p q : PathBuf} (h : p.parent = some q) :
    p.parts.length = q.parts.length + 1 := by
  unfold PathBuf.parent at h
  split at h
  · cases h
  · rename_i hparts
    obtain rfl := Option.some.inj h
    have hpos : 0 < p.parts.length := List.length_pos_iff.mpr hparts
    rw [List.length_dropLast]
    omega

/-- Lists with other names for their entries begin as the lists do. -/
theorem map_prefix_map_iff {α β : Type*} {f : α → β} (hf : Function.Injective f) {m n : List α} :
    m.map f <+: n.map f ↔ m <+: n := by
  refine ⟨fun h => ?_, fun h => h.map f⟩
  obtain ⟨l, hl, hm⟩ := List.prefix_map_iff.mp h
  rwa [List.map_injective_iff.mpr hf hm]

theorem PathBuf.ofNames_prefix {b : Bool} {m n : List FileName} :
    (PathBuf.ofNames b m).parts <+: (PathBuf.ofNames b n).parts ↔ m <+: n :=
  map_prefix_map_iff Part.normal_injective

/-- A normalized path of the same kind is stripped name by name. -/
theorem PathBuf.stripPrefix_ofNames (b : Bool) (m n : List FileName) :
    (PathBuf.ofNames b n).stripPrefix (PathBuf.ofNames b m) =
      if m <+: n then some (PathBuf.ofNames false (n.drop m.length)) else none := by
  have hkind : (PathBuf.ofNames b m).isAbsolute = (PathBuf.ofNames b n).isAbsolute := rfl
  rw [PathBuf.stripPrefix, if_pos hkind]
  by_cases h : m <+: n
  · rw [if_pos (PathBuf.ofNames_prefix.mpr h), if_pos h]
    simp [PathBuf.ofNames]
  · rw [if_neg fun hp => h (PathBuf.ofNames_prefix.mp hp), if_neg h]

/-- An absolute path starts with a directory of the root exactly if that is its first name. -/
theorem PathBuf.startsWith_singleton (m : FileName) (names : List FileName) :
    (PathBuf.ofNames true names).startsWith (PathBuf.ofNames true [m]) = true ↔
      ∃ q, names = m :: q := by
  rw [PathBuf.startsWith, PathBuf.stripPrefix_ofNames]
  by_cases h : [m] <+: names
  · obtain ⟨q, rfl⟩ := h
    simp
  · rw [if_neg h]
    refine iff_of_false (by simp) ?_
    rintro ⟨q, rfl⟩
    exact h ⟨q, rfl⟩

/-- No relative path is under an absolute one. -/
theorem PathBuf.stripPrefix_absolute_of_relative {p base : PathBuf} (hp : p.isAbsolute = false)
    (hb : base.isAbsolute = true) : p.stripPrefix base = none := by
  have hne : base ≠ PathBuf.empty := by
    rintro rfl
    exact absurd hb (by simp [PathBuf.empty])
  rw [PathBuf.stripPrefix, if_neg (by rw [hp, hb]; simp), if_neg hne]

/-- What is stripped off an absolute path is put back by appending. -/
theorem PathBuf.stripPrefix_ofNames_eq_some {b : Bool} {m n : List FileName} {rel : PathBuf}
    (h : (PathBuf.ofNames b n).stripPrefix (PathBuf.ofNames b m) = some rel) :
    ∃ r, rel = PathBuf.ofNames false r ∧ n = m ++ r := by
  rw [PathBuf.stripPrefix_ofNames] at h
  by_cases hmn : m <+: n
  · rw [if_pos hmn] at h
    refine ⟨n.drop m.length, (Option.some.inj h).symm, ?_⟩
    obtain ⟨t, rfl⟩ := hmn
    simp
  · rw [if_neg hmn] at h
    exact absurd h (by simp)

/-- Joining a list of names to a path appends them to the names it walks to. -/
theorem normalizeAbsolutePath_join_ofNames {p : PathBuf} (hp : p.isAbsolute = true)
    (r : List FileName) :
    normalizeAbsolutePath (p.join (PathBuf.ofNames false r)) =
      PathBuf.ofNames true (p.names ++ r) := by
  have hne : p ≠ PathBuf.empty := by
    rintro rfl
    exact absurd hp (by simp [PathBuf.empty])
  have hkeep : (r.map Part.normal).filter (· ≠ .curDir) = r.map Part.normal := by
    rw [List.filter_eq_self]
    intro part hpart
    obtain ⟨name, -, rfl⟩ := List.mem_map.mp hpart
    simp
  have hjoin : p.join (PathBuf.ofNames false r) = ⟨p.isAbsolute, p.parts ++ r.map Part.normal⟩ := by
    rw [PathBuf.join, if_neg (by simp), if_neg hne]
    simp only [PathBuf.ofNames, hkeep]
  rw [hjoin, normalizeAbsolutePath_eq, PathBuf.names, List.map_append, StackWalk.walk_append,
    Part.map_move_normal, StackWalk.walk_map_down, hp]
  rfl

/-! ## Printing and reading back -/

theorem Part.ofPiece_nil : Part.ofPiece [] = none := by simp [Part.ofPiece]

@[simp] theorem Part.ofPiece_text (name : FileName) :
    Part.ofPiece name.text = some (.normal name) := by
  rw [Part.ofPiece, dif_pos name.isName]

/-- A name is written as the piece it was read from. -/
theorem Part.text_of_ofPiece {piece : Text} {name : FileName}
    (h : Part.ofPiece piece = some (.normal name)) : name.text = piece := by
  unfold Part.ofPiece at h
  split at h
  · cases h
    rfl
  · split at h <;> cases h

/-- A path written with a leading slash is absolute, and its pieces are its parts. -/
theorem PathBuf.ofText_slash_joinWith {pieces : List Text} (hsep : ∀ p ∈ pieces, '/' ∉ p)
    (hne : pieces ≠ []) :
    PathBuf.ofText ('/' :: Text.joinWith '/' pieces) = ⟨true, pieces.filterMap Part.ofPiece⟩ := by
  have hsplit : ('/' :: Text.joinWith '/' pieces).splitOn '/' = [] :: pieces := by
    rw [List.splitOn_cons_eq_if_modifyHead, Text.splitOn_joinWith hsep hne]
    simp
  rw [PathBuf.ofText, hsplit, List.filterMap_cons, Part.ofPiece_nil]

theorem filterMap_ofPiece_text (names : List FileName) :
    (names.map FileName.text).filterMap Part.ofPiece = names.map Part.normal := by
  induction names with
  | nil => rfl
  | cons name names ih => simp [ih]

/-- **A normalized absolute path is read back as it was printed.** -/
theorem PathBuf.ofText_display_ofNames (names : List FileName) :
    PathBuf.ofText (PathBuf.ofNames true names).display = PathBuf.ofNames true names := by
  have hdisplay : (PathBuf.ofNames true names).display =
      '/' :: Text.joinWith '/' (names.map FileName.text) := by
    simp only [PathBuf.display, PathBuf.ofNames, List.map_map]
    rfl
  rw [hdisplay]
  by_cases hne : names = []
  · subst hne
    decide
  · rw [PathBuf.ofText_slash_joinWith, filterMap_ofPiece_text]
    · rfl
    · intro p hp
      obtain ⟨name, -, rfl⟩ := List.mem_map.mp hp
      exact name.isName.1
    · simpa using hne

theorem Part.ofPiece_part_text (part : Part) :
    Part.ofPiece part.text = if part = .curDir then none else some part := by
  cases part with
  | curDir => decide
  | parentDir => decide
  | normal name => exact Part.ofPiece_text name

theorem Part.slash_notMem_text (part : Part) : '/' ∉ part.text := by
  cases part with
  | curDir => decide
  | parentDir => decide
  | normal name => exact name.isName.1

/-- A walk does not notice the parts that say to stay put. -/
theorem Part.walk_filter (names : List FileName) (parts : List Part) :
    StackWalk.walk names ((parts.filter (· ≠ .curDir)).map Part.move) =
      StackWalk.walk names (parts.map Part.move) := by
  induction parts generalizing names with
  | nil => rfl
  | cons part parts ih =>
      cases part with
      | curDir => exact ih names
      | parentDir => exact ih names.dropLast
      | normal name => exact ih (names ++ [name])

/-- **An absolute path is read back as it was printed**, up to normalization: printing keeps
the parts that say to stay put and reading drops them. -/
theorem normalizeAbsolutePath_ofText_display {p : PathBuf} (hp : p.isAbsolute = true) :
    normalizeAbsolutePath (PathBuf.ofText p.display) = normalizeAbsolutePath p := by
  by_cases hne : p.parts = []
  · obtain ⟨b, parts⟩ := p
    subst hp
    subst hne
    decide
  · have hsep : ∀ piece ∈ p.parts.map Part.text, '/' ∉ piece := by
      intro piece hpiece
      obtain ⟨part, -, rfl⟩ := List.mem_map.mp hpiece
      exact part.slash_notMem_text
    have hread : (p.parts.map Part.text).filterMap Part.ofPiece =
        p.parts.filter (· ≠ .curDir) := by
      induction p.parts with
      | nil => rfl
      | cons part parts ih =>
          rw [List.map_cons, List.filterMap_cons, Part.ofPiece_part_text, ih]
          by_cases hcur : part = .curDir
          · simp [hcur]
          · simp [hcur]
    have hdisplay : p.display = '/' :: Text.joinWith '/' (p.parts.map Part.text) := by
      rw [PathBuf.display, if_pos hp]
      rfl
    rw [hdisplay, PathBuf.ofText_slash_joinWith hsep (by simpa using hne), hread,
      normalizeAbsolutePath_eq, normalizeAbsolutePath_eq, hp, PathBuf.names, PathBuf.names,
      Part.walk_filter]

/-- Every path is below itself. -/
theorem PathBuf.startsWith_self (p : PathBuf) : p.startsWith p = true := by
  rw [PathBuf.startsWith, PathBuf.stripPrefix, if_pos rfl, if_pos (List.prefix_refl _)]
  rfl

/-! ## Below a path -/

/-- The second path is the first with names below it, wherever a walk along the two starts. -/
structure PathBuf.Extends (p q : PathBuf) (names : List FileName) : Prop where
  isAbsolute : q.isAbsolute = p.isAbsolute
  walk : ∀ st, StackWalk.walk st (q.parts.map Part.move) =
    StackWalk.walk st (p.parts.map Part.move) ++ names

theorem PathBuf.Extends.names_eq {p q : PathBuf} {names : List FileName}
    (h : p.Extends q names) : q.names = p.names ++ names := h.walk []

/-- What is joined to a path is joined to the parts of the path. -/
theorem PathBuf.join_parts {p q : PathBuf} (hp : p ≠ PathBuf.empty) (hq : q.isAbsolute = false) :
    p.join q = ⟨p.isAbsolute, p.parts ++ q.parts.filter (· ≠ .curDir)⟩ := by
  rw [PathBuf.join, if_neg (by simp [hq]), if_neg hp]

theorem PathBuf.empty_join (q : PathBuf) : PathBuf.empty.join q = q := by
  rw [PathBuf.join, if_pos rfl, ite_self]

/-- Joining keeps what is below. -/
theorem PathBuf.Extends.join {p q : PathBuf} {names : List FileName} (h : p.Extends q names)
    (base : PathBuf) : (base.join p).Extends (base.join q) names := by
  by_cases habs : p.isAbsolute = true
  · have hq : q.isAbsolute = true := h.isAbsolute.trans habs
    rw [PathBuf.join, PathBuf.join, if_pos habs, if_pos hq]
    exact h
  · have hp : p.isAbsolute = false := by simpa using habs
    have hq : q.isAbsolute = false := h.isAbsolute.trans hp
    by_cases hbase : base = PathBuf.empty
    · rw [hbase, PathBuf.empty_join, PathBuf.empty_join]
      exact h
    · rw [PathBuf.join_parts hbase hp, PathBuf.join_parts hbase hq]
      refine ⟨rfl, fun st => ?_⟩
      simp only [List.map_append, StackWalk.walk_append, Part.walk_filter]
      exact h.walk _

/-- Without `..` a walk appends the names it would walk to from the root. -/
theorem Part.walk_of_notMem_parentDir {parts : List Part} (h : Part.parentDir ∉ parts)
    (st : List FileName) : StackWalk.walk st (parts.map Part.move) =
      st ++ StackWalk.walk [] (parts.map Part.move) := by
  induction parts generalizing st with
  | nil => simp
  | cons part parts ih =>
      have hparts : Part.parentDir ∉ parts := fun hmem => h (List.mem_cons_of_mem _ hmem)
      cases part with
      | curDir => exact ih hparts st
      | parentDir => exact absurd List.mem_cons_self h
      | normal name =>
          have hstart := ih hparts [name]
          have hst := ih hparts (st ++ [name])
          rw [List.append_assoc, ← hstart] at hst
          exact hst

/-- A relative path without `..` is joined below. -/
theorem PathBuf.extends_join {q : PathBuf} (hq : q.isAbsolute = false)
    (hdot : Part.parentDir ∉ q.parts) (p : PathBuf) : p.Extends (p.join q) q.names := by
  by_cases hp : p = PathBuf.empty
  · rw [hp, PathBuf.empty_join]
    exact ⟨hq, fun st => Part.walk_of_notMem_parentDir hdot st⟩
  · rw [PathBuf.join_parts hp hq]
    refine ⟨rfl, fun st => ?_⟩
    simp only [List.map_append, StackWalk.walk_append, Part.walk_filter]
    exact Part.walk_of_notMem_parentDir hdot _

/-- A text that is a relative path is walked along as its pieces are, the first like any other. -/
theorem PathBuf.walk_ofText {t : Text} (ht : (PathBuf.ofText t).isAbsolute = false)
    (st : List FileName) :
    StackWalk.walk st (((t.splitOn '/').filterMap Part.ofPiece).map Part.move) =
      StackWalk.walk st ((PathBuf.ofText t).parts.map Part.move) := by
  unfold PathBuf.ofText at ht ⊢
  split at ht
  · cases ht
  · cases hsplit : t.splitOn '/' with
    | nil => rfl
    | cons piece pieces =>
        by_cases hcur : piece = ['.']
        · subst hcur
          rfl
        · simp only [Part.ofFirstPiece, if_neg hcur]
          cases hpiece : Part.ofPiece piece with
          | none => simp [hpiece]
          | some part => simp [hpiece]

/-- A text that does not start with a slash is read piece by piece. -/
theorem PathBuf.ofText_of_splitOn {c : Char} {t piece : Text} {pieces : List Text} (hc : c ≠ '/')
    (h : (c :: t).splitOn '/' = piece :: pieces) :
    PathBuf.ofText (c :: t) =
      ⟨false, (Part.ofFirstPiece piece).toList ++ pieces.filterMap Part.ofPiece⟩ := by
  rw [PathBuf.ofText, h]
  rintro rest heq
  exact hc (List.cons.inj heq).1

/-- **A path written after a slash is below what is written before it.** -/
theorem PathBuf.ofText_append_slash {v : Text} (hv : (PathBuf.ofText v).isAbsolute = false)
    (hdot : Part.parentDir ∉ (PathBuf.ofText v).parts) (u : Text) :
    (PathBuf.ofText (u ++ ['/'])).Extends (PathBuf.ofText (u ++ '/' :: v))
      (PathBuf.ofText v).names := by
  have hsplit : ∀ w, (u ++ '/' :: w).splitOn '/' = u.splitOn '/' ++ w.splitOn '/' := fun w =>
    List.splitOn_append_cons_self u w
  have hend : (([] : Text).splitOn '/').filterMap Part.ofPiece = [] := by decide
  have hbelow : ∀ st, StackWalk.walk st (((v.splitOn '/').filterMap Part.ofPiece).map Part.move) =
      st ++ (PathBuf.ofText v).names := fun st =>
    (PathBuf.walk_ofText hv st).trans (Part.walk_of_notMem_parentDir hdot st)
  by_cases hslash : u.head?.getD '/' = '/'
  · have hread : ∀ w, PathBuf.ofText (u ++ '/' :: w) =
        ⟨true, (u.splitOn '/' ++ w.splitOn '/').filterMap Part.ofPiece⟩ := by
      intro w
      rw [← hsplit]
      cases u with
      | nil => rfl
      | cons c u =>
          obtain rfl : c = '/' := hslash
          rfl
    rw [hread, hread]
    refine ⟨rfl, fun st => ?_⟩
    simp only [List.filterMap_append, List.map_append, StackWalk.walk_append, hbelow, hend,
      List.map_nil, StackWalk.walk_nil]
  · obtain ⟨c, u, rfl⟩ : ∃ c u', u = c :: u' := by
      cases u with
      | nil => exact absurd rfl hslash
      | cons c u => exact ⟨c, u, rfl⟩
    have hc : c ≠ '/' := hslash
    cases hfirst : (c :: u).splitOn '/' with
    | nil => exact absurd hfirst (List.splitOn_ne_nil _ _)
    | cons p ps =>
        have hread : ∀ w, PathBuf.ofText (c :: u ++ '/' :: w) = ⟨false,
            (Part.ofFirstPiece p).toList ++ (ps ++ w.splitOn '/').filterMap Part.ofPiece⟩ := by
          intro w
          have hw := hsplit w
          rw [hfirst, List.cons_append, List.cons_append] at hw
          exact PathBuf.ofText_of_splitOn hc hw
        rw [hread, hread]
        refine ⟨rfl, fun st => ?_⟩
        simp only [List.filterMap_append, List.map_append, StackWalk.walk_append, hbelow, hend,
          List.map_nil, StackWalk.walk_nil]

/-- A slash at the end says nothing. -/
theorem PathBuf.ofText_slash {u : Text} (hu : u ≠ []) :
    PathBuf.ofText (u ++ ['/']) = PathBuf.ofText u := by
  have hsplit : (u ++ ['/']).splitOn '/' = u.splitOn '/' ++ [[]] :=
    List.splitOn_append_cons_self u []
  obtain ⟨c, u, rfl⟩ := List.exists_cons_of_ne_nil hu
  have hend : ([[]] : List Text).filterMap Part.ofPiece = [] := by decide
  by_cases hc : c = '/'
  · subst hc
    rw [List.cons_append] at hsplit ⊢
    rw [PathBuf.ofText, PathBuf.ofText, hsplit, List.filterMap_append, hend, List.append_nil]
  · cases hfirst : (c :: u).splitOn '/' with
    | nil => exact absurd hfirst (List.splitOn_ne_nil _ _)
    | cons p ps =>
        rw [hfirst, List.cons_append] at hsplit
        rw [List.cons_append] at hsplit ⊢
        rw [PathBuf.ofText_of_splitOn hc hfirst, PathBuf.ofText_of_splitOn hc hsplit,
          List.filterMap_append, hend, List.append_nil]

theorem PathBuf.isAbsolute_join_eq (p q : PathBuf) :
    (p.join q).isAbsolute = (q.isAbsolute || p.isAbsolute) := by
  unfold PathBuf.join
  cases hq : q.isAbsolute with
  | true => simp [hq]
  | false =>
      by_cases hp : p = PathBuf.empty
      · simp [hp, hq, PathBuf.empty]
      · simp [hp]

end SimpleClaw
