import SimpleClaw.Lib.Text

/-!
# A fragment of the POSIX shell language

Simple commands whose words are written plainly, in single or double quotes or with
backslashes, without any expansion, with output redirections in any position, joined by
`;`, `&&`, `||`, `|`, `&` and newlines.  A command text is read in two steps: `Shell.lex` finds
the tokens and `Shell.read` the simple commands.  Text outside the fragment is not read at all:
anything that would be expanded, other redirections, compound commands, comments, and what the
grammar does not allow.

A word keeps how each of its characters is written, so that its text can be compared with what
a cruder reader makes of it.
-/

namespace Shell

/-! ## Words -/

/-- One element of a word as it is written. -/
inductive Elem where
  /-- an unquoted character -/
  | plain (c : Char)
  /-- a character after an unquoted backslash -/
  | escaped (c : Char)
  /-- a character in single quotes -/
  | single (c : Char)
  /-- a character in double quotes -/
  | double (c : Char)
  /-- a character in double quotes that the backslash before it quotes -/
  | doubleEscaped (c : Char)
  /-- a backslash in double quotes that quotes nothing, and the character after it -/
  | doubleBackslash (c : Char)
  /-- a quotation mark -/
  | quote
  /-- a backslash and the end of the line, which join two lines -/
  | continuation
  deriving DecidableEq

/-- What an element stands for. -/
def Elem.text : Elem → Text
  | .plain c | .escaped c | .single c | .double c | .doubleEscaped c => [c]
  | .doubleBackslash c => ['\\', c]
  | .quote | .continuation => []

abbrev Word := List Elem

/-- What a word stands for: its text after quote removal. -/
def Word.text (w : Word) : Text := w.flatMap Elem.text

/-- Nothing has been written yet but line ends that are joined. -/
def Word.isBlank (w : Word) : Bool := w.all (· = .continuation)

/-- A number right before a redirection, which names a file descriptor. -/
def Word.isIoNumber (w : Word) : Bool :=
  !w.isBlank && w.all fun e =>
    match e with
    | .plain c => c.isDigit
    | .continuation => true
    | _ => false

/-! ## Tokens -/

inductive Separator where
  | semi
  | andIf
  | orIf
  | pipe
  | background
  | newline
  deriving DecidableEq

inductive Item where
  | word (w : Word)
  /-- `>` or `>>` -/
  | redirect (ioNumber : Word) (append : Bool)
  | separator (s : Separator)
  deriving DecidableEq

/-- How the characters to come are quoted. -/
inductive Mode where
  | unquoted
  | single
  | double
  deriving DecidableEq

/-- The token of a word, if one has been begun. -/
def wordItem (w : Word) : List Item := if w = [] then [] else [.word w]

/-- The tokens of a redirection and of the word or number before it. -/
def redirectItems (w : Word) (append : Bool) : List Item :=
  if w.isIoNumber then [.redirect w append] else wordItem w ++ [.redirect [] append]

/-- Unquoted characters that start something outside the fragment. -/
def isSpecial (c : Char) : Bool := ['<', '(', ')', '$', '\x60', '*', '?', '['].contains c

/-- The reader's loop, with the quoting, the word begun and the text to read. -/
def lexFrom : Mode → Word → Text → Option (List Item)
  | .unquoted, w, [] => some (wordItem w)
  | .single, _, [] => none
  | .double, _, [] => none
  | .single, w, c :: rest =>
      if c = '\'' then lexFrom .unquoted (w ++ [.quote]) rest
      else lexFrom .single (w ++ [.single c]) rest
  | .double, w, c :: rest =>
      if c = '"' then lexFrom .unquoted (w ++ [.quote]) rest
      else if c = '\\' then
        match rest with
        | [] => none
        | next :: rest =>
            if next = '\n' then lexFrom .double (w ++ [.continuation]) rest
            else if ['$', '\x60', '"', '\\'].contains next then
              lexFrom .double (w ++ [.doubleEscaped next]) rest
            else lexFrom .double (w ++ [.doubleBackslash next]) rest
      else if c = '$' ∨ c = '\x60' then none
      else lexFrom .double (w ++ [.double c]) rest
  | .unquoted, w, c :: rest =>
      if c = '\'' then lexFrom .single (w ++ [.quote]) rest
      else if c = '"' then lexFrom .double (w ++ [.quote]) rest
      else if c = '\\' then
        match rest with
        | [] => none
        | next :: rest =>
            if next = '\n' then lexFrom .unquoted (w ++ [.continuation]) rest
            else lexFrom .unquoted (w ++ [.escaped next]) rest
      else if c = ' ' ∨ c = '\t' then (lexFrom .unquoted [] rest).map (wordItem w ++ ·)
      else if c = '\n' then
        (lexFrom .unquoted [] rest).map (wordItem w ++ .separator .newline :: ·)
      else if c = ';' then
        match rest with
        | ';' :: _ => none
        | rest => (lexFrom .unquoted [] rest).map (wordItem w ++ .separator .semi :: ·)
      else if c = '&' then
        match rest with
        | '&' :: rest => (lexFrom .unquoted [] rest).map (wordItem w ++ .separator .andIf :: ·)
        | rest => (lexFrom .unquoted [] rest).map (wordItem w ++ .separator .background :: ·)
      else if c = '|' then
        match rest with
        | '|' :: rest => (lexFrom .unquoted [] rest).map (wordItem w ++ .separator .orIf :: ·)
        | rest => (lexFrom .unquoted [] rest).map (wordItem w ++ .separator .pipe :: ·)
      else if c = '>' then
        match rest with
        | '>' :: rest => (lexFrom .unquoted [] rest).map (redirectItems w true ++ ·)
        | '&' :: _ => none
        | '|' :: _ => none
        | rest => (lexFrom .unquoted [] rest).map (redirectItems w false ++ ·)
      else if isSpecial c || ((c == '#' || c == '~') && w.isBlank) then none
      else lexFrom .unquoted (w ++ [.plain c]) rest

/-- The tokens of a text. -/
def lex (t : Text) : Option (List Item) := lexFrom .unquoted [] t

/-! ## Simple commands -/

/-- A part of a simple command. -/
inductive Piece where
  | word (w : Word)
  | redirect (ioNumber : Word) (append : Bool) (target : Word)
  deriving DecidableEq

abbrev SimpleCommand := List Piece

/-- The words that are read otherwise where they begin a command. -/
def reservedWords : List Text :=
  [("!" : Text), ("\x7b" : Text), ("\x7d" : Text), ("case" : Text), ("do" : Text), ("done" : Text),
    ("elif" : Text), ("else" : Text), ("esac" : Text), ("fi" : Text), ("for" : Text),
    ("if" : Text), ("then" : Text), ("until" : Text), ("while" : Text)]

/-- The word is written without quoting. -/
def Word.isPlain (w : Word) : Bool :=
  w.all fun e => match e with | .plain _ | .continuation => true | _ => false

def isReserved (w : Word) : Bool := w.isPlain && reservedWords.contains w.text

/-- The pieces of a simple command.  A redirection must have its target. -/
def parsePieces : List Item → Option SimpleCommand
  | [] => some []
  | .word w :: items =>
      if w.isBlank then parsePieces items else (parsePieces items).map (.word w :: ·)
  | .redirect ioNumber append :: .word w :: items =>
      if w.isBlank then none
      else (parsePieces items).map (.redirect ioNumber append w :: ·)
  | .redirect _ _ :: _ => none
  | .separator _ :: _ => none

def parseCommand (items : List Item) : Option SimpleCommand :=
  match parsePieces items with
  | some (.word w :: pieces) => if isReserved w then none else some (.word w :: pieces)
  | found => found

/-- Separators stand where the grammar allows them.  The flags say that a command must follow
and that one has been begun. -/
def separatorsFit : Bool → Bool → List Item → Bool
  | due, begun, [] => begun || !due
  | due, begun, .separator .newline :: items =>
      if begun then separatorsFit false false items else separatorsFit due false items
  | _, begun, .separator s :: items =>
      begun && separatorsFit (s = .andIf || s = .orIf || s = .pipe) false items
  | due, begun, .word w :: items => separatorsFit due (begun || !w.isBlank) items
  | due, _, .redirect _ _ :: items => separatorsFit due true items

/-- The runs between separators, with the run begun. -/
def segmentsFrom (run : List Item) : List Item → List (List Item)
  | [] => if run = [] then [] else [run]
  | .separator _ :: items => (if run = [] then [] else [run]) ++ segmentsFrom [] items
  | item :: items => segmentsFrom (run ++ [item]) items

def segments (items : List Item) : List (List Item) := segmentsFrom [] items

theorem mem_of_mem_segmentsFrom {items : List Item} :
    ∀ {run segment : List Item}, segment ∈ segmentsFrom run items →
      ∀ item ∈ segment, item ∈ run ∨ item ∈ items := by
  have hend : ∀ {run segment : List Item}, segment ∈ (if run = [] then [] else [run]) →
      segment = run := by
    intro run segment h
    split at h
    · cases h
    · exact List.mem_singleton.mp h
  induction items with
  | nil =>
      intro run segment h item hitem
      obtain rfl := hend h
      exact .inl hitem
  | cons head items ih =>
      have hgrow : ∀ {run segment : List Item}, segment ∈ segmentsFrom (run ++ [head]) items →
          ∀ item ∈ segment, item ∈ run ∨ item ∈ head :: items := by
        intro run segment h item hitem
        rcases ih h item hitem with hrun | hlater
        · rcases List.mem_append.mp hrun with hrun | hhead
          · exact .inl hrun
          · exact .inr (List.mem_cons.mpr (.inl (List.mem_singleton.mp hhead)))
        · exact .inr (List.mem_cons_of_mem _ hlater)
      intro run segment h item hitem
      cases head with
      | word w => exact hgrow h item hitem
      | redirect ioNumber append => exact hgrow h item hitem
      | separator s =>
          rcases List.mem_append.mp h with h | h
          · obtain rfl := hend h
            exact .inl hitem
          · rcases ih h item hitem with hnone | hlater
            · exact absurd hnone List.not_mem_nil
            · exact .inr (List.mem_cons_of_mem _ hlater)

/-- Segments consist of tokens of the text. -/
theorem mem_of_mem_segments {items segment : List Item} (h : segment ∈ segments items) :
    ∀ item ∈ segment, item ∈ items := by
  intro item hitem
  rcases mem_of_mem_segmentsFrom h item hitem with hnone | hmem
  · exact absurd hnone List.not_mem_nil
  · exact hmem

/-- The simple commands of a text in the fragment. -/
def read (t : Text) : Option (List SimpleCommand) :=
  match lex t with
  | none => none
  | some items =>
      if separatorsFit false false items then (segments items).mapM parseCommand else none

/-- What a partial map over a list yields comes from its elements. -/
theorem exists_of_mem_mapM {α β : Type} {f : α → Option β} {l : List α} {ys : List β}
    (h : l.mapM f = some ys) {y : β} (hy : y ∈ ys) : ∃ x ∈ l, f x = some y := by
  induction l generalizing ys with
  | nil =>
      rw [List.mapM_nil] at h
      cases h
      exact absurd hy List.not_mem_nil
  | cons x l ih =>
      rw [List.mapM_cons] at h
      obtain ⟨z, hz, h⟩ := Option.bind_eq_some_iff.mp h
      obtain ⟨zs, hzs, h⟩ := Option.bind_eq_some_iff.mp h
      cases h
      rcases List.mem_cons.mp hy with rfl | hy
      · exact ⟨x, List.mem_cons_self, hz⟩
      · obtain ⟨x', hx', hfx'⟩ := ih hzs hy
        exact ⟨x', List.mem_cons_of_mem _ hx', hfx'⟩

/-- The commands of a text come from its segments. -/
theorem exists_segment_of_mem_read {t : Text} {items : List Item} {commands : List SimpleCommand}
    (hlex : lex t = some items) (hread : read t = some commands) {command : SimpleCommand}
    (hcommand : command ∈ commands) :
    ∃ segment ∈ segments items, parseCommand segment = some command := by
  unfold read at hread
  rw [hlex] at hread
  simp only at hread
  split at hread
  · exact exists_of_mem_mapM hread hcommand
  · cases hread

namespace SimpleCommand

/-- The words, redirections apart. -/
def words (command : SimpleCommand) : List Word :=
  command.filterMap fun piece => match piece with | .word w => some w | .redirect _ _ _ => none

/-- The targets of the redirections. -/
def redirectTargets (command : SimpleCommand) : List Text :=
  command.filterMap fun piece =>
    match piece with | .word _ => none | .redirect _ _ target => some target.text

end SimpleCommand

/-- The token items a piece was read from. -/
def Piece.items : Piece → List Item
  | .word w => [.word w]
  | .redirect ioNumber append target => [.redirect ioNumber append, .word target]

/-- **A simple command is made of its tokens**, blank words apart. -/
theorem flatMap_items_of_parsePieces {items : List Item} {command : SimpleCommand}
    (hblank : ∀ w, .word w ∈ items → Word.isBlank w = false)
    (h : parsePieces items = some command) : command.flatMap Piece.items = items := by
  fun_induction parsePieces items generalizing command
  case case1 =>
    cases h
    rfl
  case case2 w items hw ih =>
    rw [hblank w List.mem_cons_self] at hw
    exact absurd hw Bool.false_ne_true
  case case3 w items hw ih =>
    obtain ⟨rest, hrest, rfl⟩ := Option.map_eq_some_iff.mp h
    rw [List.flatMap_cons, ih (fun w hw => hblank w (List.mem_cons_of_mem _ hw)) hrest]
    rfl
  case case5 ioNumber append w items hw ih =>
    obtain ⟨rest, hrest, rfl⟩ := Option.map_eq_some_iff.mp h
    rw [List.flatMap_cons, ih (fun w hw => hblank w (by simp [hw])) hrest]
    rfl
  case case4 | case6 | case7 => cases h

theorem parsePieces_of_parseCommand {items : List Item} {command : SimpleCommand}
    (h : parseCommand items = some command) : parsePieces items = some command := by
  unfold parseCommand at h
  split at h
  · rename_i hpieces
    split at h
    · cases h
    · rw [hpieces, h]
  · exact h

/-- A valid name, unquoted, before the first equals sign. -/
def isAssignment (w : Word) : Bool :=
  let name := w.takeWhile fun e => e != .plain '='
  let isNameChar := fun e => match e with
    | .plain c => c.isAlphanum || c == '_'
    | .continuation => true
    | _ => false
  decide (.plain '=' ∈ w) && name.all isNameChar &&
    match (Word.text name).head? with
    | some c => !c.isDigit
    | none => false

/-- An assignment has an equals sign after a name. -/
theorem text_of_isAssignment {w : Word} (h : isAssignment w = true) :
    '=' ∈ w.text ∧ w.text.head? ≠ some '=' := by
  unfold isAssignment at h
  obtain ⟨hboth, hhead⟩ := Bool.and_eq_true_iff.mp h
  obtain ⟨hequals, hname⟩ := Bool.and_eq_true_iff.mp hboth
  refine ⟨List.mem_flatMap.mpr ⟨_, of_decide_eq_true hequals, List.mem_singleton_self _⟩, ?_⟩
  have hsplit : w.text = Word.text (w.takeWhile fun e => e != .plain '=') ++
      Word.text (w.dropWhile fun e => e != .plain '=') := by
    unfold Word.text
    rw [← List.flatMap_append, List.takeWhile_append_dropWhile]
  generalize hprefix : w.takeWhile (fun e => e != .plain '=') = name at hname hhead hsplit
  have hnone : '=' ∉ Word.text name := by
    intro hmem
    obtain ⟨e, he, hc⟩ := List.mem_flatMap.mp hmem
    have hchar := List.all_eq_true.mp hname e he
    cases e with
    | plain c =>
        obtain rfl : '=' = c := List.mem_singleton.mp hc
        exact absurd hchar (by decide)
    | continuation => exact absurd hc (by simp [Elem.text])
    | escaped c | single c | double c | doubleEscaped c | doubleBackslash c | quote => cases hchar
  rw [hsplit]
  cases htext : Word.text name with
  | nil =>
      rw [htext] at hhead
      cases hhead
  | cons c rest =>
      rw [htext] at hnone
      intro heq
      obtain rfl : c = '=' := Option.some.inj heq
      exact hnone List.mem_cons_self

/-- The texts of the command name and its arguments, after the assignments. -/
def SimpleCommand.call (command : SimpleCommand) : List Text :=
  (command.words.dropWhile isAssignment).map Word.text

end Shell
