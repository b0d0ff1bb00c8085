import SimpleClaw.Lib.ShellWrites
import SimpleClaw.Tools.ShellTokens

/-!
# The tokenizer beside the shell

The preflight reads a command with a tokenizer of its own.  On the fragment of `Shell` the two
readings run in step, and `tokenizeShellCommand_of_lex` says what the tokenizer makes of each
token of the shell: it takes a number before a redirection for a word, a newline for a blank
and a single `&` for an operator of no meaning, it drops empty words, and it knows no line
continuation and no backslash that quotes nothing.
-/

namespace SimpleClaw
namespace Tools

open Shell

/-- What the tokenizer makes of an element of a word. -/
def elemTokenText : Elem → Text
  | .plain c | .escaped c | .single c | .double c | .doubleEscaped c | .doubleBackslash c => [c]
  | .quote => []
  | .continuation => ['\n']

def tokenText (w : Word) : Text := w.flatMap elemTokenText

@[simp] theorem tokenText_concat (w : Word) (e : Elem) :
    tokenText (w ++ [e]) = tokenText w ++ elemTokenText e := by
  simp [tokenText]

theorem tokenText_concat_quote (w : Word) : tokenText (w ++ [.quote]) = tokenText w := by
  rw [tokenText_concat, elemTokenText, List.append_nil]

def operatorToken (text : Text) : ShellToken := ⟨.operator, text⟩

def redirectText (append : Bool) : Text := if append then ['>', '>'] else ['>']

def separatorTokens : Separator → List ShellToken
  | .semi => [operatorToken [';']]
  | .andIf => [operatorToken ['&', '&']]
  | .orIf => [operatorToken ['|', '|']]
  | .pipe => [operatorToken ['|']]
  | .background => [operatorToken ['&']]
  | .newline => []

/-- What the tokenizer makes of a token of the shell. -/
def tokensOf : Item → List ShellToken
  | .word w => pushWordToken (tokenText w)
  | .redirect ioNumber append =>
      pushWordToken (tokenText ioNumber) ++ [operatorToken (redirectText append)]
  | .separator s => separatorTokens s

def quotingOf : Mode → Quoting
  | .unquoted => .unquoted
  | .single => .single
  | .double => .double

theorem flatMap_wordItem (w : Word) :
    (wordItem w).flatMap tokensOf = pushWordToken (tokenText w) := by
  unfold wordItem
  by_cases hw : w = []
  · subst hw
    rfl
  · simp [hw, tokensOf]

theorem flatMap_redirectItems (w : Word) (append : Bool) :
    (redirectItems w append).flatMap tokensOf =
      pushWordToken (tokenText w) ++ [operatorToken (redirectText append)] := by
  unfold redirectItems
  by_cases hw : w.isIoNumber = true
  · simp [hw, tokensOf]
  · rw [if_neg hw, List.flatMap_append, flatMap_wordItem]
    rfl

/-- **The tokenizer runs in step with the shell's reader.** -/
theorem tokenizeFrom_of_lexFrom {mode : Mode} {w : Word} {cs : Text} {items : List Item}
    (h : lexFrom mode w cs = some items) :
    tokenizeFrom (quotingOf mode) (tokenText w) cs = some (items.flatMap tokensOf) := by
  fun_induction lexFrom mode w cs generalizing items
  case case1 w =>
    cases h
    rw [flatMap_wordItem]
    rfl
  case case2 | case3 | case7 | case11 | case15 | case20 | case27 | case28 | case30 => cases h
  -- inside quotes and after a backslash the word goes on
  case case4 w rest ih =>
    rw [← tokenText_concat_quote w]
    exact (tokenizeFrom_quote _ rest).2.1.trans (ih h)
  case case5 w c rest hquote ih =>
    rw [quotingOf, tokenizeFrom_inSingle _ _ hquote]
    rw [tokenText_concat] at ih
    exact ih h
  case case6 w rest ih =>
    rw [← tokenText_concat_quote w]
    exact (tokenizeFrom_quote _ rest).2.2.2.trans (ih h)
  case case8 w hquote rest ih => rw [tokenText_concat] at ih; exact ih h
  case case9 w hquote next rest hnewline hescapes ih => rw [tokenText_concat] at ih; exact ih h
  case case10 w hquote next rest hnewline hescapes ih => rw [tokenText_concat] at ih; exact ih h
  case case12 w c rest hquote hescape hexpands ih =>
    rw [quotingOf, tokenizeFrom_inDouble _ _ hquote hescape]
    rw [tokenText_concat] at ih
    exact ih h
  case case13 w rest ih =>
    rw [← tokenText_concat_quote w]
    exact (tokenizeFrom_quote _ rest).1.trans (ih h)
  case case14 w rest hsingle ih =>
    rw [← tokenText_concat_quote w]
    exact (tokenizeFrom_quote _ rest).2.2.1.trans (ih h)
  case case16 w hsingle hquote rest ih => rw [tokenText_concat] at ih; exact ih h
  case case17 w hsingle hquote next rest hnewline ih => rw [tokenText_concat] at ih; exact ih h
  -- blanks and operators end it
  case case18 w c rest hsingle hquote hescape hblank ih =>
    obtain ⟨later, hlater, rfl⟩ := Option.map_eq_some_iff.mp h
    rw [quotingOf, tokenizeFrom_blank _ _ (hblank.imp_right .inl), List.flatMap_append,
      flatMap_wordItem]
    exact congrArg (Option.map _) (ih hlater)
  case case19 w rest hsingle hquote hescape hblank ih =>
    obtain ⟨later, hlater, rfl⟩ := Option.map_eq_some_iff.mp h
    rw [quotingOf, tokenizeFrom_blank _ _ (.inr (.inr rfl)), List.flatMap_append,
      flatMap_wordItem]
    exact congrArg (Option.map _) (ih hlater)
  case case21 w rest hnot hsingle hquote hescape hblank hnewline ih =>
    obtain ⟨later, hlater, rfl⟩ := Option.map_eq_some_iff.mp h
    rw [quotingOf, tokenizeFrom_operator _ _ (by decide) (fun _ _ => rfl), List.flatMap_append,
      flatMap_wordItem]
    exact congrArg (Option.map _) (ih hlater)
  case case22 w rest hsingle hquote hescape hblank hnewline hsemi ih =>
    obtain ⟨later, hlater, rfl⟩ := Option.map_eq_some_iff.mp h
    rw [quotingOf, tokenizeFrom_double_operator _ _ (.inl rfl), List.flatMap_append,
      flatMap_wordItem]
    exact congrArg (Option.map _) (ih hlater)
  case case23 w rest hnot hsingle hquote hescape hblank hnewline hsemi ih =>
    obtain ⟨later, hlater, rfl⟩ := Option.map_eq_some_iff.mp h
    rw [quotingOf, tokenizeFrom_operator _ _ (by decide) (fun tail h => (hnot tail h).elim),
      List.flatMap_append, flatMap_wordItem]
    exact congrArg (Option.map _) (ih hlater)
  case case24 w rest hsingle hquote hescape hblank hnewline hsemi hand ih =>
    obtain ⟨later, hlater, rfl⟩ := Option.map_eq_some_iff.mp h
    rw [quotingOf, tokenizeFrom_double_operator _ _ (.inr (.inl rfl)), List.flatMap_append,
      flatMap_wordItem]
    exact congrArg (Option.map _) (ih hlater)
  case case25 w rest hnot hsingle hquote hescape hblank hnewline hsemi hand ih =>
    obtain ⟨later, hlater, rfl⟩ := Option.map_eq_some_iff.mp h
    rw [quotingOf, tokenizeFrom_operator _ _ (by decide) (fun tail h => (hnot tail h).elim),
      List.flatMap_append, flatMap_wordItem]
    exact congrArg (Option.map _) (ih hlater)
  case case26 w rest hsingle hquote hescape hblank hnewline hsemi hand hpipe ih =>
    obtain ⟨later, hlater, rfl⟩ := Option.map_eq_some_iff.mp h
    rw [quotingOf, tokenizeFrom_double_operator _ _ (.inr (.inr rfl)), List.flatMap_append,
      flatMap_redirectItems, List.append_assoc]
    exact congrArg (Option.map _) (ih hlater)
  case case29 w rest hnot hnot' hnot'' hsingle hquote hescape hblank hnewline hsemi hand hpipe ih =>
    obtain ⟨later, hlater, rfl⟩ := Option.map_eq_some_iff.mp h
    rw [quotingOf, tokenizeFrom_operator _ _ (by decide) (fun tail h => (hnot tail h).elim),
      List.flatMap_append, flatMap_redirectItems, List.append_assoc]
    exact congrArg (Option.map _) (ih hlater)
  case case31 w c rest hsingle hquote hescape hblank hnewline hsemi hand hpipe hout hspecial ih =>
    push Not at hblank
    have hless : c ≠ '<' := by
      rintro rfl
      exact hspecial rfl
    have hoperator : isOperatorChar c = false := by
      simp [isOperatorChar, hand, hpipe, hsemi, hout, hless]
    rw [quotingOf, tokenizeFrom_plain _ _ ⟨hsingle, hquote, hescape, hblank.1, hblank.2, hnewline⟩
      hoperator]
    rw [tokenText_concat] at ih
    exact ih h

/-- **What the tokenizer makes of a command**, token by token of the shell. -/
theorem tokenizeShellCommand_of_lex {command : Text} {items : List Item}
    (h : lex command = some items) :
    tokenizeShellCommand command = some (items.flatMap tokensOf) := tokenizeFrom_of_lexFrom h

/-! ## Commands read alike -/

/-- The tokenizer reads the word as the shell does, and its text is no operator to the
preflight. -/
structure PlainWord (w : Word) : Prop where
  readAlike : tokenText w = w.text
  nonempty : w.text ≠ []
  noSeparator : isCommandSeparator w.text = false
  noRedirection : isRedirectionOperator w.text = false

/-- The preflight takes the token for what it is. -/
def PlainItem : Item → Prop
  | .word w => PlainWord w
  | .redirect ioNumber _ => ioNumber = [] ∨ PlainWord ioNumber
  | .separator s => s ≠ .newline ∧ s ≠ .background

/-- The word token of a text. -/
def wordToken (text : Text) : ShellToken := ⟨.word, text⟩

theorem PlainWord.tokensOf {w : Word} (h : PlainWord w) :
    tokensOf (.word w) = [wordToken w.text] := by
  rw [Tools.tokensOf, h.readAlike, pushWordToken, if_neg h.nonempty]
  rfl

theorem PlainWord.isBlank {w : Word} (h : PlainWord w) : w.isBlank = false := by
  by_contra hblank
  rw [Bool.not_eq_false] at hblank
  refine h.nonempty (List.flatMap_eq_nil_iff.mpr fun e he => ?_)
  obtain rfl : e = .continuation := by simpa using List.all_eq_true.mp hblank e he
  rfl

/-- No token of a redirection separates commands. -/
theorem isCommandSeparator_redirect {ioNumber : Word} {append : Bool}
    (h : PlainItem (.redirect ioNumber append)) :
    ∀ token ∈ tokensOf (.redirect ioNumber append), isCommandSeparator token.text = false := by
  intro token htoken
  rw [Tools.tokensOf, List.mem_append, List.mem_singleton] at htoken
  rcases htoken with htoken | rfl
  · rcases h with rfl | hword
    · exact absurd htoken List.not_mem_nil
    · have htokens := hword.tokensOf
      rw [Tools.tokensOf] at htokens
      rw [htokens, List.mem_singleton] at htoken
      rw [htoken]
      exact hword.noSeparator
  · cases append <;> decide

/-- A token that is no separator is seen by the tokenizer. -/
theorem tokensOf_ne_nil {item : Item} (h : PlainItem item) (hitem : ∀ s, item ≠ .separator s) :
    tokensOf item ≠ [] := by
  cases item with
  | word w =>
      rw [PlainWord.tokensOf h]
      exact List.cons_ne_nil _ _
  | redirect ioNumber append => simp [tokensOf]
  | separator s => exact absurd rfl (hitem s)

theorem splitShellSegmentsFrom_flatMap {items : List Item} (h : ∀ item ∈ items, PlainItem item) :
    ∀ {run : List Item}, (run ≠ [] → run.flatMap tokensOf ≠ []) →
      splitShellSegmentsFrom (run.flatMap tokensOf) (items.flatMap tokensOf) =
        (segmentsFrom run items).map (List.flatMap tokensOf) := by
  -- the segment begun, once per kind of end
  have hend : ∀ run : List Item, (run ≠ [] → run.flatMap tokensOf ≠ []) →
      (if run.flatMap tokensOf = [] then [] else [run.flatMap tokensOf]) =
        (if run = [] then [] else [run]).map (List.flatMap tokensOf) := by
    intro run hrun
    by_cases hnil : run = []
    · subst hnil
      rfl
    · rw [if_neg (hrun hnil), if_neg hnil]
      rfl
  induction items with
  | nil =>
      intro run hrun
      exact hend run hrun
  | cons item items ih =>
      intro run hrun
      have hitem := h item List.mem_cons_self
      have ih := @ih fun i hi => h i (List.mem_cons_of_mem _ hi)
      have hgrow : ∀ item : Item, PlainItem item → (∀ s, item ≠ .separator s) →
          (run ++ [item] ≠ [] → (run ++ [item]).flatMap tokensOf ≠ []) := by
        intro item hplain hne _ hnil
        rw [List.flatMap_append, List.flatMap_singleton, List.append_eq_nil_iff] at hnil
        exact tokensOf_ne_nil hplain hne hnil.2
      cases item with
      | word w =>
          have htokens := PlainWord.tokensOf hitem
          have hnot : ∀ token ∈ tokensOf (.word w), isCommandSeparator token.text = false := by
            rw [htokens]
            simpa [wordToken] using hitem.noSeparator
          rw [List.flatMap_cons, splitShellSegmentsFrom_append hnot, segmentsFrom,
            ← ih (hgrow _ hitem (by simp)), List.flatMap_append, List.flatMap_singleton]
          exact fun s => Item.noConfusion
      | redirect ioNumber append =>
          rw [List.flatMap_cons, splitShellSegmentsFrom_append (isCommandSeparator_redirect hitem),
            segmentsFrom, ← ih (hgrow _ hitem (by simp)), List.flatMap_append,
            List.flatMap_singleton]
          exact fun s => Item.noConfusion
      | separator s =>
          have hop : ∃ text, tokensOf (.separator s) = [operatorToken text] ∧
              isCommandSeparator (operatorToken text).text = true := by
            cases s with
            | semi => exact ⟨_, rfl, by decide⟩
            | andIf => exact ⟨_, rfl, by decide⟩
            | orIf => exact ⟨_, rfl, by decide⟩
            | pipe => exact ⟨_, rfl, by decide⟩
            | background => exact absurd rfl hitem.2
            | newline => exact absurd rfl hitem.1
          obtain ⟨text, htokens, hseparator⟩ := hop
          rw [List.flatMap_cons, htokens, List.singleton_append, splitShellSegmentsFrom,
            if_pos hseparator, segmentsFrom, List.map_append, hend run hrun]
          exact congrArg _ (ih fun hne => absurd rfl hne)

/-- **The preflight's segments are the shell's**, as long as every token is taken for what it
is. -/
theorem splitShellSegments_flatMap {items : List Item} (h : ∀ item ∈ items, PlainItem item) :
    splitShellSegments (items.flatMap tokensOf) =
      (segments items).map (List.flatMap tokensOf) :=
  @splitShellSegmentsFrom_flatMap items h [] fun hne => absurd rfl hne

/-! ## What the preflight inspects -/

/-- The texts the preflight checks as write targets in a segment. -/
def inspectedIn (segment : List ShellToken) : List Text :=
  (redirectionTargets segment).filterMap id ++
    match segmentCommandName segment with
    | none => []
    | some commandName => writeTargets commandName segment

/-- The texts the preflight checks as write targets in a command. -/
def inspected (command : Text) : List Text :=
  (splitShellSegments ((tokenizeShellCommand command).getD [])).flatMap inspectedIn

/-- The tokens of a piece of a command that is read alike. -/
def pieceTokens : Piece → List ShellToken
  | .word w => [wordToken w.text]
  | .redirect ioNumber append target =>
      pushWordToken (tokenText ioNumber) ++
        [operatorToken (redirectText append), wordToken target.text]

theorem flatMap_pieceTokens {command : SimpleCommand}
    (h : ∀ item ∈ command.flatMap Piece.items, PlainItem item) :
    (command.flatMap Piece.items).flatMap tokensOf = command.flatMap pieceTokens := by
  induction command with
  | nil => rfl
  | cons piece command ih =>
      rw [List.flatMap_cons, List.forall_mem_append] at h
      obtain ⟨hpiece, hrest⟩ := h
      have ih := ih hrest
      rw [List.flatMap_cons, List.flatMap_append, List.flatMap_cons, ih]
      refine congrArg (· ++ _) ?_
      cases piece with
      | word w =>
          have hw : PlainWord w := hpiece _ List.mem_cons_self
          rw [Piece.items, List.flatMap_singleton, hw.tokensOf]
          rfl
      | redirect ioNumber append target =>
          have htarget : PlainWord target := hpiece (.word target) (by simp [Piece.items])
          rw [Piece.items, List.flatMap_cons, List.flatMap_singleton, htarget.tokensOf]
          simp [tokensOf, pieceTokens]

/-- A word that is no redirection operator is passed over. -/
theorem redirectionTargets_cons_of_not {token : ShellToken}
    (h : isRedirectionOperator token.text = false) (tokens : List ShellToken) :
    redirectionTargets (token :: tokens) = redirectionTargets tokens := by
  rw [redirectionTargets, if_neg (by simp [h])]

/-- The preflight inspects every redirection target. -/
theorem redirectTargets_subset {command : SimpleCommand}
    (h : ∀ item ∈ command.flatMap Piece.items, PlainItem item) :
    ∀ target ∈ command.redirectTargets,
      some target ∈ redirectionTargets (command.flatMap pieceTokens) := by
  induction command with
  | nil => simp [SimpleCommand.redirectTargets]
  | cons piece command ih =>
      rw [List.flatMap_cons, List.forall_mem_append] at h
      obtain ⟨hpiece, hrest⟩ := h
      have ih := ih hrest
      intro target htarget
      cases piece with
      | word w =>
          have hw : PlainWord w := hpiece _ List.mem_cons_self
          rw [List.flatMap_cons, pieceTokens, List.singleton_append,
            redirectionTargets_cons_of_not hw.noRedirection]
          exact ih target htarget
      | redirect ioNumber append word =>
          have hword : PlainWord word := hpiece (.word word) (by simp [Piece.items])
          have hio : PlainItem (.redirect ioNumber append) := hpiece _ List.mem_cons_self
          have hoperator :
              isRedirectionOperator (operatorToken (redirectText append)).text = true := by
            cases append <;> decide
          have hskip : ∀ tokens, redirectionTargets (pushWordToken (tokenText ioNumber) ++ tokens) =
              redirectionTargets tokens := by
            intro tokens
            rcases hio with rfl | hplain
            · rfl
            · have htokens := hplain.tokensOf
              rw [tokensOf] at htokens
              rw [htokens, List.singleton_append,
                redirectionTargets_cons_of_not hplain.noRedirection]
          have hnext : nextWord (wordToken word.text :: command.flatMap pieceTokens) =
              some word.text := rfl
          rw [List.flatMap_cons, pieceTokens, List.append_assoc, hskip, List.cons_append,
            redirectionTargets, if_pos hoperator, List.singleton_append, hnext,
            redirectionTargets_cons_of_not hword.noRedirection]
          rcases List.mem_cons.mp htarget with rfl | htarget
          · exact List.mem_cons_self
          · exact List.mem_cons_of_mem _ (ih target htarget)

/-- The arguments that do not begin with a dash. -/
def dashless (args : List Text) : List Text := args.filter fun t => t.head? ≠ some '-'

/-- The preflight finds the command name and the targets where the shell and the utility do. -/
structure PlainCommand (mixed : Bool) (command : SimpleCommand) : Prop where
  /-- no redirection comes before the command name -/
  nameFirst : command.call ≠ [] →
    ∃ (assignments : List Word) (name : Word) (rest : SimpleCommand),
      command = assignments.map Piece.word ++ .word name :: rest ∧
        (∀ w ∈ assignments, isAssignment w = true) ∧ isAssignment name = false
  /-- no file operand begins with a dash -/
  operands : ∀ name args, command.call = name :: args → operandWriters.contains name = true →
    ∀ t ∈ operandsOf (parseArgs mixed (optionSpec name) args), t.head? ≠ some '-'
  /-- a destination is the last of several arguments that do not begin with a dash, and comes
  without redirections -/
  destination : ∀ name args, command.call = name :: args →
    destinationWriters.contains name = true →
    command.redirectTargets = [] ∧
      ∀ t ∈ destinations name (parseArgs mixed (optionSpec name) args),
        (dashless args).getLast? = some t ∧ 2 ≤ (dashless args).length

/-- The texts of the words of a command. -/
def wordTexts (command : SimpleCommand) : List Text := command.words.map Word.text

theorem call_of_nameFirst {assignments : List Word} {name : Word} {rest : SimpleCommand}
    (hassignments : ∀ w ∈ assignments, isAssignment w = true) (hname : isAssignment name = false) :
    SimpleCommand.call (assignments.map Piece.word ++ .word name :: rest) =
      name.text :: wordTexts rest := by
  have hwords : SimpleCommand.words (assignments.map Piece.word ++ .word name :: rest) =
      assignments ++ name :: rest.words := by
    rw [SimpleCommand.words, List.filterMap_append]
    refine congrArg₂ _ ?_ rfl
    induction assignments with
    | nil => rfl
    | cons w ws ih =>
        exact congrArg (w :: ·) (ih fun w' hw' => hassignments w' (List.mem_cons_of_mem _ hw'))
  rw [SimpleCommand.call, hwords, List.dropWhile_append_of_pos hassignments,
    List.dropWhile_cons_of_neg (by simp [hname])]
  rfl

/-- An assignment of the shell is one for the preflight. -/
theorem isEnvAssignment_of_isAssignment {w : Word} (h : isAssignment w = true) :
    isEnvAssignment w.text = true := by
  obtain ⟨hequals, hhead⟩ := text_of_isAssignment h
  simp [isEnvAssignment, hequals, hhead]

section Call

variable {assignments : List Word} {name : Word} {rest : SimpleCommand}

theorem flatMap_pieceTokens_nameFirst :
    (assignments.map Piece.word ++ .word name :: rest).flatMap pieceTokens =
      assignments.map (fun w => wordToken w.text) ++
        wordToken name.text :: rest.flatMap pieceTokens := by
  rw [List.flatMap_append, List.flatMap_map, List.flatMap_cons]
  refine congrArg₂ _ ?_ rfl
  induction assignments with
  | nil => rfl
  | cons w ws ih => exact congrArg (wordToken w.text :: ·) ih

/-- The preflight finds the command name behind the assignments. -/
theorem segmentCommandName_nameFirst
    (hassignments : ∀ w ∈ assignments, isAssignment w = true)
    (hname : isEnvAssignment name.text = false) :
    segmentCommandName ((assignments.map Piece.word ++ .word name :: rest).flatMap pieceTokens) =
      some name.text := by
  have hnone : (assignments.map fun w => wordToken w.text).find?
      (fun token => token.kind = .word ∧ isEnvAssignment token.text = false) = none := by
    rw [List.find?_eq_none]
    intro token htoken
    obtain ⟨w, hw, rfl⟩ := List.mem_map.mp htoken
    simp [wordToken, isEnvAssignment_of_isAssignment (hassignments w hw)]
  rw [segmentCommandName, flatMap_pieceTokens_nameFirst, List.find?_append, hnone, Option.none_or,
    List.find?_cons_of_pos (by simp [wordToken, hname])]
  rfl

/-- And what follows it. -/
theorem afterCommandName_nameFirst
    (hassignments : ∀ w ∈ assignments, isAssignment w = true)
    (hname : isEnvAssignment name.text = false) :
    afterCommandName name.text
        ((assignments.map Piece.word ++ .word name :: rest).flatMap pieceTokens) =
      rest.flatMap pieceTokens := by
  have hskip : ∀ token ∈ assignments.map fun w => wordToken w.text,
      decide (¬ (token.kind = .word ∧ token.text = name.text)) = true := by
    intro token htoken
    obtain ⟨w, hw, rfl⟩ := List.mem_map.mp htoken
    have henv := isEnvAssignment_of_isAssignment (hassignments w hw)
    simp only [wordToken, true_and, decide_eq_true_eq]
    intro heq
    rw [heq, hname] at henv
    exact Bool.false_ne_true henv
  rw [afterCommandName, flatMap_pieceTokens_nameFirst, List.dropWhile_append_of_pos hskip,
    List.dropWhile_cons_of_neg (by simp [wordToken]), List.tail_cons]

/-- Words that do not begin with a dash are kept. -/
theorem mem_nonFlagWords {t : Text} (h : t ∈ wordTexts rest) (hdash : t.head? ≠ some '-') :
    t ∈ nonFlagWords (rest.flatMap pieceTokens) := by
  obtain ⟨w, hw, rfl⟩ := List.mem_map.mp h
  obtain ⟨piece, hpiece, hword⟩ := List.mem_filterMap.mp hw
  cases piece with
  | redirect ioNumber append target => cases hword
  | word w' =>
      cases hword
      refine List.mem_map.mpr ⟨wordToken w.text, List.mem_filter.mpr ⟨?_, ?_⟩, rfl⟩
      · exact List.mem_flatMap.mpr ⟨_, hpiece, List.mem_singleton_self _⟩
      · simpa [wordToken] using hdash

/-- Without redirections nothing else is kept. -/
theorem nonFlagWords_eq (h : SimpleCommand.redirectTargets rest = []) :
    nonFlagWords (rest.flatMap pieceTokens) = dashless (wordTexts rest) := by
  induction rest with
  | nil => rfl
  | cons piece rest ih =>
      cases piece with
      | redirect ioNumber append target => cases h
      | word w =>
          have ih := ih h
          have htokens : (Piece.word w :: rest).flatMap pieceTokens =
              wordToken w.text :: rest.flatMap pieceTokens := rfl
          have htexts : wordTexts (Piece.word w :: rest) = w.text :: wordTexts rest := rfl
          rw [htokens, htexts, dashless, nonFlagWords]
          by_cases hdash : w.text.head? = some '-'
          · rw [List.filter_cons_of_neg (by simp [wordToken, hdash]),
              List.filter_cons_of_neg (by simp [hdash])]
            exact ih
          · rw [List.filter_cons_of_pos (by simp [wordToken, hdash]),
              List.filter_cons_of_pos (by simp [hdash]), List.map_cons]
            exact congrArg _ ih

end Call

/-- The utilities have names that are no assignments. -/
theorem isEnvAssignment_of_writer {name : Text}
    (h : operandWriters.contains name = true ∨ destinationWriters.contains name = true) :
    isEnvAssignment name = false := by
  rcases h with h | h
  · have hmem := List.contains_iff_mem.mp h
    simp only [operandWriters, List.mem_cons, List.not_mem_nil, or_false] at hmem
    rcases hmem with rfl | rfl | rfl | rfl | rfl | rfl <;> decide
  · have hmem := List.contains_iff_mem.mp h
    simp only [destinationWriters, List.mem_cons, List.not_mem_nil, or_false] at hmem
    rcases hmem with rfl | rfl | rfl | rfl <;> decide

/-- What the preflight inspects for the utilities that write their operands. -/
theorem writeTargets_operandWriter {name : Text} (h : operandWriters.contains name = true)
    (tokens : List ShellToken) :
    writeTargets name tokens = nonFlagWords (afterCommandName name tokens) := by
  have hmem := List.contains_iff_mem.mp h
  simp only [operandWriters, List.mem_cons, List.not_mem_nil, or_false] at hmem
  rcases hmem with rfl | rfl | rfl | rfl | rfl | rfl <;> rfl

/-- What the preflight inspects for the utilities that write a destination. -/
theorem mem_writeTargets_destinationWriter {name t : Text}
    (h : destinationWriters.contains name = true) {tokens : List ShellToken}
    (hlast : (nonFlagWords (afterCommandName name tokens)).getLast? = some t)
    (htwo : 2 ≤ (nonFlagWords (afterCommandName name tokens)).length) :
    t ∈ writeTargets name tokens := by
  have hmem := List.contains_iff_mem.mp h
  simp only [destinationWriters, List.mem_cons, List.not_mem_nil, or_false] at hmem
  have hcopy : t ∈ (nonFlagWords (afterCommandName name tokens)).getLast?.toList := by
    rw [hlast]
    exact List.mem_singleton_self t
  rcases hmem with rfl | rfl | rfl | rfl
  · exact hcopy
  · exact hcopy
  · exact hcopy
  · have hln : writeTargets ("ln" : Text) tokens =
        if 2 ≤ (nonFlagWords (afterCommandName ("ln" : Text) tokens)).length then
          (nonFlagWords (afterCommandName ("ln" : Text) tokens)).getLast?.toList else [] := rfl
    rw [hln, if_pos htwo]
    exact hcopy

/-- **In a plain command the preflight inspects every file the command names for writing.** -/
theorem writeTargets_subset_inspectedIn {mixed : Bool} {command : SimpleCommand}
    (hitems : ∀ item ∈ command.flatMap Piece.items, PlainItem item)
    (hplain : PlainCommand mixed command) :
    ∀ t ∈ command.writeTargets mixed, t ∈ inspectedIn (command.flatMap pieceTokens) := by
  intro t ht
  rw [SimpleCommand.writeTargets, List.mem_append] at ht
  rw [inspectedIn, List.mem_append]
  rcases ht with ht | ht
  · exact .inl (List.mem_filterMap.mpr ⟨some t, redirectTargets_subset hitems t ht, rfl⟩)
  · right
    cases hcall : command.call with
    | nil => simp [hcall] at ht
    | cons name args =>
        rw [hcall] at ht
        have ht : t ∈ utilityTargets mixed name args := ht
        obtain ⟨assignments, nameWord, rest, rfl, hassignments, hnot⟩ :=
          hplain.nameFirst (by simp [hcall])
        obtain ⟨rfl, rfl⟩ := List.cons.inj (hcall.symm.trans (call_of_nameFirst hassignments hnot))
        unfold utilityTargets at ht
        simp only at ht
        split at ht
        · rename_i hwriter
          have henv := isEnvAssignment_of_writer (.inl hwriter)
          rw [segmentCommandName_nameFirst hassignments henv]
          simp only
          rw [writeTargets_operandWriter hwriter, afterCommandName_nameFirst hassignments henv]
          exact mem_nonFlagWords (operandsOf_parseArgs_subset _ _ _ ht)
            (hplain.operands _ _ hcall hwriter t ht)
        · split at ht
          · rename_i hwriter
            have henv := isEnvAssignment_of_writer (.inr hwriter)
            obtain ⟨hredirects, hlast⟩ := hplain.destination _ _ hcall hwriter
            obtain ⟨hlast, htwo⟩ := hlast t ht
            have hrest : SimpleCommand.redirectTargets rest = [] := by
              rw [SimpleCommand.redirectTargets, List.filterMap_append,
                List.append_eq_nil_iff] at hredirects
              exact hredirects.2
            rw [segmentCommandName_nameFirst hassignments henv]
            simp only
            refine mem_writeTargets_destinationWriter hwriter ?_ ?_
            · rw [afterCommandName_nameFirst hassignments henv, nonFlagWords_eq hrest, hlast]
            · rw [afterCommandName_nameFirst hassignments henv, nonFlagWords_eq hrest]
              exact htwo
          · cases ht

/-- The text is read alike by the tokenizer. -/
def PlainText (command : Text) : Prop :=
  ∃ items, lex command = some items ∧ ∀ item ∈ items, PlainItem item

/-- **In a text read alike whose commands are plain, the preflight inspects every file that is
named for writing.** -/
theorem writeTargets_subset_inspected {mixed : Bool} {command : Text}
    {commands : List SimpleCommand} (hread : Shell.read command = some commands)
    (htext : PlainText command) (hplain : ∀ simple ∈ commands, PlainCommand mixed simple) :
    ∀ simple ∈ commands, ∀ t ∈ simple.writeTargets mixed, t ∈ inspected command := by
  obtain ⟨items, hlex, hitems⟩ := htext
  intro simple hsimple t ht
  obtain ⟨segment, hsegment, hparse⟩ := exists_segment_of_mem_read hlex hread hsimple
  have hsegmentPlain : ∀ item ∈ segment, PlainItem item := fun item hitem =>
    hitems item (mem_of_mem_segments hsegment item hitem)
  have hpieces := flatMap_items_of_parsePieces
    (fun w hw => PlainWord.isBlank (hsegmentPlain _ hw)) (parsePieces_of_parseCommand hparse)
  have htokens : segment.flatMap tokensOf = simple.flatMap pieceTokens := by
    rw [← hpieces]
    exact flatMap_pieceTokens (by rw [hpieces]; exact hsegmentPlain)
  rw [inspected, tokenizeShellCommand_of_lex hlex, Option.getD_some,
    splitShellSegments_flatMap hitems]
  refine List.mem_flatMap.mpr ⟨_, List.mem_map.mpr ⟨segment, hsegment, rfl⟩, ?_⟩
  rw [htokens]
  exact writeTargets_subset_inspectedIn (by rw [hpieces]; exact hsegmentPlain)
    (hplain simple hsimple) t ht

end Tools
end SimpleClaw
