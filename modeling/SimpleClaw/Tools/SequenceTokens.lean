import Mathlib.Data.List.DropRight
import SimpleClaw.Tools.ShellTokens

/-!
# Tokens and segments of commands in a sequence

Two commands with an operator between them: the tokens are those of the first, the operator and
those of the second, where the operator is read as it is.  What is made of the segments depends on
the operator: the splitter knows `;`, `&&`, `||` and `|`, but neither `&` nor the end of a line.

* `Balanced`: no quotation is open at the end of a command.
* `tokenize_sequence`: the tokens of a sequence.
* `splitShellSegments_sequence`: its segments.
-/

namespace SimpleClaw
namespace Tools

/-! ## The end of a command -/

/-- Where the tokenizer is at the end of a text: within a quotation or right after a backslash,
after an operator of one character that another such character would be taken with, or between
words. -/
inductive Ending where
  | quoted
  | operator (c : Char)
  | plain
  deriving DecidableEq

def endingFrom : Quoting → Text → Ending
  | .unquoted, [] => .plain
  | .single, [] => .quoted
  | .double, [] => .quoted
  | .single, c :: rest =>
      if c = '\'' then endingFrom .unquoted rest else endingFrom .single rest
  | .double, c :: rest =>
      if c = '"' then endingFrom .unquoted rest
      else if c = '\\' then
        match rest with
        | [] => .quoted
        | _ :: rest => endingFrom .double rest
      else endingFrom .double rest
  | .unquoted, c :: rest =>
      if c = '\'' then endingFrom .single rest
      else if c = '"' then endingFrom .double rest
      else if c = '\\' then
        match rest with
        | [] => .quoted
        | _ :: rest => endingFrom .unquoted rest
      else if isOperatorChar c then
        match rest with
        | [] => if c = ';' then .plain else .operator c
        | next :: rest' =>
            if isDoubleOperator c next then endingFrom .unquoted rest'
            else endingFrom .unquoted (next :: rest')
      else endingFrom .unquoted rest

/-- Every quotation of the command is closed. -/
def Balanced (command : Text) : Prop := endingFrom .unquoted command ≠ .quoted

instance decidableBalanced (command : Text) : Decidable (Balanced command) :=
  inferInstanceAs (Decidable (_ ≠ _))

/-- The text ends a word and is nothing of it. -/
def Delimits (rest : Text) : Prop :=
  ∀ current, tokenizeFrom .unquoted current rest =
    (tokenizeFrom .unquoted [] rest).map (pushWordToken current ++ ·)

theorem delimits_nil : Delimits [] := fun current => by
  simp [tokenizeFrom, pushWordToken]

/-- The whole is read as the first part and the second one after it. -/
def ReadTogether (whole first second : Option (List ShellToken)) : Prop :=
  ∃ tokens, first = some tokens ∧ whole = second.map (tokens ++ ·)

/-- What is put in front of the whole is put in front of the first part. -/
theorem ReadTogether.map {whole first second : Option (List ShellToken)}
    {f : List ShellToken → List ShellToken} (hf : ∀ a b, f (a ++ b) = f a ++ b)
    (h : ReadTogether whole first second) : ReadTogether (whole.map f) (first.map f) second := by
  obtain ⟨tokens, rfl, rfl⟩ := h
  refine ⟨f tokens, rfl, ?_⟩
  cases second <;> simp [hf]

theorem tokenizeFrom_isDoubleOperator {c next : Char} (h : isDoubleOperator c next = true)
    (current rest : Text) : tokenizeFrom .unquoted current (c :: next :: rest) =
      (tokenizeFrom .unquoted [] rest).map
        (pushWordToken current ++ ⟨.operator, [c, next]⟩ :: ·) := by
  rw [isDoubleOperator, Bool.and_eq_true, beq_iff_eq] at h
  obtain ⟨hc, rfl⟩ := h
  have hmem := List.contains_iff_mem.mp hc
  simp only [List.mem_cons, List.not_mem_nil, or_false] at hmem
  rw [tokenizeFrom.eq_def]
  rcases hmem with rfl | rfl | rfl | rfl <;> rfl

/-- An operator of one character is read by itself if no second one follows. -/
theorem tokenizeFrom_single_operator {c : Char} (hc : isOperatorChar c = true) {rest : Text}
    (hrest : c = ';' ∨ rest.head? ≠ some c) (current : Text) :
    tokenizeFrom .unquoted current (c :: rest) =
      (tokenizeFrom .unquoted [] rest).map (pushWordToken current ++ ⟨.operator, [c]⟩ :: ·) := by
  refine tokenizeFrom_operator current rest hc fun tail htail => ?_
  rw [htail] at hrest
  exact hrest.resolve_right (by simp)

/-- An escaped character stands for itself. -/
theorem tokenizeFrom_escaped (current rest : Text) (next : Char) :
    tokenizeFrom .unquoted current ('\\' :: next :: rest) =
        tokenizeFrom .unquoted (current ++ [next]) rest ∧
      tokenizeFrom .double current ('\\' :: next :: rest) =
        tokenizeFrom .double (current ++ [next]) rest := by
  refine ⟨?_, ?_⟩ <;>
    · rw [tokenizeFrom.eq_def]
      rfl

theorem readTogether_nil (rest : Text) : ReadTogether (tokenizeFrom .unquoted [] rest)
    (tokenizeFrom .unquoted [] []) (tokenizeFrom .unquoted [] rest) := by
  refine ⟨[], rfl, ?_⟩
  simp

/-- **A text that delimits is read by itself**, after a text without an open quotation whose last
operator it is not read with. -/
theorem readTogether_append {rest : Text} (hrest : Delimits rest) (quoting : Quoting)
    (current text : Text) (hend : endingFrom quoting text ≠ .quoted)
    (hoperator : ∀ c, endingFrom quoting text = .operator c → rest.head? ≠ some c) :
    ReadTogether (tokenizeFrom quoting current (text ++ rest)) (tokenizeFrom quoting current text)
      (tokenizeFrom .unquoted [] rest) := by
  fun_induction endingFrom quoting text generalizing current with
  | case1 => exact ⟨pushWordToken current, by rw [tokenizeFrom], hrest current⟩
  | case2 | case3 | case7 | case12 => exact absurd rfl hend
  | case4 text ih =>
      rw [List.cons_append, (tokenizeFrom_quote current _).2.1, (tokenizeFrom_quote current _).2.1]
      exact ih current hend hoperator
  | case5 c text hc ih =>
      rw [List.cons_append, tokenizeFrom_inSingle _ _ hc, tokenizeFrom_inSingle _ _ hc]
      exact ih _ hend hoperator
  | case6 text ih =>
      rw [List.cons_append, (tokenizeFrom_quote current _).2.2.2,
        (tokenizeFrom_quote current _).2.2.2]
      exact ih current hend hoperator
  | case8 next text hquote ih =>
      rw [List.cons_append, List.cons_append, (tokenizeFrom_escaped _ _ _).2,
        (tokenizeFrom_escaped _ _ _).2]
      exact ih _ hend hoperator
  | case9 c text hquote hescape ih =>
      rw [List.cons_append, tokenizeFrom_inDouble _ _ hquote hescape,
        tokenizeFrom_inDouble _ _ hquote hescape]
      exact ih _ hend hoperator
  | case10 text ih =>
      rw [List.cons_append, (tokenizeFrom_quote current _).1, (tokenizeFrom_quote current _).1]
      exact ih current hend hoperator
  | case11 text hquote ih =>
      rw [List.cons_append, (tokenizeFrom_quote current _).2.2.1,
        (tokenizeFrom_quote current _).2.2.1]
      exact ih current hend hoperator
  | case13 next text hsingle hdouble ih =>
      rw [List.cons_append, List.cons_append, (tokenizeFrom_escaped _ _ _).1,
        (tokenizeFrom_escaped _ _ _).1]
      exact ih _ hend hoperator
  | case14 hsingle hdouble hescape hop =>
      rw [List.cons_append, tokenizeFrom_single_operator hop (.inl rfl),
        tokenizeFrom_single_operator hop (.inl rfl)]
      exact (readTogether_nil rest).map (by simp)
  | case15 c hsingle hdouble hescape hop hsemi =>
      rw [List.cons_append, List.nil_append,
        tokenizeFrom_single_operator hop (.inr (hoperator c rfl)),
        tokenizeFrom_single_operator hop (.inr (by simp))]
      exact (readTogether_nil rest).map (by simp)
  | case16 c hsingle hdouble hescape hop next text hboth ih =>
      rw [List.cons_append, List.cons_append, tokenizeFrom_isDoubleOperator hboth,
        tokenizeFrom_isDoubleOperator hboth]
      exact (ih [] hend hoperator).map (by simp)
  | case17 c hsingle hdouble hescape hop next text hboth ih =>
      have hnext : c = ';' ∨ next ≠ c := by
        have hmem := List.contains_iff_mem.mp hop
        simp only [List.mem_cons, List.not_mem_nil, or_false] at hmem
        refine or_iff_not_imp_left.mpr fun hsemi hsame => hboth ?_
        rw [hsame, isDoubleOperator, beq_self_eq_true, Bool.and_true]
        rcases hmem with rfl | rfl | rfl | rfl | rfl <;> first | rfl | exact absurd rfl hsemi
      rw [List.cons_append, List.cons_append,
        tokenizeFrom_single_operator hop (hnext.imp_right fun h => by simpa using h),
        tokenizeFrom_single_operator hop (hnext.imp_right fun h => by simpa using h)]
      exact (ih [] hend hoperator).map (by simp)
  | case18 c text hsingle hdouble hescape hop ih =>
      rw [List.cons_append]
      by_cases hblank : c = ' ' ∨ c = '\t' ∨ c = '\n'
      · rw [tokenizeFrom_blank _ _ hblank, tokenizeFrom_blank _ _ hblank]
        exact (ih [] hend hoperator).map (by simp)
      · have hplain : c ≠ '\'' ∧ c ≠ '"' ∧ c ≠ '\\' ∧ c ≠ ' ' ∧ c ≠ '\t' ∧ c ≠ '\n' :=
          ⟨hsingle, hdouble, hescape, by simpa [not_or] using hblank⟩
        rw [tokenizeFrom_plain _ _ hplain (by simpa using hop),
          tokenizeFrom_plain _ _ hplain (by simpa using hop)]
        exact ih _ hend hoperator

/-! ## Sequences -/

/-- The operators that put commands in sequence. -/
inductive Sequencer where
  | semicolon
  | and
  | or
  | pipe
  | background
  | newline
  deriving DecidableEq

namespace Sequencer

def text : Sequencer → Text
  | semicolon => ";"
  | and => "&&"
  | or => "||"
  | pipe => "|"
  | background => "&"
  | newline => "\n"

/-- The operator for the tokenizer, to which the end of a line is a blank. -/
def tokens : Sequencer → List ShellToken
  | newline => []
  | semicolon => [⟨.operator, ";"⟩]
  | and => [⟨.operator, "&&"⟩]
  | or => [⟨.operator, "||"⟩]
  | pipe => [⟨.operator, "|"⟩]
  | background => [⟨.operator, "&"⟩]

/-- The splitter ends a segment at the operator. -/
def separates : Sequencer → Bool
  | semicolon | and | or | pipe => true
  | background | newline => false

/-- The operator is the first character of another one. -/
def mayExtend : Sequencer → Bool
  | pipe | background => true
  | semicolon | and | or | newline => false

end Sequencer

/-- A command, an operator with blanks around it, and a command. -/
def sequence (first blanks : Text) (op : Sequencer) (blanks' second : Text) : Text :=
  first ++ (blanks ++ (op.text ++ (blanks' ++ second)))

def IsBlank (t : Text) : Prop := ∀ c ∈ t, c = ' ' ∨ c = '\t'

/-- The operator is read as it is: where there is no blank between, it is no continuation of an
operator before it, and none after it continues it. -/
structure OwnToken (first blanks : Text) (op : Sequencer) (blanks' second : Text) : Prop where
  blank : IsBlank blanks
  blank' : IsBlank blanks'
  before : blanks = [] → ∀ c, endingFrom .unquoted first = .operator c → op.text.head? ≠ some c
  after : blanks' = [] → op.mayExtend = true → second.head? ≠ op.text.head?

/-- An operator that a text ends with is one. -/
theorem isOperatorChar_of_endingFrom {quoting : Quoting} {text : Text} {c : Char}
    (h : endingFrom quoting text = .operator c) : isOperatorChar c = true := by
  fun_induction endingFrom quoting text with
  | case15 c' hsingle hdouble hescape hop hsemi =>
      cases h
      exact hop
  | case1 | case2 | case3 | case7 | case12 | case14 => cases h
  | _ => rename_i ih; exact ih h

theorem delimits_blank {c : Char} (h : c = ' ' ∨ c = '\t' ∨ c = '\n') (rest : Text) :
    Delimits (c :: rest) := fun current => by
  rw [tokenizeFrom_blank current rest h, tokenizeFrom_blank [] rest h, Option.map_map]
  rfl

/-- Blanks in front of a text are passed over. -/
theorem tokenizeFrom_blanks {blanks : Text} (h : IsBlank blanks) (rest : Text) :
    tokenizeFrom .unquoted [] (blanks ++ rest) = tokenizeFrom .unquoted [] rest := by
  induction blanks with
  | nil => rfl
  | cons c blanks ih =>
      rw [IsBlank, List.forall_mem_cons] at h
      rw [List.cons_append, tokenizeFrom_blank [] _ (h.1.imp_right .inl), ih h.2]
      simp [pushWordToken]

/-- **The operator ends the word before it**, and the second command is read by itself. -/
theorem tokenizeFrom_sequencer {first blanks blanks' second : Text} {op : Sequencer}
    (h : OwnToken first blanks op blanks' second) (current : Text) :
    tokenizeFrom .unquoted current (op.text ++ (blanks' ++ second)) =
      (tokenizeShellCommand second).map (pushWordToken current ++ op.tokens ++ ·) := by
  have hrest : tokenizeFrom .unquoted [] (blanks' ++ second) = tokenizeShellCommand second :=
    tokenizeFrom_blanks h.blank' second
  have hnext : op.mayExtend = true → (blanks' ++ second).head? ≠ op.text.head? := by
    intro hmay
    cases hblanks : blanks' with
    | nil => exact h.after hblanks hmay
    | cons c rest =>
        have hc := h.blank' c (by rw [hblanks]; exact List.mem_cons_self)
        cases op with
        | semicolon | and | or | newline => cases hmay
        | pipe | background => rcases hc with rfl | rfl <;> simp [Sequencer.text]
  cases op with
  | semicolon =>
      show tokenizeFrom .unquoted current (';' :: (blanks' ++ second)) = _
      rw [tokenizeFrom_single_operator (by decide) (.inl rfl), hrest]
      simp [Sequencer.tokens]
  | and =>
      show tokenizeFrom .unquoted current ('&' :: '&' :: (blanks' ++ second)) = _
      rw [tokenizeFrom_isDoubleOperator (by decide), hrest]
      simp [Sequencer.tokens]
  | or =>
      show tokenizeFrom .unquoted current ('|' :: '|' :: (blanks' ++ second)) = _
      rw [tokenizeFrom_isDoubleOperator (by decide), hrest]
      simp [Sequencer.tokens]
  | pipe =>
      have hone : '|' = ';' ∨ (blanks' ++ second).head? ≠ some '|' := .inr (hnext rfl)
      show tokenizeFrom .unquoted current ('|' :: (blanks' ++ second)) = _
      rw [tokenizeFrom_single_operator (by decide) hone, hrest]
      simp [Sequencer.tokens]
  | background =>
      have hone : '&' = ';' ∨ (blanks' ++ second).head? ≠ some '&' := .inr (hnext rfl)
      show tokenizeFrom .unquoted current ('&' :: (blanks' ++ second)) = _
      rw [tokenizeFrom_single_operator (by decide) hone, hrest]
      simp [Sequencer.tokens]
  | newline =>
      show tokenizeFrom .unquoted current ('\n' :: (blanks' ++ second)) = _
      rw [tokenizeFrom_blank _ _ (by decide), hrest]
      simp [Sequencer.tokens]

/-- **The tokens of a sequence** are those of the first command, the operator and those of the
second. -/
theorem tokenize_sequence {first blanks blanks' second : Text} {op : Sequencer}
    (hfirst : Balanced first) (hown : OwnToken first blanks op blanks' second) :
    ∃ tokens, tokenizeShellCommand first = some tokens ∧
      tokenizeShellCommand (sequence first blanks op blanks' second) =
        (tokenizeShellCommand second).map (tokens ++ op.tokens ++ ·) := by
  have hop := tokenizeFrom_sequencer hown
  have hempty : tokenizeFrom .unquoted [] (op.text ++ (blanks' ++ second)) =
      (tokenizeShellCommand second).map (op.tokens ++ ·) := hop []
  have hdelimits : Delimits (blanks ++ (op.text ++ (blanks' ++ second))) := by
    cases hblanks : blanks with
    | nil =>
        intro current
        rw [List.nil_append, hop current, hempty, Option.map_map]
        congr 1
        funext tokens
        simp
    | cons c rest =>
        exact delimits_blank ((hown.blank c (by rw [hblanks]; exact List.mem_cons_self)).imp_right
          .inl) _
  obtain ⟨tokens, hread, hwhole⟩ := readTogether_append hdelimits .unquoted [] first hfirst (by
    intro c hc
    cases hblanks : blanks with
    | nil =>
        have hbefore := hown.before hblanks c hc
        cases op <;> exact hbefore
    | cons b rest =>
        have hb := hown.blank b (by rw [hblanks]; exact List.mem_cons_self)
        have hoperator := isOperatorChar_of_endingFrom hc
        rw [List.cons_append, List.head?_cons]
        rintro ⟨rfl⟩
        rcases hb with rfl | rfl <;> cases hoperator)
  refine ⟨tokens, hread, ?_⟩
  rw [tokenizeShellCommand, sequence, hwhole, tokenizeFrom_blanks hown.blank, hempty,
    Option.map_map]
  congr 1
  funext rest
  simp

/-- A balanced command has tokens. -/
theorem exists_tokens_of_balanced {command : Text} (h : Balanced command) :
    ∃ tokens, tokenizeShellCommand command = some tokens := by
  obtain ⟨tokens, htokens, -⟩ := readTogether_append delimits_nil .unquoted [] command h
    fun _ _ => by simp
  exact ⟨tokens, htokens⟩

/-! ## Segments -/

/-- A segment, if there is anything in it. -/
def oneSegment (segment : List ShellToken) : List (List ShellToken) :=
  if segment = [] then [] else [segment]

/-- What is before a separator and what is after it are split by themselves. -/
theorem splitShellSegmentsFrom_separator {separator : ShellToken}
    (h : isCommandSeparator separator.text = true) (segment before after : List ShellToken) :
    splitShellSegmentsFrom segment (before ++ separator :: after) =
      splitShellSegmentsFrom segment before ++ splitShellSegments after := by
  induction before generalizing segment with
  | nil =>
      show (if isCommandSeparator separator.text = true then _ else _) = _
      rw [if_pos h]
      rfl
  | cons token before ih =>
      rw [List.cons_append, splitShellSegmentsFrom, splitShellSegmentsFrom]
      split
      · rw [ih, List.append_assoc]
      · exact ih _

/-- Tokens that are none or end with a separator are split by themselves. -/
theorem splitShellSegments_append_closed {closed : List ShellToken}
    (h : ∀ last ∈ closed.getLast?, isCommandSeparator last.text = true) (rest : List ShellToken) :
    splitShellSegments (closed ++ rest) = splitShellSegments closed ++ splitShellSegments rest := by
  rcases List.eq_nil_or_concat closed with rfl | ⟨before, last, rfl⟩
  · rfl
  · rw [List.concat_eq_append] at h ⊢
    have hlast : isCommandSeparator last.text = true := h last (by simp)
    have hclosed : splitShellSegments (before ++ [last]) = splitShellSegments before :=
      (splitShellSegmentsFrom_separator hlast [] before []).trans (List.append_nil _)
    rw [hclosed, List.append_assoc, List.singleton_append]
    exact splitShellSegmentsFrom_separator hlast [] before rest

/-- Tokens without a separator are one segment, up to the first separator. -/
theorem splitShellSegments_append_open {segment rest : List ShellToken}
    (h : ∀ token ∈ segment, isCommandSeparator token.text = false)
    (hrest : ∀ first ∈ rest.head?, isCommandSeparator first.text = true) :
    splitShellSegments (segment ++ rest) = oneSegment segment ++ splitShellSegments rest := by
  rw [splitShellSegments, splitShellSegmentsFrom_append h, List.nil_append]
  cases rest with
  | nil => exact (List.append_nil _).symm
  | cons separator rest =>
      have hseparator : isCommandSeparator separator.text = true := hrest separator rfl
      have hone := splitShellSegmentsFrom_separator hseparator segment [] rest
      have hnone := splitShellSegmentsFrom_separator hseparator [] [] rest
      rw [List.nil_append] at hone hnone
      rw [splitShellSegments, hone, hnone]
      rfl

/-- The tokens after the last separator, those up to the first one, and what is left of either. -/
def lastSegment (tokens : List ShellToken) : List ShellToken :=
  tokens.rtakeWhile fun token => !isCommandSeparator token.text

def beforeLastSegment (tokens : List ShellToken) : List ShellToken :=
  tokens.rdropWhile fun token => !isCommandSeparator token.text

def firstSegment (tokens : List ShellToken) : List ShellToken :=
  tokens.takeWhile fun token => !isCommandSeparator token.text

def afterFirstSegment (tokens : List ShellToken) : List ShellToken :=
  tokens.dropWhile fun token => !isCommandSeparator token.text

/-- The segments of a sequence: where the operator does not separate, the last segment of the first
command and the first one of the second are one, with the operator between. -/
def joinedSegments (op : Sequencer) (first second : List ShellToken) : List (List ShellToken) :=
  if op.separates then splitShellSegments first ++ splitShellSegments second
  else
    splitShellSegments (beforeLastSegment first) ++
      oneSegment (lastSegment first ++ op.tokens ++ firstSegment second) ++
      splitShellSegments (afterFirstSegment second)

/-- **The segments of a sequence.** -/
theorem splitShellSegments_sequence (op : Sequencer) (first second : List ShellToken) :
    splitShellSegments (first ++ op.tokens ++ second) = joinedSegments op first second := by
  rw [joinedSegments]
  split
  · next hseparates =>
    have hseparator : ∃ token, op.tokens = [token] ∧ isCommandSeparator token.text = true := by
      cases op with
      | semicolon | and | or | pipe => exact ⟨_, rfl, by decide⟩
      | background | newline => cases hseparates
    obtain ⟨token, htokens, htoken⟩ := hseparator
    rw [htokens, List.append_assoc, List.singleton_append]
    exact splitShellSegmentsFrom_separator htoken [] first second
  · next hseparates =>
    have htokens : ∀ token ∈ op.tokens, isCommandSeparator token.text = false := by
      cases op with
      | semicolon | and | or | pipe => exact absurd rfl hseparates
      | background | newline => decide
    have hfirst : beforeLastSegment first ++ lastSegment first = first :=
      List.rdropWhile_append_rtakeWhile
    have hsecond : firstSegment second ++ afterFirstSegment second = second :=
      List.takeWhile_append_dropWhile
    have hclosed : ∀ last ∈ (beforeLastSegment first).getLast?,
        isCommandSeparator last.text = true := by
      intro last hlast
      obtain ⟨hne, rfl⟩ := List.mem_getLast?_eq_getLast hlast
      have hlast := List.rdropWhile_last_not _ first hne
      rw [Bool.not_eq_true, Bool.not_eq_false'] at hlast
      exact hlast
    have hopen : ∀ token ∈ lastSegment first ++ op.tokens ++ firstSegment second,
        isCommandSeparator token.text = false := by
      intro token htoken
      rw [List.mem_append, List.mem_append] at htoken
      rcases htoken with (htoken | htoken) | htoken
      · simpa using List.mem_rtakeWhile_imp htoken
      · exact htokens token htoken
      · simpa using List.mem_takeWhile_imp htoken
    have hrest : ∀ token ∈ (afterFirstSegment second).head?,
        isCommandSeparator token.text = true := by
      intro token htoken
      have hhead := List.head?_dropWhile_not (fun token : ShellToken =>
        !isCommandSeparator token.text) second
      rw [show second.dropWhile _ = afterFirstSegment second from rfl, htoken] at hhead
      simpa using hhead
    have hsplit : first ++ op.tokens ++ second = beforeLastSegment first ++
        (lastSegment first ++ op.tokens ++ firstSegment second ++ afterFirstSegment second) := by
      conv_lhs => rw [← hfirst, ← hsecond]
      simp only [List.append_assoc]
    rw [hsplit, splitShellSegments_append_closed hclosed,
      splitShellSegments_append_open hopen hrest, ← List.append_assoc]

end Tools
end SimpleClaw
