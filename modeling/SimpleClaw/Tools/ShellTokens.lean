import SimpleClaw.Lib.Text

/-!
# The tokens the exec preflight sees

The part of `tools/builtin/exec.rs` that looks at the text of a command only: the tokenizer,
the segments between separators, the command name and the words that are taken for write
targets, and the two screens on the whole command.  Nothing here asks the host.
-/

namespace SimpleClaw
namespace Tools

/-! ## Tokens -/

inductive ShellTokenKind where
  | word
  | operator
  deriving DecidableEq

structure ShellToken where
  kind : ShellTokenKind
  text : Text
  deriving DecidableEq

/-- The two flags `in_single` and `in_double` of the tokenizer, which are never both set. -/
inductive Quoting where
  | unquoted
  | single
  | double
  deriving DecidableEq

def pushWordToken (current : Text) : List ShellToken :=
  if current = [] then [] else [⟨.word, current⟩]

def isOperatorChar (c : Char) : Bool := ['&', '|', ';', '>', '<'].contains c

/-- The operators of two characters. -/
def isDoubleOperator (c next : Char) : Bool := ['&', '|', '>', '<'].contains c && next == c

/-- The loop of `tokenize_shell_command`, with the quoting flags, the current word and the
characters still to read; the error is `none`. -/
def tokenizeFrom : Quoting → Text → Text → Option (List ShellToken)
  | .unquoted, current, [] => some (pushWordToken current)
  | .single, _, [] => none
  | .double, _, [] => none
  | .single, current, c :: rest =>
      if c = '\'' then tokenizeFrom .unquoted current rest
      else tokenizeFrom .single (current ++ [c]) rest
  | .double, current, c :: rest =>
      if c = '"' then tokenizeFrom .unquoted current rest
      else if c = '\\' then
        match rest with
        | [] => none
        | next :: rest => tokenizeFrom .double (current ++ [next]) rest
      else tokenizeFrom .double (current ++ [c]) rest
  | .unquoted, current, c :: rest =>
      if c = '\'' then tokenizeFrom .single current rest
      else if c = '"' then tokenizeFrom .double current rest
      else if c = '\\' then
        match rest with
        | [] => some (pushWordToken current)
        | next :: rest => tokenizeFrom .unquoted (current ++ [next]) rest
      else if c = ' ' ∨ c = '\t' ∨ c = '\n' then
        (tokenizeFrom .unquoted [] rest).map (pushWordToken current ++ ·)
      else if isOperatorChar c then
        match rest with
        | [] => some (pushWordToken current ++ [⟨.operator, [c]⟩])
        | next :: rest' =>
            if isDoubleOperator c next then
              (tokenizeFrom .unquoted [] rest').map
                (pushWordToken current ++ ⟨.operator, [c, next]⟩ :: ·)
            else
              (tokenizeFrom .unquoted [] (next :: rest')).map
                (pushWordToken current ++ ⟨.operator, [c]⟩ :: ·)
      else tokenizeFrom .unquoted (current ++ [c]) rest

/-- `tokenize_shell_command`. -/
def tokenizeShellCommand (command : Text) : Option (List ShellToken) :=
  tokenizeFrom .unquoted [] command

section Steps

variable (current rest : Text)

/-- A quotation mark changes the quoting and stands for nothing. -/
theorem tokenizeFrom_quote :
    tokenizeFrom .unquoted current ('\'' :: rest) = tokenizeFrom .single current rest ∧
      tokenizeFrom .single current ('\'' :: rest) = tokenizeFrom .unquoted current rest ∧
      tokenizeFrom .unquoted current ('"' :: rest) = tokenizeFrom .double current rest ∧
      tokenizeFrom .double current ('"' :: rest) = tokenizeFrom .unquoted current rest := by
  refine ⟨?_, ?_, ?_, ?_⟩ <;>
    · rw [tokenizeFrom.eq_def]
      rfl

theorem tokenizeFrom_inSingle {c : Char} (h : c ≠ '\'') :
    tokenizeFrom .single current (c :: rest) = tokenizeFrom .single (current ++ [c]) rest := by
  rw [tokenizeFrom.eq_def]
  simp only [if_neg h]

theorem tokenizeFrom_inDouble {c : Char} (hquote : c ≠ '"') (hescape : c ≠ '\\') :
    tokenizeFrom .double current (c :: rest) = tokenizeFrom .double (current ++ [c]) rest := by
  rw [tokenizeFrom.eq_def]
  simp only [if_neg hquote, if_neg hescape]

/-- A blank ends the word. -/
theorem tokenizeFrom_blank {c : Char} (h : c = ' ' ∨ c = '\t' ∨ c = '\n') :
    tokenizeFrom .unquoted current (c :: rest) =
      (tokenizeFrom .unquoted [] rest).map (pushWordToken current ++ ·) := by
  rw [tokenizeFrom.eq_def]
  rcases h with rfl | rfl | rfl <;> rfl

/-- An operator of one character ends the word. -/
theorem tokenizeFrom_operator {c : Char} (hc : isOperatorChar c = true)
    (hrest : ∀ tail, rest = c :: tail → c = ';') :
    tokenizeFrom .unquoted current (c :: rest) =
      (tokenizeFrom .unquoted [] rest).map (pushWordToken current ++ ⟨.operator, [c]⟩ :: ·) := by
  have hne : c ≠ '\'' ∧ c ≠ '"' ∧ c ≠ '\\' ∧ ¬ (c = ' ' ∨ c = '\t' ∨ c = '\n') := by
    have hmem := List.contains_iff_mem.mp hc
    simp only [List.mem_cons, List.not_mem_nil, or_false] at hmem
    rcases hmem with rfl | rfl | rfl | rfl | rfl <;> decide
  obtain ⟨hsingle, hdouble, hescape, hblank⟩ := hne
  rw [tokenizeFrom.eq_def]
  cases rest with
  | nil => simp [hsingle, hdouble, hescape, hblank, hc, tokenizeFrom, pushWordToken]
  | cons next tail =>
      have hnot : isDoubleOperator c next = false := by
        by_contra hboth
        rw [Bool.not_eq_false, isDoubleOperator, Bool.and_eq_true] at hboth
        obtain rfl : next = c := by simpa using hboth.2
        rw [hrest tail rfl] at hboth
        exact absurd hboth.1 (by decide)
      simp only [if_neg hsingle, if_neg hdouble, if_neg hescape, if_neg hblank, if_pos hc, hnot,
        Bool.false_eq_true, if_false]

/-- An operator of two characters ends the word. -/
theorem tokenizeFrom_double_operator {c : Char} (h : c = '&' ∨ c = '|' ∨ c = '>') :
    tokenizeFrom .unquoted current (c :: c :: rest) =
      (tokenizeFrom .unquoted [] rest).map (pushWordToken current ++ ⟨.operator, [c, c]⟩ :: ·) := by
  rw [tokenizeFrom.eq_def]
  rcases h with rfl | rfl | rfl <;> rfl

/-- Any other character goes on with the word. -/
theorem tokenizeFrom_plain {c : Char}
    (h : c ≠ '\'' ∧ c ≠ '"' ∧ c ≠ '\\' ∧ c ≠ ' ' ∧ c ≠ '\t' ∧ c ≠ '\n')
    (hc : isOperatorChar c = false) :
    tokenizeFrom .unquoted current (c :: rest) =
      tokenizeFrom .unquoted (current ++ [c]) rest := by
  obtain ⟨hsingle, hdouble, hescape, hspace, htab, hnewline⟩ := h
  rw [tokenizeFrom.eq_def]
  simp [hsingle, hdouble, hescape, hspace, htab, hnewline, hc]

end Steps

/-! ## Segments and what is looked at in them -/

def isCommandSeparator (token : Text) : Bool :=
  [("&&" : Text), ("||" : Text), (";" : Text), ("|" : Text)].contains token

def isRedirectionOperator (token : Text) : Bool :=
  [(">" : Text), (">>" : Text), ("1>" : Text), ("1>>" : Text), ("2>" : Text),
    ("2>>" : Text)].contains token

/-- The loop of `split_shell_segments`, with the segment begun. -/
def splitShellSegmentsFrom (segment : List ShellToken) : List ShellToken → List (List ShellToken)
  | [] => if segment = [] then [] else [segment]
  | token :: tokens =>
      if isCommandSeparator token.text then
        (if segment = [] then [] else [segment]) ++ splitShellSegmentsFrom [] tokens
      else splitShellSegmentsFrom (segment ++ [token]) tokens

/-- `split_shell_segments`. -/
def splitShellSegments (tokens : List ShellToken) : List (List ShellToken) :=
  splitShellSegmentsFrom [] tokens

/-- What is no separator goes on with the segment. -/
theorem splitShellSegmentsFrom_append {segment run : List ShellToken}
    (h : ∀ token ∈ run, isCommandSeparator token.text = false) (tokens : List ShellToken) :
    splitShellSegmentsFrom segment (run ++ tokens) =
      splitShellSegmentsFrom (segment ++ run) tokens := by
  induction run generalizing segment with
  | nil => rw [List.nil_append, List.append_nil]
  | cons token run ih =>
      rw [List.cons_append, splitShellSegmentsFrom, if_neg (by simp [h token List.mem_cons_self]),
        ih fun t ht => h t (List.mem_cons_of_mem _ ht), List.append_assoc, List.singleton_append]

def isEnvAssignment (token : Text) : Bool := decide ('=' ∈ token) && token.head? != some '='

/-- `segment_command_name`: the first word that is no assignment. -/
def segmentCommandName (tokens : List ShellToken) : Option Text :=
  (tokens.find? fun token => token.kind = .word ∧ isEnvAssignment token.text = false).map
    ShellToken.text

def nextWord (tokens : List ShellToken) : Option Text :=
  (tokens.find? fun token => token.kind = .word).map ShellToken.text

/-- The words taken for redirection targets, `none` where there is none. -/
def redirectionTargets : List ShellToken → List (Option Text)
  | [] => []
  | token :: tokens =>
      if isRedirectionOperator token.text then nextWord tokens :: redirectionTargets tokens
      else redirectionTargets tokens

/-- `non_flag_word_indexes`, with the words themselves for their indexes. -/
def nonFlagWords (tokens : List ShellToken) : List Text :=
  (tokens.filter fun token => token.kind = .word ∧ token.text.head? ≠ some '-').map
    ShellToken.text

/-- What follows the first word with the text of the command name. -/
def afterCommandName (commandName : Text) (tokens : List ShellToken) : List ShellToken :=
  (tokens.dropWhile fun token => ¬ (token.kind = .word ∧ token.text = commandName)).tail

/-- `write_target_indexes`, with the words themselves for their indexes. -/
def writeTargets (commandName : Text) (tokens : List ShellToken) : List Text :=
  let words := nonFlagWords (afterCommandName commandName tokens)
  if [("touch" : Text), ("mkdir" : Text), ("rm" : Text), ("rmdir" : Text),
      ("truncate" : Text)].contains commandName then words
  else if [("cp" : Text), ("mv" : Text), ("install" : Text)].contains commandName then
    words.getLast?.toList
  else if commandName = ("ln" : Text) then
    if 2 ≤ words.length then words.getLast?.toList else []
  else if commandName = ("tee" : Text) then words
  else []

/-- A write target does not begin with a dash. -/
theorem ne_dash_of_mem_writeTargets {commandName target : Text} {tokens : List ShellToken}
    (h : target ∈ writeTargets commandName tokens) : target ≠ ("-" : Text) := by
  have hwords : target ∈ nonFlagWords (afterCommandName commandName tokens) := by
    have hlast : ∀ words : List Text, target ∈ words.getLast?.toList → target ∈ words :=
      fun words h => List.mem_of_getLast? (Option.mem_toList.mp h)
    unfold writeTargets at h
    simp only at h
    split at h
    · exact h
    · split at h
      · exact hlast _ h
      · split at h
        · split at h
          · exact hlast _ h
          · cases h
        · split at h
          · exact h
          · cases h
  obtain ⟨token, htoken, rfl⟩ := List.mem_map.mp hwords
  have hkeep := (List.mem_filter.mp htoken).2
  rintro heq
  rw [heq] at hkeep
  simp at hkeep

/-! ## Screens on the whole command -/

def isNetworkTool (commandName : Text) : Bool :=
  [("curl" : Text), ("wget" : Text), ("nc" : Text), ("ncat" : Text), ("netcat" : Text),
    ("ssh" : Text), ("scp" : Text), ("rsync" : Text), ("ftp" : Text), ("sftp" : Text),
    ("dig" : Text), ("nslookup" : Text), ("ping" : Text)].contains commandName

/-- What is left after at least one white space character and all that follow it. -/
def afterBlanks : Text → Option Text
  | c :: rest => if Text.isWhiteSpace c then some (Text.trimStart rest) else none
  | [] => none

/-- `\$[A-Za-z_{]` somewhere. -/
def hasDynamicVariable : Text → Bool
  | '$' :: c :: rest =>
      c.isAlpha || c == '_' || c == '\x7b' || hasDynamicVariable (c :: rest)
  | _ :: rest => hasDynamicVariable rest
  | [] => false

/-- `\s+-c\s+(["']).*\$[A-Za-z_{]` from here on; the dot stops at the end of the line. -/
def dynamicArgument (t : Text) : Bool :=
  match afterBlanks t with
  | some ('-' :: 'c' :: rest) =>
      match afterBlanks rest with
      | some (quote :: rest) =>
          (quote == '"' || quote == '\'') && hasDynamicVariable (rest.takeWhile (· ≠ '\n'))
      | _ => false
  | _ => false

/-- `(?:bash|sh|zsh)\s+-c\s+(["']).*\$[A-Za-z_{]` from here on. -/
def dynamicShellHere (t : Text) : Bool :=
  [("bash" : Text), ("sh" : Text), ("zsh" : Text)].any fun shell =>
    shell.isPrefixOf t && dynamicArgument (t.drop shell.length)

/-- The same after a separator character and white space, somewhere. -/
def dynamicShellAfterSeparator : Text → Bool
  | c :: rest =>
      ((c == ';' || c == '&' || c == '|') && dynamicShellHere (Text.trimStart rest)) ||
        dynamicShellAfterSeparator rest
  | [] => false

/-- A match of `dynamic_shell_c_regex`. -/
def dynamicShellC (command : Text) : Bool :=
  dynamicShellHere command || dynamicShellAfterSeparator command

def commandUsesAmbiguousShellFeatures (command : Text) : Bool :=
  let lowered := Text.toAsciiLowercase command
  Text.contains lowered "eval " || ("eval\t" : Text).isPrefixOf lowered ||
    Text.contains lowered "`" || Text.contains lowered "$(" || Text.contains lowered "<(" ||
    Text.contains lowered ">(" || Text.contains lowered "<<" || dynamicShellC command

end Tools
end SimpleClaw
