import SimpleClaw.Lib.VarRefs
import SimpleClaw.Tools.FileAccess

/-!
# Directories as they are configured

`config/normalize.rs` expands the variables and the home directory in the persona and workspace
paths once, when the configuration is loaded; `file_access.rs` does the same with every request.
The two differ in one thing: a variable that is not defined stays as it is written in the
configuration, and is dropped from a request.

* `normalizeWorkspacePath`: a configured directory.
* `expandEnvVars_eq`, `requestExpandEnvVars_eq`: both expansions, piece by piece.
* `expandEnvVars_agree_iff`: they agree on a text exactly if every variable in it is defined.
-/

namespace SimpleClaw
namespace Config

open Tools (isEnvNameChar envValue)
open VarRefs (Piece)

/-! ## The two expansions -/

/-- `is_env_key_char`. -/
def isEnvKeyChar (c : Char) (first : Bool) : Bool :=
  if first then c == '_' || c.isAlpha else c == '_' || c.isAlphanum

def isValidEnvKey : Text → Bool
  | [] => false
  | first :: rest => isEnvKeyChar first true && rest.all fun c => isEnvKeyChar c false

/-- The loop both expansions are: over the rest of the input, with what stands for a variable in
braces and for one without.  Every turn takes at least one character off the input. -/
def expandEnvVarsWith (braced bare : Text → Text) : Nat → Text → Text
  | 0, _ => []
  | _ + 1, [] => []
  | fuel + 1, '$' :: '{' :: rest =>
      let key := rest.takeWhile (· ≠ '}')
      match rest.dropWhile (· ≠ '}') with
      | _ :: after =>
          if isValidEnvKey key then braced key ++ expandEnvVarsWith braced bare fuel after
          else '$' :: expandEnvVarsWith braced bare fuel ('{' :: rest)
      | [] => '$' :: expandEnvVarsWith braced bare fuel ('{' :: rest)
  | fuel + 1, '$' :: first :: rest =>
      if isEnvKeyChar first true then
        bare (first :: rest.takeWhile (isEnvKeyChar · false)) ++
          expandEnvVarsWith braced bare fuel (rest.dropWhile (isEnvKeyChar · false))
      else '$' :: expandEnvVarsWith braced bare fuel (first :: rest)
  | fuel + 1, c :: rest => c :: expandEnvVarsWith braced bare fuel rest

/-- The `expand_env_vars` of the configuration: what is not defined stays as it is written. -/
def expandEnvVars (host : Host) (input : Text) : Text :=
  expandEnvVarsWith (fun key => (host.envVar key).getD ('$' :: '{' :: key ++ ['}']))
    (fun key => (host.envVar key).getD ('$' :: key)) input.length input

/-- Word for word the one of `file_access.rs`. -/
def expandHomeDir (host : Host) (value : Text) : Option PathBuf := Tools.expandHomeDir host value

def normalizeWorkspacePath (host : Host) (path : Text) : PathBuf :=
  let expanded := expandEnvVars host path
  (expandHomeDir host expanded).getD (PathBuf.ofText expanded)

/-! ## Piece by piece -/

/-- What stands for a piece, by what stands for a variable. -/
def pieceValue (braced bare : Text → Text) : Piece → Text
  | .char c => [c]
  | .ref key true => braced key
  | .ref key false => bare key

theorem isValidEnvKey_eq (key : Text) : isValidEnvKey key = VarRefs.isName isEnvKeyChar key := by
  cases key <;> rfl

/-- The loop puts something for each piece, by induction on the turns. -/
theorem expandEnvVarsWith_eq (braced bare : Text → Text) (fuel : Nat) (t : Text) :
    expandEnvVarsWith braced bare fuel t =
      (VarRefs.piecesFrom isEnvKeyChar fuel t).flatMap (pieceValue braced bare) := by
  induction fuel generalizing t with
  | zero => rfl
  | succ fuel ih =>
      rw [VarRefs.piecesFrom]
      cases t with
      | nil => rfl
      | cons c t =>
          by_cases hc : c = '$'
          · subst hc
            cases t with
            | nil => exact congrArg ('$' :: ·) (ih [])
            | cons first t =>
                by_cases hopen : first = '{'
                · subst hopen
                  rw [VarRefs.firstPiece_braced, ← isValidEnvKey_eq, expandEnvVarsWith]
                  by_cases hclosed : '}' ∈ t
                  · rw [VarRefs.dropWhile_ne_of_mem hclosed]
                    dsimp only
                    split_ifs with hvalid hcond hcond
                    · exact congrArg _ (ih _)
                    · exact absurd ⟨hclosed, hvalid⟩ hcond
                    · exact absurd hcond.2 hvalid
                    · exact congrArg _ (ih _)
                  · have hnil : t.dropWhile (· ≠ '}') = [] :=
                      List.dropWhile_eq_nil_iff.mpr fun d hd =>
                        decide_eq_true fun heq => hclosed (heq ▸ hd)
                    rw [hnil, if_neg fun hcond => hclosed hcond.1]
                    exact congrArg _ (ih _)
                · rw [VarRefs.firstPiece_bare hopen, expandEnvVarsWith]
                  · split_ifs with hfirst
                    · exact congrArg _ (ih _)
                    · exact congrArg _ (ih _)
                  · simpa using hopen
          · rw [VarRefs.firstPiece_cons_of_ne hc, expandEnvVarsWith]
            · exact congrArg _ (ih _)
            · simp [hc]
            · simp [hc]

/-- A request tells the names of variables by the same characters. -/
theorem isEnvKeyChar_eq : isEnvKeyChar = isEnvNameChar := by
  funext c first
  cases first with
  | true => simp [isEnvKeyChar, isEnvNameChar, Bool.or_comm]
  | false =>
      simp only [isEnvKeyChar, isEnvNameChar, Char.isAlphanum, Bool.not_false, Bool.true_and,
        Bool.false_eq_true, if_false]
      rw [Bool.or_comm, Bool.or_right_comm]

theorem isValidEnvKey_eq_isValidEnvName (key : Text) :
    isValidEnvKey key = Tools.isValidEnvName key := by
  rw [isValidEnvKey_eq, isEnvKeyChar_eq]
  cases key <;> rfl

/-- The expansion of a request is the same loop, by induction on the turns. -/
theorem requestExpandEnvVarsFrom_eq (host : Host) (fuel : Nat) (t : Text) :
    Tools.expandEnvVarsFrom host fuel t =
      expandEnvVarsWith (envValue host) (envValue host) fuel t := by
  induction fuel generalizing t with
  | zero => rfl
  | succ fuel ih =>
      cases t with
      | nil => rfl
      | cons c t =>
          by_cases hc : c = '$'
          · subst hc
            cases t with
            | nil => exact congrArg ('$' :: ·) (ih [])
            | cons first t =>
                by_cases hopen : first = '{'
                · subst hopen
                  rw [Tools.expandEnvVarsFrom, expandEnvVarsWith]
                  cases t.dropWhile (· ≠ '}') with
                  | nil => exact congrArg _ (ih _)
                  | cons close after => simp only [ih, isValidEnvKey_eq_isValidEnvName]
                · rw [Tools.expandEnvVarsFrom, expandEnvVarsWith]
                  · simp only [ih, isEnvKeyChar_eq]
                  · simpa using hopen
                  · simpa using hopen
          · rw [Tools.expandEnvVarsFrom, expandEnvVarsWith]
            · rw [ih]
            · simp [hc]
            · simp [hc]
            · simp [hc]
            · simp [hc]

/-- What the configuration puts for a piece. -/
def configValue (host : Host) : Piece → Text :=
  pieceValue (fun key => (host.envVar key).getD ('$' :: '{' :: key ++ ['}']))
    (fun key => (host.envVar key).getD ('$' :: key))

/-- What a request puts for a piece. -/
def requestValue (host : Host) : Piece → Text := pieceValue (envValue host) (envValue host)

theorem expandEnvVars_eq (host : Host) (t : Text) :
    expandEnvVars host t = VarRefs.expand isEnvNameChar (configValue host) t := by
  rw [← isEnvKeyChar_eq]
  exact expandEnvVarsWith_eq _ _ t.length t

theorem requestExpandEnvVars_eq (host : Host) (t : Text) :
    Tools.expandEnvVars host t = VarRefs.expand isEnvNameChar (requestValue host) t := by
  rw [Tools.expandEnvVars, requestExpandEnvVarsFrom_eq, expandEnvVarsWith_eq, isEnvKeyChar_eq]
  rfl

/-- A slash is part of no reference. -/
theorem separates_slash : VarRefs.Separates isEnvNameChar '/' where
  name first := by cases first <;> decide
  dollar := by decide
  opens := by decide
  closes := by decide

/-- A request is expanded on both sides of a slash. -/
theorem requestExpandEnvVars_append_slash (host : Host) (u v : Text) :
    Tools.expandEnvVars host (u ++ '/' :: v) =
      Tools.expandEnvVars host u ++ '/' :: Tools.expandEnvVars host v := by
  simp only [requestExpandEnvVars_eq]
  exact VarRefs.expand_append_cons separates_slash rfl u v

/-- A request without references is left as it is. -/
theorem requestExpandEnvVars_of_references_eq_nil (host : Host) {t : Text}
    (h : VarRefs.references isEnvNameChar t = []) : Tools.expandEnvVars host t = t := by
  rw [requestExpandEnvVars_eq]
  exact VarRefs.expand_of_references_eq_nil (fun _ => rfl) h

/-! ## Where the two differ -/

/-- A variable that is not defined is longer in the configuration than in a request, where it is
nothing. -/
theorem requestValue_eq_or_lt (host : Host) (piece : Piece) :
    requestValue host piece = configValue host piece ∨
      (requestValue host piece).length < (configValue host piece).length := by
  cases piece with
  | char c => exact .inl rfl
  | ref key braced =>
      cases hvar : host.envVar key with
      | some value =>
          left
          cases braced <;> simp [requestValue, configValue, pieceValue, envValue, hvar]
      | none =>
          right
          cases braced <;> simp [requestValue, configValue, pieceValue, envValue, hvar]

/-- The two put the same for a piece exactly if it refers to nothing that is not defined. -/
theorem requestValue_eq_iff (host : Host) (piece : Piece) :
    requestValue host piece = configValue host piece ↔
      ∀ key ∈ piece.key, (host.envVar key).isSome = true := by
  cases piece with
  | char c => exact iff_of_true rfl nofun
  | ref key braced =>
      cases hvar : host.envVar key with
      | some value =>
          cases braced <;>
            simp [requestValue, configValue, pieceValue, envValue, hvar, Piece.key]
      | none =>
          cases braced <;>
            simp [requestValue, configValue, pieceValue, envValue, hvar, Piece.key]

/-- **When the two expansions agree**: on a text that refers to defined variables only. -/
theorem expandEnvVars_agree_iff (host : Host) (t : Text) :
    Tools.expandEnvVars host t = expandEnvVars host t ↔
      ∀ key ∈ VarRefs.references isEnvNameChar t, (host.envVar key).isSome = true := by
  rw [requestExpandEnvVars_eq, expandEnvVars_eq,
    VarRefs.expand_eq_expand_iff fun piece _ => requestValue_eq_or_lt host piece]
  simp only [requestValue_eq_iff, VarRefs.references, List.mem_filterMap]
  constructor
  · rintro h key ⟨piece, hpiece, hkey⟩
    exact h piece hpiece key hkey
  · exact fun h piece hpiece key hkey => h key ⟨piece, hpiece, hkey⟩

end Config
end SimpleClaw
