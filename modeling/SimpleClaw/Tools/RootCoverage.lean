import SimpleClaw.Config.Normalize
import SimpleClaw.Config.Validate

/-!
# Do the configured roots cover what is below them?

A directory of the configuration and the path of a request reach the classification of a file
access in different ways.  The workspace path is expanded once by the configuration, the extra
roots never are, and a request is expanded every time; the classification makes a root absolute
in the directory of the process, and a request in the workspace, whatever that is relative to.

* `requestPath_extends`: a request that starts with a root goes on below what the root and a slash
  are as a request, so every spelling comes down to whether the root means itself.
* `meansItself_of_spelledAlike`, `meansItself_of_literalRoot`: when it does.
* `configuredRoots_cover_iff`: the spellings with which a file below a root is reached.
-/

namespace SimpleClaw
namespace Tools

open Sandbox

/-! ## What is asked for -/

/-- A path that can be given below a root: not empty, relative and without `..`. -/
structure BelowRoot (r : Text) : Prop where
  nonempty : r ≠ []
  relative : (PathBuf.ofText r).isAbsolute = false
  noParentDir : Part.parentDir ∉ (PathBuf.ofText r).parts

/-- The file at `r` below a root. -/
def rootFile (root : PathBuf) (r : Text) : PathBuf :=
  normalizeAbsolutePath (root.join (PathBuf.ofText r))

/-- The directories a guest path can be below. -/
def Mounted (host : Host) (workspaceRoot personaRoot : PathBuf) (extra : List WasmPreopenedDir)
    (dir : WasmPreopenedDir) : Prop :=
  (normalizeWorkspaceRoot host workspaceRoot = .ok dir.hostPath ∧
      dir.guestPath = workspaceGuestMountPath) ∨
    (normalizeWorkspaceRoot host personaRoot = .ok dir.hostPath ∧
      dir.guestPath = personaGuestMountPath) ∨
    dir ∈ extra

/-- The route is sandboxed, under a guest path of exactly this file. -/
def Serves (host : Host) (workspaceRoot personaRoot file : PathBuf) : FileToolRoute → Prop
  | .sandboxed guestPath extra =>
      ∃ dir relative, Mounted host workspaceRoot personaRoot extra dir ∧
        guestPath = guestPathText dir.guestPath relative ∧
        normalizeAbsolutePath (dir.hostPath.join relative) = file
  | .needsApproval _ _ _ => False

/-- The request is resolved to the file at `r` below the root, and that file is served. -/
def Covers (host : Host) (rawPath : Text) (workspaceRoot personaRoot : PathBuf)
    (sandbox : ToolSandboxConfig) (capability : SandboxCapability) (root : PathBuf) (r : Text) :
    Prop :=
  ∃ abs route, normalizeWorkspaceRoot host root = .ok abs ∧
    planFileAccess host rawPath workspaceRoot personaRoot sandbox capability =
      .ok (rootFile abs r, route) ∧
    Serves host workspaceRoot personaRoot (rootFile abs r) route

/-- The extra roots of a capability, as they are configured. -/
def extraPathsForCapability (sandbox : ToolSandboxConfig) (capability : SandboxCapability) :
    List Text :=
  sandbox.extraReadablePaths ++
    if capability = .write then sandbox.extraWritablePaths else []

theorem sandboxPathsForCapability_eq (sandbox : ToolSandboxConfig)
    (capability : SandboxCapability) : sandboxPathsForCapability sandbox capability =
      (extraPathsForCapability sandbox capability).map PathBuf.ofText := by
  unfold sandboxPathsForCapability extraPathsForCapability
  split_ifs <;> simp

/-! ## What is resolved -/

/-- The path the text of a request expands to. -/
def requestPath (host : Host) (rawPath : Text) : PathBuf :=
  let expandedInput := expandEnvVars host (Text.trim rawPath)
  (expandHomeDir host expandedInput).getD (PathBuf.ofText expandedInput)

theorem resolvePathForRead_ok_iff {host : Host} {rawPath : Text} {workspaceRoot path : PathBuf} :
    resolvePathForRead host rawPath workspaceRoot = .ok path ↔
      Text.trim rawPath ≠ [] ∧
        normalizeAbsolutePath (workspaceRoot.join (requestPath host rawPath)) = path := by
  unfold resolvePathForRead
  by_cases htrim : Text.trim rawPath = []
  · simp [htrim]
  · have hjoin : (if (requestPath host rawPath).isAbsolute then requestPath host rawPath
        else workspaceRoot.join (requestPath host rawPath)) =
          workspaceRoot.join (requestPath host rawPath) := by
      by_cases habs : (requestPath host rawPath).isAbsolute = true
      · rw [if_pos habs, PathBuf.join, if_pos habs]
      · rw [if_neg habs]
    rw [if_neg htrim]
    unfold requestPath at hjoin ⊢
    simp only [hjoin, Except.ok.injEq, ne_eq, htrim, not_false_eq_true, true_and]

theorem rootFile_eq {root : PathBuf} {r : Text} (hr : BelowRoot r) :
    rootFile root r =
      PathBuf.ofNames root.isAbsolute (root.names ++ (PathBuf.ofText r).names) := by
  have hjoin := PathBuf.extends_join hr.relative hr.noParentDir root
  rw [rootFile, normalizeAbsolutePath_eq, hjoin.isAbsolute, hjoin.names_eq]

theorem normalizeAbsolutePath_rootFile (root : PathBuf) (r : Text) :
    normalizeAbsolutePath (rootFile root r) = rootFile root r := by
  rw [rootFile, normalizeAbsolutePath_eq (root.join _), normalizeAbsolutePath_ofNames]

/-! ## What is served -/

section Served

variable {host : Host} {workspaceRoot personaRoot root abs path : PathBuf}
  {sandbox : ToolSandboxConfig} {capability : SandboxCapability} {rawPath r : Text}

/-- **A sandboxed route is one to the path that was classified**, below whichever root it was
found. -/
theorem serves_of_sandboxed {g : Text} {pre : List WasmPreopenedDir}
    (h : classifyFileToolAccess host path workspaceRoot personaRoot sandbox capability =
      .ok (.sandboxed g pre)) :
    Serves host workspaceRoot personaRoot (normalizeAbsolutePath path) (.sandboxed g pre) := by
  rcases classifyFileToolAccess_cases h with
    ⟨workspace, r, hworkspace, hpath, rfl, -⟩ | ⟨-, -, persona, r, hpersona, hpath, -, rfl, -⟩ |
    ⟨-, -, index, root, r, hpath, rfl, rfl⟩
  · refine ⟨⟨workspace, workspaceGuestMountPath⟩, _, .inl ⟨hworkspace, rfl⟩, rfl, ?_⟩
    rw [normalizeAbsolutePath_join_ofNames (normalizeWorkspaceRoot_isAbsolute hworkspace), hpath]
  · refine ⟨⟨persona, personaGuestMountPath⟩, _, .inr (.inl ⟨hpersona, rfl⟩), rfl, ?_⟩
    rw [normalizeAbsolutePath_join_ofNames (normalizeWorkspaceRoot_isAbsolute hpersona), hpath]
  · refine ⟨⟨PathBuf.ofNames true root, extraGuestRoot index⟩, _,
      .inr (.inr List.mem_cons_self), rfl, ?_⟩
    rw [normalizeAbsolutePath_join_ofNames rfl, PathBuf.names_ofNames, hpath]

/-- A file below a root is under the root. -/
theorem underRoot_rootFile (habs : normalizeWorkspaceRoot host root = .ok abs)
    (hr : BelowRoot r) : underRoot host root (rootFile abs r) = true := by
  have habsolute := normalizeWorkspaceRoot_isAbsolute habs
  refine underRoot_iff.mpr ⟨abs, habs, ?_⟩
  rw [normalizeAbsolutePath_rootFile, rootFile_eq hr, normalizeAbsolutePath_eq, habsolute,
    PathBuf.stripPrefix_ofNames, if_pos (List.prefix_append _ _)]
  rfl

/-- The request is resolved to the file at `r` below the root. -/
def Names (host : Host) (rawPath : Text) (workspaceRoot root : PathBuf) (r : Text) : Prop :=
  ∃ abs, normalizeWorkspaceRoot host root = .ok abs ∧ Text.trim rawPath ≠ [] ∧
    normalizeAbsolutePath (workspaceRoot.join (requestPath host rawPath)) = rootFile abs r

theorem names_iff (habs : normalizeWorkspaceRoot host root = .ok abs) :
    Names host rawPath workspaceRoot root r ↔ Text.trim rawPath ≠ [] ∧
      normalizeAbsolutePath (workspaceRoot.join (requestPath host rawPath)) = rootFile abs r := by
  unfold Names
  rw [habs]
  constructor
  · rintro ⟨_, ⟨⟩, h⟩
    exact h
  · exact fun h => ⟨abs, rfl, h⟩

/-- Covering a file is resolving the request to it and letting it through. -/
theorem covers_iff : Covers host rawPath workspaceRoot personaRoot sandbox capability root r ↔
    ∃ abs, normalizeWorkspaceRoot host root = .ok abs ∧
      resolvePathForRead host rawPath workspaceRoot = .ok (rootFile abs r) ∧
      ∃ g pre, classifyFileToolAccess host (rootFile abs r) workspaceRoot personaRoot sandbox
        capability = .ok (.sandboxed g pre) := by
  constructor
  · rintro ⟨abs, route, habs, hplan, hserves⟩
    have hroute := planFileAccess_route hplan
    unfold planFileAccess at hplan
    cases hresolve : resolvePathForRead host rawPath workspaceRoot with
    | error e => simp [hresolve, bind, Except.bind] at hplan
    | ok path =>
        simp only [hresolve, bind, Except.bind] at hplan
        cases hclass : classifyFileToolAccess host path workspaceRoot personaRoot sandbox
            capability with
        | error e => simp [hclass] at hplan
        | ok found =>
            simp only [hclass, pure, Except.pure] at hplan
            cases hplan
            cases route with
            | sandboxed g pre => exact ⟨abs, habs, rfl, g, pre, hroute⟩
            | needsApproval capability target reason => exact hserves.elim
  · rintro ⟨abs, habs, hresolve, g, pre, hclass⟩
    refine ⟨abs, .sandboxed g pre, habs, ?_, ?_⟩
    · rw [planFileAccess, hresolve]
      simp [bind, Except.bind, pure, Except.pure, hclass]
    · rw [← normalizeAbsolutePath_rootFile abs r]
      exact serves_of_sandboxed hclass

/-- **The workspace lets everything below it through**, so only the resolving counts. -/
theorem covers_workspace_iff (hr : BelowRoot r) :
    Covers host rawPath workspaceRoot personaRoot sandbox capability workspaceRoot r ↔
      Names host rawPath workspaceRoot workspaceRoot r := by
  rw [covers_iff, Names]
  refine exists_congr fun abs => and_congr_right fun habs => ?_
  have hthrough := (classifyFileToolAccess_sandboxed_iff host (rootFile abs r) workspaceRoot
    personaRoot sandbox capability).mpr (.inl (underRoot_rootFile habs hr))
  rw [and_iff_left hthrough, resolvePathForRead_ok_iff]

/-- Nothing keeps the file at `r` below an extra root from being let through: it is let through
before the extra roots are looked at, or every root can be made absolute. -/
def LetThrough (host : Host) (workspaceRoot personaRoot : PathBuf) (sandbox : ToolSandboxConfig)
    (capability : SandboxCapability) (root : PathBuf) (r : Text) : Prop :=
  ∃ abs, normalizeWorkspaceRoot host root = .ok abs ∧
    (underRoot host workspaceRoot (rootFile abs r) = true ∨
      (resolvable host workspaceRoot = true ∧ resolvable host personaRoot = true ∧
        (allowedPersona host personaRoot (rootFile abs r) = true ∨
          ∀ root ∈ sandboxPathsForCapability sandbox capability, resolvable host root = true)))

/-- A file below an extra root is served if the request is resolved to it and nothing keeps it
from being let through. -/
theorem covers_extra_iff (hroot : root ∈ sandboxPathsForCapability sandbox capability)
    (hr : BelowRoot r) :
    Covers host rawPath workspaceRoot personaRoot sandbox capability root r ↔
      LetThrough host workspaceRoot personaRoot sandbox capability root r ∧
        Names host rawPath workspaceRoot root r := by
  rw [covers_iff, LetThrough]
  constructor
  · rintro ⟨abs, habs, hresolve, hthrough⟩
    rw [classifyFileToolAccess_sandboxed_iff] at hthrough
    refine ⟨⟨abs, habs, ?_⟩, abs, habs, resolvePathForRead_ok_iff.mp hresolve⟩
    exact hthrough.imp_right fun h => ⟨h.1, h.2.1, h.2.2.imp_right And.left⟩
  · rintro ⟨⟨abs, habs, hthrough⟩, hnames⟩
    refine ⟨abs, habs, resolvePathForRead_ok_iff.mpr ((names_iff habs).mp hnames), ?_⟩
    rw [classifyFileToolAccess_sandboxed_iff]
    exact hthrough.imp_right fun h => ⟨h.1, h.2.1,
      h.2.2.imp_right fun hall => ⟨hall, root, hroot, underRoot_rootFile habs hr⟩⟩

end Served

/-! ## Requests below a root -/

/-- Nothing is trimmed off the request and nothing in it is expanded. -/
structure LiteralRequest (host : Host) (rawPath : Text) : Prop where
  trimmed : Text.trim rawPath = rawPath
  noReference : VarRefs.references isEnvNameChar rawPath = []
  noHome : expandHomeDir host rawPath = none

/-- Nothing is trimmed off the path after a root, and nothing in it is expanded. -/
structure LiteralEnd (r : Text) : Prop where
  trimmed : Text.trimEnd r = r
  noReference : VarRefs.references isEnvNameChar r = []

section Expanded

variable {host : Host} {workspaceRoot root : PathBuf} {rawPath workspace extra r : Text}

theorem requestPath_of_literal (h : LiteralRequest host rawPath) :
    requestPath host rawPath = PathBuf.ofText rawPath := by
  unfold requestPath
  rw [h.trimmed, Config.requestExpandEnvVars_of_references_eq_nil host h.noReference]
  simp only [h.noHome]
  rfl

/-- What stands before a slash is trimmed at its start, what stands after it at its end. -/
theorem trim_append_slash (u v : Text) :
    Text.trim (u ++ '/' :: v) = Text.trimStart u ++ '/' :: Text.trimEnd v := by
  have hslash : Text.isWhiteSpace '/' = false := by decide
  rw [Text.trim, Text.trimStart, (VarRefs.takeWhile_append_cons hslash).2]
  exact Text.trimEnd_append_cons hslash _ v

/-- Only a tilde is expanded to the home directory. -/
theorem expandHomeDir_of_ne {c : Char} (hc : c ≠ '~') (t : Text) :
    expandHomeDir host (c :: t) = none := by
  unfold expandHomeDir
  split
  · rename_i heq
    exact absurd (List.cons.inj heq).1 hc
  · rename_i heq
    exact absurd (List.cons.inj heq).1 hc
  · rfl

/-- With the home directory put in, a path after a slash is still below what stands before. -/
theorem extends_expandHomeDir (hr : BelowRoot r) (t : Text) :
    ((expandHomeDir host (t ++ ['/'])).getD (PathBuf.ofText (t ++ ['/']))).Extends
      ((expandHomeDir host (t ++ '/' :: r)).getD (PathBuf.ofText (t ++ '/' :: r)))
      (PathBuf.ofText r).names := by
  have hbelow := PathBuf.ofText_append_slash hr.relative hr.noParentDir
  have hplain := hbelow t
  match t with
  | [] => simpa [expandHomeDir_of_ne] using hplain
  | c :: t =>
      by_cases hc : c = '~'
      · subst hc
        match t with
        | [] =>
            cases hhome : homeDir host with
            | none => simpa [expandHomeDir, hhome] using hplain
            | some home =>
                simpa [expandHomeDir, hhome, hr.nonempty] using
                  PathBuf.extends_join hr.relative hr.noParentDir home
        | separator :: remainder =>
            by_cases hsep : separator ≠ '/' ∧ separator ≠ '\\'
            · simpa [expandHomeDir, hsep] using hplain
            · cases hhome : homeDir host with
              | none => simpa [expandHomeDir, hsep, hhome] using hplain
              | some home =>
                  simpa [expandHomeDir, hsep, hhome] using (hbelow remainder).join home
      · rw [List.cons_append, List.cons_append, expandHomeDir_of_ne hc, expandHomeDir_of_ne hc]
        exact hplain

/-- **A request that starts with a root goes on below what the root and a slash are as a
request.** -/
theorem requestPath_extends (h : LiteralEnd r) (hr : BelowRoot r) (root : Text) :
    (requestPath host (root ++ ['/'])).Extends (requestPath host (root ++ '/' :: r))
      (PathBuf.ofText r).names := by
  have hnil : expandEnvVars host [] = [] := rfl
  unfold requestPath
  rw [trim_append_slash, trim_append_slash, h.trimmed, Text.trimEnd_nil,
    Config.requestExpandEnvVars_append_slash, Config.requestExpandEnvVars_append_slash, hnil,
    Config.requestExpandEnvVars_of_references_eq_nil host h.noReference]
  exact extends_expandHomeDir hr _

/-- The root and a slash, as a request, are the directory of the root. -/
def MeansItself (host : Host) (rootText : Text) (workspaceRoot root : PathBuf) : Prop :=
  ∃ abs, normalizeWorkspaceRoot host root = .ok abs ∧
    normalizeAbsolutePath (workspaceRoot.join (requestPath host (rootText ++ ['/']))) =
      normalizeAbsolutePath abs

/-- **A request that starts with a root is the file below it exactly if the root means itself.** -/
theorem names_append_slash (h : LiteralEnd r) (hr : BelowRoot r) (rootText : Text)
    (workspaceRoot root : PathBuf) :
    Names host (rootText ++ '/' :: r) workspaceRoot root r ↔
      MeansItself host rootText workspaceRoot root := by
  have hextends := (@requestPath_extends host r h hr rootText).join workspaceRoot
  have htrim : Text.trim (rootText ++ '/' :: r) ≠ [] := by simp [trim_append_slash]
  unfold Names MeansItself
  refine exists_congr fun abs => and_congr_right fun _ => ?_
  rw [and_iff_right htrim, rootFile_eq hr, normalizeAbsolutePath_eq, normalizeAbsolutePath_eq,
    normalizeAbsolutePath_eq abs, hextends.isAbsolute, hextends.names_eq]
  constructor
  · intro hfile
    obtain ⟨habsolute, hnames⟩ := PathBuf.ofNames_injective hfile
    rw [habsolute, List.append_cancel_right hnames]
  · intro hdir
    obtain ⟨habsolute, hnames⟩ := PathBuf.ofNames_injective hdir
    rw [habsolute, hnames]

/-- Given relative to the workspace, a literal path is the file below the workspace exactly if
the workspace is absolute. -/
theorem names_of_literal (h : LiteralRequest host r) (hr : BelowRoot r) :
    Names host r workspaceRoot workspaceRoot r ↔ workspaceRoot.isAbsolute = true := by
  have hjoin := PathBuf.extends_join hr.relative hr.noParentDir workspaceRoot
  unfold Names
  rw [requestPath_of_literal h, h.trimmed]
  constructor
  · rintro ⟨abs, habs, -, hfile⟩
    rw [rootFile_eq hr, normalizeAbsolutePath_eq, hjoin.isAbsolute,
      normalizeWorkspaceRoot_isAbsolute habs] at hfile
    exact (PathBuf.ofNames_injective hfile).1
  · intro habsolute
    exact ⟨workspaceRoot, by rw [normalizeWorkspaceRoot, if_pos habsolute], hr.nonempty, rfl⟩

/-! ## Roots that mean themselves -/

/-- The workspace is configured so that it is expanded alike at the start of a request. -/
structure SpelledAlike (host : Host) (workspace : Text) : Prop where
  trimmed : Text.trimStart workspace = workspace
  defined : ∀ key ∈ VarRefs.references isEnvNameChar workspace, (host.envVar key).isSome = true
  goesOn : Config.expandEnvVars host workspace ∉ [[], ['~', '/'], ['~', '\\']]

/-- A slash after a text changes nothing, unless it starts a path of its own. -/
theorem expandHomeDir_slash {t : Text} (ht : t ∉ [[], ['~', '/'], ['~', '\\']]) :
    (expandHomeDir host (t ++ ['/'])).getD (PathBuf.ofText (t ++ ['/'])) =
      (expandHomeDir host t).getD (PathBuf.ofText t) := by
  obtain ⟨hnil, hslash, hbackslash⟩ : t ≠ [] ∧ t ≠ ['~', '/'] ∧ t ≠ ['~', '\\'] := by
    simpa using ht
  rw [PathBuf.ofText_slash hnil]
  obtain ⟨c, t, rfl⟩ := List.exists_cons_of_ne_nil hnil
  by_cases hc : c = '~'
  · subst hc
    match t with
    | [] => cases hhome : homeDir host <;> simp [expandHomeDir, hhome]
    | separator :: remainder =>
        by_cases hsep : separator ≠ '/' ∧ separator ≠ '\\'
        · simp [expandHomeDir, hsep]
        · have hremainder : remainder ≠ [] := by
            rintro rfl
            rw [not_and_or, not_not, not_not] at hsep
            rcases hsep with rfl | rfl
            · exact hslash rfl
            · exact hbackslash rfl
          simp [expandHomeDir, hsep, hremainder, PathBuf.ofText_slash hremainder]
  · rw [List.cons_append, expandHomeDir_of_ne hc, expandHomeDir_of_ne hc]

/-- **A workspace that is spelled alike means itself exactly if it is absolute.** -/
theorem meansItself_of_spelledAlike (h : SpelledAlike host workspace) :
    MeansItself host workspace (Config.normalizeWorkspacePath host workspace)
        (Config.normalizeWorkspacePath host workspace) ↔
      (Config.normalizeWorkspacePath host workspace).isAbsolute = true := by
  have hnil : expandEnvVars host [] = [] := rfl
  have hrequest : requestPath host (workspace ++ ['/']) =
      Config.normalizeWorkspacePath host workspace := by
    unfold requestPath Config.normalizeWorkspacePath
    rw [trim_append_slash, h.trimmed, Text.trimEnd_nil, Config.requestExpandEnvVars_append_slash,
      hnil, (Config.expandEnvVars_agree_iff host workspace).mpr h.defined]
    exact expandHomeDir_slash h.goesOn
  unfold MeansItself
  rw [hrequest]
  generalize Config.normalizeWorkspacePath host workspace = root
  constructor
  · rintro ⟨abs, habs, hdir⟩
    rw [normalizeAbsolutePath_eq, normalizeAbsolutePath_eq abs, PathBuf.isAbsolute_join_eq,
      Bool.or_self, normalizeWorkspaceRoot_isAbsolute habs] at hdir
    exact (PathBuf.ofNames_injective hdir).1
  · intro habsolute
    exact ⟨root, by rw [normalizeWorkspaceRoot, if_pos habsolute],
      by rw [PathBuf.join, if_pos habsolute]⟩

/-- An extra root is configured so that a request that starts with it is not expanded. -/
structure LiteralRoot (host : Host) (extra : Text) : Prop where
  literal : LiteralRequest host (extra ++ ['/'])
  nonempty : extra ≠ []

/-- **A literal extra root means itself exactly if it names the same directory in the workspace
as in the directory of the process.** -/
theorem meansItself_of_literalRoot (h : LiteralRoot host extra) (workspaceRoot : PathBuf) :
    MeansItself host extra workspaceRoot (PathBuf.ofText extra) ↔
      ∃ abs, normalizeWorkspaceRoot host (PathBuf.ofText extra) = .ok abs ∧
        normalizeAbsolutePath (workspaceRoot.join (PathBuf.ofText extra)) =
          normalizeAbsolutePath abs := by
  rw [MeansItself, requestPath_of_literal h.literal, PathBuf.ofText_slash h.nonempty]

end Expanded

/-! ## The roots of a configuration -/

/-- The workspace is the same directory where it is configured and where a request starts with
it. -/
def WorkspaceAgrees (host : Host) (workspace : Text) : Prop :=
  let workspaceRoot := Config.normalizeWorkspacePath host workspace
  (SpelledAlike host workspace ∧ workspaceRoot.isAbsolute = true) ∨
    (¬ SpelledAlike host workspace ∧ MeansItself host workspace workspaceRoot workspaceRoot)

/-- An extra root is the same directory for the classification and where a request starts with
it. -/
def ExtraAgrees (host : Host) (workspaceRoot : PathBuf) (extra : Text) : Prop :=
  (LiteralRoot host extra ∧
      ∃ abs, normalizeWorkspaceRoot host (PathBuf.ofText extra) = .ok abs ∧
        normalizeAbsolutePath (workspaceRoot.join (PathBuf.ofText extra)) =
          normalizeAbsolutePath abs) ∨
    (¬ LiteralRoot host extra ∧ MeansItself host extra workspaceRoot (PathBuf.ofText extra))

/-- What settles the one case, with what settles the other. -/
theorem iff_cases {p q a b : Prop} (hpos : p → (q ↔ a)) (hneg : ¬ p → (q ↔ b)) :
    q ↔ (p ∧ a) ∨ (¬ p ∧ b) := by
  by_cases hp : p
  · simp [hp, hpos hp]
  · simp [hp, hneg hp]

/-- **When the configured roots cover what is below them.**  A path given by itself asks for an
absolute workspace; a path after a root, for a root that is the same directory both times.  Only
where the path itself is trimmed or expanded does it depend on what it is expanded to. -/
theorem configuredRoots_cover_iff (host : Host) (workspace : Text) (personaRoot : PathBuf)
    (sandbox : ToolSandboxConfig) (capability : SandboxCapability) (r : Text)
    (hr : BelowRoot r) :
    let workspaceRoot := Config.normalizeWorkspacePath host workspace
    (Covers host r workspaceRoot personaRoot sandbox capability workspaceRoot r ↔
      (LiteralRequest host r ∧ workspaceRoot.isAbsolute = true) ∨
        (¬ LiteralRequest host r ∧ Names host r workspaceRoot workspaceRoot r)) ∧
    (Covers host (workspace ++ '/' :: r) workspaceRoot personaRoot sandbox capability
        workspaceRoot r ↔
      (LiteralEnd r ∧ WorkspaceAgrees host workspace) ∨
        (¬ LiteralEnd r ∧ Names host (workspace ++ '/' :: r) workspaceRoot workspaceRoot r)) ∧
    ∀ extra ∈ extraPathsForCapability sandbox capability,
      (Covers host (extra ++ '/' :: r) workspaceRoot personaRoot sandbox capability
          (PathBuf.ofText extra) r ↔
        LetThrough host workspaceRoot personaRoot sandbox capability (PathBuf.ofText extra) r ∧
          ((LiteralEnd r ∧ ExtraAgrees host workspaceRoot extra) ∨
            (¬ LiteralEnd r ∧
              Names host (extra ++ '/' :: r) workspaceRoot (PathBuf.ofText extra) r))) := by
  intro workspaceRoot
  refine ⟨?_, ?_, fun extra hextra => ?_⟩
  · rw [covers_workspace_iff hr]
    exact iff_cases (fun h => names_of_literal h hr) fun _ => Iff.rfl
  · rw [covers_workspace_iff hr]
    refine iff_cases (fun h => ?_) fun _ => Iff.rfl
    rw [names_append_slash h hr]
    exact iff_cases meansItself_of_spelledAlike fun _ => Iff.rfl
  · have hroot : PathBuf.ofText extra ∈ sandboxPathsForCapability sandbox capability := by
      rw [sandboxPathsForCapability_eq]
      exact List.mem_map_of_mem hextra
    rw [covers_extra_iff hroot hr]
    refine and_congr_right fun _ => iff_cases (fun h => ?_) fun _ => Iff.rfl
    rw [names_append_slash h hr]
    exact iff_cases (fun hliteral => meansItself_of_literalRoot hliteral workspaceRoot)
      fun _ => Iff.rfl

/-! ## Configurations on a host -/

/-- What waits for approval is not covered. -/
theorem not_covers_of_guestPath_eq_none {host : Host} {rawPath r : Text}
    {workspaceRoot personaRoot root : PathBuf} {sandbox : ToolSandboxConfig}
    {capability : SandboxCapability}
    (h : (planFileAccess host rawPath workspaceRoot personaRoot sandbox capability).map
      (fun planned => planned.2.guestPath) = .ok none) :
    ¬ Covers host rawPath workspaceRoot personaRoot sandbox capability root r := by
  rintro ⟨abs, route, -, hplan, hserves⟩
  rw [hplan] at h
  cases route with
  | sandboxed guestPath extra => cases h
  | needsApproval capability target reason => exact hserves

/-- A host with a home directory, where the process was started beside it. -/
def agentHost : Host :=
  { openHost with
    envVar key := if key = "HOME".toList then some "/home/agent" else none
    currentDir := .ok (PathBuf.ofText "/srv/bot")
    currentDir_absolute := by rintro dir ⟨⟩; rfl }

/-- Absolute roots cover their files, the workspace also with a tilde. -/
theorem absoluteRoots_covered :
    let workspaceRoot := Config.normalizeWorkspacePath agentHost "~/workspace"
    let sandbox : ToolSandboxConfig := ⟨none, [], [("/data" : Text)]⟩
    Covers agentHost "notes.txt" workspaceRoot workspaceRoot sandbox .read workspaceRoot
        "notes.txt" ∧
      Covers agentHost (("~/workspace" : Text) ++ '/' :: "notes.txt".toList) workspaceRoot
        workspaceRoot sandbox .read workspaceRoot "notes.txt" ∧
      Covers agentHost (("/data" : Text) ++ '/' :: "notes.txt".toList) workspaceRoot
        workspaceRoot sandbox .read (PathBuf.ofText "/data") "notes.txt" := by
  have hr : BelowRoot "notes.txt" := ⟨by decide, by decide, by decide⟩
  have hend : LiteralEnd "notes.txt" := ⟨by decide, by decide⟩
  have hextra : ("/data" : Text) ∈
      extraPathsForCapability ⟨none, [], [("/data" : Text)]⟩ .read := by decide
  obtain ⟨hrelative, hspelled, hextras⟩ := configuredRoots_cover_iff agentHost "~/workspace"
    (Config.normalizeWorkspacePath agentHost "~/workspace") ⟨none, [], [("/data" : Text)]⟩ .read
    "notes.txt" hr
  refine ⟨hrelative.mpr (.inl ⟨⟨by decide, by decide, by decide⟩, by decide⟩),
    hspelled.mpr (.inl ⟨hend, .inl ⟨⟨by decide, by decide, by decide⟩, by decide⟩⟩),
    (hextras _ hextra).mpr ⟨⟨PathBuf.ofText "/data", rfl, .inr ⟨by decide, by decide, .inr ?_⟩⟩,
      .inl ⟨hend, .inl ⟨⟨⟨by decide, by decide, by decide⟩, by decide⟩,
        PathBuf.ofText "/data", rfl, by decide⟩⟩⟩⟩
  decide

/-- The workspace of the default configuration is relative, an extra root may start with a tilde,
and the workspace may name a variable that is not defined: none of them covers its files. -/
theorem configuredRoots_notCovered :
    let persona := Config.normalizeWorkspacePath agentHost "./personas/default"
    let relative := Config.normalizeWorkspacePath agentHost "./workspace"
    let home := Config.normalizeWorkspacePath agentHost "~/workspace"
    let branch := Config.normalizeWorkspacePath agentHost "/srv/$BRANCH/bot"
    BelowRoot "notes.txt" ∧
      Config.validateAgentPath "default" "workspace" "./workspace" = .ok () ∧
      ¬ Covers agentHost "notes.txt" relative persona ⟨none, [], []⟩ .read relative "notes.txt" ∧
      ¬ Covers agentHost "~/data/notes.txt" home persona ⟨none, [], [("~/data" : Text)]⟩ .read
        (PathBuf.ofText "~/data") "notes.txt" ∧
      ¬ Covers agentHost "/srv/$BRANCH/bot/notes.txt" branch persona ⟨none, [], []⟩ .read branch
        "notes.txt" :=
  ⟨⟨by decide, by decide, by decide⟩, rfl, not_covers_of_guestPath_eq_none (by decide +kernel),
    not_covers_of_guestPath_eq_none (by decide +kernel),
    not_covers_of_guestPath_eq_none (by decide +kernel)⟩

end Tools
end SimpleClaw
