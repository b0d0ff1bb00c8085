import SimpleClaw.Sandbox.Wasm

/-!
# Where a file tool may go without asking

`tools/builtin/file_access.rs` resolves the path argument of a file tool on the host and
decides whether the sandboxed tool can serve it: below the workspace, at an allowed persona
path, or below an extra root configured for the capability; anything else needs approval.

* `findMatchingExtraRoot_ok_iff`: the search for an extra root succeeds exactly if every
  root could be made absolute, and finds one exactly if one covers the path.
* `classifyFileToolAccess_sandboxed_iff`: the three ways of being let through, each with the
  guest path it is let through under.
-/

namespace SimpleClaw
namespace Tools

open Sandbox

/-- The part of the sandbox configuration file access depends on. -/
structure ToolSandboxConfig where
  networkEnabled : Option Bool
  extraWritablePaths : List Text
  extraReadablePaths : List Text
  deriving DecidableEq

inductive FileToolRoute where
  | sandboxed (guestPath : Text) (preopenedDirs : List WasmPreopenedDir)
  | needsApproval (capability : SandboxCapability) (target reason : Text)
  deriving DecidableEq

/-- `guest_path`: a route that needs approval has none. -/
def FileToolRoute.guestPath : FileToolRoute → Option Text
  | .sandboxed guestPath _ => some guestPath
  | .needsApproval _ _ _ => none

/-! ## Resolving the argument -/

def homeDir (host : Host) : Option PathBuf :=
  ((host.envVar "HOME").or (host.envVar "USERPROFILE")).map PathBuf.ofText

/-- `expand_home_dir`: only `~` alone or before a slash or backslash. -/
def expandHomeDir (host : Host) (value : Text) : Option PathBuf :=
  match value with
  | ['~'] => homeDir host
  | '~' :: separator :: remainder =>
      if separator ≠ '/' ∧ separator ≠ '\\' then none
      else (homeDir host).map fun home =>
        if remainder = [] then home else home.join (PathBuf.ofText remainder)
  | _ => none

def isEnvNameChar (c : Char) (first : Bool) : Bool :=
  c.isAlpha || c == '_' || (!first && c.isDigit)

def isValidEnvName : Text → Bool
  | [] => false
  | first :: rest => isEnvNameChar first true && rest.all fun c => isEnvNameChar c false

/-- The value of a variable, or nothing. -/
def envValue (host : Host) (key : Text) : Text := (host.envVar key).getD []

/-- The loop of `expand_env_vars` over the rest of the input.  Every turn takes at least one
character off it, so the length of the input is enough fuel. -/
def expandEnvVarsFrom (host : Host) : Nat → Text → Text
  | 0, _ => []
  | _ + 1, [] => []
  | fuel + 1, '$' :: '{' :: rest =>
      let key := rest.takeWhile (· ≠ '}')
      match rest.dropWhile (· ≠ '}') with
      | _ :: after =>
          if isValidEnvName key then envValue host key ++ expandEnvVarsFrom host fuel after
          else '$' :: expandEnvVarsFrom host fuel ('{' :: rest)
      | [] => '$' :: expandEnvVarsFrom host fuel ('{' :: rest)
  | fuel + 1, '$' :: first :: rest =>
      if isEnvNameChar first true then
        envValue host (first :: rest.takeWhile (isEnvNameChar · false)) ++
          expandEnvVarsFrom host fuel (rest.dropWhile (isEnvNameChar · false))
      else '$' :: expandEnvVarsFrom host fuel (first :: rest)
  | fuel + 1, c :: rest => c :: expandEnvVarsFrom host fuel rest

/-- `expand_env_vars`. -/
def expandEnvVars (host : Host) (input : Text) : Text := expandEnvVarsFrom host input.length input

/-- Text without a dollar sign is left as it is. -/
theorem expandEnvVarsFrom_of_notMem (host : Host) {input : Text} (h : '$' ∉ input) {fuel : Nat}
    (hfuel : input.length ≤ fuel) : expandEnvVarsFrom host fuel input = input := by
  induction input generalizing fuel with
  | nil => cases fuel <;> rfl
  | cons c input ih =>
      obtain ⟨fuel, rfl⟩ : ∃ n, fuel = n + 1 := ⟨fuel - 1, by simp at hfuel; omega⟩
      have hc : c ≠ '$' := fun hc => h (hc ▸ List.mem_cons_self)
      have hinput : '$' ∉ input := fun hmem => h (List.mem_cons_of_mem _ hmem)
      have hstep : expandEnvVarsFrom host (fuel + 1) (c :: input) =
          c :: expandEnvVarsFrom host fuel input := by
        rw [expandEnvVarsFrom] <;> simp [hc]
      rw [hstep, ih hinput (by simpa using hfuel)]

theorem expandEnvVars_of_notMem (host : Host) {input : Text} (h : '$' ∉ input) :
    expandEnvVars host input = input := expandEnvVarsFrom_of_notMem host h le_rfl

/-- `resolve_path_for_read`. -/
def resolvePathForRead (host : Host) (rawPath : Text) (workspaceRoot : PathBuf) :
    Except FrameworkError PathBuf :=
  let trimmed := Text.trim rawPath
  if trimmed = [] then .error (.tool "read requires a non-empty path")
  else
    let expandedInput := expandEnvVars host trimmed
    let expanded := (expandHomeDir host expandedInput).getD (PathBuf.ofText expandedInput)
    let absolute := if expanded.isAbsolute then expanded else workspaceRoot.join expanded
    .ok (normalizeAbsolutePath absolute)

/-! ## Extra roots -/

/-- `sandbox_paths_for_capability`. -/
def sandboxPathsForCapability (sandbox : ToolSandboxConfig) (capability : SandboxCapability) :
    List PathBuf :=
  sandbox.extraReadablePaths.map PathBuf.ofText ++
    if capability = .write then sandbox.extraWritablePaths.map PathBuf.ofText else []

/-- The loop of `find_matching_extra_root` from a root on, with the best match so far and
its depth. -/
def findMatchingExtraRootFrom (host : Host) (normalizedPath : PathBuf) :
    Nat → Option (Nat × PathBuf × PathBuf) → Nat → List PathBuf →
      Except FrameworkError (Option (Nat × PathBuf × PathBuf))
  | _, best, _, [] => .ok best
  | index, best, bestDepth, root :: roots =>
      match normalizeWorkspaceRoot host root with
      | .error e => .error e
      | .ok abs =>
          let normalizedRoot := normalizeAbsolutePath abs
          match normalizedPath.stripPrefix normalizedRoot with
          | some relative =>
              let depth := normalizedRoot.componentCount
              if bestDepth ≤ depth then
                findMatchingExtraRootFrom host normalizedPath (index + 1)
                  (some (index, normalizedRoot, relative)) depth roots
              else findMatchingExtraRootFrom host normalizedPath (index + 1) best bestDepth roots
          | none => findMatchingExtraRootFrom host normalizedPath (index + 1) best bestDepth roots

/-- `find_matching_extra_root`. -/
def findMatchingExtraRoot (host : Host) (normalizedPath : PathBuf) (extraRoots : List PathBuf) :
    Except FrameworkError (Option (Nat × PathBuf × PathBuf)) :=
  findMatchingExtraRootFrom host normalizedPath 0 none 0 extraRoots

/-! ## Classification -/

/-- The text of `Path::new(mount).join(relative)`. -/
def guestPathText (mount : Text) (relative : PathBuf) : Text := mount ++ '/' :: relative.display

/-- The mount point of extra root number `index`. -/
def extraGuestRoot (index : Nat) : Text := ("/__extra/" : Text) ++ Text.decimal index

/-- `classify_file_tool_access`. -/
def classifyFileToolAccess (host : Host) (hostPath workspaceRoot personaRoot : PathBuf)
    (sandbox : ToolSandboxConfig) (capability : SandboxCapability) :
    Except FrameworkError FileToolRoute := do
  let workspaceAbsolute ← normalizeWorkspaceRoot host workspaceRoot
  let normalizedWorkspace := normalizeAbsolutePath workspaceAbsolute
  let normalizedPath := normalizeAbsolutePath hostPath
  match normalizedPath.stripPrefix normalizedWorkspace with
  | some relative => return .sandboxed (guestPathText workspaceGuestMountPath relative) []
  | none =>
    let personaAbsolute ← normalizeWorkspaceRoot host personaRoot
    let normalizedPersona := normalizeAbsolutePath personaAbsolute
    match (normalizedPath.stripPrefix normalizedPersona).filter personaRelativePathAllowed with
    | some relative => return .sandboxed (guestPathText personaGuestMountPath relative) []
    | none =>
      let extraPaths := sandboxPathsForCapability sandbox capability
      match ← findMatchingExtraRoot host normalizedPath extraPaths with
      | some (index, extraRoot, relative) =>
          return .sandboxed (guestPathText (extraGuestRoot index) relative)
            [⟨extraRoot, extraGuestRoot index⟩]
      | none =>
          return .needsApproval capability normalizedPath.display
            (("target is outside the configured sandbox roots: path=" : Text) ++
              normalizedPath.display ++ (" workspace=" : Text) ++ normalizedWorkspace.display ++
              (" persona=" : Text) ++ normalizedPersona.display)

/-- What the file tools plan a call with: the path argument resolved on the host, and its
route. -/
def planFileAccess (host : Host) (rawPath : Text) (workspaceRoot personaRoot : PathBuf)
    (sandbox : ToolSandboxConfig) (capability : SandboxCapability) :
    Except FrameworkError (PathBuf × FileToolRoute) := do
  let hostPath ← resolvePathForRead host rawPath workspaceRoot
  let route ← classifyFileToolAccess host hostPath workspaceRoot personaRoot sandbox capability
  return (hostPath, route)

/-! ## What the search for an extra root finds -/

theorem findMatchingExtraRootFrom_ok_iff (host : Host) (path : PathBuf) (roots : List PathBuf) :
    ∀ (index : Nat) (best : Option (Nat × PathBuf × PathBuf)) (depth : Nat),
      (∃ found, findMatchingExtraRootFrom host path index best depth roots = .ok found) ↔
        ∀ root ∈ roots, resolvable host root = true := by
  induction roots with
  | nil => intro index best depth; simp [findMatchingExtraRootFrom]
  | cons root roots ih =>
      intro index best depth
      rw [List.forall_mem_cons, findMatchingExtraRootFrom]
      cases habs : normalizeWorkspaceRoot host root with
      | error e => simp [resolvable, habs]
      | ok abs =>
          have hres : resolvable host root = true := resolvable_iff.mpr ⟨abs, habs⟩
          rw [and_iff_right hres]
          simp only
          split
          · split
            · exact ih _ _ _
            · exact ih _ _ _
          · exact ih _ _ _

/-- The search ends with a match exactly if it started with one or a root covers the path: a
covering root is only passed over for a deeper match. -/
theorem findMatchingExtraRootFrom_isSome (host : Host) (path : PathBuf) (roots : List PathBuf) :
    ∀ {index : Nat} {best found : Option (Nat × PathBuf × PathBuf)} {depth : Nat},
      (best = none → depth = 0) →
      findMatchingExtraRootFrom host (normalizeAbsolutePath path) index best depth roots =
        .ok found →
      (found.isSome = true ↔ best.isSome = true ∨ ∃ root ∈ roots, underRoot host root path = true)
    := by
  induction roots with
  | nil =>
      intro index best found depth _ h
      rw [findMatchingExtraRootFrom] at h
      cases h
      simp
  | cons root roots ih =>
      intro index best found depth hbest h
      rw [findMatchingExtraRootFrom] at h
      cases habs : normalizeWorkspaceRoot host root with
      | error e => simp [habs] at h
      | ok abs =>
          simp only [habs] at h
          rw [List.exists_mem_cons_iff]
          cases hstrip : (normalizeAbsolutePath path).stripPrefix (normalizeAbsolutePath abs) with
          | none =>
              have hunder : underRoot host root path = false := by
                simp [underRoot, habs, PathBuf.startsWith, hstrip]
              simp only [hstrip] at h
              rw [ih hbest h, hunder]
              simp
          | some relative =>
              have hunder : underRoot host root path = true :=
                underRoot_iff.mpr ⟨abs, habs, by rw [hstrip]; rfl⟩
              simp only [hstrip] at h
              rw [hunder]
              by_cases hdepth : depth ≤ (normalizeAbsolutePath abs).componentCount
              · rw [if_pos hdepth] at h
                rw [ih (by simp) h]
                simp
              · rw [if_neg hdepth] at h
                have hsome : best.isSome = true := by
                  cases hb : best with
                  | none => have := hbest hb; omega
                  | some _ => rfl
                rw [ih hbest h, hsome]
                simp

/-- What is found is a part of the path below some root, made absolute and normalized. -/
theorem findMatchingExtraRootFrom_some {host : Host} {path : PathBuf} {roots : List PathBuf} :
    ∀ {index : Nat} {best : Option (Nat × PathBuf × PathBuf)} {depth : Nat} {i : Nat}
      {root relative : PathBuf},
      findMatchingExtraRootFrom host path index best depth roots = .ok (some (i, root, relative)) →
      best = some (i, root, relative) ∨ ∃ abs, abs.isAbsolute = true ∧
        root = normalizeAbsolutePath abs ∧ path.stripPrefix root = some relative := by
  induction roots with
  | nil =>
      intro index best depth i root relative h
      rw [findMatchingExtraRootFrom] at h
      cases h
      exact .inl rfl
  | cons head roots ih =>
      intro index best depth i root relative h
      rw [findMatchingExtraRootFrom] at h
      cases habs : normalizeWorkspaceRoot host head with
      | error e => simp [habs] at h
      | ok abs =>
          simp only [habs] at h
          split at h
          · rename_i rel hstrip
            split at h
            · rcases ih h with heq | hfound
              · cases heq
                exact .inr ⟨abs, normalizeWorkspaceRoot_isAbsolute habs, rfl, hstrip⟩
              · exact .inr hfound
            · exact ih h
          · exact ih h

/-- **The search succeeds exactly if every root can be made absolute.** -/
theorem findMatchingExtraRoot_ok_iff (host : Host) (path : PathBuf) (roots : List PathBuf) :
    (∃ found, findMatchingExtraRoot host path roots = .ok found) ↔
      ∀ root ∈ roots, resolvable host root = true :=
  findMatchingExtraRootFrom_ok_iff host path roots 0 none 0

/-- **A successful search finds a root exactly if one covers the path.** -/
theorem findMatchingExtraRoot_isSome {host : Host} {path : PathBuf} {roots : List PathBuf}
    {found : Option (Nat × PathBuf × PathBuf)}
    (h : findMatchingExtraRoot host (normalizeAbsolutePath path) roots = .ok found) :
    found.isSome = true ↔ ∃ root ∈ roots, underRoot host root path = true := by
  rw [findMatchingExtraRootFrom_isSome host path roots (fun _ => rfl) h]
  simp

/-! ## What is let through -/

/-- The path is below the persona directory where the persona rules allow it. -/
def allowedPersona (host : Host) (personaRoot path : PathBuf) : Bool :=
  match normalizeWorkspaceRoot host personaRoot with
  | .ok abs =>
      (((normalizeAbsolutePath path).stripPrefix (normalizeAbsolutePath abs)).filter
        personaRelativePathAllowed).isSome
  | .error _ => false

theorem resolvable_of_allowedPersona {host : Host} {personaRoot path : PathBuf}
    (h : allowedPersona host personaRoot path = true) : resolvable host personaRoot = true := by
  unfold allowedPersona at h
  cases hper : normalizeWorkspaceRoot host personaRoot with
  | error e => simp [hper] at h
  | ok persona => exact resolvable_iff.mpr ⟨persona, hper⟩

/-- **What a file tool may do without asking**: below the workspace; or, if the persona
directory can be made absolute, where the persona rules allow it; or, if all the extra roots
can too, below one of them. -/
theorem classifyFileToolAccess_sandboxed_iff (host : Host)
    (hostPath workspaceRoot personaRoot : PathBuf) (sandbox : ToolSandboxConfig)
    (capability : SandboxCapability) :
    (∃ g pre, classifyFileToolAccess host hostPath workspaceRoot personaRoot sandbox capability =
        .ok (.sandboxed g pre)) ↔
      underRoot host workspaceRoot hostPath = true ∨
        (resolvable host workspaceRoot = true ∧ resolvable host personaRoot = true ∧
          (allowedPersona host personaRoot hostPath = true ∨
            ((∀ root ∈ sandboxPathsForCapability sandbox capability,
                resolvable host root = true) ∧
              ∃ root ∈ sandboxPathsForCapability sandbox capability,
                underRoot host root hostPath = true))) := by
  unfold classifyFileToolAccess
  cases hws : normalizeWorkspaceRoot host workspaceRoot with
  | error e => simp [underRoot, resolvable, hws, bind, Except.bind]
  | ok workspace =>
      have hresw : resolvable host workspaceRoot = true := resolvable_iff.mpr ⟨_, hws⟩
      cases hstrip : (normalizeAbsolutePath hostPath).stripPrefix
          (normalizeAbsolutePath workspace) with
      | some relative =>
          have hunder : underRoot host workspaceRoot hostPath = true :=
            underRoot_iff.mpr ⟨_, hws, by rw [hstrip]; rfl⟩
          simp [hunder, bind, Except.bind, hstrip, pure, Except.pure]
      | none =>
          have hunder : underRoot host workspaceRoot hostPath = false := by
            simp [underRoot, hws, PathBuf.startsWith, hstrip]
          cases hper : normalizeWorkspaceRoot host personaRoot with
          | error e =>
              simp [hunder, bind, Except.bind, hstrip, resolvable, hper]
          | ok persona =>
              have hresp : resolvable host personaRoot = true := resolvable_iff.mpr ⟨_, hper⟩
              cases hfilter : ((normalizeAbsolutePath hostPath).stripPrefix
                  (normalizeAbsolutePath persona)).filter personaRelativePathAllowed with
              | some relative =>
                  have hallowed : allowedPersona host personaRoot hostPath = true := by
                    simp [allowedPersona, hper, hfilter]
                  simp [bind, Except.bind, hstrip, hfilter, pure, Except.pure, hresw, hresp,
                    hallowed]
              | none =>
                  have hallowed : allowedPersona host personaRoot hostPath = false := by
                    simp [allowedPersona, hper, hfilter]
                  simp only [bind, Except.bind, hstrip, hfilter, hunder, hresw, hresp, hallowed,
                    Bool.false_eq_true, false_or, true_and]
                  cases hfind : findMatchingExtraRoot host (normalizeAbsolutePath hostPath)
                      (sandboxPathsForCapability sandbox capability) with
                  | error e =>
                      have hnot := mt (findMatchingExtraRoot_ok_iff host
                        (normalizeAbsolutePath hostPath)
                        (sandboxPathsForCapability sandbox capability)).mpr (by simp [hfind])
                      simp [hnot]
                  | ok found =>
                      have hall := (findMatchingExtraRoot_ok_iff host
                        (normalizeAbsolutePath hostPath)
                        (sandboxPathsForCapability sandbox capability)).mp ⟨found, hfind⟩
                      rw [and_iff_right hall, ← findMatchingExtraRoot_isSome hfind]
                      cases found with
                      | none => simp [pure, Except.pure]
                      | some match_ => simp [pure, Except.pure]

theorem planFileAccess_route {host : Host} {rawPath : Text}
    {workspaceRoot personaRoot hostPath : PathBuf} {sandbox : ToolSandboxConfig}
    {capability : SandboxCapability} {route : FileToolRoute}
    (h : planFileAccess host rawPath workspaceRoot personaRoot sandbox capability =
      .ok (hostPath, route)) :
    classifyFileToolAccess host hostPath workspaceRoot personaRoot sandbox capability =
      .ok route := by
  unfold planFileAccess at h
  cases hresolve : resolvePathForRead host rawPath workspaceRoot with
  | error e => simp [hresolve, bind, Except.bind] at h
  | ok path =>
      simp only [hresolve, bind, Except.bind] at h
      cases hroute : classifyFileToolAccess host path workspaceRoot personaRoot sandbox
          capability with
      | error e => simp [hroute] at h
      | ok found =>
          simp only [hroute, pure, Except.pure] at h
          cases h
          exact hroute

/-- What is stripped off a path by a root that could be made absolute, as names. -/
theorem stripPrefix_normalize_eq_some {host : Host} {root abs path relative : PathBuf}
    (habs : normalizeWorkspaceRoot host root = .ok abs)
    (h : (normalizeAbsolutePath path).stripPrefix (normalizeAbsolutePath abs) = some relative) :
    ∃ r, relative = PathBuf.ofNames false r ∧
      normalizeAbsolutePath path = PathBuf.ofNames true (abs.names ++ r) := by
  have habsolute := normalizeWorkspaceRoot_isAbsolute habs
  by_cases hpath : path.isAbsolute = true
  · rw [normalizeAbsolutePath_eq path, normalizeAbsolutePath_eq abs, hpath, habsolute] at h
    obtain ⟨r, hrelative, hnames⟩ := PathBuf.stripPrefix_ofNames_eq_some h
    exact ⟨r, hrelative, by rw [normalizeAbsolutePath_eq, hpath, hnames]⟩
  · rw [normalizeAbsolutePath_eq path, normalizeAbsolutePath_eq abs, habsolute,
      PathBuf.stripPrefix_absolute_of_relative (by simpa using hpath) rfl] at h
    cases h

/-- **The guest path a file tool is let through under**, in each of the three ways. -/
theorem classifyFileToolAccess_cases {host : Host} {hostPath workspaceRoot personaRoot : PathBuf}
    {sandbox : ToolSandboxConfig} {capability : SandboxCapability} {g : Text}
    {pre : List WasmPreopenedDir}
    (h : classifyFileToolAccess host hostPath workspaceRoot personaRoot sandbox capability =
      .ok (.sandboxed g pre)) :
    (∃ workspace r, normalizeWorkspaceRoot host workspaceRoot = .ok workspace ∧
      normalizeAbsolutePath hostPath = PathBuf.ofNames true (workspace.names ++ r) ∧
      g = guestPathText workspaceGuestMountPath (PathBuf.ofNames false r) ∧ pre = []) ∨
    (underRoot host workspaceRoot hostPath = false ∧ resolvable host workspaceRoot = true ∧
      ∃ persona r, normalizeWorkspaceRoot host personaRoot = .ok persona ∧
        normalizeAbsolutePath hostPath = PathBuf.ofNames true (persona.names ++ r) ∧
        personaRelativePathAllowed (PathBuf.ofNames false r) = true ∧
        g = guestPathText personaGuestMountPath (PathBuf.ofNames false r) ∧ pre = []) ∨
    (underRoot host workspaceRoot hostPath = false ∧
      allowedPersona host personaRoot hostPath = false ∧
      ∃ index root r, normalizeAbsolutePath hostPath = PathBuf.ofNames true (root ++ r) ∧
        g = guestPathText (extraGuestRoot index) (PathBuf.ofNames false r) ∧
        pre = [⟨PathBuf.ofNames true root, extraGuestRoot index⟩]) := by
  unfold classifyFileToolAccess at h
  cases hws : normalizeWorkspaceRoot host workspaceRoot with
  | error e => simp [hws, bind, Except.bind] at h
  | ok workspace =>
      simp only [hws, bind, Except.bind] at h
      cases hstrip : (normalizeAbsolutePath hostPath).stripPrefix
          (normalizeAbsolutePath workspace) with
      | some relative =>
          simp only [hstrip, pure, Except.pure] at h
          cases h
          obtain ⟨r, rfl, hpath⟩ := stripPrefix_normalize_eq_some hws hstrip
          exact .inl ⟨workspace, r, rfl, hpath, rfl, rfl⟩
      | none =>
          have hunder : underRoot host workspaceRoot hostPath = false := by
            simp [underRoot, hws, PathBuf.startsWith, hstrip]
          have hresw : resolvable host workspaceRoot = true := resolvable_iff.mpr ⟨_, hws⟩
          simp only [hstrip] at h
          cases hper : normalizeWorkspaceRoot host personaRoot with
          | error e => simp [hper] at h
          | ok persona =>
              simp only [hper] at h
              cases hfilter : ((normalizeAbsolutePath hostPath).stripPrefix
                  (normalizeAbsolutePath persona)).filter personaRelativePathAllowed with
              | some relative =>
                  simp only [hfilter, pure, Except.pure] at h
                  cases h
                  obtain ⟨hrel, hallowed⟩ := Option.filter_eq_some_iff.mp hfilter
                  obtain ⟨r, rfl, hpath⟩ := stripPrefix_normalize_eq_some hper hrel
                  exact .inr (.inl ⟨hunder, hresw, persona, r, rfl, hpath, hallowed, rfl, rfl⟩)
              | none =>
                  have hallowed : allowedPersona host personaRoot hostPath = false := by
                    simp [allowedPersona, hper, hfilter]
                  simp only [hfilter] at h
                  cases hfind : findMatchingExtraRoot host (normalizeAbsolutePath hostPath)
                      (sandboxPathsForCapability sandbox capability) with
                  | error e => simp [hfind] at h
                  | ok found =>
                      simp only [hfind] at h
                      rcases found with _ | ⟨index, root, relative⟩
                      · simp [pure, Except.pure] at h
                      · simp only [pure, Except.pure] at h
                        cases h
                        have hfound := findMatchingExtraRootFrom_some hfind
                        rcases hfound with hnone | ⟨abs, habs, rfl, hrel⟩
                        · cases hnone
                        · have hroot : normalizeWorkspaceRoot host abs = .ok abs := by
                            rw [normalizeWorkspaceRoot, if_pos habs]
                          obtain ⟨r, rfl, hpath⟩ := stripPrefix_normalize_eq_some hroot hrel
                          have hdir :
                              normalizeAbsolutePath abs = PathBuf.ofNames true abs.names := by
                            rw [normalizeAbsolutePath_eq, habs]
                          exact .inr (.inr ⟨hunder, hallowed, index, abs.names, r, hpath, rfl,
                            by rw [hdir]⟩)

end Tools
end SimpleClaw
