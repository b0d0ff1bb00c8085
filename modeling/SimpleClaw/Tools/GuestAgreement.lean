import SimpleClaw.Tools.FileAccess

/-!
# Does the guest find what the host let through?

The host classifies a path and hands the guest a guest path as text; the guest trims and
resolves that text against the mounts it knows.  `invariant_sandbox_denial` takes it for
granted that the two agree.  This module follows the text:

* `ofText_trim_guestPathText` and `guestNames`: what the guest reads, a list of names that
  differs from the one the host wrote only if the last name ends in white space.
* `guestAgrees_iff`: the guest accepts the path and finds the same host path exactly below
  the workspace and, for every tool but `list`, at the allowed persona paths, if no white
  space ends the path.  Extra roots are never accepted.
-/

namespace SimpleClaw
namespace Tools

open Sandbox

/-! ## What the guest reads -/

/-- The last piece of a relative path as it is printed; the empty path prints as one empty
piece. -/
def lastPiece (r : List FileName) : Text := (r.getLast?.map FileName.text).getD []

/-- The guest path is the names of the mount and of the path below it, joined. -/
theorem guestPathText_ofNames {ms : List FileName} (hms : ms ≠ []) (r : List FileName) :
    guestPathText ('/' :: Text.joinWith '/' (ms.map FileName.text)) (PathBuf.ofNames false r) =
      '/' :: Text.joinWith '/' ((ms ++ r.dropLast).map FileName.text ++ [lastPiece r]) := by
  have hne : ms.map FileName.text ≠ [] := by simpa using hms
  have hdisplay : (PathBuf.ofNames false r).display =
      Text.joinWith '/' (r.map FileName.text) := by
    simp only [PathBuf.display, PathBuf.ofNames, List.map_map]
    rfl
  rcases List.eq_nil_or_concat r with rfl | ⟨init, last, rfl⟩
  · rw [guestPathText, hdisplay, List.dropLast_nil, List.append_nil,
      Text.joinWith_append '/' hne (by simp)]
    simp [lastPiece]
  · have hpieces : ((ms ++ (init.concat last).dropLast).map FileName.text ++
        [lastPiece (init.concat last)]) =
          ms.map FileName.text ++ (init.concat last).map FileName.text := by
      simp [lastPiece]
    rw [hpieces, Text.joinWith_append '/' hne (by simp), guestPathText, hdisplay,
      List.cons_append]

/-- **What the guest reads.**  The names are read as they were written, except that the last
piece loses its trailing white space first. -/
theorem ofText_trim_guestPathText {ms : List FileName} (hms : ms ≠ []) (r : List FileName) :
    PathBuf.ofText (Text.trim (guestPathText
        ('/' :: Text.joinWith '/' (ms.map FileName.text)) (PathBuf.ofNames false r))) =
      ⟨true, (ms ++ r.dropLast).map Part.normal ++
        (Part.ofPiece (Text.trimEnd (lastPiece r))).toList⟩ := by
  have hslash : Text.isWhiteSpace '/' = false := by decide
  have hne : (ms ++ r.dropLast).map FileName.text ≠ [] := by simp [hms]
  have hlast : '/' ∉ Text.trimEnd (lastPiece r) := by
    intro hmem
    have hmem := (Text.trimEnd_prefix _).subset hmem
    unfold lastPiece at hmem
    cases hr : r.getLast? with
    | none => simp [hr] at hmem
    | some name => exact name.isName.1 (by simpa [hr] using hmem)
  have htrim : ∀ t, Text.trim ('/' :: t) = '/' :: Text.trimEnd t := by
    intro t
    rw [Text.trim, Text.trimStart_cons_of_not hslash]
    exact Text.trimEnd_append_cons hslash [] t
  rw [guestPathText_ofNames hms, htrim, Text.trimEnd_joinWith_concat hslash hne,
    PathBuf.ofText_slash_joinWith, List.filterMap_append, filterMap_ofPiece_text]
  · rw [List.filterMap_cons]
    cases Part.ofPiece (Text.trimEnd (lastPiece r)) <;> rfl
  · intro p hp
    rcases List.mem_append.mp hp with hp | hp
    · obtain ⟨name, -, rfl⟩ := List.mem_map.mp hp
      exact name.isName.1
    · rw [List.mem_singleton.mp hp]
      exact hlast
  · simp

/-- The names the guest resolves a path to. -/
def guestNames (ms r : List FileName) : List FileName :=
  StackWalk.walk (ms ++ r.dropLast)
    ((Part.ofPiece (Text.trimEnd (lastPiece r))).toList.map Part.move)

theorem normalize_ofText_trim_guestPathText {ms : List FileName} (hms : ms ≠ [])
    (r : List FileName) :
    normalizeAbsolutePath (PathBuf.ofText (Text.trim (guestPathText
        ('/' :: Text.joinWith '/' (ms.map FileName.text)) (PathBuf.ofNames false r)))) =
      PathBuf.ofNames true (guestNames ms r) := by
  rw [ofText_trim_guestPathText hms, normalizeAbsolutePath_eq]
  refine congrArg (PathBuf.ofNames true) ?_
  rw [PathBuf.names, List.map_append, Part.map_move_normal, StackWalk.walk_append,
    StackWalk.walk_map_down, List.nil_append]
  rfl

/-- No white space ends the last name. -/
def EndsClean (names : List FileName) : Prop :=
  Text.trimEnd (lastPiece names) = lastPiece names

instance (names : List FileName) : Decidable (EndsClean names) :=
  inferInstanceAs (Decidable (_ = _))

theorem endsClean_append {m r : List FileName} (hr : r ≠ []) :
    EndsClean (m ++ r) ↔ EndsClean r := by
  unfold EndsClean lastPiece
  rw [List.getLast?_append_of_ne_nil _ hr]

/-- Without white space at the end the guest reads what the host wrote. -/
theorem guestNames_of_endsClean {r : List FileName} (h : EndsClean r) (ms : List FileName) :
    guestNames ms r = ms ++ r := by
  rw [guestNames, show Text.trimEnd (lastPiece r) = lastPiece r from h]
  rcases List.eq_nil_or_concat r with rfl | ⟨init, last, rfl⟩
  · simp [lastPiece, Part.ofPiece_nil]
  · simp [lastPiece, Part.move, StackWalk.move]

/-- With white space at the end the last name is lost, replaced or walked over. -/
theorem guestNames_of_not_endsClean {r : List FileName} (h : ¬ EndsClean r)
    (ms : List FileName) :
    ∃ init last, r = init ++ [last] ∧
      (guestNames ms r = ms ++ init ∨ guestNames ms r = (ms ++ init).dropLast ∨
        ∃ other, other ≠ last ∧ guestNames ms r = ms ++ init ++ [other]) := by
  rcases List.eq_nil_or_concat r with rfl | ⟨init, last, rfl⟩
  · exact absurd (by simp [EndsClean, lastPiece]) h
  · refine ⟨init, last, by simp, ?_⟩
    have hpiece : lastPiece (init.concat last) = last.text := by simp [lastPiece]
    have hinit : (init.concat last).dropLast = init := by simp
    rw [EndsClean, hpiece] at h
    rw [guestNames, hpiece, hinit]
    cases hpart : Part.ofPiece (Text.trimEnd last.text) with
    | none => exact .inl rfl
    | some part =>
        cases part with
        | curDir => exact .inl rfl
        | parentDir => exact .inr (.inl rfl)
        | normal other =>
            refine .inr (.inr ⟨other, fun heq => h ?_, rfl⟩)
            rw [← Part.text_of_ofPiece hpart, heq]

/-- Below a mount of one name the guest resolves to the root, or to a path below the mount that
is not the one meant. -/
theorem guestNames_singleton_of_not_endsClean {r : List FileName} (h : ¬ EndsClean r)
    (m : FileName) :
    guestNames [m] r = [] ∨ ∃ q, guestNames [m] r = m :: q ∧ q ≠ r := by
  obtain ⟨init, last, rfl, hinit | hdrop | ⟨other, hother, hnames⟩⟩ :=
    guestNames_of_not_endsClean h [m]
  · exact .inr ⟨init, hinit, by simp⟩
  · rcases List.eq_nil_or_concat init with rfl | ⟨init, parent, rfl⟩
    · exact .inl hdrop
    · have hinit : ([m] ++ init.concat parent).dropLast = m :: init := by
        rw [List.concat_eq_append, ← List.append_assoc, List.dropLast_concat, List.singleton_append]
      refine .inr ⟨init, hdrop.trans hinit, fun heq => ?_⟩
      have := congrArg List.length heq
      simp only [List.concat_eq_append, List.length_append, List.length_singleton] at this
      omega
  · exact .inr ⟨init ++ [other], hnames, by simpa using hother⟩

/-! ## What the guest accepts -/

def extraName : FileName := ⟨"__extra", by decide⟩

def indexName (index : Nat) : FileName :=
  ⟨Text.decimal index, Text.notMem_decimal (by decide) index, Text.decimal_ne_nil index,
    fun h => Text.notMem_decimal (c := '.') (by decide) index (by simp [h]),
    fun h => Text.notMem_decimal (c := '.') (by decide) index (by simp [h])⟩

/-- A guest path the host wrote is accepted if its names are below the workspace mount, or at
an allowed place below the persona mount. -/
theorem resolveGuestPath_ok_iff {ms : List FileName} (hms : ms ≠ []) (r : List FileName)
    (p : PathBuf) :
    resolveGuestPath (guestPathText ('/' :: Text.joinWith '/' (ms.map FileName.text))
        (PathBuf.ofNames false r)) = .ok p ↔
      p = PathBuf.ofNames true (guestNames ms r) ∧
        ((∃ q, guestNames ms r = workspaceName :: q) ∨
          ∃ q, guestNames ms r = personaName :: q ∧
            personaRelativePathAllowed (PathBuf.ofNames false q) = true) := by
  have hparts := ofText_trim_guestPathText hms r
  have hnormal := normalize_ofText_trim_guestPathText hms r
  generalize hg : guestPathText ('/' :: Text.joinWith '/' (ms.map FileName.text))
    (PathBuf.ofNames false r) = g at hparts hnormal
  have habsolute : (PathBuf.ofText (Text.trim g)).isAbsolute = true := by rw [hparts]
  have hne : Text.trim g ≠ [] := by
    intro hnil
    rw [hnil] at habsolute
    exact absurd habsolute (by decide)
  have hallowed : ∀ q, guestNames ms r = personaName :: q →
      guestPersonaPathAllowed (PathBuf.ofNames true (guestNames ms r)) =
        personaRelativePathAllowed (PathBuf.ofNames false q) := by
    intro q hq
    rw [hq, guestPersonaPathAllowed, normalizeAbsolutePath_ofNames, ofText_personaRoot,
      PathBuf.stripPrefix_ofNames, if_pos ⟨q, rfl⟩]
    rfl
  unfold resolveGuestPath
  simp only [if_neg hne, if_pos habsolute, hnormal, ofText_workspaceRoot, ofText_personaRoot]
  by_cases hworkspace : ∃ q, guestNames ms r = workspaceName :: q
  · rw [if_pos ((PathBuf.startsWith_singleton _ _).mpr hworkspace)]
    constructor
    · rintro ⟨⟩
      exact ⟨rfl, .inl hworkspace⟩
    · rintro ⟨rfl, -⟩
      rfl
  · rw [if_neg (mt (PathBuf.startsWith_singleton _ _).mp hworkspace)]
    by_cases hpersona : ∃ q, guestNames ms r = personaName :: q ∧
        personaRelativePathAllowed (PathBuf.ofNames false q) = true
    · have hpersona' := hpersona
      obtain ⟨q, hq, hrel⟩ := hpersona'
      rw [if_pos ⟨(PathBuf.startsWith_singleton _ _).mpr ⟨q, hq⟩, by rw [hallowed q hq, hrel]⟩]
      constructor
      · rintro ⟨⟩
        exact ⟨rfl, .inr hpersona⟩
      · rintro ⟨rfl, -⟩
        rfl
    · rw [if_neg]
      · refine iff_of_false (by simp) ?_
        rintro ⟨-, h | h⟩
        · exact hworkspace h
        · exact hpersona h
      · rintro ⟨hstarts, hguest⟩
        obtain ⟨q, hq⟩ := (PathBuf.startsWith_singleton _ _).mp hstarts
        exact hpersona ⟨q, hq, by rw [← hallowed q hq, hguest]⟩

/-! ## Agreement -/

/-- The guest is started, accepts the guest path, and finds the host path there. -/
def GuestAgrees (host : Host) (tool : FileTool)
    (workspaceRoot personaRoot isolatedTmp hostPath : PathBuf) (guestPath : Text)
    (extra : List WasmPreopenedDir) : Prop :=
  ∃ dirs path, preopenedDirs host workspaceRoot personaRoot extra isolatedTmp = .ok dirs ∧
    tool.guestPath guestPath = .ok path ∧
    denotes dirs path = some (normalizeAbsolutePath hostPath)

section Agreement

variable {host : Host} {workspaceRoot personaRoot isolatedTmp hostPath : PathBuf}
  {workspace persona : PathBuf} {r : List FileName}

/-- Below the workspace every tool agrees with the host, up to white space at the end. -/
theorem guestAgrees_workspace (tool : FileTool)
    (hworkspace : normalizeWorkspaceRoot host workspaceRoot = .ok workspace)
    (hpath : normalizeAbsolutePath hostPath = PathBuf.ofNames true (workspace.names ++ r)) :
    GuestAgrees host tool workspaceRoot personaRoot isolatedTmp hostPath
        (guestPathText workspaceGuestMountPath (PathBuf.ofNames false r)) [] ↔
      resolvable host personaRoot = true ∧ EndsClean r := by
  have habsolute := normalizeWorkspaceRoot_isAbsolute hworkspace
  have hmount : workspaceGuestMountPath =
      '/' :: Text.joinWith '/' ([workspaceName].map FileName.text) := by decide
  have hresolve := resolveGuestPath_ok_iff (List.cons_ne_nil workspaceName []) r
  rw [← hmount] at hresolve
  constructor
  · rintro ⟨dirs, path, hdirs, hguest, hdenotes⟩
    obtain ⟨workspace', persona, hworkspace', hpersona, rfl⟩ := preopenedDirs_ok_iff.mp hdirs
    obtain rfl : workspace = workspace' := by
      rw [hworkspace] at hworkspace'
      exact Except.ok.inj hworkspace'
    obtain ⟨rfl, haccepted⟩ := (hresolve path).mp (((tool.guestPath_ok_iff _ _).mp hguest).1)
    refine ⟨resolvable_iff.mpr ⟨persona, hpersona⟩, ?_⟩
    by_contra hclean
    rcases guestNames_singleton_of_not_endsClean hclean workspaceName with
      hroot | ⟨q, hq, hne⟩
    · simp [hroot] at haccepted
    · rw [hq, denotes_workspace, normalizeAbsolutePath_join_ofNames habsolute, hpath] at hdenotes
      exact hne (List.append_cancel_left (PathBuf.ofNames_injective (Option.some.inj hdenotes)).2)
  · rintro ⟨hpersona, hclean⟩
    obtain ⟨persona, hpersona⟩ := resolvable_iff.mp hpersona
    have hnames : guestNames [workspaceName] r = workspaceName :: r :=
      guestNames_of_endsClean hclean _
    refine ⟨_, PathBuf.ofNames true (workspaceName :: r),
      preopenedDirs_ok_iff.mpr ⟨workspace, persona, hworkspace, hpersona, rfl⟩, ?_, ?_⟩
    · refine (tool.guestPath_ok_iff _ _).mpr ⟨(hresolve _).mpr ⟨by rw [hnames], ?_⟩, fun _ => ?_⟩
      · exact .inl ⟨r, hnames⟩
      · rw [ofText_workspaceRoot]
        exact (PathBuf.startsWith_singleton _ _).mpr ⟨r, rfl⟩
    · rw [denotes_workspace, normalizeAbsolutePath_join_ofNames habsolute, hpath]

/-- At an allowed persona path every tool but `list` agrees with the host, up to white space
at the end. -/
theorem guestAgrees_persona (tool : FileTool)
    (hworkspace : resolvable host workspaceRoot = true)
    (hpersona : normalizeWorkspaceRoot host personaRoot = .ok persona)
    (hpath : normalizeAbsolutePath hostPath = PathBuf.ofNames true (persona.names ++ r))
    (hallowed : personaRelativePathAllowed (PathBuf.ofNames false r) = true) :
    GuestAgrees host tool workspaceRoot personaRoot isolatedTmp hostPath
        (guestPathText personaGuestMountPath (PathBuf.ofNames false r)) [] ↔
      tool ≠ .list ∧ EndsClean r := by
  have habsolute := normalizeWorkspaceRoot_isAbsolute hpersona
  have hmount : personaGuestMountPath =
      '/' :: Text.joinWith '/' ([personaName].map FileName.text) := by decide
  have hdiffer : personaName ≠ workspaceName := by decide
  have hresolve := resolveGuestPath_ok_iff (List.cons_ne_nil personaName []) r
  rw [← hmount] at hresolve
  constructor
  · rintro ⟨dirs, path, hdirs, hguest, hdenotes⟩
    obtain ⟨workspace, persona', -, hpersona', rfl⟩ := preopenedDirs_ok_iff.mp hdirs
    obtain rfl : persona = persona' := by
      rw [hpersona] at hpersona'
      exact Except.ok.inj hpersona'
    obtain ⟨hok, hlist⟩ := (tool.guestPath_ok_iff _ _).mp hguest
    obtain ⟨rfl, haccepted⟩ := (hresolve path).mp hok
    have hfirst : ∃ q, guestNames [personaName] r = personaName :: q := by
      by_cases hclean : EndsClean r
      · exact ⟨r, guestNames_of_endsClean hclean _⟩
      · rcases guestNames_singleton_of_not_endsClean hclean personaName with hroot | ⟨q, hq, -⟩
        · simp [hroot] at haccepted
        · exact ⟨q, hq⟩
    obtain ⟨q, hq⟩ := hfirst
    refine ⟨fun htool => ?_, ?_⟩
    · have hstarts := hlist htool
      rw [hq, ofText_workspaceRoot, startsWith_mount] at hstarts
      exact hdiffer (of_decide_eq_true hstarts)
    · by_contra hclean
      rcases guestNames_singleton_of_not_endsClean hclean personaName with
        hroot | ⟨q', hq', hne⟩
      · simp [hroot] at hq
      · rw [hq', denotes_persona, normalizeAbsolutePath_join_ofNames habsolute, hpath] at hdenotes
        exact hne (List.append_cancel_left
          (PathBuf.ofNames_injective (Option.some.inj hdenotes)).2)
  · rintro ⟨htool, hclean⟩
    obtain ⟨workspace, hworkspace⟩ := resolvable_iff.mp hworkspace
    have hnames : guestNames [personaName] r = personaName :: r :=
      guestNames_of_endsClean hclean _
    refine ⟨_, PathBuf.ofNames true (personaName :: r),
      preopenedDirs_ok_iff.mpr ⟨workspace, persona, hworkspace, hpersona, rfl⟩, ?_, ?_⟩
    · refine (tool.guestPath_ok_iff _ _).mpr
        ⟨(hresolve _).mpr ⟨by rw [hnames], .inr ⟨r, hnames, hallowed⟩⟩, fun h => ?_⟩
      exact absurd h htool
    · rw [denotes_persona, normalizeAbsolutePath_join_ofNames habsolute, hpath]

/-- The guest knows no extra roots. -/
theorem not_guestAgrees_extra (tool : FileTool) (index : Nat) (r : List FileName)
    (extra : List WasmPreopenedDir) :
    ¬ GuestAgrees host tool workspaceRoot personaRoot isolatedTmp hostPath
        (guestPathText (extraGuestRoot index) (PathBuf.ofNames false r)) extra := by
  rintro ⟨dirs, path, -, hguest, -⟩
  have hmount : extraGuestRoot index =
      '/' :: Text.joinWith '/' ([extraName, indexName index].map FileName.text) := by
    have hextra : ("/__extra/" : Text) = '/' :: (extraName.text ++ ['/']) := by decide
    have hnames : Text.joinWith '/' ([extraName, indexName index].map FileName.text) =
        extraName.text ++ '/' :: Text.decimal index := by
      rw [List.map_cons, List.map_cons, List.map_nil, Text.joinWith_cons_cons,
        Text.joinWith_singleton]
      rfl
    calc extraGuestRoot index = ('/' :: (extraName.text ++ ['/'])) ++ Text.decimal index :=
          congrArg (· ++ Text.decimal index) hextra
      _ = '/' :: (extraName.text ++ '/' :: Text.decimal index) := by
          rw [List.cons_append, List.append_assoc, List.singleton_append]
      _ = _ := by rw [hnames]
  rw [hmount] at hguest
  obtain ⟨-, haccepted⟩ := (resolveGuestPath_ok_iff (by simp) r path).mp
    ((tool.guestPath_ok_iff _ _).mp hguest).1
  -- whatever happens to the last piece, the first name stays
  have hfirst : ∃ q, guestNames [extraName, indexName index] r = extraName :: q := by
    by_cases hclean : EndsClean r
    · exact ⟨_, guestNames_of_endsClean hclean _⟩
    · obtain ⟨init, last, -, h | h | ⟨other, -, h⟩⟩ :=
        guestNames_of_not_endsClean hclean [extraName, indexName index]
      · exact ⟨_, h⟩
      · exact ⟨_, h.trans (by rw [List.cons_append, List.cons_append, List.dropLast_cons_cons])⟩
      · exact ⟨_, h⟩
  obtain ⟨q, hq⟩ := hfirst
  have hworkspace : extraName ≠ workspaceName := by decide
  have hpersona : extraName ≠ personaName := by decide
  rw [hq] at haccepted
  rcases haccepted with ⟨q', h⟩ | ⟨q', h, -⟩
  · exact hworkspace (List.cons.inj h).1
  · exact hpersona (List.cons.inj h).1

/-- What the guest can serve: the workspace, and for every tool but `list` the allowed persona
paths; in both no white space may end the path, unless it is the workspace itself.  The guest
is not started at all if the persona directory cannot be made absolute. -/
def Servable (host : Host) (tool : FileTool) (workspaceRoot personaRoot path : PathBuf) : Prop :=
  (underRoot host workspaceRoot path = true ∧ resolvable host personaRoot = true ∧
    ((∃ workspace, normalizeWorkspaceRoot host workspaceRoot = .ok workspace ∧
      path.names = workspace.names) ∨ EndsClean path.names)) ∨
  (allowedPersona host personaRoot path = true ∧ tool ≠ .list ∧ EndsClean path.names)

theorem endsClean_nil : EndsClean [] := rfl

theorem endsClean_of_append {m r : List FileName} (h : EndsClean (m ++ r)) : EndsClean r := by
  by_cases hr : r = []
  · subst hr
    exact endsClean_nil
  · exact (endsClean_append hr).mp h

theorem names_of_normalize_eq {path : PathBuf} {names : List FileName}
    (h : normalizeAbsolutePath path = PathBuf.ofNames true names) : path.names = names := by
  rw [normalizeAbsolutePath_eq] at h
  exact (PathBuf.ofNames_injective h).2

theorem servable_workspace_iff (tool : FileTool)
    (hworkspace : normalizeWorkspaceRoot host workspaceRoot = .ok workspace)
    (hpath : normalizeAbsolutePath hostPath = PathBuf.ofNames true (workspace.names ++ r)) :
    Servable host tool workspaceRoot personaRoot hostPath ↔
      resolvable host personaRoot = true ∧ EndsClean r := by
  have habsolute := normalizeWorkspaceRoot_isAbsolute hworkspace
  have hnames := names_of_normalize_eq hpath
  have hunder : underRoot host workspaceRoot hostPath = true := by
    refine underRoot_iff.mpr ⟨workspace, hworkspace, ?_⟩
    rw [hpath, normalizeAbsolutePath_eq, habsolute, PathBuf.stripPrefix_ofNames,
      if_pos (List.prefix_append _ _)]
    rfl
  unfold Servable
  rw [hnames]
  constructor
  · rintro (⟨-, hpersona, ⟨workspace', hworkspace', hroot⟩ | hclean⟩ | ⟨hallowed, -, hclean⟩)
    · obtain rfl : workspace = workspace' := by
        rw [hworkspace] at hworkspace'
        exact Except.ok.inj hworkspace'
      obtain rfl : r = [] := by simpa using hroot
      exact ⟨hpersona, endsClean_nil⟩
    · exact ⟨hpersona, endsClean_of_append hclean⟩
    · exact ⟨resolvable_of_allowedPersona hallowed, endsClean_of_append hclean⟩
  · rintro ⟨hpersona, hclean⟩
    refine .inl ⟨hunder, hpersona, ?_⟩
    by_cases hr : r = []
    · subst hr
      exact .inl ⟨workspace, hworkspace, List.append_nil _⟩
    · exact .inr ((endsClean_append hr).mpr hclean)

theorem servable_persona_iff (tool : FileTool)
    (hunder : underRoot host workspaceRoot hostPath = false)
    (hpersona : normalizeWorkspaceRoot host personaRoot = .ok persona)
    (hpath : normalizeAbsolutePath hostPath = PathBuf.ofNames true (persona.names ++ r))
    (hallowed : personaRelativePathAllowed (PathBuf.ofNames false r) = true) :
    Servable host tool workspaceRoot personaRoot hostPath ↔ tool ≠ .list ∧ EndsClean r := by
  have habsolute := normalizeWorkspaceRoot_isAbsolute hpersona
  have hr : r ≠ [] := by
    rintro rfl
    exact absurd hallowed (by decide)
  have hplace : allowedPersona host personaRoot hostPath = true := by
    unfold allowedPersona
    simp only [hpersona]
    rw [hpath, normalizeAbsolutePath_eq persona, habsolute, PathBuf.stripPrefix_ofNames,
      if_pos (List.prefix_append _ _), List.drop_left, Option.filter_some, hallowed]
    rfl
  unfold Servable
  rw [names_of_normalize_eq hpath, endsClean_append hr, hunder, hplace]
  simp

end Agreement

/-- **When preflight and guest agree.** -/
theorem guestAgrees_iff {host : Host} {rawPath : Text}
    {workspaceRoot personaRoot hostPath : PathBuf} {sandbox : ToolSandboxConfig}
    {capability : SandboxCapability} {guestPath : Text} {extra : List WasmPreopenedDir}
    (tool : FileTool) (isolatedTmp : PathBuf)
    (hplan : planFileAccess host rawPath workspaceRoot personaRoot sandbox capability =
      .ok (hostPath, .sandboxed guestPath extra)) :
    GuestAgrees host tool workspaceRoot personaRoot isolatedTmp hostPath guestPath extra ↔
      Servable host tool workspaceRoot personaRoot hostPath := by
  have hroute := planFileAccess_route hplan
  rcases classifyFileToolAccess_cases hroute with
    ⟨workspace, r, hworkspace, hpath, rfl, rfl⟩ |
    ⟨hunder, hresolvable, persona, r, hpersona, hpath, hallowed, rfl, rfl⟩ |
    ⟨hunder, hallowed, index, root, r, -, rfl, -⟩
  · rw [guestAgrees_workspace tool hworkspace hpath, servable_workspace_iff tool hworkspace hpath]
  · rw [guestAgrees_persona tool hresolvable hpersona hpath hallowed,
      servable_persona_iff tool hunder hpersona hpath hallowed]
  · refine iff_of_false (not_guestAgrees_extra tool index r extra) ?_
    simp [Servable, hunder, hallowed]


/-- Reading a file of the workspace, given relative to it. -/
theorem workspaceFile_agrees :
    planFileAccess bareHost "docs/../notes.txt" (PathBuf.ofText "/home/agent/workspace")
        (PathBuf.ofText "/home/agent/persona") ⟨none, [], []⟩ .read =
      .ok (PathBuf.ofText "/home/agent/workspace/notes.txt",
        .sandboxed "/workspace/notes.txt" []) ∧
    GuestAgrees bareHost .read (PathBuf.ofText "/home/agent/workspace")
      (PathBuf.ofText "/home/agent/persona") (PathBuf.ofText "/tmp/isolated")
      (PathBuf.ofText "/home/agent/workspace/notes.txt") "/workspace/notes.txt" [] := by
  have hplan : planFileAccess bareHost "docs/../notes.txt"
      (PathBuf.ofText "/home/agent/workspace") (PathBuf.ofText "/home/agent/persona")
      ⟨none, [], []⟩ .read =
        .ok (PathBuf.ofText "/home/agent/workspace/notes.txt",
          .sandboxed "/workspace/notes.txt" []) := by decide
  exact ⟨hplan, (guestAgrees_iff .read _ hplan).mpr (.inl ⟨by decide, by decide, .inr (by decide)⟩)⟩

/-- The skills directory of the persona is let through for `list`, whose guest insists on the
workspace mount. -/
theorem listSkills_disagrees :
    planFileAccess bareHost "/home/agent/persona/skills" (PathBuf.ofText "/home/agent/workspace")
        (PathBuf.ofText "/home/agent/persona") ⟨none, [], []⟩ .read =
      .ok (PathBuf.ofText "/home/agent/persona/skills", .sandboxed "/persona/skills" []) ∧
    ¬ GuestAgrees bareHost .list (PathBuf.ofText "/home/agent/workspace")
      (PathBuf.ofText "/home/agent/persona") (PathBuf.ofText "/tmp/isolated")
      (PathBuf.ofText "/home/agent/persona/skills") "/persona/skills" [] := by
  refine ⟨by decide, ?_⟩
  rintro ⟨dirs, path, -, hguest, -⟩
  have hrejected : FileTool.guestPath .list ("/persona/skills" : Text) =
      .error "list path is outside workspace mount: /persona/skills" := by decide
  rw [hrejected] at hguest
  cases hguest

end Tools
end SimpleClaw
