import Mathlib.Data.Char
import Mathlib.Data.List.Dedup
import Mathlib.Data.List.Lex
import Mathlib.Data.List.Sort
import SimpleClaw.Error
import SimpleClaw.Lib.Occurrences

/-!
# Skills

A skill is a file `SKILL.md` in a directory that is named after it, among those of the agent or
among the global ones.  When the runtime is put together they are collected, and read; the prompt
then lists each with a description, and a tool gives the text of the one it is asked for.

The directories are read once to find the skills and once more to read them, and may have changed in
between.

* `activeSkillIds`, `resolveSkillPath`, `loadSkillCatalog`: which skills there are, with
  `activeSkillIds_spec`, `foldlM_loadSkill`.
* `extractDescription`, `SkillCatalog.promptSection`: what the prompt says, with
  `offeredIn_promptSection`.
* `SkillTool.execute`: what the tool gives, with `execute_new`.
-/

namespace SimpleClaw
namespace Skills

/-! ## The directories -/

/-- An entry among the skills; links are not followed to tell whether it is a directory, but they
are to find its `SKILL.md`. -/
structure SkillEntry where
  fileName : Text
  isDir : Bool
  skillFile : Option (Except Text Text)

/-- What is found when the skills of an agent, or the global ones, are listed. -/
inductive SkillsRoot where
  | missing
  | unreadable (message : Text)
  | entries (listed : List (Except Text SkillEntry))

/-- The two places where skills are. -/
structure SkillRoots where
  agent : SkillsRoot
  global : SkillsRoot

/-- The file of a skill there, with its text if it can be read. -/
def SkillsRoot.skillFile (skillId : Text) : SkillsRoot → Option (Except Text Text)
  | .missing | .unreadable _ => none
  | .entries listed => listed.findSome? fun
      | .ok entry => if entry.fileName = skillId then entry.skillFile else none
      | .error _ => none

/-- The agent's own file, or the global one. -/
def resolveSkillPath (roots : SkillRoots) (skillId : Text) : Option (Except Text Text) :=
  (roots.agent.skillFile skillId).or (roots.global.skillFile skillId)

/-! ## The active ones -/

structure SkillsToolConfig where
  enabled : Bool
  disabledSkills : List Text

def SkillsToolConfig.default : SkillsToolConfig := ⟨true, []⟩

def isValidSkillId (skillId : Text) : Bool :=
  skillId.all fun ch => ch.isAlphanum || ch == '-' || ch == '_'

def invalidSkillId (skillId : Text) : FrameworkError :=
  .config (("invalid skill id '" : Text) ++ skillId ++
    ("'; only letters, numbers, '-' and '_' are allowed" : Text))

def normalizedDisabledSkillId (rawId : Text) : Except FrameworkError Text :=
  if rawId.trim = [] then
    .error (.config "tools.skills.disabled_skills entries must be non-empty")
  else if isValidSkillId rawId.trim then .ok rawId.trim
  else .error (invalidSkillId rawId.trim)

def normalizedDisabledSkillIds (skills : SkillsToolConfig) : Except FrameworkError (List Text) :=
  skills.disabledSkills.mapM normalizedDisabledSkillId

/-- The skills that are listed, in the order of the directory. -/
def collectSkillIds : List (Except Text SkillEntry) → Except FrameworkError (List Text)
  | [] => .ok []
  | .error message :: _ => .error (.io message)
  | .ok entry :: listed =>
      if entry.isDir ∧ entry.skillFile.isSome then
        if isValidSkillId entry.fileName then
          (collectSkillIds listed).map fun discovered => entry.fileName :: discovered
        else .error (invalidSkillId entry.fileName)
      else collectSkillIds listed

def collectSkillIdsFromRoot : SkillsRoot → Except FrameworkError (List Text)
  | .missing => .ok []
  | .unreadable message => .error (.io message)
  | .entries listed => collectSkillIds listed

/-- A `BTreeSet` lists what was put into it once, in order. -/
def discoverSkillIds (roots : SkillRoots) : Except FrameworkError (List Text) := do
  let agent ← collectSkillIdsFromRoot roots.agent
  let global ← collectSkillIdsFromRoot roots.global
  pure ((agent ++ global).dedup.insertionSort (· ≤ ·))

def activeSkillIds (skills : SkillsToolConfig) (roots : SkillRoots) :
    Except FrameworkError (List Text) :=
  if skills.enabled then do
    let disabledSkillIds ← normalizedDisabledSkillIds skills
    let discovered ← discoverSkillIds roots
    pure (discovered.filter fun skillId => skillId ∉ disabledSkillIds)
  else .ok []

/-! ## The catalog -/

structure SkillDefinition where
  id : Text
  description : Text
  content : Text
  deriving DecidableEq

structure SkillToolLoadStats where
  requested : Nat
  loaded : Nat
  skippedMissing : Nat
  skippedEmpty : Nat
  deriving DecidableEq

structure SkillCatalog where
  skills : List SkillDefinition
  stats : SkillToolLoadStats
  deriving DecidableEq

def fallbackDescription (skillId : Text) : Text :=
  ("Skill `" : Text) ++ skillId ++ ("` - call `skill` with this name to load it." : Text)

/-- The value of a line of the front matter, if it is the description. -/
def descriptionOfLine (line : Text) : Option Text :=
  (line.trim.stripPrefix "description:").bind fun value =>
    let value := (value.trim.trimMatches (· == '"')).trimMatches (· == '\'')
    if value = [] then none else some value

def extractDescription (content skillId : Text) : Text :=
  match content.trimStart.stripPrefix "---" with
  | none => fallbackDescription skillId
  | some afterOpen =>
      match afterOpen.splitOnce "\n---" with
      | none => fallbackDescription skillId
      | some (frontmatter, _) =>
          (frontmatter.lines.findSome? descriptionOfLine).getD (fallbackDescription skillId)

/-- One more skill: it is missing, empty or loaded. -/
def loadSkill (roots : SkillRoots) (catalog : SkillCatalog) (skillId : Text) :
    Except FrameworkError SkillCatalog :=
  match resolveSkillPath roots skillId with
  | none =>
      .ok { catalog with
        stats := { catalog.stats with skippedMissing := catalog.stats.skippedMissing + 1 } }
  | some (.error message) => .error (.io message)
  | some (.ok content) =>
      if content.trim = [] then
        .ok { catalog with
          stats := { catalog.stats with skippedEmpty := catalog.stats.skippedEmpty + 1 } }
      else
        .ok { skills := catalog.skills ++ [⟨skillId, extractDescription content skillId, content⟩]
              stats := { catalog.stats with loaded := catalog.stats.loaded + 1 } }

/-- `found` is what is there when the skills are listed, `resolved` when they are read. -/
def loadSkillCatalog (skills : SkillsToolConfig) (found resolved : SkillRoots) :
    Except FrameworkError SkillCatalog := do
  let skillIds ← activeSkillIds skills found
  skillIds.foldlM (loadSkill resolved) ⟨[], ⟨skillIds.length, 0, 0, 0⟩⟩

/-! ## The prompt and the tool -/

def SkillDefinition.line (skill : SkillDefinition) : Text :=
  ("- `" : Text) ++ skill.id ++ ("`: " : Text) ++ skill.description

def SkillCatalog.promptSection (catalog : SkillCatalog) : Text :=
  if catalog.skills = [] then []
  else
    Text.joinWith '\n' (("# Available Skills" : Text) ::
      ("You can call the `skill` tool to load the full instructions for one of these skills:" :
        Text) :: catalog.skills.map SkillDefinition.line)

/-- The names the tool may be called with, as its schema lists them, and the texts: of two under
one name the later one, which stands first. -/
structure SkillTool where
  nameEnum : List Text
  skillsById : List (Text × Text)

def SkillTool.new (skills : List SkillDefinition) : SkillTool where
  nameEnum := skills.map SkillDefinition.id
  skillsById := skills.foldl (fun skillsById skill => (skill.id, skill.content) :: skillsById) []

def SkillCatalog.intoTool (catalog : SkillCatalog) : Option SkillTool :=
  if catalog.skills = [] then none else some (.new catalog.skills)

/-- `fromStr` gives the name among the arguments, or says why there is none. -/
def SkillTool.execute (fromStr : Text → Except Text Text) (tool : SkillTool) (argsJson : Text) :
    Except FrameworkError Text :=
  match fromStr argsJson with
  | .error err => .error (.tool (("invalid arguments for skill tool: " : Text) ++ err))
  | .ok name =>
      match tool.skillsById.lookup name.trim with
      | none => .error (.tool (("unknown skill '" : Text) ++ name.trim ++ ("'" : Text)))
      | some content => .ok content

/-! ## What is active -/

section Active

variable {skills : SkillsToolConfig} {roots : SkillRoots}

/-- The skill is listed there, as a directory with a `SKILL.md`. -/
def SkillsRoot.Lists (skillId : Text) : SkillsRoot → Prop
  | .missing | .unreadable _ => False
  | .entries listed => ∃ entry, .ok entry ∈ listed ∧ entry.isDir = true ∧
      entry.skillFile.isSome = true ∧ entry.fileName = skillId

/-- One entry after the other: it is none of a skill, or it is one whose name is allowed. -/
theorem collectSkillIds_cons {entry : SkillEntry} {listed : List (Except Text SkillEntry)}
    {discovered : List Text} (h : collectSkillIds (.ok entry :: listed) = .ok discovered) :
    (¬ (entry.isDir = true ∧ entry.skillFile.isSome = true) ∧
      collectSkillIds listed = .ok discovered) ∨
    ∃ rest, entry.isDir = true ∧ entry.skillFile.isSome = true ∧
      isValidSkillId entry.fileName = true ∧ collectSkillIds listed = .ok rest ∧
      discovered = entry.fileName :: rest := by
  rw [collectSkillIds] at h
  split at h
  · next hskill =>
    split at h
    · next hvalid =>
      obtain ⟨rest, hrest, rfl⟩ := map_eq_ok_iff.mp h
      exact .inr ⟨rest, hskill.1, hskill.2, hvalid, hrest, rfl⟩
    · cases h
  · next hskill => exact .inl ⟨hskill, h⟩

/-- **What is found are the skills that are listed**, and their names are allowed. -/
theorem mem_collectSkillIds {listed : List (Except Text SkillEntry)} {discovered : List Text}
    (h : collectSkillIds listed = .ok discovered) {skillId : Text} :
    (skillId ∈ discovered ↔ (SkillsRoot.entries listed).Lists skillId) ∧
      (skillId ∈ discovered → isValidSkillId skillId = true) := by
  induction listed generalizing discovered with
  | nil =>
      obtain rfl := Except.ok.inj h
      simp [SkillsRoot.Lists]
  | cons first listed ih =>
      match first with
      | .error message => cases h
      | .ok entry =>
          have hlists : (SkillsRoot.entries (.ok entry :: listed)).Lists skillId ↔
              (entry.isDir = true ∧ entry.skillFile.isSome = true ∧ entry.fileName = skillId) ∨
                (SkillsRoot.entries listed).Lists skillId := by
            simp only [SkillsRoot.Lists, List.mem_cons, Except.ok.injEq, or_and_right, exists_or,
              exists_eq_left]
          rw [hlists]
          obtain ⟨hnone, hrest⟩ | ⟨rest, hdir, hfile, hvalid, hrest, rfl⟩ := collectSkillIds_cons h
          · obtain ⟨hmem, hallowed⟩ := ih hrest
            refine ⟨?_, hallowed⟩
            rw [hmem]
            tauto
          · obtain ⟨hmem, hallowed⟩ := ih hrest
            rw [List.mem_cons, hmem]
            refine ⟨by tauto, ?_⟩
            rintro (rfl | hskill)
            · exact hvalid
            · exact hallowed (hmem.mpr hskill)

theorem mem_collectSkillIdsFromRoot {root : SkillsRoot} {discovered : List Text}
    (h : collectSkillIdsFromRoot root = .ok discovered) {skillId : Text} :
    (skillId ∈ discovered ↔ root.Lists skillId) ∧
      (skillId ∈ discovered → isValidSkillId skillId = true) := by
  match root with
  | .missing =>
      obtain rfl := Except.ok.inj h
      simp [SkillsRoot.Lists]
  | .unreadable message => cases h
  | .entries listed => exact mem_collectSkillIds h

/-- The skill is listed in one of the two places. -/
def SkillRoots.Lists (roots : SkillRoots) (skillId : Text) : Prop :=
  roots.agent.Lists skillId ∨ roots.global.Lists skillId

theorem mem_discoverSkillIds {discovered : List Text}
    (h : discoverSkillIds roots = .ok discovered) {skillId : Text} :
    (skillId ∈ discovered ↔ roots.Lists skillId) ∧
      (skillId ∈ discovered → isValidSkillId skillId = true) := by
  obtain ⟨agent, hagent, h⟩ := bind_eq_ok_iff.mp h
  obtain ⟨global, hglobal, h⟩ := bind_eq_ok_iff.mp h
  obtain rfl := Except.ok.inj h
  rw [List.mem_insertionSort, List.mem_dedup, List.mem_append]
  have hagent := @mem_collectSkillIdsFromRoot _ _ hagent skillId
  have hglobal := @mem_collectSkillIdsFromRoot _ _ hglobal skillId
  exact ⟨or_congr hagent.1 hglobal.1, fun h => h.elim hagent.2 hglobal.2⟩

/-- They are listed in order, each once. -/
theorem sorted_discoverSkillIds {discovered : List Text}
    (h : discoverSkillIds roots = .ok discovered) : discovered.Pairwise (· < ·) := by
  obtain ⟨agent, -, h⟩ := bind_eq_ok_iff.mp h
  obtain ⟨global, -, h⟩ := bind_eq_ok_iff.mp h
  obtain rfl := Except.ok.inj h
  have hnodup : ((agent ++ global).dedup.insertionSort (· ≤ ·)).Nodup :=
    (List.perm_insertionSort _ _).nodup_iff.mpr (List.nodup_dedup _)
  exact (List.pairwise_insertionSort _ _).imp₂ (fun _ _ hle hne => lt_of_le_of_ne hle hne) hnodup

theorem normalizedDisabledSkillIds_eq {disabledSkillIds : List Text}
    (h : normalizedDisabledSkillIds skills = .ok disabledSkillIds) :
    disabledSkillIds = skills.disabledSkills.map Text.trim := by
  unfold normalizedDisabledSkillIds at h
  generalize skills.disabledSkills = rawIds at h ⊢
  induction rawIds generalizing disabledSkillIds with
  | nil => exact (Except.ok.inj h).symm
  | cons rawId rawIds ih =>
      rw [List.mapM_cons] at h
      obtain ⟨first, hfirst, h⟩ := bind_eq_ok_iff.mp h
      obtain ⟨rest, hrest, h⟩ := bind_eq_ok_iff.mp h
      obtain rfl := Except.ok.inj h
      rw [List.map_cons, ← ih hrest]
      unfold normalizedDisabledSkillId at hfirst
      split at hfirst
      · cases hfirst
      · split at hfirst
        · rw [Except.ok.inj hfirst]
        · cases hfirst

/-- The skill is to be loaded: skills are enabled, and it is listed and not disabled. -/
structure Active (skills : SkillsToolConfig) (roots : SkillRoots) (skillId : Text) : Prop where
  enabled : skills.enabled = true
  listed : roots.Lists skillId
  notDisabled : ∀ rawId ∈ skills.disabledSkills, rawId.trim ≠ skillId

/-- **The active skills** are listed in order; their names are allowed. -/
theorem activeSkillIds_spec {skillIds : List Text}
    (h : activeSkillIds skills roots = .ok skillIds) :
    skillIds.Pairwise (· < ·) ∧ (∀ skillId, skillId ∈ skillIds ↔ Active skills roots skillId) ∧
      ∀ skillId ∈ skillIds, isValidSkillId skillId = true := by
  unfold activeSkillIds at h
  split at h
  · next henabled =>
    obtain ⟨disabledSkillIds, hdisabled, h⟩ := bind_eq_ok_iff.mp h
    obtain ⟨discovered, hdiscovered, h⟩ := bind_eq_ok_iff.mp h
    obtain rfl := Except.ok.inj h
    obtain rfl := normalizedDisabledSkillIds_eq hdisabled
    refine ⟨(sorted_discoverSkillIds hdiscovered).filter _, fun skillId => ?_, ?_⟩
    · rw [List.mem_filter, (mem_discoverSkillIds hdiscovered).1]
      simp only [decide_eq_true_eq, List.mem_map, not_exists, not_and]
      exact ⟨fun h => ⟨henabled, h.1, h.2⟩, fun h => ⟨h.listed, h.notDisabled⟩⟩
    · intro skillId hskill
      exact (mem_discoverSkillIds hdiscovered).2 (List.mem_of_mem_filter hskill)
  · next henabled =>
    obtain rfl := Except.ok.inj h
    refine ⟨List.Pairwise.nil, fun skillId => ?_, fun _ h => absurd h List.not_mem_nil⟩
    exact iff_of_false List.not_mem_nil fun h => henabled h.enabled

end Active

/-! ## What is loaded -/

section Loaded

variable {roots : SkillRoots}

/-- The skill as it is listed, if it is there and not blank. -/
def loaded (roots : SkillRoots) (skillId : Text) : Option SkillDefinition :=
  match resolveSkillPath roots skillId with
  | some (.ok content) =>
      if content.trim = [] then none
      else some ⟨skillId, extractDescription content skillId, content⟩
  | some (.error _) | none => none

theorem loaded_eq_some_iff {skillId : Text} {skill : SkillDefinition} :
    loaded roots skillId = some skill ↔
      skill.id = skillId ∧ resolveSkillPath roots skillId = some (.ok skill.content) ∧
        skill.content.trim ≠ [] ∧ skill.description = extractDescription skill.content skillId := by
  unfold loaded
  split
  · next content hresolve =>
    split
    · next hblank =>
      refine iff_of_false (fun h => by cases h) ?_
      rintro ⟨-, heq, hcontent, -⟩
      rw [← Except.ok.inj (Option.some.inj (hresolve.symm.trans heq))] at hcontent
      exact hcontent hblank
    · next hcontent =>
      constructor
      · rintro h
        obtain rfl := Option.some.inj h
        exact ⟨rfl, hresolve, hcontent, rfl⟩
      · rintro ⟨rfl, heq, -, hdescription⟩
        obtain rfl := Except.ok.inj (Option.some.inj (hresolve.symm.trans heq))
        rw [← hdescription]
  · next hresolve =>
    refine iff_of_false (fun h => by cases h) ?_
    rintro ⟨-, heq, -⟩
    cases hresolve.symm.trans heq
  · next hresolve =>
    refine iff_of_false (fun h => by cases h) ?_
    rintro ⟨-, heq, -⟩
    cases hresolve.symm.trans heq

/-- How many of the skills that were looked for have been accounted for. -/
def SkillToolLoadStats.counted (stats : SkillToolLoadStats) : Nat :=
  stats.loaded + stats.skippedMissing + stats.skippedEmpty

/-- **One more skill** is loaded, or it is counted as missing or empty. -/
theorem loadSkill_spec {catalog next : SkillCatalog} {skillId : Text}
    (h : loadSkill roots catalog skillId = .ok next) :
    next.skills = catalog.skills ++ (loaded roots skillId).toList ∧
      next.stats.requested = catalog.stats.requested ∧
      next.stats.loaded = catalog.stats.loaded + (loaded roots skillId).toList.length ∧
      next.stats.counted = catalog.stats.counted + 1 := by
  unfold loadSkill at h
  unfold loaded
  split at h
  · next hresolve =>
    obtain rfl := Except.ok.inj h
    rw [hresolve]
    refine ⟨(List.append_nil _).symm, rfl, rfl, ?_⟩
    simp only [SkillToolLoadStats.counted]
    omega
  · cases h
  · next content hresolve =>
    rw [hresolve]
    dsimp only
    split at h
    · next hblank =>
      obtain rfl := Except.ok.inj h
      rw [if_pos hblank]
      exact ⟨(List.append_nil _).symm, rfl, rfl, (Nat.add_assoc _ _ _).symm⟩
    · next hcontent =>
      obtain rfl := Except.ok.inj h
      rw [if_neg hcontent]
      refine ⟨rfl, rfl, rfl, ?_⟩
      simp only [SkillToolLoadStats.counted]
      omega

theorem foldlM_loadSkill {skillIds : List Text} {catalog result : SkillCatalog}
    (h : skillIds.foldlM (loadSkill roots) catalog = .ok result) :
    result.skills = catalog.skills ++ skillIds.filterMap (loaded roots) ∧
      result.stats.requested = catalog.stats.requested ∧
      result.stats.loaded =
        catalog.stats.loaded + (skillIds.filterMap (loaded roots)).length ∧
      result.stats.counted = catalog.stats.counted + skillIds.length := by
  induction skillIds generalizing catalog with
  | nil =>
      obtain rfl := Except.ok.inj h
      exact ⟨(List.append_nil _).symm, rfl, rfl, rfl⟩
  | cons skillId skillIds ih =>
      rw [List.foldlM_cons] at h
      obtain ⟨next, hnext, h⟩ := bind_eq_ok_iff.mp h
      obtain ⟨hskills, hrequested, hloaded, hcounted⟩ := loadSkill_spec hnext
      obtain ⟨hskills', hrequested', hloaded', hcounted'⟩ := ih h
      have hfilter : (skillId :: skillIds).filterMap (loaded roots) =
          (loaded roots skillId).toList ++ skillIds.filterMap (loaded roots) := by
        rw [List.filterMap_cons]
        cases loaded roots skillId <;> rfl
      rw [hfilter, hskills', hskills, List.append_assoc, List.length_append, List.length_cons]
      refine ⟨rfl, hrequested'.trans hrequested, ?_, ?_⟩
      · rw [hloaded', hloaded, Nat.add_assoc]
      · rw [hcounted', hcounted]
        omega

end Loaded

/-! ## What is listed -/

theorem notMem_withoutCr {c : Char} {line : Text} (h : c ∉ line) : c ∉ Text.withoutCr line := by
  rw [Text.withoutCr]
  split
  · exact fun hc => h (List.dropLast_sublist line |>.subset hc)
  · exact h

theorem newline_notMem_of_mem_lines {t line : Text} (h : line ∈ t.lines) : '\n' ∉ line := by
  rcases List.mem_append.mp h with h | h
  · obtain ⟨piece, hpiece, rfl⟩ := List.mem_map.mp h
    exact notMem_withoutCr
      (Text.notMem_of_mem_splitOn (List.dropLast_sublist _ |>.subset hpiece))
  · rw [Option.mem_toList, Option.filter_eq_some_iff] at h
    exact Text.notMem_of_mem_splitOn (List.mem_of_getLast? h.1)

theorem notMem_trimMatches {c : Char} {t : Text} (p : Char → Bool) (h : c ∉ t) :
    c ∉ t.trimMatches p := by
  obtain ⟨before, after, ht, -⟩ := Text.exists_trimMatches p t
  rw [ht] at h
  exact fun hc => h (List.mem_append_right before (List.mem_append_left after hc))

theorem newline_notMem_of_descriptionOfLine {line description : Text} (hline : '\n' ∉ line)
    (h : descriptionOfLine line = some description) : '\n' ∉ description := by
  obtain ⟨value, hvalue, h⟩ := Option.bind_eq_some_iff.mp h
  dsimp only at h
  split at h
  · cases h
  · obtain rfl := Option.some.inj h
    have htrim : '\n' ∉ line.trim := notMem_trimMatches Text.isWhiteSpace hline
    have hrest : '\n' ∉ value := by
      rw [Text.stripPrefix_eq_some_iff.mp hvalue] at htrim
      exact fun hc => htrim (List.mem_append_right _ hc)
    exact notMem_trimMatches _ (notMem_trimMatches _ (notMem_trimMatches Text.isWhiteSpace hrest))

theorem notMem_of_isValidSkillId {skillId : Text} (h : isValidSkillId skillId = true) {c : Char}
    (hc : (c.isAlphanum || c == '-' || c == '_') = false) : c ∉ skillId := by
  intro hmem
  have := List.all_eq_true.mp h c hmem
  rw [hc] at this
  cases this

theorem newline_notMem_fallbackDescription {skillId : Text} (h : '\n' ∉ skillId) :
    '\n' ∉ fallbackDescription skillId := by
  unfold fallbackDescription
  rw [List.mem_append, List.mem_append, not_or, not_or]
  exact ⟨⟨by decide, h⟩, by decide +kernel⟩

/-- **A description is one line.** -/
theorem newline_notMem_extractDescription {content skillId : Text} (h : '\n' ∉ skillId) :
    '\n' ∉ extractDescription content skillId := by
  have hfallback := newline_notMem_fallbackDescription h
  unfold extractDescription
  split
  · exact hfallback
  · split
    · exact hfallback
    · next frontmatter _ _ =>
      cases hfound : frontmatter.lines.findSome? descriptionOfLine with
      | none => exact hfallback
      | some description =>
          obtain ⟨line, hline, hdescription⟩ := List.exists_of_findSome?_eq_some hfound
          exact newline_notMem_of_descriptionOfLine (newline_notMem_of_mem_lines hline) hdescription

/-- The names a reader of the section finds: each line but the first two has one between
backquotes. -/
def offeredIn (promptSection : Text) : List Text :=
  ((promptSection.splitOn '\n').drop 2).map fun line => (line.drop 3).takeWhile (· ≠ '`')

theorem name_of_line {skill : SkillDefinition} (h : '`' ∉ skill.id) :
    (skill.line.drop 3).takeWhile (· ≠ '`') = skill.id := by
  have hdrop : skill.line.drop 3 =
      skill.id ++ '`' :: ((": " : Text) ++ skill.description) := by
    unfold SkillDefinition.line
    rw [List.append_assoc, List.append_assoc]
    rfl
  rw [hdrop, List.takeWhile_append_of_pos]
  · simp
  · intro c hc
    simpa using fun heq : c = '`' => h (heq ▸ hc)

theorem newline_notMem_line {skill : SkillDefinition} (hid : '\n' ∉ skill.id)
    (hdescription : '\n' ∉ skill.description) : '\n' ∉ skill.line := by
  unfold SkillDefinition.line
  rw [List.mem_append, List.mem_append, List.mem_append, not_or, not_or, not_or]
  exact ⟨⟨⟨by decide, hid⟩, by decide⟩, hdescription⟩

/-- **The section lists the skills.** -/
theorem offeredIn_promptSection {catalog : SkillCatalog}
    (hid : ∀ skill ∈ catalog.skills, isValidSkillId skill.id = true)
    (hdescription : ∀ skill ∈ catalog.skills, '\n' ∉ skill.description) :
    offeredIn catalog.promptSection = catalog.skills.map SkillDefinition.id := by
  unfold SkillCatalog.promptSection
  split
  · next hempty =>
    rw [hempty]
    rfl
  · have hlines : ∀ line ∈ ("# Available Skills" : Text) ::
        ("You can call the `skill` tool to load the full instructions for one of these skills:" :
          Text) :: catalog.skills.map SkillDefinition.line, '\n' ∉ line := by
      rw [List.forall_mem_cons, List.forall_mem_cons, List.forall_mem_map]
      refine ⟨by decide +kernel, by decide +kernel, fun skill hskill => ?_⟩
      exact newline_notMem_line (notMem_of_isValidSkillId (hid skill hskill) (by decide))
        (hdescription skill hskill)
    rw [offeredIn, Text.splitOn_joinWith hlines (List.cons_ne_nil _ _), List.drop_succ_cons,
      List.drop_succ_cons, List.drop_zero, List.map_map]
    refine List.map_congr_left fun skill hskill => ?_
    exact name_of_line (notMem_of_isValidSkillId (hid skill hskill) (by decide))

/-! ## What the tool gives -/

/-- Of skills with different names the tool has the text of each. -/
theorem lookup_new {skills : List SkillDefinition}
    (h : (skills.map SkillDefinition.id).Nodup) (name : Text) :
    (SkillTool.new skills).skillsById.lookup name =
      (skills.find? fun skill => skill.id = name).map SkillDefinition.content := by
  have hfold : ∀ before : List (Text × Text),
      (skills.foldl (fun skillsById skill => (skill.id, skill.content) :: skillsById)
        before).lookup name =
      ((skills.find? fun skill => skill.id = name).map SkillDefinition.content).or
        (before.lookup name) := by
    induction skills with
    | nil => exact fun before => rfl
    | cons skill skills ih =>
        obtain ⟨hnew, hnodup⟩ := List.nodup_cons.mp h
        intro before
        rw [List.foldl_cons, ih hnodup, List.lookup_cons, List.find?_cons]
        by_cases hname : skill.id = name
        · have hlater : skills.find? (fun skill => skill.id = name) = none := by
            rw [List.find?_eq_none]
            intro other hother heq
            refine hnew (List.mem_map.mpr ⟨other, hother, ?_⟩)
            rw [of_decide_eq_true heq, hname]
          rw [hlater, hname]
          simp
        · have hne : (name == skill.id) = false := beq_eq_false_iff_ne.mpr (Ne.symm hname)
          simp [hne, hname]
  rw [SkillTool.new, hfold, List.lookup_nil, Option.or_none]

/-- **The tool gives the text of the skill that is asked for**, or there is none of this name. -/
theorem execute_new {fromStr : Text → Except Text Text} {skills : List SkillDefinition}
    (h : (skills.map SkillDefinition.id).Nodup) {argsJson name : Text}
    (hargs : fromStr argsJson = .ok name) :
    (∃ skill ∈ skills, skill.id = name.trim ∧
      (SkillTool.new skills).execute fromStr argsJson = .ok skill.content) ∨
    (∀ skill ∈ skills, skill.id ≠ name.trim) ∧
      (SkillTool.new skills).execute fromStr argsJson =
        .error (.tool (("unknown skill '" : Text) ++ name.trim ++ ("'" : Text))) := by
  unfold SkillTool.execute
  rw [hargs]
  dsimp only
  rw [lookup_new h]
  match hfind : skills.find? fun skill => skill.id = name.trim with
  | some skill =>
      have hname : skill.id = name.trim := by simpa using List.find?_some hfind
      exact .inl ⟨skill, List.mem_of_find?_eq_some hfind, hname, by rw [hfind]; rfl⟩
  | none =>
      refine .inr ⟨fun skill hskill heq => ?_, by rw [hfind]; rfl⟩
      exact List.find?_eq_none.mp hfind skill hskill (decide_eq_true heq)

end Skills
end SimpleClaw
