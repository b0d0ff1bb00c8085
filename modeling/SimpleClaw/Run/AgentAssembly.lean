import SimpleClaw.Invoke.ToolFactory
import SimpleClaw.Tools.Skills

/-!
# How an agent is put together

The system prompt of an agent is made of the files that describe it, in a fixed order, and of the
list of its skills; the registry has the enabled tools, and the tool that loads a skill.

* `fromPersona`, `agentSystemPrompt`: the prompt.
* `assembleAgent`: prompt, registry and skills of an agent.
* `skills_offered`: the skills that the prompt lists are those that are active, and the tool gives
  the text of each of them and of no other.
-/

namespace SimpleClaw
namespace Run

open Invoke Skills

/-! ## The prompt -/

/-- A file of the persona: it is not there, it cannot be looked at, or it has a size and, if it can
be read, a text. -/
inductive LayerFile where
  | missing
  | noMetadata (message : Text)
  | present (bytes : Nat) (content : Except Text Text)

def promptLayers : List Text := ["IDENTITY.md", "AGENT.md", "USER.md", "MEMORY.md", "SOUL.md"]

/-- All layers are looked at before the first is read. -/
def inspectPersona (persona : Text → LayerFile) : Except FrameworkError (List LayerFile) :=
  promptLayers.mapM fun file =>
    match persona file with
    | .noMetadata message => .error (.io message)
    | layer => .ok layer

def appendLayer (sections : List Text) : LayerFile → Except FrameworkError (List Text)
  | .missing | .noMetadata _ => .ok sections
  | .present bytes content =>
      if bytes = 0 then .ok sections
      else
        match content with
        | .error message => .error (.io message)
        | .ok content =>
            if content.trim = [] then .ok sections else .ok (sections ++ [content.trimEnd])

def fromPersona (persona : Text → LayerFile) : Except FrameworkError Text := do
  let layers ← inspectPersona persona
  let sections ← layers.foldlM appendLayer []
  pure (("\n\n" : Text).intercalate sections)

def agentSystemPrompt (systemPrompt : Text) (skillCatalog : SkillCatalog) : Text :=
  if skillCatalog.promptSection = [] then systemPrompt
  else systemPrompt ++ ("\n\n" : Text) ++ skillCatalog.promptSection

/-! ## The agent -/

/-- An agent as the runtime has it, as far as its skills are concerned. -/
structure AssembledAgent where
  systemPrompt : Text
  toolRegistry : AgentToolRegistry
  skillTool : Option SkillTool

/-- The part of `assemble_runtime_state` that is done for each agent. -/
def assembleAgent (tools : ToolsConfig) (skills : SkillsToolConfig) (persona : Text → LayerFile)
    (found resolved : SkillRoots) : Except FrameworkError AssembledAgent := do
  let systemPrompt ← fromPersona persona
  let skillCatalog ← loadSkillCatalog skills found resolved
  let skillTool := skillCatalog.intoTool
  let toolRegistry ←
    processFactory.buildRegistry tools (skillTool.toList.map fun _ => DirectTool.skill)
  pure ⟨agentSystemPrompt systemPrompt skillCatalog, toolRegistry, skillTool⟩

/-! ## What is offered -/

/-- **The skills of an agent**: they are the active ones that are there and not blank, each once and
in order, with the text of the agent's own file or else of the global one; the prompt ends with
their list, one line for each, and has none if there are none; the tool is registered if there are
any, and gives the text of each and of no other. -/
structure SkillsOffered (skills : SkillsToolConfig) (persona : Text → LayerFile)
    (found resolved : SkillRoots) (agent : AssembledAgent) (catalog : SkillCatalog) : Prop where
  sorted : (catalog.skills.map SkillDefinition.id).Pairwise (· < ·)
  active : ∀ skillId, skillId ∈ catalog.skills.map SkillDefinition.id ↔
    Active skills found skillId ∧
      ∃ content, resolveSkillPath resolved skillId = some (.ok content) ∧ content.trim ≠ []
  content : ∀ skill ∈ catalog.skills,
    resolveSkillPath resolved skill.id = some (.ok skill.content)
  counted : catalog.stats.requested = catalog.stats.counted ∧
    catalog.stats.loaded = catalog.skills.length
  listed : ∃ systemPrompt, fromPersona persona = .ok systemPrompt ∧
    agent.systemPrompt = agentSystemPrompt systemPrompt catalog ∧
    offeredIn catalog.promptSection = catalog.skills.map SkillDefinition.id
  registered : agent.toolRegistry.get "skill" =
    if catalog.skills = [] then none else some (skillEntry .skill)
  loads : ∀ tool, agent.skillTool = some tool →
    tool.nameEnum = catalog.skills.map SkillDefinition.id ∧
    ∀ (fromStr : Text → Except Text Text) (argsJson name : Text), fromStr argsJson = .ok name →
      (∃ skill ∈ catalog.skills, skill.id = name.trim ∧
        tool.execute fromStr argsJson = .ok skill.content) ∨
      (∀ skill ∈ catalog.skills, skill.id ≠ name.trim) ∧
        tool.execute fromStr argsJson =
          .error (.tool (("unknown skill '" : Text) ++ name.trim ++ ("'" : Text)))
  hasTool : agent.skillTool = none ↔ catalog.skills = []

/-- The catalog holds what was loaded of the active skills. -/
theorem skills_of_loadSkillCatalog {skills : SkillsToolConfig} {found resolved : SkillRoots}
    {catalog : SkillCatalog} {skillIds : List Text}
    (hactive : activeSkillIds skills found = .ok skillIds)
    (h : loadSkillCatalog skills found resolved = .ok catalog) :
    catalog.skills = skillIds.filterMap (loaded resolved) ∧
      catalog.stats.requested = catalog.stats.counted ∧
      catalog.stats.loaded = catalog.skills.length := by
  obtain ⟨skillIds', hactive', hload⟩ := bind_eq_ok_iff.mp h
  obtain rfl := Except.ok.inj (hactive.symm.trans hactive')
  obtain ⟨hskills, hrequested, hloaded, hcounted⟩ := foldlM_loadSkill hload
  rw [List.nil_append] at hskills
  refine ⟨hskills, ?_, ?_⟩
  · rw [hrequested, hcounted]
    simp [SkillToolLoadStats.counted]
  · rw [hloaded, hskills, Nat.zero_add]

section Loaded

variable {skills : SkillsToolConfig} {found resolved : SkillRoots} {skillIds : List Text}

/-- A skill that was loaded is an active one, as it is there. -/
theorem mem_loaded {skill : SkillDefinition} :
    skill ∈ skillIds.filterMap (loaded resolved) ↔
      skill.id ∈ skillIds ∧ resolveSkillPath resolved skill.id = some (.ok skill.content) ∧
        skill.content.trim ≠ [] ∧
        skill.description = extractDescription skill.content skill.id := by
  rw [List.mem_filterMap]
  constructor
  · rintro ⟨skillId, hskill, hloaded⟩
    obtain ⟨rfl, h⟩ := loaded_eq_some_iff.mp hloaded
    exact ⟨hskill, h⟩
  · rintro ⟨hskill, h⟩
    exact ⟨skill.id, hskill, loaded_eq_some_iff.mpr ⟨rfl, h⟩⟩

theorem map_id_filterMap_loaded :
    (skillIds.filterMap (loaded resolved)).map SkillDefinition.id =
      skillIds.filter fun skillId => (loaded resolved skillId).isSome := by
  induction skillIds with
  | nil => rfl
  | cons skillId skillIds ih =>
      rw [List.filterMap_cons, List.filter_cons]
      cases hloaded : loaded resolved skillId with
      | none => simpa using ih
      | some skill =>
          obtain ⟨hid, -⟩ := loaded_eq_some_iff.mp hloaded
          simpa [hid] using ih

end Loaded

/-- No tool of the process is called as the one that loads skills. -/
theorem get_skill_of_buildRegistry {tools : ToolsConfig} {skillTools : List DirectTool}
    {registry : AgentToolRegistry}
    (h : processFactory.buildRegistry tools skillTools = .ok registry) :
    registry.get "skill" =
      (skillTools.find? fun tool => tool.name = ("skill" : Text)).map skillEntry := by
  rw [processFactory_eq] at h
  have hnone : ("skill" : Text) ∉ tools.enabledToolNames := fun hmem =>
    absurd (enabledToolNames_subset tools hmem) (by decide)
  rw [(sound_buildRegistry h).2, if_neg hnone]

theorem skills_offered {tools : ToolsConfig} {skills : SkillsToolConfig}
    {persona : Text → LayerFile} {found resolved : SkillRoots} {agent : AssembledAgent}
    (h : assembleAgent tools skills persona found resolved = .ok agent) :
    ∃ catalog, loadSkillCatalog skills found resolved = .ok catalog ∧
      SkillsOffered skills persona found resolved agent catalog := by
  obtain ⟨systemPrompt, hprompt, h⟩ := bind_eq_ok_iff.mp h
  obtain ⟨catalog, hcatalog, h⟩ := bind_eq_ok_iff.mp h
  obtain ⟨toolRegistry, hregistry, h⟩ := bind_eq_ok_iff.mp h
  obtain rfl := Except.ok.inj h
  refine ⟨catalog, hcatalog, ?_⟩
  obtain ⟨skillIds, hactive, -⟩ := bind_eq_ok_iff.mp hcatalog
  obtain ⟨hsorted, hmem, hvalid⟩ := activeSkillIds_spec hactive
  obtain ⟨hskills, hcounted, hlength⟩ := skills_of_loadSkillCatalog hactive hcatalog
  have hids : (catalog.skills.map SkillDefinition.id).Pairwise (· < ·) := by
    rw [hskills, map_id_filterMap_loaded]
    exact hsorted.filter _
  have hnodup : (catalog.skills.map SkillDefinition.id).Nodup := hids.imp fun hlt => hlt.ne
  have hskill : ∀ skill ∈ catalog.skills, skill.id ∈ skillIds ∧
      resolveSkillPath resolved skill.id = some (.ok skill.content) ∧
      skill.content.trim ≠ [] ∧
      skill.description = extractDescription skill.content skill.id := fun skill hskill =>
    mem_loaded.mp (hskills ▸ hskill)
  constructor
  · exact hids
  · intro skillId
    rw [List.mem_map, ← hmem]
    constructor
    · rintro ⟨skill, hin, rfl⟩
      obtain ⟨hid, hcontent, hblank, -⟩ := hskill skill hin
      exact ⟨hid, skill.content, hcontent, hblank⟩
    · rintro ⟨hid, content, hcontent, hblank⟩
      refine ⟨⟨skillId, extractDescription content skillId, content⟩, ?_, rfl⟩
      rw [hskills]
      exact mem_loaded.mpr ⟨hid, hcontent, hblank, rfl⟩
  · exact fun skill hin => (hskill skill hin).2.1
  · exact ⟨hcounted, hlength⟩
  · refine ⟨systemPrompt, hprompt, rfl, offeredIn_promptSection ?_ ?_⟩
    · exact fun skill hin => hvalid skill.id (hskill skill hin).1
    · intro skill hin
      obtain ⟨hid, -, -, hdescription⟩ := hskill skill hin
      rw [hdescription]
      exact newline_notMem_extractDescription
        (notMem_of_isValidSkillId (hvalid skill.id hid) (by decide))
  · rw [get_skill_of_buildRegistry hregistry, SkillCatalog.intoTool]
    split
    · rfl
    · rfl
  · intro tool htool
    change catalog.intoTool = some tool at htool
    rw [SkillCatalog.intoTool] at htool
    split at htool
    · cases htool
    · obtain rfl := Option.some.inj htool
      exact ⟨rfl, fun fromStr argsJson name hargs => execute_new hnodup hargs⟩
  · show catalog.intoTool = none ↔ _
    rw [SkillCatalog.intoTool]
    split <;> simp_all

/-- One skill is the agent's and a global one, and the other is only global. -/
def researchRoots : SkillRoots where
  agent := .entries
    [.ok ⟨"research", true, some (.ok "---\ndescription: Look things up\n---\nSearch.")⟩,
      .ok ⟨"notes", true, none⟩]
  global := .entries
    [.ok ⟨"review", true, some (.ok "Read the change.")⟩,
      .ok ⟨"research", true, some (.ok "Ask somebody.")⟩]

/-- An agent that has a name. -/
def namedPersona (file : Text) : LayerFile :=
  if file = ("IDENTITY.md" : Text) then .present 10 (.ok "I am Claw.") else .missing

theorem skills_offered_research : ∃ agent catalog,
    assembleAgent noCommands .default namedPersona researchRoots researchRoots = .ok agent ∧
    loadSkillCatalog .default researchRoots researchRoots = .ok catalog ∧
    catalog.skills.map SkillDefinition.id = ["research".toList, "review".toList] ∧
    SkillsOffered .default namedPersona researchRoots researchRoots agent catalog := by
  have hagent : (assembleAgent noCommands .default namedPersona researchRoots
      researchRoots).toOption.isSome = true := by decide +kernel
  have hids : (loadSkillCatalog .default researchRoots researchRoots).toOption.map
      (fun catalog => catalog.skills.map SkillDefinition.id) =
        some ["research".toList, "review".toList] := by decide +kernel
  match hassembled : assembleAgent noCommands .default namedPersona researchRoots
      researchRoots with
  | .error err =>
      rw [hassembled] at hagent
      cases hagent
  | .ok agent =>
      obtain ⟨catalog, hcatalog, hoffered⟩ := skills_offered hassembled
      rw [hcatalog] at hids
      exact ⟨agent, catalog, rfl, hcatalog, Option.some.inj hids, hoffered⟩

end Run
end SimpleClaw
