import SimpleClaw.Invoke.Delegation
import SimpleClaw.Invoke.Restriction

/-!
# Building the registry of an agent

The registry has the tools that the configuration enables, in a fixed order, each as a copy of a
registered one with its section of the configuration, and after them the skill tools whose names are
not taken.  A section that is not there is the default one.  Of the sections there is what the
registry depends on; what the tools read of them otherwise is left to the tools.

* `ToolFactory.buildRegistry`: the registry.
* `get_buildRegistry`: what is found in it under a name.
* `exists_buildRegistry_iff`: when it can be built.
* `buildRegistry_consistent`: what holds of it after any chain of restrictions.
-/

namespace SimpleClaw
namespace Invoke

open Tools (ExecToolConfig ToolExecutionKind ToolSandboxConfig)

/-! ## The configuration -/

/-- What every section has, and what is particular to the tool. -/
structure ToolSection (C : Type) where
  enabled : Bool
  ownerRestricted : Bool
  config : C

/-- What sections with a sandbox have. -/
structure SandboxSwitch where
  sandboxEnabled : Bool

/-- The key may be there without having been resolved. -/
structure WebSearchSettings extends SandboxSwitch where
  apiKey : Option (Option Text)

structure ExecSettings extends SandboxSwitch where
  exec : ExecToolConfig

structure ToolsConfig where
  read : Option (ToolSection SandboxSwitch)
  edit : Option (ToolSection SandboxSwitch)
  glob : Option (ToolSection SandboxSwitch)
  grep : Option (ToolSection SandboxSwitch)
  list : Option (ToolSection SandboxSwitch)
  exec : Option (ToolSection ExecSettings)
  background : Option (ToolSection Unit)
  wait : Option (ToolSection Unit)
  webSearch : Option (ToolSection WebSearchSettings)
  webFetch : Option (ToolSection SandboxSwitch)
  memory : Option (ToolSection Unit)
  memorize : Option (ToolSection Unit)
  forget : Option (ToolSection Unit)
  summon : Option (ToolSection SummonToolConfig)
  task : Option (ToolSection TaskToolConfig)
  clock : Option (ToolSection Unit)
  cron : Option (ToolSection Unit)
  react : Option (ToolSection Unit)

def isEnabled {C : Type} (toolSection : Option (ToolSection C)) : Bool :=
  (toolSection.map ToolSection.enabled).getD true

/-- A section restricts its tool to the owner, as a rule also where it is not there. -/
def isOwnerRestricted {C : Type} (toolSection : Option (ToolSection C)) : Bool :=
  (toolSection.map ToolSection.ownerRestricted).getD true

def isSandboxed {C : Type} (switch : C → SandboxSwitch) (toolSection : Option (ToolSection C)) :
    Bool :=
  (toolSection.map fun s => (switch s.config).sandboxEnabled).getD true

/-- The sections that concern the registry, as the tools are configured with them. -/
inductive ToolSettings where
  | exec (config : ExecToolConfig)
  | summon (config : SummonToolConfig)
  | task (config : TaskToolConfig)

namespace ToolsConfig

variable (tools : ToolsConfig)

def enabledToolNames : List Text :=
  (([("memory", isEnabled tools.memory),
      ("memorize", isEnabled tools.memorize),
      ("forget", isEnabled tools.forget),
      ("summon", isEnabled tools.summon),
      ("task", isEnabled tools.task),
      ("web_search", isEnabled tools.webSearch),
      ("clock", isEnabled tools.clock),
      ("cron", isEnabled tools.cron),
      ("react", isEnabled tools.react),
      ("web_fetch", isEnabled tools.webFetch),
      ("read", isEnabled tools.read),
      ("edit", isEnabled tools.edit),
      ("glob", isEnabled tools.glob),
      ("grep", isEnabled tools.grep),
      ("list", isEnabled tools.list),
      ("exec", isEnabled tools.exec),
      ("background", isEnabled tools.background),
      ("wait", isEnabled tools.wait)] : List (Text × Bool)).filter Prod.snd).map Prod.fst

/-- The key of the search, if there is one, has to be resolved by now. -/
def webSearchToRuntime : Except FrameworkError Unit :=
  match tools.webSearch.bind fun s => s.config.apiKey with
  | some none => .error (.config "web_search api_key was not resolved before runtime assembly")
  | some (some _) | none => .ok ()

def execConfig : ExecToolConfig :=
  (tools.exec.map fun s => s.config.exec).getD ⟨none, true, ⟨none, [], []⟩⟩

def summonConfig : SummonToolConfig := (tools.summon.map ToolSection.config).getD ⟨true, []⟩

def taskConfig : TaskToolConfig := (tools.task.map ToolSection.config).getD ⟨true, none⟩

def configForTool (name : Text) : Except FrameworkError (Option ToolSettings) :=
  if name = ("web_search" : Text) then tools.webSearchToRuntime.map fun _ => none
  else
    .ok (([("exec", .exec tools.execConfig),
      ("summon", .summon tools.summonConfig),
      ("task", .task tools.taskConfig)] : List (Text × ToolSettings)).lookup name)

def ownerRestrictedForTool (name : Text) : Option Bool :=
  ([("read", isOwnerRestricted tools.read),
    ("edit", isOwnerRestricted tools.edit),
    ("glob", isOwnerRestricted tools.glob),
    ("grep", isOwnerRestricted tools.grep),
    ("list", isOwnerRestricted tools.list),
    ("exec", isOwnerRestricted tools.exec),
    ("background", isOwnerRestricted tools.background),
    ("wait", isOwnerRestricted tools.wait),
    ("web_search", isOwnerRestricted tools.webSearch),
    ("web_fetch", isOwnerRestricted tools.webFetch),
    ("memory", isOwnerRestricted tools.memory),
    ("memorize", isOwnerRestricted tools.memorize),
    ("forget", isOwnerRestricted tools.forget),
    ("summon", isOwnerRestricted tools.summon),
    ("task", isOwnerRestricted tools.task),
    ("clock", isOwnerRestricted tools.clock),
    ("cron", isOwnerRestricted tools.cron),
    -- without a section everyone may react
    ("react", (tools.react.map ToolSection.ownerRestricted).getD false)] :
      List (Text × Bool)).lookup name

def selectExecutionKind (name : Text) : ToolExecutionKind :=
  let sandboxes : List (Text × Bool × ToolExecutionKind) :=
    [("read", isSandboxed id tools.read, .wasmSandbox),
      ("edit", isSandboxed id tools.edit, .wasmSandbox),
      ("glob", isSandboxed id tools.glob, .wasmSandbox),
      ("grep", isSandboxed id tools.grep, .wasmSandbox),
      ("list", isSandboxed id tools.list, .wasmSandbox),
      ("web_search", isSandboxed WebSearchSettings.toSandboxSwitch tools.webSearch, .wasmSandbox),
      ("web_fetch", isSandboxed id tools.webFetch, .wasmSandbox),
      ("exec", isSandboxed ExecSettings.toSandboxSwitch tools.exec, .hostSandbox)]
  match sandboxes.lookup name with
  | some (true, kind) => kind
  | some (false, _) | none => .direct

end ToolsConfig

/-! ## The factory -/

namespace RegisteredTool

/-- A copy of the tool with its section; the section is that of the tool's own name. -/
def configureClone (tool : RegisteredTool) (config : Option ToolSettings) : RegisteredTool :=
  match tool, config with
  | .exec _, some (.exec config) => .exec config
  | .summon _, some (.summon config) => .summon config
  | .task _, some (.task config) => .task config
  | tool, _ => tool

theorem name_configureClone (tool : RegisteredTool) (config : Option ToolSettings) :
    (tool.configureClone config).name = tool.name := by
  unfold configureClone
  split <;> rfl

def supportedExecutionKinds : RegisteredTool → List ToolExecutionKind
  | .webSearch | .webFetch | .read | .edit | .glob | .grep | .list => [.direct, .wasmSandbox]
  | .exec _ => [.direct, .hostSandbox]
  | .summon _ | .task _ | .direct _ => [.direct]

end RegisteredTool

structure ToolFactory where
  builtins : List RegisteredTool
  byName : List (Text × RegisteredTool)

namespace ToolFactory

def new : ToolFactory := ⟨[], []⟩

/-- A tool of a name that is registered takes the place of that one. -/
def registerBuiltin (factory : ToolFactory) (tool : RegisteredTool) : ToolFactory where
  builtins :=
    match factory.builtins.findIdx? fun candidate => candidate.name = tool.name with
    | some existingIdx => factory.builtins.set existingIdx tool
    | none => factory.builtins ++ [tool]
  byName := (tool.name, tool) :: factory.byName

def ofBuiltins (tools : List RegisteredTool) : ToolFactory := tools.foldl registerBuiltin new

/-- The entry of an enabled tool. -/
def builtinEntry (factory : ToolFactory) (tools : ToolsConfig) (name : Text) :
    Except FrameworkError AgentToolEntry :=
  match factory.byName.lookup name with
  | none => .error (.config (("unknown tool in tools map: " : Text) ++ name))
  | some toolTemplate => do
      let config ← tools.configForTool name
      let tool := toolTemplate.configureClone config
      let executionKind := tools.selectExecutionKind name
      if executionKind ∉ tool.supportedExecutionKinds then
        .error (.config (("tool '" : Text) ++ name ++
          ("' does not support execution kind " : Text) ++ executionKind.debug))
      else
        .ok
          { tool
            executionKind
            ownerRestricted := (tools.ownerRestrictedForTool name).getD true }

end ToolFactory

def skillEntry (tool : DirectTool) : AgentToolEntry where
  tool := .direct tool
  executionKind := .direct
  ownerRestricted := false

/-- The registry as far as it is built, and the names in it. -/
structure RegistryBuild where
  registry : AgentToolRegistry
  seen : List Text

namespace RegistryBuild

def empty : RegistryBuild := ⟨⟨[], []⟩, []⟩

def push (build : RegistryBuild) (name : Text) (entry : AgentToolEntry) : RegistryBuild where
  registry := ⟨build.registry.ordered ++ [entry], (name, entry) :: build.registry.byName⟩
  seen := name :: build.seen

def addBuiltin (factory : ToolFactory) (tools : ToolsConfig) (build : RegistryBuild)
    (name : Text) : Except FrameworkError RegistryBuild :=
  if name ∈ build.seen then .ok build
  else (factory.builtinEntry tools name).map (build.push name)

def addSkill (build : RegistryBuild) (tool : DirectTool) : RegistryBuild :=
  if tool.name ∈ build.seen then build else build.push tool.name (skillEntry tool)

end RegistryBuild

def ToolFactory.buildRegistry (factory : ToolFactory) (tools : ToolsConfig)
    (skillTools : List DirectTool) : Except FrameworkError AgentToolRegistry := do
  let build ← tools.enabledToolNames.foldlM (RegistryBuild.addBuiltin factory tools) .empty
  pure (skillTools.foldl RegistryBuild.addSkill build).registry

/-! ## What is registered -/

section Factory

variable {tools : ToolsConfig} {name : Text}

/-- Tools are registered under their own names. -/
theorem name_of_mem_ofBuiltins (builtins : List RegisteredTool) :
    ∀ pair ∈ (ToolFactory.ofBuiltins builtins).byName, pair.2.name = pair.1 := by
  have hfold : ∀ factory : ToolFactory, (∀ pair ∈ factory.byName, pair.2.name = pair.1) →
      ∀ pair ∈ (builtins.foldl ToolFactory.registerBuiltin factory).byName,
        pair.2.name = pair.1 := by
    induction builtins with
    | nil => exact fun factory h => h
    | cons tool builtins ih =>
        intro factory h
        refine ih _ ?_
        rintro pair (_ | ⟨_, hpair⟩)
        · rfl
        · exact h pair hpair
  exact hfold .new (by simp [ToolFactory.new])

/-- The entry of an enabled tool has its name. -/
theorem name_of_builtinEntry {builtins : List RegisteredTool} {entry : AgentToolEntry}
    (h : (ToolFactory.ofBuiltins builtins).builtinEntry tools name = .ok entry) :
    entry.tool.name = name := by
  unfold ToolFactory.builtinEntry at h
  split at h
  · cases h
  · next toolTemplate hlookup =>
    obtain ⟨config, -, h⟩ := bind_eq_ok_iff.mp h
    simp only at h
    split at h
    · cases h
    · obtain rfl := Except.ok.inj h
      obtain ⟨before, after, hpairs, -⟩ := List.lookup_eq_some_iff.mp hlookup
      have hmem : (name, toolTemplate) ∈ (ToolFactory.ofBuiltins builtins).byName := by
        rw [hpairs]
        exact List.mem_append_right before List.mem_cons_self
      rw [RegisteredTool.name_configureClone]
      exact name_of_mem_ofBuiltins builtins _ hmem

end Factory

/-! ## One tool after the other -/

namespace RegistryBuild

/-- The registry is sound, and the names seen are those found in it. -/
structure Sound (build : RegistryBuild) : Prop where
  registry : build.registry.Sound
  seen : ∀ name, name ∈ build.seen ↔ (build.registry.get name).isSome

section Push

variable {build : RegistryBuild} {name : Text} {entry : AgentToolEntry}

theorem sound_empty : empty.Sound where
  registry := ⟨rfl, List.nodup_nil⟩
  seen name := iff_of_false List.not_mem_nil (by simp [empty, AgentToolRegistry.get])

theorem get_push (key : Text) :
    (build.push name entry).registry.get key =
      if key = name then some entry else build.registry.get key := by
  show ((name, entry) :: build.registry.byName).lookup key = _
  rw [List.lookup_cons]
  split
  · next h => rw [if_pos (beq_iff_eq.mp h)]
  · next h =>
    rw [if_neg (beq_eq_false_iff_ne.mp h)]
    rfl

/-- **An entry under a new name keeps the registry sound.** -/
theorem Sound.push (h : build.Sound) (hname : entry.tool.name = name) (hnew : name ∉ build.seen) :
    (build.push name entry).Sound where
  registry :=
    { indexed := by
        subst hname
        show (entry.tool.name, entry) :: build.registry.byName =
          indexByName (build.registry.ordered ++ [entry])
        rw [h.registry.indexed]
        simp [indexByName]
      distinct := by
        have hnone : build.registry.get name = none := by
          rw [← Option.not_isSome_iff_eq_none, ← h.seen]
          exact hnew
        have hfresh := h.registry.get_eq_none_iff.mp hnone
        show ((build.registry.ordered ++ [entry]).map _).Nodup
        rw [List.map_append, List.map_singleton, List.nodup_append]
        refine ⟨h.registry.distinct, List.nodup_singleton _, ?_⟩
        intro other hother key hkey
        obtain ⟨listed, hlisted, rfl⟩ := List.mem_map.mp hother
        rw [List.mem_singleton.mp hkey, hname]
        exact hfresh listed hlisted }
  seen key := by
    rw [get_push]
    show key ∈ name :: build.seen ↔ _
    rw [List.mem_cons, h.seen]
    split
    · next hkey => exact iff_of_true (.inl hkey) rfl
    · next hkey => exact or_iff_right hkey

end Push

section Steps

variable {factory : ToolFactory} {tools : ToolsConfig} {build build' : RegistryBuild}
  {builtins : List RegisteredTool}

/-- **The enabled tools**: each is found as its entry says, and nothing else is new. -/
theorem Sound.foldlM_addBuiltin {names : List Text} (h : build.Sound)
    (hbuild : names.foldlM (addBuiltin (.ofBuiltins builtins) tools) build = .ok build') :
    build'.Sound ∧ ∀ key, build'.registry.get key =
      if key ∈ names ∧ key ∉ build.seen then
        ((ToolFactory.ofBuiltins builtins).builtinEntry tools key).toOption
      else build.registry.get key := by
  induction names generalizing build with
  | nil =>
      cases hbuild
      exact ⟨h, fun key => by simp⟩
  | cons name names ih =>
      rw [List.foldlM_cons] at hbuild
      obtain ⟨next, hstep, hrest⟩ := bind_eq_ok_iff.mp hbuild
      rw [addBuiltin] at hstep
      split at hstep
      · next hseen =>
        obtain rfl := Except.ok.inj hstep
        obtain ⟨hsound, hget⟩ := ih h hrest
        refine ⟨hsound, fun key => ?_⟩
        rw [hget]
        refine if_congr ?_ rfl rfl
        rw [List.mem_cons]
        constructor
        · exact fun hkey => ⟨.inr hkey.1, hkey.2⟩
        · rintro ⟨rfl | hkey, hnew⟩
          · exact absurd hseen hnew
          · exact ⟨hkey, hnew⟩
      · next hnew =>
        obtain ⟨entry, hentry, rfl⟩ := map_eq_ok_iff.mp hstep
        obtain ⟨hsound, hget⟩ := ih (h.push (name_of_builtinEntry hentry) hnew) hrest
        refine ⟨hsound, fun key => ?_⟩
        have hseen : key ∈ (build.push name entry).seen ↔ key = name ∨ key ∈ build.seen :=
          List.mem_cons
        rw [hget, get_push]
        by_cases hkey : key = name
        · subst hkey
          rw [if_neg fun hlater => hlater.2 (hseen.mpr (.inl rfl)), if_pos rfl,
            if_pos ⟨List.mem_cons_self, hnew⟩, hentry]
          rfl
        · simp only [hseen, List.mem_cons, hkey, false_or, if_false]

/-- **The skill tools**: under a name that is not taken the first one of it is found. -/
theorem Sound.foldl_addSkill (h : build.Sound) (skills : List DirectTool) :
    (skills.foldl addSkill build).Sound ∧
      ∀ key, (skills.foldl addSkill build).registry.get key =
        (build.registry.get key).or
          ((skills.find? fun tool => tool.name = key).map skillEntry) := by
  induction skills generalizing build with
  | nil => exact ⟨h, fun key => by simp⟩
  | cons tool skills ih =>
      rw [List.foldl_cons, addSkill]
      split
      · next hseen =>
        obtain ⟨hsound, hget⟩ := ih h
        refine ⟨hsound, fun key => ?_⟩
        rw [hget, List.find?_cons]
        split
        · next hkey =>
          obtain rfl : tool.name = key := of_decide_eq_true hkey
          obtain ⟨entry, hentry⟩ := Option.isSome_iff_exists.mp ((h.seen _).mp hseen)
          rw [hentry]
          rfl
        · rfl
      · next hnew =>
        have hpush : (build.push tool.name (skillEntry tool)).Sound := h.push rfl hnew
        obtain ⟨hsound, hget⟩ := ih hpush
        refine ⟨hsound, fun key => ?_⟩
        rw [hget, get_push, List.find?_cons]
        by_cases hkey : tool.name = key
        · have hnone : build.registry.get key = none := by
            rw [← Option.not_isSome_iff_eq_none, ← h.seen, ← hkey]
            exact hnew
          rw [if_pos hkey.symm, hnone]
          simp [hkey]
        · rw [if_neg (Ne.symm hkey)]
          simp [hkey]

/-- The tools can be added if each that is not there yet has an entry. -/
theorem exists_foldlM_addBuiltin_iff {names : List Text} :
    (∃ build', names.foldlM (addBuiltin factory tools) build = .ok build') ↔
      ∀ name ∈ names, name ∉ build.seen → ∃ entry, factory.builtinEntry tools name = .ok entry := by
  induction names generalizing build with
  | nil => exact iff_of_true ⟨build, rfl⟩ (by simp)
  | cons name names ih =>
      rw [List.foldlM_cons, List.forall_mem_cons]
      by_cases hseen : name ∈ build.seen
      · have hstep : addBuiltin factory tools build name = .ok build := if_pos hseen
        rw [hstep]
        exact ih.trans (and_iff_right fun hnew => absurd hseen hnew).symm
      · have hstep : addBuiltin factory tools build name =
            (factory.builtinEntry tools name).map (build.push name) := if_neg hseen
        rw [hstep]
        cases hentry : factory.builtinEntry tools name with
        | error e =>
            refine iff_of_false ?_ ?_
            · rintro ⟨build', ⟨⟩⟩
            · rintro ⟨hname, -⟩
              obtain ⟨entry, ⟨⟩⟩ := hname hseen
        | ok entry =>
            have hpushed : ∀ key, key ∉ (build.push name entry).seen ↔
                key ≠ name ∧ key ∉ build.seen := by
              intro key
              show key ∉ name :: build.seen ↔ _
              rw [List.mem_cons, not_or]
            refine ih.trans ?_
            rw [and_iff_right fun _ => ⟨entry, rfl⟩]
            refine forall₂_congr fun key _ => ?_
            rw [hpushed]
            constructor
            · intro h hnew
              by_cases hkey : key = name
              · exact ⟨entry, hkey ▸ hentry⟩
              · exact h ⟨hkey, hnew⟩
            · exact fun h hnew => h hnew.2

end Steps

end RegistryBuild

/-! ## The registry -/

section Build

variable {builtins : List RegisteredTool} {tools : ToolsConfig} {skillTools : List DirectTool}
  {registry : AgentToolRegistry}

/-- **The registry can be built exactly if every enabled tool has an entry.** -/
theorem exists_buildRegistry_iff {factory : ToolFactory} :
    (∃ registry, factory.buildRegistry tools skillTools = .ok registry) ↔
      ∀ name ∈ tools.enabledToolNames, ∃ entry, factory.builtinEntry tools name = .ok entry := by
  have hseen : ∀ name, name ∉ RegistryBuild.empty.seen := fun _ => List.not_mem_nil
  have hfold : (∃ build, tools.enabledToolNames.foldlM (RegistryBuild.addBuiltin factory tools)
        .empty = .ok build) ↔
      ∀ name ∈ tools.enabledToolNames, name ∉ RegistryBuild.empty.seen →
        ∃ entry, factory.builtinEntry tools name = .ok entry :=
    RegistryBuild.exists_foldlM_addBuiltin_iff
  simp only [hseen, not_false_eq_true, true_imp_iff] at hfold
  rw [← hfold]
  constructor
  · rintro ⟨registry, h⟩
    obtain ⟨build, hbuild, -⟩ := bind_eq_ok_iff.mp h
    exact ⟨build, hbuild⟩
  · rintro ⟨build, hbuild⟩
    exact ⟨_, bind_eq_ok_iff.mpr ⟨build, hbuild, rfl⟩⟩

/-- **What is found in the registry**: the entry of an enabled tool under its name, and the first
skill tool of any other one. -/
theorem sound_buildRegistry
    (h : (ToolFactory.ofBuiltins builtins).buildRegistry tools skillTools = .ok registry) :
    registry.Sound ∧ ∀ name, registry.get name =
      if name ∈ tools.enabledToolNames then
        ((ToolFactory.ofBuiltins builtins).builtinEntry tools name).toOption
      else (skillTools.find? fun tool => tool.name = name).map skillEntry := by
  have hentries := exists_buildRegistry_iff.mp ⟨registry, h⟩
  obtain ⟨build, hbuild, h⟩ := bind_eq_ok_iff.mp h
  obtain rfl := Except.ok.inj h
  obtain ⟨hbuiltins, hget⟩ := RegistryBuild.sound_empty.foldlM_addBuiltin hbuild
  obtain ⟨hskills, hgetSkills⟩ := hbuiltins.foldl_addSkill skillTools
  refine ⟨hskills.registry, fun name => ?_⟩
  rw [hgetSkills, hget]
  by_cases hname : name ∈ tools.enabledToolNames
  · obtain ⟨entry, hentry⟩ := hentries name hname
    rw [if_pos ⟨hname, List.not_mem_nil⟩, if_pos hname, hentry]
    rfl
  · rw [if_neg fun hboth => hname hboth.1, if_neg hname]
    rfl

end Build

/-! ## The tools of the process -/

def builtinTools : List RegisteredTool :=
  [.direct .memory, .direct .memorize, .direct .forget, .summon ⟨true, []⟩, .task ⟨true, none⟩,
    .webSearch, .direct .clock, .direct .react, .webFetch, .read, .edit, .glob, .grep, .list,
    .exec ⟨none, true, ⟨none, [], []⟩⟩, .direct .background, .direct .wait]

def defaultFactory : ToolFactory := .ofBuiltins builtinTools

/-- The cron tool is registered with its store, when the process is put together. -/
def processFactory : ToolFactory := defaultFactory.registerBuiltin (.direct .cron)

theorem processFactory_eq : processFactory = .ofBuiltins (builtinTools ++ [.direct .cron]) := rfl

/-- The names that can be enabled. -/
def toolNames : List Text :=
  ["memory", "memorize", "forget", "summon", "task", "web_search", "clock", "cron", "react",
    "web_fetch", "read", "edit", "glob", "grep", "list", "exec", "background", "wait"]

theorem enabledToolNames_subset (tools : ToolsConfig) : tools.enabledToolNames ⊆ toolNames :=
  (List.filter_sublist.map _).subset

/-- The kinds a tool of this name may be given. -/
def kindsOf (name : Text) : List ToolExecutionKind :=
  if name = ("exec" : Text) then [.direct, .hostSandbox]
  else if name ∈ (["read", "edit", "glob", "grep", "list", "web_search", "web_fetch"] : List Text)
    then [.direct, .wasmSandbox]
  else [.direct]

theorem selectExecutionKind_mem {name : Text} (h : name ∈ toolNames) (tools : ToolsConfig) :
    tools.selectExecutionKind name ∈ kindsOf name := by
  have hkinds : ∀ sandboxed : Bool, ∀ kind : ToolExecutionKind,
      (match some (sandboxed, kind) with
        | some (true, kind) => kind
        | some (false, _) | none => ToolExecutionKind.direct) ∈ [.direct, kind] := by
    intro sandboxed kind
    cases sandboxed <;> simp
  have hdirect : ToolExecutionKind.direct ∈ [ToolExecutionKind.direct] := List.mem_singleton_self _
  revert name
  simp only [toolNames, List.forall_mem_cons]
  exact ⟨hdirect, hdirect, hdirect, hdirect, hdirect, hkinds _ _, hdirect, hdirect, hdirect,
    hkinds _ _, hkinds _ _, hkinds _ _, hkinds _ _, hkinds _ _, hkinds _ _, hkinds _ _, hdirect,
    hdirect, by simp⟩

/-- Every tool that can be enabled is registered, and supports the kinds it may be given. -/
theorem exists_processTool : ∀ name ∈ toolNames, ∃ tool,
    processFactory.byName.lookup name = some tool ∧
      ∀ kind ∈ kindsOf name, kind ∈ tool.supportedExecutionKinds := by
  have hall : ∀ name ∈ toolNames, (match processFactory.byName.lookup name with
      | some tool => (kindsOf name).all fun kind => tool.supportedExecutionKinds.contains kind
      | none => false) = true := by
    decide +kernel
  intro name hname
  have h := hall name hname
  split at h
  · next tool htool =>
    refine ⟨tool, htool, fun kind hkind => ?_⟩
    exact List.contains_iff_mem.mp (List.all_eq_true.mp h kind hkind)
  · cases h

/-- **With the tools of the process the registry can be built** for any configuration whose key of
the search, if there is one, is resolved. -/
theorem exists_buildRegistry_process {tools : ToolsConfig} (skillTools : List DirectTool)
    (hsearch : tools.webSearchToRuntime = .ok ()) :
    ∃ registry, processFactory.buildRegistry tools skillTools = .ok registry := by
  refine exists_buildRegistry_iff.mpr fun name hname => ?_
  obtain ⟨tool, hlookup, hkinds⟩ := exists_processTool name (enabledToolNames_subset tools hname)
  have hconfig : ∃ config, tools.configForTool name = .ok config := by
    unfold ToolsConfig.configForTool
    split
    · rw [hsearch]
      exact ⟨none, rfl⟩
    · exact ⟨_, rfl⟩
  obtain ⟨config, hconfig⟩ := hconfig
  have hclone : (tool.configureClone config).supportedExecutionKinds =
      tool.supportedExecutionKinds := by
    unfold RegisteredTool.configureClone
    split <;> rfl
  have hkind := hkinds _ (selectExecutionKind_mem (enabledToolNames_subset tools hname) tools)
  unfold ToolFactory.builtinEntry
  simp only [hlookup, hconfig, bind, Except.bind, hclone]
  exact ⟨_, if_neg (not_not_intro hkind)⟩

/-! ## Restrictions of a built registry -/

/-- **What a chain of restrictions leaves of a registry.** -/
structure Consistent (built : AgentToolRegistry) (ops : List RegistryOp)
    (registry : AgentToolRegistry) : Prop where
  /-- no two tools have one name -/
  distinct : (registry.ordered.map fun entry => entry.tool.name).Nodup
  /-- what is listed is found, and conversely -/
  sameEntries : ∀ name entry,
    registry.get name = some entry ↔ entry ∈ registry.ordered ∧ entry.tool.name = name
  /-- what was removed is neither found nor listed -/
  removed : ∀ name ∈ RegistryOp.removedBy ops,
    registry.get name = none ∧ ∀ entry ∈ registry.ordered, entry.tool.name ≠ name
  /-- what was not removed is still found, with background switched off or as it was -/
  remaining : ∀ name, name ∉ RegistryOp.removedBy ops → registry.get name =
    (built.get name).map (AgentToolEntry.asyncDisabledIf (RegistryOp.asyncDisabledBy ops))
  /-- and is run and restricted as before -/
  unchanged : ∀ name entry, registry.get name = some entry →
    ∃ original, built.get name = some original ∧
      entry.executionKind = original.executionKind ∧
      entry.ownerRestricted = original.ownerRestricted
  commute : ∀ op op', (registry.apply op).apply op' = (registry.apply op').apply op
  idempotent : ∀ op, (registry.apply op).apply op = registry.apply op

theorem AgentToolRegistry.Sound.consistent {built : AgentToolRegistry} (h : built.Sound)
    (ops : List RegistryOp) : Consistent built ops (built.applyAll ops) := by
  have hsound : (built.applyAll ops).Sound := h.applyAll_eq_restrict ops ▸ h.restrict _ _
  have hget : ∀ name, (built.applyAll ops).get name =
      if name ∈ RegistryOp.removedBy ops then none
      else (built.get name).map
        (AgentToolEntry.asyncDisabledIf (RegistryOp.asyncDisabledBy ops)) := by
    intro name
    rw [h.applyAll_eq_restrict]
    exact h.get_restrict name
  refine ⟨hsound.distinct, fun _ _ => hsound.get_eq_some_iff, ?_, ?_, ?_, hsound.apply_comm,
    hsound.apply_apply⟩
  · intro name hname
    have hnone : (built.applyAll ops).get name = none := (hget name).trans (if_pos hname)
    exact ⟨hnone, hsound.get_eq_none_iff.mp hnone⟩
  · exact fun name hname => (hget name).trans (if_neg hname)
  · intro name entry hentry
    rw [hget] at hentry
    split at hentry
    · cases hentry
    · obtain ⟨original, horiginal, rfl⟩ := Option.map_eq_some_iff.mp hentry
      exact ⟨original, horiginal, AgentToolEntry.executionKind_asyncDisabledIf _ _,
        AgentToolEntry.ownerRestricted_asyncDisabledIf _ _⟩

/-- **A built registry is consistent after any chain of restrictions**, and a skill tool is in it
only under a name that no enabled tool has. -/
theorem buildRegistry_consistent {builtins : List RegisteredTool} {tools : ToolsConfig}
    {skillTools : List DirectTool} {built : AgentToolRegistry}
    (h : (ToolFactory.ofBuiltins builtins).buildRegistry tools skillTools = .ok built)
    (ops : List RegistryOp) :
    Consistent built ops (built.applyAll ops) ∧
      (∀ name ∈ tools.enabledToolNames, ∃ entry,
        (ToolFactory.ofBuiltins builtins).builtinEntry tools name = .ok entry ∧
          built.get name = some entry) ∧
      ∀ name, name ∉ tools.enabledToolNames →
        built.get name = (skillTools.find? fun tool => tool.name = name).map skillEntry := by
  obtain ⟨hsound, hget⟩ := sound_buildRegistry h
  refine ⟨hsound.consistent ops, fun name hname => ?_, fun name hname => ?_⟩
  · obtain ⟨entry, hentry⟩ := exists_buildRegistry_iff.mp ⟨built, h⟩ name hname
    refine ⟨entry, hentry, ?_⟩
    rw [hget, if_pos hname, hentry]
    rfl
  · rw [hget, if_neg hname]

/-- A configuration that says nothing but that there are no commands. -/
def noCommands : ToolsConfig where
  read := none
  edit := none
  glob := none
  grep := none
  list := none
  exec := some ⟨false, true, ⟨⟨true⟩, ⟨none, true, ⟨none, [], []⟩⟩⟩⟩
  background := none
  wait := none
  webSearch := none
  webFetch := none
  memory := none
  memorize := none
  forget := none
  summon := none
  task := none
  clock := none
  cron := none
  react := none

/-- There a skill tool may be named `exec`, but none replaces `task`. -/
theorem buildRegistry_consistent_noCommands : ∃ built,
    processFactory.buildRegistry noCommands [.skill, .other "exec", .other "task"] = .ok built ∧
      (Consistent built [.withoutNames removedFromAgent, .withAsyncDisabled]
          (built.applyAll [.withoutNames removedFromAgent, .withAsyncDisabled]) ∧
        (∀ name ∈ noCommands.enabledToolNames, ∃ entry,
          processFactory.builtinEntry noCommands name = .ok entry ∧ built.get name = some entry) ∧
        ∀ name, name ∉ noCommands.enabledToolNames →
          built.get name = ([DirectTool.skill, .other "exec", .other "task"].find?
            fun tool => tool.name = name).map skillEntry) := by
  have hsearch : noCommands.webSearchToRuntime = .ok () := rfl
  obtain ⟨built, h⟩ := exists_buildRegistry_process [.skill, .other "exec", .other "task"] hsearch
  rw [processFactory_eq] at h ⊢
  exact ⟨built, h, buildRegistry_consistent h [.withoutNames removedFromAgent, .withAsyncDisabled]⟩

/-- **What a delegated run gets is such a restriction** of the tools of its agent. -/
theorem delegatedToolRegistry_eq_restrict (config : AgentRuntimeConfig)
    (h : config.toolRegistry.Sound) :
    config.delegatedToolRegistry =
        config.toolRegistry.restrict removedFromAgent config.execEnabled ∧
      config.workerToolRegistry =
        config.toolRegistry.restrict removedFromWorker config.execEnabled := by
  have hrestricted : ∀ names : List Text,
      (config.toolRegistry.withoutNames names).withAsyncDisabledIf config.execEnabled =
        config.toolRegistry.restrict names config.execEnabled := by
    intro names
    rw [h.withoutNames_eq_restrict]
    cases config.execEnabled with
    | true =>
        show (config.toolRegistry.restrict names false).withAsyncDisabled = _
        rw [AgentToolRegistry.withAsyncDisabled_eq_restrict, AgentToolRegistry.restrict_restrict,
          List.append_nil, Bool.false_or]
    | false => rfl
  exact ⟨hrestricted removedFromAgent, hrestricted removedFromWorker⟩

end Invoke
end SimpleClaw
