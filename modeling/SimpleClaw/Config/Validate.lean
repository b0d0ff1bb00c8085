import SimpleClaw.Config.Routing
import SimpleClaw.Error

/-!
# Loading a configuration

A configuration that is parsed, with its secrets resolved and its directories normalised, is
checked before anything runs on it; on the way the name of the agent that messages go to by
default may be replaced.  Of the configuration there is here what these checks read.  A map is
the list of its entries in the order in which it is gone through, so which of several faults is
reported first may differ from one load to the next.

* `LoadedConfig.load`: the checks in their order.
* `reconcileRoutingDefaultAgent`: the replacement.
* `load_ok`: what the agents and the routing of an accepted configuration are.
-/

namespace SimpleClaw
namespace Config

/-! ## The configuration -/

/-- A tool with a time limit. -/
structure TimedToolConfig where
  timeoutSeconds : Option Nat
  deriving DecidableEq

structure MemoryToolConfig where
  defaultTopK : Option Nat
  maxTopK : Option Nat
  deriving DecidableEq

inductive WebSearchProvider where
  | brave
  | duckduckgo
  deriving DecidableEq

structure WebSearchToolConfig where
  enabled : Bool
  provider : WebSearchProvider
  apiKey : Option Text
  timeoutSeconds : Option Nat
  deriving DecidableEq

structure WebFetchToolConfig where
  timeoutSeconds : Option Nat
  maxChars : Option Nat
  deriving DecidableEq

/-- The tools whose settings are checked. -/
structure ToolsConfig where
  memory : Option MemoryToolConfig
  webSearch : Option WebSearchToolConfig
  webFetch : Option WebFetchToolConfig
  read : Option TimedToolConfig
  edit : Option TimedToolConfig
  glob : Option TimedToolConfig
  grep : Option TimedToolConfig
  list : Option TimedToolConfig
  exec : Option TimedToolConfig
  deriving DecidableEq

def ToolsConfig.default : ToolsConfig := ⟨none, none, none, none, none, none, none, none, none⟩

/-- An agent; `executionEnv` are the names of the variables it sets, if it sets any. -/
structure AgentEntryConfig where
  id : Text
  name : Text
  persona : Text
  workspace : Text
  executionEnv : Option (List Text)
  tools : ToolsConfig
  deriving DecidableEq

structure AgentsConfig where
  default : Text
  list : List AgentEntryConfig
  deriving DecidableEq

inductive ProviderAuthMode where
  | apiKey
  | oauth
  deriving DecidableEq

inductive ProviderEntryConfig where
  | gemini (model apiBase : Text)
  | moonshot (model apiBase : Text) (mode : ProviderAuthMode) (apiKey : Option Text)
  | openAiCodex (model : Text)
  deriving DecidableEq

structure ProvidersConfig where
  default : Text
  entries : List (Text × ProviderEntryConfig)
  deriving DecidableEq

structure ChannelConfig where
  enabled : Bool
  deriving DecidableEq

structure GatewayConfig where
  channels : List (GatewayChannelKind × ChannelConfig)
  routing : RoutingConfig
  deriving DecidableEq

/-- The configuration; `executionEnv` are the names of the variables set for every agent. -/
structure GlobalConfig where
  providers : ProvidersConfig
  executionEnv : List Text
  gateway : GatewayConfig
  agents : AgentsConfig
  deriving DecidableEq

def GatewayChannelKind.asStr : GatewayChannelKind → Text
  | .discord => "discord"

/-! ## The checks -/

/-- What a check comes to. -/
abbrev Checked := Except FrameworkError Unit

/-- The configuration is rejected in the case given. -/
def rejectIf (c : Prop) [Decidable c] (message : Text) : Checked :=
  if c then .error (.config message) else .ok ()

/-- Every entry of a map is checked. -/
def checkEach {α : Type} (check : α → Checked) : List α → Checked
  | [] => .ok ()
  | entry :: entries => do
      check entry
      checkEach check entries

def isValidEnvName : Text → Bool
  | [] => false
  | c :: rest =>
      (c.isAlpha || c == '_') && rest.all fun c => c.isAlphanum || c == '_'

def validateExecutionEnv (fieldPath : Text) (env : Option (List Text)) : Checked :=
  checkEach (fun key => rejectIf (isValidEnvName key = false)
    (fieldPath ++ ("." : Text) ++ key ++
      (" is invalid; expected env key matching [A-Za-z_][A-Za-z0-9_]*" : Text))) (env.getD [])

/-- The path of a field of an agent. -/
def agentPath (agentId field : Text) : Text :=
  ("agents.list[" : Text) ++ agentId ++ ("]." : Text) ++ field

def validateAgentPath (agentId field path : Text) : Checked :=
  rejectIf (path = [] ∨ path.trim = []) (agentPath agentId field ++ (" must be non-empty" : Text))

/-- The check of a number that must not be zero where it is given. -/
def validateOptionalNonzero (agentId field : Text) (value : Option Nat) : Checked :=
  rejectIf (value = some 0) (agentPath agentId (("config." : Text) ++ field) ++
    (" must be > 0 when provided" : Text))

def validateOptionalNonzeroU32 (agentId field : Text) (value : Option Nat) : Checked :=
  validateOptionalNonzero agentId field value

def validateOptionalNonzeroU64 (agentId field : Text) (value : Option Nat) : Checked :=
  validateOptionalNonzero agentId field value

/-- The check of a tool with a time limit. -/
def validateTimedTool (agentId field : Text) (tool : Option TimedToolConfig) : Checked :=
  validateOptionalNonzeroU64 agentId field (tool.bind fun tool => tool.timeoutSeconds)

def validateWebSearch (agentId : Text) (webSearch : WebSearchToolConfig) : Checked := do
  validateOptionalNonzeroU64 agentId "tools.web_search.timeout_seconds" webSearch.timeoutSeconds
  match webSearch.provider with
  | .brave =>
      rejectIf (webSearch.enabled = true ∧ webSearch.apiKey = none)
        (agentPath agentId ("config.tools.web_search.api_key is required when " ++
          "tools.web_search.provider=brave and enabled=true" : String))
  | .duckduckgo =>
      rejectIf (webSearch.apiKey ≠ none)
        (agentPath agentId ("config.tools.web_search.api_key is not allowed when " ++
          "tools.web_search.provider=duckduckgo" : String))

def validateToolsConfig (agentId : Text) (tools : ToolsConfig) : Checked := do
  match tools.memory with
  | some memory =>
      validateOptionalNonzeroU32 agentId "tools.memory.default_top_k" memory.defaultTopK
      validateOptionalNonzeroU32 agentId "tools.memory.max_top_k" memory.maxTopK
  | none => pure ()
  match tools.webSearch with
  | some webSearch => validateWebSearch agentId webSearch
  | none => pure ()
  match tools.webFetch with
  | some webFetch =>
      validateOptionalNonzeroU64 agentId "tools.web_fetch.timeout_seconds" webFetch.timeoutSeconds
      validateOptionalNonzeroU32 agentId "tools.web_fetch.max_chars" webFetch.maxChars
  | none => pure ()
  validateTimedTool agentId "tools.read.timeout_seconds" tools.read
  validateTimedTool agentId "tools.edit.timeout_seconds" tools.edit
  validateTimedTool agentId "tools.glob.timeout_seconds" tools.glob
  validateTimedTool agentId "tools.grep.timeout_seconds" tools.grep
  validateTimedTool agentId "tools.list.timeout_seconds" tools.list
  validateTimedTool agentId "tools.exec.timeout_seconds" tools.exec

/-- The checks of one agent, after those of the agents with the ids given. -/
def validateAgentEntry (ids : List Text) (agent : AgentEntryConfig) : Checked := do
  rejectIf (agent.id.trim = []) "agents.list entries must have a non-empty id"
  rejectIf (agent.name.trim = []) "agents.list entries must have a non-empty name"
  rejectIf (agent.id ∈ ids) (("agents.list contains duplicate id: " : Text) ++ agent.id)
  validateAgentPath agent.id "persona" agent.persona
  validateAgentPath agent.id "workspace" agent.workspace
  validateExecutionEnv (agentPath agent.id "config.execution.env") agent.executionEnv
  validateToolsConfig agent.id agent.tools

/-- The loop over the agents, with the ids it has collected. -/
def validateAgentEntries (ids : List Text) :
    List AgentEntryConfig → Except FrameworkError (List Text)
  | [] => .ok ids
  | agent :: agents => do
      validateAgentEntry ids agent
      validateAgentEntries (agent.id :: ids) agents

/-- The default agent is missing. -/
def unknownDefault (agents : AgentsConfig) : Text :=
  ("agents.default '" : Text) ++ agents.default ++
    ("' does not match any agents.list id" : Text)

def validateAgentsConfig (agents : AgentsConfig) : Checked := do
  rejectIf (agents.list = []) "agents.list must include at least one agent"
  let ids ← validateAgentEntries [] agents.list
  rejectIf (agents.default ∉ ids) (unknownDefault agents)

/-- A text of a provider that must not be blank. -/
def validateProviderField (key field value : Text) : Checked :=
  rejectIf (value.trim = [])
    (("providers.entries." : Text) ++ key ++ ("." : Text) ++ field ++
      (" must be non-empty" : Text))

def validateMoonshotProvider (key model apiBase : Text) (mode : ProviderAuthMode)
    (apiKey : Option Text) : Checked := do
  validateProviderField key "model" model
  validateProviderField key "api_base" apiBase
  match mode with
  | .apiKey =>
      match apiKey with
      | none => .error (.config (("providers.entries." : Text) ++ key ++
          (".api_key is required when mode is api_key" : Text)))
      | some apiKey => rejectIf (apiKey.trim = []) (("providers.entries." : Text) ++ key ++
          (".api_key must be non-empty when mode is api_key" : Text))
  | .oauth => .error (.config (("providers.entries." : Text) ++ key ++
      (".mode oauth is not supported for kind moonshot" : Text)))

def ProviderEntryConfig.validate (key : Text) : ProviderEntryConfig → Checked
  | .gemini model apiBase => do
      validateProviderField key "model" model
      validateProviderField key "api_base" apiBase
  | .moonshot model apiBase mode apiKey => validateMoonshotProvider key model apiBase mode apiKey
  | .openAiCodex model => validateProviderField key "model" model

def validateProvidersConfig (providers : ProvidersConfig) : Checked := do
  rejectIf (providers.entries = []) "providers.entries must include at least one provider"
  rejectIf (providers.entries.lookup providers.default = none)
    (("providers.default '" : Text) ++ providers.default ++
      ("' does not match any providers.entries key" : Text))
  checkEach (fun entry => entry.2.validate entry.1) providers.entries

def validateGatewayConfig (gateway : GatewayConfig) : Checked :=
  rejectIf (gateway.channels = [] ∨ (gateway.channels.any fun entry => entry.2.enabled) = false)
    "gateway.channels must include at least one enabled channel"

def validateOptionalPolicyAgent (path : Text) (policy : InboundPolicyConfig) : Checked :=
  rejectIf (policy.agent.map Text.trim = some [])
    (path ++ (".agent must be non-empty when provided" : Text))

def validateWorkspaceRouting (path : Text) (workspace : WorkspaceRoutingConfig) : Checked := do
  validateOptionalPolicyAgent (path ++ (".defaults" : Text)) workspace.defaults
  checkEach (fun entry => validateOptionalPolicyAgent (path ++ (".channels." : Text) ++ entry.1)
    entry.2) workspace.channels

def validateChannelRouting (path : Text) (channel : ChannelRoutingConfig) : Checked := do
  validateOptionalPolicyAgent (path ++ (".defaults" : Text)) channel.defaults
  validateOptionalPolicyAgent (path ++ (".dm" : Text)) channel.dm
  checkEach (fun entry => validateWorkspaceRouting (path ++ (".workspaces." : Text) ++ entry.1)
    entry.2) channel.workspaces

def validateRoutingConfig (routing : RoutingConfig) : Checked := do
  rejectIf ((routing.defaults.agent.map Text.trim).getD [] = [])
    "gateway.routing.defaults.agent is required and must be non-empty"
  validateOptionalPolicyAgent "gateway.routing.defaults" routing.defaults
  checkEach (fun entry => validateChannelRouting
    (("gateway.routing.channels." : Text) ++ entry.1.asStr) entry.2) routing.channels

/-! ## The default agent of the routing -/

/-- Some agent has the id. -/
def AgentsConfig.hasId (agents : AgentsConfig) (id : Text) : Bool :=
  agents.list.any fun agent => agent.id == id

def reconcileRoutingDefaultAgent (routing : RoutingConfig) (agents : AgentsConfig) :
    RoutingConfig :=
  let replaced := { routing with defaults := { routing.defaults with agent := agents.default } }
  match routing.defaults.agent with
  | none => replaced
  | some currentAgentRaw =>
      let currentAgent := currentAgentRaw.trim
      if currentAgent = [] then replaced
      else if currentAgent ≠ defaultAgentId then routing
      else if agents.hasId defaultAgentId then routing
      else if agents.hasId agents.default then replaced
      else routing

/-! ## Loading -/

/-- The workspace given on the command line replaces that of the first agent with the id. -/
def setWorkspace (id workspace : Text) : List AgentEntryConfig → List AgentEntryConfig
  | [] => []
  | agent :: agents =>
      if agent.id = id then { agent with workspace } :: agents
      else agent :: setWorkspace id workspace agents

def overrideWorkspace (agents : AgentsConfig) :
    Option Text → Except FrameworkError AgentsConfig
  | none => .ok agents
  | some workspace =>
      if agents.hasId agents.default then
        .ok { agents with list := setWorkspace agents.default workspace agents.list }
      else .error (.config (unknownDefault agents))

/-- `load`, from the parsed configuration on. -/
def LoadedConfig.load (parsed : GlobalConfig) (workspaceOverride : Option Text) :
    Except FrameworkError GlobalConfig := do
  let agents ← overrideWorkspace parsed.agents workspaceOverride
  validateExecutionEnv "execution.defaults.env" (some parsed.executionEnv)
  validateProvidersConfig parsed.providers
  validateAgentsConfig agents
  let gateway :=
    { parsed.gateway with routing := reconcileRoutingDefaultAgent parsed.gateway.routing agents }
  validateGatewayConfig gateway
  validateRoutingConfig gateway.routing
  pure { parsed with agents, gateway }

/-! ## What an accepted configuration satisfies -/

theorem rejectIf_eq_ok_iff {c : Prop} [Decidable c] {message : Text} :
    rejectIf c message = .ok () ↔ ¬ c := by
  unfold rejectIf
  split
  next hc => exact iff_of_false nofun (not_not_intro hc)
  next hc => exact iff_of_true rfl hc

theorem AgentsConfig.hasId_iff {agents : AgentsConfig} {id : Text} :
    agents.hasId id = true ↔ ∃ agent ∈ agents.list, agent.id = id := by
  simp [AgentsConfig.hasId]

/-- The ids the loop collects are those of the agents it has gone through. -/
theorem mem_of_validateAgentEntries {entries : List AgentEntryConfig} {ids ids' : List Text}
    (h : validateAgentEntries ids entries = .ok ids') {id : Text} (hid : id ∈ ids') :
    id ∈ ids ∨ ∃ agent ∈ entries, agent.id = id := by
  induction entries generalizing ids with
  | nil =>
      cases h
      exact Or.inl hid
  | cons agent entries ih =>
      obtain ⟨-, -, h⟩ := bind_eq_ok_iff.mp h
      rcases ih h with hmem | ⟨a, ha, rfl⟩
      · rcases List.mem_cons.mp hmem with rfl | hmem
        · exact Or.inr ⟨agent, List.mem_cons_self, rfl⟩
        · exact Or.inl hmem
      · exact Or.inr ⟨a, List.mem_cons_of_mem agent ha, rfl⟩

/-- The default agent is one of the agents. -/
theorem hasId_default_of_validateAgentsConfig {agents : AgentsConfig}
    (h : validateAgentsConfig agents = .ok ()) : agents.hasId agents.default = true := by
  obtain ⟨-, -, h⟩ := bind_eq_ok_iff.mp h
  obtain ⟨ids, hids, h⟩ := bind_eq_ok_iff.mp h
  have hmem : agents.default ∈ ids := not_not.mp (rejectIf_eq_ok_iff.mp h)
  rcases mem_of_validateAgentEntries hids hmem with hnil | hagent
  · cases hnil
  · exact AgentsConfig.hasId_iff.mpr hagent

/-- Replacing a workspace leaves the ids alone. -/
theorem map_id_setWorkspace (id workspace : Text) (agents : List AgentEntryConfig) :
    (setWorkspace id workspace agents).map (fun agent => agent.id) =
      agents.map fun agent => agent.id := by
  induction agents with
  | nil => rfl
  | cons agent agents ih =>
      unfold setWorkspace
      split
      · rfl
      · rw [List.map_cons, List.map_cons, ih]

theorem hasId_eq_of_map_id {agents agents' : AgentsConfig}
    (h : agents'.list.map (fun agent => agent.id) = agents.list.map fun agent => agent.id)
    (id : Text) : agents'.hasId id = agents.hasId id := by
  have hany : ∀ list : List AgentEntryConfig,
      (list.any fun agent => agent.id == id) =
        (list.map fun agent => agent.id).any fun x => x == id := by
    intro list
    rw [List.any_map]
    rfl
  rw [AgentsConfig.hasId, AgentsConfig.hasId, hany, hany, h]

/-- The override changes neither the default agent nor the ids. -/
theorem overrideWorkspace_ok {agents agents' : AgentsConfig} {workspaceOverride : Option Text}
    (h : overrideWorkspace agents workspaceOverride = .ok agents') :
    agents'.default = agents.default ∧ ∀ id, agents'.hasId id = agents.hasId id := by
  cases workspaceOverride with
  | none =>
      cases h
      exact ⟨rfl, fun _ => rfl⟩
  | some workspace =>
      simp only [overrideWorkspace] at h
      split at h
      · cases h
        exact ⟨rfl, hasId_eq_of_map_id (map_id_setWorkspace _ _ _)⟩
      · cases h

/-- **What an accepted configuration is**: the default agent exists, and the routing is the given
one with its default agent replaced where that is due. -/
theorem load_ok {parsed loaded : GlobalConfig} {workspaceOverride : Option Text}
    (h : LoadedConfig.load parsed workspaceOverride = .ok loaded) :
    loaded.agents.default = parsed.agents.default ∧
      (∀ id, loaded.agents.hasId id = parsed.agents.hasId id) ∧
      loaded.agents.hasId loaded.agents.default = true ∧
      loaded.gateway.routing =
        reconcileRoutingDefaultAgent parsed.gateway.routing loaded.agents ∧
      validateRoutingConfig loaded.gateway.routing = .ok () := by
  obtain ⟨agents, hoverride, h⟩ := bind_eq_ok_iff.mp h
  obtain ⟨-, -, h⟩ := bind_eq_ok_iff.mp h
  obtain ⟨-, -, h⟩ := bind_eq_ok_iff.mp h
  obtain ⟨⟨⟩, hagents, h⟩ := bind_eq_ok_iff.mp h
  obtain ⟨-, -, h⟩ := bind_eq_ok_iff.mp h
  obtain ⟨⟨⟩, hrouting, h⟩ := bind_eq_ok_iff.mp h
  cases h
  obtain ⟨hdefault, hids⟩ := overrideWorkspace_ok hoverride
  exact ⟨hdefault, hids, hasId_default_of_validateAgentsConfig hagents, rfl, hrouting⟩

end Config
end SimpleClaw
