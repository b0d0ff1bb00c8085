import SimpleClaw.Config.Validate
import SimpleClaw.Gateway.RoutingLevels

/-!
# The agents messages are routed to

Loading a configuration checks that the default agent exists, and sees to it that the top level
of the routing names an agent.  That the agents named at the levels of the routing exist is not
checked, and the name is trimmed only when a message is classified.

* `RoutesToConfigured`: the agent is one of the configured ones.
* `StandsForConfigured`: the name a message comes to, as it was configured, is the id of one.
* `routesToConfigured_iff`: for an accepted configuration the two agree on every message.
-/

namespace SimpleClaw
namespace Gateway

open Config Layers

/-- The agent a message is taken in for, if any, is one of the configured ones. -/
def RoutesToConfigured (config : GlobalConfig) (kind : GatewayChannelKind)
    (inbound : ChannelInbound) : Prop :=
  ∀ agentId, classifyInbound config.gateway.routing kind inbound = .invoke agentId ∨
      classifyInbound config.gateway.routing kind inbound = .contextOnly agentId →
    ∃ agent ∈ config.agents.list, agent.id = agentId

/-- The sender of a direct message is not on the list that is in force for it. -/
def DeniedDm (config : RoutingConfig) (kind : GatewayChannelKind) (inbound : ChannelInbound) :
    Prop :=
  inbound.isDm = true ∧
    ∃ users, mostSpecific (fun level => level.allowFrom) (chainLevels config kind inbound) =
      some users ∧ inbound.userId ∉ users

/-- The name, trimmed, is the id of an agent. -/
def NamesAgent (agents : AgentsConfig) (name : Text) : Prop :=
  ∃ agent ∈ agents.list, agent.id = name.trim

/-- What the top level of the routing stands for.  No name and a blank one stand for the default
agent, and so does the name of the built-in agent where there is none of that id. -/
def topAgent (config : GlobalConfig) : Text :=
  match config.gateway.routing.defaults.agent with
  | none => config.agents.default
  | some name =>
      if name.trim = [] ∨ (name.trim = defaultAgentId ∧ config.agents.hasId defaultAgentId = false)
      then config.agents.default
      else name

/-- The most specific name for the message names an agent: one of a level below the top, or else
that of the top level. -/
def StandsForConfigured (config : GlobalConfig) (kind : GatewayChannelKind)
    (inbound : ChannelInbound) : Prop :=
  DeniedDm config.gateway.routing kind inbound ∨
    NamesAgent config.agents
      ((mostSpecific (fun level => level.agent)
        (chainLevels config.gateway.routing kind inbound).tail).getD (topAgent config))

/-! ## The decision on a message -/

section Decision

variable {config : RoutingConfig} {kind : GatewayChannelKind} {inbound : ChannelInbound}

/-- A message is dropped if it is a direct one of a sender that is not on the list. -/
theorem classifyInbound_eq_drop_iff :
    classifyInbound config kind inbound = .drop ↔ DeniedDm config kind inbound := by
  have hallowed : (policyOf config kind inbound).allowsUser inbound.userId = false ↔
      ∃ users, mostSpecific (fun level => level.allowFrom) (chainLevels config kind inbound) =
        some users ∧ inbound.userId ∉ users := by
    rw [InboundPolicy.allowsUser, allowFrom_policyOf]
    cases mostSpecific (fun level => level.allowFrom) (chainLevels config kind inbound) with
    | none => simp
    | some users =>
        have hmem : (users.any fun id => id == inbound.userId) = false ↔
            inbound.userId ∉ users := by
          rw [List.any_eq_false]
          exact ⟨fun h hin => h _ hin (beq_self_eq_true _),
            fun h id hid heq => h (eq_of_beq heq ▸ hid)⟩
        rw [hmem]
        simp
  rw [DeniedDm, ← hallowed, classifyInbound_eq]
  cases hdm : inbound.isDm with
  | false => split_ifs <;> simp_all
  | true =>
      have hmentions : (policyOf config kind inbound).requireMentions = false := by
        rw [requireMentions_policyOf, hdm, if_pos rfl]
      cases (policyOf config kind inbound).allowsUser inbound.userId <;> simp [hmentions]

/-- One that is not dropped goes to the agent of its policy, with the name trimmed. -/
theorem classifyInbound_routes_iff {agentId : Text} :
    (classifyInbound config kind inbound = .invoke agentId ∨
        classifyInbound config kind inbound = .contextOnly agentId) ↔
      ¬ DeniedDm config kind inbound ∧
        agentId = (policyOf config kind inbound).agent.trim := by
  rw [← classifyInbound_eq_drop_iff, classifyInbound_eq]
  split_ifs <;> simp [eq_comm]

end Decision

/-! ## The routing of an accepted configuration -/

section Reconcile

variable (routing : RoutingConfig) (agents : AgentsConfig)

/-- Only the name at the top level is ever replaced. -/
theorem exists_reconcile_eq :
    ∃ agent, reconcileRoutingDefaultAgent routing agents =
      { routing with defaults := { routing.defaults with agent } } := by
  unfold reconcileRoutingDefaultAgent
  cases hagent : routing.defaults.agent with
  | none => exact ⟨_, rfl⟩
  | some name =>
      have hsame : routing = { routing with defaults := { routing.defaults with agent := name } } :=
        by rw [← hagent]
      simp only
      split_ifs
      · exact ⟨_, rfl⟩
      · exact ⟨_, hsame⟩
      · exact ⟨_, hsame⟩
      · exact ⟨_, rfl⟩
      · exact ⟨_, hsame⟩

/-- The levels below the top do not depend on the top. -/
theorem chainLevels_tail_congr {config config' : RoutingConfig}
    (h : config'.channels = config.channels) (kind : GatewayChannelKind)
    (inbound : ChannelInbound) :
    (chainLevels config' kind inbound).tail = (chainLevels config kind inbound).tail := by
  refine List.map_congr_left fun level hlevel => ?_
  cases level with
  | defaults =>
      -- the top is not on the rest of the chain
      simp only [List.mem_cons, reduceCtorEq, false_or] at hlevel
      split at hlevel
      · simp at hlevel
      · split at hlevel <;> simp at hlevel
  | channelDefaults kind => rw [levelAt, levelAt, h]
  | dm kind => rw [levelAt, levelAt, h]
  | workspaceDefaults kind workspaceId => rw [levelAt, levelAt, workspaceAt, workspaceAt, h]
  | workspaceChannel kind workspaceId channelId =>
      rw [levelAt, levelAt, workspaceAt, workspaceAt, h]

end Reconcile

section Loaded

variable {parsed loaded : GlobalConfig} {workspaceOverride : Option Text}

/-- After loading, the top level names what it stands for. -/
theorem agent_of_load (h : LoadedConfig.load parsed workspaceOverride = .ok loaded) :
    loaded.gateway.routing.defaults.agent = some (topAgent parsed) := by
  obtain ⟨hdefault, hids, hhas, hrouting, -⟩ := load_ok h
  rw [hrouting, topAgent]
  unfold reconcileRoutingDefaultAgent
  cases hagent : parsed.gateway.routing.defaults.agent with
  | none => simp [hdefault]
  | some name =>
      simp only [hids, ← hdefault]
      by_cases hblank : name.trim = []
      · simp only [hblank, if_true, true_or]
      · by_cases hlegacy : name.trim = defaultAgentId
        · cases hexists : parsed.agents.hasId defaultAgentId with
          | true =>
              rw [if_neg hblank, if_neg (not_not_intro hlegacy), if_pos rfl, hagent]
              simp [hblank]
          | false =>
              rw [hids] at hhas
              rw [if_neg hblank, if_neg (not_not_intro hlegacy), if_neg nofun, if_pos hhas]
              simp [hlegacy]
        · rw [if_neg hblank, if_pos hlegacy, hagent]
          simp [hblank, hlegacy]

/-- The agent of a message under the loaded configuration. -/
theorem agent_policyOf_of_load (h : LoadedConfig.load parsed workspaceOverride = .ok loaded)
    (kind : GatewayChannelKind) (inbound : ChannelInbound) :
    (policyOf loaded.gateway.routing kind inbound).agent =
      (mostSpecific (fun level => level.agent)
        (chainLevels parsed.gateway.routing kind inbound).tail).getD (topAgent parsed) := by
  obtain ⟨agent, hreconcile⟩ := exists_reconcile_eq parsed.gateway.routing loaded.agents
  have htail : (chainLevels loaded.gateway.routing kind inbound).tail =
      (chainLevels parsed.gateway.routing kind inbound).tail := by
    refine chainLevels_tail_congr ?_ kind inbound
    rw [(load_ok h).2.2.2.1, hreconcile]
  rw [agent_policyOf, chainLevels_eq_cons, mostSpecific_cons, agent_of_load h, htail]
  cases mostSpecific (fun level => level.agent)
    (chainLevels parsed.gateway.routing kind inbound).tail <;> rfl

/-- Loading changes no list of allowed senders. -/
theorem deniedDm_iff_of_load (h : LoadedConfig.load parsed workspaceOverride = .ok loaded)
    (kind : GatewayChannelKind) (inbound : ChannelInbound) :
    DeniedDm loaded.gateway.routing kind inbound ↔
      DeniedDm parsed.gateway.routing kind inbound := by
  obtain ⟨agent, hreconcile⟩ := exists_reconcile_eq parsed.gateway.routing loaded.agents
  have hrouting := (load_ok h).2.2.2.1
  rw [hreconcile] at hrouting
  have htail : (chainLevels loaded.gateway.routing kind inbound).tail =
      (chainLevels parsed.gateway.routing kind inbound).tail :=
    chainLevels_tail_congr (by rw [hrouting]) kind inbound
  rw [DeniedDm, DeniedDm, chainLevels_eq_cons, mostSpecific_cons, htail,
    chainLevels_eq_cons parsed.gateway.routing, mostSpecific_cons, hrouting]
  rfl

/-- **An accepted configuration routes a message to a configured agent only if and only if the
sender is a denied one of a direct message, or the most specific name for it is, trimmed, the id
of an agent.** -/
theorem routesToConfigured_iff (h : LoadedConfig.load parsed workspaceOverride = .ok loaded)
    (kind : GatewayChannelKind) (inbound : ChannelInbound) :
    RoutesToConfigured loaded kind inbound ↔ StandsForConfigured parsed kind inbound := by
  have hids : ∀ id, (∃ agent ∈ loaded.agents.list, agent.id = id) ↔
      ∃ agent ∈ parsed.agents.list, agent.id = id := by
    intro id
    rw [← AgentsConfig.hasId_iff, ← AgentsConfig.hasId_iff, (load_ok h).2.1]
  simp only [RoutesToConfigured, classifyInbound_routes_iff, StandsForConfigured, NamesAgent, hids,
    deniedDm_iff_of_load h, ← agent_policyOf_of_load h]
  by_cases hdenied : DeniedDm parsed.gateway.routing kind inbound
  · simp [hdenied]
  · simp [hdenied]

end Loaded

/-! ## A configuration with a name that is none -/

/-- One agent, and an agent for the channels of Discord. -/
def discordConfig (agent : Option Text) : GlobalConfig where
  providers := ⟨"default", [("default", .gemini "gemini-2.0-flash"
    "https://generativelanguage.googleapis.com/v1beta")]⟩
  executionEnv := []
  gateway :=
    { channels := [(.discord, ⟨true⟩)]
      routing := { RoutingConfig.default with
        channels := [(.discord, ⟨{ InboundPolicyConfig.default with agent }, .default, []⟩)] } }
  agents :=
    { default := "researcher"
      list := [⟨"researcher", "Researcher", "./personas/researcher", "./workspace", none,
        .default⟩] }

/-- With nothing named for the channels, the default agent gets the message. -/
theorem routesToConfigured_unnamed : ∃ loaded,
    LoadedConfig.load (discordConfig none) none = .ok loaded ∧
      RoutesToConfigured loaded .discord helloInbound := by
  obtain ⟨loaded, hload⟩ : ∃ loaded, LoadedConfig.load (discordConfig none) none = .ok loaded :=
    ⟨_, rfl⟩
  have hnames : StandsForConfigured (discordConfig none) .discord helloInbound :=
    Or.inr ⟨_, List.mem_singleton_self _, by decide⟩
  exact ⟨loaded, hload, (routesToConfigured_iff hload .discord helloInbound).mpr hnames⟩

/-- A configuration that names an agent it does not have is accepted, and the message goes to
the agent that does not exist. -/
theorem unknown_agent_accepted :
    ¬ ∀ parsed loaded : GlobalConfig, LoadedConfig.load parsed none = .ok loaded →
      ∀ kind inbound, RoutesToConfigured loaded kind inbound := by
  intro hall
  obtain ⟨agent, hagent, hid⟩ :=
    hall (discordConfig (some ("reviewer" : Text))) _ rfl .discord helloInbound "reviewer"
      (Or.inl (by decide))
  obtain rfl := List.mem_singleton.mp hagent
  exact absurd hid (by decide)

end Gateway
end SimpleClaw
