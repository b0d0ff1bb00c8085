import SimpleClaw.Gateway.Listener
import SimpleClaw.Lib.Layers

/-!
# The levels of the routing configuration

`RoutingConfig.resolve` walks down the maps of the configuration and merges what it finds.  Seen
from a message, the configuration is a chain of levels, each with an address; a level that is not
there sets nothing.

* `RoutingConfig.levelAt`: what the configuration sets at an address.
* `routingChain`: the addresses a message passes, from the most general one down.
* `resolve_eq_finalize`: the policy of a message is the levels of its chain, merged in turn.
* `routing_most_specific_and_local`: the most specific level wins in every field, a sender the
  policy does not allow invokes nothing, and no level off the chain matters.
-/

namespace SimpleClaw
namespace Gateway

open Config Layers

/-- An address in the routing configuration at which the fields of a policy can be set. -/
inductive RoutingLevel where
  | defaults
  | channelDefaults (kind : GatewayChannelKind)
  | dm (kind : GatewayChannelKind)
  | workspaceDefaults (kind : GatewayChannelKind) (workspaceId : Text)
  | workspaceChannel (kind : GatewayChannelKind) (workspaceId channelId : Text)
  deriving DecidableEq

/-- The workspace configured under the id. -/
def workspaceAt (config : RoutingConfig) (kind : GatewayChannelKind) (workspaceId : Text) :
    Option WorkspaceRoutingConfig :=
  (config.channels.lookup kind).bind fun channelScope => channelScope.workspaces.lookup workspaceId

/-- What the configuration sets at the address. -/
def levelAt (config : RoutingConfig) : RoutingLevel → InboundPolicyConfig
  | .defaults => config.defaults
  | .channelDefaults kind =>
      ((config.channels.lookup kind).map fun channelScope => channelScope.defaults).getD .default
  | .dm kind =>
      ((config.channels.lookup kind).map fun channelScope => channelScope.dm).getD .default
  | .workspaceDefaults kind workspaceId =>
      ((workspaceAt config kind workspaceId).map fun workspace => workspace.defaults).getD .default
  | .workspaceChannel kind workspaceId channelId =>
      ((workspaceAt config kind workspaceId).bind fun workspace =>
        workspace.channels.lookup channelId).getD .default

/-- The addresses of a message, from the most general to the most specific one. -/
def routingChain (kind : GatewayChannelKind) (inbound : ChannelInbound) : List RoutingLevel :=
  .defaults :: .channelDefaults kind ::
    (if inbound.isDm then [.dm kind]
    else
      match inbound.guildId with
      | none => []
      | some workspaceId =>
          [.workspaceDefaults kind workspaceId,
            .workspaceChannel kind workspaceId inbound.channelId])

/-- What the configuration sets along the chain of a message. -/
def chainLevels (config : RoutingConfig) (kind : GatewayChannelKind) (inbound : ChannelInbound) :
    List InboundPolicyConfig :=
  (routingChain kind inbound).map (levelAt config)

/-- The policy of a message. -/
def policyOf (config : RoutingConfig) (kind : GatewayChannelKind) (inbound : ChannelInbound) :
    InboundPolicy :=
  config.resolve kind inbound.guildId inbound.channelId inbound.isDm

/-! ## Resolving is merging -/

@[simp] theorem applyOverride_default (upper : InboundPolicyConfig) :
    upper.applyOverride .default = upper := by
  cases upper
  rfl

theorem agent_applyOverride (upper lower : InboundPolicyConfig) :
    (upper.applyOverride lower).agent = lower.agent.or upper.agent := rfl

theorem allowFrom_applyOverride (upper lower : InboundPolicyConfig) :
    (upper.applyOverride lower).allowFrom = lower.allowFrom.or upper.allowFrom := rfl

theorem requireMentions_applyOverride (upper lower : InboundPolicyConfig) :
    (upper.applyOverride lower).requireMentions =
      lower.requireMentions.or upper.requireMentions := rfl

/-- **The policy is that of the levels of the chain, merged from the most general one down.** -/
theorem resolve_eq_finalize (config : RoutingConfig) (kind : GatewayChannelKind)
    (inbound : ChannelInbound) :
    policyOf config kind inbound =
      (((chainLevels config kind inbound).tail.foldl InboundPolicyConfig.applyOverride
        config.defaults).finalize inbound.isDm) := by
  unfold policyOf RoutingConfig.resolve chainLevels routingChain
  cases hscope : config.channels.lookup kind with
  | none =>
      -- every level below the top is absent
      cases hdm : inbound.isDm with
      | true => simp [levelAt, hscope]
      | false => cases inbound.guildId <;> simp [levelAt, workspaceAt, hscope]
  | some channelScope =>
      cases hdm : inbound.isDm with
      | true => simp [levelAt, hscope]
      | false =>
          cases inbound.guildId with
          | none => simp [levelAt, hscope]
          | some workspaceId =>
              cases hworkspace : channelScope.workspaces.lookup workspaceId with
              | none => simp [levelAt, workspaceAt, hscope, hworkspace]
              | some workspace =>
                  cases hchannel : workspace.channels.lookup inbound.channelId <;>
                    simp [levelAt, workspaceAt, hscope, hworkspace, hchannel]

/-- The chain starts at the top of the configuration. -/
theorem chainLevels_eq_cons (config : RoutingConfig) (kind : GatewayChannelKind)
    (inbound : ChannelInbound) :
    chainLevels config kind inbound =
      config.defaults :: (chainLevels config kind inbound).tail := rfl

section Fields

variable (config : RoutingConfig) (kind : GatewayChannelKind) (inbound : ChannelInbound)

/-- The agent of the policy is the most specific one. -/
theorem agent_policyOf :
    (policyOf config kind inbound).agent =
      (mostSpecific (fun level => level.agent) (chainLevels config kind inbound)).getD
        defaultAgentId := by
  rw [resolve_eq_finalize, chainLevels_eq_cons, ← field_foldl agent_applyOverride]
  rfl

/-- So is the list of the users it allows. -/
theorem allowFrom_policyOf :
    (policyOf config kind inbound).allowFrom =
      mostSpecific (fun level => level.allowFrom) (chainLevels config kind inbound) := by
  rw [resolve_eq_finalize, chainLevels_eq_cons, ← field_foldl allowFrom_applyOverride]
  rfl

/-- So is what it requires of mentions, outside of direct messages. -/
theorem requireMentions_policyOf :
    (policyOf config kind inbound).requireMentions =
      if inbound.isDm then false
      else (mostSpecific (fun level => level.requireMentions)
        (chainLevels config kind inbound)).getD false := by
  rw [resolve_eq_finalize, chainLevels_eq_cons, ← field_foldl requireMentions_applyOverride]
  rfl

/-- The decision, by the policy of the message. -/
theorem classifyInbound_eq :
    classifyInbound config kind inbound =
      if (policyOf config kind inbound).allowsUser inbound.userId ∧
          ((policyOf config kind inbound).requireMentions = false ∨ inbound.mentionedBot = true)
      then .invoke (policyOf config kind inbound).agent.trim
      else if inbound.isDm then .drop
      else .contextOnly (policyOf config kind inbound).agent.trim := rfl

/-- A sender the policy does not allow only leaves context, and none in a direct message. -/
theorem classifyInbound_of_not_allowed
    (h : (policyOf config kind inbound).allowsUser inbound.userId = false) :
    classifyInbound config kind inbound =
      if inbound.isDm then .drop else .contextOnly (policyOf config kind inbound).agent.trim := by
  rw [classifyInbound_eq, if_neg]
  rintro ⟨hallowed, -⟩
  rw [h] at hallowed
  cases hallowed

end Fields

/-- **Locality.**  Configurations that agree along the chain of a message give it one policy. -/
theorem policyOf_congr {config config' : RoutingConfig} {kind : GatewayChannelKind}
    {inbound : ChannelInbound}
    (h : ∀ level ∈ routingChain kind inbound, levelAt config' level = levelAt config level) :
    policyOf config' kind inbound = policyOf config kind inbound := by
  have hlevels : chainLevels config' kind inbound = chainLevels config kind inbound :=
    List.map_congr_left h
  have hdefaults : config'.defaults = config.defaults := by
    rw [chainLevels_eq_cons, chainLevels_eq_cons config] at hlevels
    exact (List.cons.inj hlevels).1
  rw [resolve_eq_finalize, resolve_eq_finalize, hlevels, hdefaults]

/-! ## The routing of a message -/

/-- **Routing takes every field from the most specific level of the chain that sets it; a sender
the policy does not allow never invokes an agent, and is dropped in a direct message; and levels
off the chain change neither the policy nor the decision.** -/
theorem routing_most_specific_and_local (config : RoutingConfig) (kind : GatewayChannelKind)
    (inbound : ChannelInbound) :
    MostSpecificWins (fun level => level.agent) (chainLevels config kind inbound) defaultAgentId
        (policyOf config kind inbound).agent ∧
      (MostSpecificWins (fun level => level.allowFrom.map some) (chainLevels config kind inbound)
        none (policyOf config kind inbound).allowFrom) ∧
      (inbound.isDm = false →
        MostSpecificWins (fun level => level.requireMentions) (chainLevels config kind inbound)
          false (policyOf config kind inbound).requireMentions) ∧
      (inbound.isDm = true → (policyOf config kind inbound).requireMentions = false) ∧
      ((policyOf config kind inbound).allowsUser inbound.userId = false →
        (∀ agentId, classifyInbound config kind inbound ≠ .invoke agentId) ∧
        (inbound.isDm = true → classifyInbound config kind inbound = .drop)) ∧
      ∀ config' : RoutingConfig,
        (∀ level ∈ routingChain kind inbound, levelAt config' level = levelAt config level) →
          policyOf config' kind inbound = policyOf config kind inbound ∧
            classifyInbound config' kind inbound = classifyInbound config kind inbound := by
  refine ⟨mostSpecificWins_iff.mpr (agent_policyOf config kind inbound), ?_, ?_, ?_, ?_, ?_⟩
  · rw [mostSpecificWins_iff, mostSpecific_map, allowFrom_policyOf]
    cases mostSpecific (fun level => level.allowFrom) (chainLevels config kind inbound) <;> rfl
  · intro hdm
    rw [mostSpecificWins_iff, requireMentions_policyOf, hdm]
    rfl
  · intro hdm
    rw [requireMentions_policyOf, hdm]
    rfl
  · intro hallowed
    rw [classifyInbound_of_not_allowed config kind inbound hallowed]
    refine ⟨fun agentId => ?_, fun hdm => if_pos hdm⟩
    split
    · exact nofun
    · exact nofun
  · intro config' hagree
    have hpolicy : policyOf config' kind inbound = policyOf config kind inbound :=
      policyOf_congr hagree
    exact ⟨hpolicy, by rw [classifyInbound_eq, classifyInbound_eq, hpolicy]⟩

end Gateway
end SimpleClaw
