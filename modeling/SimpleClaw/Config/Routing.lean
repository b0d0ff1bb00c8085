import SimpleClaw.Lib.Text

/-!
# The routing configuration

Which agent answers a channel, who may invoke it and whether it must be mentioned is configured
at several levels, each overriding the fields it sets.  A map of the configuration is the list
of its entries.

* `RoutingConfig.resolve`: the policy of a channel.
-/

namespace SimpleClaw
namespace Config

/-- The kinds of channels. -/
inductive GatewayChannelKind where
  | discord
  deriving DecidableEq

/-- The fields one level sets. -/
structure InboundPolicyConfig where
  agent : Option Text
  allowFrom : Option (List Text)
  requireMentions : Option Bool
  deriving DecidableEq

def InboundPolicyConfig.default : InboundPolicyConfig := ⟨none, none, none⟩

structure WorkspaceRoutingConfig where
  defaults : InboundPolicyConfig
  channels : List (Text × InboundPolicyConfig)
  deriving DecidableEq

structure ChannelRoutingConfig where
  defaults : InboundPolicyConfig
  dm : InboundPolicyConfig
  workspaces : List (Text × WorkspaceRoutingConfig)
  deriving DecidableEq

structure RoutingConfig where
  defaults : InboundPolicyConfig
  channels : List (GatewayChannelKind × ChannelRoutingConfig)
  deriving DecidableEq

/-- What the levels come to. -/
structure InboundPolicy where
  agent : Text
  allowFrom : Option (List Text)
  requireMentions : Bool
  deriving DecidableEq

def defaultAgentId : Text := "default"

def RoutingConfig.default : RoutingConfig :=
  ⟨{ InboundPolicyConfig.default with agent := some defaultAgentId }, []⟩

/-- The fields a lower level sets replace those of the upper ones. -/
def InboundPolicyConfig.applyOverride (upper lower : InboundPolicyConfig) :
    InboundPolicyConfig where
  agent := lower.agent.or upper.agent
  allowFrom := lower.allowFrom.or upper.allowFrom
  requireMentions := lower.requireMentions.or upper.requireMentions

/-- Direct messages need no mention. -/
def InboundPolicyConfig.finalize (config : InboundPolicyConfig) (isDm : Bool) : InboundPolicy where
  agent := config.agent.getD defaultAgentId
  allowFrom := config.allowFrom
  requireMentions := if isDm then false else config.requireMentions.getD false

def RoutingConfig.resolve (config : RoutingConfig) (sourceChannel : GatewayChannelKind)
    (workspaceId : Option Text) (channelId : Text) (isDm : Bool) : InboundPolicy :=
  match config.channels.lookup sourceChannel with
  | none => config.defaults.finalize isDm
  | some channelScope =>
      let effective := config.defaults.applyOverride channelScope.defaults
      if isDm then (effective.applyOverride channelScope.dm).finalize true
      else
        match workspaceId.bind fun id => channelScope.workspaces.lookup id with
        | none => effective.finalize false
        | some workspace =>
            let effective := effective.applyOverride workspace.defaults
            match workspace.channels.lookup channelId with
            | none => effective.finalize false
            | some channel => (effective.applyOverride channel).finalize false

def InboundPolicy.allowsUser (policy : InboundPolicy) (userId : Text) : Bool :=
  match policy.allowFrom with
  | some ids => ids.any (· == userId)
  | none => true

end Config
end SimpleClaw
