import Mathlib.Data.List.Forall2
import SimpleClaw.Gateway.Session
import SimpleClaw.Lib.Runs

/-!
# The inbound listener of a channel

The listener takes a message from the channel, routes it and puts it into the inbound queue.
Routing asks the session store for the session of the scope.  When the store fails, the listener
says that it is retrying, sleeps and listens again, for the next message: the one in its hand is
gone.

* `routeInbound`: the policy and the session of a message.
* `Listener.step`: one round of the loop.
* `Listener.Delivered`: what the policy admits is in the queue, in the order of arrival.
* `delivered_iff_sparesRouting`: so it is along a run if and only if no lookup of the store fails
  for a message the policy admits.
-/

namespace SimpleClaw
namespace Gateway

open Config Transition

/-- A message as the channel returns it. -/
structure ChannelInbound where
  messageId : Text
  channelId : Text
  guildId : Option Text
  isDm : Bool
  userId : Text
  username : Text
  mentionedBot : Bool
  content : Text
  deriving DecidableEq

/-- A message as it is put into the queue. -/
structure InboundMessage where
  traceId : Text
  sourceChannel : GatewayChannelKind
  targetAgentId : Text
  sessionKey : Text
  sourceMessageId : Option Text
  channelId : Text
  guildId : Option Text
  isDm : Bool
  userId : Text
  username : Text
  mentionedBot : Bool
  invoke : Bool
  content : Text
  deriving DecidableEq

/-! ## Routing -/

inductive InboundDecision where
  | drop
  | contextOnly (agentId : Text)
  | invoke (agentId : Text)
  deriving DecidableEq

/-- `classify_inbound`, in the context `evaluate_inbound_policy` makes of the message. -/
def classifyInbound (inboundPolicy : RoutingConfig) (kind : GatewayChannelKind)
    (inbound : ChannelInbound) : InboundDecision :=
  let policy := inboundPolicy.resolve kind inbound.guildId inbound.channelId inbound.isDm
  let agentId := policy.agent.trim
  if policy.allowsUser inbound.userId ∧
      (policy.requireMentions = false ∨ inbound.mentionedBot = true) then .invoke agentId
  else if inbound.isDm then .drop
  else .contextOnly agentId

/-- The agent a message goes to, and whether it invokes it. -/
def resolveRoute (kind : GatewayChannelKind) (inbound : ChannelInbound)
    (inboundPolicy : RoutingConfig) : Option (Text × Bool) :=
  match classifyInbound inboundPolicy kind inbound with
  | .drop => none
  | .contextOnly agentId => some (agentId, false)
  | .invoke agentId => some (agentId, true)

/-- The message with its route, its session and a trace id. -/
def inboundMessage (kind : GatewayChannelKind) (inbound : ChannelInbound) (route : Text × Bool)
    (sessionKey traceId : Text) : InboundMessage where
  traceId := traceId
  sourceChannel := kind
  targetAgentId := route.1
  sessionKey := sessionKey
  sourceMessageId := some inbound.messageId
  channelId := inbound.channelId
  guildId := inbound.guildId
  isDm := inbound.isDm
  userId := inbound.userId
  username := inbound.username
  mentionedBot := inbound.mentionedBot
  invoke := route.2
  content := inbound.content

/-- The scope a message belongs to, with its route. -/
def scopeKeyOf (kind : GatewayChannelKind) (inbound : ChannelInbound) (route : Text × Bool) :
    Text :=
  buildSessionScopeKey route.1 inbound.isDm kind inbound.channelId

/-- `route_inbound`, with the store afterwards. -/
def routeInbound (kind : GatewayChannelKind) (inbound : ChannelInbound)
    (inboundPolicy : RoutingConfig) (store : SessionStore) (faults : StoreFaults)
    (traceId : Text) : Except FrameworkError (Option InboundMessage) × SessionStore :=
  match resolveRoute kind inbound inboundPolicy with
  | none => (.ok none, store)
  | some route =>
      match store.currentOrCreate faults (scopeKeyOf kind inbound route) with
      | (.error e, store') => (.error e, store')
      | (.ok sessionKey, store') =>
          (.ok (some (inboundMessage kind inbound route sessionKey traceId)), store')

/-! ## The loop -/

/-- The listener with what the channel has returned and what is in the queue. -/
structure Listener where
  store : SessionStore
  listened : List ChannelInbound
  sent : List InboundMessage
  queueOpen : Bool
  running : Bool

/-- One round with a message, one in which the channel fails, and what happens elsewhere: a
session is rotated, or the receiver of the queue goes away. -/
inductive ListenerAction where
  | listened (inbound : ChannelInbound) (faults : StoreFaults) (traceId : Text)
  | listenFailed (error : FrameworkError)
  | rotated (scopeKey : Text) (faults : StoreFaults)
  | queueClosed

namespace Listener

variable (kind : GatewayChannelKind) (inboundPolicy : RoutingConfig)

/-- The listener is spawned. -/
def start (store : SessionStore) : Listener := ⟨store, [], [], true, true⟩

def step (s : Listener) : ListenerAction → Option Listener
  | .listened inbound faults traceId =>
      if s.running then
        match routeInbound kind inbound inboundPolicy s.store faults traceId with
        -- logged as retrying
        | (.error _, store) => some { s with store, listened := s.listened ++ [inbound] }
        | (.ok none, store) => some { s with store, listened := s.listened ++ [inbound] }
        | (.ok (some message), store) =>
            if s.queueOpen then
              some { s with store, listened := s.listened ++ [inbound],
                            sent := s.sent ++ [message] }
            else some { s with store, listened := s.listened ++ [inbound], running := false }
      else none
  | .listenFailed _ => if s.running then some s else none
  | .rotated scopeKey faults => some { s with store := (s.store.rotate faults scopeKey).2 }
  | .queueClosed => some { s with queueOpen := false }

/-- The policy does not reject the message. -/
def admits (inbound : ChannelInbound) : Bool := (resolveRoute kind inbound inboundPolicy).isSome

/-- The queued message is the one listened to, on its route. -/
def IsRouted (inbound : ChannelInbound) (message : InboundMessage) : Prop :=
  ∃ route sessionKey traceId, resolveRoute kind inbound inboundPolicy = some route ∧
    message = inboundMessage kind inbound route sessionKey traceId

/-- **No message is lost.**  While the queue is open, it has got every message the policy admits,
once, in the order of arrival. -/
def Delivered (s : Listener) : Prop :=
  s.queueOpen = true →
    List.Forall₂ (IsRouted kind inboundPolicy) (s.listened.filter (admits kind inboundPolicy))
      s.sent

/-- While the queue is open, the store does not fail on a message the policy admits. -/
def SparesRouting (s : Listener) (a : ListenerAction) : Prop :=
  ∀ inbound faults traceId route, a = .listened inbound faults traceId → s.queueOpen = true →
    resolveRoute kind inbound inboundPolicy = some route →
      faults.SparesLookup s.store (scopeKeyOf kind inbound route)

section Steps

variable {kind : GatewayChannelKind} {inboundPolicy : RoutingConfig}

/-- A queue is not opened again. -/
theorem queueOpen_of_step {s s' : Listener} {a : ListenerAction}
    (h : step kind inboundPolicy s a = some s') (hopen : s'.queueOpen = true) :
    s.queueOpen = true := by
  cases a with
  | listened inbound faults traceId =>
      simp only [step] at h
      split at h
      · split at h
        · cases h
          exact hopen
        · cases h
          exact hopen
        · split at h
          · cases h
            exact hopen
          · cases h
            exact hopen
      · cases h
  | listenFailed e =>
      simp only [step] at h
      split at h
      · cases h
        exact hopen
      · cases h
  | rotated scopeKey faults =>
      cases h
      exact hopen
  | queueClosed =>
      cases h
      cases hopen

/-- A round with a message the policy admits, while the queue is open: the message is queued, or
it is only listened to. -/
theorem delivered_listened_iff {s s' : Listener} {inbound : ChannelInbound} {faults : StoreFaults}
    {traceId : Text} {route : Text × Bool} (hs : Delivered kind inboundPolicy s)
    (hopen : s.queueOpen = true) (hroute : resolveRoute kind inbound inboundPolicy = some route)
    (h : step kind inboundPolicy s (.listened inbound faults traceId) = some s') :
    Delivered kind inboundPolicy s' ↔
      faults.SparesLookup s.store (scopeKeyOf kind inbound route) := by
  have hadmits : admits kind inboundPolicy inbound = true := by rw [admits, hroute]; rfl
  have hfilter : (s.listened ++ [inbound]).filter (admits kind inboundPolicy) =
      s.listened.filter (admits kind inboundPolicy) ++ [inbound] := by
    rw [List.filter_append, List.filter_cons_of_pos hadmits, List.filter_nil]
  rw [← currentOrCreate_ok_iff]
  simp only [step, routeInbound, hroute] at h
  split at h
  · cases hlookup : s.store.currentOrCreate faults (scopeKeyOf kind inbound route) with
    | mk answer store =>
        cases answer with
        | ok sessionKey =>
            simp only [hlookup, hopen] at h
            cases h
            refine iff_of_true (fun _ => ?_) ⟨sessionKey, rfl⟩
            rw [hfilter]
            exact List.rel_append (hs hopen)
              (.cons ⟨route, sessionKey, traceId, hroute, rfl⟩ .nil)
        | error e =>
            simp only [hlookup] at h
            cases h
            -- one more message is admitted than was sent
            refine iff_of_false (fun hdelivered => ?_) (by rintro ⟨_, ⟨⟩⟩)
            have hlength := (hdelivered hopen).length_eq
            rw [hfilter, List.length_append, (hs hopen).length_eq] at hlength
            simp at hlength
  · cases h

/-- **A step loses no message if and only if the store does not fail in it on a message the
policy admits.** -/
theorem delivered_step_iff {s s' : Listener} {a : ListenerAction}
    (hs : Delivered kind inboundPolicy s) (h : step kind inboundPolicy s a = some s') :
    Delivered kind inboundPolicy s' ↔ SparesRouting kind inboundPolicy s a := by
  cases a with
  | listened inbound faults traceId =>
      by_cases hopen : s.queueOpen = true
      · cases hroute : resolveRoute kind inbound inboundPolicy with
        | some route =>
            rw [delivered_listened_iff hs hopen hroute h]
            constructor
            · rintro hspares _ _ _ route' ⟨⟩ _ hroute'
              rw [hroute] at hroute'
              cases hroute'
              exact hspares
            · intro hspares
              exact hspares inbound faults traceId route rfl hopen hroute
        | none =>
            refine iff_of_true ?_ ?_
            · have hrejects : ¬ admits kind inboundPolicy inbound = true := by
                rw [admits, hroute]
                simp
              simp only [step, routeInbound, hroute] at h
              split at h
              · cases h
                intro _
                rw [List.filter_append, List.filter_cons_of_neg hrejects, List.filter_nil,
                  List.append_nil]
                exact hs hopen
              · cases h
            · rintro _ _ _ route' ⟨⟩ _ hroute'
              rw [hroute] at hroute'
              cases hroute'
      · refine iff_of_true (fun hopen' => absurd (queueOpen_of_step h hopen') hopen) ?_
        rintro _ _ _ _ ⟨⟩ hopen' _
        exact absurd hopen' hopen
  | listenFailed e =>
      simp only [step] at h
      split at h
      · cases h
        exact iff_of_true hs (by rintro _ _ _ _ ⟨⟩)
      · cases h
  | rotated scopeKey faults =>
      cases h
      exact iff_of_true hs (by rintro _ _ _ _ ⟨⟩)
  | queueClosed =>
      cases h
      refine iff_of_true (fun hopen => ?_) (by rintro _ _ _ _ ⟨⟩)
      cases hopen

end Steps

end Listener

/-! ## Whole runs -/

/-- **Along a run of the listener no message is lost if and only if the store never fails on a
message the policy admits while the queue is open.** -/
theorem delivered_iff_sparesRouting {kind : GatewayChannelKind} {inboundPolicy : RoutingConfig}
    {store : SessionStore} {tr : List (ListenerAction × Listener)}
    (hrun : Run (Listener.step kind inboundPolicy) (Listener.start store) tr) :
    (∀ x ∈ tr, x.2.Delivered kind inboundPolicy) ↔
      Run.StepsMeet (Listener.SparesRouting kind inboundPolicy) (Listener.start store) tr :=
  Run.forall_iff_stepsMeet (J := fun _ => True) (fun _ _ _ _ _ => trivial)
    (fun _ _ _ _ hs h => Listener.delivered_step_iff hs h) hrun trivial (fun _ => .nil)

/-- `SparesRouting`, computed. -/
def Listener.sparesRouting (kind : GatewayChannelKind) (inboundPolicy : RoutingConfig)
    (s : Listener) : ListenerAction → Bool
  | .listened inbound faults _ =>
      match resolveRoute kind inbound inboundPolicy with
      | some route => faults.SparesLookup s.store (scopeKeyOf kind inbound route)
      | none => true
  | _ => true

theorem sparesRouting_of_check (kind : GatewayChannelKind) (inboundPolicy : RoutingConfig)
    (s : Listener) (a : ListenerAction) (h : s.sparesRouting kind inboundPolicy a = true) :
    s.SparesRouting kind inboundPolicy a := by
  rintro inbound faults traceId route rfl - hroute
  simp only [Listener.sparesRouting, hroute] at h
  exact of_decide_eq_true h

/-- A message of a channel. -/
def helloInbound : ChannelInbound where
  messageId := "321"
  channelId := "123"
  guildId := some "10"
  isDm := false
  userId := "7"
  username := "kaleb"
  mentionedBot := false
  content := "hello"

/-- Direct messages only from one user. -/
def dmPolicy : RoutingConfig where
  defaults := RoutingConfig.default.defaults
  channels := [(.discord, ⟨.default, { InboundPolicyConfig.default with allowFrom := some ["999"] },
    []⟩)]

def lockedStore : StoreFaults := ⟨some (.db "database is locked"), none⟩

theorem delivered_around_failures : ∃ tr,
    exec (Listener.step .discord dmPolicy) (Listener.start fun _ => none)
      [.listened helloInbound .none "trc-1-1", .listenFailed (.tool "gateway closed"),
        .listened { helloInbound with isDm := true } lockedStore "trc-1-2",
        .rotated "agent:default:discord:123" .none,
        .listened helloInbound ⟨none, lockedStore.select⟩ "trc-1-3"] = some tr ∧
    ∀ x ∈ tr, x.2.Delivered .discord dmPolicy := by
  obtain ⟨tr, htr, hrun, hC⟩ :=
    exists_guarded_run_of_exec (Listener.step .discord dmPolicy) (Listener.start fun _ => none)
      [.listened helloInbound .none "trc-1-1", .listenFailed (.tool "gateway closed"),
        .listened { helloInbound with isDm := true } lockedStore "trc-1-2",
        .rotated "agent:default:discord:123" .none,
        .listened helloInbound ⟨none, lockedStore.select⟩ "trc-1-3"]
      (sparesRouting_of_check .discord dmPolicy) (by decide)
  exact ⟨tr, htr, (delivered_iff_sparesRouting hrun).mpr hC⟩

/-- More messages are admitted than are in the queue. -/
def Listener.hasLost (kind : GatewayChannelKind) (inboundPolicy : RoutingConfig) (s : Listener) :
    Bool :=
  s.queueOpen && decide ((s.listened.filter (admits kind inboundPolicy)).length ≠ s.sent.length)

/-- The store fails once, and the message it failed on never comes to the queue. -/
theorem locked_store_loses_message :
    ¬ ∀ tr, Run (Listener.step .discord RoutingConfig.default) (Listener.start fun _ => none) tr →
      ∀ x ∈ tr, x.2.Delivered .discord RoutingConfig.default := by
  intro hall
  obtain ⟨tr, hrun, x, hx, hlost⟩ :=
    exists_run_of_exec (Listener.step .discord RoutingConfig.default)
      (Listener.start fun _ => none)
      [.listened helloInbound lockedStore "trc-1-1",
        .listened { helloInbound with messageId := "322" } .none "trc-1-2"]
      (Listener.hasLost .discord RoutingConfig.default) (by decide)
  obtain ⟨hopen, hlength⟩ := Bool.and_eq_true_iff.mp hlost
  exact of_decide_eq_true hlength (hall tr hrun x hx hopen).length_eq

end Gateway
end SimpleClaw
