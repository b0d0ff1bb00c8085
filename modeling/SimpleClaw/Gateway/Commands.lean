import SimpleClaw.Gateway.Listener
import SimpleClaw.Gateway.SessionIds
import SimpleClaw.Gateway.StopCommand
import SimpleClaw.React.Dispatch
import SimpleClaw.Session.Coordinator

/-!
# Slash commands

A command that comes in beside the messages is routed like a message that mentions the bot, looks
up the session of its scope, and is carried out if its user is an owner of the agent: `/new`
rotates the session and takes the worker of the old one out of the coordinator, `/stop` kills the
runs of the session, `/status` and `/tools` only report.

* `GatewayState.step`: the commands under way with the listener, the coordinator and the manager of
  the runs, one atomic step of one of them at a time.
* `GatewayState.Step`: the same steps as a relation, one constructor for each thing that can
  happen.
* `GatewayState.step_spec`: every computed step is one of them.
-/

namespace SimpleClaw
namespace Gateway

open Config Tools Transition Providers

/-! ## Commands and their responses -/

inductive ChannelCommandKind where
  | newSession
  | status
  | stop
  | tools
  deriving DecidableEq

def ChannelCommandKind.asStr : ChannelCommandKind → Text
  | .newSession => "new"
  | .status => "status"
  | .stop => "stop"
  | .tools => "tools"

/-- A command; where its response goes is known by its place among the commands. -/
structure ChannelCommand where
  kind : ChannelCommandKind
  source : GatewayChannelKind
  channelId : Text
  guildId : Option Text
  userId : Text
  isDm : Bool
  deriving DecidableEq

inductive CommandResponse where
  | newSession (message : Text)
  | status (message : Text)
  | stop (killedCount : Nat) (message : Text)
  | tools (message : Text)
  deriving DecidableEq

def CommandResponse.message : CommandResponse → Text
  | .newSession message | .status message | .stop _ message | .tools message => message

/-- The command it answers. -/
def CommandResponse.kind : CommandResponse → ChannelCommandKind
  | .newSession _ => .newSession
  | .status _ => .status
  | .stop _ _ => .stop
  | .tools _ => .tools

/-- The response that carries a message and reports no kills. -/
def plainResponse (kind : ChannelCommandKind) (message : Text) : CommandResponse :=
  match kind with
  | .newSession => .newSession message
  | .status => .status message
  | .stop => .stop 0 message
  | .tools => .tools message

theorem plainResponse_kind (kind : ChannelCommandKind) (message : Text) :
    (plainResponse kind message).kind = kind := by
  cases kind <;> rfl

def deniedCommandResponse (kind : ChannelCommandKind) : CommandResponse :=
  plainResponse kind "That command is not allowed in this channel."

def ownerDeniedCommandResponse (kind : ChannelCommandKind) : CommandResponse :=
  plainResponse kind "That command is only available to configured owners."

/-- A text in backquotes. -/
def quoted (t : Text) : Text := ("`" : Text) ++ t ++ ("`" : Text)

def unknownAgentCommandResponse (kind : ChannelCommandKind) (agentId : Text) : CommandResponse :=
  plainResponse kind (("Agent " : Text) ++ quoted agentId ++ (" is not configured." : Text))

def errorCommandResponse (kind : ChannelCommandKind) (err : FrameworkError) : CommandResponse :=
  plainResponse kind (("Failed to resolve session state: " : Text) ++ err.display)

/-- What commands read of an agent. -/
structure AgentRuntimeConfig where
  agentName : Text
  ownerIds : List Text
  definitions : List ToolDefinition
  deriving DecidableEq

def newSessionResponse (agentId sessionId : Text) : CommandResponse :=
  .newSession (("Started a fresh session for " : Text) ++ quoted agentId ++
    (". New session: " : Text) ++ quoted sessionId ++ ("." : Text))

def statusText : AsyncToolRunStatus → Text
  | .running => "running"
  | .completed => "completed"
  | .killed => "killed"

/-- `status_command_response`, from the runs that were listed. -/
def statusCommandResponse (agentId scopeKey sessionKey agentName : Text)
    (runs : List AsyncToolRunSnapshot) : CommandResponse :=
  let running := runs.countP fun run => run.status = .running
  let message := ("Agent: " : Text) ++ agentName ++ (" (" : Text) ++ quoted agentId ++
    (")\nScope: " : Text) ++ quoted scopeKey ++ ("\nSession: " : Text) ++ quoted sessionKey ++
    ("\nBackground runs: " : Text) ++ Text.decimal running ++ (" active / " : Text) ++
    Text.decimal runs.length ++ (" total" : Text)
  let lines := Text.joinWith '\n' ((runs.take 5).map fun run =>
    ("- " : Text) ++ quoted run.runId ++ (" " : Text) ++ statusText run.status ++
      (" " : Text) ++ run.summary)
  .status (if runs = [] then message else message ++ ("\nRecent runs:\n" : Text) ++ lines)

def toolsCommandResponse (agentId : Text) (config : AgentRuntimeConfig) : CommandResponse :=
  if config.definitions = [] then
    .tools (("Agent " : Text) ++ quoted agentId ++ (" has no tools configured." : Text))
  else
    .tools (Text.joinWith '\n' (config.definitions.map fun tool =>
      ("- " : Text) ++ quoted tool.name ++ (": " : Text) ++ tool.description))

def stopCommandResponse (killedCount : Nat) : CommandResponse :=
  let response := stopResponse killedCount
  .stop response.killedCount response.message

/-! ## The gateway -/

/-- How far a command is: received; its session rotated next, or the worker of the old one
removed; the runs of its session listed, for its report or to be killed; or answered. -/
inductive CommandPhase where
  | received
  | rotating (agentId scopeKey : Text)
  | removing (agentId : Text) (rotation : SessionRotation)
  | reporting (agentId scopeKey sessionKey agentName : Text)
  | stopping (agentId sessionKey : Text)
  | killing (agentId sessionKey : Text) (rest : List Text) (killedCount : Nat)
  | answered (response : CommandResponse)
  deriving DecidableEq

structure CommandCall where
  command : ChannelCommand
  phase : CommandPhase
  deriving DecidableEq

/-- What has happened to the sessions: a lookup, of a message or of a command, and a rotation by
a command. -/
inductive SessionEvent where
  | message (scopeKey : Text) (inbound : InboundMessage)
  | command (call : Nat) (scopeKey sessionKey : Text)
  | rotated (call : Nat) (scopeKey : Text) (rotation : SessionRotation)
  deriving DecidableEq

/-- The gateway with what it shares with the run loop.  `events` is kept by the model only. -/
structure GatewayState where
  store : SessionStore
  coordinator : Session.Coordinator InboundMessage
  manager : AsyncRunManager
  commands : List CommandCall
  events : List SessionEvent

/-- One step: a message is routed; a command comes in, and goes on; the coordinator or the manager
takes a step of its own. -/
inductive GatewayAction where
  | message (kind : GatewayChannelKind) (inbound : ChannelInbound) (faults : StoreFaults)
      (traceId : Text)
  | command (command : ChannelCommand)
  | resolveTarget (call : Nat) (faults : StoreFaults)
  | rotate (call : Nat) (faults : StoreFaults)
  | removeWorker (call : Nat)
  | report (call : Nat) (order : List Text)
  | listRuns (call : Nat) (order : List Text)
  | killNext (call : Nat) (now : Nat) (spawnError : Option Text)
  | coordinator (action : Session.Action InboundMessage)
  | manager (action : ManagerAction)

/-- The message a command is routed as. -/
def commandInbound (command : ChannelCommand) : ChannelInbound where
  messageId := ("command:" : Text) ++ command.kind.asStr
  channelId := command.channelId
  guildId := command.guildId
  isDm := command.isDm
  userId := command.userId
  username := "system"
  mentionedBot := true
  content := ("/" : Text) ++ command.kind.asStr

namespace GatewayState

section Step

variable (inboundPolicy : RoutingConfig) (agents : Text → Option AgentRuntimeConfig)

/-- The gateway starts, with the sessions that the store has. -/
def start (store : SessionStore) : GatewayState :=
  ⟨store, Session.Coordinator.new InboundMessage, AsyncRunManager.new, [], []⟩

/-- A command goes on. -/
def advance (s : GatewayState) (i : Nat) (call : CommandCall) (phase : CommandPhase) :
    List CommandCall :=
  s.commands.set i { call with phase }

/-- Where a command goes on once its session is known. -/
def dispatchCommand (command : ChannelCommand) (agentId scopeKey sessionKey : Text) :
    CommandPhase :=
  match agents agentId with
  | none => .answered (unknownAgentCommandResponse command.kind agentId)
  | some config =>
      if React.ownerAllowed command.userId config.ownerIds then
        match command.kind with
        | .newSession => .rotating agentId scopeKey
        | .status => .reporting agentId scopeKey sessionKey config.agentName
        | .stop => .stopping agentId sessionKey
        | .tools => .answered (toolsCommandResponse agentId config)
      else .answered (ownerDeniedCommandResponse command.kind)

/-- `resolve_command_target` and the checks after it. -/
def resolveTarget (s : GatewayState) (i : Nat) (call : CommandCall) (faults : StoreFaults) :
    GatewayState :=
  let command := call.command
  match resolveRoute command.source (commandInbound command) inboundPolicy with
  | none =>
      { s with commands := s.advance i call (.answered (deniedCommandResponse command.kind)) }
  | some (agentId, _) =>
      let scopeKey := buildSessionScopeKey agentId command.isDm command.source command.channelId
      match s.store.currentOrCreate faults scopeKey with
      | (.error err, store) => { s with
          store
          commands := s.advance i call (.answered (errorCommandResponse command.kind err)) }
      | (.ok sessionKey, store) => { s with
          store
          commands := s.advance i call (dispatchCommand agents command agentId scopeKey sessionKey)
          events := s.events ++ [.command i scopeKey sessionKey] }

/-- A session is rotated for a command. -/
def rotate (s : GatewayState) (i : Nat) (call : CommandCall) (agentId scopeKey : Text)
    (faults : StoreFaults) : GatewayState :=
  match s.store.rotate faults scopeKey with
  | (.error err, store) => { s with
      store
      commands := s.advance i call (.answered (errorCommandResponse call.command.kind err)) }
  | (.ok rotation, store) => { s with
      store
      commands := s.advance i call (.removing agentId rotation)
      events := s.events ++ [.rotated i scopeKey rotation] }

/-- The next run is killed, or none is left. -/
def killNext (s : GatewayState) (i : Nat) (call : CommandCall) (agentId sessionKey : Text)
    (killedCount now : Nat) (spawnError : Option Text) : List Text → Option GatewayState
  | [] => some { s with
      commands := s.advance i call (.answered (stopCommandResponse killedCount)) }
  | runId :: rest =>
      let result := (killForSession s.manager.table.runs runId agentId sessionKey now spawnError).1
      let killedCount := if result.isOk then killedCount + 1 else killedCount
      (s.manager.step (.other (.kill runId agentId sessionKey now spawnError))).map fun manager =>
        { s with
          manager
          commands := s.advance i call (.killing agentId sessionKey rest killedCount) }

def step (s : GatewayState) : GatewayAction → Option GatewayState
  | .message kind inbound faults traceId =>
      match routeInbound kind inbound inboundPolicy s.store faults traceId with
      | (.ok (some message), store) => some { s with
          store
          events := s.events ++
            [.message (scopeKeyOf kind inbound (message.targetAgentId, message.invoke)) message] }
      | (_, store) => some { s with store }
  | .command command => some { s with commands := s.commands ++ [⟨command, .received⟩] }
  | .resolveTarget i faults =>
      match s.commands[i]? with
      | some ⟨command, .received⟩ =>
          some (s.resolveTarget inboundPolicy agents i ⟨command, .received⟩ faults)
      | _ => none
  | .rotate i faults =>
      match s.commands[i]? with
      | some ⟨command, .rotating agentId scopeKey⟩ =>
          some (s.rotate i ⟨command, .rotating agentId scopeKey⟩ agentId scopeKey faults)
      | _ => none
  | .removeWorker i =>
      match s.commands[i]? with
      | some ⟨command, .removing agentId rotation⟩ => some { s with
          coordinator := s.coordinator.remove rotation.previousSessionId
          commands := s.advance i ⟨command, .removing agentId rotation⟩
            (.answered (newSessionResponse agentId rotation.sessionId)) }
      | _ => none
  | .report i order =>
      match s.commands[i]? with
      | some ⟨command, .reporting agentId scopeKey sessionKey agentName⟩ =>
          if order.isPerm (runKeys s.manager) then
            let runs := listForSession order s.manager.table.runs agentId sessionKey
            some { s with
              commands := s.advance i ⟨command, .reporting agentId scopeKey sessionKey agentName⟩
                (.answered
                  (statusCommandResponse agentId scopeKey sessionKey agentName runs)) }
          else none
      | _ => none
  | .listRuns i order =>
      match s.commands[i]? with
      | some ⟨command, .stopping agentId sessionKey⟩ =>
          (StopCommand.list agentId sessionKey s.manager order).map fun stop => { s with
            commands := s.advance i ⟨command, .stopping agentId sessionKey⟩
              (.killing agentId sessionKey stop.rest 0) }
      | _ => none
  | .killNext i now spawnError =>
      match s.commands[i]? with
      | some ⟨command, .killing agentId sessionKey rest killedCount⟩ =>
          s.killNext i ⟨command, .killing agentId sessionKey rest killedCount⟩ agentId sessionKey
            killedCount now spawnError rest
      | _ => none
  -- workers are taken out from outside the coordinator only for commands
  | .coordinator (.remove _) => none
  | .coordinator action => (s.coordinator.step action).map fun coordinator => { s with coordinator }
  | .manager action => (s.manager.step action).map fun manager => { s with manager }

end Step

end GatewayState

/-! ## The steps as a relation -/

section Failures

variable {inboundPolicy : RoutingConfig} {store store' : SessionStore} {faults : StoreFaults}
  {scopeKey : Text}

/-- A lookup that fails changes nothing. -/
theorem store_of_currentOrCreate_error {e : FrameworkError}
    (hlookup : store.currentOrCreate faults scopeKey = (.error e, store')) : store' = store := by
  unfold SessionStore.currentOrCreate at hlookup
  split at hlookup
  · cases hlookup
    rfl
  · split at hlookup
    · cases hlookup
    · split at hlookup <;> cases hlookup
      rfl

theorem store_of_rotate_error {e : FrameworkError}
    (hrotate : store.rotate faults scopeKey = (.error e, store')) : store' = store := by
  unfold SessionStore.rotate at hrotate
  split at hrotate
  · cases hrotate
    rfl
  · dsimp only at hrotate
    split at hrotate <;> cases hrotate
    rfl

/-- A message that was routed came from a lookup. -/
theorem routeInbound_lookup {kind : GatewayChannelKind} {inbound : ChannelInbound}
    {traceId : Text} {message : InboundMessage}
    (h : routeInbound kind inbound inboundPolicy store faults traceId =
      (.ok (some message), store')) :
    store.currentOrCreate faults
      (scopeKeyOf kind inbound (message.targetAgentId, message.invoke)) =
        (.ok message.sessionKey, store') := by
  unfold routeInbound at h
  split at h
  · cases h
  · next route hroute =>
    split at h
    · cases h
    · next sessionKey store₁ hlookup =>
      cases h
      exact hlookup

/-- A message that was not routed has left the sessions as they were. -/
theorem routeInbound_store {kind : GatewayChannelKind} {inbound : ChannelInbound}
    {traceId : Text} {result : Except FrameworkError (Option InboundMessage)}
    (h : routeInbound kind inbound inboundPolicy store faults traceId = (result, store'))
    (hnone : ∀ message, result ≠ .ok (some message)) : store' = store := by
  unfold routeInbound at h
  split at h
  · cases h
    rfl
  · split at h
    · next e store₁ hlookup =>
      cases h
      exact store_of_currentOrCreate_error hlookup
    · cases h
      exact absurd rfl (hnone _)

end Failures

namespace GatewayState

variable (inboundPolicy : RoutingConfig) (agents : Text → Option AgentRuntimeConfig)

/-- What one step can be. -/
inductive Step (s : GatewayState) : GatewayAction → GatewayState → Prop where
  | routed {kind : GatewayChannelKind} {inbound : ChannelInbound} {faults : StoreFaults}
      {traceId : Text} {message : InboundMessage} {store : SessionStore}
      (hlookup : s.store.currentOrCreate faults
        (scopeKeyOf kind inbound (message.targetAgentId, message.invoke)) =
          (.ok message.sessionKey, store)) :
      Step s (.message kind inbound faults traceId) { s with
        store
        events := s.events ++
          [.message (scopeKeyOf kind inbound (message.targetAgentId, message.invoke)) message] }
  | unrouted {kind : GatewayChannelKind} {inbound : ChannelInbound} {faults : StoreFaults}
      {traceId : Text} : Step s (.message kind inbound faults traceId) s
  | command {command : ChannelCommand} :
      Step s (.command command) { s with commands := s.commands ++ [⟨command, .received⟩] }
  | denied {i : Nat} {command : ChannelCommand} {faults : StoreFaults}
      (hcall : s.commands[i]? = some ⟨command, .received⟩) {err : CommandResponse}
      (hkind : err.kind = command.kind) :
      Step s (.resolveTarget i faults) { s with
        commands := s.advance i ⟨command, .received⟩ (.answered err) }
  | resolved {i : Nat} {command : ChannelCommand} {faults : StoreFaults} {agentId : Text}
      {invoke : Bool} {sessionKey : Text} {store : SessionStore}
      (hcall : s.commands[i]? = some ⟨command, .received⟩)
      (hroute : resolveRoute command.source (commandInbound command) inboundPolicy =
        some (agentId, invoke))
      (hlookup : s.store.currentOrCreate faults
        (buildSessionScopeKey agentId command.isDm command.source command.channelId) =
          (.ok sessionKey, store)) :
      Step s (.resolveTarget i faults) { s with
        store
        commands := s.advance i ⟨command, .received⟩ (dispatchCommand agents command agentId
          (buildSessionScopeKey agentId command.isDm command.source command.channelId) sessionKey)
        events := s.events ++ [.command i
          (buildSessionScopeKey agentId command.isDm command.source command.channelId)
          sessionKey] }
  | notRotated {i : Nat} {command : ChannelCommand} {agentId scopeKey : Text}
      {faults : StoreFaults} {err : CommandResponse}
      (hcall : s.commands[i]? = some ⟨command, .rotating agentId scopeKey⟩)
      (hkind : err.kind = command.kind) :
      Step s (.rotate i faults) { s with
        commands := s.advance i ⟨command, .rotating agentId scopeKey⟩ (.answered err) }
  | rotated {i : Nat} {command : ChannelCommand} {agentId scopeKey : Text}
      {faults : StoreFaults} {rotation : SessionRotation} {store : SessionStore}
      (hcall : s.commands[i]? = some ⟨command, .rotating agentId scopeKey⟩)
      (hrotate : s.store.rotate faults scopeKey = (.ok rotation, store)) :
      Step s (.rotate i faults) { s with
        store
        commands := s.advance i ⟨command, .rotating agentId scopeKey⟩ (.removing agentId rotation)
        events := s.events ++ [.rotated i scopeKey rotation] }
  | removed {i : Nat} {command : ChannelCommand} {agentId : Text} {rotation : SessionRotation}
      (hcall : s.commands[i]? = some ⟨command, .removing agentId rotation⟩) :
      Step s (.removeWorker i) { s with
        coordinator := s.coordinator.remove rotation.previousSessionId
        commands := s.advance i ⟨command, .removing agentId rotation⟩
          (.answered (newSessionResponse agentId rotation.sessionId)) }
  | reported {i : Nat} {command : ChannelCommand}
      {agentId scopeKey sessionKey agentName : Text} {order : List Text}
      {runs : List AsyncToolRunSnapshot}
      (hcall : s.commands[i]? =
        some ⟨command, .reporting agentId scopeKey sessionKey agentName⟩) :
      Step s (.report i order) { s with
        commands := s.advance i ⟨command, .reporting agentId scopeKey sessionKey agentName⟩
          (.answered (statusCommandResponse agentId scopeKey sessionKey agentName runs)) }
  | listed {i : Nat} {command : ChannelCommand} {agentId sessionKey : Text}
      {order rest : List Text}
      (hcall : s.commands[i]? = some ⟨command, .stopping agentId sessionKey⟩) :
      Step s (.listRuns i order) { s with
        commands := s.advance i ⟨command, .stopping agentId sessionKey⟩
          (.killing agentId sessionKey rest 0) }
  | stopped {i : Nat} {command : ChannelCommand} {agentId sessionKey : Text}
      {killedCount now : Nat} {spawnError : Option Text}
      (hcall : s.commands[i]? = some ⟨command, .killing agentId sessionKey [] killedCount⟩) :
      Step s (.killNext i now spawnError) { s with
        commands := s.advance i ⟨command, .killing agentId sessionKey [] killedCount⟩
          (.answered (stopCommandResponse killedCount)) }
  | killed {i : Nat} {command : ChannelCommand} {agentId sessionKey runId : Text}
      {rest : List Text} {killedCount killedCount' now : Nat} {spawnError : Option Text}
      {manager : AsyncRunManager}
      (hcall : s.commands[i]? =
        some ⟨command, .killing agentId sessionKey (runId :: rest) killedCount⟩)
      (hkill : s.manager.step (.other (.kill runId agentId sessionKey now spawnError)) =
        some manager) :
      Step s (.killNext i now spawnError) { s with
        manager
        commands := s.advance i
          ⟨command, .killing agentId sessionKey (runId :: rest) killedCount⟩
          (.killing agentId sessionKey rest killedCount') }
  | coordinator {action : Session.Action InboundMessage}
      {coordinator : Session.Coordinator InboundMessage} :
      Step s (.coordinator action) { s with coordinator }
  | manager {action : ManagerAction} {manager : AsyncRunManager} :
      Step s (.manager action) { s with manager }

variable {inboundPolicy : RoutingConfig} {agents : Text → Option AgentRuntimeConfig}
  {s s' : GatewayState}

/-- Looking up the session of a command is one of the steps. -/
theorem resolveTarget_spec {i : Nat} {command : ChannelCommand} (faults : StoreFaults)
    (hcall : s.commands[i]? = some ⟨command, .received⟩) :
    Step inboundPolicy agents s (.resolveTarget i faults)
      (s.resolveTarget inboundPolicy agents i ⟨command, .received⟩ faults) := by
  unfold resolveTarget
  dsimp only
  split
  · exact .denied hcall (plainResponse_kind _ _)
  · next agentId invoke hroute =>
    split
    · next e store hlookup =>
      rw [store_of_currentOrCreate_error hlookup]
      exact .denied hcall (plainResponse_kind _ _)
    · next sessionKey store hlookup => exact .resolved hcall hroute hlookup

theorem rotate_spec {i : Nat} {command : ChannelCommand} {agentId scopeKey : Text}
    (faults : StoreFaults) (hcall : s.commands[i]? = some ⟨command, .rotating agentId scopeKey⟩) :
    Step inboundPolicy agents s (.rotate i faults)
      (s.rotate i ⟨command, .rotating agentId scopeKey⟩ agentId scopeKey faults) := by
  unfold rotate
  split
  · next e store hrotate =>
    rw [store_of_rotate_error hrotate]
    exact .notRotated hcall (plainResponse_kind _ _)
  · next rotation store hrotate => exact .rotated hcall hrotate

theorem killNext_spec {i : Nat} {command : ChannelCommand} {agentId sessionKey : Text}
    {rest : List Text} {killedCount now : Nat} {spawnError : Option Text}
    (hcall : s.commands[i]? = some ⟨command, .killing agentId sessionKey rest killedCount⟩)
    (h : s.killNext i ⟨command, .killing agentId sessionKey rest killedCount⟩ agentId sessionKey
      killedCount now spawnError rest = some s') :
    Step inboundPolicy agents s (.killNext i now spawnError) s' := by
  cases rest with
  | nil =>
      obtain rfl := Option.some.inj h
      exact .stopped hcall
  | cons runId rest =>
      rw [killNext] at h
      obtain ⟨manager, hkill, rfl⟩ := Option.map_eq_some_iff.mp h
      exact .killed hcall hkill

/-- Every computed step is one of them. -/
theorem step_spec {action : GatewayAction} (h : s.step inboundPolicy agents action = some s') :
    Step inboundPolicy agents s action s' := by
  unfold step at h
  split at h
  · split at h
    · next kind inbound faults traceId message store hrouted =>
      obtain rfl := Option.some.inj h
      exact .routed (routeInbound_lookup hrouted)
    · next result store hnone hrouted =>
      obtain rfl := Option.some.inj h
      rw [routeInbound_store hrouted hnone]
      exact .unrouted
  · obtain rfl := Option.some.inj h
    exact .command
  · split at h
    · next hcall =>
      obtain rfl := Option.some.inj h
      exact resolveTarget_spec _ hcall
    · cases h
  · split at h
    · next hcall =>
      obtain rfl := Option.some.inj h
      exact rotate_spec _ hcall
    · cases h
  · split at h
    · next hcall =>
      obtain rfl := Option.some.inj h
      exact .removed hcall
    · cases h
  · split at h
    · next hcall =>
      split at h
      · obtain rfl := Option.some.inj h
        exact .reported hcall
      · cases h
    · cases h
  · split at h
    · next hcall =>
      obtain ⟨stop, -, rfl⟩ := Option.map_eq_some_iff.mp h
      exact .listed hcall
    · cases h
  · split at h
    · next hcall => exact killNext_spec hcall h
    · cases h
  · cases h
  · obtain ⟨coordinator, -, rfl⟩ := Option.map_eq_some_iff.mp h
    exact .coordinator
  · obtain ⟨manager, -, rfl⟩ := Option.map_eq_some_iff.mp h
    exact .manager

end GatewayState

end Gateway
end SimpleClaw
