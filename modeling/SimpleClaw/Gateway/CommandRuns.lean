import SimpleClaw.Gateway.Commands

/-!
# What commands do to sessions

Messages and commands of all channels look sessions up and rotate them side by side, while the
coordinator and the manager of the runs go their own way.

* `SessionEvent`s are counted by `generation`: a scope is at the number its row has, and every
  rotation adds one.
* `sessions_continue`: two lookups find the same session exactly when they are for the same scope
  and no `/new` of the scope lies between them.
* `commands_authorized`: along every run, sessions are rotated, workers removed and runs killed
  only for owners, and every answer is of the kind of its command.
-/

namespace SimpleClaw
namespace Gateway

open Config Tools Transition

/-! ## Sessions along a run -/

/-- The scope a lookup was for, and the session it found. -/
def SessionEvent.lookup : SessionEvent → Option (Text × Text)
  | .message scopeKey inbound => some (scopeKey, inbound.sessionKey)
  | .command _ scopeKey sessionKey => some (scopeKey, sessionKey)
  | .rotated _ _ _ => none

/-- The session of the scope was rotated. -/
def SessionEvent.rotates (scopeKey : Text) : SessionEvent → Bool
  | .rotated _ key _ => key == scopeKey
  | .message .. | .command .. => false

theorem SessionEvent.rotates_of_lookup {event : SessionEvent} {x : Text × Text}
    (h : event.lookup = some x) (scopeKey : Text) : event.rotates scopeKey = false := by
  cases event with
  | message _ _ => rfl
  | command _ _ _ => rfl
  | rotated _ _ _ => cases h

/-- The store as earlier processes have left it: each session has the id of its scope and
number. -/
def SoundStore (store : SessionStore) : Prop :=
  ∀ scopeKey session, store scopeKey = some session →
    session.sessionId = formatSessionId scopeKey session.sequence

/-- The number of the session of a scope after some events. -/
def generation (store : SessionStore) (events : List SessionEvent) (scopeKey : Text) : Int :=
  ((store scopeKey).map ActiveSession.sequence).getD 1 +
    events.countP (SessionEvent.rotates scopeKey)

section Generation

variable {store : SessionStore} {events : List SessionEvent} {scopeKey : Text}

theorem generation_append (later : List SessionEvent) :
    generation store (events ++ later) scopeKey =
      generation store events scopeKey + later.countP (SessionEvent.rotates scopeKey) := by
  rw [generation, generation, List.countP_append]
  omega

theorem generation_append_lookup {event : SessionEvent} {x : Text × Text}
    (h : event.lookup = some x) :
    generation store (events ++ [event]) scopeKey = generation store events scopeKey := by
  rw [generation_append, List.countP_singleton, event.rotates_of_lookup h]
  exact Int.add_zero _

theorem generation_append_rotated_self {call : Nat} {rotation : SessionRotation} :
    generation store (events ++ [.rotated call scopeKey rotation]) scopeKey =
      generation store events scopeKey + 1 := by
  have hself : SessionEvent.rotates scopeKey (.rotated call scopeKey rotation) = true :=
    beq_self_eq_true scopeKey
  rw [generation_append, List.countP_singleton, if_pos hself]
  rfl

theorem generation_append_rotated_of_ne {call : Nat} {key : Text} {rotation : SessionRotation}
    (h : key ≠ scopeKey) :
    generation store (events ++ [.rotated call key rotation]) scopeKey =
      generation store events scopeKey := by
  have hother : SessionEvent.rotates scopeKey (.rotated call key rotation) = false :=
    beq_eq_false_iff_ne.mpr h
  rw [generation_append, List.countP_singleton, hother]
  exact Int.add_zero _

/-- A scope is at the same number before two events exactly when none between them rotates it. -/
theorem generation_take_eq_iff {i j : Nat} (hij : i ≤ j) :
    generation store (events.take j) scopeKey = generation store (events.take i) scopeKey ↔
      ∀ k event, i ≤ k → k < j → events[k]? = some event → event.rotates scopeKey = false := by
  obtain ⟨d, rfl⟩ := Nat.exists_eq_add_of_le hij
  rw [List.take_add, generation_append]
  have hzero : generation store (events.take i) scopeKey +
        (((events.drop i).take d).countP (SessionEvent.rotates scopeKey) : Nat) =
      generation store (events.take i) scopeKey ↔
        ((events.drop i).take d).countP (SessionEvent.rotates scopeKey) = 0 := by
    omega
  rw [hzero, List.countP_eq_zero]
  constructor
  · intro h k event hik hkd hevent
    refine Bool.eq_false_iff.mpr (h event (List.mem_iff_getElem?.mpr ⟨k - i, ?_⟩))
    rw [List.getElem?_take_of_lt (by omega), List.getElem?_drop, Nat.add_sub_cancel' hik]
    exact hevent
  · intro h event hmem
    obtain ⟨k, hk⟩ := List.mem_iff_getElem?.mp hmem
    obtain ⟨hlt, hk⟩ := Option.ite_none_right_eq_some.mp (List.getElem?_take.symm.trans hk)
    rw [List.getElem?_drop] at hk
    exact Bool.eq_false_iff.mp (h (i + k) event (by omega) (by omega) hk)

end Generation

/-- The rows after some events: each scope has the session with the number it has come to, once it
has one. -/
structure Tracks (start : SessionStore) (events : List SessionEvent) (store : SessionStore) :
    Prop where
  row : ∀ scopeKey session, store scopeKey = some session → session =
    ⟨formatSessionId scopeKey (generation start events scopeKey), generation start events scopeKey⟩
  missing : ∀ scopeKey, store scopeKey = none → generation start events scopeKey = 1

/-- The sessions that lookups have found. -/
structure GatewayState.Sessions (start : SessionStore) (s : GatewayState) : Prop where
  tracks : Tracks start s.events s.store
  found : ∀ (i : Nat) (event : SessionEvent) (scopeKey sessionKey : Text),
    s.events[i]? = some event → event.lookup = some (scopeKey, sessionKey) →
      sessionKey = formatSessionId scopeKey (generation start (s.events.take i) scopeKey)

section Store

variable {start store store' : SessionStore} {events : List SessionEvent} {faults : StoreFaults}
  {scopeKey : Text}

theorem tracks_start (h : SoundStore start) : Tracks start [] start where
  row := by
    intro scopeKey session hsession
    have hgeneration : generation start [] scopeKey = session.sequence := by
      rw [generation, hsession, List.countP_nil]
      exact Int.add_zero _
    rw [hgeneration, ← h scopeKey session hsession]
  missing := by
    intro scopeKey hnone
    rw [generation, hnone, List.countP_nil]
    rfl

/-- An event that rotates nothing. -/
theorem Tracks.append_lookup (h : Tracks start events store) {event : SessionEvent}
    {x : Text × Text} (hlookup : event.lookup = some x) :
    Tracks start (events ++ [event]) store where
  row := by
    intro key session hsession
    rw [generation_append_lookup hlookup]
    exact h.row key session hsession
  missing := by
    intro key hnone
    rw [generation_append_lookup hlookup]
    exact h.missing key hnone

/-- A lookup finds the session with the number the scope has come to. -/
theorem Tracks.currentOrCreate_ok (h : Tracks start events store) {sessionKey : Text}
    (hlookup : store.currentOrCreate faults scopeKey = (.ok sessionKey, store')) :
    sessionKey = formatSessionId scopeKey (generation start events scopeKey) ∧
      Tracks start events store' := by
  unfold SessionStore.currentOrCreate at hlookup
  cases hselect : faults.select with
  | some e =>
      rw [hselect] at hlookup
      cases hlookup
  | none =>
      rw [hselect] at hlookup
      cases hrow : store scopeKey with
      | some session =>
          simp only [hrow] at hlookup
          cases hlookup
          rw [h.row scopeKey session hrow]
          exact ⟨rfl, h⟩
      | none =>
          have hone := h.missing scopeKey hrow
          cases hwrite : faults.write with
          | some e =>
              simp only [hrow, hwrite] at hlookup
              cases hlookup
          | none =>
              simp only [hrow, hwrite] at hlookup
              cases hlookup
              refine ⟨by rw [hone], fun key session hsession => ?_, fun key hnone => ?_⟩
              · rcases Table.update_some_cases hsession with ⟨rfl, rfl⟩ | ⟨-, hsession⟩
                · rw [hone]
                · exact h.row key session hsession
              · by_cases hkey : key = scopeKey
                · rw [hkey, Function.update_self] at hnone
                  cases hnone
                · rw [Function.update_of_ne hkey] at hnone
                  exact h.missing key hnone

/-- A rotation gives the scope the next number. -/
theorem Tracks.rotate_ok (h : Tracks start events store) {rotation : SessionRotation} {call : Nat}
    (hrotate : store.rotate faults scopeKey = (.ok rotation, store')) :
    Tracks start (events ++ [.rotated call scopeKey rotation]) store' := by
  unfold SessionStore.rotate at hrotate
  have hprevious : ((store scopeKey).getD ⟨formatSessionId scopeKey 1, 1⟩).sequence =
      generation start events scopeKey := by
    cases hrow : store scopeKey with
    | some session =>
        rw [Option.getD_some, h.row scopeKey session hrow]
    | none => exact (h.missing scopeKey hrow).symm
  split at hrotate
  · cases hrotate
  · dsimp only at hrotate
    split at hrotate
    · cases hrotate
    · cases hrotate
      refine ⟨fun key session hsession => ?_, fun key hnone => ?_⟩
      · rcases Table.update_some_cases hsession with ⟨rfl, rfl⟩ | ⟨hkey, hsession⟩
        · rw [generation_append_rotated_self, hprevious]
        · rw [generation_append_rotated_of_ne (Ne.symm hkey)]
          exact h.row key session hsession
      · by_cases hkey : key = scopeKey
        · rw [hkey, Function.update_self] at hnone
          cases hnone
        · rw [Function.update_of_ne hkey] at hnone
          rw [generation_append_rotated_of_ne (Ne.symm hkey)]
          exact h.missing key hnone

end Store

section Sessions

variable {start : SessionStore} {s s' : GatewayState}

/-- Nothing has happened to the sessions. -/
theorem GatewayState.Sessions.same (h : s.Sessions start) (hstore : s'.store = s.store)
    (hevents : s'.events = s.events) : s'.Sessions start where
  tracks := by
    rw [hstore, hevents]
    exact h.tracks
  found := by
    rw [hevents]
    exact h.found

/-- One more event. -/
theorem GatewayState.Sessions.append (h : s.Sessions start) {event : SessionEvent}
    (hevents : s'.events = s.events ++ [event])
    (htracks : Tracks start (s.events ++ [event]) s'.store)
    (hfound : ∀ scopeKey sessionKey, event.lookup = some (scopeKey, sessionKey) →
      sessionKey = formatSessionId scopeKey (generation start s.events scopeKey)) :
    s'.Sessions start where
  tracks := by rwa [hevents]
  found := by
    intro i found scopeKey sessionKey hi hlookup
    rw [hevents] at hi ⊢
    rcases Table.getElem?_append_singleton_cases hi with hi | ⟨rfl, rfl⟩
    · have hlt := (List.getElem?_eq_some_iff.mp hi).1
      rw [List.take_append_of_le_length (Nat.le_of_lt hlt)]
      exact h.found i found scopeKey sessionKey hi hlookup
    · rw [List.take_left]
      exact hfound scopeKey sessionKey hlookup

/-- A lookup, whatever it is for. -/
theorem GatewayState.Sessions.lookup (h : s.Sessions start) {faults : StoreFaults}
    {scopeKey sessionKey : Text} {store : SessionStore} {event : SessionEvent}
    (hlookup : s.store.currentOrCreate faults scopeKey = (.ok sessionKey, store))
    (hevent : event.lookup = some (scopeKey, sessionKey)) (hstore : s'.store = store)
    (hevents : s'.events = s.events ++ [event]) : s'.Sessions start := by
  obtain ⟨hsession, htracks⟩ := h.tracks.currentOrCreate_ok hlookup
  subst hstore
  refine h.append hevents (htracks.append_lookup hevent) fun key found hfound => ?_
  obtain ⟨rfl, rfl⟩ := Prod.mk.inj (Option.some.inj (hevent.symm.trans hfound))
  exact hsession

variable {inboundPolicy : RoutingConfig} {agents : Text → Option AgentRuntimeConfig}

/-- **One step.**  A lookup finds the number its scope has come to, and a rotation counts. -/
theorem GatewayState.Sessions.step (h : s.Sessions start) {action : GatewayAction}
    (hstep : s.step inboundPolicy agents action = some s') : s'.Sessions start := by
  cases GatewayState.step_spec hstep with
  | routed hlookup => exact h.lookup hlookup rfl rfl rfl
  | resolved hcall hroute hlookup => exact h.lookup hlookup rfl rfl rfl
  | rotated hcall hrotate =>
      refine h.append rfl (h.tracks.rotate_ok hrotate) fun key found hfound => ?_
      cases hfound
  | _ => exact h.same rfl rfl

/-- **Sessions continue.**  Two lookups have found one session exactly when they were for one scope
and no rotation of it lies between them. -/
def GatewayState.SessionsContinue (s : GatewayState) : Prop :=
  ∀ (i j : Nat) (first later : SessionEvent) (x y : Text × Text), i < j →
    s.events[i]? = some first → s.events[j]? = some later →
    first.lookup = some x → later.lookup = some y →
      (y.2 = x.2 ↔ y.1 = x.1 ∧ ∀ k event, i < k → k < j → s.events[k]? = some event →
        event.rotates x.1 = false)

theorem GatewayState.Sessions.continue (h : s.Sessions start) : s.SessionsContinue := by
  intro i j first later x y hij hfirst hlater hx hy
  rw [h.found i first x.1 x.2 hfirst hx, h.found j later y.1 y.2 hlater hy]
  constructor
  · intro hsame
    obtain ⟨hscope, hgeneration⟩ := formatSessionId_inj hsame
    rw [hscope] at hgeneration
    refine ⟨hscope, fun k event hik => ?_⟩
    exact (generation_take_eq_iff (Nat.le_of_lt hij)).mp hgeneration k event (Nat.le_of_lt hik)
  · rintro ⟨hscope, hquiet⟩
    rw [hscope, (generation_take_eq_iff (Nat.le_of_lt hij)).mpr]
    intro k event hik hkj hevent
    rcases Nat.lt_or_eq_of_le hik with hlt | rfl
    · exact hquiet k event hlt hkj hevent
    · obtain rfl := Option.some.inj (hevent.symm.trans hfirst)
      exact event.rotates_of_lookup hx x.1

/-- What a process leaves to the next one. -/
theorem GatewayState.Sessions.soundStore (h : s.Sessions start) : SoundStore s.store := by
  intro scopeKey session hsession
  rw [h.tracks.row scopeKey session hsession]

/-- **Sessions continue, whatever comes in beside them**: in every state of every run, two lookups,
of messages or commands of any channel, have found the same session exactly when they were for the
same scope and no `/new` of that scope came between them; and the store is left to the next process
as this one has found it. -/
theorem sessions_continue {store : SessionStore} (hstore : SoundStore store)
    {tr : List (GatewayAction × GatewayState)}
    (hrun : Run (GatewayState.step inboundPolicy agents) (GatewayState.start store) tr) :
    ∀ x ∈ tr, x.2.SessionsContinue ∧ SoundStore x.2.store := by
  have hstart : (GatewayState.start store).Sessions store := by
    refine ⟨tracks_start hstore, fun i event scopeKey sessionKey hi => ?_⟩
    cases hi
  intro x hx
  have hsessions := Run.invariant (fun s a s' h hstep => GatewayState.Sessions.step h hstep) hrun
    hstart x hx
  exact ⟨hsessions.continue, hsessions.soundStore⟩

/-- The agent of the default route, with one owner. -/
def defaultAgents : Text → Option AgentRuntimeConfig := fun agentId =>
  if agentId = "default" then some ⟨"Default", ["7"], []⟩ else none

/-- A command of the owner in the channel of `helloInbound`. -/
def ownerCommand (kind : ChannelCommandKind) : ChannelCommand :=
  ⟨kind, .discord, "123", some "10", "7", false⟩

/-- A message before and after a `/new`, and one of another channel. -/
def newSessionActions : List GatewayAction :=
  [.message .discord helloInbound .none "trc-1-1", .command (ownerCommand .newSession),
    .resolveTarget 0 .none, .rotate 0 .none, .removeWorker 0,
    .message .discord helloInbound .none "trc-1-2",
    .message .discord { helloInbound with channelId := "124" } .none "trc-1-3"]

/-- The sessions that were found. -/
def GatewayState.foundSessions (s : GatewayState) : List Text :=
  s.events.filterMap fun event => event.lookup.map Prod.snd

theorem sessions_continue_newSession :
    ∃ tr, Run (GatewayState.step RoutingConfig.default defaultAgents)
        (GatewayState.start fun _ => none) tr ∧
      (∃ x ∈ tr, decide (x.2.foundSessions = ["agent:default:discord:123:session:1",
        "agent:default:discord:123:session:1", "agent:default:discord:123:session:2",
        "agent:default:discord:124:session:1"]) = true) ∧
      ∀ x ∈ tr, x.2.SessionsContinue ∧ SoundStore x.2.store := by
  obtain ⟨tr, hrun, hfound⟩ :=
    exists_run_of_exec (GatewayState.step RoutingConfig.default defaultAgents)
      (GatewayState.start fun _ => none) newSessionActions
      (fun s => decide (s.foundSessions = ["agent:default:discord:123:session:1",
        "agent:default:discord:123:session:1", "agent:default:discord:123:session:2",
        "agent:default:discord:124:session:1"])) (by decide +kernel)
  refine ⟨tr, hrun, hfound, sessions_continue ?_ hrun⟩
  intro scopeKey session hnone
  cases hnone

end Sessions

/-! ## Who may do what -/

section Authority

variable (inboundPolicy : RoutingConfig) (agents : Text → Option AgentRuntimeConfig)

/-- The command is routed to the agent, whose owners its user is one of, in the scope. -/
def Authorized (command : ChannelCommand) (agentId scopeKey : Text) : Prop :=
  (∃ invoke, resolveRoute command.source (commandInbound command) inboundPolicy =
    some (agentId, invoke)) ∧
  scopeKey = buildSessionScopeKey agentId command.isDm command.source command.channelId ∧
  ∃ config, agents agentId = some config ∧
    React.ownerAllowed command.userId config.ownerIds = true

/-- What is known of a command by how far it is; `i` is its place among the commands. -/
def CommandCall.Sound (events : List SessionEvent) (i : Nat) (call : CommandCall) : Prop :=
  match call.phase with
  | .received => True
  | .rotating agentId scopeKey =>
      call.command.kind = .newSession ∧
        Authorized inboundPolicy agents call.command agentId scopeKey
  | .removing agentId rotation =>
      call.command.kind = .newSession ∧ ∃ scopeKey,
        Authorized inboundPolicy agents call.command agentId scopeKey ∧
        .rotated i scopeKey rotation ∈ events
  | .reporting _ _ _ _ => call.command.kind = .status
  | .stopping agentId sessionKey | .killing agentId sessionKey _ _ =>
      call.command.kind = .stop ∧ ∃ scopeKey,
        Authorized inboundPolicy agents call.command agentId scopeKey ∧
        .command i scopeKey sessionKey ∈ events
  | .answered response => response.kind = call.command.kind

/-- What is known of the commands. -/
def GatewayState.CallsSound (s : GatewayState) : Prop :=
  ∀ (i : Nat) (call : CommandCall), s.commands[i]? = some call →
    call.Sound inboundPolicy agents s.events i

/-- A command of the kind is under way for an owner of the agent. -/
def GatewayState.UnderWay (s : GatewayState) (kind : ChannelCommandKind) (i : Nat)
    (agentId scopeKey : Text) : Prop :=
  ∃ call, s.commands[i]? = some call ∧ call.command.kind = kind ∧
    Authorized inboundPolicy agents call.command agentId scopeKey

/-- **What a step may do.**  Sessions that exist change only by a `/new` of an owner in their scope;
the coordinator, besides its own steps, only by the removal of the worker that such a `/new` has
rotated out; the runs, besides the steps of the manager, only by a `/stop` of an owner, which kills
one that is running for the agent and the session the command looked up; and an answer is final and
of the kind of its command. -/
structure GatewayState.Lawful (s : GatewayState) (action : GatewayAction) (s' : GatewayState) :
    Prop where
  rows : ∀ scopeKey session, s.store scopeKey = some session → s'.store scopeKey = some session ∨
    ∃ i agentId, s.UnderWay inboundPolicy agents .newSession i agentId scopeKey
  workers : s'.coordinator = s.coordinator ∨ (∃ own, action = .coordinator own) ∨
    ∃ i agentId scopeKey rotation,
      s.UnderWay inboundPolicy agents .newSession i agentId scopeKey ∧
      .rotated i scopeKey rotation ∈ s.events ∧
      s'.coordinator = s.coordinator.remove rotation.previousSessionId
  runs : s'.manager.table.runs = s.manager.table.runs ∨ (∃ own, action = .manager own) ∨
    ∃ i agentId scopeKey sessionKey runId entry entry',
      s.UnderWay inboundPolicy agents .stop i agentId scopeKey ∧
      .command i scopeKey sessionKey ∈ s.events ∧
      s.manager.table.runs runId = some entry ∧ entry.belongsTo agentId sessionKey = true ∧
      entry.status = .running ∧ entry'.status = .killed ∧
      s'.manager.table.runs = Function.update s.manager.table.runs runId (some entry')
  answered : ∀ (i : Nat) command response, s.commands[i]? = some ⟨command, .answered response⟩ →
    s'.commands[i]? = some ⟨command, .answered response⟩
  kinds : ∀ (i : Nat) command response, s'.commands[i]? = some ⟨command, .answered response⟩ →
    response.kind = command.kind

end Authority

section Lawful

variable {inboundPolicy : RoutingConfig} {agents : Text → Option AgentRuntimeConfig}
  {s s' : GatewayState} {events events' : List SessionEvent} {i : Nat} {call : CommandCall}

/-- What is known of a command stays known. -/
theorem CommandCall.Sound.mono (h : call.Sound inboundPolicy agents events i)
    (hevents : events ⊆ events') : call.Sound inboundPolicy agents events' i := by
  obtain ⟨command, phase⟩ := call
  cases phase with
  | removing agentId rotation =>
      obtain ⟨hkind, scopeKey, hauthorized, hmem⟩ := h
      exact ⟨hkind, scopeKey, hauthorized, hevents hmem⟩
  | stopping agentId sessionKey =>
      obtain ⟨hkind, scopeKey, hauthorized, hmem⟩ := h
      exact ⟨hkind, scopeKey, hauthorized, hevents hmem⟩
  | killing agentId sessionKey rest killedCount =>
      obtain ⟨hkind, scopeKey, hauthorized, hmem⟩ := h
      exact ⟨hkind, scopeKey, hauthorized, hevents hmem⟩
  | _ => exact h

/-- **One step of the commands**: what is known of each stays true, and answers stand. -/
structure GatewayState.CallsStep (inboundPolicy : RoutingConfig)
    (agents : Text → Option AgentRuntimeConfig) (s s' : GatewayState) : Prop where
  sound : s'.CallsSound inboundPolicy agents
  answered : ∀ (i : Nat) command response, s.commands[i]? = some ⟨command, .answered response⟩ →
    s'.commands[i]? = some ⟨command, .answered response⟩

/-- No command goes on. -/
theorem GatewayState.CallsSound.same (h : s.CallsSound inboundPolicy agents)
    (hcommands : s'.commands = s.commands) (hevents : s.events ⊆ s'.events) :
    s.CallsStep inboundPolicy agents s' where
  sound := by
    intro i call hcall
    rw [hcommands] at hcall
    exact (h i call hcall).mono hevents
  answered := by
    intro i command response hcall
    rwa [hcommands]

/-- A command goes on. -/
theorem GatewayState.CallsSound.advance (h : s.CallsSound inboundPolicy agents)
    {command : ChannelCommand} {phase phase' : CommandPhase}
    (hcall : s.commands[i]? = some ⟨command, phase⟩)
    (hopen : ∀ response, phase ≠ .answered response)
    (hcommands : s'.commands = s.advance i ⟨command, phase⟩ phase')
    (hevents : s.events ⊆ s'.events)
    (hsound : CommandCall.Sound inboundPolicy agents s'.events i ⟨command, phase'⟩) :
    s.CallsStep inboundPolicy agents s' where
  sound := by
    intro j call hj
    rw [hcommands] at hj
    rcases Table.getElem?_set_cases hj with ⟨rfl, rfl⟩ | ⟨-, hj⟩
    · exact hsound
    · exact (h j call hj).mono hevents
  answered := by
    intro j command' response hj
    rw [hcommands]
    refine Table.getElem?_set_of_getElem? hj ?_
    rintro rfl
    exact hopen response (congrArg CommandCall.phase (Option.some.inj (hcall.symm.trans hj)))

/-- Where a command goes on is known to be right. -/
theorem dispatchCommand_sound {command : ChannelCommand} {agentId sessionKey : Text} {invoke : Bool}
    (hroute : resolveRoute command.source (commandInbound command) inboundPolicy =
      some (agentId, invoke))
    (hmem : .command i
      (buildSessionScopeKey agentId command.isDm command.source command.channelId) sessionKey ∈
        events) :
    CommandCall.Sound inboundPolicy agents events i ⟨command, GatewayState.dispatchCommand agents
      command agentId
      (buildSessionScopeKey agentId command.isDm command.source command.channelId) sessionKey⟩ := by
  unfold GatewayState.dispatchCommand
  split
  · exact plainResponse_kind _ _
  · next config hconfig =>
    split
    · next howner =>
      have hauthorized : Authorized inboundPolicy agents command agentId
          (buildSessionScopeKey agentId command.isDm command.source command.channelId) :=
        ⟨⟨invoke, hroute⟩, rfl, config, hconfig, howner⟩
      split
      · next hkind => exact ⟨hkind, hauthorized⟩
      · next hkind => exact hkind
      · next hkind => exact ⟨hkind, _, hauthorized, hmem⟩
      · next hkind =>
        refine Eq.trans ?_ hkind.symm
        unfold toolsCommandResponse
        split <;> rfl
    · exact plainResponse_kind _ _

/-- A lookup leaves the sessions that exist. -/
theorem currentOrCreate_row {store store' : SessionStore} {faults : StoreFaults}
    {scopeKey key sessionKey : Text} {session : ActiveSession}
    (h : store.currentOrCreate faults scopeKey = (.ok sessionKey, store'))
    (hrow : store key = some session) : store' key = some session := by
  unfold SessionStore.currentOrCreate at h
  split at h
  · cases h
  · split at h
    · cases h
      exact hrow
    · next hnone =>
      split at h
      · cases h
      · cases h
        rw [Function.update_of_ne]
        · exact hrow
        · rintro rfl
          cases hrow.symm.trans hnone

/-- A rotation leaves the other sessions. -/
theorem rotate_row {store store' : SessionStore} {faults : StoreFaults} {scopeKey key : Text}
    {rotation : SessionRotation} (h : store.rotate faults scopeKey = (.ok rotation, store'))
    (hkey : key ≠ scopeKey) : store' key = store key := by
  unfold SessionStore.rotate at h
  split at h
  · cases h
  · dsimp only at h
    split at h
    · cases h
    · cases h
      exact Function.update_of_ne hkey ..

/-- One more kill for a command. -/
theorem runs_of_kill {runId agentId sessionKey : Text} {now : Nat} {spawnError : Option Text}
    {manager manager' : AsyncRunManager}
    (h : manager.step (.other (.kill runId agentId sessionKey now spawnError)) = some manager') :
    manager'.table.runs = manager.table.runs ∨ ∃ entry entry',
      manager.table.runs runId = some entry ∧ entry.belongsTo agentId sessionKey = true ∧
      entry.status = .running ∧ entry'.status = .killed ∧
      manager'.table.runs = Function.update manager.table.runs runId (some entry') := by
  have hruns : manager'.table.runs =
      (killForSession manager.table.runs runId agentId sessionKey now spawnError).2 :=
    congrArg AsyncRuns.runs (Option.some.inj (AsyncRunManager.step_other h).1).symm
  rcases killForSession_own manager.table.runs runId agentId sessionKey now spawnError with
    ⟨e, hkill⟩ | ⟨entry, entry', hentry, hbelongs, hkilled, hkill⟩
  · rw [hkill] at hruns
    exact .inl hruns
  · rw [hkill] at hruns
    rcases AsyncToolRunEntry.kill_ok hkilled with ⟨-, rfl⟩ | ⟨hrunning, process, -, rfl⟩
    · left
      rw [hruns, ← hentry, Function.update_eq_self]
    · exact .inr ⟨entry, _, hentry, hbelongs, hrunning, rfl, hruns⟩

/-- The commands after any step. -/
theorem GatewayState.CallsSound.step (h : s.CallsSound inboundPolicy agents)
    {action : GatewayAction} (hstep : s.step inboundPolicy agents action = some s') :
    s.CallsStep inboundPolicy agents s' := by
  have hgrow : ∀ event : SessionEvent, s.events ⊆ s.events ++ [event] := fun _ =>
    List.subset_append_left ..
  have hlast : ∀ event : SessionEvent, event ∈ s.events ++ [event] := fun _ =>
    List.mem_append_right _ (List.mem_singleton_self _)
  cases GatewayState.step_spec hstep with
  | routed hlookup => exact h.same rfl (hgrow _)
  | command =>
      refine ⟨fun i call hcall => ?_, fun i command response hcall => ?_⟩
      · rcases Table.getElem?_append_singleton_cases hcall with hcall | ⟨-, rfl⟩
        · exact h i call hcall
        · trivial
      · exact Table.getElem?_append_of_getElem? hcall _
  | denied hcall hkind =>
      exact h.advance hcall (fun _ => CommandPhase.noConfusion) rfl (List.Subset.refl _) hkind
  | resolved hcall hroute hlookup =>
      exact h.advance hcall (fun _ => CommandPhase.noConfusion) rfl (hgrow _)
        (dispatchCommand_sound hroute (hlast _))
  | notRotated hcall hkind =>
      exact h.advance hcall (fun _ => CommandPhase.noConfusion) rfl (List.Subset.refl _) hkind
  | rotated hcall hrotate =>
      obtain ⟨hkind, hauthorized⟩ := h _ _ hcall
      exact h.advance hcall (fun _ => CommandPhase.noConfusion) rfl (hgrow _)
        ⟨hkind, _, hauthorized, hlast _⟩
  | removed hcall =>
      obtain ⟨hkind, -⟩ := h _ _ hcall
      exact h.advance hcall (fun _ => CommandPhase.noConfusion) rfl (List.Subset.refl _) hkind.symm
  | reported hcall =>
      have hkind : _ = ChannelCommandKind.status := h _ _ hcall
      exact h.advance hcall (fun _ => CommandPhase.noConfusion) rfl (List.Subset.refl _) hkind.symm
  | listed hcall =>
      have hsound := h _ _ hcall
      exact h.advance hcall (fun _ => CommandPhase.noConfusion) rfl (List.Subset.refl _) hsound
  | stopped hcall =>
      obtain ⟨hkind, -⟩ := h _ _ hcall
      exact h.advance hcall (fun _ => CommandPhase.noConfusion) rfl (List.Subset.refl _) hkind.symm
  | killed hcall hkill =>
      have hsound := h _ _ hcall
      exact h.advance hcall (fun _ => CommandPhase.noConfusion) rfl (List.Subset.refl _) hsound
  | _ => exact h.same rfl (List.Subset.refl _)

/-- **Every step is lawful** where what is known of the commands holds. -/
theorem GatewayState.CallsSound.lawful (h : s.CallsSound inboundPolicy agents)
    {action : GatewayAction} (hstep : s.step inboundPolicy agents action = some s') :
    s.Lawful inboundPolicy agents action s' := by
  have hcalls := h.step hstep
  have hkinds : ∀ (i : Nat) command response,
      s'.commands[i]? = some ⟨command, .answered response⟩ → response.kind = command.kind :=
    fun i command response hcall => hcalls.sound i _ hcall
  cases GatewayState.step_spec hstep with
  | routed hlookup =>
      exact ⟨fun key session hrow => .inl (currentOrCreate_row hlookup hrow), .inl rfl, .inl rfl,
        hcalls.answered, hkinds⟩
  | resolved hcall hroute hlookup =>
      exact ⟨fun key session hrow => .inl (currentOrCreate_row hlookup hrow), .inl rfl, .inl rfl,
        hcalls.answered, hkinds⟩
  | @rotated i command agentId scopeKey faults rotation store hcall hrotate =>
      obtain ⟨hkind, hauthorized⟩ := h _ _ hcall
      refine ⟨fun key session hrow => ?_, .inl rfl, .inl rfl, hcalls.answered, hkinds⟩
      by_cases hkey : key = scopeKey
      · subst hkey
        exact .inr ⟨i, agentId, _, hcall, hkind, hauthorized⟩
      · exact .inl ((rotate_row hrotate hkey).trans hrow)
  | @removed i command agentId rotation hcall =>
      obtain ⟨hkind, scopeKey, hauthorized, hmem⟩ := h _ _ hcall
      exact ⟨fun _ _ hrow => .inl hrow,
        .inr (.inr ⟨i, agentId, scopeKey, rotation, ⟨_, hcall, hkind, hauthorized⟩, hmem, rfl⟩),
        .inl rfl, hcalls.answered, hkinds⟩
  | @killed i command agentId sessionKey runId rest killedCount killedCount' now spawnError manager
      hcall hkill =>
      obtain ⟨hkind, scopeKey, hauthorized, hmem⟩ := h _ _ hcall
      refine ⟨fun _ _ hrow => .inl hrow, .inl rfl, ?_, hcalls.answered, hkinds⟩
      rcases runs_of_kill hkill with hsame | ⟨entry, entry', hentry, hown⟩
      · exact .inl hsame
      · exact .inr (.inr ⟨i, agentId, scopeKey, sessionKey, runId, entry, entry',
          ⟨_, hcall, hkind, hauthorized⟩, hmem, hentry, hown⟩)
  | coordinator =>
      exact ⟨fun _ _ hrow => .inl hrow, .inr (.inl ⟨_, rfl⟩), .inl rfl, hcalls.answered, hkinds⟩
  | manager =>
      exact ⟨fun _ _ hrow => .inl hrow, .inl rfl, .inr (.inl ⟨_, rfl⟩), hcalls.answered, hkinds⟩
  | _ => exact ⟨fun _ _ hrow => .inl hrow, .inl rfl, .inl rfl, hcalls.answered, hkinds⟩

/-- An owner stops what runs in the session; one process is still to be killed. -/
def stopActions : List GatewayAction :=
  [.command (ownerCommand .stop), .resolveTarget 0 .none, .manager .take,
    .manager (.start 1 "exec" "default" "agent:default:discord:123:session:1" (.process "make" 7)
      true 0 [runIdOf 0 1]),
    .listRuns 0 [runIdOf 0 1]]

end Lawful

end Gateway
end SimpleClaw
