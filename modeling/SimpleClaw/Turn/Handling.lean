import SimpleClaw.Lib.Tables
import SimpleClaw.Session.Serial
import SimpleClaw.Turn.Execute

/-!
# Turns side by side

The handler of the session workers runs a turn for every message it is given.  Turns of different
sessions run at the same time on the stores of their agents, and what a turn does to its store it
does in separate statements: it stores its message, it reads the history, and it stores its reply.

* `TurnPhase`, `beginTurn`, `readHistory`, `finishTurn`: a turn, statement by statement.
* `runAlone_eq_execute`: a turn that nothing comes between is `execute`.
* `Service.step`: the turns of all the workers of the coordinator.
-/

namespace SimpleClaw
namespace Turn

open Gateway (InboundMessage)
open Memory (ShortTermDb MessageRow StoredRole)
open Providers (Message)
open React (RunOutcome)

variable {E : Type}

/-! ## One turn -/

/-- What `handle_inbound_once` comes to: nothing for an unknown agent, and else what the turn
does. -/
abbrev TurnResult := Option (Except TurnFailure TurnDisposition)

/-- How far a turn is: its message is not stored, or is; its history is read; it has come to its
end, and the worker has gone on. -/
inductive TurnPhase where
  | began
  | stored
  | prepared (prepared : PreparedTurn)
  | ended (result : TurnResult)
  | returned (result : TurnResult)

/-- The first statement: the message is stored. -/
def beginTurn (hasMemory : Bool) (agentId : Text) (answers : AppendAnswers E) (db : ShortTermDb E)
    (inbound : InboundMessage) : TurnPhase × ShortTermDb E :=
  if hasMemory = false then
    (.ended (some (.error (.error (.config (("missing memory store for agent '" : Text) ++
      agentId ++ ("'" : Text)))))), db)
  else if inbound.invoke = false then
    match recordContext answers db inbound inbound.sessionKey with
    | (.error error, db) => (.ended (some (.error (.error error))), db)
    | (.ok (), db) => (.ended (some (.ok .contextRecorded)), db)
  else
    match appendMessage answers db inbound.sessionKey .user inbound.content
        (some inbound.username) with
    | (.error error, db) => (.ended (some (.error (.error error))), db)
    | (.ok (), db) => (.stored, db)

/-- The queries: the history and what is recalled. -/
def readHistory (agent : AgentRuntimeConfig) (recent : Option FrameworkError)
    (recallSection : Text → Except FrameworkError PromptBuildMemorySection) (db : ShortTermDb E)
    (inbound : InboundMessage) : TurnPhase :=
  match seededHistory agent recent db inbound.sessionKey with
  | .error error => .ended (some (.error (.error error)))
  | .ok history =>
      match buildTurnSystemPrompt agent recallSection inbound.content with
      | .error panic => .ended (some (.error (.panic panic)))
      | .ok promptBuild =>
          .prepared ⟨injectCallerContext promptBuild.systemPrompt inbound, history,
            promptBuild.memoryRecallShortHits, promptBuild.memoryRecallLongHits⟩

/-- The react loop, and the last statement: the reply is stored. -/
def finishTurn (agent : AgentRuntimeConfig) (run : Except FrameworkError RunOutcome)
    (answers : AppendAnswers E) (db : ShortTermDb E) (inbound : InboundMessage)
    (prepared : PreparedTurn) : TurnResult × ShortTermDb E :=
  match agent.effectiveExecution.resolvedEnv with
  | .error error => (some (.error (.error error)), db)
  | .ok _ =>
      match run with
      | .error error => (some (.error (.error error)), db)
      | .ok outcome =>
          match finalizeTurn answers db inbound.sessionKey outcome
              prepared.memoryRecallShortHits prepared.memoryRecallLongHits with
          | (.error error, db) => (some (.error (.error error)), db)
          | (.ok disposition, db) => (some (.ok disposition), db)

/-- A turn that nothing comes between. -/
def runAlone (agent : AgentRuntimeConfig) (answers : TurnAnswers E) (db : ShortTermDb E)
    (inbound : InboundMessage) : TurnPhase × ShortTermDb E :=
  match beginTurn answers.hasMemory agent.agentId answers.prepare.append db inbound with
  | (.stored, db) =>
      match readHistory agent answers.prepare.recent answers.prepare.recallSection db inbound with
      | .prepared prepared =>
          let finished := finishTurn agent answers.run answers.finalize db inbound prepared
          (.ended finished.1, finished.2)
      | phase => (phase, db)
  | (phase, db) => (phase, db)

/-- **A turn that nothing comes between is `execute`.** -/
theorem runAlone_eq_execute (agent : AgentRuntimeConfig) (answers : TurnAnswers E)
    (db : ShortTermDb E) (inbound : InboundMessage) :
    runAlone agent answers db inbound =
      (.ended (some (execute agent answers db inbound inbound.sessionKey).1),
        (execute agent answers db inbound inbound.sessionKey).2) := by
  unfold runAlone beginTurn execute prepareTurn readHistory
  split_ifs with hmemory hinvoke
  · rfl
  · cases recordContext answers.prepare.append db inbound inbound.sessionKey with
    | mk result db' => cases result <;> rfl
  · cases appendMessage answers.prepare.append db inbound.sessionKey .user inbound.content
        (some inbound.username) with
    | mk result db' =>
        cases result with
        | error error => rfl
        | ok _ =>
            simp only
            cases seededHistory agent answers.prepare.recent db' inbound.sessionKey with
            | error error => rfl
            | ok history =>
                simp only
                cases buildTurnSystemPrompt agent answers.prepare.recallSection
                    inbound.content with
                | error panic => rfl
                | ok promptBuild =>
                    simp only [finishTurn]
                    cases agent.effectiveExecution.resolvedEnv with
                    | error error => rfl
                    | ok executionEnv =>
                        simp only
                        cases answers.run with
                        | error error => rfl
                        | ok outcome =>
                            simp only
                            cases finalizeTurn answers.finalize db' inbound.sessionKey outcome
                                promptBuild.memoryRecallShortHits
                                promptBuild.memoryRecallLongHits with
                            | mk result db'' => cases result <;> rfl

/-! ## The turns of a service -/

/-- A turn a worker task has begun.  `added` are the rows it has put into the table of messages,
and `seen` is the history it has handed to the react loop; both are kept by the model only. -/
structure HandledTurn where
  task : Nat
  routed : Session.Routed InboundMessage
  phase : TurnPhase
  added : List MessageRow
  seen : Option (List Message)

/-- The turn is one of the session, on the store of the agent. -/
def HandledTurn.IsOf (turn : HandledTurn) (agentId sessionId : Text) : Prop :=
  turn.routed.message.targetAgentId = agentId ∧ turn.routed.message.sessionKey = sessionId

instance (turn : HandledTurn) (agentId sessionId : Text) : Decidable (turn.IsOf agentId sessionId) :=
  inferInstanceAs (Decidable (_ ∧ _))

/-- The handler of the turn has not returned. -/
def HandledTurn.isOpen (turn : HandledTurn) : Bool :=
  match turn.phase with
  | .returned _ => false
  | .began | .stored | .prepared _ | .ended _ => true

/-- The coordinator, the turns of its workers in the order in which they began, and the stores of
the agents. -/
structure Service (E : Type) where
  coordinator : Session.Coordinator InboundMessage
  stores : Text → ShortTermDb E
  turns : List HandledTurn

/-- One step: of the coordinator; a worker receives a message and begins its turn; a turn goes on,
each time with its answers; its handler returns.  A handler that panics never does. -/
inductive ServiceAction (E : Type) where
  | dispatch (inbound : InboundMessage)
  | workerSenderForKey (call : Nat)
  | send (call : Nat)
  | removeWorkerIfMatches (call : Nat)
  | remove (key : Text)
  | recv (task : Nat)
  | store (turn : Nat) (hasMemory : Bool) (answers : AppendAnswers E)
  | read (turn : Nat) (recent : Option FrameworkError)
      (recallSection : Text → Except FrameworkError PromptBuildMemorySection)
  | finish (turn : Nat) (run : Except FrameworkError RunOutcome) (answers : AppendAnswers E)
  | handlerDone (turn : Nat)
  | idleTimeout (task : Nat)
  | channelClosed (task : Nat)
  | unlink (task : Nat)
  | dropReceiver (task : Nat)

namespace Service

/-- The service starts on the stores that are there. -/
def start (stores : Text → ShortTermDb E) : Service E := ⟨.new InboundMessage, stores, []⟩

/-- The rows a store has more than before. -/
def newRows (db db' : ShortTermDb E) : List MessageRow := db'.messages.drop db.messages.length

/-- A turn has made a statement. -/
def advance (s : Service E) (n : Nat) (turn : HandledTurn) (phase : TurnPhase) (db : ShortTermDb E)
    (seen : Option (List Message)) : Service E :=
  let agentId := turn.routed.message.targetAgentId
  { s with
    stores := Function.update s.stores agentId db
    turns := s.turns.set n { turn with
      phase, seen
      added := turn.added ++ newRows (s.stores agentId) db } }

variable (agents : Text → Option AgentRuntimeConfig)

/-- The coordinator makes a step that is no boundary of a handler. -/
def coordinate (s : Service E) (action : Session.Action InboundMessage) : Option (Service E) :=
  (s.coordinator.step action).map fun coordinator => { s with coordinator }

def step (s : Service E) : ServiceAction E → Option (Service E)
  | .dispatch inbound => s.coordinate (.dispatch inbound.sessionKey inbound)
  | .workerSenderForKey call => s.coordinate (.workerSenderForKey call)
  | .send call => s.coordinate (.send call)
  | .removeWorkerIfMatches call => s.coordinate (.removeWorkerIfMatches call)
  | .remove key => s.coordinate (.remove key)
  | .recv task =>
      match s.coordinator.tasks[task]? with
      | some ⟨_, _, routed :: _, .receiving⟩ =>
          (s.coordinator.step (.recv task)).map fun coordinator => { s with
            coordinator
            turns := s.turns ++ [⟨task, routed, .began, [], none⟩] }
      | _ => none
  | .store n hasMemory answers =>
      match s.turns[n]? with
      | some ⟨task, routed, .began, added, seen⟩ =>
          let turn : HandledTurn := ⟨task, routed, .began, added, seen⟩
          let db := s.stores routed.message.targetAgentId
          match agents routed.message.targetAgentId with
          | none => some (s.advance n turn (.ended none) db seen)
          | some agent =>
              let began := beginTurn hasMemory agent.agentId answers db routed.message
              some (s.advance n turn began.1 began.2 seen)
      | _ => none
  | .read n recent recallSection =>
      match s.turns[n]? with
      | some ⟨task, routed, .stored, added, _⟩ =>
          (agents routed.message.targetAgentId).map fun agent =>
            let turn : HandledTurn := ⟨task, routed, .stored, added, none⟩
            let db := s.stores routed.message.targetAgentId
            let phase := readHistory agent recent recallSection db routed.message
            s.advance n turn phase db
              (match phase with
              | .prepared prepared => some prepared.history
              | _ => none)
      | _ => none
  | .finish n run answers =>
      match s.turns[n]? with
      | some ⟨task, routed, .prepared prepared, added, seen⟩ =>
          (agents routed.message.targetAgentId).map fun agent =>
            let turn : HandledTurn := ⟨task, routed, .prepared prepared, added, seen⟩
            let db := s.stores routed.message.targetAgentId
            let finished := finishTurn agent run answers db routed.message prepared
            s.advance n turn (.ended finished.1) finished.2 seen
      | _ => none
  | .handlerDone n =>
      match s.turns[n]? with
      | some ⟨task, routed, .ended result, added, seen⟩ =>
          match result with
          | some (.error (.panic _)) => none
          | _ => (s.coordinator.step (.handlerDone task)).map fun coordinator => { s with
              coordinator
              turns := s.turns.set n ⟨task, routed, .returned result, added, seen⟩ }
      | _ => none
  | .idleTimeout task => s.coordinate (.idleTimeout task)
  | .channelClosed task => s.coordinate (.channelClosed task)
  | .unlink task => s.coordinate (.unlink task)
  | .dropReceiver task => s.coordinate (.dropReceiver task)

/-- **No worker is spawned beside another one of its session** that may still handle a message. -/
def SpawnsOverRetired (s : Service E) : ServiceAction E → Prop
  | .workerSenderForKey call => s.coordinator.SpawnsOverRetired (.workerSenderForKey call)
  | _ => True

end Service

end Turn
end SimpleClaw
