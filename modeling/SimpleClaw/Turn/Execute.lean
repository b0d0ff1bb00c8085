import SimpleClaw.React.Loop
import SimpleClaw.Run.StreamingTurn
import SimpleClaw.Turn.Prepare

/-!
# A turn and the store

The inbound message is stored while the turn is prepared, the reply after the react loop, and
there are errors in between; an append that fails may have stored its message.

* `execute`: the turn, on the store.
* `ShortTermDb.log`: the messages of a session.
* `KeepsLog`: what the turn has added to the logs, by its result.
* `keepsLog_iff`: it has added just that, exactly if no reply is stored whose vector is lost.
-/

namespace SimpleClaw

/-- The messages of a session, in their order. -/
def Memory.ShortTermDb.log {E : Type} (db : ShortTermDb E) (sessionId : Text) : List MessageRow :=
  db.messages.filter fun m => m.sessionId = sessionId

namespace Turn

open Gateway (InboundMessage)
open Memory (ShortTermDb MessageRow StoredRole)
open React (RunOutcome)

variable {E : Type}

/-! ## The turn -/

structure TurnOutcome where
  reply : Text
  toolCalls : List React.ToolExecutionResult
  memoryRecallUsed : Bool
  memoryRecallShortHits : Nat
  memoryRecallLongHits : Nat

inductive TurnDisposition where
  | contextRecorded
  | noReply
  | replied (outcome : TurnOutcome)

/-- What a turn is answered: whether the agent has a memory, what its preparation is answered, the
outcome of the react loop, and what the append of the reply is answered. -/
structure TurnAnswers (E : Type) where
  hasMemory : Bool
  prepare : PrepareAnswers E
  run : Except FrameworkError RunOutcome
  finalize : AppendAnswers E

def finalizeTurn (answers : AppendAnswers E) (db : ShortTermDb E) (sessionId : Text)
    (outcome : RunOutcome) (memoryRecallShortHits memoryRecallLongHits : Nat) :
    Except FrameworkError TurnDisposition × ShortTermDb E :=
  if Streaming.isNoReply outcome.reply then (.ok .noReply, db)
  else
    match appendMessage answers db sessionId .assistant outcome.reply none with
    | (.error error, db) => (.error error, db)
    | (.ok (), db) =>
        (.ok (.replied
          { reply := outcome.reply
            toolCalls := outcome.toolCalls
            memoryRecallUsed := decide (0 < memoryRecallShortHits + memoryRecallLongHits)
            memoryRecallShortHits := memoryRecallShortHits
            memoryRecallLongHits := memoryRecallLongHits }), db)

def execute (agent : AgentRuntimeConfig) (answers : TurnAnswers E) (db : ShortTermDb E)
    (inbound : InboundMessage) (sessionId : Text) :
    Except TurnFailure TurnDisposition × ShortTermDb E :=
  if answers.hasMemory = false then
    (.error (.error (.config (("missing memory store for agent '" : Text) ++ agent.agentId ++
      ("'" : Text)))), db)
  else if inbound.invoke = false then
    match recordContext answers.prepare.append db inbound sessionId with
    | (.error error, db) => (.error (.error error), db)
    | (.ok (), db) => (.ok .contextRecorded, db)
  else
    match prepareTurn agent answers.prepare db inbound sessionId with
    | (.error failure, db) => (.error failure, db)
    | (.ok prepared, db) =>
        match agent.effectiveExecution.resolvedEnv with
        | .error error => (.error (.error error), db)
        | .ok _ =>
            match answers.run with
            | .error error => (.error (.error error), db)
            | .ok outcome =>
                match finalizeTurn answers.finalize db sessionId outcome
                    prepared.memoryRecallShortHits prepared.memoryRecallLongHits with
                | (.error error, db) => (.error (.error error), db)
                | (.ok disposition, db) => (.ok disposition, db)

/-! ## The logs -/

/-- A message of the turn as it is stored, under whatever id. -/
structure StoredAs (m : MessageRow) (sessionId : Text) (role : StoredRole) (content : Text)
    (username : Option Text) : Prop where
  sessionId : m.sessionId = sessionId
  role : m.role = role
  content : m.content = content
  username : m.username = (username.map Text.trim).filter fun name => name ≠ []

/-- What a turn adds to the log of its session: the inbound message, and the reply if there is
one; an error leaves the log as it is or with the inbound message. -/
inductive Adds (inbound : InboundMessage) (sessionId : Text) :
    Except TurnFailure TurnDisposition → List MessageRow → Prop where
  | context {m} (h : StoredAs m sessionId .user inbound.content (some inbound.username)) :
      Adds inbound sessionId (.ok .contextRecorded) [m]
  | noReply {m} (h : StoredAs m sessionId .user inbound.content (some inbound.username)) :
      Adds inbound sessionId (.ok .noReply) [m]
  | replied {m n} {outcome : TurnOutcome}
      (h : StoredAs m sessionId .user inbound.content (some inbound.username))
      (h' : StoredAs n sessionId .assistant outcome.reply none) :
      Adds inbound sessionId (.ok (.replied outcome)) [m, n]
  | failedBefore {failure} : Adds inbound sessionId (.error failure) []
  | failedAfter {failure m}
      (h : StoredAs m sessionId .user inbound.content (some inbound.username)) :
      Adds inbound sessionId (.error failure) [m]

/-- **What a turn does to the logs**, with this result. -/
structure KeepsLog (inbound : InboundMessage) (sessionId : Text) (db db' : ShortTermDb E)
    (result : Except TurnFailure TurnDisposition) : Prop where
  own : ∃ added, db'.log sessionId = db.log sessionId ++ added ∧
    Adds inbound sessionId result added
  others : ∀ other ≠ sessionId, db'.log other = db.log other

/-- **The reply of the turn is stored and its vector lost**: the turn comes to its end with a
reply, whose message goes into the table and whose vector does not go into the index. -/
structure LosesReply (agent : AgentRuntimeConfig) (answers : TurnAnswers E) (db : ShortTermDb E)
    (inbound : InboundMessage) : Prop where
  memory : answers.hasMemory = true
  invoke : inbound.invoke = true
  stores : answers.prepare.append.Stores
  kept : ¬ answers.prepare.append.LosesVector
  history : agent.effectiveExecution.historyMessages = 0 ∨ answers.prepare.recent = none
  prompt : ∃ promptBuild,
    buildTurnSystemPrompt agent answers.prepare.recallSection inbound.content = .ok promptBuild
  env : ∃ executionEnv, agent.effectiveExecution.resolvedEnv = .ok executionEnv
  reply : ∃ outcome, answers.run = .ok outcome ∧ Streaming.isNoReply outcome.reply = false
  replyStores : answers.finalize.Stores
  lost : answers.finalize.LosesVector
  room : db.sequence + 1 < i64Max

section Log

variable {db stored : ShortTermDb E} {sessionId other : Text} {role : StoredRole}
  {content : Text} {username : Option Text} {embedding : Option E}

/-- A message is the last one of its session. -/
theorem log_of_appendMessage
    (h : db.appendMessage sessionId role content username embedding = .ok stored) :
    ∃ m, stored.log sessionId = db.log sessionId ++ [m] ∧
      StoredAs m sessionId role content username := by
  refine ⟨ShortTermDb.newMessage (db.sequence + 1) sessionId role content username, ?_,
    ⟨rfl, rfl, rfl, rfl⟩⟩
  rw [ShortTermDb.log, (messages_of_appendMessage h).1, List.filter_append, ShortTermDb.log]
  congr 1
  exact List.filter_cons_of_pos (decide_eq_true rfl)

/-- It is in no other session. -/
theorem log_of_appendMessage_of_ne
    (h : db.appendMessage sessionId role content username embedding = .ok stored)
    (hne : other ≠ sessionId) : stored.log other = db.log other := by
  rw [ShortTermDb.log, (messages_of_appendMessage h).1, List.filter_append, ShortTermDb.log,
    List.filter_cons_of_neg (fun heq => hne (of_decide_eq_true heq).symm), List.filter_nil,
    List.append_nil]

end Log

/-! ## The effect of a turn -/

section Effect

variable {agent : AgentRuntimeConfig} {answers : TurnAnswers E} {db stored : ShortTermDb E}
  {inbound : InboundMessage} {sessionId : Text} {embedding : Option E}

/-- A turn that has stored nothing. -/
theorem keepsLog_refused (failure : TurnFailure) :
    KeepsLog inbound sessionId db db (.error failure) where
  own := ⟨[], (List.append_nil _).symm, .failedBefore⟩
  others := fun _ _ => rfl

/-- A turn that has stored the inbound message and nothing else. -/
theorem keepsLog_stored {result : Except TurnFailure TurnDisposition}
    (h : db.appendMessage sessionId .user inbound.content (some inbound.username) embedding =
      .ok stored)
    (hresult : (∃ failure, result = .error failure) ∨ result = .ok .contextRecorded ∨
      result = .ok .noReply) : KeepsLog inbound sessionId db stored result where
  own := by
    obtain ⟨m, hlog, hm⟩ := log_of_appendMessage h
    refine ⟨[m], hlog, ?_⟩
    rcases hresult with ⟨failure, rfl⟩ | rfl | rfl
    · exact .failedAfter hm
    · exact .context hm
    · exact .noReply hm
  others := fun _ hne => log_of_appendMessage_of_ne h hne

/-- A turn that has stored the inbound message and the reply it gives. -/
theorem keepsLog_replied {outcome : TurnOutcome} {embedding' : Option E} {db' : ShortTermDb E}
    (h : db.appendMessage sessionId .user inbound.content (some inbound.username) embedding =
      .ok stored)
    (h' : stored.appendMessage sessionId .assistant outcome.reply none embedding' = .ok db') :
    KeepsLog inbound sessionId db db' (.ok (.replied outcome)) where
  own := by
    obtain ⟨m, hlog, hm⟩ := log_of_appendMessage h
    obtain ⟨n, hlog', hn⟩ := log_of_appendMessage h'
    refine ⟨[m, n], ?_, .replied hm hn⟩
    rw [hlog', hlog, List.append_assoc, List.singleton_append]
  others := fun _ hne =>
    (log_of_appendMessage_of_ne h' hne).trans (log_of_appendMessage_of_ne h hne)

/-- Two messages are stored, and an error is no excuse for two. -/
theorem not_keepsLog_lost {failure : TurnFailure} {reply : Text} {embedding' : Option E}
    {db' : ShortTermDb E}
    (h : db.appendMessage sessionId .user inbound.content (some inbound.username) embedding =
      .ok stored)
    (h' : stored.appendMessage sessionId .assistant reply none embedding' = .ok db') :
    ¬ KeepsLog inbound sessionId db db' (.error failure) := by
  rintro ⟨⟨added, hadded, hadds⟩, -⟩
  obtain ⟨m, hlog, -⟩ := log_of_appendMessage h
  obtain ⟨n, hlog', -⟩ := log_of_appendMessage h'
  rw [hlog', hlog, List.append_assoc] at hadded
  have hadded := List.append_cancel_left hadded
  cases hadds with
  | failedBefore => exact List.cons_ne_nil _ _ hadded
  | failedAfter _ => cases (List.cons.inj hadded).2

/-- The end of a turn does to the logs what its result says, exactly if it does not store a reply
whose vector is lost. -/
theorem keepsLog_finalizeTurn {finalize : AppendAnswers E} {outcome : RunOutcome}
    {shortHits longHits : Nat} {result : Except FrameworkError TurnDisposition}
    {db' : ShortTermDb E}
    (h : db.appendMessage sessionId .user inbound.content (some inbound.username) embedding =
      .ok stored)
    (hended : finalizeTurn finalize stored sessionId outcome shortHits longHits = (result, db')) :
    KeepsLog inbound sessionId db db' (result.mapError .error) ↔
      ¬ (Streaming.isNoReply outcome.reply = false ∧ finalize.Stores ∧ finalize.LosesVector ∧
        db.sequence + 1 < i64Max) := by
  rw [finalizeTurn] at hended
  cases hreply : Streaming.isNoReply outcome.reply with
  | true =>
      rw [if_pos hreply] at hended
      cases hended
      exact iff_of_true (keepsLog_stored h (.inr (.inr rfl))) fun hlost => nomatch hlost.1
  | false =>
      rw [if_neg (by rw [hreply]; exact Bool.false_ne_true)] at hended
      have hspec := appendMessage_spec finalize stored sessionId .assistant outcome.reply none
      generalize appendMessage finalize stored sessionId .assistant outcome.reply none = appended
        at hspec hended
      rw [← (messages_of_appendMessage h).2]
      cases hspec with
      | refused hrefused =>
          cases hended
          exact iff_of_true (keepsLog_stored h (.inl ⟨_, rfl⟩))
            fun hlost => hrefused ⟨hlost.2.1, hlost.2.2.2⟩
      | stored hstored' _ hkept =>
          cases hended
          exact iff_of_true (keepsLog_replied h hstored') fun hlost => hkept hlost.2.2.1
      | lost hstored' hstores hlost =>
          cases hended
          have hroom := exists_appendMessage_iff.mp ⟨_, hstored'⟩
          exact iff_of_false (not_keepsLog_lost h hstored')
            (not_not.mpr ⟨rfl, hstores, hlost, hroom⟩)

/-- **The turn does to the logs what its result says, exactly if it does not store a reply whose
vector is lost.** -/
theorem keepsLog_iff (agent : AgentRuntimeConfig) (answers : TurnAnswers E) (db : ShortTermDb E)
    (inbound : InboundMessage) (sessionId : Text) :
    KeepsLog inbound sessionId db (execute agent answers db inbound sessionId).2
        (execute agent answers db inbound sessionId).1 ↔
      ¬ LosesReply agent answers db inbound := by
  rw [execute]
  split
  · next hmemory =>
    refine iff_of_true (keepsLog_refused _) fun hloses => ?_
    rw [hloses.memory] at hmemory
    cases hmemory
  split
  · next hinvoke =>
    -- the message is only recorded
    refine iff_of_true ?_ fun hloses => by rw [hloses.invoke] at hinvoke; cases hinvoke
    have hspec := appendMessage_spec answers.prepare.append db sessionId .user inbound.content
      (some inbound.username)
    rw [recordContext]
    generalize appendMessage answers.prepare.append db sessionId .user inbound.content
      (some inbound.username) = appended at hspec
    cases hspec with
    | refused => exact keepsLog_refused _
    | stored hstored => exact keepsLog_stored hstored (.inr (.inl rfl))
    | lost hstored => exact keepsLog_stored hstored (.inl ⟨_, rfl⟩)
  next hmemory hinvoke =>
  have hspec := prepareTurn_spec agent answers.prepare db inbound sessionId
  generalize prepareTurn agent answers.prepare db inbound sessionId = prepares at hspec
  cases hspec with
  | refused hrefused =>
      refine iff_of_true (keepsLog_refused _) fun hloses => hrefused ⟨hloses.stores, ?_⟩
      have hroom := hloses.room
      omega
  | failed hstored hfailed =>
      refine iff_of_true (keepsLog_stored hstored (.inl ⟨_, rfl⟩)) fun hloses => ?_
      rcases hfailed with hlost | hread | hprompt
      · exact hloses.kept hlost
      · exact hread hloses.history
      · obtain ⟨promptBuild, hbuilt⟩ := hloses.prompt
        exact hprompt promptBuild hbuilt
  | @prepared prepared embedding stored hstored hstores hkept hhistory hprompt =>
      simp only
      split
      · next error henv =>
        refine iff_of_true (keepsLog_stored hstored (.inl ⟨_, rfl⟩)) fun hloses => ?_
        obtain ⟨executionEnv, hresolved⟩ := hloses.env
        rw [henv] at hresolved
        cases hresolved
      · next executionEnv henv =>
        split
        · next error hrun =>
          refine iff_of_true (keepsLog_stored hstored (.inl ⟨_, rfl⟩)) fun hloses => ?_
          obtain ⟨outcome, houtcome, -⟩ := hloses.reply
          rw [hrun] at houtcome
          cases houtcome
        · next outcome hrun =>
          have hloses : (Streaming.isNoReply outcome.reply = false ∧ answers.finalize.Stores ∧
              answers.finalize.LosesVector ∧ db.sequence + 1 < i64Max) ↔
                LosesReply agent answers db inbound := by
            constructor
            · rintro ⟨hreply, hstores', hlost, hroom⟩
              exact ⟨eq_true_of_ne_false hmemory, eq_true_of_ne_false hinvoke, hstores, hkept,
                exists_seededHistory_iff.mp ⟨_, hhistory⟩, hprompt, ⟨_, henv⟩,
                ⟨outcome, hrun, hreply⟩, hstores', hlost, hroom⟩
            · intro hloses
              obtain ⟨outcome', houtcome, hreply⟩ := hloses.reply
              rw [hrun] at houtcome
              obtain rfl := Except.ok.inj houtcome
              exact ⟨hreply, hloses.replyStores, hloses.lost, hloses.room⟩
          cases hended : finalizeTurn answers.finalize stored sessionId outcome
              prepared.memoryRecallShortHits prepared.memoryRecallLongHits with
          | mk result db' =>
              have hends := keepsLog_finalizeTurn hstored hended
              rw [hloses] at hends
              cases result with
              | error error => exact hends
              | ok disposition => exact hends

end Effect

/-- Nothing fails until the vector of the reply is refused. -/
def refusedVector : TurnAnswers Unit where
  hasMemory := true
  prepare := .untroubled Unit
  run := .ok (.of "hi" [])
  finalize := ⟨some (), none, none, none, some (.db "disk I/O error")⟩

/-- The reply is stored, its vector is refused, and the turn returns the error. -/
theorem reply_stored_with_error : ¬ ∀ (agent : AgentRuntimeConfig) (answers : TurnAnswers Unit)
    (db : ShortTermDb Unit) (inbound : InboundMessage) (sessionId : Text),
    KeepsLog inbound sessionId db (execute agent answers db inbound sessionId).2
      (execute agent answers db inbound sessionId).1 := by
  intro hall
  obtain ⟨added, hadded, hadds⟩ :=
    (hall (agentWithWindow none) refusedVector (.empty Unit) channelInbound "s").own
  have hresult : (execute (agentWithWindow none) refusedVector (.empty Unit) channelInbound "s").1 =
      .error (.error (.db "disk I/O error")) := rfl
  have hlength : ((execute (agentWithWindow none) refusedVector (.empty Unit) channelInbound
      "s").2.log "s").length = 2 := rfl
  rw [hresult] at hadds
  rw [hadded] at hlength
  cases hadds <;> cases hlength

end Turn
end SimpleClaw
