import SimpleClaw.Config.Validate
import SimpleClaw.Gateway.Listener
import SimpleClaw.Memory.ShortTerm
import SimpleClaw.Providers.Messages
import SimpleClaw.Turn.RecallQuery

/-!
# The preparation of a turn

The inbound message is stored, and the last messages of the session, that one among them, are the
history the model is sent.  What is computed elsewhere is given as an answer: the vector of a
text, which of the statements of an append fails, and what is recalled.

* `appendMessage`: an append, statement by statement.
* `ExecutionDefaultsConfig.mergeWithOverrides`: the configuration of an agent.
* `prepareTurn`, `seededHistory`: the history, from the store.
* `endsWithInbound_iff`: it ends with the inbound message exactly if the window is not empty.
-/

namespace SimpleClaw
namespace Turn

open Config (GatewayChannelKind)
open Gateway (InboundMessage)
open Memory (ShortTermDb MessageRow StoredRole)
open Providers

variable {E : Type}

/-! ## Configuration -/

/-- What a turn reads of `memory_recall`. -/
structure MemoryRecallConfig where
  enabled : Bool
  recallWordCountThreshold : Nat
  deriving DecidableEq

structure MemoryRecallOverrides where
  enabled : Option Bool
  recallWordCountThreshold : Option Nat
  deriving DecidableEq

def MemoryRecallConfig.normalized (config : MemoryRecallConfig) : MemoryRecallConfig where
  enabled := config.enabled
  recallWordCountThreshold := min (max config.recallWordCountThreshold 1) 10

/-- The variables by their names in order, each with its value if it has been resolved. -/
abbrev EnvSecrets := List (Text × Option Text)

/-- What a turn reads of the configuration. -/
structure ExecutionDefaultsConfig where
  maxSteps : Nat
  historyMessages : Nat
  env : EnvSecrets
  memoryRecall : MemoryRecallConfig

structure AgentExecutionOverrides where
  maxSteps : Option Nat
  historyMessages : Option Nat
  env : Option EnvSecrets
  memoryRecall : Option MemoryRecallOverrides

/-- `BTreeMap::insert` -/
def insertEnv (key : Text) (value : Option Text) : EnvSecrets → EnvSecrets
  | [] => [(key, value)]
  | (key', value') :: env =>
      if key < key' then (key, value) :: (key', value') :: env
      else if key = key' then (key, value) :: env
      else (key', value') :: insertEnv key value env

def ExecutionDefaultsConfig.mergeWithOverrides (defaults : ExecutionDefaultsConfig)
    (overrides : AgentExecutionOverrides) : ExecutionDefaultsConfig where
  maxSteps := overrides.maxSteps.getD defaults.maxSteps
  historyMessages := overrides.historyMessages.getD defaults.historyMessages
  env :=
    match overrides.env with
    | some env => env.foldl (fun env entry => insertEnv entry.1 entry.2 env) defaults.env
    | none => defaults.env
  memoryRecall :=
    match overrides.memoryRecall with
    | some memory =>
        { enabled := memory.enabled.getD defaults.memoryRecall.enabled
          recallWordCountThreshold :=
            memory.recallWordCountThreshold.getD defaults.memoryRecall.recallWordCountThreshold }
    | none => defaults.memoryRecall

/-- The variables of an execution; the first that has not been resolved is an error. -/
def ExecutionDefaultsConfig.resolvedEnv (execution : ExecutionDefaultsConfig) :
    Except FrameworkError (List (Text × Text)) :=
  execution.env.mapM fun entry =>
    match entry.2 with
    | some value => .ok (entry.1, value)
    | none =>
        .error (.config (("execution env secret '" : Text) ++ entry.1 ++
          ("' was not resolved before runtime assembly" : Text)))

structure AgentRuntimeConfig where
  agentId : Text
  agentName : Text
  systemPrompt : Text
  effectiveExecution : ExecutionDefaultsConfig

/-! ## The store -/

/-- What an append is answered: the vector of the content, if it could be computed, and the
failures of the connection and of the three statements. -/
structure AppendAnswers (E : Type) where
  embedding : Option E
  connection : Option FrameworkError
  session : Option FrameworkError
  message : Option FrameworkError
  vector : Option FrameworkError

/-- `append_message`: there is no transaction, so that a message whose vector cannot be put into
the index is stored all the same.  The rows of `sessions` are not read. -/
def appendMessage (answers : AppendAnswers E) (db : ShortTermDb E) (sessionId : Text)
    (role : StoredRole) (content : Text) (username : Option Text) :
    Except FrameworkError Unit × ShortTermDb E :=
  match (answers.connection.or answers.session).or answers.message with
  | some error => (.error error, db)
  | none =>
      match answers.embedding, answers.vector with
      | some _, some error =>
          match db.appendMessage sessionId role content username none with
          | .error full => (.error full, db)
          | .ok stored => (.error error, stored)
      | embedding, _ =>
          match db.appendMessage sessionId role content username embedding with
          | .error full => (.error full, db)
          | .ok stored => (.ok (), stored)

/-- `recent_messages`; `failure` is an error of the query. -/
def recentMessages (failure : Option FrameworkError) (db : ShortTermDb E) (sessionId : Text)
    (limit : Nat) : Except FrameworkError (List MessageRow) :=
  if limit = 0 then .ok []
  else
    match failure with
    | some error => .error error
    | none => .ok ((db.conversation sessionId).reverse.take limit).reverse

/-! ## The history -/

/-- A stored message as the model is sent it; the name of the user comes first. -/
def historyMessage (item : MessageRow) : Option Message :=
  let role : Option Role :=
    match item.role with
    | .user => some .user
    | .assistant => some .assistant
    | .system | .tool => none
  role.map fun role =>
    let content :=
      if role = .user then
        match (item.username.map Text.trim).filter fun username => username ≠ [] with
        | some username => ("[" : Text) ++ username ++ ("] " : Text) ++ item.content
        | none => item.content
      else item.content
    .text role content

def seededHistory (agent : AgentRuntimeConfig) (failure : Option FrameworkError)
    (db : ShortTermDb E) (sessionId : Text) : Except FrameworkError (List Message) :=
  (recentMessages failure db sessionId agent.effectiveExecution.historyMessages).map
    (·.filterMap historyMessage)

/-! ## The system prompt -/

structure PromptBuild where
  systemPrompt : Text
  memoryRecallShortHits : Nat
  memoryRecallLongHits : Nat

def PromptBuild.withoutRecall (systemPrompt : Text) : PromptBuild := ⟨systemPrompt, 0, 0⟩

/-- What is recalled, as a section of the prompt. -/
structure PromptBuildMemorySection where
  sectionText : Text
  shortHits : Nat
  longHits : Nat

def countRecallWords (value : Text) : Nat := value.splitWhitespace.length

/-- `build_turn_system_prompt`.  The recall is given: the section for a query, empty if nothing is
found. -/
def buildTurnSystemPrompt (agent : AgentRuntimeConfig)
    (recallSection : Text → Except FrameworkError PromptBuildMemorySection) (query : Text) :
    Except SlicePanic PromptBuild :=
  let config := agent.effectiveExecution.memoryRecall.normalized
  if config.enabled = false then .ok (.withoutRecall agent.systemPrompt)
  else
    match normalizeRecallQuery (query.length + 1) query agent.agentName agent.agentId with
    -- there are always rounds enough: `stripLoop_eq`
    | none => .ok (.withoutRecall agent.systemPrompt)
    | some (.error panic) => .error panic
    | some (.ok normalizedQuery) =>
        if normalizedQuery = [] ∨
            countRecallWords normalizedQuery < config.recallWordCountThreshold then
          .ok (.withoutRecall agent.systemPrompt)
        else
          match recallSection normalizedQuery with
          | .error _ => .ok (.withoutRecall agent.systemPrompt)
          | .ok recalled =>
              if recalled.sectionText = [] then .ok (.withoutRecall agent.systemPrompt)
              else
                .ok ⟨agent.systemPrompt ++ ("\n\n" : Text) ++ recalled.sectionText,
                  recalled.shortHits, recalled.longHits⟩

def injectCallerContext (base : Text) (inbound : InboundMessage) : Text :=
  let chatType : Text := if inbound.isDm then "dm" else "group"
  let triggerLine : Text :=
    if inbound.userId = "system" ∧ inbound.username = "cron" then "\ntrigger: scheduled_cron"
    else []
  let guildLine : Text := inbound.guildId.elim [] fun gid => ("\nguild_id: " : Text) ++ gid
  let messageLine : Text :=
    inbound.sourceMessageId.elim [] fun messageId => ("\nmessage_id: " : Text) ++ messageId
  base ++ ("\n\n# CURRENT CONTEXT\nchat_type: " : Text) ++ chatType ++ ("\nplatform: " : Text) ++
    inbound.sourceChannel.asStr ++ ("\nchannel_id: " : Text) ++ inbound.channelId ++ guildLine ++
    messageLine ++ triggerLine ++ ("\nSpeaker: **" : Text) ++ inbound.username ++
    ("** (id: " : Text) ++ inbound.userId ++ (")" : Text)

/-! ## Preparing -/

structure PreparedTurn where
  systemPrompt : Text
  history : List Message
  memoryRecallShortHits : Nat
  memoryRecallLongHits : Nat

/-- Why a turn ends early. -/
inductive TurnFailure where
  | error (error : FrameworkError)
  | panic (panic : SlicePanic)

/-- What the preparation of a turn is answered. -/
structure PrepareAnswers (E : Type) where
  append : AppendAnswers E
  recent : Option FrameworkError
  recallSection : Text → Except FrameworkError PromptBuildMemorySection

def prepareTurn (agent : AgentRuntimeConfig) (answers : PrepareAnswers E) (db : ShortTermDb E)
    (inbound : InboundMessage) (sessionId : Text) :
    Except TurnFailure PreparedTurn × ShortTermDb E :=
  match appendMessage answers.append db sessionId .user inbound.content
      (some inbound.username) with
  | (.error error, db) => (.error (.error error), db)
  | (.ok (), db) =>
      match seededHistory agent answers.recent db sessionId with
      | .error error => (.error (.error error), db)
      | .ok history =>
          match buildTurnSystemPrompt agent answers.recallSection inbound.content with
          | .error panic => (.error (.panic panic), db)
          | .ok promptBuild =>
              (.ok ⟨injectCallerContext promptBuild.systemPrompt inbound, history,
                promptBuild.memoryRecallShortHits, promptBuild.memoryRecallLongHits⟩, db)

def recordContext (answers : AppendAnswers E) (db : ShortTermDb E) (inbound : InboundMessage)
    (sessionId : Text) : Except FrameworkError Unit × ShortTermDb E :=
  appendMessage answers db sessionId .user inbound.content (some inbound.username)

/-! ## What an append does -/

section Append

variable {answers : AppendAnswers E} {db stored : ShortTermDb E} {sessionId : Text}
  {role : StoredRole} {content : Text} {username : Option Text}

/-- The message goes into the table, if there is room. -/
structure AppendAnswers.Stores (answers : AppendAnswers E) : Prop where
  connection : answers.connection = none
  session : answers.session = none
  message : answers.message = none

/-- The vector is there and does not go into the index. -/
structure AppendAnswers.LosesVector (answers : AppendAnswers E) : Prop where
  embedding : answers.embedding.isSome = true
  vector : answers.vector.isSome = true

/-- What an append comes to: the message is not stored, or it is, and the append succeeds or its
vector is lost. -/
inductive Appends (answers : AppendAnswers E) (db : ShortTermDb E) (sessionId : Text)
    (role : StoredRole) (content : Text) (username : Option Text) :
    Except FrameworkError Unit × ShortTermDb E → Prop where
  | refused {error} (h : ¬ (answers.Stores ∧ db.sequence < i64Max)) :
      Appends answers db sessionId role content username (.error error, db)
  | stored {embedding stored} (hstored : db.appendMessage sessionId role content username
        embedding = .ok stored) (hstores : answers.Stores) (h : ¬ answers.LosesVector) :
      Appends answers db sessionId role content username (.ok (), stored)
  | lost {error stored} (hstored : db.appendMessage sessionId role content username none =
        .ok stored) (hstores : answers.Stores) (h : answers.LosesVector) :
      Appends answers db sessionId role content username (.error error, stored)

/-- A message is stored exactly if there is an id left. -/
theorem exists_appendMessage_iff {embedding : Option E} :
    (∃ stored, db.appendMessage sessionId role content username embedding = .ok stored) ↔
      db.sequence < i64Max := by
  rw [ShortTermDb.appendMessage]
  split
  · next h => exact iff_of_true ⟨_, rfl⟩ h
  · next h =>
    refine iff_of_false ?_ h
    rintro ⟨stored, ⟨⟩⟩

theorem appendMessage_spec (answers : AppendAnswers E) (db : ShortTermDb E) (sessionId : Text)
    (role : StoredRole) (content : Text) (username : Option Text) :
    Appends answers db sessionId role content username
      (appendMessage answers db sessionId role content username) := by
  have hfull : ∀ {embedding : Option E} {full : FrameworkError},
      db.appendMessage sessionId role content username embedding = .error full →
        ¬ (answers.Stores ∧ db.sequence < i64Max) := by
    rintro embedding full hfull ⟨-, hlt⟩
    obtain ⟨stored, hstored⟩ := exists_appendMessage_iff.mpr hlt
    rw [hfull] at hstored
    cases hstored
  rw [appendMessage]
  split
  · next error hfirst =>
    refine .refused fun ⟨hstores, _⟩ => ?_
    rw [hstores.connection, hstores.session, hstores.message] at hfirst
    cases hfirst
  · next hfirst =>
    obtain ⟨hbefore, hmessage⟩ := Option.or_eq_none_iff.mp hfirst
    obtain ⟨hconnection, hsession⟩ := Option.or_eq_none_iff.mp hbefore
    have hstores : answers.Stores := ⟨hconnection, hsession, hmessage⟩
    split
    · next embedding error hembedding hvector =>
      split
      · next full h => exact .refused (hfull h)
      · next stored hstored =>
        exact .lost hstored hstores ⟨by rw [hembedding]; rfl, by rw [hvector]; rfl⟩
    · next embedding hkept =>
      split
      · next full h => exact .refused (hfull h)
      · next stored hstored =>
        refine .stored hstored hstores fun hlost => ?_
        obtain ⟨vector, hembedding⟩ := Option.isSome_iff_exists.mp hlost.embedding
        obtain ⟨error, hvector⟩ := Option.isSome_iff_exists.mp hlost.vector
        exact hkept vector error hembedding hvector

/-- The row of a message is the last one. -/
theorem messages_of_appendMessage {embedding : Option E}
    (h : db.appendMessage sessionId role content username embedding = .ok stored) :
    stored.messages = db.messages ++
        [ShortTermDb.newMessage (db.sequence + 1) sessionId role content username] ∧
      stored.sequence = db.sequence + 1 := by
  rw [ShortTermDb.appendMessage] at h
  split at h
  · obtain rfl := Except.ok.inj h
    exact ⟨rfl, rfl⟩
  · cases h

/-- What was said is the last message of the conversation. -/
theorem conversation_of_appendMessage {embedding : Option E}
    (h : db.appendMessage sessionId role content username embedding = .ok stored)
    (hsaid : role = .user ∨ role = .assistant) :
    stored.conversation sessionId = db.conversation sessionId ++
      [ShortTermDb.newMessage (db.sequence + 1) sessionId role content username] := by
  rw [ShortTermDb.conversation, (messages_of_appendMessage h).1, List.filter_append,
    ShortTermDb.conversation]
  congr 1
  have hcond : (ShortTermDb.newMessage (db.sequence + 1) sessionId role content
      username).sessionId = sessionId ∧ MessageRow.Said (ShortTermDb.newMessage (db.sequence + 1)
        sessionId role content username) := ⟨rfl, hsaid⟩
  exact List.filter_cons_of_pos (decide_eq_true hcond)

end Append

/-! ## The history ends with the inbound message -/

/-- The text of the inbound message, with the name of its author. -/
def carriedContent (inbound : InboundMessage) : Text :=
  if inbound.username.trim = [] then inbound.content
  else ("[" : Text) ++ inbound.username.trim ++ ("] " : Text) ++ inbound.content

/-- **The history ends with the inbound message**, and before it are the last messages of the
conversation, one less than the window has places, each once and in their order. -/
def EndsWithInbound (db : ShortTermDb E) (sessionId : Text) (inbound : InboundMessage)
    (window : Nat) (history : List Message) : Prop :=
  ∃ (earlier : List MessageRow) (front : List Message),
    earlier <:+ db.conversation sessionId ∧
      earlier.length = min (window - 1) (db.conversation sessionId).length ∧
      List.Forall₂ (fun item message => historyMessage item = some message) earlier front ∧
      history = front ++ [.text .user (carriedContent inbound)]

/-- What was said is sent, message for message. -/
theorem forall₂_historyMessage {items : List MessageRow} (h : ∀ item ∈ items, item.Said) :
    List.Forall₂ (fun item message => historyMessage item = some message) items
      (items.filterMap historyMessage) := by
  induction items with
  | nil => exact .nil
  | cons item items ih =>
      obtain ⟨message, hmessage⟩ : ∃ message, historyMessage item = some message := by
        rcases h item List.mem_cons_self with hrole | hrole
        · exact ⟨_, by rw [historyMessage, hrole]; rfl⟩
        · exact ⟨_, by rw [historyMessage, hrole]; rfl⟩
      rw [List.filterMap_cons_some hmessage]
      exact .cons hmessage (ih fun item' hmem => h item' (List.mem_cons_of_mem _ hmem))

theorem filter_ne_nil (name : Text) : (some name).filter (fun name => name ≠ []) =
    if name = [] then none else some name := by
  cases name <;> rfl

/-- The inbound message, stored and read again. -/
theorem historyMessage_inbound (inbound : InboundMessage) (id : Int) (sessionId : Text) :
    historyMessage (ShortTermDb.newMessage id sessionId .user inbound.content
        (some inbound.username)) =
      some (.text .user (carriedContent inbound)) := by
  rw [historyMessage, carriedContent]
  simp only [ShortTermDb.newMessage, Option.map_some]
  by_cases hempty : inbound.username.trim = []
  · rw [filter_ne_nil, if_pos hempty, if_pos hempty]
    rfl
  · rw [filter_ne_nil, if_neg hempty, if_neg hempty, Option.map_some, Text.trim_trim,
      filter_ne_nil, if_neg hempty]
    rfl

/-- The last messages with one more at the end. -/
theorem reverse_take_concat {α : Type} (l : List α) (x : α) {n : Nat} (hn : 1 ≤ n) :
    ((l ++ [x]).reverse.take n).reverse = l.drop (l.length - (n - 1)) ++ [x] := by
  obtain ⟨n, rfl⟩ := Nat.exists_eq_add_of_le' hn
  rw [List.reverse_append, List.reverse_singleton, List.singleton_append, List.take_succ_cons,
    List.reverse_cons, List.take_reverse, List.reverse_reverse, Nat.add_sub_cancel]

/-- The history can be read if it is not asked for or the query succeeds. -/
theorem exists_seededHistory_iff {agent : AgentRuntimeConfig} {failure : Option FrameworkError}
    {db : ShortTermDb E} {sessionId : Text} :
    (∃ history, seededHistory agent failure db sessionId = .ok history) ↔
      agent.effectiveExecution.historyMessages = 0 ∨ failure = none := by
  unfold seededHistory recentMessages
  split
  · next hzero => exact iff_of_true ⟨_, rfl⟩ (.inl hzero)
  · next hpos =>
    cases failure with
    | none => exact iff_of_true ⟨_, rfl⟩ (.inr rfl)
    | some error =>
        exact iff_of_false (fun ⟨_, h⟩ => by cases h) fun h => h.elim hpos fun h => by cases h

/-- What the preparation of a turn comes to, one constructor for each of its ends. -/
inductive Prepares (agent : AgentRuntimeConfig) (answers : PrepareAnswers E) (db : ShortTermDb E)
    (inbound : InboundMessage) (sessionId : Text) :
    Except TurnFailure PreparedTurn × ShortTermDb E → Prop where
  | refused {error} (h : ¬ (answers.append.Stores ∧ db.sequence < i64Max)) :
      Prepares agent answers db inbound sessionId (.error error, db)
  | failed {error embedding stored}
      (hstored : db.appendMessage sessionId .user inbound.content (some inbound.username)
        embedding = .ok stored)
      (h : answers.append.LosesVector ∨
        ¬ (agent.effectiveExecution.historyMessages = 0 ∨ answers.recent = none) ∨
        ∀ promptBuild, buildTurnSystemPrompt agent answers.recallSection inbound.content ≠
          .ok promptBuild) :
      Prepares agent answers db inbound sessionId (.error error, stored)
  | prepared {prepared embedding stored}
      (hstored : db.appendMessage sessionId .user inbound.content (some inbound.username)
        embedding = .ok stored)
      (hstores : answers.append.Stores) (hkept : ¬ answers.append.LosesVector)
      (hhistory : seededHistory agent answers.recent stored sessionId = .ok prepared.history)
      (hprompt : ∃ promptBuild, buildTurnSystemPrompt agent answers.recallSection inbound.content =
        .ok promptBuild) :
      Prepares agent answers db inbound sessionId (.ok prepared, stored)

theorem prepareTurn_spec (agent : AgentRuntimeConfig) (answers : PrepareAnswers E)
    (db : ShortTermDb E) (inbound : InboundMessage) (sessionId : Text) :
    Prepares agent answers db inbound sessionId
      (prepareTurn agent answers db inbound sessionId) := by
  have hspec := appendMessage_spec answers.append db sessionId .user inbound.content
    (some inbound.username)
  rw [prepareTurn]
  generalize appendMessage answers.append db sessionId .user inbound.content
    (some inbound.username) = appended at hspec
  cases hspec with
  | refused h => exact .refused h
  | lost hstored _ hlost => exact .failed hstored (.inl hlost)
  | @stored embedding stored hstored hstores hkept =>
      simp only
      split
      · next error hhistory =>
        refine .failed hstored (.inr (.inl fun hread => ?_))
        obtain ⟨history, hhistory'⟩ := exists_seededHistory_iff.mpr hread
        rw [hhistory] at hhistory'
        cases hhistory'
      · next history hhistory =>
        split
        · next panic hpanic =>
          refine .failed hstored (.inr (.inr fun promptBuild hprompt => ?_))
          rw [hpanic] at hprompt
          cases hprompt
        · next promptBuild hprompt =>
          exact .prepared hstored hstores hkept hhistory ⟨promptBuild, hprompt⟩

/-- **The history of a turn that is prepared ends with the inbound message**, after the last
messages of the session, exactly if the window of the agent is not empty. -/
theorem endsWithInbound_iff {agent : AgentRuntimeConfig} {defaults : ExecutionDefaultsConfig}
    {overrides : AgentExecutionOverrides} {answers : PrepareAnswers E} {db db' : ShortTermDb E}
    {inbound : InboundMessage} {sessionId : Text} {prepared : PreparedTurn}
    (hagent : agent.effectiveExecution = defaults.mergeWithOverrides overrides)
    (hprepare : prepareTurn agent answers db inbound sessionId = (.ok prepared, db')) :
    EndsWithInbound db sessionId inbound agent.effectiveExecution.historyMessages
        prepared.history ↔
      1 ≤ overrides.historyMessages.getD defaults.historyMessages := by
  have hspec := prepareTurn_spec agent answers db inbound sessionId
  rw [hprepare] at hspec
  obtain ⟨embedding, hstored, hhistory⟩ : ∃ embedding, db.appendMessage sessionId .user
      inbound.content (some inbound.username) embedding = .ok db' ∧
      seededHistory agent answers.recent db' sessionId = .ok prepared.history := by
    cases hspec with
    | prepared hstored _ _ hhistory _ => exact ⟨_, hstored, hhistory⟩
  have hwindow : agent.effectiveExecution.historyMessages =
      overrides.historyMessages.getD defaults.historyMessages := by rw [hagent]; rfl
  rw [← hwindow]
  rw [seededHistory] at hhistory
  generalize agent.effectiveExecution.historyMessages = window at hhistory ⊢
  have hconversation := conversation_of_appendMessage hstored (.inl rfl)
  by_cases hpos : 1 ≤ window
  · refine iff_of_true ?_ hpos
    unfold recentMessages at hhistory
    rw [if_neg (Nat.one_le_iff_ne_zero.mp hpos)] at hhistory
    split at hhistory
    · cases hhistory
    · have hread : ((db'.conversation sessionId).reverse.take window).reverse.filterMap
          historyMessage = prepared.history := Except.ok.inj hhistory
      rw [hconversation, reverse_take_concat _ _ hpos, List.filterMap_append] at hread
      refine ⟨_, _, List.drop_suffix ((db.conversation sessionId).length - (window - 1)) _, ?_,
        forall₂_historyMessage fun item hitem => ?_, ?_⟩
      · rw [List.length_drop]
        omega
      · exact (Memory.mem_conversation.mp (List.mem_of_mem_drop hitem)).2.2
      · rw [← hread]
        congr 1
        rw [List.filterMap_cons_some (historyMessage_inbound inbound _ sessionId)]
        rfl
  · obtain rfl := Nat.eq_zero_of_not_pos hpos
    refine iff_of_false ?_ hpos
    unfold recentMessages at hhistory
    rw [if_pos rfl] at hhistory
    have hread : [] = prepared.history := Except.ok.inj hhistory
    rintro ⟨earlier, front, -, -, -, hends⟩
    rw [← hread] at hends
    exact List.cons_ne_nil _ _ (List.append_eq_nil_iff.mp hends.symm).2

/-! ### Runs on fixed inputs -/

/-- The bot is asked in a channel. -/
def channelInbound : InboundMessage where
  traceId := "t"
  sourceChannel := .discord
  targetAgentId := "claw"
  sessionKey := "s"
  sourceMessageId := none
  channelId := "c"
  guildId := none
  isDm := false
  userId := "u"
  username := "ann"
  mentionedBot := true
  invoke := true
  content := "hello"

def plainDefaults (historyMessages : Nat) : ExecutionDefaultsConfig where
  maxSteps := 10
  historyMessages := historyMessages
  env := []
  memoryRecall := ⟨false, 1⟩

/-- The defaults with a window of two messages, overridden or not. -/
def agentWithWindow (historyMessages : Option Nat) : AgentRuntimeConfig where
  agentId := "claw"
  agentName := "Claw"
  systemPrompt := "You are Claw."
  effectiveExecution := (plainDefaults 2).mergeWithOverrides ⟨none, historyMessages, none, none⟩

/-- Nothing fails. -/
def AppendAnswers.untroubled (E : Type) : AppendAnswers E := ⟨none, none, none, none, none⟩

def PrepareAnswers.untroubled (E : Type) : PrepareAnswers E where
  append := .untroubled E
  recent := none
  recallSection := fun _ => .ok ⟨[], 0, 0⟩

theorem endsWithInbound_window : ∃ prepared db',
    prepareTurn (agentWithWindow none) (.untroubled Unit) (.empty Unit) channelInbound "s" =
        (.ok prepared, db') ∧
      EndsWithInbound (.empty Unit) "s" channelInbound
        (agentWithWindow none).effectiveExecution.historyMessages prepared.history := by
  obtain ⟨prepared, db', hprepare⟩ : ∃ prepared db',
      prepareTurn (agentWithWindow none) (.untroubled Unit) (.empty Unit) channelInbound "s" =
        (.ok prepared, db') := ⟨_, _, rfl⟩
  have hagent : (agentWithWindow none).effectiveExecution =
      (plainDefaults 2).mergeWithOverrides ⟨none, none, none, none⟩ := rfl
  exact ⟨prepared, db', hprepare, (endsWithInbound_iff hagent hprepare).mpr (by decide)⟩

/-- With an override of zero the model is sent no message at all. -/
theorem empty_window : ¬ ∀ (agent : AgentRuntimeConfig) (defaults : ExecutionDefaultsConfig)
    (overrides : AgentExecutionOverrides) (answers : PrepareAnswers Unit)
    (db db' : ShortTermDb Unit) (inbound : InboundMessage) (sessionId : Text)
    (prepared : PreparedTurn), agent.effectiveExecution = defaults.mergeWithOverrides overrides →
    prepareTurn agent answers db inbound sessionId = (.ok prepared, db') →
    EndsWithInbound db sessionId inbound agent.effectiveExecution.historyMessages
      prepared.history := by
  intro hall
  obtain ⟨earlier, front, -, -, -, hends⟩ := hall (agentWithWindow (some 0)) (plainDefaults 2)
    ⟨none, some 0, none, none⟩ (.untroubled Unit) (.empty Unit) _ channelInbound "s" _ rfl rfl
  exact List.cons_ne_nil _ _ (List.append_eq_nil_iff.mp hends.symm).2

end Turn
end SimpleClaw
