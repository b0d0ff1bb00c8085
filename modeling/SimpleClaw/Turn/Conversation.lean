import SimpleClaw.Turn.Handling

/-!
# Conversations

As long as no worker is spawned beside another one of its session, the turns of a session follow
one another, however the turns of other sessions come between their statements.

* `HandledTurn.Sound`: what a turn has added to the log, by how far it is.
* `Service.Continues`: the invariant of the service.
* `conversations_continue`: in every state, the log of each session is what it was at the start
  and then what its turns have added, in the order in which their messages were accepted, and the
  history of each turn is read from what the earlier turns have left and its own message.
-/

namespace SimpleClaw
namespace Turn

open Gateway (InboundMessage)
open Memory (ShortTermDb MessageRow StoredRole)
open Providers (Message)
open React (RunOutcome)
open Transition

variable {E : Type}

/-! ## The coordinator and its handlers -/

section Coordinator

open Session (Coordinator Routed)

/-- Every message is under the key of its session. -/
structure Addressed (s : Coordinator InboundMessage) : Prop where
  calls : ∀ d ∈ s.calls, d.key = d.message.sessionKey
  tasks : ∀ w ∈ s.tasks, ∀ m : Routed InboundMessage, m ∈ w.queue ∨ w.phase = .handling m →
    m.key = m.message.sessionKey

variable {s s' : Coordinator InboundMessage} {a : Session.Action InboundMessage}

theorem addressed_new : Addressed (Coordinator.new InboundMessage) where
  calls := fun _ h => by cases h
  tasks := fun _ h => by cases h

theorem Addressed.step (hs : Addressed s) (h : Session.Step s a s')
    (hdispatch : ∀ key message, a = .dispatch key message → key = message.sessionKey) :
    Addressed s' := by
  cases h with
  | dispatch key message =>
      exact ⟨Table.forall_mem_append hs.calls (hdispatch key message rfl), hs.tasks⟩
  | senderFound hcall hentry =>
      exact ⟨Table.forall_mem_set hs.calls (hs.calls _ (List.mem_of_getElem? hcall) :), hs.tasks⟩
  | spawned hcall hentry =>
      refine ⟨Table.forall_mem_set hs.calls (hs.calls _ (List.mem_of_getElem? hcall) :),
        Table.forall_mem_append hs.tasks ?_⟩
      rintro m (hm | hm) <;> cases hm
  | @sent c key message attempt workerId tx w hcall hv hopen =>
      have hkey : key = message.sessionKey := hs.calls _ (List.mem_of_getElem? hcall)
      refine ⟨Table.forall_mem_set hs.calls hkey, Table.forall_mem_set hs.tasks ?_⟩
      rintro m (hm | hm)
      · rcases List.mem_append.mp hm with hm | hm
        · exact hs.tasks w (List.mem_of_getElem? hv) m (.inl hm)
        · rw [List.mem_singleton.mp hm]
          exact hkey
      · exact hs.tasks w (List.mem_of_getElem? hv) m (.inr hm)
  | sendFailed hcall hv hclosed =>
      exact ⟨Table.forall_mem_set hs.calls (hs.calls _ (List.mem_of_getElem? hcall) :), hs.tasks⟩
  | attemptFailed hcall =>
      exact ⟨Table.forall_mem_set hs.calls (hs.calls _ (List.mem_of_getElem? hcall) :), hs.tasks⟩
  | removed key => exact ⟨hs.calls, hs.tasks⟩
  | received hv =>
      refine ⟨hs.calls, Table.forall_mem_set hs.tasks ?_⟩
      rintro m (hm | hm)
      · exact hs.tasks _ (List.mem_of_getElem? hv) m (.inl (List.mem_cons_of_mem _ hm))
      · cases hm
        exact hs.tasks _ (List.mem_of_getElem? hv) _ (.inl List.mem_cons_self)
  | handlerDone hv =>
      refine ⟨hs.calls, Table.forall_mem_set hs.tasks ?_⟩
      rintro m (hm | hm)
      · exact hs.tasks _ (List.mem_of_getElem? hv) m (.inl hm)
      · cases hm
  | idledOut hv =>
      refine ⟨hs.calls, Table.forall_mem_set hs.tasks ?_⟩
      rintro m (hm | hm) <;> cases hm
  | sendersGone hv =>
      refine ⟨hs.calls, Table.forall_mem_set hs.tasks ?_⟩
      rintro m (hm | hm) <;> cases hm
  | unlinked hv =>
      refine ⟨hs.calls, Table.forall_mem_set hs.tasks ?_⟩
      rintro m (hm | hm)
      · exact hs.tasks _ (List.mem_of_getElem? hv) m (.inl hm)
      · cases hm
  | exited hv =>
      refine ⟨hs.calls, Table.forall_mem_set hs.tasks ?_⟩
      rintro m (hm | hm) <;> cases hm

/-- A handler that is running goes on running until it returns. -/
theorem handling_of_step (h : Session.Step s a s') {i : Nat} {w : Session.WorkerTask InboundMessage}
    {m : Routed InboundMessage} (hw : s.tasks[i]? = some w) (hm : w.phase = .handling m)
    (hdone : a ≠ .handlerDone i) :
    ∃ w', s'.tasks[i]? = some w' ∧ w'.phase = .handling m := by
  -- a step that replaces another task, or this one without its phase
  have hset : ∀ {j : Nat} {v v' : Session.WorkerTask InboundMessage}, s.tasks[j]? = some v →
      (i = j → v'.phase = v.phase) →
        ∃ w', (s.tasks.set j v')[i]? = some w' ∧ w'.phase = .handling m := by
    intro j v v' hv hphase
    by_cases hij : i = j
    · subst hij
      obtain rfl := Option.some.inj (hv.symm.trans hw)
      exact ⟨v', Table.getElem?_set_self_of_getElem? hv, (hphase rfl).trans hm⟩
    · exact ⟨w, Table.getElem?_set_of_getElem? hw (Ne.symm hij), hm⟩
  -- a task that is not handling is another one
  have hother : ∀ {j : Nat} {v v' : Session.WorkerTask InboundMessage}, s.tasks[j]? = some v →
      v.phase ≠ .handling m → ∃ w', (s.tasks.set j v')[i]? = some w' ∧ w'.phase = .handling m := by
    intro j v v' hv hne
    refine hset hv fun hij => ?_
    subst hij
    obtain rfl := Option.some.inj (hv.symm.trans hw)
    exact absurd hm hne
  cases h with
  | spawned hcall hentry => exact ⟨w, Table.getElem?_append_of_getElem? hw _, hm⟩
  | sent hcall hv hopen => exact hset hv fun _ => rfl
  | received hv => exact hother hv nofun
  | @handlerDone j key id queue routed hv =>
      exact hset hv fun hij => absurd (congrArg Session.Action.handlerDone hij.symm) hdone
  | idledOut hv => exact hother hv nofun
  | sendersGone hv => exact hother hv nofun
  | unlinked hv => exact hother hv nofun
  | exited hv => exact hother hv nofun
  | _ => exact ⟨w, hw, hm⟩

/-- Only a worker that receives begins to handle a message. -/
theorem started_of_step (h : Session.Step s a s') (hrecv : ∀ i, a ≠ .recv i) :
    s'.started = s.started := by
  cases h with
  | received hv => exact absurd rfl (hrecv _)
  | _ => rfl

end Coordinator

/-! ## What a statement does to the log -/

/-- What a turn that has come to its end has added: nothing for an unknown agent, what its result
says, or two messages and the error of the second one's vector. -/
inductive Leaves (inbound : InboundMessage) : TurnResult → List MessageRow → Prop where
  | dropped : Leaves inbound none []
  | adds {result : Except TurnFailure TurnDisposition} {rows : List MessageRow}
      (h : Adds inbound inbound.sessionKey result rows) : Leaves inbound (some result) rows
  | lost {failure : TurnFailure} {m n : MessageRow} {reply : Text}
      (h : StoredAs m inbound.sessionKey .user inbound.content (some inbound.username))
      (h' : StoredAs n inbound.sessionKey .assistant reply none) :
      Leaves inbound (some (.error failure)) [m, n]

/-- The message of a turn, and nothing else. -/
def OwnMessage (inbound : InboundMessage) (rows : List MessageRow) : Prop :=
  ∃ m, rows = [m] ∧ StoredAs m inbound.sessionKey .user inbound.content (some inbound.username)

/-- What a turn has added, and the history it has seen, by how far it is. -/
def HandledTurn.Sound (turn : HandledTurn) : Prop :=
  match turn.phase with
  | .began => turn.added = [] ∧ turn.seen = none
  | .stored => OwnMessage turn.routed.message turn.added ∧ turn.seen = none
  | .prepared prepared =>
      OwnMessage turn.routed.message turn.added ∧ turn.seen = some prepared.history
  | .ended result | .returned result => Leaves turn.routed.message result turn.added ∧
      (turn.seen.isSome = true → turn.added ≠ [])

/-- A statement has put rows of one session at the end of the table. -/
structure Extends (sessionId : Text) (db db' : ShortTermDb E) (rows : List MessageRow) : Prop where
  messages : db'.messages = db.messages ++ rows
  session : ∀ m ∈ rows, m.sessionId = sessionId

section Statements

variable {agent : AgentRuntimeConfig} {answers : AppendAnswers E} {db db' : ShortTermDb E}
  {inbound : InboundMessage} {sessionId content : Text} {role : StoredRole}
  {username : Option Text} {rows : List MessageRow}

theorem Extends.refl (sessionId : Text) (db : ShortTermDb E) : Extends sessionId db db [] :=
  ⟨(List.append_nil _).symm, fun _ h => by cases h⟩

theorem Extends.newRows (h : Extends sessionId db db' rows) : Service.newRows db db' = rows := by
  rw [Service.newRows, h.messages, List.drop_left]

theorem Extends.log (h : Extends sessionId db db' rows) :
    db'.log sessionId = db.log sessionId ++ rows := by
  rw [ShortTermDb.log, h.messages, List.filter_append, ShortTermDb.log]
  congr 1
  exact List.filter_eq_self.mpr fun m hm => decide_eq_true (h.session m hm)

theorem Extends.log_of_ne (h : Extends sessionId db db' rows) {other : Text}
    (hne : other ≠ sessionId) : db'.log other = db.log other := by
  have hnil : rows.filter (fun m => m.sessionId = other) = [] := by
    refine List.filter_eq_nil_iff.mpr fun m hm hother => hne ?_
    rw [← of_decide_eq_true hother, h.session m hm]
  rw [ShortTermDb.log, h.messages, List.filter_append, hnil, List.append_nil, ShortTermDb.log]

/-- An append puts its message there, or fails and may have put it there all the same. -/
theorem appendMessage_extends (answers : AppendAnswers E) (db : ShortTermDb E)
    (sessionId : Text) (role : StoredRole) (content : Text) (username : Option Text) :
    ∃ rows, Extends sessionId db
        (appendMessage answers db sessionId role content username).2 rows ∧
      ((rows = [] ∧
          ∃ e, (appendMessage answers db sessionId role content username).1 = .error e) ∨
        ∃ m, rows = [m] ∧ StoredAs m sessionId role content username) := by
  have hspec := appendMessage_spec answers db sessionId role content username
  generalize appendMessage answers db sessionId role content username = appended at hspec
  have hmessage : ∀ {embedding : Option E} {stored : ShortTermDb E},
      db.appendMessage sessionId role content username embedding = .ok stored →
        ∃ rows, Extends sessionId db stored rows ∧
          ∃ m, rows = [m] ∧ StoredAs m sessionId role content username := by
    intro embedding stored hstored
    refine ⟨_, ⟨(messages_of_appendMessage hstored).1, fun m hm => ?_⟩, _, rfl, rfl, rfl, rfl, rfl⟩
    rw [List.mem_singleton.mp hm]
    rfl
  cases hspec with
  | refused => exact ⟨[], .refl _ _, .inl ⟨rfl, _, rfl⟩⟩
  | stored hstored =>
      obtain ⟨rows, hextends, hrows⟩ := hmessage hstored
      exact ⟨rows, hextends, .inr hrows⟩
  | lost hstored =>
      obtain ⟨rows, hextends, hrows⟩ := hmessage hstored
      exact ⟨rows, hextends, .inr hrows⟩

/-- What the first statement of a turn comes to. -/
theorem beginTurn_spec (hasMemory : Bool) (agentId : Text) (answers : AppendAnswers E)
    (db : ShortTermDb E) (inbound : InboundMessage) :
    ∃ rows, Extends inbound.sessionKey db
        (beginTurn hasMemory agentId answers db inbound).2 rows ∧
      (((beginTurn hasMemory agentId answers db inbound).1 = .stored ∧
          OwnMessage inbound rows) ∨
        ∃ result, (beginTurn hasMemory agentId answers db inbound).1 = .ended result ∧
          Leaves inbound result rows) := by
  unfold beginTurn
  split_ifs with hmemory hinvoke
  · exact ⟨[], .refl _ _, .inr ⟨_, rfl, .adds .failedBefore⟩⟩
  · obtain ⟨rows, hextends, hrows⟩ := appendMessage_extends answers db inbound.sessionKey .user
      inbound.content (some inbound.username)
    refine ⟨rows, ?_⟩
    unfold recordContext
    generalize appendMessage answers db inbound.sessionKey .user inbound.content
      (some inbound.username) = appended at hextends hrows
    obtain ⟨result, db'⟩ := appended
    cases result with
    | error e =>
        refine ⟨hextends, .inr ⟨_, rfl, ?_⟩⟩
        rcases hrows with ⟨rfl, -⟩ | ⟨m, rfl, hm⟩
        · exact .adds .failedBefore
        · exact .adds (.failedAfter hm)
    | ok _ =>
        refine ⟨hextends, .inr ⟨_, rfl, ?_⟩⟩
        rcases hrows with ⟨-, e, he⟩ | ⟨m, rfl, hm⟩
        · cases he
        · exact .adds (.context hm)
  · obtain ⟨rows, hextends, hrows⟩ := appendMessage_extends answers db inbound.sessionKey .user
      inbound.content (some inbound.username)
    refine ⟨rows, ?_⟩
    generalize appendMessage answers db inbound.sessionKey .user inbound.content
      (some inbound.username) = appended at hextends hrows
    obtain ⟨result, db'⟩ := appended
    cases result with
    | error e =>
        refine ⟨hextends, .inr ⟨_, rfl, ?_⟩⟩
        rcases hrows with ⟨rfl, -⟩ | ⟨m, rfl, hm⟩
        · exact .adds .failedBefore
        · exact .adds (.failedAfter hm)
    | ok _ =>
        refine ⟨hextends, .inl ⟨rfl, ?_⟩⟩
        rcases hrows with ⟨-, e, he⟩ | hm
        · cases he
        · exact hm

/-- What a window of the log is as a history. -/
def historyOf (window : Nat) (log : List MessageRow) : List Message :=
  (((log.filter fun m => m.Said).reverse.take window).reverse).filterMap historyMessage

theorem conversation_eq (db : ShortTermDb E) (sessionId : Text) :
    db.conversation sessionId = (db.log sessionId).filter fun m => m.Said := by
  rw [ShortTermDb.conversation, ShortTermDb.log, List.filter_filter]
  refine List.filter_congr fun m _ => ?_
  rw [← Bool.decide_and]
  exact decide_eq_decide.mpr and_comm

theorem seededHistory_ok {recent : Option FrameworkError} {history : List Message}
    (h : seededHistory agent recent db sessionId = .ok history) :
    history = historyOf agent.effectiveExecution.historyMessages (db.log sessionId) := by
  obtain ⟨items, hitems, rfl⟩ := map_eq_ok_iff.mp h
  unfold historyOf
  congr 1
  unfold recentMessages at hitems
  split at hitems
  · next hzero =>
    obtain rfl := Except.ok.inj hitems
    rw [hzero]
    rfl
  · split at hitems
    · cases hitems
    · rw [← conversation_eq]
      exact (Except.ok.inj hitems).symm

/-- What reading the history comes to. -/
theorem readHistory_spec (agent : AgentRuntimeConfig) (recent : Option FrameworkError)
    (recallSection : Text → Except FrameworkError PromptBuildMemorySection) (db : ShortTermDb E)
    (inbound : InboundMessage) :
    (∃ prepared, readHistory agent recent recallSection db inbound = .prepared prepared ∧
      prepared.history = historyOf agent.effectiveExecution.historyMessages
        (db.log inbound.sessionKey)) ∨
    ∃ failure, readHistory agent recent recallSection db inbound =
      .ended (some (.error failure)) := by
  unfold readHistory
  split
  · exact .inr ⟨_, rfl⟩
  · next history hhistory =>
    split
    · exact .inr ⟨_, rfl⟩
    · exact .inl ⟨_, rfl, seededHistory_ok hhistory⟩

/-- What the last statement of a turn comes to. -/
theorem finalizeTurn_spec (answers : AppendAnswers E) (db : ShortTermDb E)
    (inbound : InboundMessage) (outcome : RunOutcome) (shortHits longHits : Nat)
    {own : List MessageRow} (hown : OwnMessage inbound own) :
    ∃ rows, Extends inbound.sessionKey db
        (finalizeTurn answers db inbound.sessionKey outcome shortHits longHits).2 rows ∧
      Leaves inbound (some ((finalizeTurn answers db inbound.sessionKey outcome shortHits
        longHits).1.mapError .error)) (own ++ rows) := by
  obtain ⟨m, rfl, hm⟩ := hown
  unfold finalizeTurn
  split
  · exact ⟨[], .refl _ _, .adds (.noReply hm)⟩
  · obtain ⟨rows, hextends, hrows⟩ := appendMessage_extends answers db inbound.sessionKey
      .assistant outcome.reply none
    refine ⟨rows, ?_⟩
    generalize appendMessage answers db inbound.sessionKey .assistant outcome.reply none =
      appended at hextends hrows
    obtain ⟨result, db'⟩ := appended
    cases result with
    | error e =>
        refine ⟨hextends, ?_⟩
        rcases hrows with ⟨rfl, -⟩ | ⟨n, rfl, hn⟩
        · exact .adds (.failedAfter hm)
        · exact .lost hm hn
    | ok _ =>
        refine ⟨hextends, ?_⟩
        rcases hrows with ⟨-, e, he⟩ | ⟨n, rfl, hn⟩
        · cases he
        · exact .adds (.replied hm hn)

/-- What the end of a turn comes to. -/
theorem finishTurn_spec (agent : AgentRuntimeConfig) (run : Except FrameworkError RunOutcome)
    (answers : AppendAnswers E) (db : ShortTermDb E) (inbound : InboundMessage)
    (prepared : PreparedTurn) {own : List MessageRow} (hown : OwnMessage inbound own) :
    ∃ rows, Extends inbound.sessionKey db
        (finishTurn agent run answers db inbound prepared).2 rows ∧
      Leaves inbound (finishTurn agent run answers db inbound prepared).1 (own ++ rows) := by
  have hfailed : ∀ failure, Leaves inbound (some (.error failure)) (own ++ []) := by
    intro failure
    obtain ⟨m, rfl, hm⟩ := hown
    exact .adds (.failedAfter hm)
  unfold finishTurn
  cases agent.effectiveExecution.resolvedEnv with
  | error e => exact ⟨[], .refl _ _, hfailed _⟩
  | ok executionEnv =>
      cases run with
      | error e => exact ⟨[], .refl _ _, hfailed _⟩
      | ok outcome =>
          obtain ⟨rows, hextends, hleaves⟩ := finalizeTurn_spec answers db inbound outcome
            prepared.memoryRecallShortHits prepared.memoryRecallLongHits hown
          refine ⟨rows, ?_⟩
          simp only
          generalize finalizeTurn answers db inbound.sessionKey outcome
            prepared.memoryRecallShortHits prepared.memoryRecallLongHits = finished
              at hextends hleaves
          obtain ⟨result, db'⟩ := finished
          cases result with
          | error e => exact ⟨hextends, hleaves⟩
          | ok disposition => exact ⟨hextends, hleaves⟩

end Statements

/-! ## What turns have added together -/

/-- What the turns of a session have added, in the order in which they began. -/
def addedIn (turns : List HandledTurn) (agentId sessionId : Text) : List MessageRow :=
  (turns.filter fun turn => turn.IsOf agentId sessionId).flatMap HandledTurn.added

section Added

variable {turns : List HandledTurn} {turn turn' : HandledTurn} {agentId sessionId : Text} {n : Nat}

theorem addedIn_append (turns later : List HandledTurn) (agentId sessionId : Text) :
    addedIn (turns ++ later) agentId sessionId =
      addedIn turns agentId sessionId ++ addedIn later agentId sessionId := by
  rw [addedIn, List.filter_append, List.flatMap_append, addedIn, addedIn]

theorem addedIn_singleton_self (h : turn.IsOf agentId sessionId) :
    addedIn [turn] agentId sessionId = turn.added := by
  have hself : [turn].filter (fun turn => turn.IsOf agentId sessionId) = [turn] :=
    List.filter_cons_of_pos (decide_eq_true h)
  rw [addedIn, hself, List.flatMap_singleton]

theorem addedIn_eq_nil (h : ∀ turn ∈ turns, ¬ turn.IsOf agentId sessionId) :
    addedIn turns agentId sessionId = [] := by
  have hnil : turns.filter (fun turn => turn.IsOf agentId sessionId) = [] :=
    List.filter_eq_nil_iff.mpr fun turn hmem => by
      rw [decide_eq_true_eq]
      exact h turn hmem
  rw [addedIn, hnil, List.flatMap_nil]

theorem addedIn_singleton_of_not (h : ¬ turn.IsOf agentId sessionId) :
    addedIn [turn] agentId sessionId = [] := by
  refine addedIn_eq_nil fun turn hmem => ?_
  rwa [List.mem_singleton.mp hmem]

/-- A turn with those before it and those after it. -/
theorem addedIn_split (h : turns[n]? = some turn) (agentId sessionId : Text) :
    addedIn turns agentId sessionId = addedIn (turns.take n) agentId sessionId ++
      (addedIn [turn] agentId sessionId ++ addedIn (turns.drop (n + 1)) agentId sessionId) := by
  obtain ⟨hlt, rfl⟩ := List.getElem?_eq_some_iff.mp h
  rw [← addedIn_append, ← addedIn_append, List.singleton_append, ← List.drop_eq_getElem_cons hlt,
    List.take_append_drop]

/-- The last turn of a session. -/
theorem addedIn_last (h : turns[n]? = some turn) (hof : turn.IsOf agentId sessionId)
    (hlast : ∀ k later, n < k → turns[k]? = some later → ¬ later.IsOf agentId sessionId) :
    addedIn turns agentId sessionId =
      addedIn (turns.take n) agentId sessionId ++ turn.added := by
  have hnone : addedIn (turns.drop (n + 1)) agentId sessionId = [] := by
    refine addedIn_eq_nil fun later hmem => ?_
    obtain ⟨k, hk⟩ := List.mem_iff_getElem?.mp hmem
    rw [List.getElem?_drop] at hk
    exact hlast _ later (by omega) hk
  rw [addedIn_split h, addedIn_singleton_self hof, hnone, List.append_nil]

/-- Another turn makes no difference to a session it is not of. -/
theorem addedIn_set_of_not (h : turns[n]? = some turn) (hof : ¬ turn.IsOf agentId sessionId)
    (hof' : ¬ turn'.IsOf agentId sessionId) :
    addedIn (turns.set n turn') agentId sessionId = addedIn turns agentId sessionId := by
  rw [addedIn_split (Table.getElem?_set_self_of_getElem? h), addedIn_split h,
    addedIn_singleton_of_not hof, addedIn_singleton_of_not hof',
    List.take_set_of_le (Nat.le_refl n), List.drop_set_of_lt (Nat.lt_succ_self n)]

/-- Nor does one that has added nothing more. -/
theorem addedIn_set_of_eq (h : turns[n]? = some turn) (hrouted : turn'.routed = turn.routed)
    (hadded : turn'.added = turn.added) :
    addedIn (turns.set n turn') agentId sessionId = addedIn turns agentId sessionId := by
  have hone : addedIn [turn'] agentId sessionId = addedIn [turn] agentId sessionId := by
    by_cases hof : turn.IsOf agentId sessionId
    · have hof' : turn'.IsOf agentId sessionId := by rwa [HandledTurn.IsOf, hrouted]
      rw [addedIn_singleton_self hof, addedIn_singleton_self hof', hadded]
    · have hof' : ¬ turn'.IsOf agentId sessionId := by rwa [HandledTurn.IsOf, hrouted]
      rw [addedIn_singleton_of_not hof, addedIn_singleton_of_not hof']
  rw [addedIn_split (Table.getElem?_set_self_of_getElem? h), addedIn_split h, hone,
    List.take_set_of_le (Nat.le_refl n), List.drop_set_of_lt (Nat.lt_succ_self n)]

/-- What came before a turn does not change with it or with a later one, nor with an earlier one
that makes no difference. -/
theorem addedIn_take_set {k : Nat}
    (hless : n < k → addedIn ((turns.take k).set n turn') agentId sessionId =
      addedIn (turns.take k) agentId sessionId) :
    addedIn ((turns.set n turn').take k) agentId sessionId =
      addedIn (turns.take k) agentId sessionId := by
  by_cases hk : k ≤ n
  · rw [List.take_set_of_le hk]
  · rw [List.take_set, hless (by omega)]

theorem map_routed_set (h : turns[n]? = some turn) (hrouted : turn'.routed = turn.routed) :
    (turns.set n turn').map HandledTurn.routed = turns.map HandledTurn.routed := by
  ext k : 1
  rw [List.getElem?_map, List.getElem?_map]
  by_cases hk : n = k
  · subst hk
    rw [Table.getElem?_set_self_of_getElem? h, h, Option.map_some, Option.map_some, hrouted]
  · rw [List.getElem?_set_ne hk]

end Added

/-! ## The invariant -/

/-- What the history of a turn is read from: the log at the start, what the earlier turns of the
session have added, and its own message. -/
def Service.seenBy (stores : Text → ShortTermDb E) (s : Service E) (n : Nat)
    (turn : HandledTurn) : List MessageRow :=
  let agentId := turn.routed.message.targetAgentId
  let sessionId := turn.routed.message.sessionKey
  (stores agentId).log sessionId ++ addedIn (s.turns.take n) agentId sessionId ++
    turn.added.take 1

section Invariant

variable (agents : Text → Option AgentRuntimeConfig) (stores : Text → ShortTermDb E)

/-- **Conversations continue.**  The log of each session is the log at the start and what its
turns have added; a turn begins when the earlier turns of its session have returned; each turn has
added its own message and its reply; and its history is the window over the log that the earlier
turns have left, with its message. -/
structure Service.Conversations (s : Service E) : Prop where
  logs : ∀ agentId sessionId, (s.stores agentId).log sessionId =
    (stores agentId).log sessionId ++ addedIn s.turns agentId sessionId
  earlier : ∀ (n k : Nat) (turn later : HandledTurn), s.turns[n]? = some turn →
    s.turns[k]? = some later → n < k →
    turn.routed.message.sessionKey = later.routed.message.sessionKey → turn.isOpen = false
  adds : ∀ turn ∈ s.turns, turn.Sound
  sees : ∀ (n : Nat) (turn : HandledTurn) (history : List Message), s.turns[n]? = some turn →
    turn.seen = some history → ∃ agent, agents turn.routed.message.targetAgentId = some agent ∧
      history = historyOf agent.effectiveExecution.historyMessages (s.seenBy stores n turn)

/-- The invariant: the conversations, and the workers that are handling the turns. -/
structure Service.Continues (s : Service E) : Prop extends s.Conversations agents stores where
  ordered : s.coordinator.Ordered
  addressed : Addressed s.coordinator
  began : s.turns.map HandledTurn.routed = s.coordinator.started
  keys : ∀ turn ∈ s.turns, turn.routed.key = turn.routed.message.sessionKey
  handling : ∀ (n : Nat) (turn : HandledTurn), s.turns[n]? = some turn → turn.isOpen = true →
    ∃ w, s.coordinator.tasks[turn.task]? = some w ∧ w.phase = .handling turn.routed

end Invariant

section Steps

variable {agents : Text → Option AgentRuntimeConfig} {stores : Text → ShortTermDb E}
  {s s' : Service E}

theorem continues_start : (Service.start stores).Continues agents stores where
  logs := fun _ _ => (List.append_nil _).symm
  earlier := fun _ _ _ _ h => by cases h
  adds := fun _ h => by cases h
  sees := fun _ _ _ h => by cases h
  ordered := Session.ordered_new
  addressed := addressed_new
  began := rfl
  keys := fun _ h => by cases h
  handling := fun _ _ h => by cases h

/-- The coordinator makes a step of its own. -/
theorem Service.Continues.coordinated (h : s.Continues agents stores)
    {action : Session.Action InboundMessage} {coordinator : Session.Coordinator InboundMessage}
    (hstep : s.coordinator.step action = some coordinator)
    (hspawns : s.coordinator.SpawnsOverRetired action)
    (hdispatch : ∀ key message, action = .dispatch key message → key = message.sessionKey)
    (hrecv : ∀ i, action ≠ .recv i) (hdone : ∀ i, action ≠ .handlerDone i) :
    ({ s with coordinator } : Service E).Continues agents stores where
  logs := h.logs
  earlier := h.earlier
  adds := h.adds
  sees := h.sees
  ordered := Session.ordered_step h.ordered hspawns hstep
  addressed := h.addressed.step (Session.Coordinator.step_spec hstep) hdispatch
  began := h.began.trans (started_of_step (Session.Coordinator.step_spec hstep) hrecv).symm
  keys := h.keys
  handling := by
    intro n turn hturn hopen
    obtain ⟨w, hw, hphase⟩ := h.handling n turn hturn hopen
    exact handling_of_step (Session.Coordinator.step_spec hstep) hw hphase (hdone _)

/-- A worker receives a message and begins its turn. -/
theorem Service.Continues.received (h : s.Continues agents stores) {task : Nat} {key : Text}
    {id : UInt64} {routed : Session.Routed InboundMessage}
    {queue : List (Session.Routed InboundMessage)}
    {coordinator : Session.Coordinator InboundMessage}
    (htask : s.coordinator.tasks[task]? = some ⟨key, id, routed :: queue, .receiving⟩)
    (hstep : s.coordinator.step (.recv task) = some coordinator) :
    ({ s with
      coordinator
      turns := s.turns ++ [⟨task, routed, .began, [], none⟩] } : Service E).Continues
        agents stores := by
  have hspec := Session.Coordinator.step_spec hstep
  have hordered : coordinator.Ordered := 
    Session.ordered_step h.ordered (fun _ _ _ _ hne => by cases hne) hstep
  have hkey : routed.key = routed.message.sessionKey :=
    h.addressed.tasks _ (List.mem_of_getElem? htask) routed (.inl List.mem_cons_self)
  obtain ⟨hstarted, hnew⟩ : coordinator.started = s.coordinator.started ++ [routed] ∧
      coordinator.tasks[task]? = some ⟨key, id, queue, .handling routed⟩ := by
    cases hspec with
    | received htask' =>
        cases htask.symm.trans htask'
        exact ⟨rfl, Table.getElem?_set_self_of_getElem? htask⟩
  have hrunning : ∀ (n : Nat) (turn : HandledTurn), s.turns[n]? = some turn →
      turn.isOpen = true →
        ∃ w, coordinator.tasks[turn.task]? = some w ∧ w.phase = .handling turn.routed := by
    intro n turn hturn hopen
    obtain ⟨w, hw, hphase⟩ := h.handling n turn hturn hopen
    exact handling_of_step hspec hw hphase nofun
  have hnone : ∀ agentId sessionId,
      addedIn [⟨task, routed, .began, [], none⟩] agentId sessionId = [] := by
    intro agentId sessionId
    by_cases hof : (⟨task, routed, .began, [], none⟩ : HandledTurn).IsOf agentId sessionId
    · exact addedIn_singleton_self hof
    · exact addedIn_singleton_of_not hof
  exact {
    logs := by
      intro agentId sessionId
      rw [addedIn_append, hnone, List.append_nil]
      exact h.logs agentId sessionId
    earlier := by
      intro n k turn later hturn hlater hnk hsame
      rcases Table.getElem?_append_singleton_cases hlater with hlater | ⟨rfl, rfl⟩
      · rcases Table.getElem?_append_singleton_cases hturn with hturn | ⟨rfl, rfl⟩
        · exact h.earlier n k turn later hturn hlater hnk hsame
        · have hlt := (List.getElem?_eq_some_iff.mp hlater).1
          omega
      · rcases Table.getElem?_append_singleton_cases hturn with hturn | ⟨rfl, rfl⟩
        · -- the worker of an open turn would be handling two messages
          rw [← Bool.not_eq_true]
          intro hopen
          obtain ⟨w, hw, hphase⟩ := hrunning n turn hturn hopen
          have hkeys : turn.routed.key = routed.key := by
            rw [h.keys turn (List.mem_of_getElem? hturn), hsame, hkey]
          have htasks : turn.task = task :=
            (Session.serial_of_ordered hordered).oneHandler _ _ _ _ _ _ hw hnew hphase rfl hkeys
          obtain ⟨v, hv, hreceiving⟩ := h.handling n turn hturn hopen
          rw [htasks, htask] at hv
          obtain rfl := Option.some.inj hv
          cases hreceiving
        · omega
    adds := Table.forall_mem_append h.adds ⟨rfl, rfl⟩
    sees := by
      intro n turn history hturn hseen
      rcases Table.getElem?_append_singleton_cases hturn with hturn | ⟨-, rfl⟩
      · have hlt := (List.getElem?_eq_some_iff.mp hturn).1
        obtain ⟨agent, hagent, hhistory⟩ := h.sees n turn history hturn hseen
        refine ⟨agent, hagent, hhistory.trans ?_⟩
        rw [Service.seenBy, Service.seenBy, List.take_append_of_le_length (Nat.le_of_lt hlt)]
      · cases hseen
    ordered := hordered
    addressed := h.addressed.step hspec nofun
    began := by rw [List.map_append, h.began, hstarted, List.map_singleton]
    keys := Table.forall_mem_append h.keys hkey
    handling := by
      intro n turn hturn hopen
      rcases Table.getElem?_append_singleton_cases hturn with hturn | ⟨-, rfl⟩
      · exact hrunning n turn hturn hopen
      · exact ⟨_, hnew, rfl⟩ }

/-- The later turns are of other sessions, as long as a turn is open. -/
theorem Service.Continues.later (h : s.Continues agents stores) {n : Nat} {turn : HandledTurn}
    (hturn : s.turns[n]? = some turn) (hopen : turn.isOpen = true) {k : Nat} {later : HandledTurn}
    (hk : n < k) (hlater : s.turns[k]? = some later) :
    turn.routed.message.sessionKey ≠ later.routed.message.sessionKey := by
  intro hsame
  rw [h.earlier n k turn later hturn hlater hk hsame] at hopen
  cases hopen

/-- An open turn is the last one of its session. -/
theorem Service.Continues.last (h : s.Continues agents stores) {n : Nat} {turn : HandledTurn}
    (hturn : s.turns[n]? = some turn) (hopen : turn.isOpen = true) {agentId sessionId : Text}
    (hof : turn.IsOf agentId sessionId) (k : Nat) (later : HandledTurn) (hk : n < k)
    (hlater : s.turns[k]? = some later) : ¬ later.IsOf agentId sessionId := by
  intro hof'
  exact h.later hturn hopen hk hlater (hof.2.trans hof'.2.symm)

section Advance

variable {n : Nat} {turn turn' : HandledTurn} {db : ShortTermDb E} {rows : List MessageRow}

/-- What came before a turn of another session, or before this one, is not changed by a
statement of an open turn. -/
theorem Service.Continues.before_advanced (h : s.Continues agents stores)
    (hturn : s.turns[n]? = some turn) (hopen : turn.isOpen = true)
    (hrouted : turn'.routed = turn.routed) {k : Nat} {other : HandledTurn}
    (hother : s.turns[k]? = some other) {agentId sessionId : Text}
    (hof : other.IsOf agentId sessionId) :
    addedIn ((s.turns.set n turn').take k) agentId sessionId =
      addedIn (s.turns.take k) agentId sessionId := by
  refine addedIn_take_set fun hk => ?_
  have hnot : ¬ turn.IsOf agentId sessionId := fun hturn' =>
    h.last hturn hopen hturn' k other hk hother hof
  have hnot' : ¬ turn'.IsOf agentId sessionId := by rwa [HandledTurn.IsOf, hrouted]
  refine addedIn_set_of_not ?_ hnot hnot'
  rw [List.getElem?_take_of_lt hk, hturn]

/-- The log of the session of an open turn grows by the rows of its statement. -/
theorem Service.Continues.logs_advanced (h : s.Continues agents stores)
    (hturn : s.turns[n]? = some turn) (hopen : turn.isOpen = true)
    (hrouted : turn'.routed = turn.routed) (hadded : turn'.added = turn.added ++ rows)
    (hextends : Extends turn.routed.message.sessionKey
      (s.stores turn.routed.message.targetAgentId) db rows) (agentId sessionId : Text) :
    (Function.update s.stores turn.routed.message.targetAgentId db agentId).log sessionId =
      (stores agentId).log sessionId ++ addedIn (s.turns.set n turn') agentId sessionId := by
  by_cases hof : turn.IsOf agentId sessionId
  · have hof' : turn'.IsOf agentId sessionId := by rwa [HandledTurn.IsOf, hrouted]
    have hlast' : ∀ k later, n < k → (s.turns.set n turn')[k]? = some later →
        ¬ later.IsOf agentId sessionId := by
      intro k later hk hlater
      rw [List.getElem?_set_ne (Nat.ne_of_lt hk)] at hlater
      exact h.last hturn hopen hof k later hk hlater
    rw [addedIn_last (Table.getElem?_set_self_of_getElem? hturn) hof' hlast', hadded,
      h.before_advanced hturn hopen hrouted hturn hof, ← List.append_assoc, ← List.append_assoc,
      List.append_assoc ((stores agentId).log sessionId),
      ← addedIn_last hturn hof (h.last hturn hopen hof), ← h.logs agentId sessionId]
    obtain ⟨rfl, rfl⟩ := hof
    rw [Function.update_self]
    exact hextends.log
  · have hof' : ¬ turn'.IsOf agentId sessionId := by rwa [HandledTurn.IsOf, hrouted]
    rw [addedIn_set_of_not hturn hof hof', ← h.logs agentId sessionId]
    by_cases hagent : agentId = turn.routed.message.targetAgentId
    · subst hagent
      rw [Function.update_self]
      exact hextends.log_of_ne fun hsession => hof ⟨rfl, hsession.symm⟩
    · rw [Function.update_of_ne hagent]

/-- A turn makes a statement. -/
theorem Service.Continues.advanced (h : s.Continues agents stores)
    (hturn : s.turns[n]? = some turn) (hopen : turn.isOpen = true)
    (htask : turn'.task = turn.task) (hrouted : turn'.routed = turn.routed)
    (hopen' : turn'.isOpen = true) (hadded : turn'.added = turn.added ++ rows)
    (hextends : Extends turn.routed.message.sessionKey
      (s.stores turn.routed.message.targetAgentId) db rows)
    (hsound : turn'.Sound)
    (hseen : turn'.seen = turn.seen ∧ (turn.seen.isSome = true → turn.added ≠ []) ∨
      ∀ history, turn'.seen = some history → turn.added.length = 1 ∧ rows = [] ∧
        ∃ agent, agents turn.routed.message.targetAgentId = some agent ∧
          history = historyOf agent.effectiveExecution.historyMessages
            ((s.stores turn.routed.message.targetAgentId).log turn.routed.message.sessionKey)) :
    ({ s with
      stores := Function.update s.stores turn.routed.message.targetAgentId db
      turns := s.turns.set n turn' } : Service E).Continues agents stores where
  logs := h.logs_advanced hturn hopen hrouted hadded hextends
  earlier := by
    intro i k first later hfirst hlater hik hsame
    rcases Table.getElem?_set_cases hlater with ⟨rfl, rfl⟩ | ⟨-, hlater'⟩
    · rcases Table.getElem?_set_cases hfirst with ⟨rfl, rfl⟩ | ⟨-, hfirst'⟩
      · omega
      · rw [hrouted] at hsame
        exact h.earlier i n first turn hfirst' hturn hik hsame
    · rcases Table.getElem?_set_cases hfirst with ⟨rfl, rfl⟩ | ⟨-, hfirst'⟩
      · rw [hrouted] at hsame
        exact absurd hsame (h.later hturn hopen hik hlater')
      · exact h.earlier i k first later hfirst' hlater' hik hsame
  adds := Table.forall_mem_set h.adds hsound
  sees := by
    intro k other history hother hhistory
    rcases Table.getElem?_set_cases hother with ⟨rfl, rfl⟩ | ⟨-, hother⟩
    · rw [Service.seenBy, hrouted]
      dsimp only
      rw [h.before_advanced hturn hopen hrouted hturn ⟨rfl, rfl⟩, hadded]
      rcases hseen with ⟨hkept, hne⟩ | hread
      · have hold : turn.seen = some history := hkept.symm.trans hhistory
        obtain ⟨agent, hagent, hhistory⟩ := h.sees n turn history hturn hold
        refine ⟨agent, hagent, hhistory.trans ?_⟩
        have hpos := List.length_pos_iff.mpr (hne (by rw [hold]; rfl))
        rw [Service.seenBy, List.take_append_of_le_length hpos]
      · obtain ⟨hone, rfl, agent, hagent, hwindow⟩ := hread history hhistory
        refine ⟨agent, hagent, hwindow.trans ?_⟩
        rw [h.logs, addedIn_last hturn ⟨rfl, rfl⟩ (h.last hturn hopen ⟨rfl, rfl⟩), List.append_nil,
          List.take_of_length_le (Nat.le_of_eq hone), List.append_assoc]
    · obtain ⟨agent, hagent, hold⟩ := h.sees k other history hother hhistory
      refine ⟨agent, hagent, hold.trans ?_⟩
      rw [Service.seenBy, Service.seenBy,
        h.before_advanced hturn hopen hrouted hother ⟨rfl, rfl⟩]
  ordered := h.ordered
  addressed := h.addressed
  began := (map_routed_set hturn hrouted).trans h.began
  keys := by
    refine Table.forall_mem_set h.keys ?_
    rw [hrouted]
    exact h.keys turn (List.mem_of_getElem? hturn)
  handling := by
    intro k other hother hopened
    rcases Table.getElem?_set_cases hother with ⟨rfl, rfl⟩ | ⟨-, hother⟩
    · rw [htask, hrouted]
      exact h.handling n turn hturn hopen
    · exact h.handling k other hother hopened

end Advance

/-- A handler returns. -/
theorem Service.Continues.returned (h : s.Continues agents stores) {n task : Nat}
    {routed : Session.Routed InboundMessage} {result : TurnResult} {added : List MessageRow}
    {seen : Option (List Message)} {coordinator : Session.Coordinator InboundMessage}
    (hturn : s.turns[n]? = some ⟨task, routed, .ended result, added, seen⟩)
    (hstep : s.coordinator.step (.handlerDone task) = some coordinator) :
    ({ s with
      coordinator
      turns := s.turns.set n ⟨task, routed, .returned result, added, seen⟩ } :
        Service E).Continues agents stores := by
  have hspec := Session.Coordinator.step_spec hstep
  have hadds := h.adds _ (List.mem_of_getElem? hturn)
  have hbefore : ∀ (k : Nat) (agentId sessionId : Text),
      addedIn ((s.turns.set n ⟨task, routed, .returned result, added, seen⟩).take k)
        agentId sessionId = addedIn (s.turns.take k) agentId sessionId := by
    intro k agentId sessionId
    refine addedIn_take_set fun hk => ?_
    have hother : (s.turns.take k)[n]? = some ⟨task, routed, .ended result, added, seen⟩ := by
      rw [List.getElem?_take_of_lt hk, hturn]
    exact addedIn_set_of_eq hother rfl rfl
  exact {
    logs := by
      intro agentId sessionId
      have hadded : addedIn (s.turns.set n ⟨task, routed, .returned result, added, seen⟩) agentId
          sessionId = addedIn s.turns agentId sessionId := addedIn_set_of_eq hturn rfl rfl
      rw [hadded]
      exact h.logs agentId sessionId
    earlier := by
      intro i k first later hfirst hlater hik hsame
      rcases Table.getElem?_set_cases hfirst with ⟨-, rfl⟩ | ⟨-, hfirst⟩
      · rfl
      · rcases Table.getElem?_set_cases hlater with ⟨rfl, rfl⟩ | ⟨-, hlater⟩
        · exact h.earlier i n first _ hfirst hturn hik hsame
        · exact h.earlier i k first later hfirst hlater hik hsame
    adds := Table.forall_mem_set h.adds hadds
    sees := by
      intro k other history hother hhistory
      have hseen : ∃ turn, s.turns[k]? = some turn ∧ turn.seen = other.seen ∧
          turn.routed = other.routed ∧ turn.added = other.added := by
        rcases Table.getElem?_set_cases hother with ⟨rfl, rfl⟩ | ⟨-, hother⟩
        · exact ⟨_, hturn, rfl, rfl, rfl⟩
        · exact ⟨other, hother, rfl, rfl, rfl⟩
      obtain ⟨turn, hk, hseen, hrouted, hadded⟩ := hseen
      obtain ⟨agent, hagent, hold⟩ := h.sees k turn history hk (hseen.trans hhistory)
      rw [hrouted] at hagent
      refine ⟨agent, hagent, hold.trans ?_⟩
      rw [Service.seenBy, Service.seenBy, hbefore, hrouted, hadded]
    ordered := Session.ordered_step h.ordered (fun _ _ _ _ hne => by cases hne) hstep
    addressed := h.addressed.step hspec nofun
    began := by
      have hrouted : (s.turns.set n ⟨task, routed, .returned result, added, seen⟩).map
          HandledTurn.routed = s.turns.map HandledTurn.routed := map_routed_set hturn rfl
      rw [hrouted, h.began]
      exact (started_of_step hspec nofun).symm
    keys := Table.forall_mem_set h.keys (h.keys _ (List.mem_of_getElem? hturn) :)
    handling := by
      intro k other hother hopen
      rcases Table.getElem?_set_cases hother with ⟨-, rfl⟩ | ⟨hnk, hother⟩
      · cases hopen
      · obtain ⟨w, hw, hphase⟩ := h.handling k other hother hopen
        refine handling_of_step hspec hw hphase fun htask => ?_
        -- a worker handles one message, and two open turns are of two sessions
        obtain ⟨v, hv, hhandling⟩ := h.handling n _ hturn rfl
        have hsame : other.routed = routed := by
          rw [← Session.Action.handlerDone.inj htask, hv] at hw
          obtain rfl := Option.some.inj hw
          exact Session.WorkerPhase.handling.inj (hphase.symm.trans hhandling)
        rcases Nat.lt_or_gt_of_ne hnk with hlt | hgt
        · exact h.later hturn rfl hlt hother (by rw [hsame])
        · exact h.later hother hopen hgt hturn (by rw [hsame]) }

/-- A step of the coordinator that is no boundary of a handler. -/
theorem Service.Continues.coordinate (h : s.Continues agents stores)
    {action : Session.Action InboundMessage} (hstep : s.coordinate action = some s')
    (hspawns : s.coordinator.SpawnsOverRetired action)
    (hdispatch : ∀ key message, action = .dispatch key message → key = message.sessionKey)
    (hrecv : ∀ i, action ≠ .recv i) (hdone : ∀ i, action ≠ .handlerDone i) :
    s'.Continues agents stores := by
  obtain ⟨coordinator, hcoordinator, rfl⟩ := Option.map_eq_some_iff.mp hstep
  exact h.coordinated hcoordinator hspawns hdispatch hrecv hdone

/-- The first statement of a turn. -/
theorem Service.Continues.store (h : s.Continues agents stores) {n task : Nat}
    {routed : Session.Routed InboundMessage} {added : List MessageRow}
    {seen : Option (List Message)} (hasMemory : Bool) (answers : AppendAnswers E)
    (hturn : s.turns[n]? = some ⟨task, routed, .began, added, seen⟩) :
    (match agents routed.message.targetAgentId with
      | none => s.advance n ⟨task, routed, .began, added, seen⟩ (.ended none)
          (s.stores routed.message.targetAgentId) seen
      | some agent =>
          let began := beginTurn hasMemory agent.agentId answers
            (s.stores routed.message.targetAgentId) routed.message
          s.advance n ⟨task, routed, .began, added, seen⟩ began.1 began.2 seen).Continues
      agents stores := by
  obtain ⟨rfl, rfl⟩ : added = [] ∧ seen = none := h.adds _ (List.mem_of_getElem? hturn)
  have hunseen : ∀ {phase : TurnPhase} {rows : List MessageRow},
      (⟨task, routed, phase, rows, none⟩ : HandledTurn).seen = none ∧
        ((none : Option (List Message)).isSome = true → ([] : List MessageRow) ≠ []) :=
    ⟨rfl, nofun⟩
  split
  · have hextends := Extends.refl routed.message.sessionKey
      (s.stores routed.message.targetAgentId)
    refine h.advanced hturn rfl rfl rfl rfl ?_ hextends ?_ (.inl hunseen)
    · rw [hextends.newRows]
    · rw [hextends.newRows]
      exact ⟨.dropped, nofun⟩
  · next agent hagent =>
    obtain ⟨rows, hextends, hbegan⟩ := beginTurn_spec hasMemory agent.agentId answers
      (s.stores routed.message.targetAgentId) routed.message
    dsimp only
    generalize beginTurn hasMemory agent.agentId answers
      (s.stores routed.message.targetAgentId) routed.message = began at hextends hbegan
    obtain ⟨phase, db⟩ := began
    rcases hbegan with ⟨rfl, hown⟩ | ⟨result, rfl, hleaves⟩
    · refine h.advanced hturn rfl rfl rfl rfl ?_ hextends ?_ (.inl hunseen)
      · rw [hextends.newRows]
      · rw [hextends.newRows]
        exact ⟨hown, rfl⟩
    · refine h.advanced hturn rfl rfl rfl rfl ?_ hextends ?_ (.inl hunseen)
      · rw [hextends.newRows]
      · rw [hextends.newRows]
        exact ⟨hleaves, nofun⟩

/-- A turn reads its history. -/
theorem Service.Continues.read (h : s.Continues agents stores) {n task : Nat}
    {routed : Session.Routed InboundMessage} {added : List MessageRow}
    {seen : Option (List Message)} {agent : AgentRuntimeConfig} {recent : Option FrameworkError}
    {recallSection : Text → Except FrameworkError PromptBuildMemorySection}
    (hturn : s.turns[n]? = some ⟨task, routed, .stored, added, seen⟩)
    (hagent : agents routed.message.targetAgentId = some agent) :
    (s.advance n ⟨task, routed, .stored, added, none⟩
      (readHistory agent recent recallSection (s.stores routed.message.targetAgentId)
        routed.message) (s.stores routed.message.targetAgentId)
      (match readHistory agent recent recallSection (s.stores routed.message.targetAgentId)
          routed.message with
        | .prepared prepared => some prepared.history
        | _ => none)).Continues agents stores := by
  obtain ⟨⟨m, rfl, hm⟩, rfl⟩ : OwnMessage routed.message added ∧ seen = none :=
    h.adds _ (List.mem_of_getElem? hturn)
  have hextends := Extends.refl routed.message.sessionKey (s.stores routed.message.targetAgentId)
  have hrows : ([m] : List MessageRow) ++ Service.newRows (s.stores routed.message.targetAgentId)
      (s.stores routed.message.targetAgentId) = [m] := by rw [hextends.newRows]; rfl
  rcases readHistory_spec agent recent recallSection (s.stores routed.message.targetAgentId)
    routed.message with ⟨prepared, hread, hhistory⟩ | ⟨failure, hread⟩
  · rw [hread]
    refine h.advanced hturn rfl rfl rfl rfl hrows hextends ?_ (.inr fun history hseen => ?_)
    · rw [hrows]
      exact ⟨⟨m, rfl, hm⟩, rfl⟩
    · obtain rfl := Option.some.inj hseen
      exact ⟨rfl, rfl, agent, hagent, hhistory⟩
  · rw [hread]
    refine h.advanced hturn rfl rfl rfl rfl hrows hextends ?_ (.inl ⟨rfl, nofun⟩)
    rw [hrows]
    exact ⟨.adds (.failedAfter hm), nofun⟩

/-- A turn comes to its end. -/
theorem Service.Continues.finish (h : s.Continues agents stores) {n task : Nat}
    {routed : Session.Routed InboundMessage} {prepared : PreparedTurn} {added : List MessageRow}
    {seen : Option (List Message)} (agent : AgentRuntimeConfig)
    (run : Except FrameworkError RunOutcome) (answers : AppendAnswers E)
    (hturn : s.turns[n]? = some ⟨task, routed, .prepared prepared, added, seen⟩) :
    (s.advance n ⟨task, routed, .prepared prepared, added, seen⟩
      (.ended (finishTurn agent run answers (s.stores routed.message.targetAgentId)
        routed.message prepared).1)
      (finishTurn agent run answers (s.stores routed.message.targetAgentId) routed.message
        prepared).2 seen).Continues agents stores := by
  obtain ⟨hown, rfl⟩ : OwnMessage routed.message added ∧ seen = some prepared.history :=
    h.adds _ (List.mem_of_getElem? hturn)
  have hne : added ≠ [] := by
    obtain ⟨m, rfl, -⟩ := hown
    exact List.cons_ne_nil m []
  obtain ⟨rows, hextends, hleaves⟩ := finishTurn_spec agent run answers
    (s.stores routed.message.targetAgentId) routed.message prepared hown
  refine h.advanced hturn rfl rfl rfl rfl ?_ hextends ?_ (.inl ⟨rfl, fun _ => hne⟩)
  · rw [hextends.newRows]
  · rw [hextends.newRows]
    exact ⟨hleaves, fun _ => List.append_ne_nil_of_left_ne_nil hne rows⟩

/-- **One step.** -/
theorem Service.Continues.step (h : s.Continues agents stores) {action : ServiceAction E}
    (hspawns : s.SpawnsOverRetired action) (hstep : s.step agents action = some s') :
    s'.Continues agents stores := by
  cases action with
  | dispatch inbound =>
      refine h.coordinate hstep (fun _ _ _ _ hne => by cases hne) ?_ nofun nofun
      intro key message heq
      cases heq
      rfl
  | workerSenderForKey call => exact h.coordinate hstep hspawns nofun nofun nofun
  | recv task =>
      unfold Service.step at hstep
      dsimp only at hstep
      split at hstep
      · next htask =>
        obtain ⟨coordinator, hcoordinator, rfl⟩ := Option.map_eq_some_iff.mp hstep
        exact h.received htask hcoordinator
      · cases hstep
  | store n hasMemory answers =>
      unfold Service.step at hstep
      dsimp only at hstep
      split at hstep
      · next task routed added seen hturn =>
        have hnext := h.store hasMemory answers hturn
        split at hstep
        · next hagent =>
          obtain rfl := Option.some.inj hstep
          rwa [hagent] at hnext
        · next agent hagent =>
          obtain rfl := Option.some.inj hstep
          rwa [hagent] at hnext
      · cases hstep
  | read n recent recallSection =>
      unfold Service.step at hstep
      dsimp only at hstep
      split at hstep
      · next task routed added seen hturn =>
        obtain ⟨agent, hagent, rfl⟩ := Option.map_eq_some_iff.mp hstep
        exact h.read hturn hagent
      · cases hstep
  | finish n run answers =>
      unfold Service.step at hstep
      dsimp only at hstep
      split at hstep
      · next task routed prepared added seen hturn =>
        obtain ⟨agent, -, rfl⟩ := Option.map_eq_some_iff.mp hstep
        exact h.finish agent run answers hturn
      · cases hstep
  | handlerDone n =>
      unfold Service.step at hstep
      dsimp only at hstep
      split at hstep
      · next task routed result added seen hturn =>
        split at hstep
        · cases hstep
        · obtain ⟨coordinator, hcoordinator, rfl⟩ := Option.map_eq_some_iff.mp hstep
          exact h.returned hturn hcoordinator
      · cases hstep
  | send call =>
      exact h.coordinate hstep (fun _ _ _ _ hne => by cases hne) nofun nofun nofun
  | removeWorkerIfMatches call =>
      exact h.coordinate hstep (fun _ _ _ _ hne => by cases hne) nofun nofun nofun
  | remove key =>
      exact h.coordinate hstep (fun _ _ _ _ hne => by cases hne) nofun nofun nofun
  | idleTimeout task =>
      exact h.coordinate hstep (fun _ _ _ _ hne => by cases hne) nofun nofun nofun
  | channelClosed task =>
      exact h.coordinate hstep (fun _ _ _ _ hne => by cases hne) nofun nofun nofun
  | unlink task =>
      exact h.coordinate hstep (fun _ _ _ _ hne => by cases hne) nofun nofun nofun
  | dropReceiver task =>
      exact h.coordinate hstep (fun _ _ _ _ hne => by cases hne) nofun nofun nofun

/-- **Conversations continue, whatever comes in between**: in every run in which no worker is
spawned beside another one of its session that may still handle a message, the log of each session
is what it was at the start and what its turns have added one after the other, in the order in
which their messages were accepted; and each turn has read its history from just what the earlier
turns of the session have left and its own message. -/
theorem conversations_continue {tr : List (ServiceAction E × Service E)}
    (hrun : Run (Service.step agents) (Service.start stores) tr)
    (hspawns : Run.StepsMeet Service.SpawnsOverRetired (Service.start stores) tr) :
    ∀ x ∈ tr, x.2.Conversations agents stores ∧
      ∀ key, (Session.ofKey key (x.2.turns.map HandledTurn.routed)).Sublist
        (Session.ofKey key x.2.coordinator.accepted) := by
  intro x hx
  have hcontinues : x.2.Continues agents stores :=
    Run.invariant_of_stepsMeet (fun _ _ _ h hguard hstep => h.step hguard hstep) hrun
      continues_start hspawns x hx
  refine ⟨hcontinues.toConversations, fun key => ?_⟩
  rw [hcontinues.began]
  exact hcontinues.ordered.inOrder key

end Steps

/-! ### Runs on fixed inputs -/

/-- `SpawnsOverRetired`, computed. -/
def Service.spawnsOverRetired (s : Service E) : ServiceAction E → Bool
  | .workerSenderForKey call => s.coordinator.spawnsOverRetired (.workerSenderForKey call)
  | _ => true

theorem Service.spawnsOverRetired_of_check (s : Service E) (a : ServiceAction E)
    (h : s.spawnsOverRetired a = true) : s.SpawnsOverRetired a := by
  cases a with
  | workerSenderForKey call => exact Session.spawnsOverRetired_of_check _ _ h
  | _ => trivial

/-- Two messages of one session, and one of another session in between. -/
def interleavedTurns : List (ServiceAction Unit) :=
  [.dispatch channelInbound, .workerSenderForKey 0, .send 0, .recv 0,
    .dispatch { channelInbound with sessionKey := "other", content := "elsewhere" },
    .workerSenderForKey 1, .send 1, .recv 1, .store 0 true (.untroubled Unit),
    .store 1 true (.untroubled Unit), .read 0 none fun _ => .ok ⟨[], 0, 0⟩,
    .dispatch { channelInbound with content := "and now?" }, .workerSenderForKey 2, .send 2,
    .finish 0 (.ok (.of "hi" [])) (.untroubled Unit), .handlerDone 0, .recv 0,
    .store 2 true (.untroubled Unit), .read 1 none fun _ => .ok ⟨[], 0, 0⟩,
    .read 2 none fun _ => .ok ⟨[], 0, 0⟩]

/-- The second turn of the session sees the first one, and nothing of the other session. -/
def Service.lastSees (s : Service Unit) : Bool :=
  s.turns.getLast?.any fun turn => decide (turn.seen.map (·.map Message.content) =
    some (["[ann] hello", "hi", "[ann] and now?"] : List Text))

theorem conversations_continue_interleaved : ∃ tr,
    exec (Service.step fun _ => some (agentWithWindow (some 4)))
      (Service.start fun _ => .empty Unit) interleavedTurns = some tr ∧
    (∃ x ∈ tr, x.2.lastSees = true) ∧
    ∀ x ∈ tr, x.2.Conversations (fun _ => some (agentWithWindow (some 4)))
        (fun _ => .empty Unit) ∧
      ∀ key, (Session.ofKey key (x.2.turns.map HandledTurn.routed)).Sublist
        (Session.ofKey key x.2.coordinator.accepted) := by
  have hruns : (exec (Service.step fun _ => some (agentWithWindow (some 4)))
      (Service.start fun _ => .empty Unit) interleavedTurns).map (fun tr =>
        stepsPass Service.spawnsOverRetired (Service.start fun _ => .empty Unit) tr &&
          tr.any fun x => x.2.lastSees) = some true := by
    decide +kernel
  obtain ⟨tr, htr, hpass⟩ := Option.map_eq_some_iff.mp hruns
  obtain ⟨hguard, hsees⟩ := Bool.and_eq_true_iff.mp hpass
  exact ⟨tr, htr, List.any_eq_true.mp hsees, conversations_continue (run_of_exec htr)
    (Run.stepsMeet_of_stepsPass Service.spawnsOverRetired_of_check hguard)⟩

end Turn
end SimpleClaw
