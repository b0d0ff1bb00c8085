import SimpleClaw.Session.NoLoss

/-!
# One handler at a time for a session key, in order, and when not

The coordinator is to run at most one handler for a session key, and to handle a key's
messages in the order in which they were accepted.  A single worker does so: it owns the
only receiver and awaits each handler.  But `remove` unlinks a worker without waiting for
it, so the next `dispatch` for the key spawns a second one while the first may be handling
a message, may have messages queued, or may yet be sent one by a call that fetched its
sender before.

* `Coordinator.Serial`: the property of one state.
* `Coordinator.SpawnsOverRetired`: if the step spawns a worker, every earlier task of the
  key is retired.
* `Coordinator.Live`: the invariant is about the tasks that may still see a message; a key
  has at most one of them.
* `serial_of_spawnsOverRetired`: a run whose spawns all find the key retired is serial.
-/

namespace SimpleClaw
namespace Session

open Transition Table

variable {T : Type}

/-- The messages of one session key, in their order. -/
def ofKey (key : Text) (ms : List (Routed T)) : List (Routed T) :=
  ms.filter fun m => m.key = key

/-- **Per-session serialization.**  At most one task is handling a message of any key, and
each key's handlers were invoked in the order in which its messages were accepted. -/
structure Coordinator.Serial (s : Coordinator T) : Prop where
  oneHandler : ∀ (i j : Nat) (w v : WorkerTask T) (m n : Routed T), s.tasks[i]? = some w →
    s.tasks[j]? = some v → w.phase = .handling m → v.phase = .handling n → m.key = n.key → i = j
  inOrder : ∀ key, (ofKey key s.started).Sublist (ofKey key s.accepted)

/-- Some `dispatch` call holds the sender of task `i`. -/
def SenderHeld (calls : List (DispatchCall T)) (i : Nat) : Prop :=
  ∃ d ∈ calls, d.phase.holdsSender i = true

/-- The task will not handle another message as long as no one is given its sender: it has
left its loop, or waits on an empty queue with no call about to send to it. -/
def Coordinator.Retired (s : Coordinator T) (i : Nat) (w : WorkerTask T) : Prop :=
  w.phase.inLoop = false ∨
    (w.phase = .receiving ∧ w.queue = [] ∧ ¬ SenderHeld s.calls i)

/-- If the step spawns a worker for a key, every task the key already had is retired. -/
def Coordinator.SpawnsOverRetired (s : Coordinator T) (a : Action T) : Prop :=
  ∀ c key message attempt, a = .workerSenderForKey c →
    s.calls[c]? = some ⟨key, message, .acquiring attempt⟩ → s.workers key = none →
    ∀ i w, s.tasks[i]? = some w → w.key = key → s.Retired i w

/-! ## The tasks that may still see a message -/

/-- The task is in its loop and busy, or can still be sent to: by a call that holds its
sender or through the workers map. -/
def Coordinator.Live (s : Coordinator T) (i : Nat) (w : WorkerTask T) : Prop :=
  w.phase.inLoop = true ∧
    (w.phase ≠ .receiving ∨ w.queue ≠ [] ∨ SenderHeld s.calls i ∨
      ∃ entry, s.workers w.key = some entry ∧ entry.tx = i)

/-- The invariant behind serialization. -/
structure Coordinator.Ordered (s : Coordinator T) : Prop where
  entries : ∀ key entry, s.workers key = some entry →
    ∃ w, s.tasks[entry.tx]? = some w ∧ w.key = key
  senders : ∀ d ∈ s.calls, ∀ i, d.phase.holdsSender i = true →
    ∃ w, s.tasks[i]? = some w ∧ w.key = d.key
  keys : ∀ w ∈ s.tasks, ∀ m, m ∈ w.queue ∨ w.phase = .handling m → m.key = w.key
  oneLive : ∀ i j w v, s.tasks[i]? = some w → s.tasks[j]? = some v → w.key = v.key →
    s.Live i w → s.Live j v → i = j
  inOrder : ∀ key, (ofKey key s.started).Sublist (ofKey key s.accepted)
  queueInOrder : ∀ i w, s.tasks[i]? = some w → s.Live i w →
    (ofKey w.key s.started ++ w.queue).Sublist (ofKey w.key s.accepted)

/-- A retired task that is in no map entry is not live. -/
theorem not_live_of_retired {s : Coordinator T} {i : Nat} {w : WorkerTask T}
    (h : s.Retired i w) (hentry : s.workers w.key = none) : ¬ s.Live i w := by
  rintro ⟨hin, hlive⟩
  rcases h with hleft | ⟨hrec, hnil, hheld⟩
  · rw [hin] at hleft
    cases hleft
  · rcases hlive with hphase | hqueue | hcall | ⟨entry, hsome, _⟩
    · exact hphase hrec
    · exact hqueue hnil
    · exact hheld hcall
    · rw [hentry] at hsome
      cases hsome

/-! ## Senders and entries -/

/-- Replacing a call adds at most the sender the new one holds. -/
theorem senderHeld_set {calls : List (DispatchCall T)} {c i : Nat} {d : DispatchCall T}
    (h : SenderHeld (calls.set c d) i) : SenderHeld calls i ∨ d.phase.holdsSender i = true := by
  obtain ⟨e, he, hold⟩ := h
  rcases List.mem_or_eq_of_mem_set he with he | rfl
  · exact .inl ⟨e, he, hold⟩
  · exact .inr hold

theorem senderHeld_of_sending {calls : List (DispatchCall T)} {c : Nat} {key : Text}
    {message : T} {attempt : Nat} {workerId : UInt64} {tx : Nat}
    (h : calls[c]? = some ⟨key, message, .sending attempt workerId tx⟩) :
    SenderHeld calls tx :=
  ⟨_, List.mem_of_getElem? h, beq_self_eq_true tx⟩

/-! ## No step revives a task -/

/-- What is live in a state with fewer senders, and no new entries, was live before. -/
theorem Coordinator.Live.of_le {s s' : Coordinator T} {i : Nat} {w : WorkerTask T}
    (h : s'.Live i w) (hheld : SenderHeld s'.calls i → SenderHeld s.calls i)
    (hentry : ∀ entry, s'.workers w.key = some entry → entry.tx = i →
      s.workers w.key = some entry) : s.Live i w := by
  refine ⟨h.1, ?_⟩
  rcases h.2 with hphase | hqueue | hcall | ⟨entry, hsome, htx⟩
  · exact .inl hphase
  · exact .inr (.inl hqueue)
  · exact .inr (.inr (.inl (hheld hcall)))
  · exact .inr (.inr (.inr ⟨entry, hentry entry hsome htx, htx⟩))

/-- **A live task was live before the step, under the same key, unless the step spawned
it.** -/
theorem live_before_step {s s' : Coordinator T} {a : Action T} (hJ : s.Ordered)
    (h : Step s a s') {i : Nat} {w : WorkerTask T} (htask : s'.tasks[i]? = some w)
    (hlive : s'.Live i w) :
    (∃ v, s.tasks[i]? = some v ∧ v.key = w.key ∧ s.Live i v) ∨
      (i = s.tasks.length ∧ s.workers w.key = none ∧ w.queue = [] ∧
        ∃ c message attempt, a = .workerSenderForKey c ∧
          s.calls[c]? = some ⟨w.key, message, .acquiring attempt⟩) := by
  -- a step that only takes senders and entries away
  have hold : s.tasks[i]? = some w →
      (SenderHeld s'.calls i → SenderHeld s.calls i) →
      (∀ entry, s'.workers w.key = some entry → entry.tx = i → s.workers w.key = some entry) →
      ∃ v, s.tasks[i]? = some v ∧ v.key = w.key ∧ s.Live i v :=
    fun ht hheld hentry => ⟨w, ht, rfl, hlive.of_le hheld hentry⟩
  cases h with
  | dispatch key message =>
      refine .inl (hold htask ?_ fun _ h _ => h)
      rintro ⟨d, hd, hholds⟩
      rcases List.mem_append.mp hd with hd | hd
      · exact ⟨d, hd, hholds⟩
      · rw [List.mem_singleton.mp hd] at hholds
        cases hholds
  | @senderFound c key message attempt existing hcall hentry =>
      by_cases hi : existing.tx = i
      · -- the task whose sender is handed out had the map entry
        obtain ⟨v, hv, hkey⟩ := hJ.entries key existing hentry
        rw [hi] at hv
        rw [show s.tasks[i]? = some w from htask] at hv
        cases hv
        refine .inl ⟨w, htask, rfl, hlive.1, .inr (.inr (.inr ⟨existing, ?_, hi⟩))⟩
        rw [hkey, hentry]
      · refine .inl (hold htask (fun hheld => ?_) fun _ h _ => h)
        rcases senderHeld_set hheld with hheld | hholds
        · exact hheld
        · exact absurd (beq_iff_eq.mp hholds) hi
  | @spawned c key message attempt hcall hentry =>
      rcases getElem?_append_singleton_cases htask with htask | ⟨rfl, rfl⟩
      · have hlt : i < s.tasks.length := (List.getElem?_eq_some_iff.mp htask).1
        refine .inl (hold htask (fun hheld => ?_) fun entry hsome htx => ?_)
        · rcases senderHeld_set hheld with hheld | hholds
          · exact hheld
          · have : s.tasks.length = i := beq_iff_eq.mp hholds
            omega
        · rcases update_some_cases hsome with ⟨_, rfl⟩ | ⟨_, hsome⟩
          · have : s.tasks.length = i := htx
            omega
          · exact hsome
      · exact .inr ⟨rfl, hentry, rfl, c, message, attempt, rfl, hcall⟩
  | @sent c key message attempt workerId tx v hcall hv hopen =>
      have hheld : SenderHeld s.calls tx := senderHeld_of_sending hcall
      rcases getElem?_set_cases htask with ⟨rfl, rfl⟩ | ⟨hne, htask⟩
      · exact .inl ⟨v, hv, rfl, hlive.1, .inr (.inr (.inl hheld))⟩
      · refine .inl (hold htask (fun hheld => ?_) fun _ h _ => h)
        exact (senderHeld_set hheld).resolve_right (by simp [CallPhase.holdsSender])
  | sendFailed hcall hv hclosed =>
      refine .inl (hold htask (fun hheld => ?_) fun _ h _ => h)
      exact (senderHeld_set hheld).resolve_right (by simp [CallPhase.holdsSender])
  | @attemptFailed c key message attempt workerId hcall =>
      refine .inl (hold htask (fun hheld => ?_) fun entry hsome _ =>
        Coordinator.removeIfMatches_eq_some hsome)
      refine (senderHeld_set hheld).resolve_right ?_
      show ¬ (CallPhase.holdsSender i (if _ then _ else _)) = true
      split <;> simp [CallPhase.holdsSender]
  | removed key =>
      exact .inl (hold htask id fun entry hsome _ => (update_none_cases hsome).2)
  | received hv =>
      rcases getElem?_set_cases htask with ⟨rfl, rfl⟩ | ⟨hne, htask⟩
      · exact .inl ⟨_, hv, rfl, rfl, .inr (.inl (by simp))⟩
      · exact .inl (hold htask id fun _ h _ => h)
  | handlerDone hv =>
      rcases getElem?_set_cases htask with ⟨rfl, rfl⟩ | ⟨hne, htask⟩
      · exact .inl ⟨_, hv, rfl, rfl, .inl (by simp)⟩
      · exact .inl (hold htask id fun _ h _ => h)
  | idledOut hv =>
      rcases getElem?_set_cases htask with ⟨rfl, rfl⟩ | ⟨hne, htask⟩
      · cases hlive.1
      · exact .inl (hold htask id fun _ h _ => h)
  | sendersGone hv =>
      rcases getElem?_set_cases htask with ⟨rfl, rfl⟩ | ⟨hne, htask⟩
      · cases hlive.1
      · exact .inl (hold htask id fun _ h _ => h)
  | unlinked hv =>
      rcases getElem?_set_cases htask with ⟨rfl, rfl⟩ | ⟨hne, htask⟩
      · cases hlive.1
      · exact .inl (hold htask id fun entry hsome _ =>
          Coordinator.removeIfMatches_eq_some hsome)
  | exited hv =>
      rcases getElem?_set_cases htask with ⟨rfl, rfl⟩ | ⟨hne, htask⟩
      · cases hlive.1
      · exact .inl (hold htask id fun _ h _ => h)

/-! ## The invariant along a step -/

/-- Every task keeps its key and its index. -/
theorem task_key_of_step {s s' : Coordinator T} {a : Action T} (h : Step s a s') {i : Nat}
    {key : Text} (htask : ∃ w, s.tasks[i]? = some w ∧ w.key = key) :
    ∃ w, s'.tasks[i]? = some w ∧ w.key = key := by
  obtain ⟨w, hw, rfl⟩ := htask
  -- a step that replaces task `j` by one of the same key
  have hset : ∀ {j : Nat} {v v' : WorkerTask T}, s.tasks[j]? = some v → v'.key = v.key →
      ∃ u, (s.tasks.set j v')[i]? = some u ∧ u.key = w.key := by
    intro j v v' hv hkey
    by_cases hj : j = i
    · subst hj
      rw [hw] at hv
      cases hv
      exact ⟨v', getElem?_set_self_of_getElem? hw, hkey⟩
    · exact ⟨w, getElem?_set_of_getElem? hw hj, rfl⟩
  cases h with
  | dispatch key message => exact ⟨w, hw, rfl⟩
  | senderFound hcall hentry => exact ⟨w, hw, rfl⟩
  | spawned hcall hentry => exact ⟨w, getElem?_append_of_getElem? hw _, rfl⟩
  | sent hcall hv hopen => exact hset hv rfl
  | sendFailed hcall hv hclosed => exact ⟨w, hw, rfl⟩
  | attemptFailed hcall => exact ⟨w, hw, rfl⟩
  | removed key => exact ⟨w, hw, rfl⟩
  | received hv => exact hset hv rfl
  | handlerDone hv => exact hset hv rfl
  | idledOut hv => exact hset hv rfl
  | sendersGone hv => exact hset hv rfl
  | unlinked hv => exact hset hv rfl
  | exited hv => exact hset hv rfl

theorem entries_step {s s' : Coordinator T} {a : Action T} (hJ : s.Ordered)
    (h : Step s a s') : ∀ key entry, s'.workers key = some entry →
      ∃ w, s'.tasks[entry.tx]? = some w ∧ w.key = key := by
  intro key entry hentry
  have hold : s.workers key = some entry → ∃ w, s'.tasks[entry.tx]? = some w ∧ w.key = key :=
    fun hsome => task_key_of_step h (hJ.entries key entry hsome)
  cases h with
  | spawned hcall hnone =>
      rcases update_some_cases hentry with ⟨rfl, rfl⟩ | ⟨_, hsome⟩
      · exact ⟨_, List.getElem?_concat_length, rfl⟩
      · exact hold hsome
  | attemptFailed hcall => exact hold (Coordinator.removeIfMatches_eq_some hentry)
  | removed k => exact hold ((update_none_cases hentry).2)
  | unlinked hv => exact hold (Coordinator.removeIfMatches_eq_some hentry)
  | dispatch k message => exact hold hentry
  | senderFound hcall hsome => exact hold hentry
  | sent hcall hv hopen => exact hold hentry
  | sendFailed hcall hv hclosed => exact hold hentry
  | received hv => exact hold hentry
  | handlerDone hv => exact hold hentry
  | idledOut hv => exact hold hentry
  | sendersGone hv => exact hold hentry
  | exited hv => exact hold hentry

theorem senders_step {s s' : Coordinator T} {a : Action T} (hJ : s.Ordered)
    (h : Step s a s') : ∀ d ∈ s'.calls, ∀ i, d.phase.holdsSender i = true →
      ∃ w, s'.tasks[i]? = some w ∧ w.key = d.key := by
  have hold : ∀ d ∈ s.calls, ∀ i, d.phase.holdsSender i = true →
      ∃ w, s'.tasks[i]? = some w ∧ w.key = d.key :=
    fun d hd i hi => task_key_of_step h (hJ.senders d hd i hi)
  cases h with
  | dispatch key message =>
      exact forall_mem_append hold fun i hi => by cases hi
  | @senderFound c key message attempt existing hcall hentry =>
      refine forall_mem_set hold fun i hi => ?_
      have htx : existing.tx = i := beq_iff_eq.mp hi
      rw [← htx]
      exact hJ.entries key existing hentry
  | @spawned c key message attempt hcall hentry =>
      refine forall_mem_set hold fun i hi => ?_
      have hi : s.tasks.length = i := beq_iff_eq.mp hi
      rw [← hi]
      exact ⟨_, List.getElem?_concat_length, rfl⟩
  | sent hcall hv hopen => exact forall_mem_set hold fun i hi => by cases hi
  | sendFailed hcall hv hclosed => exact forall_mem_set hold fun i hi => by cases hi
  | @attemptFailed c key message attempt workerId hcall =>
      refine forall_mem_set hold fun i hi => ?_
      have hi : (if attempt = 1 then CallPhase.returned false
        else .acquiring (attempt + 1)).holdsSender i = true := hi
      split at hi <;> cases hi
  | removed key => exact hold
  | received hv => exact hold
  | handlerDone hv => exact hold
  | idledOut hv => exact hold
  | sendersGone hv => exact hold
  | unlinked hv => exact hold
  | exited hv => exact hold

theorem keys_step {s s' : Coordinator T} {a : Action T} (hJ : s.Ordered) (h : Step s a s') :
    ∀ w ∈ s'.tasks, ∀ m, m ∈ w.queue ∨ w.phase = .handling m → m.key = w.key := by
  have hkeys := hJ.keys
  cases h with
  | dispatch key message => exact hkeys
  | senderFound hcall hentry => exact hkeys
  | spawned hcall hentry => exact forall_mem_append hkeys (by simp)
  | @sent c key message attempt workerId tx w hcall hv hopen =>
      obtain ⟨v, hv', hkey⟩ := hJ.senders _ (List.mem_of_getElem? hcall) tx (beq_self_eq_true tx)
      rw [hv] at hv'
      cases hv'
      refine forall_mem_set hkeys ?_
      rintro m (hm | hm)
      · rcases List.mem_append.mp hm with hm | hm
        · exact hkeys w (List.mem_of_getElem? hv) m (.inl hm)
        · rw [List.mem_singleton.mp hm]
          exact hkey.symm
      · exact hkeys w (List.mem_of_getElem? hv) m (.inr hm)
  | sendFailed hcall hv hclosed => exact hkeys
  | attemptFailed hcall => exact hkeys
  | removed key => exact hkeys
  | received hv =>
      refine forall_mem_set hkeys ?_
      rintro m (hm | hm)
      · exact hkeys _ (List.mem_of_getElem? hv) m (.inl (List.mem_cons_of_mem _ hm))
      · cases hm
        exact hkeys _ (List.mem_of_getElem? hv) _ (.inl List.mem_cons_self)
  | handlerDone hv =>
      refine forall_mem_set hkeys ?_
      rintro m (hm | hm)
      · exact hkeys _ (List.mem_of_getElem? hv) m (.inl hm)
      · cases hm
  | idledOut hv => exact forall_mem_set hkeys (by simp)
  | sendersGone hv => exact forall_mem_set hkeys (by simp)
  | unlinked hv =>
      refine forall_mem_set hkeys ?_
      rintro m (hm | hm)
      · exact hkeys _ (List.mem_of_getElem? hv) m (.inl hm)
      · cases hm
  | exited hv => exact forall_mem_set hkeys (by simp)

/-- A key has at most one live task after the step: a new one found the others retired. -/
theorem oneLive_step {s s' : Coordinator T} {a : Action T} (hJ : s.Ordered)
    (hC : s.SpawnsOverRetired a) (h : Step s a s') : ∀ i j w v, s'.tasks[i]? = some w →
      s'.tasks[j]? = some v → w.key = v.key → s'.Live i w → s'.Live j v → i = j := by
  -- an old live task next to the one just spawned
  have hnew : ∀ {key : Text} {i : Nat} {w : WorkerTask T}, s.tasks[i]? = some w → w.key = key →
      s.Live i w → s.workers key = none →
      (∃ c message attempt, a = .workerSenderForKey c ∧
        s.calls[c]? = some ⟨key, message, .acquiring attempt⟩) → False := by
    rintro key i w hw rfl hlive hnone ⟨c, message, attempt, rfl, hcall⟩
    have hretired : s.Retired i w :=
      hC c w.key message attempt rfl hcall hnone i w hw rfl
    exact not_live_of_retired hretired hnone hlive
  intro i j w v hw hv hkey hlw hlv
  rcases live_before_step hJ h hw hlw with ⟨w', hw', hkw, hlw'⟩ | ⟨rfl, hnone, -, hspawn⟩
  · rcases live_before_step hJ h hv hlv with ⟨v', hv', hkv, hlv'⟩ | ⟨rfl, hnone, -, hspawn⟩
    · exact hJ.oneLive i j w' v' hw' hv' (by rw [hkw, hkv, hkey]) hlw' hlv'
    · exact (hnew hw' (hkw.trans hkey) hlw' hnone hspawn).elim
  · rcases live_before_step hJ h hv hlv with ⟨v', hv', hkv, hlv'⟩ | ⟨rfl, -, -, -⟩
    · exact (hnew hv' (hkv.trans hkey.symm) hlv' hnone hspawn).elim
    · rfl

/-! ## The order of a key's messages -/

theorem ofKey_append (key : Text) (ms ns : List (Routed T)) :
    ofKey key (ms ++ ns) = ofKey key ms ++ ofKey key ns := List.filter_append ..

theorem ofKey_singleton_self {key : Text} {m : Routed T} (h : m.key = key) :
    ofKey key [m] = [m] := by
  unfold ofKey
  rw [List.filter_cons_of_pos (by simp [h]), List.filter_nil]

theorem ofKey_singleton_of_ne {key : Text} {m : Routed T} (h : m.key ≠ key) :
    ofKey key [m] = [] := by
  unfold ofKey
  rw [List.filter_cons_of_neg (by simp [h]), List.filter_nil]

/-- A task of the state before that is live after was live before. -/
theorem live_before_of_task {s s' : Coordinator T} {a : Action T} (hJ : s.Ordered)
    (h : Step s a s') {i : Nat} {v w : WorkerTask T} (hv : s.tasks[i]? = some v)
    (hw : s'.tasks[i]? = some w) (hlive : s'.Live i w) : s.Live i v := by
  rcases live_before_step hJ h hw hlive with ⟨u, hu, _, hlive'⟩ | ⟨rfl, _⟩
  · rw [hv] at hu
    cases hu
    exact hlive'
  · have hlt := (List.getElem?_eq_some_iff.mp hv).1
    omega

/-- A live task's queue continues what its key's handlers were invoked on, in the order of
acceptance. -/
theorem queueInOrder_step {s s' : Coordinator T} {a : Action T} (hJ : s.Ordered)
    (h : Step s a s') : ∀ i w, s'.tasks[i]? = some w → s'.Live i w →
      (ofKey w.key s'.started ++ w.queue).Sublist (ofKey w.key s'.accepted) := by
  intro i w hw hlive
  have hold : ∀ v, s.tasks[i]? = some v →
      (ofKey v.key s.started ++ v.queue).Sublist (ofKey v.key s.accepted) :=
    fun v hv => hJ.queueInOrder i v hv (live_before_of_task hJ h hv hw hlive)
  have hbefore : ∀ v, s.tasks[i]? = some v → s.Live i v :=
    fun v hv => live_before_of_task hJ h hv hw hlive
  cases h with
  | dispatch key message => exact hold w hw
  | senderFound hcall hentry => exact hold w hw
  | spawned hcall hentry =>
      rcases getElem?_append_singleton_cases hw with hw | ⟨_, rfl⟩
      · exact hold w hw
      · rw [List.append_nil]
        exact hJ.inOrder _
  | @sent c key message attempt workerId tx v hcall hv hopen =>
      show (ofKey w.key s.started ++ w.queue).Sublist
        (ofKey w.key (s.accepted ++ [⟨c, key, message⟩]))
      rw [ofKey_append]
      rcases getElem?_set_cases hw with ⟨rfl, rfl⟩ | ⟨hne, hw⟩
      · -- the message joins the queue and the accepted ones at the end
        obtain ⟨u, hu, hkey⟩ :=
          hJ.senders _ (List.mem_of_getElem? hcall) tx (beq_self_eq_true tx)
        rw [hv] at hu
        cases hu
        have hself : ofKey v.key [(⟨c, key, message⟩ : Routed T)] = [⟨c, key, message⟩] :=
          ofKey_singleton_self hkey.symm
        rw [hself, ← List.append_assoc]
        exact (hold v hv).append (List.Sublist.refl _)
      · exact (hold w hw).trans (List.sublist_append_left _ _)
  | sendFailed hcall hv hclosed => exact hold w hw
  | attemptFailed hcall => exact hold w hw
  | removed key => exact hold w hw
  | @received j key id routed queue hv =>
      have hkey : routed.key = key :=
        hJ.keys _ (List.mem_of_getElem? hv) routed (.inl List.mem_cons_self)
      show (ofKey w.key (s.started ++ [routed]) ++ w.queue).Sublist (ofKey w.key s.accepted)
      rw [ofKey_append]
      rcases getElem?_set_cases hw with ⟨rfl, rfl⟩ | ⟨hne, hw⟩
      · rw [ofKey_singleton_self hkey, List.append_assoc]
        exact hold _ hv
      · -- the receiving task is live, so the other one is of another key
        have hreceiving : s.Live j ⟨key, id, routed :: queue, .receiving⟩ :=
          ⟨rfl, .inr (.inl (by simp))⟩
        have hkeys : key ≠ w.key := fun heq =>
          hne (hJ.oneLive j i _ w hv hw heq hreceiving (hbefore w hw))
        rw [ofKey_singleton_of_ne (by rw [hkey]; exact hkeys), List.append_nil]
        exact hold w hw
  | handlerDone hv =>
      rcases getElem?_set_cases hw with ⟨rfl, rfl⟩ | ⟨hne, hw⟩
      · have hqueue := hold _ hv
        exact hqueue
      · exact hold w hw
  | idledOut hv =>
      rcases getElem?_set_cases hw with ⟨rfl, rfl⟩ | ⟨hne, hw⟩
      · cases hlive.1
      · exact hold w hw
  | sendersGone hv =>
      rcases getElem?_set_cases hw with ⟨rfl, rfl⟩ | ⟨hne, hw⟩
      · cases hlive.1
      · exact hold w hw
  | unlinked hv =>
      rcases getElem?_set_cases hw with ⟨rfl, rfl⟩ | ⟨hne, hw⟩
      · cases hlive.1
      · exact hold w hw
  | exited hv =>
      rcases getElem?_set_cases hw with ⟨rfl, rfl⟩ | ⟨hne, hw⟩
      · cases hlive.1
      · exact hold w hw

theorem inOrder_step {s s' : Coordinator T} {a : Action T} (hJ : s.Ordered)
    (h : Step s a s') : ∀ key, (ofKey key s'.started).Sublist (ofKey key s'.accepted) := by
  intro k
  have hold := hJ.inOrder k
  cases h with
  | dispatch key message => exact hold
  | senderFound hcall hentry => exact hold
  | spawned hcall hentry => exact hold
  | sent hcall hv hopen =>
      show (ofKey k s.started).Sublist (ofKey k (s.accepted ++ _))
      rw [ofKey_append]
      exact hold.trans (List.sublist_append_left _ _)
  | sendFailed hcall hv hclosed => exact hold
  | attemptFailed hcall => exact hold
  | removed key => exact hold
  | @received j key id routed queue hv =>
      have hkey : routed.key = key :=
        hJ.keys _ (List.mem_of_getElem? hv) routed (.inl List.mem_cons_self)
      show (ofKey k (s.started ++ [routed])).Sublist (ofKey k s.accepted)
      rw [ofKey_append]
      by_cases hk : routed.key = k
      · subst hk
        -- the message at the head of a live queue is the next one in order
        have hlive : s.Live j ⟨key, id, routed :: queue, .receiving⟩ :=
          ⟨rfl, .inr (.inl (by simp))⟩
        have hnext := hJ.queueInOrder j _ hv hlive
        subst hkey
        rw [ofKey_singleton_self rfl]
        refine List.Sublist.trans ?_ hnext
        exact (List.Sublist.refl _).append (List.singleton_sublist.mpr List.mem_cons_self)
      · rw [ofKey_singleton_of_ne hk, List.append_nil]
        exact hold
  | handlerDone hv => exact hold
  | idledOut hv => exact hold
  | sendersGone hv => exact hold
  | unlinked hv => exact hold
  | exited hv => exact hold

/-- **A step that spawns a worker over retired tasks only keeps the invariant.** -/
theorem ordered_step {s s' : Coordinator T} {a : Action T} (hJ : s.Ordered)
    (hC : s.SpawnsOverRetired a) (h : s.step a = some s') : s'.Ordered := by
  have hstep : Step s a s' := Coordinator.step_spec h
  exact {
    entries := entries_step hJ hstep
    senders := senders_step hJ hstep
    keys := keys_step hJ hstep
    oneLive := oneLive_step hJ hC hstep
    inOrder := inOrder_step hJ hstep
    queueInOrder := queueInOrder_step hJ hstep }

/-- A handling task is live, so the invariant leaves one per key. -/
theorem serial_of_ordered {s : Coordinator T} (hJ : s.Ordered) : s.Serial := by
  refine ⟨fun i j w v m n hw hv hwm hvn hmn => ?_, hJ.inOrder⟩
  have hkw : m.key = w.key := hJ.keys w (List.mem_of_getElem? hw) m (.inr hwm)
  have hkv : n.key = v.key := hJ.keys v (List.mem_of_getElem? hv) n (.inr hvn)
  have hkey : w.key = v.key := by rw [← hkw, ← hkv, hmn]
  have hlw : s.Live i w := ⟨by rw [hwm]; rfl, .inl (by rw [hwm]; simp)⟩
  have hlv : s.Live j v := ⟨by rw [hvn]; rfl, .inl (by rw [hvn]; simp)⟩
  exact hJ.oneLive i j w v hw hv hkey hlw hlv

/-! ## Whole runs -/

theorem ordered_new : (Coordinator.new T).Ordered where
  entries := fun _ _ h => by cases h
  senders := fun _ h => by cases h
  keys := fun _ h => by cases h
  oneLive := fun _ _ _ _ h => by cases h
  inOrder := fun _ => List.Sublist.refl _
  queueInOrder := fun _ _ h => by cases h

/-- **A run in which a worker is only ever spawned for a key whose earlier tasks are all
retired handles one message of a key at a time, in the order of acceptance.** -/
theorem serial_of_spawnsOverRetired {tr : List (Action T × Coordinator T)}
    (hrun : Run Coordinator.step (Coordinator.new T) tr)
    (hC : Run.StepsMeet Coordinator.SpawnsOverRetired (Coordinator.new T) tr) :
    ∀ x ∈ tr, x.2.Serial := by
  intro x hx
  exact serial_of_ordered
    (Run.invariant_of_stepsMeet (fun _ _ _ hJ hC h => ordered_step hJ hC h) hrun ordered_new
      hC x hx)

/-- `SpawnsOverRetired`, computed. -/
def Coordinator.spawnsOverRetired [DecidableEq T] (s : Coordinator T) : Action T → Bool
  | .workerSenderForKey c =>
      match s.calls[c]? with
      | some ⟨key, _, .acquiring _⟩ =>
          (s.workers key).isSome || s.tasks.zipIdx.all fun (w, i) =>
            w.key != key || !w.phase.inLoop ||
              (w.phase == .receiving && w.queue.isEmpty &&
                !s.calls.any fun d => d.phase.holdsSender i)
      | _ => true
  | _ => true

theorem spawnsOverRetired_of_check [DecidableEq T] (s : Coordinator T) (a : Action T)
    (h : s.spawnsOverRetired a = true) : s.SpawnsOverRetired a := by
  rintro c key message attempt rfl hcall hnone i w hw hkey
  simp only [Coordinator.spawnsOverRetired, hcall, hnone, Option.isSome_none, Bool.false_or,
    List.all_eq_true] at h
  have htask := h (w, i) (List.mem_zipIdx_iff_getElem?.mpr hw)
  simp only [hkey, bne_self_eq_false, Bool.false_or, Bool.or_eq_true, Bool.not_eq_true',
    Bool.and_eq_true, beq_iff_eq, List.isEmpty_iff] at htask
  rcases htask with hleft | ⟨⟨hrec, hnil⟩, hheld⟩
  · exact .inl hleft
  · refine .inr ⟨hrec, hnil, ?_⟩
    rintro ⟨d, hd, hholds⟩
    rw [List.any_eq_false] at hheld
    exact hheld d hd hholds

/-- A worker handles a message and is removed while it waits for the next one; the next
`dispatch` for the key spawns a second one. -/
def idleRemove : List (Action Text) :=
  [.dispatch "session-a" "1", .workerSenderForKey 0, .send 0, .recv 0, .handlerDone 0,
    .remove "session-a", .dispatch "session-a" "2", .workerSenderForKey 1, .send 1, .recv 1]

theorem serial_idleRemove : ∃ tr, exec Coordinator.step (Coordinator.new Text) idleRemove =
    some tr ∧ ∀ x ∈ tr, x.2.Serial := by
  obtain ⟨tr, htr, hrun, hC⟩ :=
    exists_guarded_run_of_exec Coordinator.step (Coordinator.new Text) idleRemove
      spawnsOverRetired_of_check (by decide)
  exact ⟨tr, htr, serial_of_spawnsOverRetired hrun hC⟩

/-- As above, but the worker is removed while it handles the first message. -/
def busyRemove : List (Action Text) :=
  [.dispatch "session-a" "1", .workerSenderForKey 0, .send 0, .recv 0,
    .remove "session-a", .dispatch "session-a" "2", .workerSenderForKey 1, .send 1, .recv 1]

/-- The first two tasks are both handling a message of the same key. -/
def Coordinator.twoHandlers (s : Coordinator T) : Bool :=
  match s.tasks with
  | ⟨_, _, _, .handling m⟩ :: ⟨_, _, _, .handling n⟩ :: _ => m.key == n.key
  | _ => false

theorem busyRemove_runs_two_handlers :
    ¬ ∀ tr, Run Coordinator.step (Coordinator.new Text) tr → ∀ x ∈ tr, x.2.Serial := by
  intro hall
  obtain ⟨tr, hrun, x, hx, htwo⟩ :=
    exists_run_of_exec Coordinator.step (Coordinator.new Text) busyRemove
      Coordinator.twoHandlers (by decide)
  have hserial : x.2.Serial := hall tr hrun x hx
  unfold Coordinator.twoHandlers at htwo
  split at htwo
  · rename_i key id queue m key' id' queue' n _ htasks
    have hfirst : x.2.tasks[0]? = some ⟨key, id, queue, .handling m⟩ := by rw [htasks]; rfl
    have hsecond : x.2.tasks[1]? = some ⟨key', id', queue', .handling n⟩ := by rw [htasks]; rfl
    have heq : 0 = 1 :=
      hserial.oneHandler 0 1 _ _ m n hfirst hsecond rfl rfl (beq_iff_eq.mp htwo)
    cases heq
  · cases htwo

end Session
end SimpleClaw
