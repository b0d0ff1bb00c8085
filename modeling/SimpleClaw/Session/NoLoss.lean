import SimpleClaw.Session.Coordinator

/-!
# No accepted message is lost, and when one is

A message is accepted when its `dispatch` call returns `true`.  It must then stay in
the queue of a worker that is still in its receive loop, be under a handler, or have
been handled.

A worker whose idle timer fires leaves its loop on an empty queue, but keeps its
receiver open until it has had the workers lock.  A `dispatch` call that fetched the
sender before sends into that window successfully, and nothing receives the message any
more: the retry loop of `dispatch` only notices a receiver that is already dropped.
That is the only way to lose one.

* `Coordinator.NoLoss`: the property of one state.
* `Coordinator.SendsToListener`: a step is not a send into such a window.
* `noLoss_step`: out of a state without loss, a step leads to one exactly if it is no
  such send.
* `noLoss_iff_sendsToListener`: the same along every run.
-/

namespace SimpleClaw
namespace Session

open Transition Table

variable {T : Type}

/-- The `dispatch` call of the message has returned `true`. -/
def Accepted (calls : List (DispatchCall T)) (m : Routed T) : Prop :=
  calls[m.call]? = some ⟨m.key, m.message, .returned true⟩

/-- The message is in the queue of the task and will be received, or is being handled. -/
def WorkerTask.Holds (w : WorkerTask T) (m : Routed T) : Prop :=
  (w.phase.inLoop = true ∧ m ∈ w.queue) ∨ w.phase = .handling m

/-- The message is with some task that will see to it, or has been handled. -/
def Kept (tasks : List (WorkerTask T)) (handled : List (Routed T)) (m : Routed T) : Prop :=
  (∃ w ∈ tasks, w.Holds m) ∨ m ∈ handled

/-- **No accepted message is lost.**  Each is kept, and none sits in the queue of a task
that has left its receive loop. -/
structure Coordinator.NoLoss (s : Coordinator T) : Prop where
  kept : ∀ m, Accepted s.calls m → Kept s.tasks s.handled m
  noneStranded : ∀ w ∈ s.tasks, ∀ m ∈ w.queue, Accepted s.calls m → w.phase.inLoop = true

/-- If the step sends, then not to a task that has left its receive loop with its
receiver still open. -/
def Coordinator.SendsToListener (s : Coordinator T) (a : Action T) : Prop :=
  ∀ c key message attempt workerId tx w, a = .send c →
    s.calls[c]? = some ⟨key, message, .sending attempt workerId tx⟩ →
    s.tasks[tx]? = some w → w.phase ≠ .leaving ∧ w.phase ≠ .unlinked

/-! ## Accepted messages -/

section Accepted

variable {calls : List (DispatchCall T)} {c : Nat} {d d' : DispatchCall T} {m : Routed T}

theorem accepted_append_iff (hd : d.phase ≠ .returned true) :
    Accepted (calls ++ [d]) m ↔ Accepted calls m := by
  unfold Accepted
  rcases lt_trichotomy m.call calls.length with hlt | heq | hgt
  · rw [List.getElem?_append_left hlt]
  · rw [heq, List.getElem?_concat_length, List.getElem?_eq_none le_rfl]
    constructor
    · intro h; cases h; exact absurd rfl hd
    · intro h; cases h
  · rw [List.getElem?_eq_none (by simp; omega), List.getElem?_eq_none hgt.le]

theorem accepted_set_iff (hcall : calls[c]? = some d) (hd : d.phase ≠ .returned true)
    (hd' : d'.phase ≠ .returned true) : Accepted (calls.set c d') m ↔ Accepted calls m := by
  unfold Accepted
  by_cases hc : c = m.call
  · subst hc
    have hlt : m.call < calls.length := (List.getElem?_eq_some_iff.mp hcall).1
    rw [List.getElem?_set_self hlt, hcall]
    constructor
    · intro h; cases h; exact absurd rfl hd'
    · intro h; cases h; exact absurd rfl hd
  · rw [List.getElem?_set_ne hc]

theorem accepted_set_returned_iff {key : Text} {message : T} {phase : CallPhase}
    (hcall : calls[c]? = some ⟨key, message, phase⟩) (hphase : phase ≠ .returned true) :
    Accepted (calls.set c ⟨key, message, .returned true⟩) m ↔
      m = ⟨c, key, message⟩ ∨ Accepted calls m := by
  unfold Accepted
  by_cases hc : c = m.call
  · have hlt : c < calls.length := (List.getElem?_eq_some_iff.mp hcall).1
    rw [← hc, List.getElem?_set_self hlt, hcall]
    constructor
    · intro h; cases m; cases hc; cases h; exact .inl rfl
    · rintro (rfl | h)
      · rfl
      · cases h; exact absurd rfl hphase
  · rw [List.getElem?_set_ne hc]
    constructor
    · exact .inr
    · rintro (rfl | h)
      · exact absurd rfl hc
      · exact h

end Accepted

/-! ## Messages kept -/

section Kept

variable {tasks : List (WorkerTask T)} {handled handled' : List (Routed T)} {m : Routed T}

theorem kept_append {w : WorkerTask T} (h : Kept tasks handled m) :
    Kept (tasks ++ [w]) handled m := by
  rcases h with ⟨v, hv, hm⟩ | h
  · exact .inl ⟨v, List.mem_append_left _ hv, hm⟩
  · exact .inr h

/-- Changing a task keeps what the task or the handled messages still account for. -/
theorem kept_set {i : Nat} {w w' : WorkerTask T} (htask : tasks[i]? = some w)
    (hw : w.Holds m → w'.Holds m ∨ m ∈ handled') (hhandled : m ∈ handled → m ∈ handled')
    (h : Kept tasks handled m) : Kept (tasks.set i w') handled' m := by
  rcases h with ⟨v, hv, hm⟩ | h
  · obtain ⟨j, hj⟩ := List.mem_iff_getElem?.mp hv
    by_cases hij : i = j
    · subst hij
      rw [htask] at hj
      cases hj
      have hlt : i < tasks.length := (List.getElem?_eq_some_iff.mp htask).1
      rcases hw hm with hw' | hm
      · exact .inl ⟨w', List.mem_set hlt w', hw'⟩
      · exact .inr hm
    · have hj' : (tasks.set i w')[j]? = some v := by rw [List.getElem?_set_ne hij, hj]
      exact .inl ⟨v, List.mem_of_getElem? hj', hm⟩
  · exact .inr (hhandled h)

end Kept

/-! ## Queues of tasks that have left their loop -/

/-- What is queued has been accepted. -/
def Coordinator.QueuesAccepted (s : Coordinator T) : Prop :=
  ∀ w ∈ s.tasks, ∀ m ∈ w.queue, Accepted s.calls m

/-- A task that has left its loop has nothing in its queue. -/
def EmptyOnceLeft (w : WorkerTask T) : Prop := w.phase.inLoop = false → w.queue = []

/-! ## One step -/

/-- The step sends the message, and its receiver is open. -/
def Coordinator.Delivers (s : Coordinator T) (a : Action T) (m : Routed T) : Prop :=
  a = .send m.call ∧ ∃ attempt workerId tx w,
    s.calls[m.call]? = some ⟨m.key, m.message, .sending attempt workerId tx⟩ ∧
      s.tasks[tx]? = some w ∧ w.phase ≠ .exited

/-- A step accepts the message it delivers and takes back none. -/
theorem accepted_step_iff {s s' : Coordinator T} {a : Action T} {m : Routed T}
    (h : Step s a s') : Accepted s'.calls m ↔ s.Delivers a m ∨ Accepted s.calls m := by
  have hnot : (∀ c, a ≠ .send c) → (s.Delivers a m ∨ Accepted s.calls m ↔ Accepted s.calls m) :=
    fun ha => or_iff_right fun hd => ha _ hd.1
  cases h with
  | dispatch key message => rw [hnot (by simp)]; exact accepted_append_iff (by simp)
  | senderFound hcall hentry =>
      rw [hnot (by simp)]; exact accepted_set_iff hcall (by simp) (by simp)
  | spawned hcall hentry =>
      rw [hnot (by simp)]; exact accepted_set_iff hcall (by simp) (by simp)
  | @sent c key message attempt workerId tx w hcall htask hopen =>
      refine (accepted_set_returned_iff hcall (by simp)).trans (or_congr_left ?_)
      constructor
      · rintro rfl
        exact ⟨rfl, attempt, workerId, tx, w, hcall, htask, hopen⟩
      · rintro ⟨hc, _, _, _, _, hcall', _, _⟩
        cases hc
        rw [hcall] at hcall'
        cases m
        cases hcall'
        rfl
  | @sendFailed c key message attempt workerId tx w hcall htask hclosed =>
      refine (accepted_set_iff hcall (by simp) (by simp)).trans (or_iff_right ?_).symm
      rintro ⟨hc, _, _, _, v, hcall', htask', hopen⟩
      cases hc
      rw [hcall] at hcall'
      cases hcall'
      rw [htask] at htask'
      cases htask'
      exact hopen hclosed
  | attemptFailed hcall =>
      rw [hnot (by simp)]
      refine accepted_set_iff hcall (by simp) ?_
      show (if _ then _ else _) ≠ _
      split <;> simp
  | removed key => rw [hnot (by simp)]; exact Iff.rfl
  | received htask => rw [hnot (by simp)]
  | handlerDone htask => rw [hnot (by simp)]
  | idledOut htask => rw [hnot (by simp)]
  | sendersGone htask => rw [hnot (by simp)]
  | unlinked htask => rw [hnot (by simp)]
  | exited htask => rw [hnot (by simp)]

/-- The queues only ever hold accepted messages. -/
theorem queuesAccepted_step {s s' : Coordinator T} {a : Action T} (hq : s.QueuesAccepted)
    (h : Step s a s') : s'.QueuesAccepted := by
  have hmono : ∀ w ∈ s.tasks, ∀ m ∈ w.queue, Accepted s'.calls m :=
    fun w hw m hm => (accepted_step_iff h).mpr (.inr (hq w hw m hm))
  have hdel : ∀ m, s.Delivers a m → Accepted s'.calls m :=
    fun m hm => (accepted_step_iff h).mpr (.inl hm)
  cases h with
  | dispatch key message => exact hmono
  | senderFound hcall hentry => exact hmono
  | spawned hcall hentry => exact forall_mem_append hmono (by simp)
  | @sent c key message attempt workerId tx w hcall htask hopen =>
      refine forall_mem_set hmono fun m hm => ?_
      rcases List.mem_append.mp hm with hm | hm
      · exact hmono w (List.mem_of_getElem? htask) m hm
      · rw [List.mem_singleton.mp hm]
        exact hdel _ ⟨rfl, attempt, workerId, tx, w, hcall, htask, hopen⟩
  | sendFailed hcall htask hclosed => exact hmono
  | attemptFailed hcall => exact hmono
  | removed key => exact hmono
  | received htask =>
      exact forall_mem_set hmono fun m hm =>
        hmono _ (List.mem_of_getElem? htask) m (List.mem_cons_of_mem _ hm)
  | handlerDone htask =>
      exact forall_mem_set hmono fun m hm => hmono _ (List.mem_of_getElem? htask) m hm
  | idledOut htask => exact forall_mem_set hmono (by simp)
  | sendersGone htask => exact forall_mem_set hmono (by simp)
  | unlinked htask =>
      exact forall_mem_set hmono fun m hm => hmono _ (List.mem_of_getElem? htask) m hm
  | exited htask => exact forall_mem_set hmono (by simp)

/-- When queues hold accepted messages only, a stranded one is a nonempty queue. -/
theorem noLoss_iff {s : Coordinator T} (hq : s.QueuesAccepted) :
    s.NoLoss ↔ (∀ m, Accepted s.calls m → Kept s.tasks s.handled m) ∧
      ∀ w ∈ s.tasks, EmptyOnceLeft w := by
  constructor
  · rintro ⟨hkept, hnone⟩
    refine ⟨hkept, fun w hw hleft => List.eq_nil_iff_forall_not_mem.mpr fun m hm => ?_⟩
    have hin : w.phase.inLoop = true := hnone w hw m hm (hq w hw m hm)
    rw [hleft] at hin
    cases hin
  · rintro ⟨hkept, hempty⟩
    refine ⟨hkept, fun w hw m hm _ => ?_⟩
    cases hin : w.phase.inLoop with
    | true => rfl
    | false =>
        rw [hempty w hw hin] at hm
        cases hm

/-- A send to a listening task, and every other step, leaves no task with a queue behind. -/
theorem emptyOnceLeft_step {s s' : Coordinator T} {a : Action T}
    (hempty : ∀ w ∈ s.tasks, EmptyOnceLeft w) (hC : s.SendsToListener a) (h : Step s a s') :
    ∀ w ∈ s'.tasks, EmptyOnceLeft w := by
  have hnil : ∀ (key : Text) (id : UInt64) (phase : WorkerPhase T),
      EmptyOnceLeft ⟨key, id, [], phase⟩ := fun _ _ _ _ => rfl
  cases h with
  | dispatch key message => exact hempty
  | senderFound hcall hentry => exact hempty
  | spawned hcall hentry => exact forall_mem_append hempty (hnil _ _ _)
  | @sent c key message attempt workerId tx w hcall htask hopen =>
      refine forall_mem_set hempty fun hleft => ?_
      obtain ⟨hne, hne'⟩ := hC c key message attempt workerId tx w rfl hcall htask
      cases hphase : w.phase <;> simp_all [WorkerPhase.inLoop]
  | sendFailed hcall htask hclosed => exact hempty
  | attemptFailed hcall => exact hempty
  | removed key => exact hempty
  | received htask => exact forall_mem_set hempty fun hleft => by cases hleft
  | handlerDone htask => exact forall_mem_set hempty fun hleft => by cases hleft
  | idledOut htask => exact forall_mem_set hempty (hnil _ _ _)
  | sendersGone htask => exact forall_mem_set hempty (hnil _ _ _)
  | unlinked htask =>
      have hleft : EmptyOnceLeft _ := hempty _ (List.mem_of_getElem? htask)
      exact forall_mem_set hempty fun _ => hleft rfl
  | exited htask => exact forall_mem_set hempty (hnil _ _ _)

/-- What is kept stays kept: a task only leaves its loop with an empty queue, a received
message goes under the handler and a completed one to the handled. -/
theorem kept_step {s s' : Coordinator T} {a : Action T} {m : Routed T}
    (h : Step s a s') (hm : Kept s.tasks s.handled m) : Kept s'.tasks s'.handled m := by
  cases h with
  | dispatch key message => exact hm
  | senderFound hcall hentry => exact hm
  | spawned hcall hentry => exact kept_append hm
  | sent hcall htask hopen =>
      refine kept_set htask (fun hw => .inl ?_) id hm
      rcases hw with ⟨hin, hmem⟩ | hhandling
      · exact .inl ⟨hin, List.mem_append_left _ hmem⟩
      · exact .inr hhandling
  | sendFailed hcall htask hclosed => exact hm
  | attemptFailed hcall => exact hm
  | removed key => exact hm
  | received htask =>
      refine kept_set htask (fun hw => .inl ?_) id hm
      rcases hw with ⟨_, hmem⟩ | hhandling
      · rcases List.mem_cons.mp hmem with rfl | hmem
        · exact .inr rfl
        · exact .inl ⟨rfl, hmem⟩
      · cases hhandling
  | handlerDone htask =>
      refine kept_set htask (fun hw => ?_) (List.mem_append_left _) hm
      rcases hw with ⟨_, hmem⟩ | hhandling
      · exact .inl (.inl ⟨rfl, hmem⟩)
      · cases hhandling
        exact .inr (List.mem_append_right _ (List.mem_singleton.mpr rfl))
  | idledOut htask => exact kept_set htask (by simp [WorkerTask.Holds]) id hm
  | sendersGone htask => exact kept_set htask (by simp [WorkerTask.Holds]) id hm
  | unlinked htask =>
      exact kept_set htask (by simp [WorkerTask.Holds, WorkerPhase.inLoop]) id hm
  | exited htask =>
      exact kept_set htask (by simp [WorkerTask.Holds, WorkerPhase.inLoop]) id hm

/-- A message delivered to a task in its loop is kept. -/
theorem kept_of_delivers {s s' : Coordinator T} {a : Action T} {m : Routed T}
    (h : Step s a s') (hC : s.SendsToListener a) (hd : s.Delivers a m) :
    Kept s'.tasks s'.handled m := by
  obtain ⟨rfl, attempt, workerId, tx, w, hcall, htask, hopen⟩ := hd
  obtain ⟨hne, hne'⟩ := hC m.call m.key m.message attempt workerId tx w rfl hcall htask
  have hin : w.phase.inLoop = true := by
    cases hphase : w.phase <;> simp_all [WorkerPhase.inLoop]
  rw [(h.of_send hcall htask).2 hopen]
  have hlt : tx < s.tasks.length := (List.getElem?_eq_some_iff.mp htask).1
  refine .inl ⟨_, List.mem_set hlt _, .inl ⟨hin, ?_⟩⟩
  exact List.mem_append_right _ (List.mem_singleton.mpr rfl)

/-- A send to a task that has left its loop with its receiver open strands the message. -/
theorem stranded_of_send {s s' : Coordinator T} {c : Nat} {key : Text} {message : T}
    {attempt : Nat} {workerId : UInt64} {tx : Nat} {w : WorkerTask T}
    (hcall : s.calls[c]? = some ⟨key, message, .sending attempt workerId tx⟩)
    (htask : s.tasks[tx]? = some w) (hopen : w.phase ≠ .exited) (hleft : w.phase.inLoop = false)
    (h : Step s (.send c) s') : ¬ ∀ v ∈ s'.tasks, EmptyOnceLeft v := by
  rw [(h.of_send hcall htask).2 hopen]
  intro hempty
  have hlt : tx < s.tasks.length := (List.getElem?_eq_some_iff.mp htask).1
  have hnil : w.queue ++ [⟨c, key, message⟩] = [] := hempty _ (List.mem_set hlt _) hleft
  simp at hnil

/-- **Out of a state without loss, a step leads to one exactly if it does not send to a
task that has left its loop with the receiver still open.** -/
theorem noLoss_step {s s' : Coordinator T} {a : Action T} (hq : s.QueuesAccepted)
    (hP : s.NoLoss) (h : s.step a = some s') : s'.NoLoss ↔ s.SendsToListener a := by
  have hstep : Step s a s' := Coordinator.step_spec h
  rw [noLoss_iff (queuesAccepted_step hq hstep)]
  constructor
  · rintro ⟨_, hempty⟩ c key message attempt workerId tx w rfl hcall htask
    constructor <;> intro hphase
    · exact stranded_of_send hcall htask (by simp [hphase]) (by simp [hphase, WorkerPhase.inLoop])
        hstep hempty
    · exact stranded_of_send hcall htask (by simp [hphase]) (by simp [hphase, WorkerPhase.inLoop])
        hstep hempty
  · intro hC
    obtain ⟨hkept, hempty⟩ := (noLoss_iff hq).mp hP
    refine ⟨fun m hm => ?_, emptyOnceLeft_step hempty hC hstep⟩
    rcases (accepted_step_iff hstep).mp hm with hd | hm
    · exact kept_of_delivers hstep hC hd
    · exact kept_step hstep (hkept m hm)

/-! ## Whole runs -/

theorem noLoss_new : (Coordinator.new T).NoLoss :=
  ⟨fun m hm => by simp [Coordinator.new, Accepted] at hm, fun w hw => by cases hw⟩

/-- **A run of the coordinator loses no accepted message exactly if none of its sends goes
to a task that has left its receive loop with its receiver still open.** -/
theorem noLoss_iff_sendsToListener {tr : List (Action T × Coordinator T)}
    (hrun : Run Coordinator.step (Coordinator.new T) tr) :
    (∀ x ∈ tr, x.2.NoLoss) ↔
      Run.StepsMeet Coordinator.SendsToListener (Coordinator.new T) tr :=
  Run.forall_iff_stepsMeet (fun _ _ _ hq h => queuesAccepted_step hq (Coordinator.step_spec h))
    (fun _ _ _ hq hP h => noLoss_step hq hP h) hrun (fun w hw => by cases hw) noLoss_new

/-- Some task that has left its loop has an accepted message in its queue. -/
def Coordinator.strandsMessage [DecidableEq T] (s : Coordinator T) : Bool :=
  s.tasks.any fun w => !w.phase.inLoop &&
    w.queue.any fun m => s.calls[m.call]? == some ⟨m.key, m.message, .returned true⟩

theorem not_noLoss_of_strandsMessage [DecidableEq T] {s : Coordinator T}
    (h : s.strandsMessage = true) : ¬ s.NoLoss := by
  intro hP
  obtain ⟨w, hw, hstranded⟩ := List.any_eq_true.mp h
  obtain ⟨hleft, hqueue⟩ := Bool.and_eq_true_iff.mp hstranded
  obtain ⟨m, hm, hcall⟩ := List.any_eq_true.mp hqueue
  have hin : w.phase.inLoop = true := hP.noneStranded w hw m hm (beq_iff_eq.mp hcall)
  rw [hin] at hleft
  cases hleft

/-- A worker is spawned for the first message and handles it.  The second `dispatch` has
fetched its sender when the idle timer fires, and sends before the worker has had the lock. -/
def lateSend : List (Action Text) :=
  [.dispatch "session-a" "1", .workerSenderForKey 0, .send 0, .recv 0, .handlerDone 0,
    .dispatch "session-a" "2", .workerSenderForKey 1, .idleTimeout 0, .send 1, .unlink 0,
    .dropReceiver 0]

theorem noLoss_lateSend : ∃ tr, Run Coordinator.step (Coordinator.new Text) tr ∧
    ¬ Run.StepsMeet Coordinator.SendsToListener (Coordinator.new Text) tr := by
  obtain ⟨tr, hrun, x, hx, hstrands⟩ :=
    exists_run_of_exec Coordinator.step (Coordinator.new Text) lateSend
      Coordinator.strandsMessage (by decide)
  refine ⟨tr, hrun, fun hC => ?_⟩
  exact not_noLoss_of_strandsMessage hstrands ((noLoss_iff_sendsToListener hrun).mpr hC x hx)

theorem lateSend_loses_message : ¬ ∀ tr, Run Coordinator.step (Coordinator.new Text) tr →
    ∀ x ∈ tr, x.2.NoLoss := by
  intro hall
  obtain ⟨tr, hrun, x, hx, hstrands⟩ :=
    exists_run_of_exec Coordinator.step (Coordinator.new Text) lateSend
      Coordinator.strandsMessage (by decide)
  exact not_noLoss_of_strandsMessage hstrands (hall tr hrun x hx)

end Session
end SimpleClaw
