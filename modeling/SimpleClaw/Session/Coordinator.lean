import Mathlib.Data.List.Basic
import SimpleClaw.Lib.Tables
import SimpleClaw.Lib.Runs
import SimpleClaw.Lib.Text

/-!
# The session worker coordinator

`run/session.rs` routes every inbound message to a worker task of its session
key.  A `dispatch` call fetches the key's sender under the workers lock (spawning
a worker when the key has none), sends, and on a closed channel unlinks the dead
worker and tries once more.  A worker receives with an idle timeout, handles one
message at a time, and on leaving its loop takes the lock to unlink its own entry;
only then is its receiver dropped.

The unit of atomicity is one acquisition of the workers lock, one channel
operation, or one boundary of a handler.  A worker task is named by its index in
`tasks`, which is also the identity of its channel, since the task owns the only
receiver; a `dispatch` call is named by its index in `calls`.

* `Coordinator.step`: one atomic step, computed.
* `Step`: the same steps as a relation, one constructor for each thing that can
  happen.
* `Coordinator.step_spec`: every computed step is one of them.
-/

namespace SimpleClaw
namespace Session

variable {T : Type}

/-- A message as a `dispatch` call routed it: the call, its key and the payload. -/
structure Routed (T : Type) where
  call : Nat
  key : Text
  message : T
  deriving DecidableEq

/-- An entry of the workers map.  The sender is the channel of task `tx`. -/
structure SessionWorker where
  id : UInt64
  tx : Nat
  deriving DecidableEq

/-- Where a worker task is.  `leaving` has left the receive loop and waits for the
workers lock; `unlinked` has had the lock and still owns its receiver; `exited` has
dropped it. -/
inductive WorkerPhase (T : Type) where
  | receiving
  | handling (routed : Routed T)
  | leaving
  | unlinked
  | exited
  deriving DecidableEq

/-- The task is in its receive loop, so it will take what its queue still holds. -/
def WorkerPhase.inLoop : WorkerPhase T → Bool
  | .receiving | .handling _ => true
  | .leaving | .unlinked | .exited => false

/-- A spawned worker task with the messages sent to its channel and not yet received. -/
structure WorkerTask (T : Type) where
  key : Text
  id : UInt64
  queue : List (Routed T)
  phase : WorkerPhase T
  deriving DecidableEq

/-- Where a `dispatch` call is.  `attempt` is the loop variable of its two attempts. -/
inductive CallPhase where
  | acquiring (attempt : Nat)
  | sending (attempt : Nat) (workerId : UInt64) (tx : Nat)
  | removing (attempt : Nat) (workerId : UInt64)
  | returned (accepted : Bool)
  deriving DecidableEq

/-- The call holds a clone of the sender of task `i`. -/
def CallPhase.holdsSender (i : Nat) : CallPhase → Bool
  | .sending _ _ tx => tx == i
  | .acquiring _ | .removing _ _ | .returned _ => false

/-- A `dispatch` call with its arguments. -/
structure DispatchCall (T : Type) where
  key : Text
  message : T
  phase : CallPhase
  deriving DecidableEq

/-- The coordinator with its worker tasks and `dispatch` calls.  The last three fields
record the run: the messages whose send succeeded, the messages handlers were invoked
on and the messages handlers completed, each in that order. -/
structure Coordinator (T : Type) where
  workers : Text → Option SessionWorker
  nextWorkerId : UInt64
  tasks : List (WorkerTask T)
  calls : List (DispatchCall T)
  accepted : List (Routed T)
  started : List (Routed T)
  handled : List (Routed T)

/-- `SessionWorkerCoordinator::new`. -/
def Coordinator.new (T : Type) : Coordinator T where
  workers := fun _ => none
  nextWorkerId := 1
  tasks := []
  calls := []
  accepted := []
  started := []
  handled := []

/-- The atomic steps.  `recv` to `dropReceiver` belong to a worker task, the four before
`remove` to a `dispatch` call. -/
inductive Action (T : Type) where
  | dispatch (key : Text) (message : T)
  | workerSenderForKey (call : Nat)
  | send (call : Nat)
  | removeWorkerIfMatches (call : Nat)
  | remove (key : Text)
  | recv (task : Nat)
  | handlerDone (task : Nat)
  | idleTimeout (task : Nat)
  | channelClosed (task : Nat)
  | unlink (task : Nat)
  | dropReceiver (task : Nat)

namespace Coordinator

variable (s : Coordinator T)

/-! ## The steps of a dispatch call -/

/-- `dispatch` is called: its first attempt is about to ask for a sender. -/
def dispatch (key : Text) (message : T) : Coordinator T :=
  { s with calls := s.calls ++ [⟨key, message, .acquiring 0⟩] }

/-- `workers.remove(key)` if the entry carries the given id. -/
def removeIfMatches (workers : Text → Option SessionWorker) (key : Text) (id : UInt64) :
    Text → Option SessionWorker :=
  match workers key with
  | some entry => if entry.id = id then Function.update workers key none else workers
  | none => workers

/-- `worker_sender_for_key`: the existing sender, or that of a worker spawned now. -/
def workerSenderForKey (c : Nat) : Option (Coordinator T) :=
  match s.calls[c]? with
  | some ⟨key, message, .acquiring attempt⟩ =>
      match s.workers key with
      | some existing =>
          some { s with
            calls := s.calls.set c ⟨key, message, .sending attempt existing.id existing.tx⟩ }
      | none =>
          some { s with
            workers := Function.update s.workers key (some ⟨s.nextWorkerId, s.tasks.length⟩)
            nextWorkerId := s.nextWorkerId + 1
            tasks := s.tasks ++ [⟨key, s.nextWorkerId, [], .receiving⟩]
            calls := s.calls.set c
              ⟨key, message, .sending attempt s.nextWorkerId s.tasks.length⟩ }
  | _ => none

/-- `tx.send(payload)`: it fails exactly when the receiver has been dropped. -/
def send (c : Nat) : Option (Coordinator T) :=
  match s.calls[c]? with
  | some ⟨key, message, .sending attempt workerId tx⟩ =>
      match s.tasks[tx]? with
      | some w =>
          match w.phase with
          | .exited =>
              some { s with calls := s.calls.set c ⟨key, message, .removing attempt workerId⟩ }
          | _ =>
              some { s with
                tasks := s.tasks.set tx { w with queue := w.queue ++ [⟨c, key, message⟩] }
                calls := s.calls.set c ⟨key, message, .returned true⟩
                accepted := s.accepted ++ [⟨c, key, message⟩] }
      | none => none
  | _ => none

/-- `remove_worker_if_matches` after a failed send, and the end of that attempt: the
second one gives the message up. -/
def removeWorkerIfMatches (c : Nat) : Option (Coordinator T) :=
  match s.calls[c]? with
  | some ⟨key, message, .removing attempt workerId⟩ =>
      some { s with
        workers := removeIfMatches s.workers key workerId
        calls := s.calls.set c ⟨key, message,
          if attempt = 1 then .returned false else .acquiring (attempt + 1)⟩ }
  | _ => none

/-- `remove`, called from outside the coordinator. -/
def remove (key : Text) : Coordinator T :=
  { s with workers := Function.update s.workers key none }

/-! ## The steps of a worker task -/

/-- `rx.recv()` yields a message and the handler is invoked on it. -/
def recv (i : Nat) : Option (Coordinator T) :=
  match s.tasks[i]? with
  | some ⟨key, id, routed :: queue, .receiving⟩ =>
      some { s with
        tasks := s.tasks.set i ⟨key, id, queue, .handling routed⟩
        started := s.started ++ [routed] }
  | _ => none

/-- The handler completes. -/
def handlerDone (i : Nat) : Option (Coordinator T) :=
  match s.tasks[i]? with
  | some ⟨key, id, queue, .handling routed⟩ =>
      some { s with
        tasks := s.tasks.set i ⟨key, id, queue, .receiving⟩
        handled := s.handled ++ [routed] }
  | _ => none

/-- The idle timeout elapses.  The timer polls `recv` first, so it only elapses on an
empty queue. -/
def idleTimeout (i : Nat) : Option (Coordinator T) :=
  match s.tasks[i]? with
  | some ⟨key, id, [], .receiving⟩ =>
      some { s with tasks := s.tasks.set i ⟨key, id, [], .leaving⟩ }
  | _ => none

/-- `rx.recv()` yields nothing: the queue is empty and no sender is left, neither in the
workers map (under the only key the task was ever entered with) nor in a call. -/
def channelClosed (i : Nat) : Option (Coordinator T) :=
  match s.tasks[i]? with
  | some ⟨key, id, [], .receiving⟩ =>
      if (s.workers key).any (fun entry => entry.tx == i) ||
          s.calls.any (fun d => d.phase.holdsSender i) then none
      else some { s with tasks := s.tasks.set i ⟨key, id, [], .leaving⟩ }
  | _ => none

/-- The task has the workers lock and removes its entry if it is still its own. -/
def unlink (i : Nat) : Option (Coordinator T) :=
  match s.tasks[i]? with
  | some ⟨key, id, queue, .leaving⟩ =>
      some { s with
        workers := removeIfMatches s.workers key id
        tasks := s.tasks.set i ⟨key, id, queue, .unlinked⟩ }
  | _ => none

/-- The task ends and its receiver is dropped, with whatever its queue holds. -/
def dropReceiver (i : Nat) : Option (Coordinator T) :=
  match s.tasks[i]? with
  | some ⟨key, id, _, .unlinked⟩ =>
      some { s with tasks := s.tasks.set i ⟨key, id, [], .exited⟩ }
  | _ => none

/-- One atomic step. -/
def step : Action T → Option (Coordinator T)
  | .dispatch key message => some (s.dispatch key message)
  | .workerSenderForKey c => s.workerSenderForKey c
  | .send c => s.send c
  | .removeWorkerIfMatches c => s.removeWorkerIfMatches c
  | .remove key => some (s.remove key)
  | .recv i => s.recv i
  | .handlerDone i => s.handlerDone i
  | .idleTimeout i => s.idleTimeout i
  | .channelClosed i => s.channelClosed i
  | .unlink i => s.unlink i
  | .dropReceiver i => s.dropReceiver i

end Coordinator

/-! ## What a step can do -/

/-- The steps as a relation: one constructor for each outcome of each step, with
everything the step checked. -/
inductive Step (s : Coordinator T) : Action T → Coordinator T → Prop where
  | dispatch (key : Text) (message : T) : Step s (.dispatch key message) (s.dispatch key message)
  | senderFound {c key message attempt existing}
      (hcall : s.calls[c]? = some ⟨key, message, .acquiring attempt⟩)
      (hentry : s.workers key = some existing) :
      Step s (.workerSenderForKey c) { s with
        calls := s.calls.set c ⟨key, message, .sending attempt existing.id existing.tx⟩ }
  | spawned {c key message attempt}
      (hcall : s.calls[c]? = some ⟨key, message, .acquiring attempt⟩)
      (hentry : s.workers key = none) :
      Step s (.workerSenderForKey c) { s with
        workers := Function.update s.workers key (some ⟨s.nextWorkerId, s.tasks.length⟩)
        nextWorkerId := s.nextWorkerId + 1
        tasks := s.tasks ++ [⟨key, s.nextWorkerId, [], .receiving⟩]
        calls := s.calls.set c ⟨key, message, .sending attempt s.nextWorkerId s.tasks.length⟩ }
  | sent {c key message attempt workerId tx w}
      (hcall : s.calls[c]? = some ⟨key, message, .sending attempt workerId tx⟩)
      (htask : s.tasks[tx]? = some w) (hopen : w.phase ≠ .exited) :
      Step s (.send c) { s with
        tasks := s.tasks.set tx { w with queue := w.queue ++ [⟨c, key, message⟩] }
        calls := s.calls.set c ⟨key, message, .returned true⟩
        accepted := s.accepted ++ [⟨c, key, message⟩] }
  | sendFailed {c key message attempt workerId tx w}
      (hcall : s.calls[c]? = some ⟨key, message, .sending attempt workerId tx⟩)
      (htask : s.tasks[tx]? = some w) (hclosed : w.phase = .exited) :
      Step s (.send c) { s with
        calls := s.calls.set c ⟨key, message, .removing attempt workerId⟩ }
  | attemptFailed {c key message attempt workerId}
      (hcall : s.calls[c]? = some ⟨key, message, .removing attempt workerId⟩) :
      Step s (.removeWorkerIfMatches c) { s with
        workers := Coordinator.removeIfMatches s.workers key workerId
        calls := s.calls.set c ⟨key, message,
          if attempt = 1 then .returned false else .acquiring (attempt + 1)⟩ }
  | removed (key : Text) : Step s (.remove key) (s.remove key)
  | received {i key id routed queue}
      (htask : s.tasks[i]? = some ⟨key, id, routed :: queue, .receiving⟩) :
      Step s (.recv i) { s with
        tasks := s.tasks.set i ⟨key, id, queue, .handling routed⟩
        started := s.started ++ [routed] }
  | handlerDone {i key id queue routed}
      (htask : s.tasks[i]? = some ⟨key, id, queue, .handling routed⟩) :
      Step s (.handlerDone i) { s with
        tasks := s.tasks.set i ⟨key, id, queue, .receiving⟩
        handled := s.handled ++ [routed] }
  | idledOut {i key id}
      (htask : s.tasks[i]? = some ⟨key, id, [], .receiving⟩) :
      Step s (.idleTimeout i) { s with tasks := s.tasks.set i ⟨key, id, [], .leaving⟩ }
  | sendersGone {i key id}
      (htask : s.tasks[i]? = some ⟨key, id, [], .receiving⟩) :
      Step s (.channelClosed i) { s with tasks := s.tasks.set i ⟨key, id, [], .leaving⟩ }
  | unlinked {i key id queue}
      (htask : s.tasks[i]? = some ⟨key, id, queue, .leaving⟩) :
      Step s (.unlink i) { s with
        workers := Coordinator.removeIfMatches s.workers key id
        tasks := s.tasks.set i ⟨key, id, queue, .unlinked⟩ }
  | exited {i key id queue}
      (htask : s.tasks[i]? = some ⟨key, id, queue, .unlinked⟩) :
      Step s (.dropReceiver i) { s with tasks := s.tasks.set i ⟨key, id, [], .exited⟩ }

/-- What a send does, once the call and the task it sends to are known. -/
theorem Step.of_send {s s' : Coordinator T} {c : Nat} {key : Text} {message : T}
    {attempt : Nat} {workerId : UInt64} {tx : Nat} {w : WorkerTask T}
    (h : Step s (.send c) s')
    (hcall : s.calls[c]? = some ⟨key, message, .sending attempt workerId tx⟩)
    (htask : s.tasks[tx]? = some w) :
    (w.phase = .exited → s' = { s with
      calls := s.calls.set c ⟨key, message, .removing attempt workerId⟩ }) ∧
    (w.phase ≠ .exited → s' = { s with
      tasks := s.tasks.set tx { w with queue := w.queue ++ [⟨c, key, message⟩] }
      calls := s.calls.set c ⟨key, message, .returned true⟩
      accepted := s.accepted ++ [⟨c, key, message⟩] }) := by
  cases h with
  | sent hcall' htask' hopen =>
      rw [hcall] at hcall'
      cases hcall'
      rw [htask] at htask'
      cases htask'
      exact ⟨fun hclosed => absurd hclosed hopen, fun _ => rfl⟩
  | sendFailed hcall' htask' hclosed =>
      rw [hcall] at hcall'
      cases hcall'
      rw [htask] at htask'
      cases htask'
      exact ⟨fun _ => rfl, fun hopen => absurd hclosed hopen⟩

namespace Coordinator

/-- **Every computed step is one of the listed outcomes.** -/
theorem step_spec {s s' : Coordinator T} {a : Action T} (h : s.step a = some s') :
    Step s a s' := by
  cases a with
  | dispatch key message => cases h; exact .dispatch key message
  | remove key => cases h; exact .removed key
  | workerSenderForKey c =>
      simp only [step, workerSenderForKey] at h
      split at h
      · rename_i key message attempt hcall
        split at h <;> rename_i hentry <;> cases h
        · exact .senderFound hcall hentry
        · exact .spawned hcall hentry
      · cases h
  | send c =>
      simp only [step, send] at h
      split at h
      · rename_i key message attempt workerId tx hcall
        split at h
        · rename_i w htask
          split at h <;> rename_i hphase <;> cases h
          · exact .sendFailed hcall htask hphase
          · exact .sent hcall htask hphase
        · cases h
      · cases h
  | removeWorkerIfMatches c =>
      simp only [step, removeWorkerIfMatches] at h
      split at h
      · rename_i hcall; cases h; exact .attemptFailed hcall
      · cases h
  | recv i =>
      simp only [step, recv] at h
      split at h
      · rename_i htask; cases h; exact .received htask
      · cases h
  | handlerDone i =>
      simp only [step, handlerDone] at h
      split at h
      · rename_i htask; cases h; exact .handlerDone htask
      · cases h
  | idleTimeout i =>
      simp only [step, idleTimeout] at h
      split at h
      · rename_i htask; cases h; exact .idledOut htask
      · cases h
  | channelClosed i =>
      simp only [step, channelClosed] at h
      split at h
      · rename_i htask
        split at h
        · cases h
        · cases h; exact .sendersGone htask
      · cases h
  | unlink i =>
      simp only [step, unlink] at h
      split at h
      · rename_i htask; cases h; exact .unlinked htask
      · cases h
  | dropReceiver i =>
      simp only [step, dropReceiver] at h
      split at h
      · rename_i htask; cases h; exact .exited htask
      · cases h

/-- An entry left by `removeIfMatches` was there before. -/
theorem removeIfMatches_eq_some {workers : Text → Option SessionWorker} {key k : Text}
    {id : UInt64} {entry : SessionWorker}
    (h : removeIfMatches workers key id k = some entry) : workers k = some entry := by
  unfold removeIfMatches at h
  cases hkey : workers key with
  | none => simpa only [hkey] using h
  | some own =>
      simp only [hkey] at h
      by_cases hid : own.id = id
      · rw [if_pos hid] at h
        exact (Table.update_none_cases h).2
      · rwa [if_neg hid] at h

end Coordinator

end Session
end SimpleClaw
