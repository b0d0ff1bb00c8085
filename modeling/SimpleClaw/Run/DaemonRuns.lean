import SimpleClaw.Lib.Runs
import SimpleClaw.Run.Daemon

/-!
# What the service commands are for

There is one service at most, the pid file says which, signals go to nothing else, and what the
commands print is true.  All of it rests on a pid file that is up to date: a command is given when
the one before has ended, and no other process gets the number that the file names.

* `Orderly`: what is relied on, step by step.
* `State.Sound`: the invariant.
* `State.commands_serve`: what holds in every state of an orderly run, and that every command ends.
-/

namespace SimpleClaw
namespace Daemon

open Transition

/-! ## What is relied on, and what is kept -/

/-- No service is running. -/
def NoService (proc : Nat → Option Process) : Prop := ∀ pid, proc pid ≠ some .service

/-- What was printed is true of the processes. -/
def Report.Holds (proc : Nat → Option Process) : Report → Prop
  | .alreadyRunning pid | .running pid => proc pid = some .service
  | .started pid => ∀ other, proc other = some .service → other = pid
  | .notRunning | .gone _ | .stale _ | .stopped => NoService proc

/-- What the command came to is true of the processes there were; that `stop` did not succeed is
said only when there is a service, and no file is found that cannot be understood. -/
def Said.Holds (x : Said) : Prop :=
  match x.result with
  | .ok report => report.Holds x.proc
  | .error .didNotStop => ¬ NoService x.proc
  | .error .parsePidFile => False
  | .error _ => True

namespace Phase

/-- The number that is to be written to the pid file. -/
def written : Phase → Option Nat
  | .writePid pid => some pid
  | _ => none

/-- `kill -0` reaches the service, and the pid file can be written. -/
def Answered (proc : Nat → Option Process) (a : Answers) : Phase → Prop
  | .check pid | .waitForExit pid _ _ => proc pid = some .service → a.reaches = true
  | .writePid _ => a.ok = true
  | .readPid | .removeStale | .spawn | .terminate _ | .forceKill _ | .discard _ | .done => True

instance (proc : Nat → Option Process) (a : Answers) (phase : Phase) :
    Decidable (phase.Answered proc a) := by
  cases phase <;> unfold Answered <;> infer_instance

/-- What a command relies on before its next call of the system. -/
def Sound (proc : Nat → Option Process) (pidFile : Option Text) : Phase → Prop
  | .check pid | .terminate pid | .waitForExit pid _ _ | .forceKill pid =>
      pidFile = some (pidText pid)
  | .removeStale | .discard _ => NoService proc
  | .spawn => pidFile = none
  | .writePid pid => pidFile = none ∧ pid ≤ u32Max ∧ proc pid ≠ some .other
  | .readPid | .done => True

end Phase

namespace State

/-- A command is given when the one before has ended, and is not cut off between the launch and the
pid file; and no other process is given a number that the file names, or that is about to be
written there. -/
def Orderly (s : State) : Action → Prop
  | .invoke _ => ∀ call ∈ s.calls, call.phase = .done
  | .proceed c a => ∀ call ∈ s.calls[c]?, call.phase.Answered s.proc a
  | .interrupt c => ∀ call ∈ s.calls[c]?, call.phase.written = none
  | .exits _ => True
  | .appears pid =>
      readPid true s.pidFile ≠ .ok (some pid) ∧ ∀ call ∈ s.calls, call.phase.written ≠ some pid

/-- **The invariant.**  One command is under way at most; the file names no other process; and a
service is named by the file, or by the command that has just launched it. -/
structure Sound (s : State) : Prop where
  one : ∀ (i j : Nat) (call call' : Call), s.calls[i]? = some call →
    s.calls[j]? = some call' → call.phase ≠ .done → call'.phase ≠ .done → i = j
  named : ∀ text, s.pidFile = some text →
    ∃ pid, text = pidText pid ∧ pid ≤ u32Max ∧ s.proc pid ≠ some .other
  services : ∀ pid, s.proc pid = some .service →
    s.pidFile = some (pidText pid) ∨ ∃ call ∈ s.calls, call.phase.written = some pid
  phases : ∀ call ∈ s.calls, call.phase.Sound s.proc s.pidFile
  signals : ∀ x ∈ s.signals, x.target ≠ some .other
  said : ∀ x ∈ s.said, x.Holds

instance (s : State) (a : Action) : Decidable (s.Orderly a) := by
  cases a <;> unfold Orderly <;> infer_instance

section Preservation

variable {s : State}

theorem sound_new {proc : Nat → Option Process} (h : NoService proc) : (new proc).Sound where
  one _ _ _ _ hcall _ _ _ := by cases hcall
  named _ hfile := by cases hfile
  services pid hpid := absurd hpid (h pid)
  phases _ hcall := absurd hcall (List.not_mem_nil)
  signals _ hx := absurd hx (List.not_mem_nil)
  said _ hx := absurd hx (List.not_mem_nil)

/-- **One of the commands goes on.**  The others have ended, so that nothing they rely on can be
lost. -/
theorem Sound.moved (hs : s.Sound) {c : Nat} {call : Call} (hcall : s.calls[c]? = some call)
    (hlive : call.phase ≠ .done) {s' : State} {call' : Call}
    (hcalls : s'.calls = s.calls.set c call')
    (hphase : call'.phase.Sound s'.proc s'.pidFile)
    (hnamed : ∀ text, s'.pidFile = some text →
      ∃ pid, text = pidText pid ∧ pid ≤ u32Max ∧ s'.proc pid ≠ some .other)
    (hservices : ∀ pid, s'.proc pid = some .service →
      s'.pidFile = some (pidText pid) ∨ call'.phase.written = some pid)
    (hsignals : ∀ x ∈ s'.signals, x.target ≠ some .other) (hsaid : ∀ x ∈ s'.said, x.Holds) :
    s'.Sound := by
  have hother : ∀ (i : Nat) (x : Call), s'.calls[i]? = some x →
      i = c ∧ x = call' ∨ x.phase = .done := by
    intro i x hx
    rw [hcalls, List.getElem?_set] at hx
    split at hx
    · rename_i hi
      split at hx
      · exact .inl ⟨hi.symm, (Option.some.inj hx).symm⟩
      · cases hx
    · rename_i hi
      by_cases hdone : x.phase = .done
      · exact .inr hdone
      · exact absurd (hs.one i c x call hx hcall hdone hlive).symm hi
  have hmem : call' ∈ s'.calls := by
    rw [hcalls]
    exact List.mem_set (List.getElem?_eq_some_iff.mp hcall).1 call'
  constructor
  · intro i j x y hx hy hxlive hylive
    obtain ⟨hi, -⟩ | hdone := hother i x hx
    · obtain ⟨hj, -⟩ | hdone := hother j y hy
      · exact hi.trans hj.symm
      · exact absurd hdone hylive
    · exact absurd hdone hxlive
  · exact hnamed
  · exact fun pid hpid => (hservices pid hpid).imp id fun h => ⟨call', hmem, h⟩
  · intro x hx
    obtain ⟨i, hi⟩ := List.mem_iff_getElem?.mp hx
    obtain ⟨-, rfl⟩ | hdone := hother i x hi
    · exact hphase
    · rw [hdone]
      trivial
  · exact hsignals
  · exact hsaid

/-- A service is named by the file, or it is the one that the command has launched. -/
theorem Sound.service (hs : s.Sound) {c : Nat} {call : Call} (hcall : s.calls[c]? = some call)
    (hlive : call.phase ≠ .done) {pid : Nat} (h : s.proc pid = some .service) :
    s.pidFile = some (pidText pid) ∨ call.phase.written = some pid := by
  obtain hfile | ⟨call', hmem, hwritten⟩ := hs.services pid h
  · exact .inl hfile
  · obtain ⟨j, hj⟩ := List.mem_iff_getElem?.mp hmem
    have hlive' : call'.phase ≠ .done := by
      intro hdone
      rw [hdone] at hwritten
      cases hwritten
    obtain rfl := hs.one c j call call' hcall hj hlive hlive'
    obtain rfl := Option.some.inj (hcall.symm.trans hj)
    exact .inr hwritten

theorem sound_after (call : Call) (succeeded : Bool) (proc : Nat → Option Process)
    (pidFile : Option Text) : (call.after succeeded).phase.Sound proc pidFile := by
  rw [Call.after]
  split <;> trivial

theorem Sound.said_append (hs : s.Sound) {result : Except Failure Report}
    (hsaid : Said.Holds ⟨result, s.proc⟩) : ∀ x ∈ s.said ++ [⟨result, s.proc⟩], x.Holds := by
  intro x hx
  obtain hx | hx := List.mem_append.mp hx
  · exact hs.said x hx
  · rw [List.mem_singleton.mp hx]
    exact hsaid

/-- A command is about to make a call of the system; it is not the one that has launched a
service. -/
structure At (s : State) (c : Nat) (call : Call) : Prop where
  sound : s.Sound
  present : s.calls[c]? = some call
  live : call.phase ≠ .done
  written : call.phase.written = none

namespace At

variable {c : Nat} {call : Call}

theorem phase (h : s.At c call) : call.phase.Sound s.proc s.pidFile :=
  h.sound.phases call (List.mem_of_getElem? h.present)

theorem service (h : s.At c call) {pid : Nat} (hpid : s.proc pid = some .service) :
    s.pidFile = some (pidText pid) := by
  obtain hfile | hwritten := h.sound.service h.present h.live hpid
  · exact hfile
  · rw [h.written] at hwritten
    cases hwritten

/-- When the process that the file names is no service, none is. -/
theorem noService (h : s.At c call) {pid : Nat} (hfile : s.pidFile = some (pidText pid))
    (hpid : s.proc pid ≠ some .service) : NoService s.proc := by
  intro other hother
  obtain rfl := pidText_injective (Option.some.inj (hfile.symm.trans (h.service hother)))
  exact hpid hother

theorem noService_of_none (h : s.At c call) (hfile : s.pidFile = none) : NoService s.proc := by
  intro other hother
  have := h.service hother
  rw [hfile] at this
  cases this

/-- What runs under the number that the file names is the service. -/
theorem isService (h : s.At c call) {pid : Nat} (hfile : s.pidFile = some (pidText pid))
    (hpid : s.proc pid ≠ none) : s.proc pid = some .service := by
  obtain ⟨pid', htext, -, hother⟩ := h.sound.named _ hfile
  obtain rfl := pidText_injective htext
  match hproc : s.proc pid with
  | none => exact absurd hproc hpid
  | some .service => rfl
  | some .other => exact absurd hproc hother

theorem isService_of_running (h : s.At c call) {pid : Nat} {reaches : Bool}
    (hfile : s.pidFile = some (pidText pid)) (hrunning : s.isProcessRunning reaches pid = true) :
    s.proc pid = some .service := by
  obtain ⟨hsome, -⟩ := Bool.and_eq_true_iff.mp hrunning
  exact h.isService hfile (Option.isSome_iff_ne_none.mp hsome)

theorem noService_of_notRunning (h : s.At c call) {pid : Nat} {reaches : Bool}
    (hfile : s.pidFile = some (pidText pid))
    (hreaches : s.proc pid = some .service → reaches = true)
    (hrunning : ¬ s.isProcessRunning reaches pid = true) : NoService s.proc := by
  refine h.noService hfile fun hservice => hrunning ?_
  rw [isProcessRunning, hservice, hreaches hservice]
  rfl

theorem goOn (h : s.At c call) {phase : Phase} (hphase : phase.Sound s.proc s.pidFile) :
    (s.goOn c call phase).Sound :=
  h.sound.moved h.present h.live rfl hphase h.sound.named (fun _ hpid => .inl (h.service hpid))
    h.sound.signals h.sound.said

theorem finish (h : s.At c call) {result : Except Failure Report}
    (hsaid : Said.Holds ⟨result, s.proc⟩) : (s.finish c call result).Sound :=
  h.sound.moved h.present h.live rfl (sound_after call _ _ _) h.sound.named
    (fun _ hpid => .inl (h.service hpid)) h.sound.signals (h.sound.said_append hsaid)

/-- A signal goes to the service, or to nothing when the service has ended. -/
theorem send (h : s.At c call) {pid : Nat} (hfile : s.pidFile = some (pidText pid))
    (signal : Signal) : (s.send signal pid).At c call where
  sound := { h.sound with
    signals := by
      intro x hx
      obtain hx | hx := List.mem_append.mp hx
      · exact h.sound.signals x hx
      · rw [List.mem_singleton.mp hx]
        obtain ⟨pid', htext, -, hother⟩ := h.sound.named _ hfile
        obtain rfl := pidText_injective htext
        exact hother }
  present := h.present
  live := h.live
  written := h.written

end At

/-! ## One step -/

/-- There is no file, or it says a number, and that number is read. -/
theorem Sound.readPid_cases (hs : s.Sound) (readable : Bool) :
    s.pidFile = none ∧ readPid readable s.pidFile = .ok none ∨
      ∃ pid, s.pidFile = some (pidText pid) ∧ (readPid readable s.pidFile = .ok (some pid) ∨
        readPid readable s.pidFile = .error .readPidFile) := by
  match hfile : s.pidFile with
  | none => exact .inl ⟨rfl, rfl⟩
  | some text =>
      obtain ⟨pid, rfl, hpid, -⟩ := hs.named text hfile
      refine .inr ⟨pid, rfl, ?_⟩
      cases readable with
      | true => exact .inl (readPid_pidText hpid)
      | false => exact .inr rfl

/-- The launched process runs under its number. -/
theorem At.launched {c : Nat} {call : Call} (h : s.At c call) {child : Nat}
    (hfile : s.pidFile = none) (hfree : Free s.proc child) :
    ({ s with proc := Function.update s.proc child (some .service) }.goOn c call
      (.writePid child)).Sound := by
  refine h.sound.moved h.present h.live rfl ⟨hfile, hfree.2.2, ?_⟩ ?_ ?_ h.sound.signals
    h.sound.said
  · show Function.update s.proc child (some .service) child ≠ some .other
    rw [Function.update_self]
    simp
  · intro text htext
    cases hfile.symm.trans htext
  · intro pid hpid
    change Function.update s.proc child (some .service) pid = some .service at hpid
    by_cases heq : pid = child
    · exact .inr (by rw [heq]; rfl)
    · rw [Function.update_of_ne heq] at hpid
      exact absurd hpid (h.noService_of_none hfile pid)

/-- The launched process is recorded in the pid file. -/
theorem Sound.recorded (hs : s.Sound) {c : Nat} {call : Call} {pid : Nat}
    (hcall : s.calls[c]? = some call) (hcurrent : call.phase = .writePid pid) :
    ({ s with pidFile := some (pidText pid) }.finish c call (.ok (.started pid))).Sound := by
  have hlive : call.phase ≠ .done := by simp [hcurrent]
  have hphase := hs.phases call (List.mem_of_getElem? hcall)
  rw [hcurrent] at hphase
  obtain ⟨hfile, hpid, hproc⟩ := hphase
  have hservice : ∀ other, s.proc other = some .service → other = pid := by
    intro other hother
    obtain hnamed | hwritten := hs.service hcall hlive hother
    · cases hfile.symm.trans hnamed
    · rw [hcurrent] at hwritten
      exact (Option.some.inj hwritten).symm
  refine hs.moved hcall hlive rfl (sound_after call _ _ _) ?_ ?_ hs.signals
    (hs.said_append hservice)
  · intro text htext
    exact ⟨pid, (Option.some.inj htext).symm, hpid, hproc⟩
  · intro other hother
    exact .inl (by rw [hservice other hother]; rfl)

/-- Without a service the pid file may go. -/
theorem At.unlinked {c : Nat} {call : Call} (h : s.At c call) (hnone : NoService s.proc) :
    ({ s with pidFile := none }.goOn c call .spawn).Sound :=
  h.sound.moved h.present h.live rfl rfl (fun _ htext => by cases htext)
    (fun pid hpid => absurd hpid (hnone pid)) h.sound.signals h.sound.said

theorem At.discarded {c : Nat} {call : Call} (h : s.At c call) (hnone : NoService s.proc)
    (removed : Bool) (how : Gone) :
    ({ s with pidFile := if removed then none else s.pidFile }.finish c call
      (.ok (.gone how))).Sound := by
  refine h.sound.moved h.present h.live rfl (sound_after call _ _ _) ?_
    (fun pid hpid => absurd hpid (hnone pid)) h.sound.signals (h.sound.said_append hnone)
  intro text htext
  change (if removed then none else s.pidFile) = some text at htext
  split at htext
  · cases htext
  · exact h.sound.named text htext

/-- **A call of the system by a command keeps the invariant.** -/
theorem Sound.proceed (hs : s.Sound) {c : Nat} {call : Call} {a : Answers}
    {s' : State} (hcall : s.calls[c]? = some call) (ha : call.phase.Answered s.proc a)
    (h : s.proceed c call a = some s') : s'.Sound := by
  have hphase := hs.phases call (List.mem_of_getElem? hcall)
  -- the phases before the launch and after the pid file: the command has launched nothing
  have hat : ∀ {phase : Phase}, call.phase = phase → phase ≠ .done → phase.written = none →
      s.At c call := fun heq hlive hwritten => ⟨hs, hcall, heq ▸ hlive, heq ▸ hwritten⟩
  unfold State.proceed at h
  match hcurrent : call.phase with
  | .readPid =>
      have hat := hat hcurrent (by simp) rfl
      rw [hcurrent] at h
      dsimp only at h
      obtain ⟨hnone, hread⟩ | ⟨pid, hfile, hread | hread⟩ := hs.readPid_cases a.ok
      · rw [hread] at h
        dsimp only at h
        split at h
        · obtain rfl := Option.some.inj h
          exact hat.goOn hnone
        · obtain rfl := Option.some.inj h
          exact hat.finish (hat.noService_of_none hnone)
        · obtain rfl := Option.some.inj h
          exact hat.finish (hat.noService_of_none hnone)
      · rw [hread] at h
        obtain rfl := Option.some.inj h
        exact hat.goOn hfile
      · rw [hread] at h
        obtain rfl := Option.some.inj h
        exact hat.finish trivial
  | .check pid =>
      have hat := hat hcurrent (by simp) rfl
      rw [hcurrent] at h hphase ha
      dsimp only at h
      split at h
      · rename_i hrunning
        have hservice := hat.isService_of_running hphase hrunning
        split at h
        · obtain rfl := Option.some.inj h
          exact hat.finish hservice
        · obtain rfl := Option.some.inj h
          exact hat.goOn hphase
        · obtain rfl := Option.some.inj h
          exact hat.finish hservice
      · rename_i hrunning
        have hnone := hat.noService_of_notRunning hphase ha hrunning
        split at h
        · obtain rfl := Option.some.inj h
          exact hat.goOn hnone
        · obtain rfl := Option.some.inj h
          exact hat.goOn hnone
        · obtain rfl := Option.some.inj h
          exact hat.finish hnone
  | .removeStale =>
      have hat := hat hcurrent (by simp) rfl
      rw [hcurrent] at h hphase
      dsimp only at h
      split at h
      · obtain rfl := Option.some.inj h
        exact hat.unlinked hphase
      · obtain rfl := Option.some.inj h
        exact hat.finish trivial
  | .spawn =>
      have hat := hat hcurrent (by simp) rfl
      rw [hcurrent] at h hphase
      dsimp only at h
      split at h
      · split at h
        · rename_i hfree
          obtain rfl := Option.some.inj h
          exact hat.launched hphase hfree
        · cases h
      · obtain rfl := Option.some.inj h
        exact hat.finish trivial
  | .writePid pid =>
      rw [hcurrent] at h ha
      dsimp only at h
      rw [if_pos (show a.ok = true from ha)] at h
      obtain rfl := Option.some.inj h
      exact hs.recorded hcall hcurrent
  | .terminate pid =>
      have hat := hat hcurrent (by simp) rfl
      rw [hcurrent] at h hphase
      dsimp only at h
      split at h
      · obtain rfl := Option.some.inj h
        exact (hat.send hphase .term).goOn hphase
      · obtain rfl := Option.some.inj h
        exact hat.finish trivial
  | .waitForExit pid polls forced =>
      have hat := hat hcurrent (by simp) rfl
      rw [hcurrent] at h hphase ha
      dsimp only at h
      split at h
      · rename_i hrunning
        split at h
        · obtain rfl := Option.some.inj h
          exact hat.goOn hphase
        · split at h
          · obtain rfl := Option.some.inj h
            exact hat.finish fun hnone => hnone pid (hat.isService_of_running hphase hrunning)
          · obtain rfl := Option.some.inj h
            exact hat.goOn hphase
      · rename_i hrunning
        obtain rfl := Option.some.inj h
        exact hat.goOn (hat.noService_of_notRunning hphase ha hrunning)
  | .forceKill pid =>
      have hat := hat hcurrent (by simp) rfl
      rw [hcurrent] at h hphase
      dsimp only at h
      split at h
      · obtain rfl := Option.some.inj h
        exact (hat.send hphase .kill).goOn hphase
      · obtain rfl := Option.some.inj h
        exact hat.finish trivial
  | .discard how =>
      have hat := hat hcurrent (by simp) rfl
      rw [hcurrent] at h hphase
      obtain rfl := Option.some.inj h
      exact hat.discarded hphase a.ok how
  | .done =>
      rw [hcurrent] at h
      cases h

/-- Processes end; and other processes appear, under numbers that nobody is going to use. -/
theorem Sound.processes (hs : s.Sound) {proc : Nat → Option Process}
    (hservice : ∀ pid, proc pid = some .service → s.proc pid = some .service)
    (hother : ∀ pid, proc pid = some .other → s.proc pid = some .other ∨
      s.pidFile ≠ some (pidText pid) ∧ ∀ call ∈ s.calls, call.phase.written ≠ some pid) :
    { s with proc }.Sound where
  one := hs.one
  named text htext := by
    obtain ⟨pid, rfl, hpid, hproc⟩ := hs.named text htext
    refine ⟨pid, rfl, hpid, fun h => ?_⟩
    obtain hold | ⟨hfile, -⟩ := hother pid h
    · exact hproc hold
    · exact hfile htext
  services pid hpid := hs.services pid (hservice pid hpid)
  phases call hcall := by
    have hphase := hs.phases call hcall
    have hnone : NoService s.proc → NoService proc := fun h pid hpid => h pid (hservice pid hpid)
    match hat : call.phase with
    | .check pid | .terminate pid | .waitForExit pid _ _ | .forceKill pid | .readPid | .done
    | .spawn =>
        rw [hat] at hphase
        exact hphase
    | .removeStale | .discard _ =>
        rw [hat] at hphase
        exact hnone hphase
    | .writePid pid =>
        rw [hat] at hphase
        obtain ⟨hfile, hpid, hproc⟩ := hphase
        refine ⟨hfile, hpid, fun h => ?_⟩
        obtain hold | ⟨-, hwritten⟩ := hother pid h
        · exact hproc hold
        · exact hwritten call hcall (by rw [hat]; rfl)
  signals := hs.signals
  said := hs.said

theorem eq_of_update_none {proc : Nat → Option Process} {pid other : Nat} {process : Process}
    (h : Function.update proc pid none other = some process) : proc other = some process := by
  by_cases heq : other = pid
  · rw [heq, Function.update_self] at h
    cases h
  · rwa [Function.update_of_ne heq] at h

/-- A command is given when no other is under way. -/
theorem Sound.invoked (hs : s.Sound) (hdone : ∀ call ∈ s.calls, call.phase = .done)
    (command : ServiceCommand) : { s with calls := s.calls ++ [command.begin] }.Sound := by
  have hlast : ∀ (i : Nat) (call : Call), (s.calls ++ [command.begin])[i]? = some call →
      call.phase ≠ .done → i = s.calls.length := by
    intro i call hcall hlive
    by_cases hi : i < s.calls.length
    · rw [List.getElem?_append_left hi] at hcall
      exact absurd (hdone call (List.mem_of_getElem? hcall)) hlive
    · have hlength := (List.getElem?_eq_some_iff.mp hcall).1
      rw [List.length_append, List.length_singleton] at hlength
      omega
  refine { hs with one := ?_, services := ?_, phases := ?_ }
  · intro i j call call' hcall hcall' hlive hlive'
    rw [hlast i call hcall hlive, hlast j call' hcall' hlive']
  · intro pid hpid
    exact (hs.services pid hpid).imp id fun ⟨call, hcall, hwritten⟩ =>
      ⟨call, List.mem_append_left _ hcall, hwritten⟩
  · intro call hcall
    obtain hcall | hcall := List.mem_append.mp hcall
    · exact hs.phases call hcall
    · rw [List.mem_singleton.mp hcall]
      cases command <;> trivial

/-- **Every step that is orderly keeps the invariant.** -/
theorem Sound.step {s' : State} {a : Action} (hs : s.Sound) (ha : s.Orderly a)
    (h : s.step a = some s') : s'.Sound := by
  match a with
  | .invoke command =>
      obtain rfl := Option.some.inj h
      exact hs.invoked ha command
  | .proceed c answers =>
      obtain ⟨call, hcall, hproceed⟩ := Option.bind_eq_some_iff.mp h
      exact hs.proceed hcall (ha call hcall) hproceed
  | .interrupt c =>
      obtain ⟨call, hcall, hstop⟩ := Option.bind_eq_some_iff.mp h
      split at hstop
      · cases hstop
      · rename_i hlive
        obtain rfl := Option.some.inj hstop
        exact At.goOn ⟨hs, hcall, hlive, ha call hcall⟩ trivial
  | .exits pid =>
      obtain rfl := Option.some.inj h
      refine hs.processes (fun other hother => ?_) fun other hother => .inl ?_
      · exact eq_of_update_none hother
      · exact eq_of_update_none hother
  | .appears pid =>
      obtain ⟨hfile, hwritten⟩ := ha
      rw [State.step] at h
      split at h
      · rename_i hfree
        obtain rfl := Option.some.inj h
        refine hs.processes (fun other hother => ?_) fun other hother => ?_
        · by_cases heq : other = pid
          · rw [heq, Function.update_self] at hother
            cases hother
          · rwa [Function.update_of_ne heq] at hother
        · by_cases heq : other = pid
          · obtain rfl := heq
            refine .inr ⟨fun hnamed => hfile ?_, hwritten⟩
            rw [hnamed, readPid_pidText hfree.2.2]
          · rw [Function.update_of_ne heq] at hother
            exact .inl hother
      · cases h

/-! ## Whole runs -/

/-- What the commands are for: there is one service at most; when nothing is under way the pid file
says which; no signal has gone to another process; and what was printed was true. -/
structure Serves (s : State) : Prop where
  single : ∀ pid other, s.proc pid = some .service → s.proc other = some .service → pid = other
  named : (∀ call ∈ s.calls, call.phase = .done) → ∀ pid, s.proc pid = some .service →
    readPid true s.pidFile = .ok (some pid)
  signals : ∀ x ∈ s.signals, x.target ≠ some .other
  said : ∀ x ∈ s.said, x.Holds

theorem written_eq_some {phase : Phase} {pid : Nat} :
    phase.written = some pid ↔ phase = .writePid pid := by
  cases phase <;> simp [Phase.written]

theorem Sound.pidFile_of_written (hs : s.Sound) {call : Call} (hcall : call ∈ s.calls)
    {pid : Nat} (hwritten : call.phase.written = some pid) : s.pidFile = none := by
  have hphase := hs.phases call hcall
  rw [written_eq_some.mp hwritten] at hphase
  exact hphase.1

theorem Sound.single (hs : s.Sound) {pid other : Nat} (hpid : s.proc pid = some .service)
    (hother : s.proc other = some .service) : pid = other := by
  obtain hfile | ⟨call, hcall, hwritten⟩ := hs.services pid hpid
  · obtain hfile' | ⟨call', hcall', hwritten'⟩ := hs.services other hother
    · exact pidText_injective (Option.some.inj (hfile.symm.trans hfile'))
    · cases (hs.pidFile_of_written hcall' hwritten').symm.trans hfile
  · obtain hfile' | ⟨call', hcall', hwritten'⟩ := hs.services other hother
    · cases (hs.pidFile_of_written hcall hwritten).symm.trans hfile'
    · obtain ⟨i, hi⟩ := List.mem_iff_getElem?.mp hcall
      obtain ⟨j, hj⟩ := List.mem_iff_getElem?.mp hcall'
      rw [written_eq_some] at hwritten hwritten'
      obtain rfl := hs.one i j call call' hi hj (by simp [hwritten]) (by simp [hwritten'])
      obtain rfl := Option.some.inj (hi.symm.trans hj)
      exact (Phase.writePid.inj (hwritten.symm.trans hwritten'))

theorem Sound.serves (hs : s.Sound) : s.Serves where
  single _ _ hpid hother := hs.single hpid hother
  named hdone pid hpid := by
    obtain hfile | ⟨call, hcall, hwritten⟩ := hs.services pid hpid
    · obtain ⟨pid', htext, hlt, -⟩ := hs.named _ hfile
      obtain rfl := pidText_injective htext
      rw [hfile, readPid_pidText hlt]
    · rw [hdone call hcall] at hwritten
      cases hwritten
  signals := hs.signals
  said := hs.said

/-! ### Every command ends -/

/-- How many calls of the system a function makes at most before it returns. -/
def phaseRank (routine : Routine) : Phase → Nat
  | .readPid =>
      match routine with
      | .startService => 5
      | .stopService => 77
      | .showStatus => 2
  | .check _ =>
      match routine with
      | .startService => 4
      | .stopService => 76
      | .showStatus => 1
  | .removeStale => 3
  | .spawn => 2
  | .writePid _ => 1
  | .terminate _ => 75
  | .waitForExit _ polls forced => if forced then polls + 2 else polls + 24
  | .forceKill _ => 23
  | .discard _ => 1
  | .done => 0

def startRank (starts : Bool) : Nat := if starts then 5 else 0

/-- The same for a command, with the part of a restart that is still to come. -/
def rank (call : Call) : Nat := phaseRank call.routine call.phase + startRank call.starts

theorem rank_after_lt {call : Call} (hpos : 0 < phaseRank call.routine call.phase)
    (succeeded : Bool) : rank (call.after succeeded) < rank call := by
  rw [Call.after]
  split
  · rename_i h
    have hstarts : startRank call.starts = 5 := by rw [(Bool.and_eq_true_iff.mp h).2]; rfl
    have hbegin : rank ⟨.startService, false, .readPid⟩ = 5 := rfl
    rw [hbegin, rank, hstarts]
    omega
  · show 0 + startRank call.starts < rank call
    rw [rank]
    omega

theorem phaseRank_pos (routine : Routine) {phase : Phase} (h : phase ≠ .done) :
    0 < phaseRank routine phase := by
  cases phase with
  | readPid | check => cases routine <;> simp [phaseRank]
  | waitForExit pid polls forced => cases forced <;> simp [phaseRank]
  | done => exact absurd rfl h
  | _ => simp [phaseRank]

theorem phaseRank_check_lt (routine : Routine) (pid : Nat) :
    phaseRank routine (.check pid) < phaseRank routine .readPid := by
  cases routine <;> simp [phaseRank]

theorem phaseRank_discard_lt (routine : Routine) (pid polls : Nat) (forced : Bool) (how : Gone) :
    phaseRank routine (.discard how) < phaseRank routine (.waitForExit pid polls forced) := by
  cases forced <;> simp [phaseRank]

theorem phaseRank_waitForExit_lt (routine : Routine) (pid polls : Nat) (forced : Bool) :
    phaseRank routine (.waitForExit pid polls forced) <
      phaseRank routine (.waitForExit pid (polls + 1) forced) := by
  cases forced <;> simp [phaseRank]

/-- **A call of the system brings the command nearer to its end.** -/
theorem proceed_rank {s s' : State} {c : Nat} {call : Call} {a : Answers}
    (h : s.proceed c call a = some s') :
    ∃ call', s'.calls = s.calls.set c call' ∧ rank call' < rank call := by
  have hgoOn : ∀ (s₀ : State) (phase : Phase), s₀.calls = s.calls →
      phaseRank call.routine phase < phaseRank call.routine call.phase →
      ∃ call', (s₀.goOn c call phase).calls = s.calls.set c call' ∧ rank call' < rank call := by
    intro s₀ phase hcalls hlt
    refine ⟨{ call with phase }, by rw [← hcalls]; rfl, ?_⟩
    exact Nat.add_lt_add_right hlt _
  have hfinish : ∀ (s₀ : State) (result : Except Failure Report), s₀.calls = s.calls →
      call.phase ≠ .done →
      ∃ call', (s₀.finish c call result).calls = s.calls.set c call' ∧ rank call' < rank call :=
    fun s₀ result hcalls hlive =>
      ⟨call.after result.toBool, by rw [← hcalls]; rfl, rank_after_lt (phaseRank_pos _ hlive) _⟩
  obtain ⟨function, starts, phase⟩ := call
  unfold State.proceed at h
  cases phase with
  | readPid =>
      dsimp only at h
      split at h
      · obtain rfl := Option.some.inj h
        exact hfinish _ _ rfl (by simp)
      · cases function with
        | startService =>
            obtain rfl := Option.some.inj h
            exact hgoOn _ _ rfl (show 2 < 5 by decide)
        | stopService | showStatus =>
            obtain rfl := Option.some.inj h
            exact hfinish _ _ rfl (by simp)
      · obtain rfl := Option.some.inj h
        exact hgoOn _ _ rfl (phaseRank_check_lt _ _)
  | check pid =>
      dsimp only at h
      split at h
      · cases function with
        | stopService =>
            obtain rfl := Option.some.inj h
            exact hgoOn _ _ rfl (show 75 < 76 by decide)
        | startService | showStatus =>
            obtain rfl := Option.some.inj h
            exact hfinish _ _ rfl (by simp)
      · cases function with
        | startService =>
            obtain rfl := Option.some.inj h
            exact hgoOn _ _ rfl (show 3 < 4 by decide)
        | stopService =>
            obtain rfl := Option.some.inj h
            exact hgoOn _ _ rfl (show 1 < 76 by decide)
        | showStatus =>
            obtain rfl := Option.some.inj h
            exact hfinish _ _ rfl (by simp)
  | waitForExit pid polls forced =>
      dsimp only at h
      split at h
      · cases polls with
        | succ polls =>
            obtain rfl := Option.some.inj h
            exact hgoOn _ _ rfl (phaseRank_waitForExit_lt _ _ _ _)
        | zero =>
            cases forced with
            | true =>
                obtain rfl := Option.some.inj h
                exact hfinish _ _ rfl (by simp)
            | false =>
                obtain rfl := Option.some.inj h
                exact hgoOn _ _ rfl (show 23 < 0 + 24 by decide)
      · obtain rfl := Option.some.inj h
        exact hgoOn _ _ rfl (phaseRank_discard_lt _ _ _ _ _)
  | spawn =>
      dsimp only at h
      split at h
      · split at h
        · obtain rfl := Option.some.inj h
          exact hgoOn { s with proc := _ } _ rfl (show 1 < 2 by decide)
        · cases h
      · obtain rfl := Option.some.inj h
        exact hfinish _ _ rfl (by simp)
  | removeStale =>
      dsimp only at h
      split at h
      · obtain rfl := Option.some.inj h
        exact hgoOn { s with pidFile := none } _ rfl (show 2 < 3 by decide)
      · obtain rfl := Option.some.inj h
        exact hfinish _ _ rfl (by simp)
  | writePid pid =>
      dsimp only at h
      split at h
      · obtain rfl := Option.some.inj h
        exact hfinish { s with pidFile := _ } _ rfl (by simp)
      · obtain rfl := Option.some.inj h
        exact hfinish { s with pidFile := _ } _ rfl (by simp)
  | terminate pid =>
      dsimp only at h
      split at h
      · obtain rfl := Option.some.inj h
        exact hgoOn (s.send .term pid) _ rfl (show 50 + 24 < 75 by decide)
      · obtain rfl := Option.some.inj h
        exact hfinish _ _ rfl (by simp)
  | forceKill pid =>
      dsimp only at h
      split at h
      · obtain rfl := Option.some.inj h
        exact hgoOn (s.send .kill pid) _ rfl (show 20 + 2 < 23 by decide)
      · obtain rfl := Option.some.inj h
        exact hfinish _ _ rfl (by simp)
  | discard how =>
      obtain rfl := Option.some.inj h
      exact hfinish { s with pidFile := _ } _ rfl (by simp)
  | done => cases h

end Preservation

theorem rank_begin_le (command : ServiceCommand) : rank command.begin ≤ 82 := by
  cases command <;> decide

/-- What the command with an index has left to do, given or not. -/
def remaining (s : State) (c : Nat) : Nat := ((s.calls[c]?).map rank).getD 82

def IsProceed (c : Nat) : Action → Bool
  | .proceed c' _ => c' == c
  | .invoke _ | .interrupt _ | .exits _ | .appears _ => false

/-- How many calls of the system a command has made. -/
def callsMade (c : Nat) (tr : List (Action × State)) : Nat :=
  tr.countP fun x => IsProceed c x.1

theorem remaining_set {s s' : State} {c : Nat} {call call' : Call}
    (hcall : s.calls[c]? = some call) (hcalls : s'.calls = s.calls.set c call') (i : Nat) :
    s'.remaining i = if i = c then rank call' else s.remaining i := by
  have hlength : c < s.calls.length := (List.getElem?_eq_some_iff.mp hcall).1
  rw [remaining, hcalls, List.getElem?_set]
  split_ifs with h h' h'
  · rfl
  · exact absurd h.symm h'
  · exact absurd h'.symm h
  · rfl

theorem remaining_of_present {s : State} {c : Nat} {call : Call}
    (hcall : s.calls[c]? = some call) : s.remaining c = rank call := by
  rw [remaining, hcall]
  rfl

theorem remaining_step {s s' : State} {a : Action} (h : s.step a = some s') (c : Nat) :
    s'.remaining c + (if IsProceed c a then 1 else 0) ≤ s.remaining c := by
  match a with
  | .invoke command =>
      obtain rfl := Option.some.inj h
      show _ + 0 ≤ _
      rw [remaining, remaining]
      obtain hlt | hle := Nat.lt_or_ge c s.calls.length
      · rw [List.getElem?_append_left hlt]
        exact Nat.le_refl _
      · rw [List.getElem?_eq_none hle, List.getElem?_append_right hle]
        cases hi : c - s.calls.length with
        | zero => exact rank_begin_le command
        | succ i => exact Nat.le_refl _
  | .proceed i answers =>
      obtain ⟨call, hcall, hproceed⟩ := Option.bind_eq_some_iff.mp h
      obtain ⟨call', hcalls, hlt⟩ := proceed_rank hproceed
      rw [remaining_set hcall hcalls]
      by_cases heq : c = i
      · obtain rfl := heq
        have hone : IsProceed c (.proceed c answers) = true := beq_self_eq_true c
        rw [if_pos rfl, hone, if_pos rfl, remaining_of_present hcall]
        omega
      · have hzero : IsProceed c (.proceed i answers) = false :=
          beq_eq_false_iff_ne.mpr fun h => heq h.symm
        rw [if_neg heq, hzero]
        exact Nat.le_refl _
  | .interrupt i =>
      obtain ⟨call, hcall, hstop⟩ := Option.bind_eq_some_iff.mp h
      split at hstop
      · cases hstop
      · obtain rfl := Option.some.inj hstop
        show _ + 0 ≤ _
        rw [remaining_set hcall rfl]
        split_ifs with heq
        · rw [heq, remaining_of_present hcall]
          show 0 + startRank call.starts + 0 ≤ rank call
          rw [rank]
          omega
        · exact Nat.le_refl _
  | .exits pid =>
      obtain rfl := Option.some.inj h
      exact Nat.le_refl _
  | .appears pid =>
      rw [State.step] at h
      split at h
      · obtain rfl := Option.some.inj h
        exact Nat.le_refl _
      · cases h

/-- A command cannot make more calls of the system than it had left. -/
theorem callsMade_le {s : State} {tr : List (Action × State)}
    (hrun : Run step s tr) (c : Nat) :
    callsMade c tr + (Run.final s tr).remaining c ≤ s.remaining c := by
  induction hrun with
  | nil s => exact Nat.le_of_eq (Nat.zero_add _)
  | @cons s s' a tr hstep _ ih =>
      have hfirst := remaining_step hstep c
      rw [callsMade, List.countP_cons, Run.final_cons]
      change callsMade c tr + _ + _ ≤ _
      dsimp only
      omega

/-- A call succeeds; a new process gets the number given. -/
def succeeds (child : Nat) : Answers := ⟨true, true, child, none⟩

/-- Before the first start a shell is running. -/
def shellOnly (pid : Nat) : Option Process := if pid = 3 then some .other else none

/-- The service is started and restarted; it ends by itself while the command waits for it, and
another process appears. -/
def restarted : List Action :=
  [.invoke .start, .proceed 0 (succeeds 0), .proceed 0 (succeeds 77), .proceed 0 (succeeds 0),
    .invoke .restart, .proceed 1 (succeeds 0), .proceed 1 (succeeds 0), .proceed 1 (succeeds 0),
    .proceed 1 (succeeds 0), .exits 77, .appears 78, .proceed 1 (succeeds 0),
    .proceed 1 (succeeds 0), .proceed 1 (succeeds 0), .proceed 1 (succeeds 79),
    .proceed 1 (succeeds 0)]

/-- Two commands that start the service at the same time both do. -/
example :
    ((exec step (new shellOnly) [.invoke .start, .invoke .start, .proceed 0 (succeeds 0),
      .proceed 1 (succeeds 0), .proceed 0 (succeeds 77), .proceed 1 (succeeds 78)]).map fun tr =>
        let s := Run.final (new shellOnly) tr
        decide (s.proc 77 = some .service ∧ s.proc 78 = some .service)) = some true := by
  decide +kernel

end State

end Daemon
end SimpleClaw
