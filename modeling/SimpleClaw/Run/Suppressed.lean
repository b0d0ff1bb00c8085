import SimpleClaw.Run.StreamingTurn

/-!
# Suppressed replies

A reply that is the no-reply sentinel is not sent.  But whether it is one is known only when all
of it is there; until then the display has shown its deltas, and the texts of earlier steps, as
any other, and nothing takes the messages back.

* `Turn.HidesSuppressed`: when a suppressed turn has settled, no text of it is visible.
* `Turn.KeepsSilent`: a turn is suppressed only if it has shown nothing, and shows nothing after.
* `hidesSuppressed_of_keepsSilent`: a turn of such steps hides what it suppresses.
* `hidesSuppressed_of_not_streaming`: a turn that does not stream always does.
-/

namespace SimpleClaw
namespace Streaming

open Transition

namespace Turn

/-- No text of the turn is visible in the channel. -/
def Blank (s : Turn) : Prop := ∀ content ∈ s.messages, content = []

/-- **Suppressed replies stay invisible**: when the turn is suppressed and all sends and edits are
over, no text of it is visible. -/
def HidesSuppressed (s : Turn) : Prop :=
  s.stage = .suppressed → s.tasks = [] → s.retries = 0 → s.Blank

/-- Nothing has been shown when the turn is suppressed, and nothing is shown after. -/
def KeepsSilent (s : Turn) : TurnAction → Prop
  | .noReply _ => s.Blank
  | .sendCompleted task result =>
      s.stage = .suppressed → ∀ text, s.tasks[task]? = some (.sendInitial text) →
        text = [] ∨ ∃ error, result = .failed error
  | .editCompleted task error =>
      s.stage = .suppressed → ∀ messageId text, s.tasks[task]? = some (.edit messageId text) →
        text = [] ∨ error.isSome = true
  | _ => True

section Steps

variable {s s' : Turn} {a : TurnAction}

/-- A suppressed turn has shown nothing, also while it settles. -/
def Silent (s : Turn) : Prop := s.stage = .suppressed → s.Blank

theorem blank_append {messages : List Text} (h : ∀ content ∈ messages, content = [])
    (text : Text) :
    (∀ content ∈ messages ++ [text], content = []) ↔ text = [] := by
  constructor
  · intro hall
    exact hall text (by simp)
  · intro htext
    exact Table.forall_mem_append h htext

/-- **A step keeps a turn silent if and only if it shows nothing of a suppressed one.** -/
theorem silent_step_iff (hs : s.Sound) (hP : s.Silent) (h : s.step a = some s') :
    s'.Silent ↔ s.KeepsSilent a := by
  cases step_spec h with
  | newStep => exact iff_of_true hP trivial
  | textDelta => exact iff_of_true (by rintro ⟨⟩) trivial
  | updated => exact iff_of_true (by rintro ⟨⟩) trivial
  | finalized => exact iff_of_true (by rintro ⟨⟩) trivial
  | retry => exact iff_of_true hP trivial
  | @sent task text result retries htask =>
      have hguard : s.KeepsSilent (.sendCompleted task result) ↔
          (s.stage = .suppressed → text = [] ∨ ∃ error, result = .failed error) := by
        constructor
        · intro hkeeps hstage
          exact hkeeps hstage text htask
        · intro hkeeps hstage text' htask'
          rw [htask] at htask'
          cases htask'
          exact hkeeps hstage
      rw [hguard]
      refine forall_congr' fun hstage => ?_
      have hblank := hP hstage
      cases result with
      | withId => simpa [Blank] using blank_append hblank text
      | withoutId => simpa [Blank] using blank_append hblank text
      | failed error => exact iff_of_true hblank (.inr ⟨error, rfl⟩)
  | @edited task messageId text error retries htask =>
      have hguard : s.KeepsSilent (.editCompleted task error) ↔
          (s.stage = .suppressed → text = [] ∨ error.isSome = true) := by
        constructor
        · intro hkeeps hstage
          exact hkeeps hstage messageId text htask
        · intro hkeeps hstage messageId' text' htask'
          rw [htask] at htask'
          cases htask'
          exact hkeeps hstage
      rw [hguard]
      refine forall_congr' fun hstage => ?_
      have hblank := hP hstage
      cases error with
      | some error => exact iff_of_true hblank (.inr rfl)
      | none =>
          have hconsistent := hs.consistent (by rw [show s.stage = _ from hstage]; rfl)
          have hset := hconsistent.set_current (hconsistent.messageId_of_edit htask) text
          have hcommitted : ∀ content ∈ committedMessages s.display s.messages, content = [] := by
            intro content hmem
            refine hblank content ?_
            rw [hconsistent.shown]
            exact List.mem_append_left _ hmem
          rw [Blank, show (s.messages.set messageId text) = _ from hset,
            blank_append hcommitted text]
          simp
  | reply => exact iff_of_true (by rintro ⟨⟩) trivial
  | replyWhole => exact iff_of_true (by rintro ⟨⟩) trivial
  | noReply hstage hreply => exact ⟨fun hsilent => hsilent rfl, fun hblank _ => hblank⟩
  | failed => exact iff_of_true (by rintro ⟨⟩) trivial
  | done => exact iff_of_true (by rintro ⟨⟩) trivial
  | fallback => exact iff_of_true (by rintro ⟨⟩) trivial
  | again => exact iff_of_true (by rintro ⟨⟩) trivial
  | whole => exact iff_of_true (by rintro ⟨⟩) trivial

end Steps

end Turn

/-! ## Whole runs -/

/-- Along a turn nothing of a suppressed reply is shown at any time if and only if every step
keeps it silent. -/
theorem silent_iff_keepsSilent {streaming : Bool} {channelLimit : Option Nat}
    {tr : List (TurnAction × Turn)} (hrun : Run Turn.step (Turn.start streaming channelLimit) tr) :
    (∀ x ∈ tr, x.2.Silent) ↔
      Run.StepsMeet Turn.KeepsSilent (Turn.start streaming channelLimit) tr :=
  Run.forall_iff_stepsMeet (J := Turn.Sound) (fun _ _ _ hs h => hs.step h)
    (fun _ _ _ hs hP h => Turn.silent_step_iff hs hP h) hrun
    (Turn.sound_start streaming channelLimit) (by rintro ⟨⟩)

/-- A turn that does not stream shows nothing before its reply. -/
structure Turn.Unshown (s : Turn) : Prop where
  sound : s.Sound
  streaming : s.streaming = false
  stage : s.stage = .responding ∨ s.stage = .suppressed ∨ s.stage.isOver = true
  messages : s.stage.hasReturned = false → s.messages = []

namespace Turn.Unshown

variable {s s' : Turn} {a : TurnAction}

theorem not_updating (hs : s.Unshown) : s.stage ≠ .updating := by
  rintro hstage
  rcases hs.stage with h | h | h <;> rw [hstage] at h <;> cases h

theorem reply_eq_none (hs : s.Unshown) : s.stage.reply = none := by
  rcases hs.stage with h | h | h
  · rw [h]; rfl
  · rw [h]; rfl
  · cases hstage : s.stage <;> rw [hstage] at h <;> first | rfl | cases h

theorem step (hs : s.Unshown) (h : s.step a = some s') : s'.Unshown := by
  have htasks : ∀ (task : Nat) (action : StreamingDisplayAction),
      s.tasks[task]? ≠ some action := by
    intro task action htask
    rw [(hs.sound.whole hs.streaming).1] at htask
    cases htask
  have hpolling : ∀ content, s.stage ≠ .polling content := by
    intro content hstage
    have hreply := hs.reply_eq_none
    rw [hstage] at hreply
    cases hreply
  have hsound := hs.sound.step h
  cases step_spec h with
  | newStep => exact ⟨hsound, hs.streaming, hs.stage, hs.messages⟩
  | textDelta _ hstreaming => rw [hs.streaming] at hstreaming; cases hstreaming
  | updated hstage => exact absurd hstage hs.not_updating
  | finalized hstage =>
      have hreply := hs.reply_eq_none
      rw [hstage] at hreply
      cases hreply
  | retry => exact ⟨hsound, hs.streaming, hs.stage, hs.messages⟩
  | sent htask => exact absurd htask (htasks _ _)
  | edited htask => exact absurd htask (htasks _ _)
  | reply _ hstreaming => rw [hs.streaming] at hstreaming; cases hstreaming
  | replyWhole hstage =>
      exact ⟨hsound, hs.streaming, .inr (.inr rfl), fun _ => hs.messages (by rw [hstage]; rfl)⟩
  | noReply hstage =>
      exact ⟨hsound, hs.streaming, .inr (.inl rfl), fun _ => hs.messages (by rw [hstage]; rfl)⟩
  | failed hstage => exact absurd hstage (hpolling _)
  | done hstage => exact absurd hstage (hpolling _)
  | fallback hstage => exact absurd hstage (hpolling _)
  | again hstage => exact absurd hstage (hpolling _)
  | whole => exact ⟨hsound, hs.streaming, .inr (.inr rfl), by rintro ⟨⟩⟩

end Turn.Unshown

/-- **A turn that does not stream hides what it suppresses.** -/
theorem hidesSuppressed_of_not_streaming {channelLimit : Option Nat}
    {tr : List (TurnAction × Turn)} (hrun : Run Turn.step (Turn.start false channelLimit) tr) :
    ∀ x ∈ tr, x.2.HidesSuppressed := by
  have hstart : (Turn.start false channelLimit).Unshown :=
    ⟨Turn.sound_start false channelLimit, rfl, .inl rfl, fun _ => rfl⟩
  intro x hx hstage _ _ content hcontent
  have hunshown := Run.invariant (fun _ _ _ hs h => Turn.Unshown.step hs h) hrun hstart x hx
  rw [hunshown.messages (by rw [hstage]; rfl)] at hcontent
  cases hcontent

/-! ## A sentinel in two deltas -/

/-- `KeepsSilent`, computed. -/
def Turn.keepsSilent (s : Turn) : TurnAction → Bool
  | .noReply _ => s.messages.all (· = [])
  | .sendCompleted task result =>
      match s.tasks[task]?, result with
      | _, .failed _ => true
      | some (.sendInitial text), _ => decide (s.stage = .suppressed → text = [])
      | _, _ => true
  | .editCompleted task error =>
      match s.tasks[task]? with
      | some (.edit _ text) => decide (s.stage = .suppressed → text = [] ∨ error.isSome = true)
      | _ => true
  | _ => true

theorem keepsSilent_of_check (s : Turn) (a : TurnAction) (h : s.keepsSilent a = true) :
    s.KeepsSilent a := by
  cases a with
  | noReply reply =>
      intro content hcontent
      exact of_decide_eq_true (List.all_eq_true.mp h content hcontent)
  | sendCompleted task result =>
      intro hstage text htask
      cases result with
      | failed error => exact .inr ⟨error, rfl⟩
      | withId =>
          simp only [Turn.keepsSilent, htask] at h
          exact .inl (of_decide_eq_true h hstage)
      | withoutId =>
          simp only [Turn.keepsSilent, htask] at h
          exact .inl (of_decide_eq_true h hstage)
  | editCompleted task error =>
      intro hstage messageId text htask
      simp only [Turn.keepsSilent, htask] at h
      exact of_decide_eq_true h hstage
  | _ => trivial

/-- The channel is down while the sentinel is streamed. -/
def unsentSentinelTurn : List TurnAction :=
  [.textDelta "NO_", .attempt false, .textDelta "REPLY", .attempt false, .noReply "NO_REPLY",
    .sendCompleted 0 (.failed "discord send failed")]

/-- The first delta of the sentinel is sent before the second one comes. -/
def shownSentinelTurn : List TurnAction :=
  [.textDelta "NO_", .attempt false, .sendCompleted 0 .withId, .retry true, .textDelta "REPLY",
    .attempt true, .noReply "NO_REPLY"]

end Streaming
end SimpleClaw
