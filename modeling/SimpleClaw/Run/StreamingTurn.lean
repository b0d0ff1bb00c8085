import SimpleClaw.Lib.Runs
import SimpleClaw.Run.StreamingDisplay

/-!
# A turn with a streaming display

The turn streams the text of each model step to the display, and ends with a reply, which is
finalized, or without one.  The tasks of the display run beside it.

* `Turn.step`: one step of the turn or of a task, with `Turn.Step`: what it can be.
* `Turn.Sound`: the invariant of all turns, and `Turn.Streams` of those that stream.
-/

namespace SimpleClaw
namespace Streaming

open Transition

/-- Where the turn is.  After a text has been streamed, and before every look of the finalizer,
the next action of the display is looked for. -/
inductive Stage where
  | responding
  | updating
  | finalizing (content : Text)
  | polling (content : Text)
  | sendingWhole (content : Text)
  | returned (content : Text) (result : Except FrameworkError Unit)
  | suppressed
  deriving DecidableEq

/-- The finalizer has returned. -/
def Stage.hasReturned : Stage → Bool
  | .returned _ _ => true
  | .responding | .updating | .finalizing _ | .polling _ | .sendingWhole _ | .suppressed => false

/-- The finalizer leaves the display alone: it has returned, or it sends the text whole. -/
def Stage.isOver : Stage → Bool
  | .sendingWhole _ | .returned _ _ => true
  | .responding | .updating | .finalizing _ | .polling _ | .suppressed => false

/-- The reply the finalizer is at. -/
def Stage.reply : Stage → Option Text
  | .finalizing content | .polling content => some content
  | .responding | .updating | .sendingWhole _ | .returned _ _ | .suppressed => none

/-- A turn: the text of the current model step, the display, the tasks in flight, the tasks that
are over but have still to look for the next action, and the contents of the messages sent. -/
structure Turn where
  streaming : Bool
  outputText : Text
  display : StreamingDisplay
  tasks : List StreamingDisplayAction
  retries : Nat
  messages : List Text
  stage : Stage
  deriving DecidableEq

inductive TurnAction where
  | newStep
  | textDelta (delta : Text)
  | attempt (recentlyEdited : Bool)
  | retry (recentlyEdited : Bool)
  | sendCompleted (task : Nat) (result : SendResult)
  | editCompleted (task : Nat) (error : Option Text)
  | reply (content : Text)
  | noReply (reply : Text)
  | poll
  | wholeSent (result : Except FrameworkError Unit)
  deriving DecidableEq

def noReplySentinel : Text := "NO_REPLY"

def isNoReply (reply : Text) : Bool := reply.trim == noReplySentinel

namespace Turn

/-- A turn begins: it streams in the streaming mode, to a channel that can edit messages. -/
def start (streaming : Bool) (channelLimit : Option Nat) : Turn where
  streaming := streaming
  outputText := []
  display := .new channelLimit
  tasks := []
  retries := 0
  messages := []
  stage := .responding

/-- The next action is looked for, and its task spawned. -/
def spawnNext (s : Turn) (recentlyEdited : Bool) : Turn :=
  match nextStreamingDisplayAction recentlyEdited s.display with
  | (none, display) => { s with display }
  | (some action, display) => { s with display, tasks := s.tasks ++ [action] }

/-- One step of the turn or of one of its tasks. -/
def step (s : Turn) : TurnAction → Option Turn
  | .newStep => if s.stage = .responding then some { s with outputText := [] } else none
  | .textDelta delta =>
      if s.stage = .responding ∧ s.streaming then
        let outputText := s.outputText ++ delta
        some { s with
          outputText
          display := { s.display with latestContent := outputText }
          stage := .updating }
      else none
  | .attempt recentlyEdited =>
      match s.stage with
      | .updating => some { s.spawnNext recentlyEdited with stage := .responding }
      | .finalizing content =>
          some { s.spawnNext recentlyEdited with stage := .polling content }
      | _ => none
  | .retry recentlyEdited =>
      match s.retries with
      | 0 => none
      | retries + 1 => some { s.spawnNext recentlyEdited with retries }
  | .sendCompleted task result =>
      match s.tasks[task]? with
      | some (.sendInitial content) =>
          let (display, shouldRetry) := s.display.sendCompleted content s.messages.length result
          some { s with
            display
            tasks := s.tasks.eraseIdx task
            retries := s.retries + shouldRetry.toNat
            messages :=
              match result with
              | .withId | .withoutId => s.messages ++ [content]
              | .failed _ => s.messages }
      | _ => none
  | .editCompleted task error =>
      match s.tasks[task]? with
      | some (.edit messageId content) =>
          let (display, shouldRetry) := s.display.editCompleted content error
          some { s with
            display
            tasks := s.tasks.eraseIdx task
            retries := s.retries + shouldRetry.toNat
            messages :=
              match error with
              | none => s.messages.set messageId content
              | some _ => s.messages }
      | _ => none
  | .reply content =>
      if s.stage = .responding then
        if s.streaming then
          some { s with
            display := { s.display with latestContent := content, finalized := true }
            stage := .finalizing content }
        else some { s with stage := .sendingWhole content }
      else none
  | .noReply reply =>
      if s.stage = .responding ∧ isNoReply reply then some { s with stage := .suppressed }
      else none
  | .poll =>
      match s.stage with
      | .polling content =>
          match finalizePoll s.display content with
          | .fail error => some { s with stage := .returned content (.error error) }
          | .done => some { s with stage := .returned content (.ok ()) }
          | .fallback => some { s with stage := .sendingWhole content }
          | .again => some { s with stage := .finalizing content }
      | _ => none
  | .wholeSent result =>
      match s.stage with
      | .sendingWhole content =>
          some { s with
            stage := .returned content result
            messages :=
              match result with
              | .ok _ => s.messages ++ [content]
              | .error _ => s.messages }
      | _ => none

/-! ## What a step can be -/

/-- The steps as a relation, one constructor for each. -/
inductive Step (s : Turn) : TurnAction → Turn → Prop where
  | newStep (hstage : s.stage = .responding) : Step s .newStep { s with outputText := [] }
  | textDelta {delta} (hstage : s.stage = .responding) (hstreaming : s.streaming = true) :
      Step s (.textDelta delta)
        { s with
          outputText := s.outputText ++ delta
          display := { s.display with latestContent := s.outputText ++ delta }
          stage := .updating }
  | updated {recentlyEdited action display} (hstage : s.stage = .updating)
      (hnext : nextStreamingDisplayAction recentlyEdited s.display = (action, display)) :
      Step s (.attempt recentlyEdited)
        { s with display, tasks := s.tasks ++ action.toList, stage := .responding }
  | finalized {recentlyEdited action display content} (hstage : s.stage = .finalizing content)
      (hnext : nextStreamingDisplayAction recentlyEdited s.display = (action, display)) :
      Step s (.attempt recentlyEdited)
        { s with display, tasks := s.tasks ++ action.toList, stage := .polling content }
  | retry {recentlyEdited action display retries} (hretries : s.retries = retries + 1)
      (hnext : nextStreamingDisplayAction recentlyEdited s.display = (action, display)) :
      Step s (.retry recentlyEdited)
        { s with display, tasks := s.tasks ++ action.toList, retries }
  | sent {task content result retries} (htask : s.tasks[task]? = some (.sendInitial content)) :
      Step s (.sendCompleted task result)
        { s with
          display := (s.display.sendCompleted content s.messages.length result).1
          tasks := s.tasks.eraseIdx task
          retries
          messages :=
            match result with
            | .withId | .withoutId => s.messages ++ [content]
            | .failed _ => s.messages }
  | edited {task messageId content error retries}
      (htask : s.tasks[task]? = some (.edit messageId content)) :
      Step s (.editCompleted task error)
        { s with
          display := (s.display.editCompleted content error).1
          tasks := s.tasks.eraseIdx task
          retries
          messages :=
            match error with
            | none => s.messages.set messageId content
            | some _ => s.messages }
  | reply {content} (hstage : s.stage = .responding) (hstreaming : s.streaming = true) :
      Step s (.reply content)
        { s with
          display := { s.display with latestContent := content, finalized := true }
          stage := .finalizing content }
  | replyWhole {content} (hstage : s.stage = .responding) (hstreaming : s.streaming = false) :
      Step s (.reply content) { s with stage := .sendingWhole content }
  | noReply {reply} (hstage : s.stage = .responding) (hreply : isNoReply reply = true) :
      Step s (.noReply reply) { s with stage := .suppressed }
  | failed {content error} (hstage : s.stage = .polling content)
      (hpoll : finalizePoll s.display content = .fail error) :
      Step s .poll { s with stage := .returned content (.error error) }
  | done {content} (hstage : s.stage = .polling content)
      (hpoll : finalizePoll s.display content = .done) :
      Step s .poll { s with stage := .returned content (.ok ()) }
  | fallback {content} (hstage : s.stage = .polling content)
      (hpoll : finalizePoll s.display content = .fallback) :
      Step s .poll { s with stage := .sendingWhole content }
  | again {content} (hstage : s.stage = .polling content)
      (hpoll : finalizePoll s.display content = .again) :
      Step s .poll { s with stage := .finalizing content }
  | whole {content result} (hstage : s.stage = .sendingWhole content) :
      Step s (.wholeSent result)
        { s with
          stage := .returned content result
          messages :=
            match result with
            | .ok _ => s.messages ++ [content]
            | .error _ => s.messages }

theorem spawnNext_eq (s : Turn) (recentlyEdited : Bool) :
    ∃ action display, nextStreamingDisplayAction recentlyEdited s.display = (action, display) ∧
      s.spawnNext recentlyEdited =
        { s with display, tasks := s.tasks ++ action.toList } := by
  unfold spawnNext
  cases hnext : nextStreamingDisplayAction recentlyEdited s.display with
  | mk action display =>
      refine ⟨action, display, rfl, ?_⟩
      cases action <;> simp

/-- **Every computed step is one of the listed ones.** -/
theorem step_spec {s s' : Turn} {a : TurnAction} (h : s.step a = some s') : Step s a s' := by
  cases a with
  | newStep =>
      simp only [step] at h
      split at h
      · cases h
        exact .newStep ‹_›
      · cases h
  | textDelta delta =>
      simp only [step] at h
      split at h
      · rename_i hboth
        cases h
        exact .textDelta hboth.1 hboth.2
      · cases h
  | attempt recentlyEdited =>
      obtain ⟨action, display, hnext, hspawn⟩ := spawnNext_eq s recentlyEdited
      simp only [step, hspawn] at h
      split at h
      · cases h
        exact .updated ‹_› hnext
      · cases h
        exact .finalized ‹_› hnext
      · cases h
  | retry recentlyEdited =>
      obtain ⟨action, display, hnext, hspawn⟩ := spawnNext_eq s recentlyEdited
      simp only [step, hspawn] at h
      split at h
      · cases h
      · cases h
        exact .retry ‹_› hnext
  | sendCompleted task result =>
      simp only [step] at h
      split at h
      · cases h
        exact .sent ‹_›
      · cases h
  | editCompleted task error =>
      simp only [step] at h
      split at h
      · cases h
        exact .edited ‹_›
      · cases h
  | reply content =>
      simp only [step] at h
      split at h
      · split at h
        · cases h
          exact .reply ‹_› ‹_›
        · rename_i hstreaming
          cases h
          exact .replyWhole ‹_› (Bool.eq_false_iff.mpr hstreaming)
      · cases h
  | noReply reply =>
      simp only [step] at h
      split at h
      · rename_i hboth
        cases h
        exact .noReply hboth.1 hboth.2
      · cases h
  | poll =>
      simp only [step] at h
      split at h
      · split at h
        · cases h
          exact .failed ‹_› ‹_›
        · cases h
          exact .done ‹_› ‹_›
        · cases h
          exact .fallback ‹_› ‹_›
        · cases h
          exact .again ‹_› ‹_›
      · cases h
  | wholeSent result =>
      simp only [step] at h
      split at h
      · cases h
        exact .whole ‹_›
      · cases h

/-! ## The invariant -/

/-- The invariant of all turns. -/
structure Sound (s : Turn) : Prop where
  consistent : s.stage.hasReturned = false → Consistent s.display s.tasks s.messages
  final : ∀ content, s.stage = .finalizing content ∨ s.stage = .polling content →
    s.display.latestContent = content ∧ s.display.finalized = true
  looked : ∀ content, s.stage = .polling content → ¬ s.display.Sendable
  ended : s.stage.isOver = true → s.tasks = [] ∧ s.display.Quiet
  whole : s.streaming = false → s.tasks = [] ∧ s.display.latestContent = []

theorem sound_start (streaming : Bool) (channelLimit : Option Nat) :
    (start streaming channelLimit).Sound where
  consistent := fun _ => consistent_new channelLimit
  final := by rintro content (h | h) <;> cases h
  looked := by rintro content ⟨⟩
  ended := by rintro ⟨⟩
  whole := fun _ => ⟨rfl, rfl⟩

section Sound

variable {s s' : Turn} {a : TurnAction}

/-- The stage changes, and nothing else. -/
theorem Sound.of_stage (hs : s.Sound) {stage : Stage}
    (hreturned : s.stage.hasReturned = false)
    (hfinal : ∀ content, stage = .finalizing content →
      s.display.latestContent = content ∧ s.display.finalized = true)
    (hlooked : ∀ content, stage ≠ .polling content)
    (hover : stage.isOver = true → s.tasks = [] ∧ s.display.Quiet) :
    Sound { s with stage } where
  consistent := fun _ => hs.consistent hreturned
  final := by
    rintro content (hstage | hstage)
    · exact hfinal content hstage
    · exact absurd hstage (hlooked content)
  looked := fun content hstage => absurd hstage (hlooked content)
  ended := hover
  whole := hs.whole

theorem hasReturned_of_not_over (h : s.stage.isOver = false) : s.stage.hasReturned = false := by
  cases hstage : s.stage with
  | returned content result => rw [hstage] at h; cases h
  | _ => rfl

/-- The next action is looked for, while the finalizer is not over. -/
theorem Sound.of_next (hs : s.Sound) {recentlyEdited : Bool}
    {action : Option StreamingDisplayAction} {display : StreamingDisplay} {stage : Stage}
    {retries : Nat} (hover : s.stage.isOver = false)
    (hnext : nextStreamingDisplayAction recentlyEdited s.display = (action, display))
    (hfinal : ∀ content, stage = .finalizing content ∨ stage = .polling content →
      s.display.latestContent = content ∧ s.display.finalized = true)
    (hover' : stage.isOver = false) :
    Sound { s with display, tasks := s.tasks ++ action.toList, stage, retries } := by
  have hconsistent := hs.consistent (hasReturned_of_not_over hover)
  obtain ⟨hcontent, hfinalized⟩ := latestContent_next (nextAction_of_eq hnext)
  exact
    { consistent := fun _ => hconsistent.next (nextAction_of_eq hnext)
      final := by
        intro content hstage
        obtain ⟨hlatest, hfinal⟩ := hfinal content hstage
        exact ⟨hcontent.trans hlatest, hfinalized.trans hfinal⟩
      looked := fun _ _ => hconsistent.not_sendable_next (nextAction_of_eq hnext)
      ended := fun h => by rw [hover'] at h; cases h
      whole := by
        intro hwhole
        obtain ⟨htasks, hempty⟩ := hs.whole hwhole
        have hquiet : s.display.Quiet :=
          quiet_of_committed (segment_eq_none_iff.mpr (by simp [hempty]))
        rw [hquiet] at hnext
        cases hnext
        exact ⟨by simp [htasks], hempty⟩ }

/-- A task ends.  There is something on display afterwards, or it has failed. -/
theorem Sound.of_completed (hs : s.Sound) {task : Nat} {action : StreamingDisplayAction}
    {display : StreamingDisplay} {tasks : List StreamingDisplayAction} {messages : List Text}
    {retries : Nat} (htask : s.tasks[task]? = some action)
    (hconsistent : Consistent display tasks messages)
    (hcontent : display.latestContent = s.display.latestContent)
    (hfinalized : display.finalized = s.display.finalized) (hsendable : ¬ display.Sendable) :
    Sound { s with display, tasks, retries, messages } := by
  have hne : s.tasks ≠ [] := by
    rintro hnil
    rw [hnil] at htask
    cases htask
  exact
    { consistent := fun _ => hconsistent
      final := by
        intro content hstage
        obtain ⟨hlatest, hfinal⟩ := hs.final content hstage
        exact ⟨hcontent.trans hlatest, hfinalized.trans hfinal⟩
      looked := fun _ _ => hsendable
      ended := fun h => absurd (hs.ended h).1 hne
      whole := fun h => absurd (hs.whole h).1 hne }

/-- While a task is in flight the finalizer is not over. -/
theorem Sound.not_over_of_task (hs : s.Sound) {task : Nat} {action : StreamingDisplayAction}
    (htask : s.tasks[task]? = some action) : s.stage.isOver = false := by
  refine Bool.eq_false_iff.mpr fun hover => ?_
  rw [(hs.ended hover).1] at htask
  cases htask

/-- The finalizer stops looking: nothing is in flight, and nothing is due. -/
theorem Sound.stop (hs : s.Sound) {content : Text} (hstage : s.stage = .polling content)
    (hpoll : finalizePoll s.display content ≠ .again) : s.tasks = [] ∧ s.display.Quiet :=
  quiet_of_poll (hs.consistent (by rw [hstage]; rfl)) (hs.final content (.inr hstage)).1
    (hs.looked content hstage) (poll_spec s.display content) hpoll

/-- **Every step keeps the invariant.** -/
theorem Sound.step (hs : s.Sound) (h : s.step a = some s') : s'.Sound := by
  cases step_spec h with
  | newStep hstage =>
      exact
        { consistent := hs.consistent
          final := hs.final
          looked := hs.looked
          ended := hs.ended
          whole := hs.whole }
  | @textDelta delta hstage hstreaming =>
      exact
        { consistent := fun _ =>
            (hs.consistent (by rw [hstage]; rfl)).withContent _ s.display.finalized
          final := by rintro content (h | h) <;> cases h
          looked := by rintro content ⟨⟩
          ended := by rintro ⟨⟩
          whole := fun hwhole => by rw [hstreaming] at hwhole; cases hwhole }
  | updated hstage hnext =>
      exact hs.of_next (by rw [hstage]; rfl) hnext (by simp) rfl
  | @finalized recentlyEdited action display content hstage hnext =>
      refine hs.of_next (by rw [hstage]; rfl) hnext ?_ rfl
      rintro content' (hstage' | hstage')
      · cases hstage'
      · cases hstage'
        exact hs.final content (.inl hstage)
  | retry hretries hnext =>
      by_cases hover : s.stage.isOver = true
      · obtain ⟨htasks, hquiet⟩ := hs.ended hover
        rw [hquiet] at hnext
        cases hnext
        simp only [Option.toList_none, List.append_nil]
        exact
          { consistent := hs.consistent
            final := hs.final
            looked := hs.looked
            ended := hs.ended
            whole := hs.whole }
      · have hover := Bool.eq_false_iff.mpr hover
        exact hs.of_next hover hnext hs.final hover
  | @sent task content result retries htask =>
      have hreturned := hasReturned_of_not_over (hs.not_over_of_task htask)
      refine hs.of_completed htask ((hs.consistent hreturned).sendCompleted htask result) ?_ ?_ ?_
      · cases result <;> rfl
      · cases result <;> rfl
      · rintro ⟨hfail, -, hdisplayed, -⟩
        cases result with
        | withId => cases hdisplayed
        | withoutId => cases hdisplayed
        | failed error => cases hfail
  | @edited task messageId content error retries htask =>
      have hreturned := hasReturned_of_not_over (hs.not_over_of_task htask)
      refine hs.of_completed htask ((hs.consistent hreturned).editCompleted htask error) ?_ ?_ ?_
      · cases error <;> rfl
      · cases error <;> rfl
      · rintro ⟨hfail, -, hdisplayed, -⟩
        cases error with
        | none => cases hdisplayed
        | some error => cases hfail
  | @reply content hstage hstreaming =>
      exact
        { consistent := fun _ => (hs.consistent (by rw [hstage]; rfl)).withContent content true
          final := by
            rintro content' (h | h)
            · cases h
              exact ⟨rfl, rfl⟩
            · cases h
          looked := by rintro content ⟨⟩
          ended := by rintro ⟨⟩
          whole := fun hwhole => by rw [hstreaming] at hwhole; cases hwhole }
  | replyWhole hstage hstreaming =>
      refine hs.of_stage (by rw [hstage]; rfl) (by simp) (by simp) fun _ => ?_
      obtain ⟨htasks, hempty⟩ := hs.whole hstreaming
      exact ⟨htasks, quiet_of_committed (segment_eq_none_iff.mpr (by simp [hempty]))⟩
  | noReply hstage hreply =>
      exact hs.of_stage (by rw [hstage]; rfl) (by simp) (by simp) (by rintro ⟨⟩)
  | failed hstage hpoll =>
      exact hs.of_stage (by rw [hstage]; rfl) (by simp) (by simp)
        fun _ => hs.stop hstage (by simp [hpoll])
  | done hstage hpoll =>
      exact hs.of_stage (by rw [hstage]; rfl) (by simp) (by simp)
        fun _ => hs.stop hstage (by simp [hpoll])
  | fallback hstage hpoll =>
      exact hs.of_stage (by rw [hstage]; rfl) (by simp) (by simp)
        fun _ => hs.stop hstage (by simp [hpoll])
  | again hstage hpoll =>
      refine hs.of_stage (by rw [hstage]; rfl) ?_ (by simp) (by rintro ⟨⟩)
      rintro content ⟨⟩
      exact hs.final _ (.inr hstage)
  | whole hstage =>
      obtain ⟨htasks, hquiet⟩ := hs.ended (by rw [hstage]; rfl)
      exact
        { consistent := fun h => by cases h
          final := by rintro content (h | h) <;> cases h
          looked := by rintro content ⟨⟩
          ended := fun _ => ⟨htasks, hquiet⟩
          whole := hs.whole }

end Sound

/-! ## Turns that stream -/

/-- The invariant, for a turn that streams. -/
structure Streams (s : Turn) : Prop where
  sound : s.Sound
  streaming : s.streaming = true
  bare : ∀ content, s.stage = .sendingWhole content → s.display.displayedSegment = none

section Streams

variable {s s' : Turn} {a : TurnAction}

theorem streams_start (channelLimit : Option Nat) : (start true channelLimit).Streams where
  sound := sound_start true channelLimit
  streaming := rfl
  bare := by rintro content ⟨⟩

theorem Streams.step (hs : s.Streams) (h : s.step a = some s') : s'.Streams := by
  refine ⟨hs.sound.step h, ?_, ?_⟩
  · cases step_spec h <;> exact hs.streaming
  · intro content hstage
    cases step_spec h with
    | newStep => exact hs.bare content hstage
    | retry hretries hnext =>
        have hover : s.stage.isOver = true := by rw [show s.stage = _ from hstage]; rfl
        rw [(hs.sound.ended hover).2] at hnext
        cases hnext
        exact hs.bare content hstage
    | sent htask =>
        have hover := hs.sound.not_over_of_task htask
        rw [show s.stage = _ from hstage] at hover
        cases hover
    | edited htask =>
        have hover := hs.sound.not_over_of_task htask
        rw [show s.stage = _ from hstage] at hover
        cases hover
    | replyWhole _ hstreaming => rw [hs.streaming] at hstreaming; cases hstreaming
    | @fallback content' _ hpoll =>
        have hspec := poll_spec s.display content'
        rw [hpoll] at hspec
        cases hspec with
        | fallback _ _ _ hdisplayed => exact hdisplayed
    | textDelta => cases hstage
    | updated => cases hstage
    | finalized => cases hstage
    | reply => cases hstage
    | noReply => cases hstage
    | failed => cases hstage
    | done => cases hstage
    | again => cases hstage
    | whole => cases hstage

end Streams

end Turn

end Streaming
end SimpleClaw
