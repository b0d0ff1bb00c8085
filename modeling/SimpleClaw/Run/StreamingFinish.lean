import SimpleClaw.Run.StreamingTurn

/-!
# The finalizer ends

The finalizer looks at the display until all is shown, something has failed, or there is nothing
on display and it can send the reply itself.  None of this comes about when the reply is shorter
than what was rolled over, or when a message that shows something else cannot be edited: then no
action is due, and the loop goes on for ever.

* `Turn.Stuck`: nothing is in flight, the loop looks again, and no action is due.
* `StreamingDisplay.CanFinish`: the reply can be finished over a message on display.
* `neverStuck_iff_keepsFinishing`: a turn is never stuck if and only if every reply, and every
  message that appears on display after it, can be finished.
-/

namespace SimpleClaw
namespace Streaming

open Transition

/-- A reply can be finished over a message with this text: it is no shorter than what was
committed, and a message without an id already shows its segment. -/
def StreamingDisplay.CanFinish (d : StreamingDisplay) (reply text : Text) (named : Bool) : Prop :=
  d.committedPrefixChars ≤ reply.length ∧
    (named = false → ∀ segment,
      activeStreamingSegment reply d.committedPrefixChars d.channelLimit = some segment →
        text = segment.content)

namespace Turn

/-- **The finalizer is stuck**: no task is in flight, it neither returns nor sends the reply
itself, and no action is due, whatever the time. -/
structure Stuck (s : Turn) : Prop where
  again : ∃ content, s.stage.reply = some content ∧ finalizePoll s.display content = .again
  idle : s.tasks = []
  nothing : ∀ recentlyEdited, (nextStreamingDisplayAction recentlyEdited s.display).1 = none

/-- A reply comes only over a display on which it can be finished, unless a task is still in
flight or has failed; and so does a message after the reply. -/
def KeepsFinishing (s : Turn) : TurnAction → Prop
  | .reply content =>
      s.streaming = true → s.tasks = [] → s.display.terminalFailure = false →
        ∀ text, s.display.displayedSegment = some text →
          s.display.CanFinish content text s.display.messageId.isSome
  | .sendCompleted task result =>
      ∀ content text,
        s.stage.reply = some content → s.tasks[task]? = some (.sendInitial text) →
        match result with
        | .withId => s.display.CanFinish content text true
        | .withoutId => s.display.CanFinish content text false
        | .failed _ => True
  | .editCompleted _ none =>
      ∀ content, s.stage.reply = some content → s.display.committedPrefixChars ≤ content.length
  | _ => True

section Steps

variable {s s' : Turn} {a : TurnAction}

theorem stage_of_reply {stage : Stage} {content : Text} (h : stage.reply = some content) :
    stage = .finalizing content ∨ stage = .polling content := by
  cases stage with
  | finalizing content' => exact .inl (congrArg Stage.finalizing (Option.some.inj h))
  | polling content' => exact .inr (congrArg Stage.polling (Option.some.inj h))
  | _ => cases h

theorem hasReturned_of_reply {stage : Stage} {content : Text} (h : stage.reply = some content) :
    stage.hasReturned = false := by
  rcases stage_of_reply h with rfl | rfl <;> rfl

/-- With nothing in flight, the flags are down. -/
theorem flags_of_idle {d : StreamingDisplay} {messages : List Text}
    (h : Consistent d [] messages) : d.sendInFlight = false ∧ d.editInFlight = false := by
  cases h.tasks with
  | none hsend hedit => exact ⟨hsend, hedit⟩

/-- A display on which the reply is neither shown nor can be finished: no action is due. -/
theorem next_eq_none_of_not_canFinish {d : StreamingDisplay} {recentlyEdited : Bool}
    {action : Option StreamingDisplayAction} {d' : StreamingDisplay} {text : Text}
    (hdisplayed : d.displayedSegment = some text)
    (hnot : ¬ d.CanFinish d.latestContent text d.messageId.isSome)
    (hnext : NextAction recentlyEdited d action d') : action = none := by
  have hsegment : ∀ segment, d.segment = some segment →
      d.messageId = none ∧ text ≠ segment.content := by
    intro segment hsegment
    have hle := (isSegment_of_segment hsegment).le
    by_contra hboth
    refine hnot ⟨by omega, fun hnamed segment' hsegment' => ?_⟩
    rw [show activeStreamingSegment _ _ _ = d.segment from rfl, hsegment] at hsegment'
    cases hsegment'
    have hid : d.messageId = none := by
      rwa [Option.isSome_eq_false_iff, Option.isNone_iff_eq_none] at hnamed
    exact not_not.mp fun hne => hboth ⟨hid, hne⟩
  cases hnext with
  | failed => rfl
  | empty => rfl
  | waits => rfl
  | send _ _ _ _ hnone => rw [hdisplayed] at hnone; cases hnone
  | rollover _ hsome hroll =>
      have hsame := hroll.2.2.2
      rw [hdisplayed] at hsame
      exact absurd (Option.some.inj hsame) (hsegment _ hsome).2
  | edit _ hsome hid =>
      rw [(hsegment _ hsome).1] at hid
      cases hid

/-- What keeps the next action from being due, while there is text left. -/
theorem waits_of_next_none {d d' : StreamingDisplay} {recentlyEdited : Bool}
    {action : Option StreamingDisplayAction} {segment : ActiveStreamingSegment}
    (hnext : NextAction recentlyEdited d action d') (hnone : action = none)
    (hfail : d.terminalFailure = false) (hsegment : d.segment = some segment) :
    ¬ d.RollsOver segment ∧ Waits recentlyEdited d segment := by
  cases hnext with
  | failed hfail' => rw [hfail] at hfail'; cases hfail'
  | empty hempty => rw [hsegment] at hempty; cases hempty
  | waits _ hsegment' hroll hwaits =>
      rw [hsegment] at hsegment'
      cases hsegment'
      exact ⟨hroll, hwaits⟩
  | send => cases hnone
  | rollover => cases hnone
  | edit => cases hnone

/-- The loop looks again at a display with nothing in flight, and nothing is due. -/
theorem stuck_iff (hs : s.Sound) {content : Text} (hreply : s.stage.reply = some content) :
    s.Stuck ↔ s.tasks = [] ∧ s.display.terminalFailure = false ∧
      ∃ text, s.display.displayedSegment = some text ∧
        ¬ s.display.CanFinish content text s.display.messageId.isSome := by
  have hconsistent := hs.consistent (hasReturned_of_reply hreply)
  obtain ⟨hcontent, hfinalized⟩ := hs.final content (stage_of_reply hreply)
  constructor
  · rintro ⟨⟨content', hreply', hpoll⟩, hidle, hnothing⟩
    rw [hreply] at hreply'
    cases hreply'
    rw [hidle] at hconsistent
    obtain ⟨hsend, hedit⟩ := flags_of_idle hconsistent
    have hspec := poll_spec s.display content
    rw [hpoll] at hspec
    cases hspec with
    | inFlight hflight =>
        rw [hsend, hedit] at hflight
        simp at hflight
    | again _ _ hfailed hlength hsegment hshown =>
        have hfail : s.display.terminalFailure = false := by
          refine Bool.eq_false_iff.mpr fun hfail => ?_
          have herror := hconsistent.failed hfail
          rw [hfailed hfail] at herror
          cases herror
        have hsome : s.display.displayedSegment.isSome = true := by
          rcases hshown with hid | hsome
          · obtain ⟨messageId, hid⟩ := Option.isSome_iff_exists.mp hid
            exact (hconsistent.current messageId hid).2
          · exact hsome
        obtain ⟨text, hdisplayed⟩ := Option.isSome_iff_exists.mp hsome
        refine ⟨hidle, hfail, text, hdisplayed, ?_⟩
        rintro ⟨hle, hnamed⟩
        -- there is text left, so a segment, and it is on display
        cases hsome' : s.display.segment with
        | none =>
            have := segment_eq_none_iff.mp hsome'
            rw [hcontent] at this
            omega
        | some segment =>
            obtain ⟨hroll, hwaits⟩ := waits_of_next_none (nextAction_spec false s.display)
              (hnothing false) hfail hsome'
            have hsame : s.display.displayedSegment = some segment.content := by
              cases hwaits with
              | send hid _ =>
                  rw [hid] at hnamed
                  rw [hdisplayed, hnamed rfl segment (by rw [← hcontent]; exact hsome')]
              | edit hid hreason =>
                  rw [hedit, hfinalized] at hreason
                  simpa using hreason
            have hover : segment.hasOverflow = true := by
              have hle := (isSegment_of_segment hsome').le
              rw [(isSegment_of_segment hsome').overflow]
              have := hsegment segment hsome' hsame
              rw [hcontent] at hle ⊢
              omega
            exact hroll ⟨hsend, hedit, hover, hsame⟩
  · rintro ⟨hidle, hfail, text, hdisplayed, hnot⟩
    rw [hidle] at hconsistent
    obtain ⟨hsend, hedit⟩ := flags_of_idle hconsistent
    refine ⟨⟨content, hreply, ?_⟩, hidle, fun recentlyEdited => ?_⟩
    · have hspec := poll_spec s.display content
      generalize hpoll : finalizePoll s.display content = outcome at hspec ⊢
      cases hspec with
      | inFlight => rfl
      | again => rfl
      | failed hfail' => rw [hfail] at hfail'; cases hfail'
      | fallback _ _ _ hnone => rw [hdisplayed] at hnone; cases hnone
      | committed _ _ hlength =>
          refine absurd ⟨Nat.le_of_eq hlength, fun _ segment hsegment => ?_⟩ hnot
          have hnone : activeStreamingSegment content s.display.committedPrefixChars
              s.display.channelLimit = none := by
            rw [← hcontent]
            refine segment_eq_none_iff.mpr ?_
            rw [hcontent, hlength]
          rw [hnone] at hsegment
          cases hsegment
      | @shown segment _ _ hsegment hsame hlength =>
          refine absurd ⟨by omega, fun _ segment' hsegment' => ?_⟩ hnot
          rw [← hcontent, show activeStreamingSegment _ _ _ = s.display.segment from rfl,
            hsegment] at hsegment'
          cases hsegment'
          rw [hdisplayed] at hsame
          exact Option.some.inj hsame
    · rw [← hcontent] at hnot
      exact next_eq_none_of_not_canFinish hdisplayed hnot (nextAction_spec recentlyEdited s.display)

theorem not_stuck_iff (hs : s.Sound) {content : Text} (hreply : s.stage.reply = some content) :
    ¬ s.Stuck ↔ (s.tasks = [] → s.display.terminalFailure = false →
      ∀ text, s.display.displayedSegment = some text →
        s.display.CanFinish content text s.display.messageId.isSome) := by
  rw [stuck_iff hs hreply]
  push Not
  exact Iff.rfl

/-- The finalizer has not begun, or is over: it is not stuck. -/
theorem not_stuck_of_reply_eq_none (h : s.stage.reply = none) : ¬ s.Stuck := by
  rintro ⟨⟨content, hreply, -⟩, -, -⟩
  rw [h] at hreply
  cases hreply

/-- Looking for the next action gets no one stuck. -/
theorem not_stuck_next (hP : ¬ s.Stuck) {recentlyEdited : Bool}
    {action : Option StreamingDisplayAction} {display : StreamingDisplay} {stage : Stage}
    {retries : Nat}
    (hnext : nextStreamingDisplayAction recentlyEdited s.display = (action, display))
    (hreply : stage.reply = s.stage.reply) :
    ¬ Stuck { s with display, tasks := s.tasks ++ action.toList, stage, retries } := by
  rintro ⟨⟨content, hcontent, hpoll⟩, hidle, hnothing⟩
  have hnone : action = none := by
    cases action with
    | none => rfl
    | some action => simp at hidle
  subst hnone
  have hsame : display = s.display := by
    cases nextAction_of_eq hnext <;> rfl
  subst hsame
  refine hP ⟨⟨content, hreply ▸ hcontent, hpoll⟩, ?_, hnothing⟩
  simpa using hidle

/-- The guard of a send, once the reply and the text sent are known. -/
theorem keepsFinishing_sent_iff {task : Nat} {content text : Text} {result : SendResult}
    (hreply : s.stage.reply = some content) (htask : s.tasks[task]? = some (.sendInitial text)) :
    s.KeepsFinishing (.sendCompleted task result) ↔
      match result with
      | .withId => s.display.CanFinish content text true
      | .withoutId => s.display.CanFinish content text false
      | .failed _ => True := by
  constructor
  · intro hkeeps
    exact hkeeps content text hreply htask
  · intro hfinish content' text' hreply' htask'
    rw [hreply] at hreply'
    rw [htask] at htask'
    cases hreply'
    cases htask'
    exact hfinish

/-- **A step gets no one stuck if and only if the reply can be finished.** -/
theorem not_stuck_step_iff (hs : s.Streams) (hP : ¬ s.Stuck) (h : s.step a = some s') :
    ¬ s'.Stuck ↔ s.KeepsFinishing a := by
  have hs' := hs.step h
  cases step_spec h with
  | newStep hstage =>
      refine iff_of_true (not_stuck_of_reply_eq_none ?_) trivial
      rw [show s.stage = _ from hstage]
      rfl
  | textDelta => exact iff_of_true (not_stuck_of_reply_eq_none rfl) trivial
  | updated => exact iff_of_true (not_stuck_of_reply_eq_none rfl) trivial
  | finalized hstage hnext =>
      exact iff_of_true (not_stuck_next hP hnext (by rw [hstage]; rfl)) trivial
  | retry _ hnext => exact iff_of_true (not_stuck_next hP hnext rfl) trivial
  | @sent task text result retries htask =>
      cases hreply : s.stage.reply with
      | none =>
          refine iff_of_true (not_stuck_of_reply_eq_none hreply) fun content text' hsome => ?_
          rw [hreply] at hsome
          cases hsome
      | some content =>
          have hconsistent := hs.sound.consistent (hasReturned_of_reply hreply)
          obtain ⟨hidle, hfail⟩ := hconsistent.alone htask
          rw [not_stuck_iff hs'.sound hreply]
          rw [keepsFinishing_sent_iff hreply htask]
          cases result with
          | withId =>
              constructor
              · intro hfinish
                exact hfinish hidle hfail text rfl
              · rintro hfinish - - _ ⟨⟩
                exact hfinish
          | withoutId =>
              have hid : s.display.messageId = none := hconsistent.messageId_of_send htask
              constructor
              · intro hfinish
                have := hfinish hidle hfail text rfl
                rwa [show (s.display.sendCompleted text s.messages.length .withoutId).1.messageId =
                  none from hid] at this
              · rintro hfinish - - _ ⟨⟩
                rwa [show (s.display.sendCompleted text s.messages.length .withoutId).1.messageId =
                  none from hid]
          | failed error => exact iff_of_true (fun _ hfail => by cases hfail) trivial
  | @edited task messageId text error retries htask =>
      cases error with
      | some error =>
          refine iff_of_true ?_ trivial
          cases hreply : s.stage.reply with
          | none => exact not_stuck_of_reply_eq_none hreply
          | some content =>
              rw [not_stuck_iff hs'.sound hreply]
              exact fun _ hfail => by cases hfail
      | none =>
          cases hreply : s.stage.reply with
          | none =>
              refine iff_of_true (not_stuck_of_reply_eq_none hreply) fun content hsome => ?_
              rw [hreply] at hsome
              cases hsome
          | some content =>
              have hconsistent := hs.sound.consistent (hasReturned_of_reply hreply)
              obtain ⟨hidle, hfail⟩ := hconsistent.alone htask
              have hnamed : (s.display.editCompleted text none).1.messageId.isSome = true := by
                rw [show (s.display.editCompleted text none).1.messageId = some messageId from
                  hconsistent.messageId_of_edit htask]
                rfl
              rw [not_stuck_iff hs'.sound hreply]
              constructor
              · intro hfinish content' hreply'
                rw [hreply] at hreply'
                cases hreply'
                exact (hfinish hidle hfail text rfl).1
              · rintro hle - - _ ⟨⟩
                refine ⟨hle content hreply, fun hunnamed => ?_⟩
                rw [hnamed] at hunnamed
                cases hunnamed
  | @reply content hstage hstreaming =>
      rw [not_stuck_iff hs'.sound rfl]
      constructor
      · intro hfinish _
        exact hfinish
      · intro hkeeps
        exact hkeeps hstreaming
  | replyWhole _ hstreaming => rw [hs.streaming] at hstreaming; cases hstreaming
  | noReply => exact iff_of_true (not_stuck_of_reply_eq_none rfl) trivial
  | failed => exact iff_of_true (not_stuck_of_reply_eq_none rfl) trivial
  | done => exact iff_of_true (not_stuck_of_reply_eq_none rfl) trivial
  | fallback => exact iff_of_true (not_stuck_of_reply_eq_none rfl) trivial
  | again hstage hpoll =>
      refine iff_of_true ?_ trivial
      rintro ⟨⟨content', hreply, hpoll'⟩, hidle, hnothing⟩
      exact hP ⟨⟨content', by rw [hstage]; exact hreply, hpoll'⟩, hidle, hnothing⟩
  | whole => exact iff_of_true (not_stuck_of_reply_eq_none rfl) trivial

end Steps

end Turn

/-! ## Whole runs -/

/-- **Along a turn the finalizer is never stuck if and only if, in every step, the reply can be
finished.** -/
theorem neverStuck_iff_keepsFinishing {channelLimit : Option Nat}
    {tr : List (TurnAction × Turn)} (hrun : Run Turn.step (Turn.start true channelLimit) tr) :
    (∀ x ∈ tr, ¬ x.2.Stuck) ↔
      Run.StepsMeet Turn.KeepsFinishing (Turn.start true channelLimit) tr :=
  Run.forall_iff_stepsMeet (J := Turn.Streams) (fun _ _ _ hs h => hs.step h)
    (fun _ _ _ hs hP h => Turn.not_stuck_step_iff hs hP h) hrun (Turn.streams_start channelLimit)
    (Turn.not_stuck_of_reply_eq_none rfl)

/-- `KeepsFinishing`, computed. -/
def StreamingDisplay.canFinish (d : StreamingDisplay) (reply text : Text) (named : Bool) : Bool :=
  decide (d.committedPrefixChars ≤ reply.length) && (named ||
    (activeStreamingSegment reply d.committedPrefixChars d.channelLimit).all
      fun segment => text = segment.content)

theorem canFinish_of_check {d : StreamingDisplay} {reply text : Text} {named : Bool}
    (h : d.canFinish reply text named = true) : d.CanFinish reply text named := by
  obtain ⟨hle, hnamed⟩ := Bool.and_eq_true_iff.mp h
  refine ⟨of_decide_eq_true hle, ?_⟩
  rintro rfl segment hsegment
  rw [Bool.false_or, hsegment] at hnamed
  exact of_decide_eq_true hnamed

def Turn.keepsFinishing (s : Turn) : TurnAction → Bool
  | .reply content =>
      s.display.displayedSegment.all fun text =>
        s.display.canFinish content text s.display.messageId.isSome
  | .sendCompleted task result =>
      match s.stage.reply, s.tasks[task]?, result with
      | some content, some (.sendInitial text), .withId => s.display.canFinish content text true
      | some content, some (.sendInitial text), .withoutId =>
          s.display.canFinish content text false
      | _, _, _ => true
  | .editCompleted _ none =>
      s.stage.reply.all fun content => s.display.committedPrefixChars ≤ content.length
  | _ => true

theorem keepsFinishing_of_check (s : Turn) (a : TurnAction) (h : s.keepsFinishing a = true) :
    s.KeepsFinishing a := by
  cases a with
  | reply content =>
      intro _ _ _ text hdisplayed
      rw [Turn.keepsFinishing, hdisplayed] at h
      exact canFinish_of_check h
  | sendCompleted task result =>
      intro content text hreply htask
      cases result with
      | withId =>
          simp only [Turn.keepsFinishing, hreply, htask] at h
          exact canFinish_of_check h
      | withoutId =>
          simp only [Turn.keepsFinishing, hreply, htask] at h
          exact canFinish_of_check h
      | failed error => trivial
  | editCompleted task error =>
      cases error with
      | some error => trivial
      | none =>
          intro content hreply
          rw [Turn.keepsFinishing, hreply] at h
          exact of_decide_eq_true h
  | _ => trivial

/-- The reply grows out of the streamed text; the last message has no id but shows its segment. -/
def finishedTurn : List TurnAction :=
  [.textDelta "abc", .attempt false, .sendCompleted 0 .withId, .retry false, .reply "abc",
    .attempt false, .poll, .sendCompleted 0 .withoutId, .attempt false, .poll]

theorem neverStuck_finishedTurn : ∃ tr, exec Turn.step (Turn.start true (some 2)) finishedTurn =
    some tr ∧ ∀ x ∈ tr, ¬ x.2.Stuck := by
  obtain ⟨tr, htr, hrun, hC⟩ :=
    exists_guarded_run_of_exec Turn.step (Turn.start true (some 2)) finishedTurn
      keepsFinishing_of_check (by decide)
  exact ⟨tr, htr, (neverStuck_iff_keepsFinishing hrun).mpr hC⟩

/-- Two characters of the first step are rolled over, and the reply, the second step's text, has
one. -/
def shortReplyTurn : List TurnAction :=
  [.textDelta "aaa", .attempt false, .sendCompleted 0 .withId, .retry false,
    .sendCompleted 0 .withId, .retry true, .newStep, .textDelta "b", .attempt true, .reply "b",
    .attempt true]

theorem shortReplyTurn_gets_stuck :
    ¬ ∀ tr, Run Turn.step (Turn.start true (some 2)) tr → ∀ x ∈ tr, ¬ x.2.Stuck := by
  intro hall
  obtain ⟨tr, hrun, x, hx, hstuck⟩ :=
    exists_run_of_exec Turn.step (Turn.start true (some 2)) shortReplyTurn
      (fun s => decide (s.stage = .polling "b" ∧ finalizePoll s.display "b" = .again ∧
        s.tasks = [] ∧
          ∀ recentlyEdited, (nextStreamingDisplayAction recentlyEdited s.display).1 = none))
      (by decide)
  obtain ⟨hstage, hpoll, hidle, hnothing⟩ := of_decide_eq_true hstuck
  exact hall tr hrun x hx ⟨⟨"b", by rw [hstage]; rfl, hpoll⟩, hidle, hnothing⟩

end Streaming
end SimpleClaw
