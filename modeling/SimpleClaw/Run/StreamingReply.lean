import SimpleClaw.Run.StreamingTurn

/-!
# The messages show the reply

When the finalizer returns without an error, the messages of the turn should read, one after the
other, as the reply.  But a message that was rolled over is not touched again, and the text of a
later model step, or the reply, need not begin with it: the display only counts its characters.
And when a send fails, the reply is sent in one piece, however long it is.

* `Turn.ShowsReply`: the property of one state.
* `Turn.KeepsReply`: the finalizer returns only if the messages left behind are a beginning of the
  reply, and sends it whole only if it fits.
* `showsReply_iff_keepsReply`: along a run, the property holds if and only if every step does.
-/

namespace SimpleClaw
namespace Streaming

open Transition

namespace Turn

/-- **The display shows the reply.**  When the finalizer has returned without an error, the
messages are the reply; and no message is longer than a message may be. -/
structure ShowsReply (s : Turn) : Prop where
  shown : ∀ content, s.stage = .returned content (.ok ()) → s.messages.flatten = content
  fits : ∀ content ∈ s.messages, s.display.Fits content

/-- What was left behind is a beginning of the reply, with no text after it if it is all of it. -/
def Begins (s : Turn) (content : Text) : Prop :=
  (committedMessages s.display s.messages).flatten <+: content ∧
    ((committedMessages s.display s.messages).flatten = content →
      s.display.displayedSegment.getD [] = [])

/-- The finalizer is content only with messages that begin the reply, and a reply that is sent in
one piece follows no message and is short enough. -/
def KeepsReply (s : Turn) (a : TurnAction) : Prop :=
  (∀ content, a = .poll → s.stage = .polling content →
    finalizePoll s.display content = .done → s.Begins content) ∧
  (∀ content, a = .wholeSent (.ok ()) → s.stage = .sendingWhole content →
    s.display.committedPrefixChars = 0 ∧ s.display.Fits content)

section Steps

variable {s s' : Turn} {a : TurnAction}

/-- The messages are those left behind and the one on display. -/
theorem flatten_messages {d : StreamingDisplay} {tasks : List StreamingDisplayAction}
    {messages : List Text} (h : Consistent d tasks messages) :
    messages.flatten =
      (committedMessages d messages).flatten ++ d.displayedSegment.getD [] := by
  have hshown : messages = committedMessages d messages ++ d.displayedSegment.toList := h.shown
  calc messages.flatten
      = (committedMessages d messages ++ d.displayedSegment.toList).flatten :=
        congrArg List.flatten hshown
    _ = _ := by
        rw [List.flatten_append]
        cases d.displayedSegment <;> simp

/-- **When the finalizer is content, the messages are the reply if and only if those left behind
begin it.** -/
theorem flatten_eq_iff_begins {content : Text}
    (h : Consistent s.display s.tasks s.messages) (hcontent : s.display.latestContent = content)
    (hpoll : finalizePoll s.display content = .done) :
    s.messages.flatten = content ↔ s.Begins content := by
  rw [flatten_messages h, Begins]
  have hchars := h.committed
  have hspec := poll_spec s.display content
  rw [hpoll] at hspec
  cases hspec with
  | committed _ _ hlength =>
      -- as many characters are left behind as the reply has
      constructor
      · intro heq
        have hempty : s.display.displayedSegment.getD [] = [] := by
          have hlengths := congrArg List.length heq
          rw [List.length_append] at hlengths
          exact List.eq_nil_of_length_eq_zero (by omega)
        rw [hempty, List.append_nil] at heq
        exact ⟨heq ▸ List.prefix_refl _, fun _ => hempty⟩
      · rintro ⟨hbegins, hempty⟩
        have heq := hbegins.eq_of_length (hchars.trans hlength)
        rw [hempty heq, heq, List.append_nil]
  | @shown segment _ _ hsegment hdisplayed hlength =>
      -- the segment on display is the rest of the reply
      have hsegment' := isSegment_of_segment hsegment
      have hrest : segment.content =
          content.drop (committedMessages s.display s.messages).flatten.length := by
        rw [hsegment'.content, hcontent, hchars]
        refine List.take_of_length_le ?_
        rw [List.length_drop]
        omega
      rw [hdisplayed, Option.getD_some]
      constructor
      · intro heq
        refine ⟨⟨segment.content, heq⟩, fun hall => ?_⟩
        rw [hall] at heq
        exact List.append_right_eq_self.mp heq
      · rintro ⟨⟨rest, rfl⟩, -⟩
        rw [hrest, List.drop_left]

theorem showsReply_of_not_returned (hs : s.Streams) (h : s.stage.hasReturned = false) :
    s.ShowsReply where
  shown := by
    intro content hstage
    rw [hstage] at h
    cases h
  fits := (hs.sound.consistent h).fits

/-- A step that neither looks as the finalizer does nor sends the reply whole changes nothing of
what is shown. -/
theorem showsReply_step_of_ne (hs : s.Streams) (hP : s.ShowsReply) (h : s.step a = some s')
    (hpoll : a ≠ .poll) (hwhole : ∀ result, a ≠ .wholeSent result) : s'.ShowsReply := by
  by_cases hreturned : s'.stage.hasReturned = true
  · cases step_spec h with
    | newStep hstage => rw [show s.stage = _ from hstage] at hreturned; cases hreturned
    | retry hretries hnext =>
        have hover : s.stage.isOver = true := by
          cases hstage : s.stage with
          | returned content result => rfl
          | _ => rw [show s.stage = _ from hstage] at hreturned; cases hreturned
        rw [(hs.sound.ended hover).2] at hnext
        cases hnext
        exact ⟨hP.shown, hP.fits⟩
    | sent htask =>
        have hnot := hasReturned_of_not_over (hs.sound.not_over_of_task htask)
        rw [show s.stage.hasReturned = true from hreturned] at hnot
        cases hnot
    | edited htask =>
        have hnot := hasReturned_of_not_over (hs.sound.not_over_of_task htask)
        rw [show s.stage.hasReturned = true from hreturned] at hnot
        cases hnot
    | failed => exact absurd rfl hpoll
    | done => exact absurd rfl hpoll
    | whole => exact absurd rfl (hwhole _)
    | fallback => exact absurd rfl hpoll
    | again => exact absurd rfl hpoll
    | textDelta => cases hreturned
    | updated => cases hreturned
    | finalized => cases hreturned
    | reply => cases hreturned
    | replyWhole => cases hreturned
    | noReply => cases hreturned
  · exact showsReply_of_not_returned (hs.step h) (Bool.eq_false_iff.mpr hreturned)

/-- A look that does not end the turn does not depend on how the reply begins. -/
theorem begins_of_poll_ne {content : Text} (hstage : s.stage = .polling content)
    (hpoll : finalizePoll s.display content ≠ .done) :
    ∀ content', s.stage = .polling content' →
      finalizePoll s.display content' = .done → s.Begins content' := by
  intro content' hstage' hdone
  rw [hstage] at hstage'
  cases hstage'
  exact absurd hdone hpoll

/-- A look of the finalizer. -/
theorem showsReply_poll_iff (hs : s.Streams) (h : s.step .poll = some s') :
    s'.ShowsReply ↔ ∀ content, s.stage = .polling content →
      finalizePoll s.display content = .done → s.Begins content := by
  cases step_spec h with
  | @failed content error hstage hpoll =>
      refine iff_of_true ⟨by rintro content' ⟨⟩, ?_⟩ (begins_of_poll_ne hstage ?_)
      · exact (hs.sound.consistent (by rw [hstage]; rfl)).fits
      · rw [hpoll]
        exact nofun
  | @done content hstage hpoll =>
      have hconsistent := hs.sound.consistent (by rw [hstage]; rfl)
      have hcontent := (hs.sound.final content (.inr hstage)).1
      have hiff := flatten_eq_iff_begins hconsistent hcontent hpoll
      constructor
      · intro hshows content' hstage' _
        rw [hstage] at hstage'
        cases hstage'
        exact hiff.mp (hshows.shown content rfl)
      · intro hbegins
        refine ⟨?_, hconsistent.fits⟩
        rintro content' hstage'
        cases hstage'
        exact hiff.mpr (hbegins content hstage hpoll)
  | @fallback content hstage hpoll =>
      refine iff_of_true (showsReply_of_not_returned (hs.step h) rfl) (begins_of_poll_ne hstage ?_)
      rw [hpoll]
      exact nofun
  | @again content hstage hpoll =>
      refine iff_of_true (showsReply_of_not_returned (hs.step h) rfl) (begins_of_poll_ne hstage ?_)
      rw [hpoll]
      exact nofun

/-- The reply in one piece. -/
theorem showsReply_whole_iff (hs : s.Streams) {result : Except FrameworkError Unit}
    (h : s.step (.wholeSent result) = some s') :
    s'.ShowsReply ↔ ∀ content, result = .ok () → s.stage = .sendingWhole content →
      s.display.committedPrefixChars = 0 ∧ s.display.Fits content := by
  cases step_spec h with
  | @whole content result hstage =>
      have hconsistent := hs.sound.consistent (by rw [hstage]; rfl)
      cases result with
      | error e =>
          refine iff_of_true ⟨by rintro content' ⟨⟩, hconsistent.fits⟩ ?_
          rintro content' ⟨⟩
      | ok u =>
          have hbare := hs.bare content hstage
          have hchars := hconsistent.committed
          rw [committedMessages_of_none hbare] at hchars
          constructor
          · intro hshows content' _ hstage'
            rw [hstage] at hstage'
            cases hstage'
            have heq : (s.messages ++ [content]).flatten = content := hshows.shown content rfl
            rw [List.flatten_append, List.flatten_singleton] at heq
            have hempty := List.append_left_eq_self.mp heq
            rw [hempty] at hchars
            exact ⟨hchars.symm, hshows.fits content (by simp)⟩
          · intro hboth
            obtain ⟨hzero, hfits⟩ := hboth content rfl hstage
            rw [hzero] at hchars
            refine ⟨?_, Table.forall_mem_append hconsistent.fits hfits⟩
            rintro content' hstage'
            cases hstage'
            have hempty := List.eq_nil_of_length_eq_zero hchars
            simp [hempty]

/-- **A step keeps the reply shown if and only if it is one of those that do.** -/
theorem showsReply_step_iff (hs : s.Streams) (hP : s.ShowsReply) (h : s.step a = some s') :
    s'.ShowsReply ↔ s.KeepsReply a := by
  by_cases hpoll : a = .poll
  · subst hpoll
    rw [showsReply_poll_iff hs h]
    constructor
    · intro hbegins
      exact ⟨fun content _ => hbegins content, by rintro content ⟨⟩⟩
    · intro hkeeps content
      exact hkeeps.1 content rfl
  · by_cases hwhole : ∃ result, a = .wholeSent result
    · obtain ⟨result, rfl⟩ := hwhole
      rw [showsReply_whole_iff hs h]
      constructor
      · intro hfits
        refine ⟨by rintro content ⟨⟩, ?_⟩
        rintro content ⟨⟩
        exact hfits content rfl
      · rintro hkeeps content rfl
        exact hkeeps.2 content rfl
    · rw [not_exists] at hwhole
      refine iff_of_true (showsReply_step_of_ne hs hP h hpoll hwhole) ⟨?_, ?_⟩
      · rintro content rfl
        exact absurd rfl hpoll
      · rintro content rfl
        exact absurd rfl (hwhole _)

end Steps

end Turn

/-! ## Whole runs -/

/-- **Along a turn, the messages show the reply whenever the finalizer has returned without an
error, and none is too long, if and only if every step of the turn keeps the reply.** -/
theorem showsReply_iff_keepsReply {channelLimit : Option Nat} {tr : List (TurnAction × Turn)}
    (hrun : Run Turn.step (Turn.start true channelLimit) tr) :
    (∀ x ∈ tr, x.2.ShowsReply) ↔
      Run.StepsMeet Turn.KeepsReply (Turn.start true channelLimit) tr :=
  Run.forall_iff_stepsMeet (J := Turn.Streams) (fun _ _ _ hs h => hs.step h)
    (fun _ _ _ hs hP h => Turn.showsReply_step_iff hs hP h) hrun (Turn.streams_start channelLimit)
    (Turn.showsReply_of_not_returned (Turn.streams_start channelLimit) rfl)

/-- `KeepsReply`, computed. -/
def Turn.keepsReply (s : Turn) : TurnAction → Bool
  | .poll =>
      match s.stage with
      | .polling content =>
          let committed := (committedMessages s.display s.messages).flatten
          decide (finalizePoll s.display content = .done →
            committed.isPrefixOf content = true ∧
              (committed = content → s.display.displayedSegment.getD [] = []))
      | _ => true
  | .wholeSent (.ok _) =>
      match s.stage with
      | .sendingWhole content =>
          decide (s.display.committedPrefixChars = 0) &&
            s.display.channelLimit.all (content.length ≤ ·)
      | _ => true
  | _ => true

theorem keepsReply_of_check (s : Turn) (a : TurnAction) (h : s.keepsReply a = true) :
    s.KeepsReply a := by
  constructor
  · rintro content rfl hstage hpoll
    simp only [Turn.keepsReply, hstage] at h
    obtain ⟨hbegins, hempty⟩ := of_decide_eq_true h hpoll
    exact ⟨List.isPrefixOf_iff_prefix.mp hbegins, hempty⟩
  · rintro content rfl hstage
    simp only [Turn.keepsReply, hstage] at h
    obtain ⟨hzero, hfits⟩ := Bool.and_eq_true_iff.mp h
    refine ⟨of_decide_eq_true hzero, fun limit hlimit => ?_⟩
    rw [hlimit] at hfits
    exact of_decide_eq_true hfits

/-- A text that is rolled over once and goes on in the reply. -/
def growingTurn : List TurnAction :=
  [.textDelta "abc", .attempt false, .sendCompleted 0 .withId, .retry false,
    .sendCompleted 0 .withId, .retry true, .reply "abcd", .attempt false, .poll,
    .editCompleted 0 none, .attempt true, .poll]

theorem showsReply_growingTurn : ∃ tr, exec Turn.step (Turn.start true (some 2)) growingTurn =
    some tr ∧ ∀ x ∈ tr, x.2.ShowsReply := by
  obtain ⟨tr, htr, hrun, hC⟩ :=
    exists_guarded_run_of_exec Turn.step (Turn.start true (some 2)) growingTurn
      keepsReply_of_check (by decide)
  exact ⟨tr, htr, (showsReply_iff_keepsReply hrun).mpr hC⟩

/-- The first step's text is rolled over, and the reply is the second step's. -/
def restartedTurn : List TurnAction :=
  [.textDelta "aaa", .attempt false, .sendCompleted 0 .withId, .retry false,
    .sendCompleted 0 .withId, .retry true, .newStep, .textDelta "bbb", .attempt false,
    .editCompleted 0 none, .retry false, .reply "bbb", .attempt false, .poll]

theorem restartedTurn_shows_old_text :
    ¬ ∀ tr, Run Turn.step (Turn.start true (some 2)) tr → ∀ x ∈ tr, x.2.ShowsReply := by
  intro hall
  obtain ⟨tr, hrun, x, hx, hwrong⟩ :=
    exists_run_of_exec Turn.step (Turn.start true (some 2)) restartedTurn
      (fun s => decide (s.stage = .returned "bbb" (.ok ()) ∧ s.messages.flatten = "aab".toList))
      (by decide)
  obtain ⟨hstage, hmessages⟩ := of_decide_eq_true hwrong
  have hreply := (hall tr hrun x hx).shown _ hstage
  rw [hmessages] at hreply
  exact absurd hreply (by decide)

end Streaming
end SimpleClaw
