import SimpleClaw.Error
import SimpleClaw.Lib.Tables

/-!
# The streaming display of a turn

While the model writes, the channel shows what there is: a message is sent with the first text
and edited as the text grows, and when the text is longer than a message may be, the message is
left as it is and the rest goes to the next one.  Sends and edits are tasks of their own; when
the turn is over, `finalize_streaming_display` polls until all is shown.

* `StreamingDisplay`: the state behind the mutex.
* `nextStreamingDisplayAction`, with `NextAction`: the send or edit that is due.
* `finalizePoll`: one look of the finalizer at the display.
* `Consistent`: at most one task is in flight, and the messages sent are the committed ones and
  the one on display.
-/

namespace SimpleClaw
namespace Streaming

/-- The state of the display.  A message is named by its index among those the turn has sent. -/
structure StreamingDisplay where
  channelLimit : Option Nat
  latestContent : Text
  committedPrefixChars : Nat
  displayedSegment : Option Text
  messageId : Option Nat
  initialSendAttempted : Bool
  sendInFlight : Bool
  editInFlight : Bool
  finalized : Bool
  terminalFailure : Bool
  errorMessage : Option Text
  deriving DecidableEq

def StreamingDisplay.new (channelLimit : Option Nat) : StreamingDisplay where
  channelLimit := channelLimit
  latestContent := []
  committedPrefixChars := 0
  displayedSegment := none
  messageId := none
  initialSendAttempted := false
  sendInFlight := false
  editInFlight := false
  finalized := false
  terminalFailure := false
  errorMessage := none

/-! ## Segments -/

structure ActiveStreamingSegment where
  content : Text
  visibleChars : Nat
  hasOverflow : Bool
  deriving DecidableEq

/-- The part of the text after the committed prefix that fits into one message. -/
def activeStreamingSegment (latestContent : Text) (committedPrefixChars : Nat)
    (channelLimit : Option Nat) : Option ActiveStreamingSegment :=
  let tail := latestContent.drop committedPrefixChars
  if tail = [] then none
  else
    let visibleChars := channelLimit.elim tail.length fun limit => min limit tail.length
    some ⟨tail.take visibleChars, visibleChars, decide (visibleChars < tail.length)⟩

def StreamingDisplay.segment (d : StreamingDisplay) : Option ActiveStreamingSegment :=
  activeStreamingSegment d.latestContent d.committedPrefixChars d.channelLimit

/-- The message on display is left as it is, and the text after it is the next one's. -/
def StreamingDisplay.rollOver (d : StreamingDisplay) (segment : ActiveStreamingSegment) :
    StreamingDisplay :=
  { d with
    committedPrefixChars := d.committedPrefixChars + segment.visibleChars
    displayedSegment := none
    messageId := none
    initialSendAttempted := false
    errorMessage := none }

/-- `try_rollover_streaming_segment`: the display after the rollover, if there is one. -/
def tryRolloverStreamingSegment (d : StreamingDisplay) : Option StreamingDisplay :=
  if d.sendInFlight ∨ d.editInFlight ∨ d.terminalFailure then none
  else
    match d.segment with
    | none => none
    | some segment =>
        if segment.hasOverflow = false ∨ d.displayedSegment ≠ some segment.content then none
        else some (d.rollOver segment)

/-- What a segment is of the text after the committed prefix. -/
structure IsSegment (d : StreamingDisplay) (segment : ActiveStreamingSegment) : Prop where
  ne_nil : d.latestContent.drop d.committedPrefixChars ≠ []
  content : segment.content = (d.latestContent.drop d.committedPrefixChars).take
    segment.visibleChars
  length : segment.content.length = segment.visibleChars
  le : d.committedPrefixChars + segment.visibleChars ≤ d.latestContent.length
  overflow : segment.hasOverflow = true ↔
    d.committedPrefixChars + segment.visibleChars < d.latestContent.length
  fits : ∀ limit, d.channelLimit = some limit → segment.visibleChars ≤ limit

theorem isSegment_of_segment {d : StreamingDisplay} {segment : ActiveStreamingSegment}
    (h : d.segment = some segment) : IsSegment d segment := by
  unfold StreamingDisplay.segment activeStreamingSegment at h
  simp only at h
  split at h
  · cases h
  · rename_i hne
    cases h
    have hlength := List.length_drop (i := d.committedPrefixChars) (l := d.latestContent)
    have hpos := List.length_pos_of_ne_nil hne
    have hvisible : (d.channelLimit.elim (d.latestContent.drop d.committedPrefixChars).length
        fun limit => min limit (d.latestContent.drop d.committedPrefixChars).length) ≤
        (d.latestContent.drop d.committedPrefixChars).length := by
      cases d.channelLimit with
      | none => exact Nat.le_refl _
      | some limit => exact Nat.min_le_right _ _
    refine ⟨hne, rfl, ?_, ?_, ?_, ?_⟩
    · rw [List.length_take, Nat.min_eq_left hvisible]
    · simp only
      omega
    · simp only [decide_eq_true_eq]
      omega
    · intro limit hlimit
      simp only [hlimit, Option.elim_some]
      exact Nat.min_le_left _ _

theorem segment_eq_none_iff {d : StreamingDisplay} :
    d.segment = none ↔ d.latestContent.length ≤ d.committedPrefixChars := by
  unfold StreamingDisplay.segment activeStreamingSegment
  simp only
  split
  · rename_i h
    exact iff_of_true rfl (List.drop_eq_nil_iff.mp h)
  · rename_i h
    exact iff_of_false (by simp) fun hle => h (List.drop_eq_nil_iff.mpr hle)

/-! ## Actions -/

inductive StreamingDisplayAction where
  | sendInitial (content : Text)
  | edit (messageId : Nat) (content : Text)
  deriving DecidableEq

/-- `next_streaming_display_action`.  The clock says whether the last edit is less than the
editing interval ago. -/
def nextStreamingDisplayAction (recentlyEdited : Bool) (d : StreamingDisplay) :
    Option StreamingDisplayAction × StreamingDisplay :=
  if d.terminalFailure ∨ d.latestContent = [] then (none, d)
  else
    let d := (tryRolloverStreamingSegment d).getD d
    match d.segment, d.messageId with
    | none, _ => (none, d)
    | some segment, none =>
        if d.sendInFlight ∨ d.displayedSegment.isSome ∨ d.initialSendAttempted then (none, d)
        else
          (some (.sendInitial segment.content),
            { d with initialSendAttempted := true, sendInFlight := true })
    | some segment, some messageId =>
        if d.editInFlight ∨ d.displayedSegment = some segment.content ∨
            (d.finalized = false ∧ recentlyEdited = true) then (none, d)
        else (some (.edit messageId segment.content), { d with editInFlight := true })

/-- A rollover is due. -/
def StreamingDisplay.RollsOver (d : StreamingDisplay) (segment : ActiveStreamingSegment) : Prop :=
  d.sendInFlight = false ∧ d.editInFlight = false ∧ segment.hasOverflow = true ∧
    d.displayedSegment = some segment.content

/-- What keeps the display from looking further at a segment. -/
inductive Waits (recentlyEdited : Bool) (d : StreamingDisplay) (segment : ActiveStreamingSegment) :
    Prop where
  | send (hid : d.messageId = none)
      (h : d.sendInFlight = true ∨ d.displayedSegment.isSome = true ∨
        d.initialSendAttempted = true)
  | edit {messageId : Nat} (hid : d.messageId = some messageId)
      (h : d.editInFlight = true ∨ d.displayedSegment = some segment.content ∨
        d.finalized = false ∧ recentlyEdited = true)

/-- What the next action can be, one constructor for each. -/
inductive NextAction (recentlyEdited : Bool) (d : StreamingDisplay) :
    Option StreamingDisplayAction → StreamingDisplay → Prop where
  | failed (h : d.terminalFailure = true) : NextAction recentlyEdited d none d
  | empty (h : d.segment = none) : NextAction recentlyEdited d none d
  | waits {segment} (hfail : d.terminalFailure = false) (hsegment : d.segment = some segment)
      (hroll : ¬ d.RollsOver segment) (hwaits : Waits recentlyEdited d segment) :
      NextAction recentlyEdited d none d
  | send {segment} (hfail : d.terminalFailure = false) (hsegment : d.segment = some segment)
      (hid : d.messageId = none) (hsend : d.sendInFlight = false)
      (hdisplayed : d.displayedSegment = none) (hattempted : d.initialSendAttempted = false) :
      NextAction recentlyEdited d (some (.sendInitial segment.content))
        { d with initialSendAttempted := true, sendInFlight := true }
  | rollover {segment next} (hfail : d.terminalFailure = false)
      (hsegment : d.segment = some segment) (hroll : d.RollsOver segment)
      (hnext : (d.rollOver segment).segment = some next) :
      NextAction recentlyEdited d (some (.sendInitial next.content))
        { d.rollOver segment with initialSendAttempted := true, sendInFlight := true }
  | edit {segment messageId} (hfail : d.terminalFailure = false)
      (hsegment : d.segment = some segment) (hid : d.messageId = some messageId)
      (hedit : d.editInFlight = false) (hdisplayed : d.displayedSegment ≠ some segment.content) :
      NextAction recentlyEdited d (some (.edit messageId segment.content))
        { d with editInFlight := true }

theorem tryRollover_of_rollsOver {d : StreamingDisplay} {segment : ActiveStreamingSegment}
    (hfail : d.terminalFailure = false) (hsegment : d.segment = some segment)
    (h : d.RollsOver segment) : tryRolloverStreamingSegment d = some (d.rollOver segment) := by
  obtain ⟨hsend, hedit, hover, hdisplayed⟩ := h
  simp [tryRolloverStreamingSegment, hfail, hsegment, hsend, hedit, hover, hdisplayed]

theorem tryRollover_of_not {d : StreamingDisplay}
    (h : ∀ segment, d.segment = some segment → ¬ d.RollsOver segment) :
    tryRolloverStreamingSegment d = none := by
  unfold tryRolloverStreamingSegment
  split
  · rfl
  · rename_i hflight
    push Not at hflight
    obtain ⟨hsend, hedit, -⟩ := hflight
    split
    · rfl
    · rename_i segment hsegment
      split
      · rfl
      · rename_i hneither
        push Not at hneither
        have hover := eq_true_of_ne_false hneither.1
        exact absurd ⟨Bool.eq_false_iff.mpr hsend, Bool.eq_false_iff.mpr hedit,
          hover, hneither.2⟩ (h segment hsegment)

/-- There is text for the next message after a rollover. -/
theorem exists_segment_rollOver {d : StreamingDisplay} {segment : ActiveStreamingSegment}
    (hsegment : d.segment = some segment) (hover : segment.hasOverflow = true) :
    ∃ next, (d.rollOver segment).segment = some next := by
  cases hnext : (d.rollOver segment).segment with
  | some next => exact ⟨next, rfl⟩
  | none =>
      have hle := segment_eq_none_iff.mp hnext
      have hlt := (isSegment_of_segment hsegment).overflow.mp hover
      simp only [StreamingDisplay.rollOver] at hle
      omega

/-- **The next action is one of the listed ones.** -/
theorem nextAction_spec (recentlyEdited : Bool) (d : StreamingDisplay) :
    NextAction recentlyEdited d (nextStreamingDisplayAction recentlyEdited d).1
      (nextStreamingDisplayAction recentlyEdited d).2 := by
  unfold nextStreamingDisplayAction
  split
  · rename_i h
    rcases h with hfail | hempty
    · exact .failed hfail
    · exact .empty (segment_eq_none_iff.mpr (by simp [hempty]))
  · rename_i h
    push Not at h
    have hfail := Bool.eq_false_iff.mpr h.1
    cases hsegment : d.segment with
    | none =>
        rw [tryRollover_of_not (by simp [hsegment])]
        simp only [Option.getD_none, hsegment]
        exact .empty hsegment
    | some segment =>
        by_cases hroll : d.RollsOver segment
        · obtain ⟨next, hnext⟩ := exists_segment_rollOver hsegment hroll.2.2.1
          rw [tryRollover_of_rollsOver hfail hsegment hroll]
          have hid : (d.rollOver segment).messageId = none := rfl
          have hnot : ¬ ((d.rollOver segment).sendInFlight = true ∨
              (d.rollOver segment).displayedSegment.isSome = true ∨
              (d.rollOver segment).initialSendAttempted = true) := by
            simp [StreamingDisplay.rollOver, hroll.1]
          simp only [Option.getD_some, hnext, hid, if_neg hnot]
          exact .rollover hfail hsegment hroll hnext
        · rw [tryRollover_of_not fun segment' h' => by
            rw [hsegment] at h'
            cases h'
            exact hroll]
          simp only [Option.getD_none, hsegment]
          cases hid : d.messageId with
          | none =>
              simp only
              split
              · rename_i hwaits
                exact .waits hfail hsegment hroll (.send hid hwaits)
              · rename_i hfree
                push Not at hfree
                obtain ⟨hsend, hdisplayed, hattempted⟩ := hfree
                have hnext : NextAction recentlyEdited d _ _ :=
                  .send hfail hsegment hid (Bool.eq_false_iff.mpr hsend)
                    (Option.not_isSome_iff_eq_none.mp hdisplayed)
                    (Bool.eq_false_iff.mpr hattempted)
                rwa [hid] at hnext
          | some messageId =>
              simp only
              split
              · rename_i hwaits
                exact .waits hfail hsegment hroll (.edit hid hwaits)
              · rename_i hfree
                push Not at hfree
                have hnext : NextAction recentlyEdited d _ _ :=
                  .edit hfail hsegment hid (Bool.eq_false_iff.mpr hfree.1) hfree.2.1
                rwa [hid] at hnext

theorem nextAction_of_eq {recentlyEdited : Bool} {d d' : StreamingDisplay}
    {action : Option StreamingDisplayAction}
    (h : nextStreamingDisplayAction recentlyEdited d = (action, d')) :
    NextAction recentlyEdited d action d' := by
  have hspec := nextAction_spec recentlyEdited d
  rwa [h] at hspec

theorem latestContent_next {recentlyEdited : Bool} {d d' : StreamingDisplay}
    {action : Option StreamingDisplayAction} (h : NextAction recentlyEdited d action d') :
    d'.latestContent = d.latestContent ∧ d'.finalized = d.finalized := by
  cases h <;> exact ⟨rfl, rfl⟩

/-- How a send turns out: the channel names the message, or does not, or fails. -/
inductive SendResult where
  | withId
  | withoutId
  | failed (error : Text)
  deriving DecidableEq

/-- The display after a send, and whether the next action is looked for. -/
def StreamingDisplay.sendCompleted (d : StreamingDisplay) (content : Text) (messageId : Nat) :
    SendResult → StreamingDisplay × Bool
  | .withId =>
      ({ d with
          sendInFlight := false
          messageId := some messageId
          displayedSegment := some content
          errorMessage := none }, true)
  | .withoutId =>
      ({ d with sendInFlight := false, displayedSegment := some content, errorMessage := none },
        false)
  | .failed error =>
      ({ d with sendInFlight := false, errorMessage := some error, terminalFailure := true },
        false)

/-- The display after an edit, and whether the next action is looked for. -/
def StreamingDisplay.editCompleted (d : StreamingDisplay) (content : Text) :
    Option Text → StreamingDisplay × Bool
  | some error =>
      ({ d with editInFlight := false, errorMessage := some error, terminalFailure := true },
        false)
  | none =>
      ({ d with editInFlight := false, displayedSegment := some content, errorMessage := none },
        true)

/-! ## Finalizing -/

/-- What the finalizer does after a look at the display. -/
inductive PollOutcome where
  | fail (error : FrameworkError)
  | done
  | fallback
  | again
  deriving DecidableEq

/-- The checks of the loop of `finalize_streaming_display`, in its order. -/
def finalizePoll (d : StreamingDisplay) (content : Text) : PollOutcome :=
  if d.sendInFlight ∨ d.editInFlight then .again
  else
    match d.terminalFailure, d.errorMessage with
    | true, some error =>
        if d.messageId.isSome ∨ d.displayedSegment.isSome ∨ d.committedPrefixChars > 0 then
          .fail (.tool error)
        else rest
    | _, _ => rest
where
  /-- The exits after that of a failed send or edit. -/
  rest : PollOutcome :=
    if d.committedPrefixChars = content.length then .done
    else if (d.segment.any fun segment => d.displayedSegment = some segment.content) ∧
        d.committedPrefixChars + (d.segment.elim 0 (·.visibleChars)) = content.length then .done
    else if d.messageId = none ∧ d.displayedSegment = none then .fallback
    else .again

/-- What a look of the finalizer at a display without a task in flight means. -/
inductive Poll (d : StreamingDisplay) (content : Text) : PollOutcome → Prop where
  | inFlight (h : d.sendInFlight = true ∨ d.editInFlight = true) : Poll d content .again
  | failed {error} (hfail : d.terminalFailure = true) (herror : d.errorMessage = some error)
      (hshown : d.messageId.isSome = true ∨ d.displayedSegment.isSome = true ∨
        0 < d.committedPrefixChars) : Poll d content (.fail (.tool error))
  | committed (hsend : d.sendInFlight = false) (hedit : d.editInFlight = false)
      (hlength : d.committedPrefixChars = content.length) : Poll d content .done
  | shown {segment} (hsend : d.sendInFlight = false) (hedit : d.editInFlight = false)
      (hsegment : d.segment = some segment) (hdisplayed : d.displayedSegment = some segment.content)
      (hlength : d.committedPrefixChars + segment.visibleChars = content.length) :
      Poll d content .done
  | fallback (hsend : d.sendInFlight = false) (hedit : d.editInFlight = false)
      (hid : d.messageId = none) (hdisplayed : d.displayedSegment = none)
      (hlength : d.committedPrefixChars ≠ content.length)
      (hfailed : d.terminalFailure = true → d.errorMessage.isSome = true →
        d.committedPrefixChars = 0) : Poll d content .fallback
  | again (hsend : d.sendInFlight = false) (hedit : d.editInFlight = false)
      (hfailed : d.terminalFailure = true → d.errorMessage = none)
      (hlength : d.committedPrefixChars ≠ content.length)
      (hsegment : ∀ segment, d.segment = some segment →
        d.displayedSegment = some segment.content →
          d.committedPrefixChars + segment.visibleChars ≠ content.length)
      (hshown : d.messageId.isSome = true ∨ d.displayedSegment.isSome = true) :
      Poll d content .again

/-- The exits after that of a failed send or edit, when that one is not taken. -/
theorem poll_rest {d : StreamingDisplay} {content : Text} (hsend : d.sendInFlight = false)
    (hedit : d.editInFlight = false)
    (hfailed : d.terminalFailure = true → d.errorMessage.isSome = true →
      d.messageId = none ∧ d.displayedSegment = none ∧ d.committedPrefixChars = 0) :
    Poll d content (finalizePoll.rest d content) := by
  unfold finalizePoll.rest
  split
  · exact .committed hsend hedit ‹_›
  · rename_i hlength
    split
    · rename_i hshown
      obtain ⟨hany, hvisible⟩ := hshown
      cases hsegment : d.segment with
      | none =>
          rw [hsegment] at hany
          cases hany
      | some segment =>
          rw [hsegment] at hany hvisible
          exact .shown hsend hedit hsegment (of_decide_eq_true hany) hvisible
    · rename_i hnot
      split
      · rename_i hnone
        exact .fallback hsend hedit hnone.1 hnone.2 hlength
          fun hfail herror => (hfailed hfail herror).2.2
      · rename_i hsome
        have hshown : d.messageId.isSome = true ∨ d.displayedSegment.isSome = true := by
          rw [not_and_or] at hsome
          exact hsome.imp Option.isSome_iff_ne_none.mpr Option.isSome_iff_ne_none.mpr
        refine .again hsend hedit ?_ hlength ?_ hshown
        · intro hfail
          by_contra herror
          obtain ⟨hid, hdisplayed, -⟩ := hfailed hfail (Option.isSome_iff_ne_none.mpr herror)
          exact hsome ⟨hid, hdisplayed⟩
        · intro segment hsegment hdisplayed hvisible
          refine hnot ?_
          rw [hsegment]
          exact ⟨decide_eq_true hdisplayed, hvisible⟩

/-- **Every look of the finalizer is one of the listed ones.** -/
theorem poll_spec (d : StreamingDisplay) (content : Text) :
    Poll d content (finalizePoll d content) := by
  unfold finalizePoll
  split
  · exact .inFlight ‹_›
  · rename_i hflight
    rw [not_or] at hflight
    have hsend := Bool.eq_false_iff.mpr hflight.1
    have hedit := Bool.eq_false_iff.mpr hflight.2
    split
    · rename_i error hfail herror
      split
      · exact .failed hfail herror ‹_›
      · rename_i hnone
        refine poll_rest hsend hedit fun _ _ => ?_
        rw [not_or, not_or] at hnone
        exact ⟨Option.not_isSome_iff_eq_none.mp hnone.1,
          Option.not_isSome_iff_eq_none.mp hnone.2.1, Nat.eq_zero_of_not_pos hnone.2.2⟩
    · rename_i hnot
      refine poll_rest hsend hedit fun hfail herror => ?_
      obtain ⟨error, herror⟩ := Option.isSome_iff_exists.mp herror
      exact absurd herror (hnot error hfail)

/-- The display will not be touched by looking for the next action. -/
def StreamingDisplay.Quiet (d : StreamingDisplay) : Prop :=
  ∀ recentlyEdited, nextStreamingDisplayAction recentlyEdited d = (none, d)

/-- There is text to send, and nothing that keeps it from being sent. -/
def StreamingDisplay.Sendable (d : StreamingDisplay) : Prop :=
  d.terminalFailure = false ∧ d.messageId = none ∧ d.displayedSegment = none ∧
    d.sendInFlight = false ∧ d.segment ≠ none

/-! ## The messages behind the display -/

/-- The content is not too long for a message. -/
def StreamingDisplay.Fits (d : StreamingDisplay) (content : Text) : Prop :=
  ∀ limit, d.channelLimit = some limit → content.length ≤ limit

theorem IsSegment.fits_content {d : StreamingDisplay} {segment : ActiveStreamingSegment}
    (h : IsSegment d segment) : d.Fits segment.content := by
  intro limit hlimit
  rw [h.length]
  exact h.fits limit hlimit

/-- At most one task is in flight, the one the flags say. -/
inductive TasksMatch (d : StreamingDisplay) : List StreamingDisplayAction → Prop where
  | none (hsend : d.sendInFlight = false) (hedit : d.editInFlight = false) : TasksMatch d []
  | send {content} (hsend : d.sendInFlight = true) (hedit : d.editInFlight = false)
      (hid : d.messageId = none) (hdisplayed : d.displayedSegment = none)
      (hfail : d.terminalFailure = false) (hfits : d.Fits content) :
      TasksMatch d [.sendInitial content]
  | edit {messageId content} (hsend : d.sendInFlight = false) (hedit : d.editInFlight = true)
      (hid : d.messageId = some messageId) (hfail : d.terminalFailure = false)
      (hfits : d.Fits content) : TasksMatch d [.edit messageId content]

/-- The messages that were left as they are: all but the one on display. -/
def committedMessages (d : StreamingDisplay) (messages : List Text) : List Text :=
  match d.displayedSegment with
  | none => messages
  | some _ => messages.dropLast

/-- The messages of the channel against the display. -/
structure Consistent (d : StreamingDisplay) (tasks : List StreamingDisplayAction)
    (messages : List Text) : Prop where
  tasks : TasksMatch d tasks
  shown : messages = committedMessages d messages ++ d.displayedSegment.toList
  committed : (committedMessages d messages).flatten.length = d.committedPrefixChars
  current : ∀ messageId, d.messageId = some messageId →
    messageId = (committedMessages d messages).length ∧ d.displayedSegment.isSome = true
  failed : d.terminalFailure = true → d.errorMessage.isSome = true
  unattempted : d.messageId = none → d.displayedSegment = none → d.sendInFlight = false →
    d.terminalFailure = false → d.initialSendAttempted = false
  fits : ∀ content ∈ messages, d.Fits content

section Consistent

variable {d d' : StreamingDisplay} {tasks : List StreamingDisplayAction} {messages : List Text}

theorem consistent_new (channelLimit : Option Nat) : Consistent (.new channelLimit) [] [] where
  tasks := .none rfl rfl
  shown := rfl
  committed := rfl
  current := fun _ h => by cases h
  failed := fun h => by cases h
  unattempted := fun _ _ _ _ => rfl
  fits := fun _ h => by cases h

theorem committedMessages_of_none (h : d.displayedSegment = none) :
    committedMessages d messages = messages := by rw [committedMessages, h]

theorem committedMessages_append {content : Text} (h : d.displayedSegment = some content) :
    committedMessages d (messages ++ [content]) = messages := by
  rw [committedMessages, h]
  exact List.dropLast_concat

namespace Consistent

/-- New text changes nothing of what is shown. -/
theorem withContent (h : Consistent d tasks messages) (latestContent : Text) (finalized : Bool) :
    Consistent { d with latestContent, finalized } tasks messages where
  tasks := by
    cases h.tasks with
    | none hsend hedit => exact .none hsend hedit
    | send hsend hedit hid hdisplayed hfail hfits =>
        exact .send hsend hedit hid hdisplayed hfail hfits
    | edit hsend hedit hid hfail hfits => exact .edit hsend hedit hid hfail hfits
  shown := h.shown
  committed := h.committed
  current := h.current
  failed := h.failed
  unattempted := h.unattempted
  fits := h.fits

theorem tasks_eq_nil (h : Consistent d tasks messages) (hsend : d.sendInFlight = false)
    (hedit : d.editInFlight = false) : tasks = [] := by
  cases h.tasks with
  | none _ _ => rfl
  | send hsend' => rw [hsend] at hsend'; cases hsend'
  | edit _ hedit' => rw [hedit] at hedit'; cases hedit'

/-- A task in flight is alone, and nothing has failed. -/
theorem alone (h : Consistent d tasks messages) {task : Nat} {action : StreamingDisplayAction}
    (htask : tasks[task]? = some action) :
    tasks.eraseIdx task = [] ∧ d.terminalFailure = false := by
  cases h.tasks with
  | none => cases htask
  | send _ _ _ _ hfail =>
      obtain rfl : task = 0 := by
        simpa using (List.getElem?_eq_some_iff.mp htask).1
      exact ⟨rfl, hfail⟩
  | edit _ _ _ hfail =>
      obtain rfl : task = 0 := by
        simpa using (List.getElem?_eq_some_iff.mp htask).1
      exact ⟨rfl, hfail⟩

/-- No message is named while one is sent. -/
theorem messageId_of_send (h : Consistent d tasks messages) {task : Nat} {content : Text}
    (htask : tasks[task]? = some (.sendInitial content)) : d.messageId = none := by
  cases h.tasks with
  | none => cases htask
  | send _ _ hid => exact hid
  | edit =>
      obtain ⟨-, htask⟩ := List.mem_singleton.mp (List.mem_of_getElem? htask)

/-- The message that is edited is named. -/
theorem messageId_of_edit (h : Consistent d tasks messages) {task messageId : Nat}
    {content : Text} (htask : tasks[task]? = some (.edit messageId content)) :
    d.messageId = some messageId := by
  cases h.tasks with
  | none => cases htask
  | send =>
      obtain ⟨-, htask⟩ := List.mem_singleton.mp (List.mem_of_getElem? htask)
  | edit _ _ hid =>
      obtain ⟨rfl, -⟩ : messageId = _ ∧ _ := by
        simpa using List.mem_singleton.mp (List.mem_of_getElem? htask)
      exact hid

/-- **Looking for the next action keeps the messages consistent with the display.** -/
theorem next (h : Consistent d tasks messages) {recentlyEdited : Bool}
    {action : Option StreamingDisplayAction} (hnext : NextAction recentlyEdited d action d') :
    Consistent d' (tasks ++ action.toList) messages := by
  cases hnext with
  | failed _ => simpa using h
  | empty _ => simpa using h
  | waits _ _ _ _ => simpa using h
  | @send segment hfail hsegment hid hsend hdisplayed hattempted =>
      have hedit : d.editInFlight = false := by
        cases h.tasks with
        | none _ hedit => exact hedit
        | send hsend' => rw [hsend] at hsend'; cases hsend'
        | edit _ _ hid' => rw [hid] at hid'; cases hid'
      obtain rfl := h.tasks_eq_nil hsend hedit
      exact
        { tasks := .send rfl hedit hid hdisplayed hfail
            (isSegment_of_segment hsegment).fits_content
          shown := h.shown
          committed := h.committed
          current := h.current
          failed := h.failed
          unattempted := fun _ _ hsend' => by cases hsend'
          fits := h.fits }
  | @rollover segment next hfail hsegment hroll hnext =>
      obtain ⟨hsend, hedit, hover, hdisplayed⟩ := hroll
      obtain rfl := h.tasks_eq_nil hsend hedit
      have hfits : d.Fits next.content := (isSegment_of_segment hnext).fits_content
      exact
        { tasks := .send rfl hedit rfl rfl hfail hfits
          shown := (List.append_nil _).symm
          committed := by
            -- the message on display is committed with the others
            have hshown := h.shown
            rw [hdisplayed] at hshown
            have hchars := h.committed
            rw [committedMessages_of_none rfl]
            rw [hshown, List.flatten_append, List.length_append, hchars]
            simp [StreamingDisplay.rollOver, (isSegment_of_segment hsegment).length]
          current := fun _ hid => by cases hid
          failed := fun hfail' => by
            rw [show d.terminalFailure = true from hfail'] at hfail
            cases hfail
          unattempted := fun _ _ hsend' => by cases hsend'
          fits := h.fits }
  | @edit segment messageId hfail hsegment hid hedit hdisplayed =>
      have hsend : d.sendInFlight = false := by
        cases h.tasks with
        | none hsend _ => exact hsend
        | send _ _ hid' => rw [hid] at hid'; cases hid'
        | edit hsend _ => exact hsend
      obtain rfl := h.tasks_eq_nil hsend hedit
      exact
        { tasks := .edit hsend rfl hid hfail (isSegment_of_segment hsegment).fits_content
          shown := h.shown
          committed := h.committed
          current := h.current
          failed := h.failed
          unattempted := h.unattempted
          fits := h.fits }

/-- A message that was sent is the one on display. -/
theorem of_sent (h : Consistent d tasks messages) {content : Text}
    (hdone : committedMessages d messages = messages) (hfits : d.Fits content)
    (hd' : d'.displayedSegment = some content) (hsend : d'.sendInFlight = false)
    (hedit : d'.editInFlight = false) (hfail : d'.terminalFailure = false)
    (hlimit : d'.channelLimit = d.channelLimit)
    (hchars : d'.committedPrefixChars = d.committedPrefixChars)
    (hid : ∀ messageId, d'.messageId = some messageId → messageId = messages.length) :
    Consistent d' [] (messages ++ [content]) where
  tasks := .none hsend hedit
  shown := by rw [committedMessages_append hd', hd', Option.toList_some]
  committed := by
    have hcommitted := h.committed
    rw [hdone] at hcommitted
    rw [committedMessages_append hd', hchars, hcommitted]
  current := by
    intro messageId hmessage
    rw [committedMessages_append hd', hd']
    exact ⟨hid messageId hmessage, rfl⟩
  failed := fun hfail' => by rw [hfail] at hfail'; cases hfail'
  unattempted := fun _ hnone => by rw [hd'] at hnone; cases hnone
  fits := by
    intro content' hcontent' limit hlimit'
    rw [hlimit] at hlimit'
    rcases List.mem_append.mp hcontent' with hold | hnew
    · exact h.fits content' hold limit hlimit'
    · obtain rfl := List.mem_singleton.mp hnew
      exact hfits limit hlimit'

/-- A task that fails leaves the messages as they are. -/
theorem of_failed (h : Consistent d tasks messages) (hsend : d'.sendInFlight = false)
    (hedit : d'.editInFlight = false) (hfail : d'.terminalFailure = true)
    (herror : d'.errorMessage.isSome = true) (hlimit : d'.channelLimit = d.channelLimit)
    (hchars : d'.committedPrefixChars = d.committedPrefixChars)
    (hdisplayed : d'.displayedSegment = d.displayedSegment)
    (hid : d'.messageId = d.messageId) : Consistent d' [] messages where
  tasks := .none hsend hedit
  shown := by
    rw [committedMessages, hdisplayed]
    exact h.shown
  committed := by
    rw [committedMessages, hdisplayed, hchars]
    exact h.committed
  current := by
    rw [committedMessages, hdisplayed, hid]
    exact h.current
  failed := fun _ => herror
  unattempted := fun _ _ _ hfail' => by rw [hfail] at hfail'; cases hfail'
  fits := by
    intro content hcontent limit hlimit'
    rw [hlimit] at hlimit'
    exact h.fits content hcontent limit hlimit'

/-- **A send that is over leaves the messages consistent with the display.** -/
theorem sendCompleted (h : Consistent d tasks messages) {task : Nat} {content : Text}
    (htask : tasks[task]? = some (.sendInitial content)) (result : SendResult) :
    Consistent (d.sendCompleted content messages.length result).1 (tasks.eraseIdx task)
      (match result with
        | .withId | .withoutId => messages ++ [content]
        | .failed _ => messages) := by
  cases h.tasks with
  | none => cases htask
  | edit =>
      obtain ⟨-, htask⟩ := List.mem_singleton.mp (List.mem_of_getElem? htask)
  | @send content' hsend hedit hid hdisplayed hfail hfits =>
      obtain rfl : task = 0 := by
        simpa using (List.getElem?_eq_some_iff.mp htask).1
      obtain rfl : content' = content := by simpa using htask
      have hdone : committedMessages d messages = messages := committedMessages_of_none hdisplayed
      cases result with
      | withId =>
          exact h.of_sent hdone hfits rfl rfl hedit hfail rfl rfl
            fun messageId hmessage => (Option.some.inj hmessage).symm
      | withoutId =>
          refine h.of_sent hdone hfits rfl rfl hedit hfail rfl rfl fun messageId hmessage => ?_
          rw [show d.messageId = some messageId from hmessage] at hid
          cases hid
      | failed error => exact h.of_failed rfl hedit rfl rfl rfl rfl rfl rfl

/-- The message on display is the last one. -/
theorem set_current (h : Consistent d tasks messages) {messageId : Nat}
    (hid : d.messageId = some messageId) (content : Text) :
    messages.set messageId content = committedMessages d messages ++ [content] := by
  obtain ⟨hindex, hsome⟩ := h.current messageId hid
  obtain ⟨old, hold⟩ := Option.isSome_iff_exists.mp hsome
  have hshown := h.shown
  rw [hold, Option.toList_some] at hshown
  calc messages.set messageId content
      = (committedMessages d messages ++ [old]).set (committedMessages d messages).length
          content := by rw [hindex, ← hshown]
    _ = committedMessages d messages ++ [content] := by
        rw [List.set_append_right _ _ (Nat.le_refl _), Nat.sub_self]
        rfl

/-- **An edit that is over leaves the messages consistent with the display.** -/
theorem editCompleted (h : Consistent d tasks messages) {task messageId : Nat} {content : Text}
    (htask : tasks[task]? = some (.edit messageId content)) (error : Option Text) :
    Consistent (d.editCompleted content error).1 (tasks.eraseIdx task)
      (match error with
        | none => messages.set messageId content
        | some _ => messages) := by
  cases h.tasks with
  | none => cases htask
  | send =>
      obtain ⟨-, htask⟩ := List.mem_singleton.mp (List.mem_of_getElem? htask)
  | @edit messageId' content' hsend hedit hid hfail hfits =>
      obtain rfl : task = 0 := by
        simpa using (List.getElem?_eq_some_iff.mp htask).1
      obtain ⟨rfl, rfl⟩ : messageId' = messageId ∧ content' = content := by simpa using htask
      cases error with
      | some error => exact h.of_failed hsend rfl rfl rfl rfl rfl rfl rfl
      | none =>
          have hset := h.set_current hid content'
          have hcommitted : committedMessages (d.editCompleted content' none).1
              (messages.set messageId' content') = committedMessages d messages := by
            rw [hset]
            exact committedMessages_append rfl
          exact
            { tasks := .none hsend rfl
              shown := by
                rw [hcommitted, hset]
                rfl
              committed := by
                rw [hcommitted]
                exact h.committed
              current := by
                intro messageId hmessage
                rw [hcommitted]
                exact ⟨(h.current messageId hmessage).1, rfl⟩
              failed := fun hfail' => by
                rw [show d.terminalFailure = true from hfail'] at hfail
                cases hfail
              unattempted := fun _ hnone => by cases hnone
              fits := Table.forall_mem_set h.fits hfits }

/-- What can be sent is, when the next action is looked for. -/
theorem not_sendable_next (h : Consistent d tasks messages) {recentlyEdited : Bool}
    {action : Option StreamingDisplayAction} (hnext : NextAction recentlyEdited d action d') :
    ¬ d'.Sendable := by
  rintro ⟨hfail', hid', hdisplayed', hsend', hsegment'⟩
  cases hnext with
  | failed hfail => rw [hfail] at hfail'; cases hfail'
  | empty hsegment => exact hsegment' hsegment
  | waits _ _ _ hwaits =>
      cases hwaits with
      | send _ hwaits =>
          rw [hsend', hdisplayed', h.unattempted hid' hdisplayed' hsend' hfail'] at hwaits
          simp at hwaits
      | edit hid => rw [hid] at hid'; cases hid'
  | send => cases hsend'
  | rollover => cases hsend'
  | edit _ _ hid => rw [show d.messageId = none from hid'] at hid; cases hid

end Consistent

/-- A display on which nothing is due is quiet. -/
theorem quiet_of_forall {d : StreamingDisplay}
    (h : ∀ recentlyEdited action d', NextAction recentlyEdited d action d' →
      action = none ∧ d' = d) : d.Quiet := by
  intro recentlyEdited
  obtain ⟨haction, hd⟩ := h recentlyEdited _ _ (nextAction_spec recentlyEdited d)
  exact Prod.ext haction hd

/-- A failed display is quiet, and so is one with all its text committed. -/
theorem quiet_of_failed {d : StreamingDisplay} (hfail : d.terminalFailure = true) : d.Quiet := by
  refine quiet_of_forall fun recentlyEdited action d' hnext => ?_
  cases hnext with
  | failed _ => exact ⟨rfl, rfl⟩
  | empty _ => exact ⟨rfl, rfl⟩
  | waits hfail' => rw [hfail] at hfail'; cases hfail'
  | send hfail' => rw [hfail] at hfail'; cases hfail'
  | rollover hfail' => rw [hfail] at hfail'; cases hfail'
  | edit hfail' => rw [hfail] at hfail'; cases hfail'

theorem quiet_of_committed {d : StreamingDisplay} (hsegment : d.segment = none) : d.Quiet := by
  refine quiet_of_forall fun recentlyEdited action d' hnext => ?_
  cases hnext with
  | failed _ => exact ⟨rfl, rfl⟩
  | empty _ => exact ⟨rfl, rfl⟩
  | waits _ hsome => rw [hsegment] at hsome; cases hsome
  | send _ hsome => rw [hsegment] at hsome; cases hsome
  | rollover _ hsome => rw [hsegment] at hsome; cases hsome
  | edit _ hsome => rw [hsegment] at hsome; cases hsome

/-- A display that shows the whole segment, and nothing beyond it is left, is quiet. -/
theorem quiet_of_shown {d : StreamingDisplay} {segment : ActiveStreamingSegment}
    (hsegment : d.segment = some segment) (hdisplayed : d.displayedSegment = some segment.content)
    (hover : segment.hasOverflow = false) : d.Quiet := by
  refine quiet_of_forall fun recentlyEdited action d' hnext => ?_
  cases hnext with
  | failed _ => exact ⟨rfl, rfl⟩
  | empty _ => exact ⟨rfl, rfl⟩
  | waits _ _ _ _ => exact ⟨rfl, rfl⟩
  | send _ _ _ _ hnone => rw [hdisplayed] at hnone; cases hnone
  | rollover _ hsegment' hroll =>
      rw [hsegment] at hsegment'
      cases hsegment'
      have hover' := hroll.2.2.1
      rw [hover] at hover'
      cases hover'
  | edit _ hsegment' _ _ hne =>
      rw [hsegment] at hsegment'
      cases hsegment'
      exact absurd hdisplayed hne

/-- A display without a message, and nothing to send, is quiet. -/
theorem quiet_of_not_sendable {d : StreamingDisplay} (hid : d.messageId = none)
    (hdisplayed : d.displayedSegment = none) (hnot : ¬ d.Sendable) : d.Quiet := by
  refine quiet_of_forall fun recentlyEdited action d' hnext => ?_
  cases hnext with
  | failed _ => exact ⟨rfl, rfl⟩
  | empty _ => exact ⟨rfl, rfl⟩
  | waits _ _ _ _ => exact ⟨rfl, rfl⟩
  | send hfail hsegment _ hsend _ _ =>
      exact absurd ⟨hfail, hid, hdisplayed, hsend, by simp [hsegment]⟩ hnot
  | rollover _ _ hroll =>
      have hsome := hroll.2.2.2
      rw [hdisplayed] at hsome
      cases hsome
  | edit _ _ hsome => rw [hid] at hsome; cases hsome

/-- **When the finalizer stops looking, nothing is in flight and the display is quiet.** -/
theorem quiet_of_poll {d : StreamingDisplay} {tasks : List StreamingDisplayAction}
    {messages : List Text} {content : Text} (h : Consistent d tasks messages)
    (hcontent : d.latestContent = content) (hlooked : ¬ d.Sendable) {outcome : PollOutcome}
    (hpoll : Poll d content outcome) (hstop : outcome ≠ .again) : tasks = [] ∧ d.Quiet := by
  cases hpoll with
  | inFlight => exact absurd rfl hstop
  | again => exact absurd rfl hstop
  | failed hfail =>
      refine ⟨?_, quiet_of_failed hfail⟩
      cases h.tasks with
      | none => rfl
      | send _ _ _ _ hfail' => rw [hfail] at hfail'; cases hfail'
      | edit _ _ _ hfail' => rw [hfail] at hfail'; cases hfail'
  | committed hsend hedit hlength =>
      refine ⟨h.tasks_eq_nil hsend hedit, quiet_of_committed (segment_eq_none_iff.mpr ?_)⟩
      rw [hcontent, hlength]
  | shown hsend hedit hsegment hdisplayed hlength =>
      refine ⟨h.tasks_eq_nil hsend hedit, quiet_of_shown hsegment hdisplayed ?_⟩
      rw [Bool.eq_false_iff, ne_eq, (isSegment_of_segment hsegment).overflow, hcontent, hlength]
      exact Nat.lt_irrefl _
  | fallback hsend hedit hid hdisplayed =>
      exact ⟨h.tasks_eq_nil hsend hedit, quiet_of_not_sendable hid hdisplayed hlooked⟩

end Consistent

end Streaming
end SimpleClaw
