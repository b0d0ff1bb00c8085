import SimpleClaw.Run.StreamingReply
import SimpleClaw.Run.StreamingRollover

/-!
# A display that stays with one text

What is handed to the display may be a new text at every step.  If it is only ever a beginning of
one text, the messages are a beginning of that text too, in every state: what is committed, what
is on display and what is in flight are all cut out of it, one after the other.

* `TurnAction.KeepsTo`: the actions that stay with a text, and `GivesOnly` for a list of them.
* `Turn.Shows`: the invariant of a turn that stays with a text, and `Turn.ShowsText` what it says
  of the messages.
* `showsText_of_givesOnly`: it holds in every state of every run of such actions.
-/

namespace SimpleClaw
namespace Streaming

open Transition

/-! ## What is cut out of the text -/

/-- What the turn has to say, once it is known. -/
def Stage.outbound : Stage → Option Text
  | .finalizing content | .polling content | .sendingWhole content | .returned content _ =>
      some content
  | .responding | .updating | .suppressed => none

/-- A task in flight is the only one. -/
theorem TasksMatch.eq_of_mem {d : StreamingDisplay} {tasks : List StreamingDisplayAction}
    (h : TasksMatch d tasks) {x y : StreamingDisplayAction} (hx : x ∈ tasks) (hy : y ∈ tasks) :
    x = y := by
  cases h with
  | none => cases hx
  | send => exact (List.mem_singleton.mp hx).trans (List.mem_singleton.mp hy).symm
  | edit => exact (List.mem_singleton.mp hx).trans (List.mem_singleton.mp hy).symm

theorem committedMessages_isPrefix (d : StreamingDisplay) (messages : List Text) :
    (committedMessages d messages).flatten <+: messages.flatten := by
  obtain ⟨rest, hrest⟩ : committedMessages d messages <+: messages := by
    rw [committedMessages]
    split
    · exact List.prefix_refl _
    · exact List.dropLast_prefix _
  refine ⟨rest.flatten, ?_⟩
  rw [← List.flatten_append, hrest]

/-- The segment goes on where the committed text ends. -/
theorem append_segment_isPrefix {d : StreamingDisplay} {segment : ActiveStreamingSegment}
    {committed reply : Text} (hsegment : d.segment = some segment)
    (hchars : committed.length = d.committedPrefixChars) (hcommitted : committed <+: reply)
    (hlatest : d.latestContent <+: reply) : committed ++ segment.content <+: reply := by
  have hsegment' := isSegment_of_segment hsegment
  have hle : committed.length ≤ d.latestContent.length := by
    have := hsegment'.le
    omega
  obtain ⟨rest, hrest⟩ := List.prefix_of_prefix_length_le hcommitted hlatest hle
  have htail : d.latestContent.drop d.committedPrefixChars = rest := by
    rw [← hrest, ← hchars, List.drop_left]
  have hcontent : segment.content <+: rest := by
    rw [hsegment'.content, htail]
    exact List.take_prefix _ _
  calc committed ++ segment.content
      <+: committed ++ rest := (List.prefix_append_right_inj committed).mpr hcontent
    _ = d.latestContent := hrest
    _ <+: reply := hlatest

/-- The text that the message of a task is to have. -/
def StreamingDisplayAction.content : StreamingDisplayAction → Text
  | .sendInitial content | .edit _ content => content

/-- What is sent or edited goes on where the committed text ends, also if the look for it has
committed the message on display. -/
theorem NextAction.append_content_isPrefix {recentlyEdited : Bool} {d d' : StreamingDisplay}
    {new : StreamingDisplayAction} {committed reply : Text}
    (h : NextAction recentlyEdited d (some new) d')
    (hchars : committed.length = d'.committedPrefixChars) (hcommitted : committed <+: reply)
    (hlatest : d.latestContent <+: reply) : committed ++ new.content <+: reply := by
  cases h with
  | send _ hsegment => exact append_segment_isPrefix hsegment hchars hcommitted hlatest
  | rollover _ _ _ hnext => exact append_segment_isPrefix hnext hchars hcommitted hlatest
  | edit _ hsegment => exact append_segment_isPrefix hsegment hchars hcommitted hlatest

theorem NextAction.eq_of_none {recentlyEdited : Bool} {d d' : StreamingDisplay}
    (h : NextAction recentlyEdited d none d') : d' = d := by
  cases h <;> rfl

/-! ## Actions that stay with the text -/

/-- The text of the model step after the action. -/
def TurnAction.textAfter (text : Text) : TurnAction → Text
  | .newStep => []
  | .textDelta delta => text ++ delta
  | .attempt _ | .retry _ | .sendCompleted _ _ | .editCompleted _ _ | .reply _ | .noReply _ | .poll
  | .wholeSent _ => text

/-- What the action gives to the display is a beginning of the reply, and in the end all of it. -/
def TurnAction.KeepsTo (reply text : Text) : TurnAction → Prop
  | .textDelta delta => text ++ delta <+: reply
  | .reply content => content = reply
  | .newStep | .attempt _ | .retry _ | .sendCompleted _ _ | .editCompleted _ _ | .noReply _ | .poll
  | .wholeSent _ => True

/-- All of the actions stay with the reply. -/
def GivesOnly (reply : Text) : Text → List TurnAction → Prop
  | _, [] => True
  | text, a :: as => a.KeepsTo reply text ∧ GivesOnly reply (a.textAfter text) as

/-- The actions of the turn itself; the others are those of the tasks and of the finalizer. -/
def TurnAction.isTurns : TurnAction → Bool
  | .newStep | .textDelta _ | .reply _ | .noReply _ => true
  | .attempt _ | .retry _ | .sendCompleted _ _ | .editCompleted _ _ | .poll | .wholeSent _ => false

/-- What the turn itself does along a trace. -/
def turnActions (tr : List (TurnAction × Turn)) : List TurnAction :=
  (tr.map Prod.fst).filter TurnAction.isTurns

section GivesOnly

variable {reply text : Text} {as bs : List TurnAction}

theorem givesOnly_append_iff : GivesOnly reply text (as ++ bs) ↔
    GivesOnly reply text as ∧ GivesOnly reply (as.foldl TurnAction.textAfter text) bs := by
  induction as generalizing text with
  | nil => exact ⟨fun h => ⟨trivial, h⟩, And.right⟩
  | cons a as ih =>
      rw [List.cons_append, GivesOnly, GivesOnly, List.foldl_cons, ih, and_assoc]

theorem GivesOnly.of_isPrefix (h : GivesOnly reply text bs) (hstart : as <+: bs) :
    GivesOnly reply text as := by
  obtain ⟨rest, rfl⟩ := hstart
  exact (givesOnly_append_iff.mp h).1

/-- The other actions give nothing to the display. -/
theorem GivesOnly.of_turns (h : GivesOnly reply text (as.filter TurnAction.isTurns)) :
    GivesOnly reply text as := by
  induction as generalizing text with
  | nil => trivial
  | cons a as ih =>
      by_cases hturns : a.isTurns = true
      · rw [List.filter_cons_of_pos hturns] at h
        exact ⟨h.1, ih h.2⟩
      · rw [List.filter_cons_of_neg hturns] at h
        -- they are not among the actions that do
        cases a <;> first | exact absurd rfl hturns | exact ⟨trivial, ih h⟩

/-- A model step whose text is a beginning of the reply. -/
theorem givesOnly_deltas {deltas : List Text} (h : text ++ deltas.flatten <+: reply) :
    GivesOnly reply text (deltas.map .textDelta) := by
  induction deltas generalizing text with
  | nil => trivial
  | cons delta deltas ih =>
      rw [List.flatten_cons, ← List.append_assoc] at h
      exact ⟨(List.prefix_append _ _).trans h, ih h⟩

end GivesOnly

namespace Turn

/-- The messages left behind, one after the other. -/
def committedText (s : Turn) : Text := (committedMessages s.display s.messages).flatten

/-- **The turn shows one text**: the messages are a beginning of it, all of it once the finalizer
has returned without an error, and none is too long but the text itself, which the finalizer may
have had to send whole. -/
structure ShowsText (reply : Text) (s : Turn) : Prop where
  begins : s.messages.flatten <+: reply
  shown : ∀ content, s.stage = .returned content (.ok ()) →
    content = reply ∧ s.messages.flatten = reply
  fits : ∀ content ∈ s.messages, s.display.Fits content ∨ content = reply

/-- The invariant of a turn whose steps stay with one text. -/
structure Shows (reply : Text) (s : Turn) : Prop where
  sound : s.Sound
  latest : s.display.latestContent <+: reply
  outbound : ∀ content, s.stage.outbound = some content → content = reply
  tasks : ∀ task ∈ s.tasks, s.committedText ++ task.content <+: reply
  bare : ∀ content, s.stage = .sendingWhole content → s.messages.flatten = []
  plain : s.streaming = false → s.stage.hasReturned = false → s.messages = []
  text : s.ShowsText reply

theorem shows_start (streaming : Bool) (channelLimit : Option Nat) (reply : Text) :
    (start streaming channelLimit).Shows reply where
  sound := sound_start streaming channelLimit
  latest := List.nil_prefix
  outbound := by rintro content ⟨⟩
  tasks := by rintro task ⟨⟩
  bare := by rintro content ⟨⟩
  plain := fun _ _ => rfl
  text := ⟨List.nil_prefix, by rintro content ⟨⟩, by rintro content ⟨⟩⟩

section Steps

variable {s s' : Turn} {a : TurnAction} {reply : Text}

/-- The messages are those left behind and the one on display, so those left behind are a
beginning too. -/
theorem Shows.committed (h : s.Shows reply) :
    s.committedText <+: reply :=
  (committedMessages_isPrefix s.display s.messages).trans h.text.begins

/-- A step that shows nothing new, while the finalizer has not returned. -/
theorem ShowsText.of_messages (h : s.ShowsText reply) (hmessages : s'.messages = s.messages)
    (hlimit : s'.display.channelLimit = s.display.channelLimit)
    (hstage : s'.stage.hasReturned = false) : s'.ShowsText reply where
  begins := by
    rw [hmessages]
    exact h.begins
  shown := by
    intro content hreturned
    rw [hreturned] at hstage
    cases hstage
  fits := by
    intro content hcontent
    rw [hmessages] at hcontent
    refine (h.fits content hcontent).imp_left fun hfits limit hlimit' => ?_
    rw [hlimit] at hlimit'
    exact hfits limit hlimit'

/-- **Looking for the next action**: what is sent or edited goes on after what was committed, also
if this look has committed the message on display. -/
theorem Shows.of_next (h : s.Shows reply) {recentlyEdited : Bool}
    {action : Option StreamingDisplayAction} (hsound : s'.Sound)
    (hnext : NextAction recentlyEdited s.display action s'.display)
    (htasks : s'.tasks = s.tasks ++ action.toList) (hmessages : s'.messages = s.messages)
    (hstreaming : s'.streaming = s.streaming) (hover : s.stage.isOver = false)
    (hover' : s'.stage.isOver = false) (houtbound : s'.stage.outbound = s.stage.outbound) :
    s'.Shows reply := by
  have hconsistent := hsound.consistent (hasReturned_of_not_over hover')
  have hcommitted : s'.committedText <+: reply := by
    refine (committedMessages_isPrefix _ _).trans ?_
    rw [hmessages]
    exact h.text.begins
  have hmatch : TasksMatch s'.display (s.tasks ++ action.toList) := htasks ▸ hconsistent.tasks
  refine
    { sound := hsound
      latest := by
        rw [(latestContent_next hnext).1]
        exact h.latest
      outbound := fun content hcontent => h.outbound content (houtbound ▸ hcontent)
      tasks := ?_
      bare := fun content hstage => by rw [hstage] at hover'; cases hover'
      plain := fun hplain _ => by
        rw [hmessages]
        exact h.plain (hstreaming ▸ hplain) (hasReturned_of_not_over hover)
      text := h.text.of_messages hmessages (channelLimit_next hnext)
        (hasReturned_of_not_over hover') }
  -- a task beside the new one would be a second one
  intro task htask
  rw [htasks] at htask
  cases action with
  | none =>
      rw [Option.toList_none, List.append_nil] at htask
      rw [committedText, hnext.eq_of_none, hmessages]
      exact h.tasks task htask
  | some new =>
      obtain rfl : task = new := hmatch.eq_of_mem htask (by simp)
      exact hnext.append_content_isPrefix hconsistent.committed hcommitted h.latest

/-- A message is shown: what was left behind, and a text that goes on after it. -/
theorem Shows.of_shown (h : s.Shows reply) {task : Nat} {action : StreamingDisplayAction}
    (htask : s.tasks[task]? = some action) (hsound : s'.Sound)
    (hlatest : s'.display.latestContent = s.display.latestContent)
    (htasks : s'.tasks = s.tasks.eraseIdx task) (hstage : s'.stage = s.stage)
    (hstreaming : s'.streaming = s.streaming)
    (hmessages : s'.messages.flatten <+: reply) : s'.Shows reply := by
  have hover := h.sound.not_over_of_task htask
  have hreturned := hasReturned_of_not_over hover
  have hconsistent := h.sound.consistent hreturned
  have hnil : s'.tasks = [] := htasks.trans (hconsistent.alone htask).1
  exact
    { sound := hsound
      latest := hlatest ▸ h.latest
      outbound := hstage ▸ h.outbound
      tasks := fun task htask => by rw [hnil] at htask; cases htask
      bare := fun content hwhole => by
        rw [← hstage, hwhole] at hover
        cases hover
      plain := fun hplain => by
        -- a turn that does not stream has no tasks
        rw [(h.sound.whole (hstreaming ▸ hplain)).1] at htask
        cases htask
      text :=
        { begins := hmessages
          shown := fun content hcontent => by
            rw [← hstage, hcontent] at hreturned
            cases hreturned
          fits := fun content hcontent =>
            .inl ((hsound.consistent (hstage ▸ hreturned)).fits content hcontent) } }

/-- The stage changes, and nothing else. -/
theorem Shows.of_stage (h : s.Shows reply) {stage : Stage} (hsound : Sound { s with stage })
    (hreturned : s.stage.hasReturned = false)
    (houtbound : ∀ content, stage.outbound = some content → content = reply)
    (hbare : ∀ content, stage = .sendingWhole content → s.messages.flatten = [])
    (hshown : ∀ content, stage = .returned content (.ok ()) →
      content = reply ∧ s.messages.flatten = reply) : Shows reply { s with stage } where
  sound := hsound
  latest := h.latest
  outbound := houtbound
  tasks := h.tasks
  bare := hbare
  plain := fun hplain _ => h.plain hplain hreturned
  text := ⟨h.text.begins, hshown, h.text.fits⟩

/-- When the finalizer is content with the display, the messages are the reply. -/
theorem Shows.flatten_of_done (h : s.Shows reply) {content : Text}
    (hstage : s.stage = .polling content) (hpoll : finalizePoll s.display content = .done) :
    s.messages.flatten = content := by
  have hconsistent := h.sound.consistent (by rw [hstage]; rfl)
  have hlatest := (h.sound.final content (.inr hstage)).1
  obtain rfl := h.outbound content (by rw [hstage]; rfl)
  refine (flatten_eq_iff_begins hconsistent hlatest hpoll).mpr ⟨h.committed, fun hall => ?_⟩
  -- nothing goes on after the whole reply
  have hbegins := h.text.begins
  rw [flatten_messages hconsistent, hall] at hbegins
  have hlength := hbegins.length_le
  rw [List.length_append] at hlength
  exact List.eq_nil_of_length_eq_zero (by omega)

/-- The finalizer sends the reply whole only if no text of it is shown yet. -/
theorem Shows.flatten_of_fallback (h : s.Shows reply) {content : Text}
    (hstage : s.stage = .polling content)
    (hpoll : finalizePoll s.display content = .fallback) : s.messages.flatten = [] := by
  have hconsistent := h.sound.consistent (by rw [hstage]; rfl)
  have hlatest := (h.sound.final content (.inr hstage)).1
  have hlooked := h.sound.looked content hstage
  obtain rfl := h.outbound content (by rw [hstage]; rfl)
  have hspec := poll_spec s.display content
  rw [hpoll] at hspec
  cases hspec with
  | fallback hsend _ hid hdisplayed hlength hfailed =>
      have hchars := hconsistent.committed
      have hzero : s.display.committedPrefixChars = 0 := by
        by_cases hfail : s.display.terminalFailure = true
        · exact hfailed hfail (hconsistent.failed hfail)
        · -- nothing has failed, so all the text is committed
          have hsegment : s.display.segment = none := by
            by_contra hne
            exact hlooked ⟨Bool.eq_false_iff.mpr hfail, hid, hdisplayed, hsend, hne⟩
          have hle := segment_eq_none_iff.mp hsegment
          have hcommitted := h.committed.length_le
          rw [committedText] at hcommitted
          rw [hlatest] at hle
          omega
      rw [committedMessages_of_none hdisplayed, hzero] at hchars
      exact List.eq_nil_of_length_eq_zero hchars

/-- **Every step that stays with the text keeps the invariant.** -/
theorem Shows.step (h : s.Shows reply) (hkeeps : a.KeepsTo reply s.outputText)
    (hstep : s.step a = some s') : s'.Shows reply := by
  have hsound := h.sound.step hstep
  cases step_spec hstep with
  | newStep hstage =>
      exact
        { sound := hsound
          latest := h.latest
          outbound := h.outbound
          tasks := h.tasks
          bare := h.bare
          plain := h.plain
          text := h.text.of_messages rfl rfl (by rw [hstage]; rfl) }
  | @textDelta delta hstage hstreaming =>
      exact
        { sound := hsound
          latest := hkeeps
          outbound := by rintro content ⟨⟩
          tasks := h.tasks
          bare := by rintro content ⟨⟩
          plain := fun hplain => by rw [hstreaming] at hplain; cases hplain
          text := h.text.of_messages rfl rfl rfl }
  | updated hstage hnext =>
      exact h.of_next hsound (nextAction_of_eq hnext) rfl rfl rfl (by rw [hstage]; rfl) rfl
        (by rw [hstage]; rfl)
  | finalized hstage hnext =>
      exact h.of_next hsound (nextAction_of_eq hnext) rfl rfl rfl (by rw [hstage]; rfl) rfl
        (by rw [hstage]; rfl)
  | retry hretries hnext =>
      by_cases hover : s.stage.isOver = true
      · -- the display is quiet: nothing is sent or edited any more
        obtain ⟨-, hquiet⟩ := h.sound.ended hover
        rw [hquiet] at hnext
        obtain ⟨rfl, rfl⟩ := Prod.mk.inj hnext
        exact
          { sound := hsound
            latest := h.latest
            outbound := h.outbound
            tasks := by
              rw [Option.toList_none, List.append_nil]
              exact h.tasks
            bare := h.bare
            plain := h.plain
            text := ⟨h.text.begins, h.text.shown, h.text.fits⟩ }
      · have hover := Bool.eq_false_iff.mpr hover
        exact h.of_next hsound (nextAction_of_eq hnext) rfl rfl rfl hover hover rfl
  | @sent task content result retries htask =>
      have hreturned := hasReturned_of_not_over (h.sound.not_over_of_task htask)
      have hconsistent := h.sound.consistent hreturned
      have hgoes := h.tasks _ (List.mem_of_getElem? htask)
      rw [committedText, committedMessages_of_none (displayedSegment_of_send hconsistent htask)]
        at hgoes
      have happend : (s.messages ++ [content]).flatten <+: reply := by
        rw [List.flatten_append, List.flatten_singleton]
        exact hgoes
      cases result with
      | withId => exact h.of_shown htask hsound rfl rfl rfl rfl happend
      | withoutId => exact h.of_shown htask hsound rfl rfl rfl rfl happend
      | failed error => exact h.of_shown htask hsound rfl rfl rfl rfl h.text.begins
  | @edited task messageId content error retries htask =>
      have hreturned := hasReturned_of_not_over (h.sound.not_over_of_task htask)
      have hconsistent := h.sound.consistent hreturned
      have hgoes := h.tasks _ (List.mem_of_getElem? htask)
      cases error with
      | none =>
          refine h.of_shown htask hsound rfl rfl rfl rfl ?_
          show (s.messages.set messageId content).flatten <+: reply
          rw [hconsistent.set_current (hconsistent.messageId_of_edit htask), List.flatten_append,
            List.flatten_singleton]
          exact hgoes
      | some error => exact h.of_shown htask hsound rfl rfl rfl rfl h.text.begins
  | @reply content hstage hstreaming =>
      obtain rfl : content = reply := hkeeps
      exact
        { sound := hsound
          latest := List.prefix_refl _
          outbound := by
            rintro content' ⟨⟩
            rfl
          tasks := h.tasks
          bare := by rintro content' ⟨⟩
          plain := fun hplain => by rw [hstreaming] at hplain; cases hplain
          text := h.text.of_messages rfl rfl rfl }
  | @replyWhole content hstage hstreaming =>
      obtain rfl : content = reply := hkeeps
      have hreturned : s.stage.hasReturned = false := by rw [hstage]; rfl
      refine h.of_stage hsound hreturned ?_ ?_ (by rintro content' ⟨⟩)
      · rintro content' ⟨⟩
        rfl
      · intro _ _
        rw [h.plain hstreaming hreturned]
        rfl
  | noReply hstage hreply =>
      exact h.of_stage hsound (by rw [hstage]; rfl) (by rintro content ⟨⟩)
        (by rintro content ⟨⟩) (by rintro content ⟨⟩)
  | failed hstage hpoll =>
      refine h.of_stage hsound (by rw [hstage]; rfl) ?_ (by rintro content ⟨⟩)
        (by rintro content ⟨⟩)
      rintro content' ⟨⟩
      exact h.outbound _ (by rw [hstage]; rfl)
  | @done content hstage hpoll =>
      have hcontent := h.outbound content (by rw [hstage]; rfl)
      refine h.of_stage hsound (by rw [hstage]; rfl) ?_ (by rintro content ⟨⟩) ?_
      · rintro content' ⟨⟩
        exact hcontent
      · rintro content' ⟨⟩
        exact ⟨hcontent, hcontent ▸ h.flatten_of_done hstage hpoll⟩
  | @fallback content hstage hpoll =>
      refine h.of_stage hsound (by rw [hstage]; rfl) ?_ ?_ (by rintro content ⟨⟩)
      · rintro content' ⟨⟩
        exact h.outbound _ (by rw [hstage]; rfl)
      · intro _ _
        exact h.flatten_of_fallback hstage hpoll
  | again hstage hpoll =>
      refine h.of_stage hsound (by rw [hstage]; rfl) ?_ (by rintro content ⟨⟩)
        (by rintro content ⟨⟩)
      rintro content' ⟨⟩
      exact h.outbound _ (by rw [hstage]; rfl)
  | @whole content result hstage =>
      obtain rfl := h.outbound content (by rw [hstage]; rfl)
      have hempty := h.bare content hstage
      cases result with
      | error e =>
          refine h.of_stage hsound (by rw [hstage]; rfl) ?_ (by rintro content' ⟨⟩)
            (by rintro content' ⟨⟩)
          exact fun _ hcontent => (Option.some.inj hcontent).symm
      | ok u =>
          have hflatten : (s.messages ++ [content]).flatten = content := by
            rw [List.flatten_append, hempty, List.nil_append, List.flatten_singleton]
          exact
            { sound := hsound
              latest := h.latest
              outbound := fun _ hcontent => (Option.some.inj hcontent).symm
              tasks := by
                rw [(h.sound.ended (by rw [hstage]; rfl)).1]
                exact fun task htask => by cases htask
              bare := by rintro content' ⟨⟩
              plain := fun _ hreturned => by cases hreturned
              text :=
                { begins := by
                    rw [hflatten]
                  shown := by
                    rintro content' ⟨⟩
                    exact ⟨rfl, hflatten⟩
                  fits := Table.forall_mem_append h.text.fits (.inr rfl) } }

theorem outputText_step (h : s.step a = some s') : s'.outputText = a.textAfter s.outputText := by
  cases step_spec h <;> rfl

end Steps

end Turn

/-! ## Along a run -/

theorem stepsMeet_of_givesOnly {reply : Text} {s : Turn} {tr : List (TurnAction × Turn)}
    (hrun : Run Turn.step s tr) (h : GivesOnly reply s.outputText (tr.map Prod.fst)) :
    Run.StepsMeet (fun s a => a.KeepsTo reply s.outputText) s tr := by
  induction hrun with
  | nil s => exact Run.stepsMeet_nil _ s
  | @cons s s' a tr hst _ ih =>
      obtain ⟨hkeeps, hrest⟩ := h
      rw [← Turn.outputText_step hst] at hrest
      exact (Run.stepsMeet_cons _ s s' a tr).mpr ⟨hkeeps, ih hrest⟩

/-- **If the turn gives only beginnings of one text to the display, every state shows that
text**, whatever sends and edits fail and in whatever order they end. -/
theorem showsText_of_givesOnly {streaming : Bool} {channelLimit : Option Nat} {reply : Text}
    {tr : List (TurnAction × Turn)} (hrun : Run Turn.step (Turn.start streaming channelLimit) tr)
    (hturns : GivesOnly reply [] (turnActions tr)) : ∀ x ∈ tr, x.2.ShowsText reply := by
  intro x hx
  have hmeets := stepsMeet_of_givesOnly hrun hturns.of_turns
  exact (Run.invariant_of_stepsMeet (J := Turn.Shows reply)
    (fun _ _ _ h hkeeps hstep => h.step hkeeps hstep) hrun
    (Turn.shows_start streaming channelLimit reply) hmeets x hx).text

end Streaming
end SimpleClaw
