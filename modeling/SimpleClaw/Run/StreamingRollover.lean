import Mathlib.Algebra.GroupWithZero.Nat
import SimpleClaw.Run.StreamingTurn

/-!
# Messages that are rolled over

When the text on display fills a message and there is more, the message is left as it is.

* `Turn.rolledOver`: the messages that the steps of a run roll over.
* `Turn.RolledSound`: the invariant; the messages rolled over are the first ones the turn has sent.
* `streaming_rollover`: in every state of every run at most one send or edit is in flight, the
  messages rolled over are full, their characters are the committed prefix, and nothing edits them
  again.
-/

namespace SimpleClaw
namespace Streaming

open Transition

/-! ## One look for the next action -/

/-- A segment with text beyond it fills a message. -/
theorem visibleChars_of_overflow {d : StreamingDisplay} {segment : ActiveStreamingSegment}
    {limit : Nat} (h : d.segment = some segment) (hlimit : d.channelLimit = some limit)
    (hover : segment.hasOverflow = true) : segment.visibleChars = limit := by
  unfold StreamingDisplay.segment activeStreamingSegment at h
  simp only at h
  split at h
  · cases h
  · cases h
    simp only [hlimit, Option.elim_some, decide_eq_true_eq] at hover ⊢
    omega

/-- What looking for the next action does to what was committed: nothing, or one rollover. -/
inductive Commits (d d' : StreamingDisplay) : Prop where
  | same (hroll : tryRolloverStreamingSegment d = none)
      (hdisplayed : d'.displayedSegment = d.displayedSegment)
      (hchars : d'.committedPrefixChars = d.committedPrefixChars)
  | rollover {segment} (hsegment : d.segment = some segment) (hover : segment.hasOverflow = true)
      (hshown : d.displayedSegment = some segment.content)
      (hroll : tryRolloverStreamingSegment d = some (d.rollOver segment))
      (hdisplayed : d'.displayedSegment = none)
      (hchars : d'.committedPrefixChars = d.committedPrefixChars + segment.visibleChars)

theorem channelLimit_next {recentlyEdited : Bool} {d d' : StreamingDisplay}
    {action : Option StreamingDisplayAction} (h : NextAction recentlyEdited d action d') :
    d'.channelLimit = d.channelLimit := by
  cases h <;> rfl

theorem commits_next {recentlyEdited : Bool} {d d' : StreamingDisplay}
    {action : Option StreamingDisplayAction} (h : NextAction recentlyEdited d action d') :
    Commits d d' := by
  cases h with
  | failed hfail =>
      refine .same ?_ rfl rfl
      rw [tryRolloverStreamingSegment, if_pos (.inr (.inr hfail))]
  | empty hsegment =>
      refine .same (tryRollover_of_not fun segment hsome => ?_) rfl rfl
      rw [hsegment] at hsome
      cases hsome
  | waits hfail hsegment hroll hwaits =>
      refine .same (tryRollover_of_not fun segment hsome => ?_) rfl rfl
      rw [hsegment] at hsome
      obtain rfl := Option.some.inj hsome
      exact hroll
  | send hfail hsegment hid hsend hdisplayed hattempted =>
      refine .same (tryRollover_of_not fun segment _ hroll => ?_) rfl rfl
      have hshown := hroll.2.2.2
      rw [hdisplayed] at hshown
      cases hshown
  | rollover hfail hsegment hroll hnext =>
      exact .rollover hsegment hroll.2.2.1 hroll.2.2.2
        (tryRollover_of_rollsOver hfail hsegment hroll) rfl rfl
  | edit hfail hsegment hid hedit hdisplayed =>
      refine .same (tryRollover_of_not fun segment hsome hroll => ?_) rfl rfl
      rw [hsegment] at hsome
      obtain rfl := Option.some.inj hsome
      exact hdisplayed hroll.2.2.2

/-- Nothing is rolled over on a display that is quiet. -/
theorem tryRollover_of_quiet {d : StreamingDisplay} (h : d.Quiet) :
    tryRolloverStreamingSegment d = none := by
  cases commits_next (nextAction_of_eq (h true)) with
  | same hroll => exact hroll
  | rollover _ _ hshown _ hdisplayed =>
      rw [hdisplayed] at hshown
      cases hshown

namespace Turn

/-! ## The messages rolled over -/

/-- The message a step rolls over: the one on display, which is the last one sent if the channel
has not named it. -/
def rolledBy (s : Turn) : TurnAction → Option Nat
  | .attempt _ | .retry _ =>
      (tryRolloverStreamingSegment s.display).map fun _ =>
        s.display.messageId.getD (s.messages.length - 1)
  | .newStep | .textDelta _ | .sendCompleted _ _ | .editCompleted _ _ | .reply _ | .noReply _
  | .poll | .wholeSent _ => none

/-- The messages rolled over along a trace. -/
def rolledOver : Turn → List (TurnAction × Turn) → List Nat
  | _, [] => []
  | s, (a, s') :: tr => (s.rolledBy a).toList ++ rolledOver s' tr

/-- The sends and edits in flight, the finalizer's own send among them. -/
def inFlight (s : Turn) : Nat :=
  match s.stage with
  | .sendingWhole _ => s.tasks.length + 1
  | .responding | .updating | .finalizing _ | .polling _ | .returned _ _ | .suppressed =>
      s.tasks.length

/-- How many characters these messages show. -/
def shownChars (s : Turn) (rolled : List Nat) : Nat :=
  (rolled.map fun i => ((s.messages[i]?).getD []).length).sum

/-- **The messages rolled over**: at most one send or edit is in flight, and none that edits one
of them; each is full, and together they show the committed prefix. -/
structure RolledOver (limit : Nat) (s : Turn) (rolled : List Nat) : Prop where
  alone : s.inFlight ≤ 1
  once : rolled.Nodup
  full : ∀ i ∈ rolled, ∃ content, s.messages[i]? = some content ∧ content.length = limit
  committed : s.display.committedPrefixChars = s.shownChars rolled
  untouched : ∀ i ∈ rolled, ∀ content, .edit i content ∉ s.tasks

/-! ## The invariant -/

/-- **The invariant**: the messages rolled over are the first ones sent, and all but the one on
display until the finalizer has sent a text whole. -/
structure RolledSound (limit : Nat) (s : Turn) (rolled : List Nat) : Prop where
  sound : s.Sound
  limited : s.display.channelLimit = some limit
  first : rolled = List.range rolled.length
  le : rolled.length ≤ s.messages.length
  count : s.stage.hasReturned = false →
    (committedMessages s.display s.messages).length = rolled.length
  full : ∀ i content, i < rolled.length → s.messages[i]? = some content → content.length = limit
  chars : s.display.committedPrefixChars = rolled.length * limit

theorem rolledSound_start (streaming : Bool) (limit : Nat) :
    (start streaming (some limit)).RolledSound limit [] where
  sound := sound_start streaming (some limit)
  limited := rfl
  first := rfl
  le := Nat.le_refl 0
  count := fun _ => rfl
  full := fun i _ hlt => absurd hlt (Nat.not_lt_zero i)
  chars := (Nat.zero_mul limit).symm

section Rolled

variable {s s' : Turn} {a : TurnAction} {limit : Nat} {rolled : List Nat}

theorem RolledSound.mem_iff (h : s.RolledSound limit rolled) {i : Nat} :
    i ∈ rolled ↔ i < rolled.length := by
  conv_lhs => rw [h.first]
  exact List.mem_range

/-- A message that is edited is the one after those rolled over. -/
theorem RolledSound.eq_length_of_edit (h : s.RolledSound limit rolled) {task messageId : Nat}
    {content : Text} (htask : s.tasks[task]? = some (.edit messageId content)) :
    messageId = rolled.length := by
  have hreturned := hasReturned_of_not_over (h.sound.not_over_of_task htask)
  have hconsistent := h.sound.consistent hreturned
  rw [(hconsistent.current messageId (hconsistent.messageId_of_edit htask)).1, h.count hreturned]

theorem RolledSound.rolledOver (h : s.RolledSound limit rolled) : s.RolledOver limit rolled where
  alone := by
    by_cases hover : s.stage.isOver = true
    · rw [inFlight, (h.sound.ended hover).1]
      split <;> decide
    · have hlength : s.inFlight = s.tasks.length := by
        cases hstage : s.stage with
        | sendingWhole content => exact absurd (by rw [hstage]; rfl) hover
        | _ => rw [inFlight, hstage]
      rw [hlength]
      have hreturned := hasReturned_of_not_over (Bool.eq_false_iff.mpr hover)
      have htasks := (h.sound.consistent hreturned).tasks
      generalize s.tasks = tasks at htasks ⊢
      cases htasks with
      | none => exact Nat.zero_le 1
      | send => exact Nat.le_refl 1
      | edit => exact Nat.le_refl 1
  once := by
    rw [h.first]
    exact List.nodup_range
  full := by
    intro i hi
    have hlt := h.mem_iff.mp hi
    have hmessage := List.getElem?_eq_getElem (Nat.lt_of_lt_of_le hlt h.le)
    exact ⟨_, hmessage, h.full i _ hlt hmessage⟩
  committed := by
    have hall : ∀ n ∈ rolled.map fun i => ((s.messages[i]?).getD []).length, n = limit := by
      intro n hn
      obtain ⟨i, hi, rfl⟩ := List.mem_map.mp hn
      have hlt := h.mem_iff.mp hi
      have hmessage := List.getElem?_eq_getElem (Nat.lt_of_lt_of_le hlt h.le)
      rw [hmessage]
      exact h.full i _ hlt hmessage
    rw [h.chars, shownChars, List.eq_replicate_of_mem hall, List.length_map,
      List.sum_replicate_nat]
  untouched := by
    intro i hi content hmem
    obtain ⟨task, htask⟩ := List.mem_iff_getElem?.mp hmem
    have hlt := h.mem_iff.mp hi
    rw [h.eq_length_of_edit htask] at hlt
    exact Nat.lt_irrefl _ hlt

/-- A step that leaves the messages and what is committed as they are. -/
theorem RolledSound.of_same (h : s.RolledSound limit rolled) (hsound : s'.Sound)
    (hlimit : s'.display.channelLimit = s.display.channelLimit)
    (hdisplayed : s'.display.displayedSegment = s.display.displayedSegment)
    (hchars : s'.display.committedPrefixChars = s.display.committedPrefixChars)
    (hmessages : s'.messages = s.messages)
    (hreturned : s'.stage.hasReturned = false → s.stage.hasReturned = false) :
    s'.RolledSound limit rolled where
  sound := hsound
  limited := hlimit.trans h.limited
  first := h.first
  le := by
    rw [hmessages]
    exact h.le
  count := by
    intro hstage
    rw [committedMessages, hdisplayed, hmessages]
    exact h.count (hreturned hstage)
  full := by
    rw [hmessages]
    exact h.full
  chars := hchars.trans h.chars

/-- The message on display is the one after those rolled over. -/
theorem RolledSound.messages_eq (h : s.RolledSound limit rolled) {content : Text}
    (hreturned : s.stage.hasReturned = false)
    (hshown : s.display.displayedSegment = some content) :
    s.messages.length = rolled.length + 1 ∧ s.messages[rolled.length]? = some content ∧
      s.display.messageId.getD (s.messages.length - 1) = rolled.length := by
  have hconsistent := h.sound.consistent hreturned
  have hcount := h.count hreturned
  have hmessages := hconsistent.shown
  rw [hshown, Option.toList_some] at hmessages
  have hlength : s.messages.length = rolled.length + 1 := by
    rw [hmessages, List.length_append, hcount, List.length_singleton]
  refine ⟨hlength, ?_, ?_⟩
  · rw [hmessages, ← hcount]
    exact List.getElem?_concat_length
  · cases hid : s.display.messageId with
    | none =>
        rw [Option.getD_none, hlength]
        exact Nat.add_sub_cancel _ _
    | some messageId =>
        rw [Option.getD_some, (hconsistent.current messageId hid).1, hcount]

/-- **Looking for the next action keeps the invariant**, with one more message if it rolls one
over. -/
theorem RolledSound.of_next (h : s.RolledSound limit rolled) (hsound : s'.Sound)
    (hcommits : Commits s.display s'.display)
    (hlimit : s'.display.channelLimit = s.display.channelLimit)
    (hmessages : s'.messages = s.messages) (hreturned : s.stage.hasReturned = false) :
    s'.RolledSound limit (rolled ++ ((tryRolloverStreamingSegment s.display).map fun _ =>
      s.display.messageId.getD (s.messages.length - 1)).toList) := by
  cases hcommits with
  | same hroll hdisplayed hchars =>
      rw [hroll, Option.map_none, Option.toList_none, List.append_nil]
      exact h.of_same hsound hlimit hdisplayed hchars hmessages fun _ => hreturned
  | @rollover segment hsegment hover hshown hroll hdisplayed hchars =>
      obtain ⟨hlength, hcontent, hindex⟩ := h.messages_eq hreturned hshown
      have hvisible := visibleChars_of_overflow hsegment h.limited hover
      rw [hroll, Option.map_some, Option.toList_some, hindex]
      constructor
      case sound => exact hsound
      case limited => exact hlimit.trans h.limited
      case first =>
        rw [List.length_append, List.length_singleton, List.range_succ, ← h.first]
      case le =>
        rw [List.length_append, List.length_singleton, hmessages, hlength]
      case count =>
        intro _
        rw [committedMessages_of_none hdisplayed, hmessages, hlength, List.length_append,
          List.length_singleton]
      case full =>
        intro i content hlt hmessage
        rw [hmessages] at hmessage
        rw [List.length_append, List.length_singleton] at hlt
        rcases Nat.lt_succ_iff_lt_or_eq.mp hlt with hold | rfl
        · exact h.full i content hold hmessage
        · rw [hcontent] at hmessage
          obtain rfl := Option.some.inj hmessage
          rw [(isSegment_of_segment hsegment).length, hvisible]
      case chars =>
        rw [hchars, hvisible, h.chars, List.length_append, List.length_singleton, Nat.succ_mul]

/-- A message that is sent is new: those rolled over are all that were there. -/
theorem RolledSound.of_sent (h : s.RolledSound limit rolled) {content : Text}
    (hreturned : s.stage.hasReturned = false) (hnone : s.display.displayedSegment = none)
    (hsound : s'.Sound) (hlimit : s'.display.channelLimit = s.display.channelLimit)
    (hdisplayed : s'.display.displayedSegment = some content)
    (hchars : s'.display.committedPrefixChars = s.display.committedPrefixChars)
    (hmessages : s'.messages = s.messages ++ [content]) : s'.RolledSound limit rolled := by
  have hcount := h.count hreturned
  rw [committedMessages_of_none hnone] at hcount
  constructor
  case sound => exact hsound
  case limited => exact hlimit.trans h.limited
  case first => exact h.first
  case le =>
    rw [hmessages, List.length_append, hcount]
    exact Nat.le_add_right _ _
  case count =>
    intro _
    rw [hmessages, committedMessages_append hdisplayed, hcount]
  case full =>
    intro i content' hlt hmessage
    rw [hmessages, List.getElem?_append_left (hcount ▸ hlt)] at hmessage
    exact h.full i content' hlt hmessage
  case chars => exact hchars.trans h.chars

/-- The message that is edited is the one on display, after those rolled over. -/
theorem RolledSound.of_edited (h : s.RolledSound limit rolled) {task messageId : Nat}
    {old content : Text} (htask : s.tasks[task]? = some (.edit messageId old))
    (hsound : s'.Sound) (hlimit : s'.display.channelLimit = s.display.channelLimit)
    (hdisplayed : s'.display.displayedSegment = some content)
    (hchars : s'.display.committedPrefixChars = s.display.committedPrefixChars)
    (hmessages : s'.messages = s.messages.set messageId content) :
    s'.RolledSound limit rolled := by
  have hreturned := hasReturned_of_not_over (h.sound.not_over_of_task htask)
  have hconsistent := h.sound.consistent hreturned
  have hset := hconsistent.set_current (hconsistent.messageId_of_edit htask) content
  constructor
  case sound => exact hsound
  case limited => exact hlimit.trans h.limited
  case first => exact h.first
  case le =>
    rw [hmessages, List.length_set]
    exact h.le
  case count =>
    intro _
    rw [hmessages, hset, committedMessages_append hdisplayed, h.count hreturned]
  case full =>
    intro i content' hlt hmessage
    rw [hmessages, List.getElem?_set_ne] at hmessage
    · exact h.full i content' hlt hmessage
    · rw [h.eq_length_of_edit htask]
      exact (Nat.ne_of_lt hlt).symm
  case chars => exact hchars.trans h.chars

/-- Nothing is on display while a message is sent. -/
theorem displayedSegment_of_send {d : StreamingDisplay} {tasks : List StreamingDisplayAction}
    {messages : List Text} (h : Consistent d tasks messages) {task : Nat} {content : Text}
    (htask : tasks[task]? = some (.sendInitial content)) : d.displayedSegment = none := by
  cases h.tasks with
  | none => cases htask
  | send _ _ _ hdisplayed => exact hdisplayed
  | edit =>
      obtain ⟨-, htask⟩ := List.mem_singleton.mp (List.mem_of_getElem? htask)

/-- A step that leaves what is displayed alone rolls nothing over. -/
theorem RolledSound.of_kept (h : s.RolledSound limit rolled) (hsound : s'.Sound)
    (hlimit : s'.display.channelLimit = s.display.channelLimit)
    (hdisplayed : s'.display.displayedSegment = s.display.displayedSegment)
    (hchars : s'.display.committedPrefixChars = s.display.committedPrefixChars)
    (hmessages : s'.messages = s.messages)
    (hreturned : s'.stage.hasReturned = false → s.stage.hasReturned = false) :
    s'.RolledSound limit (rolled ++ (none : Option Nat).toList) := by
  rw [Option.toList_none, List.append_nil]
  exact h.of_same hsound hlimit hdisplayed hchars hmessages hreturned

/-- **Every step keeps the invariant.** -/
theorem RolledSound.step (h : s.RolledSound limit rolled) (hstep : s.step a = some s') :
    s'.RolledSound limit (rolled ++ (s.rolledBy a).toList) := by
  have hsound := h.sound.step hstep
  have hnone : rolled ++ (none : Option Nat).toList = rolled := List.append_nil rolled
  cases step_spec hstep with
  | newStep hstage => exact h.of_kept hsound rfl rfl rfl rfl id
  | textDelta hstage hstreaming =>
      exact h.of_kept hsound rfl rfl rfl rfl fun _ => by rw [hstage]; rfl
  | updated hstage hnext =>
      have hnext := nextAction_of_eq hnext
      exact h.of_next hsound (commits_next hnext) (channelLimit_next hnext) rfl
        (by rw [hstage]; rfl)
  | finalized hstage hnext =>
      have hnext := nextAction_of_eq hnext
      exact h.of_next hsound (commits_next hnext) (channelLimit_next hnext) rfl
        (by rw [hstage]; rfl)
  | retry hretries hnext =>
      by_cases hover : s.stage.isOver = true
      · -- the display is quiet: there is nothing to roll over
        obtain ⟨-, hquiet⟩ := h.sound.ended hover
        have hsame := hnext
        rw [hquiet] at hsame
        obtain ⟨rfl, rfl⟩ := Prod.mk.inj hsame
        rw [rolledBy, tryRollover_of_quiet hquiet, Option.map_none, hnone]
        exact h.of_same hsound rfl rfl rfl rfl id
      · have hnext := nextAction_of_eq hnext
        exact h.of_next hsound (commits_next hnext) (channelLimit_next hnext) rfl
          (hasReturned_of_not_over (Bool.eq_false_iff.mpr hover))
  | @sent task content result retries htask =>
      have hreturned := hasReturned_of_not_over (h.sound.not_over_of_task htask)
      have hdisplayed := displayedSegment_of_send (h.sound.consistent hreturned) htask
      rw [rolledBy, hnone]
      cases result with
      | withId => exact h.of_sent hreturned hdisplayed hsound rfl rfl rfl rfl
      | withoutId => exact h.of_sent hreturned hdisplayed hsound rfl rfl rfl rfl
      | failed error => exact h.of_same hsound rfl rfl rfl rfl fun _ => hreturned
  | @edited task messageId content error retries htask =>
      rw [rolledBy, hnone]
      cases error with
      | none => exact h.of_edited htask hsound rfl rfl rfl rfl
      | some error =>
          exact h.of_same hsound rfl rfl rfl rfl fun _ =>
            hasReturned_of_not_over (h.sound.not_over_of_task htask)
  | reply hstage hstreaming =>
      exact h.of_kept hsound rfl rfl rfl rfl fun _ => by rw [hstage]; rfl
  | replyWhole hstage hstreaming =>
      exact h.of_kept hsound rfl rfl rfl rfl fun _ => by rw [hstage]; rfl
  | noReply hstage hreply =>
      exact h.of_kept hsound rfl rfl rfl rfl fun _ => by rw [hstage]; rfl
  | failed hstage hpoll =>
      exact h.of_kept hsound rfl rfl rfl rfl fun _ => by rw [hstage]; rfl
  | done hstage hpoll =>
      exact h.of_kept hsound rfl rfl rfl rfl fun _ => by rw [hstage]; rfl
  | fallback hstage hpoll =>
      exact h.of_kept hsound rfl rfl rfl rfl fun _ => by rw [hstage]; rfl
  | again hstage hpoll =>
      exact h.of_kept hsound rfl rfl rfl rfl fun _ => by rw [hstage]; rfl
  | @whole content result hstage =>
      rw [rolledBy, hnone]
      cases result with
      | error e => exact h.of_same hsound rfl rfl rfl rfl fun hreturned => by cases hreturned
      | ok done =>
          refine ⟨hsound, h.limited, h.first, ?_, fun hreturned => (by cases hreturned), ?_,
            h.chars⟩
          · rw [List.length_append]
            exact Nat.le_add_right_of_le h.le
          · intro i content' hlt hmessage
            rw [List.getElem?_append_left (Nat.lt_of_lt_of_le hlt h.le)] at hmessage
            exact h.full i content' hlt hmessage

/-- **No step changes a message that was rolled over.** -/
theorem RolledSound.kept (h : s.RolledSound limit rolled) (hstep : s.step a = some s') :
    ∀ i ∈ rolled, s'.messages[i]? = s.messages[i]? := by
  intro i hi
  have hlt := h.mem_iff.mp hi
  have happend : ∀ content, (s.messages ++ [content])[i]? = s.messages[i]? := fun content =>
    List.getElem?_append_left (Nat.lt_of_lt_of_le hlt h.le)
  cases step_spec hstep with
  | @sent task content result retries htask =>
      cases result with
      | withId => exact happend content
      | withoutId => exact happend content
      | failed error => rfl
  | @edited task messageId content error retries htask =>
      cases error with
      | none =>
          refine List.getElem?_set_ne ?_
          rw [h.eq_length_of_edit htask]
          exact (Nat.ne_of_lt hlt).symm
      | some error => rfl
  | @whole content result hstage =>
      cases result with
      | ok done => exact happend content
      | error e => rfl
  | _ => rfl

/-! ## Along a run -/

theorem RolledSound.final {tr : List (TurnAction × Turn)} (hrun : Run Turn.step s tr)
    (h : s.RolledSound limit rolled) :
    (Run.final s tr).RolledSound limit (rolled ++ s.rolledOver tr) ∧
      ∀ i ∈ rolled, (Run.final s tr).messages[i]? = s.messages[i]? := by
  induction hrun generalizing rolled with
  | nil s =>
      rw [Turn.rolledOver, List.append_nil]
      exact ⟨h, fun _ _ => rfl⟩
  | @cons s s' a tr hst _ ih =>
      obtain ⟨hsound, hkept⟩ := ih (h.step hst)
      rw [List.append_assoc] at hsound
      refine ⟨hsound, fun i hi => ?_⟩
      exact (hkept i (List.mem_append_left _ hi)).trans (h.kept hst i hi)

end Rolled

/-- **Rollovers.**  In every state of every run of a turn at most one send or edit is in flight,
every message rolled over shows as many characters as a message may have, and together they show the
committed prefix; and in every later state they show the same, and no task edits one of them. -/
theorem streaming_rollover {streaming : Bool} {limit : Nat}
    {tr later : List (TurnAction × Turn)}
    (hrun : Run step (start streaming (some limit)) tr)
    (hlater : Run step (Run.final (start streaming (some limit)) tr) later) :
    RolledOver limit (Run.final (start streaming (some limit)) tr)
        ((start streaming (some limit)).rolledOver tr) ∧
      ∀ i ∈ (start streaming (some limit)).rolledOver tr,
        (Run.final (Run.final (start streaming (some limit)) tr) later).messages[i]? =
          (Run.final (start streaming (some limit)) tr).messages[i]? ∧
        ∀ content, .edit i content ∉
          (Run.final (Run.final (start streaming (some limit)) tr) later).tasks := by
  obtain ⟨hsound, -⟩ := (rolledSound_start streaming limit).final hrun
  rw [List.nil_append] at hsound
  refine ⟨hsound.rolledOver, fun i hi => ?_⟩
  obtain ⟨hend, hkept⟩ := hsound.final hlater
  exact ⟨hkept i hi, hend.rolledOver.untouched i (List.mem_append_left _ hi)⟩

/-- A message fills while the text grows, and the next model step begins after it was rolled
over. -/
def rollsOverTwice : List TurnAction :=
  [.textDelta "abcde", .attempt true, .sendCompleted 0 .withId, .retry true,
    .sendCompleted 0 .withId, .textDelta "fg", .attempt false, .editCompleted 0 none,
    .retry false]

theorem streaming_rollover_twice : ∃ tr later,
    exec step (start true (some 3)) rollsOverTwice = some tr ∧
    exec step (Run.final (start true (some 3)) tr) [.sendCompleted 0 .withId, .newStep] =
      some later ∧
    (start true (some 3)).rolledOver tr = [0, 1] ∧
    RolledOver 3 (Run.final (start true (some 3)) tr) [0, 1] ∧
    (Run.final (Run.final (start true (some 3)) tr) later).messages[1]? =
      (Run.final (start true (some 3)) tr).messages[1]? := by
  have hruns : ((exec step (start true (some 3)) rollsOverTwice).filter fun tr =>
      (start true (some 3)).rolledOver tr = [0, 1]).bind (fun tr =>
      exec step (Run.final (start true (some 3)) tr) [.sendCompleted 0 .withId, .newStep])
      |>.isSome := by decide +kernel
  obtain ⟨later, hruns⟩ := Option.isSome_iff_exists.mp hruns
  obtain ⟨tr, hfilter, hlater⟩ := Option.bind_eq_some_iff.mp hruns
  obtain ⟨htr, hrolled⟩ := Option.filter_eq_some_iff.mp hfilter
  have hrolled := of_decide_eq_true hrolled
  obtain ⟨hover, hkept⟩ := streaming_rollover (run_of_exec htr) (run_of_exec hlater)
  rw [hrolled] at hover hkept
  exact ⟨tr, later, htr, hlater, hrolled, hover, (hkept 1 (by decide)).1⟩

end Turn

end Streaming
end SimpleClaw
