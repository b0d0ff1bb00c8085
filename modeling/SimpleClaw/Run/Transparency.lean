import SimpleClaw.Config.Routing
import SimpleClaw.Lib.Tally
import SimpleClaw.React.Dispatch

/-!
# What a reply says about the calls behind it

Under a reply the runner can write which tools were called for it, how often and with which
outcome.  A call that was answered by another agent brings the calls of that agent with it, so the
calls of a turn are a forest; they are taken out of it one after the other, each before the calls
made inside it, and counted by the name of the tool.

* `toolSummaryGroups`: the counts.
* `preorder`, `countCalls`, `OccursIn`: the forest in order, how many of its calls are of a kind,
  and what is in it.
* `Summarizes`: what the counts are to say about a forest.
* `renderToolCallTransparency`: the reply with what is written under it.
-/

namespace SimpleClaw
namespace Run

open Config (GatewayChannelKind)
open React (ToolExecutionResult ToolExecutionStatus)

/-! ## The counts -/

structure ToolSummaryGroup where
  name : Text
  ok : Nat
  accepted : Nat
  err : Nat
  deriving DecidableEq

mutual

def appendFlattened : ToolExecutionResult → List ToolExecutionResult → List ToolExecutionResult
  | call@⟨_, _, _, _, _, nestedToolCalls⟩, out => appendEach nestedToolCalls (out ++ [call])

/-- The loop over the calls at one level. -/
def appendEach : List ToolExecutionResult → List ToolExecutionResult → List ToolExecutionResult
  | [], out => out
  | call :: rest, out => appendEach rest (appendFlattened call out)

end

def flattenToolCalls (toolCalls : List ToolExecutionResult) : List ToolExecutionResult :=
  appendEach toolCalls []

/-- The entry of a call in the account of its tool. -/
def enterCall (call : ToolExecutionResult) : Nat × Nat × Nat → Nat × Nat × Nat
  | (ok, accepted, err) =>
      match call.status with
      | .ok => (ok + 1, accepted, err)
      | .accepted => (ok, accepted + 1, err)
      | .toolError => (ok, accepted, err + 1)

/-- The names in order, with the counts of each. -/
def callCounts (toolCalls : List ToolExecutionResult) : Tally Text (Nat × Nat × Nat) :=
  Tally.tally ToolExecutionResult.name (0, 0, 0) enterCall (flattenToolCalls toolCalls)

/-- `none` if a name that is listed has no counts, where the source panics. -/
def toolSummaryGroups (toolCalls : List ToolExecutionResult) : Option (List ToolSummaryGroup) :=
  let counts := callCounts toolCalls
  counts.order.mapM fun name =>
    (counts.accounts name).map fun (ok, accepted, err) => ⟨name, ok, accepted, err⟩

/-! ## The forest of calls -/

mutual

/-- A call, and after it the calls inside it. -/
def preorderOf : ToolExecutionResult → List ToolExecutionResult
  | call@⟨_, _, _, _, _, nestedToolCalls⟩ => call :: preorder nestedToolCalls

/-- The calls of a forest in preorder. -/
def preorder : List ToolExecutionResult → List ToolExecutionResult
  | [] => []
  | call :: rest => preorderOf call ++ preorder rest

end

mutual

def countCall (p : ToolExecutionResult → Bool) : ToolExecutionResult → Nat
  | call@⟨_, _, _, _, _, nestedToolCalls⟩ =>
      (if p call then 1 else 0) + countCalls p nestedToolCalls

/-- How many calls of a forest are of the kind `p`. -/
def countCalls (p : ToolExecutionResult → Bool) : List ToolExecutionResult → Nat
  | [] => 0
  | call :: rest => countCall p call + countCalls p rest

end

/-- The call is somewhere in the forest. -/
inductive OccursIn (call : ToolExecutionResult) : List ToolExecutionResult → Prop where
  | top {calls : List ToolExecutionResult} : call ∈ calls → OccursIn call calls
  | nested {calls : List ToolExecutionResult} {parent : ToolExecutionResult} :
      parent ∈ calls → OccursIn call parent.nestedToolCalls → OccursIn call calls

/-- A forest is empty, or a call with the forest inside it and the rest of the forest. -/
theorem forest_induction {P : List ToolExecutionResult → Prop} (hnil : P [])
    (hcons : ∀ call rest, P call.nestedToolCalls → P rest → P (call :: rest)) (calls) : P calls :=
  ToolExecutionResult.rec_1 (motive_1 := fun call => P call.nestedToolCalls) (motive_2 := P)
    (fun _ _ _ _ _ _ h => h) hnil (fun call rest hcall hrest => hcons call rest hcall hrest) calls

theorem appendEach_cons (call : ToolExecutionResult) (rest out : List ToolExecutionResult) :
    appendEach (call :: rest) out =
      appendEach rest (appendEach call.nestedToolCalls (out ++ [call])) := by
  cases call
  rfl

theorem preorder_cons (call : ToolExecutionResult) (rest : List ToolExecutionResult) :
    preorder (call :: rest) = call :: (preorder call.nestedToolCalls ++ preorder rest) := by
  cases call
  rfl

theorem countCalls_cons (p : ToolExecutionResult → Bool) (call : ToolExecutionResult)
    (rest : List ToolExecutionResult) : countCalls p (call :: rest) =
      (if p call then 1 else 0) + countCalls p call.nestedToolCalls + countCalls p rest := by
  cases call
  rfl

theorem appendEach_eq (calls out : List ToolExecutionResult) :
    appendEach calls out = out ++ preorder calls := by
  induction calls using forest_induction generalizing out with
  | hnil => simp [appendEach, preorder]
  | hcons call rest ihcall ihrest =>
    rw [appendEach_cons, ihcall, ihrest, preorder_cons]
    simp

theorem flattenToolCalls_eq (calls : List ToolExecutionResult) :
    flattenToolCalls calls = preorder calls := by
  rw [flattenToolCalls, appendEach_eq, List.nil_append]

theorem countCalls_eq (p : ToolExecutionResult → Bool) (calls : List ToolExecutionResult) :
    countCalls p calls = (preorder calls).countP p := by
  induction calls using forest_induction with
  | hnil => rfl
  | hcons call rest ihcall ihrest =>
    rw [countCalls_cons, preorder_cons, List.countP_cons, List.countP_append, ihcall, ihrest]
    omega

theorem not_occursIn_nil (call : ToolExecutionResult) : ¬ OccursIn call [] := by
  rintro (hmem | ⟨hmem, -⟩)
  · exact List.not_mem_nil hmem
  · exact List.not_mem_nil hmem

theorem occursIn_cons_iff {call first : ToolExecutionResult} {rest : List ToolExecutionResult} :
    OccursIn call (first :: rest) ↔
      call = first ∨ OccursIn call first.nestedToolCalls ∨ OccursIn call rest := by
  constructor
  · rintro (hmem | ⟨hparent, hin⟩)
    · exact (List.mem_cons.mp hmem).imp_right fun hrest => .inr (.top hrest)
    · obtain rfl | hrest := List.mem_cons.mp hparent
      · exact .inr (.inl hin)
      · exact .inr (.inr (.nested hrest hin))
  · rintro (rfl | hin | hmem | ⟨hparent, hin⟩)
    · exact .top List.mem_cons_self
    · exact .nested List.mem_cons_self hin
    · exact .top (List.mem_cons_of_mem first hmem)
    · exact .nested (List.mem_cons_of_mem first hparent) hin

theorem mem_preorder_iff {call : ToolExecutionResult} {calls : List ToolExecutionResult} :
    call ∈ preorder calls ↔ OccursIn call calls := by
  induction calls using forest_induction with
  | hnil => exact iff_of_false List.not_mem_nil (not_occursIn_nil call)
  | hcons first rest ihfirst ihrest =>
    rw [preorder_cons, List.mem_cons, List.mem_append, ihfirst, ihrest, occursIn_cons_iff]

/-! ## What the counts say -/

/-- The number of calls a list of groups accounts for. -/
def totalCalls : List ToolSummaryGroup → Nat
  | [] => 0
  | group :: groups => group.ok + group.accepted + group.err + totalCalls groups

/-- How many calls of a forest have the name and the status. -/
def callsWith (name : Text) (status : ToolExecutionStatus) (calls : List ToolExecutionResult) :
    Nat :=
  countCalls (fun call => call.name = name && call.status = status) calls

/-- The groups are a summary of the forest. -/
structure Summarizes (calls : List ToolExecutionResult) (groups : List ToolSummaryGroup) :
    Prop where
  nodup : (groups.map ToolSummaryGroup.name).Nodup
  names : ∀ name, name ∈ groups.map ToolSummaryGroup.name ↔
    ∃ call, OccursIn call calls ∧ call.name = name
  firstSeen : (groups.map ToolSummaryGroup.name).Pairwise fun a b =>
    ((preorder calls).map ToolExecutionResult.name).idxOf a <
      ((preorder calls).map ToolExecutionResult.name).idxOf b
  ok : ∀ group ∈ groups, group.ok = callsWith group.name .ok calls
  accepted : ∀ group ∈ groups, group.accepted = callsWith group.name .accepted calls
  err : ∀ group ∈ groups, group.err = callsWith group.name .toolError calls
  total : totalCalls groups = countCalls (fun _ => true) calls

/-- The group of a name, as the forest has it. -/
def groupOf (calls : List ToolExecutionResult) (name : Text) : ToolSummaryGroup where
  name := name
  ok := callsWith name .ok calls
  accepted := callsWith name .accepted calls
  err := callsWith name .toolError calls

theorem enterCall_eq (call : ToolExecutionResult) (ok accepted err : Nat) :
    enterCall call (ok, accepted, err) = (ok + if call.status = .ok then 1 else 0,
      accepted + if call.status = .accepted then 1 else 0,
      err + if call.status = .toolError then 1 else 0) := by
  cases hstatus : call.status <;> simp [enterCall, hstatus]

theorem foldl_enterCall (calls : List ToolExecutionResult) (ok accepted err : Nat) :
    calls.foldl (fun account call => enterCall call account) (ok, accepted, err) =
      (ok + calls.countP fun call => call.status = .ok,
        accepted + calls.countP fun call => call.status = .accepted,
        err + calls.countP fun call => call.status = .toolError) := by
  induction calls generalizing ok accepted err with
  | nil => rfl
  | cons call calls ih =>
    rw [List.foldl_cons, enterCall_eq, ih]
    simp only [List.countP_cons, decide_eq_true_eq, Prod.mk.injEq]
    omega

theorem callsWith_eq (name : Text) (status : ToolExecutionStatus)
    (calls : List ToolExecutionResult) : callsWith name status calls =
      ((preorder calls).filter fun call => call.name = name).countP
        fun call => call.status = status := by
  rw [callsWith, countCalls_eq, List.countP_filter]
  simp only [Bool.and_comm]

/-- Every call has one of the three outcomes. -/
theorem callsWith_add (name : Text) (calls : List ToolExecutionResult) :
    callsWith name .ok calls + callsWith name .accepted calls + callsWith name .toolError calls =
      (preorder calls).countP fun call => call.name = name := by
  simp only [callsWith_eq, List.countP_eq_length_filter]
  generalize (preorder calls).filter (fun call => call.name = name) = named
  induction named with
  | nil => rfl
  | cons call named ih =>
    cases hstatus : call.status <;> simp [hstatus] <;> omega

theorem accountOf_enterCall (name : Text) (calls : List ToolExecutionResult) :
    Tally.accountOf ToolExecutionResult.name (0, 0, 0) enterCall name (preorder calls) =
      (callsWith name .ok calls, callsWith name .accepted calls,
        callsWith name .toolError calls) := by
  rw [Tally.accountOf, foldl_enterCall]
  simp only [callsWith_eq, Nat.zero_add]

theorem isFirstSeen_order (calls : List ToolExecutionResult) :
    Tally.IsFirstSeen ((preorder calls).map ToolExecutionResult.name)
      (callCounts calls).order := by
  rw [callCounts, flattenToolCalls_eq]
  exact Tally.order_tally _

/-- The counts of a name that is listed are there. -/
theorem accounts_callCounts {calls : List ToolExecutionResult} {name : Text}
    (h : name ∈ (callCounts calls).order) : (callCounts calls).accounts name =
      some (callsWith name .ok calls, callsWith name .accepted calls,
        callsWith name .toolError calls) := by
  have hmem := ((isFirstSeen_order calls).mem_iff name).mp h
  rw [callCounts, flattenToolCalls_eq, Tally.accounts_tally, if_pos hmem, accountOf_enterCall]

theorem mapM_eq_some_map {α β : Type} {f : α → Option β} {g : α → β} {l : List α}
    (h : ∀ a ∈ l, f a = some (g a)) : l.mapM f = some (l.map g) := by
  induction l with
  | nil => rfl
  | cons a l ih =>
    rw [List.mapM_cons, h a List.mem_cons_self, ih fun b hb => h b (List.mem_cons_of_mem a hb)]
    rfl

theorem toolSummaryGroups_eq (calls : List ToolExecutionResult) :
    toolSummaryGroups calls = some ((callCounts calls).order.map (groupOf calls)) := by
  rw [toolSummaryGroups]
  refine mapM_eq_some_map fun name hname => ?_
  rw [accounts_callCounts hname]
  rfl

theorem total_groupOf (calls : List ToolExecutionResult) (names : List Text) :
    totalCalls (names.map (groupOf calls)) =
      Tally.total (fun name => (preorder calls).countP fun call => call.name = name) names := by
  induction names with
  | nil => rfl
  | cons name names ih =>
    rw [List.map_cons, totalCalls, ih, Tally.total, groupOf, callsWith_add]

theorem summarizes_groupOf (calls : List ToolExecutionResult) :
    Summarizes calls ((callCounts calls).order.map (groupOf calls)) := by
  have hseen := isFirstSeen_order calls
  have hnames : ((callCounts calls).order.map (groupOf calls)).map ToolSummaryGroup.name =
      (callCounts calls).order := by
    rw [List.map_map]
    exact List.map_id _
  have hgroup : ∀ group ∈ (callCounts calls).order.map (groupOf calls),
      group = groupOf calls group.name := by
    intro group hgroup
    obtain ⟨name, -, rfl⟩ := List.mem_map.mp hgroup
    rfl
  constructor
  case nodup => exact hnames.symm ▸ hseen.nodup
  case names =>
    intro name
    rw [hnames, hseen.mem_iff, List.mem_map]
    simp only [mem_preorder_iff]
  case firstSeen => exact hnames.symm ▸ hseen.sorted
  case ok => exact fun group h => congrArg ToolSummaryGroup.ok (hgroup group h)
  case accepted => exact fun group h => congrArg ToolSummaryGroup.accepted (hgroup group h)
  case err => exact fun group h => congrArg ToolSummaryGroup.err (hgroup group h)
  case total =>
    rw [total_groupOf, Tally.total_countP hseen.nodup, countCalls_eq, List.countP_true]
    exact fun call hcall => (hseen.mem_iff _).mpr (List.mem_map_of_mem hcall)

/-- **The groups under a reply are a summary of all calls behind it**, whatever calls were made
inside which. -/
theorem toolSummaryGroups_summarizes (calls : List ToolExecutionResult) :
    ∃ groups, toolSummaryGroups calls = some groups ∧ Summarizes calls groups :=
  ⟨_, toolSummaryGroups_eq calls, summarizes_groupOf calls⟩

-- A failed call to one tool with a call to another inside it.
example :
    let clock : ToolExecutionResult := ⟨"clock", "\x7b\x7d", "ok", .ok, none, []⟩
    toolSummaryGroups [⟨"web_fetch", "\x7b\x7d", "", .toolError, none, [clock]⟩, clock] =
      some [⟨"web_fetch", 0, 0, 1⟩, ⟨"clock", 2, 0, 0⟩] := by
  decide

/-- No group is without a call. -/
theorem Summarizes.pos_of_mem {calls : List ToolExecutionResult} {groups : List ToolSummaryGroup}
    (h : Summarizes calls groups) {group : ToolSummaryGroup} (hgroup : group ∈ groups) :
    0 < group.ok + group.accepted + group.err := by
  obtain ⟨call, hin, hname⟩ := (h.names group.name).mp (List.mem_map_of_mem hgroup)
  rw [h.ok group hgroup, h.accepted group hgroup, h.err group hgroup, callsWith_add,
    List.countP_pos_iff]
  exact ⟨call, mem_preorder_iff.mpr hin, decide_eq_true hname⟩

/-- Calls have groups. -/
theorem Summarizes.ne_nil {calls : List ToolExecutionResult} {groups : List ToolSummaryGroup}
    (h : Summarizes calls groups) (hcalls : calls ≠ []) : groups ≠ [] := by
  rintro rfl
  obtain ⟨call, rest, rfl⟩ := List.exists_cons_of_ne_nil hcalls
  exact List.not_mem_nil ((h.names call.name).mpr ⟨call, .top List.mem_cons_self, rfl⟩)

/-! ## What is written under the reply -/

inductive TransparencyRenderStyle where
  | plainFooter
  | discordSubtext
  deriving DecidableEq

def styleForChannel : GatewayChannelKind → Option TransparencyRenderStyle
  | .discord => some .discordSubtext

structure MemoryTransparencySummary where
  shortHits : Nat
  longHits : Nat
  deriving DecidableEq

structure TransparencySummary where
  toolGroups : List ToolSummaryGroup
  memoryHits : Option MemoryTransparencySummary
  deriving DecidableEq

def TransparencySummary.isEmpty (summary : TransparencySummary) : Bool :=
  summary.toolGroups.isEmpty && summary.memoryHits.isNone

/-- What the runner knows of a turn and may show. -/
structure TransparencyInput where
  toolCalls : List ToolExecutionResult
  toolCallsEnabled : Bool
  memoryRecallEnabled : Bool
  memoryRecallUsed : Bool
  memoryRecallShortHits : Nat
  memoryRecallLongHits : Nat

def transparencySummary (input : TransparencyInput) : Option TransparencySummary :=
  let memoryHits := if input.memoryRecallEnabled && input.memoryRecallUsed
    then some ⟨input.memoryRecallShortHits, input.memoryRecallLongHits⟩ else none
  if input.toolCallsEnabled && !input.toolCalls.isEmpty then
    (toolSummaryGroups input.toolCalls).map fun toolGroups => ⟨toolGroups, memoryHits⟩
  else some ⟨[], memoryHits⟩

/-- The counts of a group that are not zero, each as `chip` writes it. -/
def groupChips (chip : Text → Text) (group : ToolSummaryGroup) : List Text :=
  let count (label : Text) (n : Nat) : List Text :=
    if n > 0 then [chip (label ++ ("×" : Text) ++ Text.decimal n)] else []
  count "ok" group.ok ++ count "accepted" group.accepted ++ count "err" group.err

def formatToolSummary (label : Text) (chip : Text → Text) (groups : List ToolSummaryGroup) : Text :=
  if groups.isEmpty then label ++ (" [none]" : Text)
  else label ++ (" " : Text) ++ Text.joinWith ' ' (groups.map fun group =>
    ("[" : Text) ++ group.name ++ (" " : Text) ++ Text.joinWith ' ' (groupChips chip group) ++
      ("]" : Text))

def formatToolSummaryPlain : List ToolSummaryGroup → Text := formatToolSummary "tools:" id

def formatToolSummaryDiscord : List ToolSummaryGroup → Text :=
  formatToolSummary "tools" fun count => ("`" : Text) ++ count ++ ("`" : Text)

def escapeDiscordSubtext (line : Text) : Text := Text.replace line "_" "\\_"

def formatMemoryHits (before after : Text) (hits : MemoryTransparencySummary) : Text :=
  before ++ ("short=" : Text) ++ Text.decimal hits.shortHits ++ (" long=" : Text) ++
    Text.decimal hits.longHits ++ after

def renderForStyle (reply : Text) (summary : TransparencySummary)
    (style : TransparencyRenderStyle) : Text :=
  let parts (format : List ToolSummaryGroup → Text) (hits : MemoryTransparencySummary → Text) :=
    (if summary.toolGroups.isEmpty then [] else [format summary.toolGroups]) ++
      (summary.memoryHits.map hits).toList
  if summary.isEmpty then reply
  else match style with
    | .plainFooter =>
        reply ++ ("\n---\n" : Text) ++
          (" | " : Text).intercalate (parts formatToolSummaryPlain (formatMemoryHits "recall: " []))
    | .discordSubtext =>
        reply ++ ("\n-# " : Text) ++ escapeDiscordSubtext ((" • " : Text).intercalate
          (parts formatToolSummaryDiscord (formatMemoryHits "recall `" "`")))

def renderToolCallTransparency (reply : Text) (input : TransparencyInput)
    (channelKind : GatewayChannelKind) : Option Text :=
  (transparencySummary input).map fun summary =>
    if summary.isEmpty then reply
    else renderForStyle reply summary ((styleForChannel channelKind).getD .plainFooter)

/-- There is something to show. -/
def TransparencyInput.Shows (input : TransparencyInput) : Prop :=
  input.toolCallsEnabled = true ∧ input.toolCalls ≠ [] ∨
    input.memoryRecallEnabled = true ∧ input.memoryRecallUsed = true

theorem exists_transparencySummary (input : TransparencyInput) :
    ∃ summary, transparencySummary input = some summary ∧
      (summary.isEmpty = false ↔ input.Shows) := by
  have hgroups : input.toolCalls ≠ [] →
      ((callCounts input.toolCalls).order.map (groupOf input.toolCalls)).isEmpty = false :=
    fun hcalls => List.isEmpty_eq_false_iff.mpr ((summarizes_groupOf _).ne_nil hcalls)
  rw [transparencySummary, toolSummaryGroups_eq]
  by_cases hcalls : (input.toolCallsEnabled && !input.toolCalls.isEmpty) = true
  · rw [if_pos hcalls]
    refine ⟨_, rfl, ?_⟩
    simp only [Bool.and_eq_true, Bool.not_eq_true', List.isEmpty_eq_false_iff] at hcalls
    simp [TransparencySummary.isEmpty, TransparencyInput.Shows, hcalls, hgroups hcalls.2]
  · rw [if_neg hcalls]
    refine ⟨_, rfl, ?_⟩
    simp only [Bool.and_eq_true, Bool.not_eq_true', List.isEmpty_eq_false_iff] at hcalls
    by_cases hmemory : (input.memoryRecallEnabled && input.memoryRecallUsed) = true <;>
      simp_all [TransparencySummary.isEmpty, TransparencyInput.Shows]

/-- A style adds to the reply and takes nothing from it. -/
theorem exists_renderForStyle (reply : Text) {summary : TransparencySummary}
    (h : summary.isEmpty = false) (style : TransparencyRenderStyle) :
    ∃ below, below ≠ [] ∧ renderForStyle reply summary style = reply ++ below := by
  have hbelow : ∀ head rest : Text, head ≠ [] →
      ∃ below, below ≠ [] ∧ reply ++ head ++ rest = reply ++ below := fun head rest hne =>
    ⟨head ++ rest, List.append_ne_nil_of_left_ne_nil hne rest, List.append_assoc reply head rest⟩
  cases style <;> simp only [renderForStyle, h, Bool.false_eq_true, if_false]
  · exact hbelow _ _ (by decide)
  · exact hbelow _ _ (by decide)

/-- **The reply itself is kept, and something stands under it exactly if there is something to
show.** -/
theorem exists_renderToolCallTransparency (reply : Text) (input : TransparencyInput)
    (channelKind : GatewayChannelKind) :
    ∃ below, renderToolCallTransparency reply input channelKind = some (reply ++ below) ∧
      (below ≠ [] ↔ input.Shows) := by
  obtain ⟨summary, hsummary, hshows⟩ := exists_transparencySummary input
  rw [renderToolCallTransparency, hsummary, Option.map_some]
  cases hempty : summary.isEmpty with
  | true =>
    refine ⟨[], by rw [if_pos rfl, List.append_nil], ?_⟩
    rw [← hshows, hempty]
    simp
  | false =>
    obtain ⟨below, hne, hrender⟩ :=
      exists_renderForStyle reply hempty ((styleForChannel channelKind).getD .plainFooter)
    refine ⟨below, by rw [if_neg Bool.false_ne_true, hrender], ?_⟩
    rw [← hshows, hempty]
    exact iff_of_true hne rfl

end Run
end SimpleClaw
