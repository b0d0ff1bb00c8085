import SimpleClaw.Lib.FittingPrefix
import SimpleClaw.Memory.Recall
import SimpleClaw.Turn.Prepare

/-!
# The sections of what is recalled

The hits of a query are written into the system prompt, those of long-term memory as numbered lines
and those of short-term memory as excerpts, each kind below its heading.  A section grows hit by hit
as long as it stays within its budget of bytes, and is left out if no hit fits.  How a similarity is
written is a parameter.

* `formatRecalledMemory`: both sections.
* `renderLongTerm`, `renderShortTerm`: the section of given hits, whatever its length.
* `formatRecalledMemory_longest`: the sections are those of the longest prefixes that fit.
* `utf8Len_buildTurnSystemPrompt_le`: how long the system prompt gets.
-/

namespace SimpleClaw
namespace Turn

open FittingPrefix Memory

/-! ## One hit -/

/-- The line of a hit, with its number. -/
def longTermLine {F : Type} (number : Nat) (hit : MemoryRecallHit F) : Text :=
  ("\n" : Text) ++ Text.decimal number ++ (". [" : Text) ++ hit.kind.getD "general" ++
    ("] " : Text) ++ hit.content.trim

def renderContextMessage (message : ShortTermContextMessage) : Text :=
  match message.role with
  | .user =>
      let speaker := ((message.username.map Text.trim).filter (· ≠ [])).getD "user"
      ("[" : Text) ++ speaker ++ ("]: " : Text) ++ message.content.trim
  | .assistant => ("[assistant]: " : Text) ++ message.content.trim
  | .system => ("[system]: " : Text) ++ message.content.trim
  | .tool => ("[tool]: " : Text) ++ message.content.trim

/-- `similarity` is how `{:.2}` writes the number. -/
def renderShortTermExcerpt {F : Type} (similarity : F → Text) (hit : MemoryRecallHit F) : Text :=
  ("\n\n--- excerpt (similarity: " : Text) ++ similarity hit.rawSimilarity ++ (") ---" : Text) ++
    (match hit.contextMessages with
      | some messages =>
          (messages.map fun message => '\n' :: renderContextMessage message).flatten
      | none => ("\n" : Text) ++ hit.content.trim) ++
    ("\n---" : Text)

/-! ## The sections -/

/-- The pieces are added to the section, and counted, up to the first that does not fit. -/
def pushWhileFits (maxChars : Nat) : Text → Nat → List Text → Text × Nat
  | written, count, [] => (written, count)
  | written, count, piece :: pieces =>
      if maxChars < Text.utf8Len written + Text.utf8Len piece then (written, count)
      else pushWhileFits maxChars (written ++ piece) (count + 1) pieces

def noSection : PromptBuildMemorySection := ⟨[], 0, 0⟩

/-- A section below its heading, and how many pieces it has; empty if none of them fits. -/
def growSection (base : Text) (pieces : List Text) (maxChars : Nat) : Text × Nat :=
  if pieces = [] ∨ maxChars = 0 then ([], 0)
  else
    let (written, count) := pushWhileFits maxChars base 0 pieces
    if count = 0 then ([], 0) else (written, count)

def longTermBase : Text :=
  ("# REMEMBERED FACTS\n" : Text) ++
    ("Persistent facts from long-term memory. " : Text) ++
    ("Prioritize the current conversation over these." : Text)

def longTermLines {F : Type} (hits : List (MemoryRecallHit F)) : List Text :=
  hits.mapIdx fun index hit => longTermLine (index + 1) hit

def buildLongTermMemorySection {F : Type} (hits : List (MemoryRecallHit F)) (maxChars : Nat) :
    PromptBuildMemorySection :=
  let (sectionText, longHits) := growSection longTermBase (longTermLines hits) maxChars
  { sectionText, shortHits := 0, longHits }

def shortTermBase : Text :=
  ("# RECALLED CONVERSATIONS\n" : Text) ++
    ("Excerpts from earlier in this session that may be relevant." : Text)

def buildShortTermMemorySection {F : Type} (similarity : F → Text)
    (hits : List (MemoryRecallHit F)) (maxChars : Nat) : PromptBuildMemorySection :=
  let (sectionText, shortHits) :=
    growSection shortTermBase (hits.map (renderShortTermExcerpt similarity)) maxChars
  { sectionText, shortHits, longHits := 0 }

/-- One more section, after those joined so far. -/
def joinMemorySection (joined part : PromptBuildMemorySection) : PromptBuildMemorySection :=
  if part.sectionText = [] then joined
  else
    { sectionText :=
        if joined.sectionText = [] then part.sectionText
        else joined.sectionText ++ ("\n\n" : Text) ++ part.sectionText
      shortHits := joined.shortHits + part.shortHits
      longHits := joined.longHits + part.longHits }

def joinMemorySections (parts : List PromptBuildMemorySection) : PromptBuildMemorySection :=
  parts.foldl joinMemorySection noSection

/-- The hits of one store, in their order. -/
def hitsIn {F : Type} (store : MemoryHitStore) (hits : List (MemoryRecallHit F)) :
    List (MemoryRecallHit F) :=
  hits.filter fun hit => hit.store = store

def formatRecalledMemory {F : Type} (similarity : F → Text) (hits : List (MemoryRecallHit F))
    (longTermMaxChars shortTermMaxChars : Nat) : PromptBuildMemorySection :=
  if hits = [] ∨ longTermMaxChars = 0 ∧ shortTermMaxChars = 0 then noSection
  else
    let longHits := hitsIn .longTerm hits
    let shortHits := hitsIn .shortTerm hits
    joinMemorySections
      [buildLongTermMemorySection longHits longTermMaxChars,
        buildShortTermMemorySection similarity shortHits shortTermMaxChars]

/-! ## The section of given hits -/

/-- The heading with the pieces below it, or nothing if there are none. -/
def render (base : Text) (pieces : List Text) : Text :=
  if pieces = [] then [] else base ++ pieces.flatten

/-- The section that lists these hits of long-term memory. -/
def renderLongTerm {F : Type} (hits : List (MemoryRecallHit F)) : Text :=
  render longTermBase (longTermLines hits)

/-- The section with the excerpts of these hits of short-term memory. -/
def renderShortTerm {F : Type} (similarity : F → Text) (hits : List (MemoryRecallHit F)) : Text :=
  render shortTermBase (hits.map (renderShortTermExcerpt similarity))

/-- The number of hits of the longest prefix whose section is within the budget. -/
def IsLongestFitting {α : Type} (render : List α → Text) (hits : List α) (maxChars n : Nat) :
    Prop :=
  IsGreatest {n | n ≤ hits.length ∧ Text.utf8Len (render (hits.take n)) ≤ maxChars} n

/-- The sections that are not empty, an empty line apart. -/
def joinTexts (texts : List Text) : Text :=
  List.intercalate ("\n\n" : Text) (texts.filter (· ≠ []))

/-! ## Growing a section -/

theorem utf8Len_flatten (pieces : List Text) :
    Text.utf8Len pieces.flatten = totalSize Text.utf8Len pieces := by
  induction pieces with
  | nil => rfl
  | cons piece pieces ih => rw [List.flatten_cons, Text.utf8Len_append, ih, totalSize]

/-- The loop adds the longest prefix that fits. -/
theorem pushWhileFits_eq (maxChars : Nat) (written : Text) (count : Nat) (pieces : List Text) :
    pushWhileFits maxChars written count pieces =
      (written ++ (pieces.take
          (fitting Text.utf8Len maxChars (Text.utf8Len written) pieces)).flatten,
        count + fitting Text.utf8Len maxChars (Text.utf8Len written) pieces) := by
  induction pieces generalizing written count with
  | nil => simp [pushWhileFits, fitting]
  | cons piece pieces ih =>
      rw [pushWhileFits, fitting]
      split
      · simp
      · rw [ih, Text.utf8Len_append, List.take_succ_cons, List.flatten_cons, List.append_assoc,
          Nat.add_assoc, Nat.add_comm 1]

section Render

variable {base : Text} {pieces : List Text} {maxChars : Nat}

theorem render_nil (base : Text) : render base [] = [] := rfl

theorem render_eq_nil_iff (hbase : base ≠ []) : render base pieces = [] ↔ pieces = [] := by
  rw [render]
  split
  · next hpieces => exact iff_of_true rfl hpieces
  · next hpieces =>
    exact iff_of_false (fun h => hbase (List.append_eq_nil_iff.mp h).1) hpieces

theorem utf8Len_render_take {n : Nat} (hn : n ≤ pieces.length) (hpos : 0 < n) :
    Text.utf8Len (render base (pieces.take n)) =
      Text.utf8Len base + sizeOfTake Text.utf8Len pieces n := by
  have hne : pieces.take n ≠ [] := by
    rw [Ne, ← List.length_eq_zero_iff, List.length_take]
    omega
  rw [render, if_neg hne, Text.utf8Len_append, utf8Len_flatten, sizeOfTake]

/-- **What the loop counts is the longest prefix that can be rendered** within the budget. -/
theorem isGreatest_fitting_render (base : Text) (pieces : List Text) (maxChars : Nat) :
    IsGreatest {n | n ≤ pieces.length ∧ Text.utf8Len (render base (pieces.take n)) ≤ maxChars}
      (fitting Text.utf8Len maxChars (Text.utf8Len base) pieces) := by
  have hset : {n | n ≤ pieces.length ∧ Text.utf8Len (render base (pieces.take n)) ≤ maxChars} =
      {n | n ≤ pieces.length ∧
        (0 < n → Text.utf8Len base + sizeOfTake Text.utf8Len pieces n ≤ maxChars)} := by
    ext n
    refine and_congr_right fun hn => ?_
    obtain rfl | hpos := Nat.eq_zero_or_pos n
    · refine iff_of_true ?_ fun h => absurd h (Nat.lt_irrefl 0)
      exact Nat.zero_le maxChars
    · rw [utf8Len_render_take hn hpos]
      exact ⟨fun h _ => h, fun h => h hpos⟩
  rw [hset]
  exact fitting_isGreatest _ _

/-- Nothing fits into no budget. -/
theorem fitting_base_zero (hbase : base ≠ []) (pieces : List Text) :
    fitting Text.utf8Len 0 (Text.utf8Len base) pieces = 0 := by
  have hpos := Text.length_le_utf8Len base
  have hlen := List.length_pos_iff.mpr hbase
  cases pieces with
  | nil => rfl
  | cons piece pieces => rw [fitting, if_pos (by omega)]

/-- **A section is the rendering of the longest prefix that fits.** -/
theorem growSection_eq (hbase : base ≠ []) (pieces : List Text) (maxChars : Nat) :
    growSection base pieces maxChars =
      (render base (pieces.take (fitting Text.utf8Len maxChars (Text.utf8Len base) pieces)),
        fitting Text.utf8Len maxChars (Text.utf8Len base) pieces) := by
  rw [growSection, pushWhileFits_eq, Nat.zero_add]
  split
  · next hnone =>
    have hzero : fitting Text.utf8Len maxChars (Text.utf8Len base) pieces = 0 := by
      obtain rfl | rfl := hnone
      · rfl
      · exact fitting_base_zero hbase pieces
    rw [hzero, List.take_zero, render_nil]
  · simp only
    split
    · next hzero => rw [hzero, List.take_zero, render_nil]
    · next hpos =>
      have hlen : fitting Text.utf8Len maxChars (Text.utf8Len base) pieces ≤ pieces.length :=
        fitting_le_length _ _
      have hne : pieces.take (fitting Text.utf8Len maxChars (Text.utf8Len base) pieces) ≠ [] := by
        rw [Ne, ← List.length_eq_zero_iff, List.length_take]
        omega
      rw [render, if_neg hne]

end Render

/-! ## The sections of the hits -/

section Sections

variable {F : Type} {similarity : F → Text}

theorem longTermLines_take (hits : List (MemoryRecallHit F)) (n : Nat) :
    longTermLines (hits.take n) = (longTermLines hits).take n := by
  refine List.ext_getElem? fun i => ?_
  simp only [longTermLines, List.getElem?_mapIdx, List.getElem?_take]
  split <;> simp

theorem length_longTermLines (hits : List (MemoryRecallHit F)) :
    (longTermLines hits).length = hits.length := List.length_mapIdx

/-- **The long-term section lists the longest prefix of the hits that fits.** -/
theorem buildLongTermMemorySection_longest (hits : List (MemoryRecallHit F)) (maxChars : Nat) :
    ∃ n, IsLongestFitting renderLongTerm hits maxChars n ∧
      buildLongTermMemorySection hits maxChars = ⟨renderLongTerm (hits.take n), 0, n⟩ := by
  have hgreatest := isGreatest_fitting_render longTermBase (longTermLines hits) maxChars
  simp only [← longTermLines_take, length_longTermLines] at hgreatest
  refine ⟨_, hgreatest, ?_⟩
  rw [buildLongTermMemorySection, growSection_eq (by decide), renderLongTerm, longTermLines_take]

/-- **The short-term section has the excerpts of the longest prefix of the hits that fits.** -/
theorem buildShortTermMemorySection_longest (hits : List (MemoryRecallHit F)) (maxChars : Nat) :
    ∃ n, IsLongestFitting (renderShortTerm similarity) hits maxChars n ∧
      buildShortTermMemorySection similarity hits maxChars =
        ⟨renderShortTerm similarity (hits.take n), n, 0⟩ := by
  have hgreatest := isGreatest_fitting_render shortTermBase
    (hits.map (renderShortTermExcerpt similarity)) maxChars
  simp only [← List.map_take, List.length_map] at hgreatest
  refine ⟨_, hgreatest, ?_⟩
  rw [buildShortTermMemorySection, growSection_eq (by decide), renderShortTerm, List.map_take]

/-- A long-term section that is empty lists no hit. -/
theorem eq_zero_of_renderLongTerm {hits : List (MemoryRecallHit F)} {n : Nat}
    (hn : n ≤ hits.length) (h : renderLongTerm (hits.take n) = []) : n = 0 := by
  have hlines := (render_eq_nil_iff (by decide)).mp h
  rw [← List.length_eq_zero_iff, length_longTermLines, List.length_take] at hlines
  omega

theorem eq_zero_of_renderShortTerm {hits : List (MemoryRecallHit F)} {n : Nat}
    (hn : n ≤ hits.length) (h : renderShortTerm similarity (hits.take n) = []) : n = 0 := by
  have hexcerpts := (render_eq_nil_iff (by decide)).mp h
  rw [List.map_eq_nil_iff, ← List.length_eq_zero_iff, List.length_take] at hexcerpts
  omega

/-- Two sections are joined by an empty line, and their hits are counted together. -/
theorem joinMemorySections_pair {a b : PromptBuildMemorySection}
    (ha : a.sectionText = [] → a.shortHits = 0 ∧ a.longHits = 0)
    (hb : b.sectionText = [] → b.shortHits = 0 ∧ b.longHits = 0) :
    joinMemorySections [a, b] =
      ⟨joinTexts [a.sectionText, b.sectionText], a.shortHits + b.shortHits,
        a.longHits + b.longHits⟩ := by
  obtain ⟨textA, shortA, longA⟩ := a
  obtain ⟨textB, shortB, longB⟩ := b
  simp only [joinMemorySections, List.foldl_cons, List.foldl_nil, joinMemorySection, noSection,
    joinTexts] at ha hb ⊢
  by_cases hA : textA = []
  · obtain ⟨rfl, rfl⟩ := ha hA
    by_cases hB : textB = []
    · obtain ⟨rfl, rfl⟩ := hb hB
      simp [hA, hB]
    · simp [hA, hB]
  · by_cases hB : textB = []
    · obtain ⟨rfl, rfl⟩ := hb hB
      simp [hA, hB]
    · simp [hA, hB, List.intercalate]

/-- Where there is nothing to write from the start there would be nothing to join. -/
theorem formatRecalledMemory_eq (hits : List (MemoryRecallHit F))
    (longTermMaxChars shortTermMaxChars : Nat) :
    formatRecalledMemory similarity hits longTermMaxChars shortTermMaxChars =
      joinMemorySections
        [buildLongTermMemorySection (hitsIn .longTerm hits) longTermMaxChars,
          buildShortTermMemorySection similarity (hitsIn .shortTerm hits) shortTermMaxChars] := by
  rw [formatRecalledMemory]
  split
  · next hnone =>
    obtain rfl | ⟨rfl, rfl⟩ := hnone
    · rfl
    · simp only [buildLongTermMemorySection, buildShortTermMemorySection, growSection, or_true,
        if_true]
      rfl
  · rfl

/-- What the sections of so many hits are joined to. -/
theorem formatRecalledMemory_of_sections {hits : List (MemoryRecallHit F)}
    {longTermMaxChars shortTermMaxChars longHits shortHits : Nat}
    (hlong : longHits ≤ (hitsIn .longTerm hits).length)
    (hlongSection : buildLongTermMemorySection (hitsIn .longTerm hits) longTermMaxChars =
      ⟨renderLongTerm ((hitsIn .longTerm hits).take longHits), 0, longHits⟩)
    (hshort : shortHits ≤ (hitsIn .shortTerm hits).length)
    (hshortSection :
      buildShortTermMemorySection similarity (hitsIn .shortTerm hits) shortTermMaxChars =
        ⟨renderShortTerm similarity ((hitsIn .shortTerm hits).take shortHits), shortHits, 0⟩) :
    formatRecalledMemory similarity hits longTermMaxChars shortTermMaxChars =
      { sectionText := joinTexts
          [renderLongTerm ((hitsIn .longTerm hits).take longHits),
            renderShortTerm similarity ((hitsIn .shortTerm hits).take shortHits)]
        shortHits
        longHits } := by
  rw [formatRecalledMemory_eq, hlongSection, hshortSection, joinMemorySections_pair]
  · rw [Nat.zero_add, Nat.add_zero]
  · exact fun h => ⟨rfl, eq_zero_of_renderLongTerm hlong h⟩
  · exact fun h => ⟨eq_zero_of_renderShortTerm hshort h, rfl⟩

/-- **Each section is that of the longest prefix of its hits within its own budget**, the hits of
both are counted, and a section without a hit is left out. -/
theorem formatRecalledMemory_longest (similarity : F → Text) (hits : List (MemoryRecallHit F))
    (longTermMaxChars shortTermMaxChars : Nat) :
    ∃ longHits shortHits,
      IsLongestFitting renderLongTerm (hitsIn .longTerm hits) longTermMaxChars longHits ∧
      IsLongestFitting (renderShortTerm similarity) (hitsIn .shortTerm hits) shortTermMaxChars
        shortHits ∧
      formatRecalledMemory similarity hits longTermMaxChars shortTermMaxChars =
        { sectionText := joinTexts
            [renderLongTerm ((hitsIn .longTerm hits).take longHits),
              renderShortTerm similarity ((hitsIn .shortTerm hits).take shortHits)]
          shortHits
          longHits } := by
  obtain ⟨longHits, hlong, hlongSection⟩ :=
    buildLongTermMemorySection_longest (hitsIn .longTerm hits) longTermMaxChars
  obtain ⟨shortHits, hshort, hshortSection⟩ :=
    buildShortTermMemorySection_longest (hitsIn .shortTerm hits) shortTermMaxChars
  exact ⟨longHits, shortHits, hlong, hshort,
    formatRecalledMemory_of_sections hlong.1.1 hlongSection hshort.1.1 hshortSection⟩

end Sections

/-! ## The prompt -/

section Prompt

variable {F : Type} {similarity : F → Text}

theorem utf8Len_joinTexts_le (a b : Text) :
    Text.utf8Len (joinTexts [a, b]) ≤ Text.utf8Len a + 2 + Text.utf8Len b := by
  have hlen : Text.utf8Len ("\n\n" : Text) = 2 := by decide
  by_cases ha : a = []
  · by_cases hb : b = []
    · simp [joinTexts, ha, hb]
    · simp [joinTexts, ha, hb]
  · by_cases hb : b = []
    · simp [joinTexts, ha, hb, List.intercalate]
    · simp only [joinTexts, List.intercalate, ha, hb, List.filter_cons, List.filter_nil, ne_eq,
        not_false_eq_true, decide_true, if_true, List.intersperse, List.flatten_cons,
        List.flatten_nil, List.append_nil, Text.utf8Len_append, hlen]
      omega

/-- What is recalled takes the two budgets and what joins the sections. -/
theorem utf8Len_formatRecalledMemory_le (hits : List (MemoryRecallHit F))
    (longTermMaxChars shortTermMaxChars : Nat) :
    Text.utf8Len
        (formatRecalledMemory similarity hits longTermMaxChars shortTermMaxChars).sectionText ≤
      longTermMaxChars + 2 + shortTermMaxChars := by
  obtain ⟨longHits, ⟨⟨hlong, hlongFits⟩, -⟩, hlongSection⟩ :=
    buildLongTermMemorySection_longest (hitsIn .longTerm hits) longTermMaxChars
  obtain ⟨shortHits, ⟨⟨hshort, hshortFits⟩, -⟩, hshortSection⟩ :=
    buildShortTermMemorySection_longest (hitsIn .shortTerm hits) shortTermMaxChars
  rw [formatRecalledMemory_of_sections hlong hlongSection hshort hshortSection]
  refine le_trans (utf8Len_joinTexts_le _ _) ?_
  exact Nat.add_le_add (Nat.add_le_add_right hlongFits 2) hshortFits

/-- **The system prompt grows by no more than that**, whatever is recalled. -/
theorem utf8Len_buildTurnSystemPrompt_le {agent : AgentRuntimeConfig}
    {recallHits : Text → Except FrameworkError (List (MemoryRecallHit F))}
    {longTermMaxChars shortTermMaxChars : Nat} {query : Text} {promptBuild : PromptBuild}
    (h : buildTurnSystemPrompt agent (fun normalizedQuery =>
        (recallHits normalizedQuery).map fun hits =>
          formatRecalledMemory similarity hits longTermMaxChars shortTermMaxChars) query =
      .ok promptBuild) :
    Text.utf8Len promptBuild.systemPrompt ≤
      Text.utf8Len agent.systemPrompt + longTermMaxChars + shortTermMaxChars + 4 := by
  have hlen : Text.utf8Len ("\n\n" : Text) = 2 := by decide
  have hwithout : Text.utf8Len (PromptBuild.withoutRecall agent.systemPrompt).systemPrompt ≤
      Text.utf8Len agent.systemPrompt + longTermMaxChars + shortTermMaxChars + 4 := by
    show Text.utf8Len agent.systemPrompt ≤ _
    omega
  simp only [buildTurnSystemPrompt] at h
  split at h
  · exact Except.ok.inj h ▸ hwithout
  split at h
  · exact Except.ok.inj h ▸ hwithout
  · cases h
  split at h
  · exact Except.ok.inj h ▸ hwithout
  split at h
  · exact Except.ok.inj h ▸ hwithout
  · next recalled hrecalled =>
    obtain ⟨hits, -, rfl⟩ := map_eq_ok_iff.mp hrecalled
    have hsection : Text.utf8Len (formatRecalledMemory similarity hits longTermMaxChars
        shortTermMaxChars).sectionText ≤ longTermMaxChars + 2 + shortTermMaxChars :=
      utf8Len_formatRecalledMemory_le hits longTermMaxChars shortTermMaxChars
    split at h
    · exact Except.ok.inj h ▸ hwithout
    · rw [← Except.ok.inj h]
      simp only [Text.utf8Len_append, hlen]
      omega

end Prompt

end Turn
end SimpleClaw
