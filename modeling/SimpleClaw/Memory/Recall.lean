import SimpleClaw.Lib.Select
import SimpleClaw.Lib.Spans
import SimpleClaw.Memory.ShortTerm

/-!
# Recall

A query is answered from both memories.  Of each index the rows nearest to the query are read; the
ones of short-term memory are then restricted to what was said in the session, and come with the
messages around them.  The candidates are ranked by score, those that are alike are given once, and
the best few are the hits.

The vectors and similarities are the parameters of long-term memory; the arithmetic of the scores
and the lower case of a text are parameters too.

* `fetchLongTermCandidates`, `fetchShortTermCandidates`: the candidates.
* `mergeShortTermContextSpans`: the ids around the candidates.
* `rankRecallHits`: the ranking; `rankRecallHits_eq` says what it selects, and
  `rankRecallHits_greedy` that it is the greedy choice.
* `queryRecallHits`: the query.
-/

namespace SimpleClaw
namespace Memory

inductive MemoryHitStore where
  | longTerm
  | shortTerm
  deriving DecidableEq

inductive MemoryStoreScope where
  | combined
  | longTerm
  | shortTerm
  deriving DecidableEq

structure ShortTermContextMessage where
  role : StoredRole
  content : Text
  username : Option Text
  deriving DecidableEq

structure MemoryRecallHit (F : Type) where
  store : MemoryHitStore
  content : Text
  kind : Option Text
  importance : Option Int
  contextMessages : Option (List ShortTermContextMessage)
  rawSimilarity : F
  finalScore : F
  deriving DecidableEq

/-- What is read of the configuration. -/
structure MemoryRecallConfig (F : Type) where
  topK : Nat
  minScore : F
  longTermWeight : F
  shortTermContextRadius : Nat

def MemoryRecallConfig.normalized {D F : Type} [LinearOrder D] [LinearOrder F]
    (similarity : Similarity D F) (config : MemoryRecallConfig F) : MemoryRecallConfig F where
  topK := min (max config.topK 1) 10
  minScore := max similarity.zero (min config.minScore similarity.one)
  longTermWeight := max similarity.zero (min config.longTermWeight similarity.one)
  shortTermContextRadius := min config.shortTermContextRadius 5

/-- What recall computes with. -/
structure RecallParams (E D F : Type) [LinearOrder D] [LinearOrder F] extends
    LongTermConfig E D F where
  /-- `similarity * (1.0 + (imp - 1.0) * 0.1)` -/
  withImportance : F → Int → F
  mul : F → F → F
  toLowercase : Text → Text

structure RecallRequest (F : Type) where
  session : Text
  query : Text
  config : MemoryRecallConfig F
  historyWindow : Nat
  scope : MemoryStoreScope
  preferLongTerm : Bool

/-- A candidate of short-term memory. -/
structure ShortTermMatch (F : Type) where
  id : Int
  role : StoredRole
  content : Text
  username : Option Text
  similarity : F
  deriving DecidableEq

/-! ## Messages around a candidate -/

/-- A range of ids. -/
abbrev ContextSpan := Spans.Span

def contextSpan (radius : Nat) (id : Int) : ContextSpan :=
  if radius ≤ i64Max then { start := saturatingSub id radius, stop := saturatingAdd id radius }
  else
    -- `context_radius as i64` is negative
    { start := saturatingAdd id (2 ^ 64 - radius), stop := saturatingSub id (2 ^ 64 - radius) }

theorem contextSpan_of_le {radius : Nat} (h : radius ≤ i64Max) (id : Int) :
    contextSpan radius id =
      { start := saturatingSub id radius, stop := saturatingAdd id radius } := if_pos h

theorem shortTermContextRadius_normalized_le {D F : Type} [LinearOrder D] [LinearOrder F]
    (similarity : Similarity D F) (config : MemoryRecallConfig F) :
    (config.normalized similarity).shortTermContextRadius ≤ i64Max := by
  have hle : (config.normalized similarity).shortTermContextRadius ≤ 5 := Nat.min_le_right _ _
  have hmax : (5 : Int) ≤ i64Max := by decide
  omega

/-- One more span, after those with smaller starts; the last one comes first. -/
def mergeSpan (merged : List ContextSpan) (span : ContextSpan) : List ContextSpan :=
  match merged with
  | [] => [span]
  | last :: rest =>
      if span.start ≤ saturatingAdd last.stop 1 then
        { last with stop := max last.stop span.stop } :: rest
      else span :: last :: rest

def mergeShortTermContextSpans {F : Type} (items : List (ShortTermMatch F)) (contextRadius : Nat) :
    List ContextSpan :=
  let spans := items.map fun item => contextSpan contextRadius item.id
  ((spans.insertionSort fun s t => s.start ≤ t.start).foldl mergeSpan []).reverse

def contextMessage (m : MessageRow) : ShortTermContextMessage where
  role := m.role
  content := m.content
  username := m.username

def fetchShortTermContextMessages {E : Type} (db : ShortTermDb E) (session : Text)
    (spans : List ContextSpan) (excluded : Finset Int) :
    List (ContextSpan × List ShortTermContextMessage) :=
  spans.map fun span =>
    (span, (((db.conversation session).filter fun m => span.start ≤ m.id ∧ m.id ≤ span.stop).filter
      fun m => m.id ∉ excluded).map contextMessage)

/-! ## Candidates -/

def renderShortTermMessage (role : StoredRole) (content : Text) (username : Option Text) : Text :=
  if role = .user then
    match (username.map Text.trim).filter fun name => name ≠ [] with
    | some name => ("[" : Text) ++ name ++ ("] " : Text) ++ content
    | none => content
  else content

/-- A candidate with the messages of the span it is in. -/
def shortTermHit {F : Type} (spanMessages : List (ContextSpan × List ShortTermContextMessage))
    (item : ShortTermMatch F) : MemoryRecallHit F where
  store := .shortTerm
  content := renderShortTermMessage item.role item.content item.username
  kind := some item.role.asDbStr
  importance := none
  contextMessages := ((spanMessages.find? fun s => s.1.contains item.id).map Prod.snd).filter
    fun messages => !messages.isEmpty
  rawSimilarity := item.similarity
  finalScore := item.similarity

theorem contextMessages_shortTermHit {F : Type}
    (spanMessages : List (ContextSpan × List ShortTermContextMessage)) (item : ShortTermMatch F) :
    (shortTermHit spanMessages item).contextMessages =
      ((spanMessages.find? fun s => s.1.contains item.id).map Prod.snd).filter
        fun messages => !messages.isEmpty := rfl

section Recall

variable {E D F : Type} [LinearOrder D] [LinearOrder F] (params : RecallParams E D F)

def fetchLongTermCandidates (longTerm : LongTermDb E) (query : E) (sqlLimit : Nat)
    (longTermWeight : F) : List (MemoryRecallHit F) :=
  (similarFacts params.toLongTermConfig longTerm query sqlLimit).map fun found =>
    let imp := max 1 (min found.1.importance 5)
    { store := .longTerm
      content := found.1.content
      kind := some found.1.kind
      importance := some found.1.importance
      contextMessages := none
      rawSimilarity := found.2
      finalScore := params.mul (params.withImportance found.2 imp) longTermWeight }

/-- `JOIN messages m ON m.id = v.message_id`, for a message that was said in the session. -/
def shortTermMatch (db : ShortTermDb E) (session : Text) (query : E) (row : VecRow E) :
    Option (ShortTermMatch F) :=
  ((db.conversation session).find? fun m => m.id = row.id).map fun m =>
    { id := m.id, role := m.role, content := m.content, username := m.username
      similarity := params.similarity.ofDistance (params.index.distance query row.embedding) }

/-- What was said in the session, among the rows of the index. -/
def shortTermMatches (db : ShortTermDb E) (session : Text) (excluded : Finset Int) (query : E)
    (rows : List (VecRow E)) : List (ShortTermMatch F) :=
  (rows.filterMap (shortTermMatch params db session query)).filter fun item => item.id ∉ excluded

def fetchShortTermCandidates (db : ShortTermDb E) (session : Text) (query : E) (sqlLimit : Nat)
    (historyWindow contextRadius : Nat) : List (MemoryRecallHit F) :=
  let excluded := db.fetchRecentShortTermIds session historyWindow
  let items := shortTermMatches params db session excluded query
    (params.index.nearest query sqlLimit db.vec)
  if items.isEmpty then []
  else
    let spans := mergeShortTermContextSpans items contextRadius
    let spanMessages := fetchShortTermContextMessages db session spans excluded
    items.map (shortTermHit spanMessages)

/-! ## Ranking -/

def normalizeMemoryKey (value : Text) : Text :=
  params.toLowercase (Text.joinWith ' ' (Text.splitWhitespace value))

/-- The loop over the candidates: those with a key in `dedupe` have been given. -/
def rankFrom (config : MemoryRecallConfig F) (dedupe : Finset Text)
    (out : List (MemoryRecallHit F)) : List (MemoryRecallHit F) → List (MemoryRecallHit F)
  | [] => out
  | item :: candidates =>
      if item.rawSimilarity < config.minScore then rankFrom config dedupe out candidates
      else
        let key := normalizeMemoryKey params item.content
        if key = [] then rankFrom config dedupe out candidates
        else if key ∈ dedupe then rankFrom config dedupe out candidates
        else
          let out := out ++ [item]
          if config.topK ≤ out.length then out
          else rankFrom config (insert key dedupe) out candidates

def rankRecallHits (candidates : List (MemoryRecallHit F)) (config : MemoryRecallConfig F) :
    List (MemoryRecallHit F) :=
  rankFrom params config ∅ [] (Select.byScore MemoryRecallHit.finalScore candidates)

/-! ## The query -/

/-- The number of rows that are read of an index. -/
def sqlLimit (config : MemoryRecallConfig F) : Nat := max (config.topK * 5) 1

/-- `embedError` is why the query could not be embedded, if it could not. -/
def queryRecallHits (longTerm : LongTermDb E) (db : ShortTermDb E)
    (embedError : Option FrameworkError) (request : RecallRequest F) :
    Except FrameworkError (List (MemoryRecallHit F)) :=
  let config := request.config.normalized params.similarity
  match embedError with
  | some e => .error e
  | none =>
      let query := params.embed request.query
      let longTermHits :=
        if request.scope = .combined ∨ request.scope = .longTerm then
          fetchLongTermCandidates params longTerm query (sqlLimit config) config.longTermWeight
        else []
      let shortTermHits :=
        if request.scope = .combined ∨ request.scope = .shortTerm then
          fetchShortTermCandidates params db request.session query (sqlLimit config)
            request.historyWindow config.shortTermContextRadius
        else []
      if request.preferLongTerm = true ∧ request.scope = .combined then
        let rankedLong := rankRecallHits params longTermHits config
        let rankedShort := rankRecallHits params shortTermHits config
        if rankedLong.length < config.topK then
          .ok (rankedLong ++ rankedShort.take (config.topK - rankedLong.length))
        else .ok rankedLong
      else .ok (rankRecallHits params (longTermHits ++ shortTermHits) config)

end Recall

/-! ## What a ranking selects -/

section Ranking

variable {E D F : Type} [LinearOrder D] [LinearOrder F] (params : RecallParams E D F)
  (config : MemoryRecallConfig F)

/-- The candidate is similar enough and not empty. -/
def Eligible (content : Text) (similarity : F) : Bool :=
  decide (config.minScore ≤ similarity ∧ normalizeMemoryKey params content ≠ [])

def hitEligible (hit : MemoryRecallHit F) : Bool :=
  Eligible params config hit.content hit.rawSimilarity

def hitKey (hit : MemoryRecallHit F) : Text := normalizeMemoryKey params hit.content

theorem rankFrom_eq {dedupe : Finset Text} {out candidates : List (MemoryRecallHit F)}
    (hout : out.length < config.topK) : rankFrom params config dedupe out candidates =
      out ++ (Select.firsts (hitEligible params config) (hitKey params) dedupe candidates).take
        (config.topK - out.length) := by
  induction candidates generalizing dedupe out with
  | nil => simp [rankFrom, Select.firsts]
  | cons item candidates ih =>
      have hskip : rankFrom params config dedupe out candidates = out ++
          (Select.firsts (hitEligible params config) (hitKey params) dedupe candidates).take
            (config.topK - out.length) := ih hout
      rw [rankFrom, Select.firsts]
      split
      · next hlow =>
          rw [if_neg fun h => ?_, hskip]
          exact absurd hlow (not_lt.mpr (of_decide_eq_true h.1).1)
      · next hlow =>
          show (if normalizeMemoryKey params item.content = [] then _ else _) = _
          split
          · next hempty =>
              rw [if_neg fun h => ?_, hskip]
              exact (of_decide_eq_true h.1).2 hempty
          · next hempty =>
              split
              · next hseen => rw [if_neg fun h => h.2 hseen, hskip]
              · next hseen =>
                  have hnew : hitEligible params config item = true ∧ hitKey params item ∉ dedupe :=
                    ⟨decide_eq_true ⟨not_lt.mp hlow, hempty⟩, hseen⟩
                  obtain ⟨n, hn⟩ : ∃ n, config.topK - out.length = n + 1 :=
                    ⟨config.topK - out.length - 1, by omega⟩
                  rw [if_pos hnew, hn, List.take_succ_cons]
                  show (if config.topK ≤ (out ++ [item]).length then _ else _) = _
                  have hlength : (out ++ [item]).length = out.length + 1 := List.length_append
                  split
                  · next hfull =>
                      rw [show n = 0 by omega, List.take_zero]
                  · next hfull =>
                      rw [ih (by omega), show config.topK - (out ++ [item]).length = n by omega,
                        List.append_assoc]
                      rfl

/-- **The hits are the best eligible candidate of each key, as many as there is room for.** -/
theorem rankRecallHits_eq (candidates : List (MemoryRecallHit F)) (htopK : 0 < config.topK) :
    rankRecallHits params candidates config =
      Select.select MemoryRecallHit.finalScore (hitEligible params config) (hitKey params)
        config.topK candidates := by
  rw [rankRecallHits, rankFrom_eq params config (show ([] : List _).length < _ from htopK)]
  rfl

/-! ### The greedy choice -/

/-- The hits are some of the candidates, best first, each similar enough and with a key of its
own; a candidate that could be one and is not is no better than the hit of its key, or no better
than any of the hits when there is no room for more. -/
structure GreedyChoice (candidates hits : List (MemoryRecallHit F)) : Prop where
  subperm : hits.Subperm candidates
  sorted : hits.Pairwise fun a b => b.finalScore ≤ a.finalScore
  distinct : (hits.map (hitKey params)).Nodup
  nonempty : ∀ hit ∈ hits, hitKey params hit ≠ []
  length_le : hits.length ≤ config.topK
  similar : ∀ hit ∈ hits, config.minScore ≤ hit.rawSimilarity
  maximal : ∀ item ∈ candidates, hitKey params item ≠ [] → config.minScore ≤ item.rawSimilarity →
    (∃ hit ∈ hits, hitKey params hit = hitKey params item ∧ item.finalScore ≤ hit.finalScore) ∨
      hits.length = config.topK ∧ ∀ hit ∈ hits, item.finalScore ≤ hit.finalScore

variable {params config} in
theorem hitEligible_iff {hit : MemoryRecallHit F} : hitEligible params config hit = true ↔
    config.minScore ≤ hit.rawSimilarity ∧ hitKey params hit ≠ [] := decide_eq_true_iff

theorem topK_normalized_pos (similarity : Similarity D F) (config : MemoryRecallConfig F) :
    0 < (config.normalized similarity).topK :=
  lt_min (lt_max_of_lt_right Nat.one_pos) (by decide)

/-- **The hits are the greedy choice among the candidates.** -/
theorem rankRecallHits_greedy (candidates : List (MemoryRecallHit F)) :
    GreedyChoice params (config.normalized params.similarity) candidates
      (rankRecallHits params candidates (config.normalized params.similarity)) := by
  rw [rankRecallHits_eq params _ candidates (topK_normalized_pos params.similarity config)]
  generalize config.normalized params.similarity = config
  refine ⟨Select.select_subperm _ _, Select.pairwise_select _ _, Select.nodup_map_key_select,
    fun hit hhit => ?_, ?_, fun hit hhit => ?_, fun item hitem hkey hsimilar => ?_⟩
  · exact (hitEligible_iff.mp (Select.eligible_of_mem_select hhit)).2
  · rw [Select.length_select]
    exact Nat.min_le_left _ _
  · exact (hitEligible_iff.mp (Select.eligible_of_mem_select hhit)).1
  · exact Select.select_covers hitem (hitEligible_iff.mpr ⟨hsimilar, hkey⟩)

end Ranking

end Memory
end SimpleClaw
