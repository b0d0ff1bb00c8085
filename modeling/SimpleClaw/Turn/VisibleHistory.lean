import SimpleClaw.Memory.Recall
import SimpleClaw.Turn.Prepare

/-!
# What is recalled beside the history

A turn is sent the last messages of its session, and is reminded of earlier ones.  A hit does not
carry the ids of the messages it was made from, so that it is first traced back to them: to the
message that is like the query and to those around it.

* `HitSource`: the messages behind a hit.
* `hitSources`, `fetchShortTermCandidates_eq_map`: every hit is made from its source.
* `sources_beside_history`: no source is among the last messages or of another session.
-/

namespace SimpleClaw
namespace Turn

open Memory

/-- The messages that a hit is made from. -/
structure HitSource (F : Type) where
  message : MessageRow
  similarity : F
  around : List MessageRow

/-- The hit that is made from them. -/
def HitSource.hit {F : Type} (source : HitSource F) : MemoryRecallHit F where
  store := .shortTerm
  content := renderShortTermMessage source.message.role source.message.content
    source.message.username
  kind := some source.message.role.asDbStr
  importance := none
  contextMessages :=
    if source.around = [] then none else some (source.around.map contextMessage)
  rawSimilarity := source.similarity
  finalScore := source.similarity

/-- What is kept of a message that is like the query. -/
def matchOf {F : Type} (found : MessageRow × F) : ShortTermMatch F where
  id := found.1.id
  role := found.1.role
  content := found.1.content
  username := found.1.username
  similarity := found.2

section Sources

variable {E D F : Type} [LinearOrder D] [LinearOrder F] (params : RecallParams E D F)
  (db : ShortTermDb E) (session : Text) (query : E) (sqlLimit historyWindow contextRadius : Nat)

/-- The messages of the session whose vectors are read, without the last ones. -/
def foundMessages : List (MessageRow × F) :=
  ((params.index.nearest query sqlLimit db.vec).filterMap fun row =>
    ((db.conversation session).find? fun m => m.id = row.id).map fun m =>
      (m, params.similarity.ofDistance (params.index.distance query row.embedding))).filter
    fun found => found.1.id ∉ db.fetchRecentShortTermIds session historyWindow

/-- The messages in a span, without the last ones. -/
def rowsInSpan (span : ContextSpan) : List MessageRow :=
  ((db.conversation session).filter fun m => span.start ≤ m.id ∧ m.id ≤ span.stop).filter
    fun m => m.id ∉ db.fetchRecentShortTermIds session historyWindow

/-- The spans around what is found. -/
def foundSpans : List ContextSpan :=
  mergeShortTermContextSpans
    ((foundMessages params db session query sqlLimit historyWindow).map matchOf) contextRadius

/-- The sources of the hits. -/
def hitSources : List (HitSource F) :=
  (foundMessages params db session query sqlLimit historyWindow).map fun found =>
    { message := found.1
      similarity := found.2
      around := ((foundSpans params db session query sqlLimit historyWindow contextRadius).find?
        fun span => span.contains found.1.id).elim [] (rowsInSpan db session historyWindow) }

variable {db session query sqlLimit historyWindow contextRadius}

theorem shortTermMatches_eq_map :
    shortTermMatches params db session (db.fetchRecentShortTermIds session historyWindow) query
        (params.index.nearest query sqlLimit db.vec) =
      (foundMessages params db session query sqlLimit historyWindow).map matchOf := by
  have hmatch : shortTermMatch params db session query = fun row =>
      (((db.conversation session).find? fun m => m.id = row.id).map fun m =>
        (m, params.similarity.ofDistance (params.index.distance query row.embedding))).map
          matchOf := by
    funext row
    rw [shortTermMatch, Option.map_map]
    rfl
  rw [shortTermMatches, hmatch, ← List.map_filterMap, List.filter_map, foundMessages]
  rfl

variable (db session historyWindow) in
/-- The messages around an item, as the hit shows them. -/
theorem contextMessages_find (spans : List ContextSpan) (id : Int) :
    ((((fetchShortTermContextMessages db session spans
        (db.fetchRecentShortTermIds session historyWindow)).find? fun s => s.1.contains id).map
      Prod.snd).filter fun messages => !messages.isEmpty) =
    if (spans.find? fun span => span.contains id).elim [] (rowsInSpan db session historyWindow) = []
      then none
      else some (((spans.find? fun span => span.contains id).elim []
        (rowsInSpan db session historyWindow)).map contextMessage) := by
  rw [fetchShortTermContextMessages, List.find?_map]
  show Option.filter _ (Option.map Prod.snd (Option.map _ (spans.find? fun s => s.contains id))) = _
  cases spans.find? fun span => span.contains id with
  | none => rfl
  | some span =>
      show Option.filter _ (some ((rowsInSpan db session historyWindow span).map contextMessage)) =
        if rowsInSpan db session historyWindow span = [] then none
        else some ((rowsInSpan db session historyWindow span).map contextMessage)
      cases rowsInSpan db session historyWindow span <;> rfl

/-- **Every hit is made from its source.** -/
theorem fetchShortTermCandidates_eq_map :
    fetchShortTermCandidates params db session query sqlLimit historyWindow contextRadius =
      (hitSources params db session query sqlLimit historyWindow contextRadius).map
        HitSource.hit := by
  rw [fetchShortTermCandidates, shortTermMatches_eq_map, hitSources, List.map_map]
  split
  · next hnone =>
      rw [List.map_eq_nil_iff.mp (List.isEmpty_iff.mp hnone)]
      rfl
  · rw [List.map_map]
    refine List.map_congr_left fun found _ => ?_
    show shortTermHit _ (matchOf found) = HitSource.hit _
    have hcontext := contextMessages_find db session historyWindow
      (foundSpans params db session query sqlLimit historyWindow contextRadius) found.1.id
    rw [shortTermHit, HitSource.hit, ← hcontext]
    rfl

/-! ## Beside the history -/

/-- The message is of the session, and not one of the last. -/
theorem notMem_recent {m : MessageRow}
    (hm : m.id ∉ db.fetchRecentShortTermIds session historyWindow) :
    m ∉ ((db.conversation session).reverse.take historyWindow).reverse := by
  intro hmem
  rw [List.mem_reverse] at hmem
  rw [ShortTermDb.fetchRecentShortTermIds] at hm
  split at hm
  · next hzero =>
      rw [hzero, List.take_zero] at hmem
      cases hmem
  · exact hm (List.mem_toFinset.mpr (List.mem_map_of_mem hmem))

theorem recentMessages_eq : recentMessages none db session historyWindow =
    .ok ((db.conversation session).reverse.take historyWindow).reverse := by
  rw [recentMessages]
  split
  · next hzero => rw [hzero]; rfl
  · rfl

variable (db session query sqlLimit historyWindow contextRadius) in
/-- **No hit and no message around one is among the last messages of the session, and all are of
the session.** -/
theorem sources_beside_history :
    ∃ history, recentMessages none db session historyWindow = .ok history ∧
      fetchShortTermCandidates params db session query sqlLimit historyWindow contextRadius =
        (hitSources params db session query sqlLimit historyWindow contextRadius).map
          HitSource.hit ∧
      ∀ source ∈ hitSources params db session query sqlLimit historyWindow contextRadius,
        ∀ m ∈ source.message :: source.around,
          m ∈ db.messages ∧ m.sessionId = session ∧ m ∉ history := by
  refine ⟨_, recentMessages_eq, fetchShortTermCandidates_eq_map params, fun source hsource => ?_⟩
  obtain ⟨found, hfound, rfl⟩ := List.mem_map.mp hsource
  refine List.forall_mem_cons.mpr ⟨?_, fun m hm => ?_⟩
  · obtain ⟨hrow, hkept⟩ := List.mem_filter.mp hfound
    obtain ⟨row, -, hrow⟩ := List.mem_filterMap.mp hrow
    obtain ⟨m, hm, rfl⟩ := Option.map_eq_some_iff.mp hrow
    obtain ⟨hmem, hsession, -⟩ := mem_conversation.mp (List.mem_of_find?_eq_some hm)
    exact ⟨hmem, hsession, notMem_recent (of_decide_eq_true hkept)⟩
  · cases hspan : (foundSpans params db session query sqlLimit historyWindow contextRadius).find?
      fun span => span.contains found.1.id with
    | none =>
        rw [hspan] at hm
        cases hm
    | some span =>
        rw [hspan] at hm
        obtain ⟨hin, hkept⟩ := List.mem_filter.mp hm
        obtain ⟨hmem, hsession, -⟩ := mem_conversation.mp (List.mem_of_mem_filter hin)
        exact ⟨hmem, hsession, notMem_recent (of_decide_eq_true hkept)⟩

end Sources

end Turn
end SimpleClaw
