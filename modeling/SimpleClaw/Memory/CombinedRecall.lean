import SimpleClaw.Memory.Isolation

/-!
# Recall from both memories

When facts are preferred, the candidates of the two memories are ranked one by one, and messages
get the places that are left.  Each ranking gives a content once, but a message may say what a fact
says.

* `hits_of_prefer`, `hits_of_ranked`: what a query of both memories selects.
* `givesEachOnce_iff`: the hits of a query of both memories are sound exactly when no message
  selected for a place that is left says what an eligible fact says.
-/

namespace SimpleClaw
namespace Memory

section Combined

variable {E D F : Type} [LinearOrder D] [LinearOrder F] (params : RecallParams E D F)
  (longTerm : LongTermDb E) (db : ShortTermDb E) (request : RecallRequest F)

/-- The candidates of short-term memory. -/
def shortTermCandidates : List (MemoryRecallHit F) :=
  let config := request.config.normalized params.similarity
  fetchShortTermCandidates params db request.session (params.embed request.query)
    (sqlLimit config) request.historyWindow config.shortTermContextRadius

/-- The contents of the facts that are similar enough. -/
def longTermKeys : Finset Text :=
  Select.keys (hitEligible params (request.config.normalized params.similarity)) (hitKey params)
    (longTermCandidates params longTerm request)

/-- The best of some candidates, each content once. -/
def bestHits (limit : Nat) (candidates : List (MemoryRecallHit F)) : List (MemoryRecallHit F) :=
  Select.select MemoryRecallHit.finalScore
    (hitEligible params (request.config.normalized params.similarity)) (hitKey params) limit
    candidates

/-- **The hits of a query**: no content is given twice, there are not more than asked for, all are
similar enough, and facts come first if they are preferred. -/
structure GivesEachOnce (hits : List (MemoryRecallHit F)) : Prop where
  distinct : (hits.map (hitKey params)).Nodup
  atMost : hits.length ≤ (request.config.normalized params.similarity).topK
  similar : ∀ hit ∈ hits,
    (request.config.normalized params.similarity).minScore ≤ hit.rawSimilarity
  longTermFirst : request.preferLongTerm = true →
    hits.Pairwise fun a b => b.store = .longTerm → a.store = .longTerm

/-- Where facts are preferred, the messages selected for the places that are left say nothing that
an eligible fact says. -/
def SaysNothingStored : Prop :=
  request.preferLongTerm = true →
    ∀ hit ∈ bestHits params request
        ((request.config.normalized params.similarity).topK -
          (longTermKeys params longTerm request).card)
        (shortTermCandidates params db request),
      hitKey params hit ∉ longTermKeys params longTerm request

variable {params longTerm db request} {hits : List (MemoryRecallHit F)}
  {embedError : Option FrameworkError}

variable (params longTerm db request) in
/-- A query that has been embedded has an answer. -/
theorem exists_hits : ∃ hits, queryRecallHits params longTerm db none request = .ok hits := by
  by_cases hprefer : request.preferLongTerm = true ∧ request.scope = .combined
  · simp only [queryRecallHits, if_pos hprefer, ← apply_ite Except.ok]
    exact ⟨_, rfl⟩
  · simp only [queryRecallHits, if_neg hprefer]
    exact ⟨_, rfl⟩

/-- Facts first, and messages in the places that are left. -/
theorem hits_of_prefer (hscope : request.scope = .combined)
    (hprefer : request.preferLongTerm = true)
    (h : queryRecallHits params longTerm db embedError request = .ok hits) :
    hits = bestHits params request (request.config.normalized params.similarity).topK
        (longTermCandidates params longTerm request) ++
      bestHits params request
        ((request.config.normalized params.similarity).topK -
          (longTermKeys params longTerm request).card)
        (shortTermCandidates params db request) := by
  have htopK := topK_normalized_pos params.similarity request.config
  cases embedError with
  | some e => cases h
  | none =>
      simp only [queryRecallHits, hscope, hprefer, and_self, reduceCtorEq, or_false, if_true,
        rankRecallHits_eq params _ _ htopK, ← apply_ite Except.ok,
        Select.select_append_take_select] at h
      exact (Except.ok.inj h).symm

/-- Without a preference, the candidates of both memories are ranked together. -/
theorem hits_of_ranked (hscope : request.scope = .combined)
    (hprefer : request.preferLongTerm = false)
    (h : queryRecallHits params longTerm db embedError request = .ok hits) :
    hits = bestHits params request (request.config.normalized params.similarity).topK
      (longTermCandidates params longTerm request ++ shortTermCandidates params db request) := by
  have htopK := topK_normalized_pos params.similarity request.config
  cases embedError with
  | some e => cases h
  | none =>
      simp only [queryRecallHits, hscope, hprefer, Bool.false_eq_true, false_and, reduceCtorEq,
        or_false, if_true, if_false, rankRecallHits_eq params _ _ htopK] at h
      exact (Except.ok.inj h).symm

theorem minScore_le_of_mem_bestHits {limit : Nat} {candidates : List (MemoryRecallHit F)}
    {hit : MemoryRecallHit F} (h : hit ∈ bestHits params request limit candidates) :
    (request.config.normalized params.similarity).minScore ≤ hit.rawSimilarity := by
  have heligible : hitEligible params (request.config.normalized params.similarity) hit = true :=
    Select.eligible_of_mem_select h
  exact (of_decide_eq_true heligible).1

variable (params db request) in
theorem store_shortTermCandidates :
    ∀ hit ∈ shortTermCandidates params db request, hit.store = .shortTerm := by
  intro hit hmem
  rw [shortTermCandidates, fetchShortTermCandidates_eq] at hmem
  obtain ⟨item, -, rfl⟩ := List.mem_map.mp hmem
  rfl

omit [LinearOrder F] in
/-- Hits that are facts first and then messages. -/
theorem pairwise_longTermFirst {long short : List (MemoryRecallHit F)}
    (hlong : ∀ hit ∈ long, hit.store = .longTerm)
    (hshort : ∀ hit ∈ short, hit.store = .shortTerm) :
    (long ++ short).Pairwise fun a b => b.store = .longTerm → a.store = .longTerm := by
  refine List.pairwise_append.mpr ⟨?_, ?_, fun a ha b hb _ => hlong a ha⟩
  · exact List.pairwise_of_forall_mem_list fun a ha b hb _ => hlong a ha
  · refine List.pairwise_of_forall_mem_list fun a ha b hb hstore => ?_
    rw [hshort b hb] at hstore
    cases hstore

/-- **The hits from both memories are sound exactly when no message selected for a place that is
left says what an eligible fact says**; without a preference for facts they always are. -/
theorem givesEachOnce_iff (hscope : request.scope = .combined)
    (h : queryRecallHits params longTerm db embedError request = .ok hits) :
    GivesEachOnce params request hits ↔ SaysNothingStored params longTerm db request := by
  cases hprefer : request.preferLongTerm with
  | false =>
      rw [hits_of_ranked hscope hprefer h]
      refine iff_of_true ⟨Select.nodup_map_key_select, ?_,
        fun hit hmem => minScore_le_of_mem_bestHits hmem, by simp [hprefer]⟩
        (by simp [SaysNothingStored, hprefer])
      rw [bestHits, Select.length_select]
      exact min_le_left _ _
  | true =>
      rw [hits_of_prefer hscope hprefer h]
      have hdistinct := Select.nodup_map_key_append_iff MemoryRecallHit.finalScore
        (hitEligible params (request.config.normalized params.similarity)) (hitKey params)
        (request.config.normalized params.similarity).topK
        (longTermCandidates params longTerm request) (shortTermCandidates params db request)
      constructor
      · exact fun hgives _ => hdistinct.mp hgives.distinct
      · intro hnothing
        refine ⟨hdistinct.mpr (hnothing hprefer), Select.length_select_append_le _ _ _, ?_, ?_⟩
        · intro hit hmem
          rcases List.mem_append.mp hmem with hmem | hmem
          · exact minScore_le_of_mem_bestHits hmem
          · exact minScore_le_of_mem_bestHits hmem
        · intro _
          refine pairwise_longTermFirst (fun hit hmem => ?_) (fun hit hmem => ?_)
          · exact store_longTermCandidates params longTerm request hit
              (Select.mem_of_mem_select hmem)
          · exact store_shortTermCandidates params db request hit (Select.mem_of_mem_select hmem)

end Combined

/-- As before a turn. -/
def fiveHits (preferLongTerm : Bool) : RecallRequest Int :=
  { teaRequest with config := { teaRequest.config with topK := 5 }, preferLongTerm }

theorem givesEachOnce_tea :
    ∃ hits, queryRecallHits sampleRecall teaStore (storeAfter ownMessage) none (fiveHits true) =
        .ok hits ∧ GivesEachOnce sampleRecall (fiveHits true) hits := by
  obtain ⟨hits, hhits⟩ := exists_hits sampleRecall teaStore (storeAfter ownMessage) (fiveHits true)
  have hnothing : ∀ hit ∈ bestHits sampleRecall (fiveHits true)
      (5 - (longTermKeys sampleRecall teaStore (fiveHits true)).card)
      (shortTermCandidates sampleRecall (storeAfter ownMessage) (fiveHits true)),
        hitKey sampleRecall hit ∉ longTermKeys sampleRecall teaStore (fiveHits true) := by
    decide +kernel
  exact ⟨hits, hhits, (givesEachOnce_iff rfl hhits).mpr fun _ => hnothing⟩

/-- A fact, and a message that says the same. -/
theorem tea_given_twice :
    ¬ ∀ (longTerm : LongTermDb Int) (db : ShortTermDb Int) (embedError : Option FrameworkError)
        (request : RecallRequest Int) (hits : List (MemoryRecallHit Int)),
      request.scope = .combined →
      queryRecallHits sampleRecall longTerm db embedError request = .ok hits →
      GivesEachOnce sampleRecall request hits := by
  intro h
  obtain ⟨hits, hhits⟩ := exists_hits sampleRecall teaStore
    (storeAfter [said "agent:a:main" "Tea at  four"]) (fiveHits true)
  have hgives := h teaStore (storeAfter [said "agent:a:main" "Tea at  four"]) none (fiveHits true)
    hits rfl hhits
  have hkeys : (queryRecallHits sampleRecall teaStore
      (storeAfter [said "agent:a:main" "Tea at  four"]) none (fiveHits true)).toOption.map
        (fun hits => hits.map (hitKey sampleRecall)) =
      some ["tea at four".toList, "tea at four".toList] := by decide +kernel
  rw [hhits] at hkeys
  have hdistinct := hgives.distinct
  rw [show hits.map (hitKey sampleRecall) = ["tea at four".toList, "tea at four".toList] from
    Option.some.inj hkeys] at hdistinct
  exact absurd hdistinct (by decide)

end Memory
end SimpleClaw
