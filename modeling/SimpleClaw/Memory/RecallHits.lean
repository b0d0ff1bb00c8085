import SimpleClaw.Memory.Recall

/-!
# Which messages are recalled

Of the messages of a session, the vectors that are read are the nearest to the query among those of
all sessions.  Which of the messages then come to be hits is a matter of the session and of
long-term memory alone: a message is one if it would be one with all messages of the session
read.

* `ownMatches`: the messages a session could be reminded of, the same whatever is said in others
  (`SameSession.ownMatches`); `nearMatches`: those that are read.
* `Recalled`: the messages that would be hits if all were read.
* `shortTermHits_queryRecallHits`: the short-term hits are those that are read and recalled.
-/

namespace SimpleClaw
namespace Memory

section Hits

variable {E D F : Type} [LinearOrder D] [LinearOrder F] (params : RecallParams E D F)
  (longTerm : LongTermDb E) (db : ShortTermDb E) (request : RecallRequest F)

/-- The short-term hits of an answer. -/
def shortTermHits (answer : Except FrameworkError (List (MemoryRecallHit F))) :
    Except FrameworkError (List (MemoryRecallHit F)) :=
  answer.map fun hits => hits.filter fun hit => hit.store = .shortTerm

/-- All that the session could be reminded of, nearest first. -/
def ownMatches : List (ShortTermMatch F) :=
  shortTermMatches params db request.session
    (db.fetchRecentShortTermIds request.session request.historyWindow)
    (params.embed request.query)
    (Nearest.byKey (params.index.key (params.embed request.query)) db.vec)

/-- What it is reminded of. -/
def nearMatches : List (ShortTermMatch F) :=
  shortTermMatches params db request.session
    (db.fetchRecentShortTermIds request.session request.historyWindow)
    (params.embed request.query)
    (params.index.nearest (params.embed request.query)
      (sqlLimit (request.config.normalized params.similarity)) db.vec)

/-- The vector of the message is among those that are read. -/
def Near (id : Int) : Prop :=
  id ∈ (params.index.nearest (params.embed request.query)
    (sqlLimit (request.config.normalized params.similarity)) db.vec).map VecRow.id

/-- The candidates of long-term memory. -/
def longTermCandidates : List (MemoryRecallHit F) :=
  let config := request.config.normalized params.similarity
  fetchLongTermCandidates params longTerm (params.embed request.query) (sqlLimit config)
    config.longTermWeight

/-- The candidates that messages are ranked with. -/
def rivals : List (MemoryRecallHit F) :=
  if request.scope = .combined ∧ request.preferLongTerm = false then
    longTermCandidates params longTerm request
  else []

/-- How many hits there may be with and before the messages. -/
def room : Nat :=
  let config := request.config.normalized params.similarity
  match request.scope with
  | .shortTerm => config.topK
  | .longTerm => 0
  | .combined =>
      if request.preferLongTerm then
        config.topK - (Select.keys (hitEligible params config) (hitKey params)
          (longTermCandidates params longTerm request)).card
      else config.topK

/-- The message would be a hit if all messages of the session were candidates. -/
def Recalled (m : ShortTermMatch F) : Prop :=
  Select.Chosen (hitEligible params (request.config.normalized params.similarity)) (hitKey params)
    (room params longTerm request)
    ((rivals params longTerm request).filter (fun hit => m.similarity ≤ hit.finalScore) ++
      ((ownMatches params db request).takeWhile fun own => own.id ≠ m.id).map (shortTermHit []))
    (shortTermHit [] m)

instance (m : ShortTermMatch F) : Decidable (Recalled params longTerm db request m) :=
  inferInstanceAs (Decidable (Select.Chosen _ _ _ _ _))

end Hits

/-! ## The messages of the session in the index -/

section Matches

variable {E D F : Type} [LinearOrder D] [LinearOrder F] {params : RecallParams E D F}
  {db db' : ShortTermDb E} {session : Text} {excluded : Finset Int} {query : E}
  {rows rows' : List (VecRow E)} {m : ShortTermMatch F} {request : RecallRequest F}

theorem shortTermMatch_eq_some {row : VecRow E}
    (h : shortTermMatch params db session query row = some m) :
    (∃ x ∈ db.conversation session, x.id = m.id) ∧ m.id = row.id ∧
      m.similarity =
        params.similarity.ofDistance (params.index.distance query row.embedding) := by
  obtain ⟨x, hx, rfl⟩ := Option.map_eq_some_iff.mp h
  have hid : x.id = row.id := by simpa using List.find?_some hx
  exact ⟨⟨x, List.mem_of_find?_eq_some hx, rfl⟩, hid, rfl⟩

theorem mem_shortTermMatches : m ∈ shortTermMatches params db session excluded query rows ↔
    (∃ row ∈ rows, shortTermMatch params db session query row = some m) ∧ m.id ∉ excluded := by
  rw [shortTermMatches, List.mem_filter, List.mem_filterMap, decide_eq_true_eq]

/-- The messages come in the order of the rows. -/
theorem ids_shortTermMatches_sublist :
    ((shortTermMatches params db session excluded query rows).map ShortTermMatch.id).Sublist
      (rows.map VecRow.id) := by
  refine (List.filter_sublist.map _).trans ?_
  induction rows with
  | nil => exact List.Sublist.refl []
  | cons row rows ih =>
      cases hrow : shortTermMatch params db session query row with
      | none =>
          rw [List.filterMap_cons_none hrow, List.map_cons]
          exact ih.cons row.id
      | some m =>
          rw [List.filterMap_cons_some hrow, List.map_cons, List.map_cons,
            (shortTermMatch_eq_some hrow).2.1]
          exact ih.cons_cons row.id

theorem prefix_shortTermMatches (h : rows <+: rows') :
    shortTermMatches params db session excluded query rows <+:
      shortTermMatches params db session excluded query rows' :=
  (h.filterMap _).filter _

/-- The rows of other sessions do not matter. -/
theorem shortTermMatches_filter (excluded : Finset Int) (rows : List (VecRow E))
    {p : VecRow E → Bool}
    (hp : ∀ row, p row = false → shortTermMatch params db session query row = none) :
    shortTermMatches params db session excluded query (rows.filter p) =
      shortTermMatches params db session excluded query rows := by
  have hrows : (rows.filter p).filterMap (shortTermMatch params db session query) =
      rows.filterMap (shortTermMatch params db session query) := by
    induction rows with
    | nil => rfl
    | cons row rows ih =>
        cases hrow : p row with
        | true => rw [List.filter_cons_of_pos hrow, List.filterMap_cons, List.filterMap_cons, ih]
        | false =>
            rw [List.filter_cons_of_neg (by simp [hrow]), List.filterMap_cons_none (hp row hrow),
              ih]
  rw [shortTermMatches, shortTermMatches, hrows]

variable (params db request) in
theorem prefix_nearMatches : nearMatches params db request <+: ownMatches params db request :=
  prefix_shortTermMatches (List.take_prefix _ _)

variable (params db request) in
theorem nodup_ids_ownMatches : ((ownMatches params db request).map ShortTermMatch.id).Nodup :=
  List.Nodup.sublist ids_shortTermMatches_sublist
    (((Nearest.perm_byKey db.vec).map VecRow.id).nodup_iff.mpr db.vecIds)

/-- Whether a message is read depends on the place of its vector. -/
theorem mem_nearMatches_iff (hm : m ∈ ownMatches params db request) :
    m ∈ nearMatches params db request ↔ Near params db request m.id := by
  obtain ⟨⟨row, hrow, hmatch⟩, hexcluded⟩ := mem_shortTermMatches.mp hm
  have hid : m.id = row.id := (shortTermMatch_eq_some hmatch).2.1
  rw [nearMatches, mem_shortTermMatches, Near, List.mem_map]
  constructor
  · rintro ⟨⟨row', hrow', hmatch'⟩, -⟩
    exact ⟨row', hrow', (shortTermMatch_eq_some hmatch').2.1.symm⟩
  · rintro ⟨row', hrow', hid'⟩
    have hsame : row' = row := List.inj_on_of_nodup_map db.vecIds (Nearest.mem_of_mem_nearest hrow')
      (Nearest.mem_byKey.mp hrow) (hid'.trans hid)
    exact ⟨⟨row, hsame ▸ hrow', hmatch⟩, hexcluded⟩

variable (params db request) in
/-- A nearer message is at least as similar. -/
theorem pairwise_ownMatches : (ownMatches params db request).Pairwise
    fun m n => n.similarity ≤ m.similarity := by
  refine List.Pairwise.filter _ (List.Pairwise.filterMap _ ?_ (Nearest.pairwise_byKey db.vec))
  intro row row' hkey m hm n hn
  rw [(shortTermMatch_eq_some hm).2.2, (shortTermMatch_eq_some hn).2.2]
  exact params.similarity.antitone (Prod.Lex.monotone_fst _ _ hkey)

theorem SameSession.fetchRecentShortTermIds (same : SameSession session db db') (window : Nat) :
    db.fetchRecentShortTermIds session window = db'.fetchRecentShortTermIds session window := by
  rw [ShortTermDb.fetchRecentShortTermIds, ShortTermDb.fetchRecentShortTermIds, same.conversation]

theorem SameSession.shortTermMatch (same : SameSession session db db') :
    shortTermMatch params db session query = shortTermMatch params db' session query := by
  funext row
  rw [Memory.shortTermMatch, Memory.shortTermMatch, same.conversation]

/-- **What a session could be reminded of is its own.** -/
theorem SameSession.ownMatches (same : SameSession request.session db db') :
    ownMatches params db request = ownMatches params db' request := by
  let own (row : VecRow E) : Bool :=
    ((db.conversation request.session).find? fun m => m.id = row.id).isSome
  have hown : ∀ row, own row = false →
      Memory.shortTermMatch params db request.session (params.embed request.query) row = none := by
    intro row hrow
    rw [Memory.shortTermMatch, Option.not_isSome_iff_eq_none.mp (ne_true_of_eq_false hrow),
      Option.map_none]
  have hmem : ∀ row, row ∈ db'.vec.filter own ↔ row ∈ db.vec.filter own := by
    intro row
    rw [List.mem_filter, List.mem_filter]
    refine and_congr_left fun hrow => ?_
    obtain ⟨x, hx⟩ := Option.isSome_iff_exists.mp hrow
    obtain ⟨hx', hsession, -⟩ := mem_conversation.mp (List.mem_of_find?_eq_some hx)
    have hid : row.id = x.id := Eq.symm (by simpa using List.find?_some hx)
    exact (same.vec x hx' hsession row hid).symm
  have hperm : (db'.vec.filter own).Perm (db.vec.filter own) :=
    (List.perm_ext_iff_of_nodup (db'.vecIds.of_map.filter _) (db.vecIds.of_map.filter _)).mpr hmem
  have hdistinct := fun db : ShortTermDb E =>
    params.index.key_distinct (params.embed request.query) db.vecIds
  have hleft := shortTermMatches_filter
    (db.fetchRecentShortTermIds request.session request.historyWindow)
    (Nearest.byKey (params.index.key (params.embed request.query)) db.vec) hown
  have hright := shortTermMatches_filter
    (db.fetchRecentShortTermIds request.session request.historyWindow)
    (Nearest.byKey (params.index.key (params.embed request.query)) db'.vec) hown
  rw [Nearest.filter_byKey (hdistinct db)] at hleft
  rw [Nearest.filter_byKey (hdistinct db'), Nearest.byKey_congr ((hdistinct db).filter own) hperm,
    hleft] at hright
  rw [Memory.ownMatches, Memory.ownMatches, ← same.fetchRecentShortTermIds, hright,
    shortTermMatches, shortTermMatches, same.shortTermMatch]

end Matches

/-! ## Which of them are hits -/

section Hits

variable {E D F : Type} [LinearOrder D] [LinearOrder F] {params : RecallParams E D F}
  {longTerm : LongTermDb E} {db db' : ShortTermDb E} {request : RecallRequest F}

/-- A hit of long-term memory, or a message with the messages around it. -/
def asHit (spanMessages : List (ContextSpan × List ShortTermContextMessage)) :
    MemoryRecallHit F ⊕ ShortTermMatch F → MemoryRecallHit F :=
  Sum.elim id (shortTermHit spanMessages)

omit [LinearOrder F] in
/-- What is the same of a message whatever is around it is the same of all hits. -/
theorem comp_asHit {β : Type*} (spanMessages : List (ContextSpan × List ShortTermContextMessage))
    (f : MemoryRecallHit F → β)
    (hf : ∀ m : ShortTermMatch F, f (shortTermHit spanMessages m) = f (shortTermHit [] m)) :
    f ∘ asHit spanMessages = f ∘ asHit [] := by
  funext x
  cases x with
  | inl hit => rfl
  | inr m => exact hf m

/-- The hits, as far as they are determined without the messages around them. -/
def selected (params : RecallParams E D F) (longTerm : LongTermDb E) (request : RecallRequest F)
    (items : List (ShortTermMatch F)) : List (MemoryRecallHit F ⊕ ShortTermMatch F) :=
  Select.select (MemoryRecallHit.finalScore ∘ asHit [])
    (hitEligible params (request.config.normalized params.similarity) ∘ asHit [])
    (hitKey params ∘ asHit []) (room params longTerm request)
    ((rivals params longTerm request).map Sum.inl ++ items.map Sum.inr)

/-- The ranking does not look at the messages around. -/
theorem select_asHit (spanMessages : List (ContextSpan × List ShortTermContextMessage))
    (items : List (ShortTermMatch F)) :
    Select.select MemoryRecallHit.finalScore
        (hitEligible params (request.config.normalized params.similarity)) (hitKey params)
        (room params longTerm request)
        (rivals params longTerm request ++ items.map (shortTermHit spanMessages)) =
      (selected params longTerm request items).map (asHit spanMessages) := by
  have hitems : rivals params longTerm request ++ items.map (shortTermHit spanMessages) =
      ((rivals params longTerm request).map Sum.inl ++ items.map Sum.inr).map
        (asHit spanMessages) := by
    rw [List.map_append, List.map_map, List.map_map]
    exact congrArg (· ++ _) (List.map_id _).symm
  have hscore : MemoryRecallHit.finalScore ∘ asHit (F := F) spanMessages =
      MemoryRecallHit.finalScore ∘ asHit [] := comp_asHit _ _ fun _ => rfl
  have heligible : hitEligible params (request.config.normalized params.similarity) ∘
      asHit spanMessages =
        hitEligible params (request.config.normalized params.similarity) ∘ asHit [] :=
    comp_asHit _ _ fun _ => rfl
  have hkey : hitKey params ∘ asHit spanMessages = hitKey params ∘ asHit [] :=
    comp_asHit _ _ fun _ => rfl
  rw [hitems, Select.select_map, hscore, heligible, hkey, selected]

/-- The better candidates than a message are the nearer ones and some of long-term memory. -/
theorem chosen_iff_recalled {items rest : List (ShortTermMatch F)} {m : ShortTermMatch F}
    (hown : ownMatches params db request = items ++ m :: rest) :
    Select.Chosen (hitEligible params (request.config.normalized params.similarity) ∘ asHit [])
        (hitKey params ∘ asHit []) (room params longTerm request)
        (((rivals params longTerm request).map Sum.inl ++ items.map Sum.inr).filter fun x =>
          (MemoryRecallHit.finalScore ∘ asHit []) (Sum.inr m) ≤
            (MemoryRecallHit.finalScore ∘ asHit []) x) (Sum.inr m) ↔
      Recalled params longTerm db request m := by
  have hids := nodup_ids_ownMatches params db request
  have hpairwise := pairwise_ownMatches params db request
  rw [hown] at hids hpairwise
  have hbefore : (ownMatches params db request).takeWhile (fun own => own.id ≠ m.id) = items := by
    rw [hown, List.takeWhile_append_of_pos, List.takeWhile_cons_of_neg (by simp), List.append_nil]
    intro own hmem
    rw [List.map_append, List.map_cons] at hids
    exact decide_eq_true ((List.nodup_append.mp hids).2.2 _ (List.mem_map_of_mem hmem) _
      List.mem_cons_self)
  have hsimilar : ∀ own ∈ items, m.similarity ≤ own.similarity := fun own hmem =>
    (List.pairwise_append.mp hpairwise).2.2 own hmem m List.mem_cons_self
  rw [Recalled, hbefore, ← Select.chosen_map, List.filter_append, List.map_append, List.filter_map,
    List.filter_map, List.map_map, List.map_map]
  have hall : items.filter ((fun x => decide ((MemoryRecallHit.finalScore ∘ asHit []) (Sum.inr m) ≤
      (MemoryRecallHit.finalScore ∘ asHit []) x)) ∘ Sum.inr) = items :=
    List.filter_eq_self.mpr fun own hmem => decide_eq_true (hsimilar own hmem)
  have hid : (asHit [] ∘ Sum.inl : MemoryRecallHit F → MemoryRecallHit F) = id := rfl
  rw [hall, hid, List.map_id]
  exact Iff.rfl

/-- **The messages among the hits are those that are hits when all are candidates.** -/
theorem filter_selected {items : List (ShortTermMatch F)}
    (hfront : items <+: ownMatches params db request) :
    (selected params longTerm request items).filter Sum.isRight =
      (items.filter fun m => Recalled params longTerm db request m).map Sum.inr := by
  induction items using List.reverseRecOn with
  | nil =>
      refine List.filter_eq_nil_iff.mpr fun x hx => ?_
      have hmem := Select.mem_of_mem_select hx
      rw [List.map_nil, List.append_nil] at hmem
      obtain ⟨hit, -, rfl⟩ := List.mem_map.mp hmem
      simp
  | append_singleton items m ih =>
      obtain ⟨rest, hrest⟩ := hfront
      have hown : ownMatches params db request = items ++ m :: rest := by simp [← hrest]
      have hpairwise := pairwise_ownMatches params db request
      rw [hown] at hpairwise
      have hlast : ∀ x ∈ (rivals params longTerm request).map Sum.inl ++ items.map Sum.inr,
          x.isRight = true → (MemoryRecallHit.finalScore ∘ asHit []) (Sum.inr m) ≤
            (MemoryRecallHit.finalScore ∘ asHit []) x := by
        intro x hx hright
        rcases List.mem_append.mp hx with hx | hx
        · obtain ⟨hit, -, rfl⟩ := List.mem_map.mp hx
          cases hright
        · obtain ⟨own, hmem, rfl⟩ := List.mem_map.mp hx
          exact (List.pairwise_append.mp hpairwise).2.2 own hmem m List.mem_cons_self
      have hfilter : (items ++ [m]).filter (fun m => Recalled params longTerm db request m) =
          items.filter (fun m => Recalled params longTerm db request m) ++
            [m].filter fun m => Recalled params longTerm db request m :=
        List.filter_append _ _
      rw [hfilter, selected, List.map_append, ← List.append_assoc, List.map_singleton,
        Select.filter_select_concat (p := Sum.isRight) rfl hlast, ← selected,
        ih ⟨m :: rest, hown.symm⟩, List.map_append]
      by_cases hm : Recalled params longTerm db request m
      · rw [if_pos ((chosen_iff_recalled hown).mpr hm), List.filter_cons_of_pos (by simpa using hm)]
        rfl
      · rw [if_neg fun h => hm ((chosen_iff_recalled hown).mp h),
          List.filter_cons_of_neg (by simpa using hm)]
        rfl

/-- The messages around what the session is reminded of. -/
def spanMessages (params : RecallParams E D F) (db : ShortTermDb E) (request : RecallRequest F) :
    List (ContextSpan × List ShortTermContextMessage) :=
  fetchShortTermContextMessages db request.session
    (mergeShortTermContextSpans (nearMatches params db request)
      (request.config.normalized params.similarity).shortTermContextRadius)
    (db.fetchRecentShortTermIds request.session request.historyWindow)

variable (params db request) in
theorem fetchShortTermCandidates_eq :
    fetchShortTermCandidates params db request.session (params.embed request.query)
        (sqlLimit (request.config.normalized params.similarity)) request.historyWindow
        (request.config.normalized params.similarity).shortTermContextRadius =
      (nearMatches params db request).map (shortTermHit (spanMessages params db request)) := by
  rw [fetchShortTermCandidates]
  show (if (nearMatches params db request).isEmpty then [] else _) = _
  split
  · next hnone => rw [List.isEmpty_iff.mp hnone, List.map_nil]
  · rfl

variable (params longTerm request) in
theorem store_longTermCandidates :
    ∀ hit ∈ longTermCandidates params longTerm request, hit.store = .longTerm := by
  intro hit hmem
  obtain ⟨found, -, rfl⟩ := List.mem_map.mp hmem
  rfl

theorem store_rivals {hit : MemoryRecallHit F} (h : hit ∈ rivals params longTerm request) :
    hit.store = .longTerm := by
  rw [rivals] at h
  split at h
  · exact store_longTermCandidates params longTerm request hit h
  · cases h

variable (params longTerm) in
/-- What a ranking of the messages with their rivals gives of short-term memory. -/
theorem filter_select (spanMessages : List (ContextSpan × List ShortTermContextMessage))
    {items : List (ShortTermMatch F)} (hfront : items <+: ownMatches params db request) :
    (Select.select MemoryRecallHit.finalScore
        (hitEligible params (request.config.normalized params.similarity)) (hitKey params)
        (room params longTerm request)
        (rivals params longTerm request ++ items.map (shortTermHit spanMessages))).filter
          (fun hit => hit.store = .shortTerm) =
      (items.filter fun m => Recalled params longTerm db request m).map
        (shortTermHit spanMessages) := by
  have hstore : ∀ x ∈ selected params longTerm request items,
      ((fun hit : MemoryRecallHit F => decide (hit.store = .shortTerm)) ∘ asHit spanMessages) x =
        x.isRight := by
    intro x hx
    rcases List.mem_append.mp (Select.mem_of_mem_select hx) with hx | hx
    · obtain ⟨hit, hmem, rfl⟩ := List.mem_map.mp hx
      show decide (hit.store = .shortTerm) = false
      rw [store_rivals hmem]
      rfl
    · obtain ⟨m, -, rfl⟩ := List.mem_map.mp hx
      rfl
  rw [select_asHit, List.filter_map, List.filter_congr hstore, filter_selected hfront,
    List.map_map]
  rfl

omit [LinearOrder F] in
theorem filter_longTerm {hits : List (MemoryRecallHit F)}
    (h : ∀ hit ∈ hits, hit.store = .longTerm) :
    hits.filter (fun hit => hit.store = .shortTerm) = [] :=
  List.filter_eq_nil_iff.mpr fun hit hmem => by simp [h hit hmem]

/-- When facts are preferred, messages get the places that are left. -/
theorem filter_prefer {config : MemoryRecallConfig F} (htopK : 0 < config.topK)
    {long : List (MemoryRecallHit F)} (hlong : ∀ hit ∈ long, hit.store = .longTerm)
    (short : List (MemoryRecallHit F)) :
    (if (rankRecallHits params long config).length < config.topK then
        rankRecallHits params long config ++ (rankRecallHits params short config).take
          (config.topK - (rankRecallHits params long config).length)
      else rankRecallHits params long config).filter (fun hit => hit.store = .shortTerm) =
    (Select.select MemoryRecallHit.finalScore (hitEligible params config) (hitKey params)
      (config.topK - (Select.keys (hitEligible params config) (hitKey params) long).card)
      short).filter fun hit => hit.store = .shortTerm := by
  rw [rankRecallHits_eq params config long htopK, rankRecallHits_eq params config short htopK,
    Select.select_append_take_select, List.filter_append]
  have hnone : (Select.select MemoryRecallHit.finalScore (hitEligible params config)
      (hitKey params) config.topK long).filter (fun hit => hit.store = .shortTerm) = [] :=
    filter_longTerm fun hit hmem => hlong hit (Select.mem_of_mem_select hmem)
  rw [hnone, List.nil_append]

variable (params longTerm db request) in
/-- **The short-term hits are the near ones among the messages that would be hits.** -/
theorem shortTermHits_queryRecallHits :
    shortTermHits (queryRecallHits params longTerm db none request) =
      .ok (((nearMatches params db request).filter fun m =>
        Recalled params longTerm db request m).map
          (shortTermHit (spanMessages params db request))) := by
  have htopK : 0 < (request.config.normalized params.similarity).topK := by
    show 0 < min (max request.config.topK 1) 10
    omega
  have hfound := filter_select params longTerm (spanMessages params db request)
    (prefix_nearMatches params db request)
  have hlong := store_longTermCandidates params longTerm request
  rw [longTermCandidates] at hlong
  rw [← hfound, rivals, room]
  cases hscope : request.scope with
  | longTerm =>
      simp only [queryRecallHits, hscope, reduceCtorEq, or_true, or_false, and_false, false_and,
        if_true, if_false, List.append_nil, shortTermHits, Except.map, Except.ok.injEq]
      rw [rankRecallHits_eq params _ _ htopK, Select.select_zero, List.filter_nil]
      exact filter_longTerm fun hit hmem => hlong hit (Select.mem_of_mem_select hmem)
  | shortTerm =>
      simp only [queryRecallHits, hscope, reduceCtorEq, or_true, or_false, and_false, false_and,
        if_true, if_false, List.nil_append, shortTermHits, Except.map, Except.ok.injEq]
      rw [rankRecallHits_eq params _ _ htopK, fetchShortTermCandidates_eq]
  | combined =>
      cases hprefer : request.preferLongTerm with
      | false =>
          simp only [queryRecallHits, hscope, hprefer, reduceCtorEq, true_or, false_and, true_and,
            if_true, if_false, shortTermHits, Except.map, Except.ok.injEq, Bool.false_eq_true]
          rw [rankRecallHits_eq params _ _ htopK, fetchShortTermCandidates_eq, longTermCandidates]
      | true =>
          simp only [queryRecallHits, hscope, hprefer, reduceCtorEq, true_or, and_false, if_true,
            if_false, List.nil_append, Bool.true_eq_false, and_self, fetchShortTermCandidates_eq]
          rw [← apply_ite Except.ok]
          exact congrArg Except.ok (filter_prefer htopK hlong _)

end Hits

end Memory
end SimpleClaw
