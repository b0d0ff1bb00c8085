import SimpleClaw.Memory.ContextSpans
import SimpleClaw.Memory.IndexConsistency
import SimpleClaw.Memory.RecallHits

/-!
# What other sessions do to recall

The index is asked for a number of rows, and what other sessions said is dropped from these.  So
messages of other sessions can take the places of messages that would be hits, and nothing else:
two stores that have the same rows of a session give it the same hits exactly if those messages
are read in both or in neither, and the same messages around each of them.

* `Around`: which messages are around a hit.
* `RecallsAlike`: what the two stores have to agree on.
* `shortTermHits_eq_iff`: then, and only then, the hits are the same.
-/

namespace SimpleClaw
namespace Memory

section Isolation

variable {E D F : Type} [LinearOrder D] [LinearOrder F] (params : RecallParams E D F)
  (longTerm : LongTermDb E) (db db' : ShortTermDb E) (request : RecallRequest F)

/-- Every id from the one to the other is close to a message that is near. -/
def Around (id id' : Int) : Prop :=
  ∀ n, min id id' ≤ n → n ≤ max id id' → ∃ m ∈ ownMatches params db request,
    Near params db request m.id ∧
      m.id - (request.config.normalized params.similarity).shortTermContextRadius ≤ n ∧
      n ≤ m.id + (request.config.normalized params.similarity).shortTermContextRadius

/-- Of the messages that would be hits, the same ones are near, and with the same messages around
them. -/
def RecallsAlike : Prop :=
  ∀ m ∈ ownMatches params db request, Recalled params longTerm db request m →
    (Near params db request m.id ↔ Near params db' request m.id) ∧
    (Near params db request m.id → ∀ x ∈ db.conversation request.session,
      x.id ∉ db.fetchRecentShortTermIds request.session request.historyWindow →
        (Around params db request m.id x.id ↔ Around params db' request m.id x.id))

end Isolation

/-! ## Lists -/

section Lists

variable {α β : Type} {l : List α} {p q r : α → Bool} {f g : α → β}

/-- A selection that is in another one of its size is that one. -/
theorem filter_eq_of_length (h : ∀ a ∈ l, p a = true → q a = true)
    (hlength : (l.filter p).length = (l.filter q).length) : l.filter p = l.filter q := by
  have hagain : (l.filter q).filter p = l.filter p := by
    rw [List.filter_filter]
    refine List.filter_congr fun a ha => ?_
    cases hp : p a with
    | true => rw [h a ha hp]; rfl
    | false => rfl
  have hsublist : (l.filter p).Sublist (l.filter q) := hagain ▸ List.filter_sublist
  exact hsublist.eq_of_length hlength

/-- Two selections of which one is in the other give the same only if they are the same. -/
theorem map_filter_eq_iff
    (h : (∀ a ∈ l, p a = true → q a = true) ∨ ∀ a ∈ l, q a = true → p a = true) :
    (l.filter p).map f = (l.filter q).map f ↔ ∀ a ∈ l, (p a = true ↔ q a = true) := by
  constructor
  · intro heq a ha
    have hlength : (l.filter p).length = (l.filter q).length := by
      simpa using congrArg List.length heq
    have hsame : l.filter p = l.filter q := by
      rcases h with h | h
      · exact filter_eq_of_length h hlength
      · exact (filter_eq_of_length h hlength.symm).symm
    have hmem : a ∈ l.filter p ↔ a ∈ l.filter q := by rw [hsame]
    rw [List.mem_filter, List.mem_filter] at hmem
    exact ⟨fun hp => (hmem.mp ⟨ha, hp⟩).2, fun hq => (hmem.mpr ⟨ha, hq⟩).2⟩
  · exact fun heq => by rw [List.filter_congr fun a ha => Bool.eq_iff_iff.mpr (heq a ha)]

/-- A part of a list at its front gives the same as the whole only if nothing is selected from
the rest. -/
theorem map_filter_eq_iff_of_front {m : List α} (hfront : l <+: m) (hm : m.Nodup) :
    (l.filter p).map f = (m.filter p).map g ↔
      (∀ a, p a = true → (a ∈ l ↔ a ∈ m)) ∧ ∀ a ∈ l, p a = true → f a = g a := by
  obtain ⟨rest, rfl⟩ := hfront
  rw [List.filter_append, List.map_append]
  constructor
  · intro heq
    have hrest : rest.filter p = [] := by
      have hlength := congrArg List.length heq
      rw [List.length_append, List.length_map, List.length_map, List.length_map] at hlength
      exact List.length_eq_zero_iff.mp (by omega)
    rw [hrest, List.map_nil, List.append_nil] at heq
    refine ⟨fun a ha => ?_, fun a hmem ha =>
      List.map_inj_left.mp heq a (List.mem_filter.mpr ⟨hmem, ha⟩)⟩
    rw [List.mem_append, or_iff_left]
    exact fun hmem => List.filter_eq_nil_iff.mp hrest a hmem ha
  · rintro ⟨hmem, heq⟩
    have hrest : rest.filter p = [] := List.filter_eq_nil_iff.mpr fun a ha hpa =>
      List.disjoint_of_nodup_append hm ((hmem a hpa).mpr (List.mem_append_right l ha)) ha
    rw [hrest, List.map_nil, List.append_nil]
    exact List.map_congr_left fun a ha =>
      heq a (List.mem_of_mem_filter ha) (List.mem_filter.mp ha).2

end Lists

/-! ## Messages around a hit -/

section Around

variable {E D F : Type} [LinearOrder D] [LinearOrder F] {params : RecallParams E D F}
  {db db' : ShortTermDb E} {request : RecallRequest F} {m : ShortTermMatch F}

theorem mem_conversation_of_mem_ownMatches (hm : m ∈ ownMatches params db request) :
    ∃ x ∈ db.conversation request.session, x.id = m.id := by
  obtain ⟨⟨row, -, hrow⟩, -⟩ := mem_shortTermMatches.mp hm
  exact (shortTermMatch_eq_some hrow).1

/-- The ids are those of messages. -/
theorem id_mem_range (hm : m ∈ ownMatches params db request) : 0 < m.id ∧ m.id ≤ i64Max := by
  obtain ⟨x, hx, hid⟩ := mem_conversation_of_mem_ownMatches hm
  have hrange := db.allocated x (mem_conversation.mp hx).1
  have hmax := db.le_max
  omega

/-- The ids that are close to what is read. -/
theorem covered_iff {n : Int} (hpos : 0 < n) (hmax : n ≤ i64Max) {radius : Nat}
    (hradius : radius ≤ i64Max) :
    Spans.Covered ((nearMatches params db request).map fun m => contextSpan radius m.id) n ↔
      ∃ m ∈ ownMatches params db request, Near params db request m.id ∧
        m.id - radius ≤ n ∧ n ≤ m.id + radius := by
  have hsub : ∀ id : Int, (contextSpan radius id).start ≤ n ↔ id - radius ≤ n := fun id => by
    rw [contextSpan_of_le hradius]
    exact saturatingSub_le_iff (le_trans i64Min_le_zero hpos.le)
  have hadd : ∀ id : Int, n ≤ (contextSpan radius id).stop ↔ n ≤ id + radius := fun id => by
    rw [contextSpan_of_le hradius]
    exact le_saturatingAdd_iff hmax
  constructor
  · rintro ⟨span, hspan, hstart, hstop⟩
    obtain ⟨m, hm, rfl⟩ := List.mem_map.mp hspan
    have hown := (prefix_nearMatches _ _ _).mem hm
    exact ⟨m, hown, (mem_nearMatches_iff hown).mp hm, (hsub m.id).mp hstart, (hadd m.id).mp hstop⟩
  · rintro ⟨m, hown, hnear, hstart, hstop⟩
    exact ⟨contextSpan radius m.id, List.mem_map_of_mem ((mem_nearMatches_iff hown).mpr hnear),
      (hsub m.id).mpr hstart, (hadd m.id).mpr hstop⟩

/-- The span around a message that is read, and what it reaches. -/
theorem exists_find_span (hm : m ∈ nearMatches params db request) :
    ∃ span : ContextSpan,
      (mergeShortTermContextSpans (nearMatches params db request)
          (request.config.normalized params.similarity).shortTermContextRadius).find?
        (fun s => s.contains m.id) = some span ∧
      ∀ x ∈ db.conversation request.session,
        span.contains x.id = true ↔ Around params db request m.id x.id := by
  have hown := (prefix_nearMatches _ _ _).mem hm
  have hids : ∀ m ∈ nearMatches params db request, m.id ≤ i64Max :=
    fun m hm => (id_mem_range ((prefix_nearMatches _ _ _).mem hm)).2
  let radius := (request.config.normalized params.similarity).shortTermContextRadius
  have hradius : radius ≤ i64Max :=
    shortTermContextRadius_normalized_le params.similarity request.config
  let spans := (nearMatches params db request).map fun m => contextSpan radius m.id
  obtain ⟨hpos, hmax⟩ := id_mem_range hown
  have hcovered : Spans.Covered (Spans.merge spans) m.id := by
    rw [Spans.covered_merge, covered_iff hpos hmax hradius]
    exact ⟨m, hown, (mem_nearMatches_iff hown).mp hm, by omega, by omega⟩
  obtain ⟨span, hspan⟩ :
      ∃ span, (Spans.merge spans).find? (fun s => s.contains m.id) = some span := by
    obtain ⟨s, hs, hstart, hstop⟩ := hcovered
    exact Option.isSome_iff_exists.mp (List.find?_isSome.mpr
      ⟨s, hs, Spans.Span.contains_iff.mpr ⟨hstart, hstop⟩⟩)
  have hmem : span.contains m.id = true := by simpa using List.find?_some hspan
  rw [mergeShortTermContextSpans_eq _ hids]
  refine ⟨span, hspan, fun x hx => ?_⟩
  obtain ⟨hxpos, hxle⟩ := db.allocated x (mem_conversation.mp hx).1
  have hxmax := db.le_max
  rw [Spans.contains_iff_covered (Spans.separated_merge spans)
    (List.mem_of_find?_eq_some hspan) hmem]
  refine forall_congr' fun n => imp_congr_right fun hn => imp_congr_right fun hn' => ?_
  rw [Spans.covered_merge, covered_iff (by omega) (by omega) hradius]

/-- **The messages around a hit are those that can be reached from it.** -/
theorem exists_contextMessages (hm : m ∈ nearMatches params db request) :
    ∃ span : ContextSpan,
      (∀ x ∈ db.conversation request.session,
        span.contains x.id = true ↔ Around params db request m.id x.id) ∧
      (shortTermHit (spanMessages params db request) m).contextMessages =
        some (((db.conversation request.session).filter fun x =>
          decide (x.id ∉ db.fetchRecentShortTermIds request.session request.historyWindow) &&
            span.contains x.id).map contextMessage) := by
  obtain ⟨span, hspan, haround⟩ := exists_find_span hm
  refine ⟨span, haround, ?_⟩
  have hmem : span.contains m.id = true := by simpa using List.find?_some hspan
  have hfind : (spanMessages params db request).find? (fun s => s.1.contains m.id) =
      some (span, (((db.conversation request.session).filter fun x =>
        span.start ≤ x.id ∧ x.id ≤ span.stop).filter fun x =>
          x.id ∉ db.fetchRecentShortTermIds request.session request.historyWindow).map
            contextMessage) := by
    rw [spanMessages, fetchShortTermContextMessages, List.find?_map]
    exact (congrArg _ hspan).trans (Option.map_some ..)
  obtain ⟨x, hx, hid⟩ := mem_conversation_of_mem_ownMatches ((prefix_nearMatches _ _ _).mem hm)
  have hexcluded := (mem_shortTermMatches.mp hm).2
  have hself : x ∈ (db.conversation request.session).filter fun x =>
      decide (x.id ∉ db.fetchRecentShortTermIds request.session request.historyWindow) &&
        span.contains x.id := by
    rw [List.mem_filter, Bool.and_eq_true, hid]
    exact ⟨hx, decide_eq_true hexcluded, hmem⟩
  rw [contextMessages_shortTermHit, hfind, List.filter_filter, Option.map_some,
    Option.filter_some, if_pos]
  · rfl
  · rw [Bool.not_eq_true', List.isEmpty_eq_false_iff]
    exact List.ne_nil_of_mem (List.mem_map_of_mem hself)

/-- The more is read, the further it reaches. -/
theorem Around.mono (hown : ownMatches params db request = ownMatches params db' request)
    (hsub : ∀ m ∈ nearMatches params db request, m ∈ nearMatches params db' request) {id id' : Int}
    (h : Around params db request id id') : Around params db' request id id' := by
  intro n hn hn'
  obtain ⟨m, hm, hnear, hclose⟩ := h n hn hn'
  have hm' : m ∈ ownMatches params db' request := hown ▸ hm
  exact ⟨m, hm', (mem_nearMatches_iff hm').mp (hsub m ((mem_nearMatches_iff hm).mpr hnear)), hclose⟩

/-- A hit is the same in two stores if the same messages are around it. -/
theorem shortTermHit_eq_iff (same : SameSession request.session db db')
    (hm : m ∈ nearMatches params db request) (hm' : m ∈ nearMatches params db' request)
    (hnested : (∀ m ∈ nearMatches params db request, m ∈ nearMatches params db' request) ∨
      ∀ m ∈ nearMatches params db' request, m ∈ nearMatches params db request) :
    shortTermHit (spanMessages params db request) m =
        shortTermHit (spanMessages params db' request) m ↔
      ∀ x ∈ db.conversation request.session,
        x.id ∉ db.fetchRecentShortTermIds request.session request.historyWindow →
          (Around params db request m.id x.id ↔ Around params db' request m.id x.id) := by
  obtain ⟨span, hspan, hcontext⟩ := exists_contextMessages hm
  obtain ⟨span', hspan', hcontext'⟩ := exists_contextMessages hm'
  rw [← same.conversation] at hspan' hcontext'
  rw [← same.fetchRecentShortTermIds] at hcontext'
  have hown : ownMatches params db request = ownMatches params db' request := same.ownMatches
  have hreach : (∀ x ∈ db.conversation request.session,
      span.contains x.id = true → span'.contains x.id = true) ∨
        ∀ x ∈ db.conversation request.session,
          span'.contains x.id = true → span.contains x.id = true := by
    rcases hnested with h | h
    · exact .inl fun x hx hin => (hspan' x hx).mpr (((hspan x hx).mp hin).mono hown h)
    · exact .inr fun x hx hin => (hspan x hx).mpr (((hspan' x hx).mp hin).mono hown.symm h)
  have hsplit : ∀ spanMessages, shortTermHit spanMessages m = { shortTermHit [] m with
      contextMessages := (shortTermHit spanMessages m).contextMessages } := fun _ => rfl
  have hhit : shortTermHit (spanMessages params db request) m =
      shortTermHit (spanMessages params db' request) m ↔
        (shortTermHit (spanMessages params db request) m).contextMessages =
          (shortTermHit (spanMessages params db' request) m).contextMessages := by
    refine ⟨congrArg _, fun h => ?_⟩
    rw [hsplit (spanMessages params db request), h]
    exact (hsplit _).symm
  rw [hhit, hcontext, hcontext', Option.some_inj, map_filter_eq_iff]
  · refine forall₂_congr fun x hx => ?_
    rw [← hspan x hx, ← hspan' x hx]
    simp
  · refine hreach.imp (fun h x hx hin => ?_) fun h x hx hin => ?_
    · rw [Bool.and_eq_true] at hin ⊢
      exact ⟨hin.1, h x hx hin.2⟩
    · rw [Bool.and_eq_true] at hin ⊢
      exact ⟨hin.1, h x hx hin.2⟩

end Around

/-! ## The hits in two stores -/

section TwoRuns

variable {E D F : Type} [LinearOrder D] [LinearOrder F] {params : RecallParams E D F}
  {longTerm : LongTermDb E} {db db' : ShortTermDb E} {request : RecallRequest F}

theorem SameSession.recalled_iff (same : SameSession request.session db db')
    (m : ShortTermMatch F) :
    Recalled params longTerm db request m ↔ Recalled params longTerm db' request m := by
  rw [Recalled, Recalled, same.ownMatches]

theorem RecallsAlike.symm_iff (same : SameSession request.session db db') :
    RecallsAlike params longTerm db' db request ↔ RecallsAlike params longTerm db db' request := by
  rw [RecallsAlike, RecallsAlike, same.ownMatches, same.conversation,
    same.fetchRecentShortTermIds]
  refine forall₂_congr fun m _ => imp_congr (same.recalled_iff m).symm ?_
  constructor
  · rintro ⟨hnear, haround⟩
    exact ⟨hnear.symm, fun h x hx hx' => (haround (hnear.mpr h) x hx hx').symm⟩
  · rintro ⟨hnear, haround⟩
    exact ⟨hnear.symm, fun h x hx hx' => (haround (hnear.mpr h) x hx hx').symm⟩

/-- When less is read of one store than of the other. -/
theorem hits_eq_iff_of_front (same : SameSession request.session db db')
    (hfront : nearMatches params db request <+: nearMatches params db' request) :
    shortTermHits (queryRecallHits params longTerm db none request) =
        shortTermHits (queryRecallHits params longTerm db' none request) ↔
      RecallsAlike params longTerm db db' request := by
  have hnodup : (nearMatches params db' request).Nodup :=
    ((nodup_ids_ownMatches params db' request).of_map).sublist (prefix_nearMatches _ _ _).sublist
  have hown : ownMatches params db request = ownMatches params db' request := same.ownMatches
  have hnested : (∀ m ∈ nearMatches params db request, m ∈ nearMatches params db' request) ∨
      ∀ m ∈ nearMatches params db' request, m ∈ nearMatches params db request :=
    .inl fun m hm => hfront.mem hm
  have hfilter : (nearMatches params db' request).filter
        (fun m => Recalled params longTerm db' request m) =
      (nearMatches params db' request).filter fun m => Recalled params longTerm db request m :=
    List.filter_congr fun m _ => decide_eq_decide.mpr (same.recalled_iff m).symm
  rw [shortTermHits_queryRecallHits, shortTermHits_queryRecallHits, Except.ok.injEq, hfilter,
    map_filter_eq_iff_of_front hfront hnodup]
  constructor
  · rintro ⟨hread, hhit⟩ m hm hrecalled
    have hm' : m ∈ ownMatches params db' request := hown ▸ hm
    have hiff := hread m (decide_eq_true hrecalled)
    refine ⟨(mem_nearMatches_iff hm).symm.trans (hiff.trans (mem_nearMatches_iff hm')),
      fun hnear => ?_⟩
    have hmem := (mem_nearMatches_iff hm).mpr hnear
    exact (shortTermHit_eq_iff same hmem (hiff.mp hmem) hnested).mp
      (hhit m hmem (decide_eq_true hrecalled))
  · intro halike
    refine ⟨fun m hrecalled => ⟨fun hm => hfront.mem hm, fun hm' => ?_⟩, fun m hm hrecalled => ?_⟩
    · have hmem' := (prefix_nearMatches _ _ _).mem hm'
      have hmem : m ∈ ownMatches params db request := hown ▸ hmem'
      have hnear := (halike m hmem (of_decide_eq_true hrecalled)).1
      exact (mem_nearMatches_iff hmem).mpr (hnear.mpr ((mem_nearMatches_iff hmem').mp hm'))
    · have hmem := (prefix_nearMatches _ _ _).mem hm
      have haround := (halike m hmem (of_decide_eq_true hrecalled)).2
        ((mem_nearMatches_iff hmem).mp hm)
      exact (shortTermHit_eq_iff same hm (hfront.mem hm) hnested).mpr haround

variable (params longTerm) in
/-- **Two stores with the same rows of a session give it the same hits if and only if they agree
on what is read of the messages that would be hits, and around them.** -/
theorem shortTermHits_eq_iff (same : SameSession request.session db db')
    (embedError : Option FrameworkError) :
    shortTermHits (queryRecallHits params longTerm db embedError request) =
        shortTermHits (queryRecallHits params longTerm db' embedError request) ↔
      (embedError = none → RecallsAlike params longTerm db db' request) := by
  cases embedError with
  | some e => exact iff_of_true rfl (by simp)
  | none =>
      have hown : ownMatches params db request = ownMatches params db' request := same.ownMatches
      have hfront' : nearMatches params db' request <+: ownMatches params db request :=
        hown ▸ prefix_nearMatches params db' request
      rw [imp_iff_right rfl]
      rcases List.prefix_or_prefix_of_prefix
        (prefix_nearMatches params db request) hfront' with h | h
      · exact hits_eq_iff_of_front same h
      · rw [← RecallsAlike.symm_iff same, eq_comm]
        exact hits_eq_iff_of_front same.symm h

end TwoRuns

/-- Facts count in tenths of their similarity. -/
def sampleRecall : RecallParams Int Nat Int where
  toLongTermConfig := sampleStore
  withImportance similarity imp := similarity * (9 + imp) / 10
  mul a b := a * b / 100
  toLowercase := Text.toAsciiLowercase

/-- As before a turn, but for one hit only. -/
def teaRequest : RecallRequest Int where
  session := "agent:a:main"
  query := "tea at five"
  config := { topK := 1, minScore := 0, longTermWeight := 65, shortTermContextRadius := 2 }
  historyWindow := 0
  scope := .combined
  preferLongTerm := true

def said (sessionId content : Text) : ShortTermDb.NewMessage Int where
  sessionId := sessionId
  role := .user
  content := content
  username := none
  embedding := some (sampleStore.embed content)

/-- The store after some messages. -/
def storeAfter (messages : List (ShortTermDb.NewMessage Int)) : ShortTermDb Int :=
  ((ShortTermDb.empty Int).appendAll messages).toOption.getD (ShortTermDb.empty Int)

def ownMessage : List (ShortTermDb.NewMessage Int) := [said "agent:a:main" "tea"]

def otherMessages : List (ShortTermDb.NewMessage Int) :=
  List.replicate 5 (said "agent:b:main" "tea at five")

theorem sameSession_tea : SameSession teaRequest.session (storeAfter ownMessage)
    (storeAfter (ownMessage ++ otherMessages)) := by
  have happend : (storeAfter ownMessage).appendAll otherMessages =
      .ok (storeAfter (ownMessage ++ otherMessages)) := by rfl
  refine sameSession_appendAll (fun m hm => ?_) happend
  rw [List.eq_of_mem_replicate hm]
  decide

theorem shortTermHits_eq_iff_tea :
    ∃ db db' : ShortTermDb Int, SameSession teaRequest.session db db' ∧
      (shortTermHits (queryRecallHits sampleRecall emptyStore db none teaRequest) =
          shortTermHits (queryRecallHits sampleRecall emptyStore db' none teaRequest) ↔
        ((none : Option FrameworkError) = none →
          RecallsAlike sampleRecall emptyStore db db' teaRequest)) :=
  ⟨_, _, sameSession_tea, shortTermHits_eq_iff sampleRecall emptyStore sameSession_tea none⟩

/-- What is said in another session takes the place of the only message of this one. -/
theorem message_crowded_out : ∃ db db' : ShortTermDb Int, SameSession teaRequest.session db db' ∧
    shortTermHits (queryRecallHits sampleRecall emptyStore db none teaRequest) ≠
      shortTermHits (queryRecallHits sampleRecall emptyStore db' none teaRequest) := by
  refine ⟨_, _, sameSession_tea, fun heq => ?_⟩
  have hlength : ((shortTermHits (queryRecallHits sampleRecall emptyStore (storeAfter ownMessage)
      none teaRequest)).toOption.map List.length) = some 1 := by decide +kernel
  have hnone : ((shortTermHits (queryRecallHits sampleRecall emptyStore
      (storeAfter (ownMessage ++ otherMessages)) none teaRequest)).toOption.map List.length) =
        some 0 := by decide +kernel
  rw [heq, hnone] at hlength
  cases hlength

end Memory
end SimpleClaw
