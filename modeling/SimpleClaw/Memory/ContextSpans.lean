import SimpleClaw.Memory.Recall

/-!
# The spans of messages around the candidates

Around each candidate there is a window of ids, cut off at the ends of the integer range, and
windows that overlap or follow each other are read as one span.

* `MergesWindows`: what the spans are to be.
* `mergeShortTermContextSpans_eq`: the loop is the merging of spans, although it computes the end
  of the last one with saturation.
* `mergeShortTermContextSpans_iff`: the spans are as they should be, unless the cast of the radius
  to a signed integer makes it negative.
-/

namespace SimpleClaw
namespace Memory

variable {F : Type} {items : List (ShortTermMatch F)} {radius : Nat}

/-- The spans are the windows of the candidates, merged. -/
structure MergesWindows (radius : Nat) (items : List (ShortTermMatch F))
    (spans : List ContextSpan) : Prop where
  proper : ∀ s ∈ spans, i64Min ≤ s.start ∧ s.start ≤ s.stop ∧ s.stop ≤ i64Max
  sorted : spans.Pairwise fun s t => s.start < t.start
  /-- There is an id between two spans that is in neither. -/
  apart : spans.Pairwise fun s t => s.stop + 1 < t.start
  union : ∀ n, Spans.Covered spans n ↔ (i64Min ≤ n ∧ n ≤ i64Max) ∧
    ∃ item ∈ items, item.id - radius ≤ n ∧ n ≤ item.id + radius
  contained : ∀ item ∈ items, spans.countP (fun s => s.contains item.id) = 1

/-! ## Windows -/

theorem contextSpan_start_le (radius : Nat) {id : Int} (h : id ≤ i64Max) :
    (contextSpan radius id).start ≤ i64Max := by
  rw [contextSpan]
  split
  · exact saturatingSub_le_max h
  · exact min_le_right _ _

theorem contextSpan_proper (hradius : radius ≤ i64Max) {id : Int} (hmin : i64Min ≤ id)
    (hmax : id ≤ i64Max) : i64Min ≤ (contextSpan radius id).start ∧
      (contextSpan radius id).start ≤ (contextSpan radius id).stop ∧
      (contextSpan radius id).stop ≤ i64Max := by
  rw [contextSpan_of_le hradius, saturatingSub, saturatingAdd]
  dsimp only
  omega

theorem mem_contextSpan_iff (hradius : radius ≤ i64Max) {id n : Int} :
    ((contextSpan radius id).start ≤ n ∧ n ≤ (contextSpan radius id).stop) ↔
      (i64Min ≤ n ∧ n ≤ i64Max) ∧ id - radius ≤ n ∧ n ≤ id + radius := by
  rw [contextSpan_of_le hradius, saturatingSub, saturatingAdd]
  dsimp only
  omega

/-- A negative radius leaves nothing of a window. -/
theorem stop_lt_start_contextSpan (hradius : ¬ radius ≤ i64Max) (husize : radius < 2 ^ 64)
    {id : Int} (hmin : i64Min ≤ id) (hmax : id ≤ i64Max) :
    (contextSpan radius id).stop < (contextSpan radius id).start := by
  have hmax' : i64Max = 2 ^ 63 - 1 := rfl
  have hmin' : i64Min = -2 ^ 63 := rfl
  rw [contextSpan, if_neg hradius, saturatingSub, saturatingAdd]
  dsimp only
  omega

/-! ## Merging them -/

theorem mergeSpan_eq (merged : List ContextSpan) {span : ContextSpan} (h : span.start ≤ i64Max) :
    mergeSpan merged span = Spans.add merged span := by
  cases merged with
  | nil => rfl
  | cons last rest =>
      rw [mergeSpan, Spans.add]
      exact if_congr (le_saturatingAdd_iff h) rfl rfl

theorem mergeShortTermContextSpans_eq (radius : Nat) (h : ∀ m ∈ items, m.id ≤ i64Max) :
    mergeShortTermContextSpans items radius =
      Spans.merge (items.map fun m => contextSpan radius m.id) := by
  rw [mergeShortTermContextSpans, Spans.merge]
  refine congrArg List.reverse
    (List.foldl_ext _ _ _ fun merged span hspan => mergeSpan_eq merged ?_)
  obtain ⟨m, hm, rfl⟩ := List.mem_map.mp ((List.mem_insertionSort _).mp hspan)
  exact contextSpan_start_le radius (h m hm)

theorem covered_contextSpans {n : Int} :
    Spans.Covered (items.map fun m => contextSpan radius m.id) n ↔
      ∃ m ∈ items, (contextSpan radius m.id).start ≤ n ∧ n ≤ (contextSpan radius m.id).stop := by
  simp [Spans.Covered]

theorem mergesWindows (hids : ∀ m ∈ items, i64Min ≤ m.id ∧ m.id ≤ i64Max)
    (hradius : radius ≤ i64Max) :
    MergesWindows radius items (mergeShortTermContextSpans items radius) := by
  rw [mergeShortTermContextSpans_eq radius fun m hm => (hids m hm).2]
  have hproper : ∀ s ∈ Spans.merge (items.map fun m => contextSpan radius m.id),
      i64Min ≤ s.start ∧ s.start ≤ s.stop ∧ s.stop ≤ i64Max := by
    refine Spans.forall_mem_merge (fun s hs => ?_) fun s t hs ht => ?_
    · obtain ⟨m, hm, rfl⟩ := List.mem_map.mp hs
      exact contextSpan_proper hradius (hids m hm).1 (hids m hm).2
    · dsimp only
      omega
  have hapart := Spans.pairwise_merge (items.map fun m => contextSpan radius m.id)
  have hunion : ∀ n, Spans.Covered (Spans.merge (items.map fun m => contextSpan radius m.id)) n ↔
      (i64Min ≤ n ∧ n ≤ i64Max) ∧ ∃ m ∈ items, m.id - radius ≤ n ∧ n ≤ m.id + radius := by
    intro n
    rw [Spans.covered_merge, covered_contextSpans]
    constructor
    · rintro ⟨m, hm, hn⟩
      obtain ⟨hrange, hclose⟩ := (mem_contextSpan_iff hradius).mp hn
      exact ⟨hrange, m, hm, hclose⟩
    · rintro ⟨hrange, m, hm, hclose⟩
      exact ⟨m, hm, (mem_contextSpan_iff hradius).mpr ⟨hrange, hclose⟩⟩
  constructor
  case proper => exact hproper
  case sorted =>
    refine hapart.imp_of_mem fun {s t} hs _ hst => ?_
    have hs' := hproper s hs
    omega
  case apart => exact hapart
  case union => exact hunion
  case contained =>
    intro m hm
    exact Spans.countP_contains hapart
      ((hunion m.id).mpr ⟨hids m hm, m, hm, by omega, by omega⟩)

/-- **The spans are the merged windows exactly if the radius fits the signed integers** (a
configured one does), or there is nothing to read around. -/
theorem mergeShortTermContextSpans_iff (hids : ∀ m ∈ items, i64Min ≤ m.id ∧ m.id ≤ i64Max)
    (husize : radius < 2 ^ 64) :
    MergesWindows radius items (mergeShortTermContextSpans items radius) ↔
      radius ≤ i64Max ∨ items = [] := by
  constructor
  · intro hmerges
    by_contra hnot
    obtain ⟨hradius, hne⟩ := not_or.mp hnot
    obtain ⟨m, hm⟩ := List.exists_mem_of_ne_nil items hne
    -- The candidate is in no window, its own included.
    obtain ⟨s, hs, hsm⟩ : ∃ s ∈ mergeShortTermContextSpans items radius, s.contains m.id = true :=
      List.countP_pos_iff.mp (by rw [hmerges.contained m hm]; exact Nat.one_pos)
    rw [mergeShortTermContextSpans_eq radius fun m hm => (hids m hm).2] at hs
    have hcovered := Spans.covered_merge.mp ⟨s, hs, Spans.Span.contains_iff.mp hsm⟩
    obtain ⟨m', hm', hstart, hstop⟩ := covered_contextSpans.mp hcovered
    have hempty := stop_lt_start_contextSpan hradius husize (hids m' hm').1 (hids m' hm').2
    omega
  · rintro (hradius | rfl)
    · exact mergesWindows hids hradius
    · exact ⟨by simp [mergeShortTermContextSpans], List.Pairwise.nil, List.Pairwise.nil,
        by simp [mergeShortTermContextSpans, Spans.Covered], by simp⟩

/-- At the upper end of the range, out of order and one of them twice. -/
theorem mergeShortTermContextSpans_iff_upperEnd :
    let item (id : Int) : ShortTermMatch Nat := ⟨id, .user, "", none, 0⟩
    MergesWindows 2 [item i64Max, item 7, item (i64Max - 3), item 7]
      (mergeShortTermContextSpans [item i64Max, item 7, item (i64Max - 3), item 7] 2) :=
  (mergeShortTermContextSpans_iff (by decide) (by decide)).mpr (.inl (by decide))

/-- With a radius of `2 ^ 63` a candidate is in no span. -/
theorem not_mergesWindows_wrapped :
    ¬ MergesWindows (2 ^ 63) [(⟨0, .user, "", none, 0⟩ : ShortTermMatch Nat)]
      (mergeShortTermContextSpans [⟨0, .user, "", none, 0⟩] (2 ^ 63)) :=
  fun h => absurd (h.contained _ List.mem_cons_self) (by decide)

end Memory
end SimpleClaw
