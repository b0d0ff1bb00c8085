import Mathlib.Data.List.Pairwise
import Mathlib.Data.List.Sort

/-!
# Merging spans

Spans of integers are sorted by their starts, and one that overlaps the last one or begins right
after it is merged into it.  The merged spans are the maximal runs of covered integers: one can go
from one element of a merged span to another without leaving what the given spans cover, and to
nowhere else.

* `add`: one more span; `merge`: all of them.
* `covered_merge`: what is covered.
* `pairwise_merge`, `separated_merge`: the merged spans are in order, and no two of them touch.
* `countP_contains`: no integer is in two of them.
* `contains_iff_covered`: the span around an element.
-/

namespace Spans

/-- The integers from `start` to `stop`. -/
structure Span where
  start : Int
  stop : Int
  deriving DecidableEq

def Span.contains (s : Span) (x : Int) : Bool := decide (s.start ≤ x ∧ x ≤ s.stop)

@[simp] theorem Span.contains_iff {s : Span} {x : Int} :
    s.contains x = true ↔ s.start ≤ x ∧ x ≤ s.stop := decide_eq_true_iff

/-- One more span, after those with smaller starts; the last one comes first. -/
def add (merged : List Span) (s : Span) : List Span :=
  match merged with
  | [] => [s]
  | last :: rest =>
      if s.start ≤ last.stop + 1 then { last with stop := max last.stop s.stop } :: rest
      else s :: last :: rest

/-- The spans, merged. -/
def merge (spans : List Span) : List Span :=
  ((spans.insertionSort fun s t => s.start ≤ t.start).foldl add []).reverse

/-- The integer is in one of the spans. -/
def Covered (spans : List Span) (x : Int) : Prop := ∃ s ∈ spans, s.start ≤ x ∧ x ≤ s.stop

/-- There is an integer between any two of the spans that is in neither. -/
def Apart (s t : Span) : Prop := s.stop + 1 < t.start ∨ t.stop + 1 < s.start

instance : Std.Symm Apart := ⟨fun _ _ => Or.symm⟩

theorem covered_cons {s : Span} {spans : List Span} {x : Int} :
    Covered (s :: spans) x ↔ (s.start ≤ x ∧ x ≤ s.stop) ∨ Covered spans x := by
  simp [Covered]

theorem covered_congr {spans spans' : List Span} (h : ∀ s, s ∈ spans ↔ s ∈ spans') {x : Int} :
    Covered spans x ↔ Covered spans' x :=
  exists_congr fun s => and_congr_left fun _ => h s

/-! ## One more span -/

/-- The merged spans do not touch, and start before the next one to come. -/
structure Merged (merged : List Span) (next : Int) : Prop where
  apart : merged.Pairwise fun later earlier => earlier.stop + 1 < later.start
  before : ∀ s ∈ merged, s.start ≤ next

theorem Merged.add {merged : List Span} {s : Span} (h : Merged merged s.start) {next : Int}
    (hnext : s.start ≤ next) : Merged (add merged s) next := by
  cases merged with
  | nil =>
      refine ⟨List.pairwise_singleton _ _, fun t ht => ?_⟩
      rw [List.mem_singleton.mp ht]
      exact hnext
  | cons last rest =>
      obtain ⟨hlast, hrest⟩ := List.pairwise_cons.mp h.apart
      have hstart : last.start ≤ s.start := h.before last List.mem_cons_self
      rw [Spans.add]
      split
      · refine ⟨List.pairwise_cons.mpr ⟨hlast, hrest⟩, List.forall_mem_cons.mpr ⟨?_, ?_⟩⟩
        · exact le_trans hstart hnext
        · exact fun t ht => le_trans (h.before t (List.mem_cons_of_mem _ ht)) hnext
      · next htouch =>
          refine ⟨List.pairwise_cons.mpr ⟨List.forall_mem_cons.mpr ⟨?_, ?_⟩, h.apart⟩,
            List.forall_mem_cons.mpr ⟨hnext, fun t ht => le_trans (h.before t ht) hnext⟩⟩
          · omega
          · intro t ht
            have hapart := hlast t ht
            omega

/-- A span that is added covers what it covered. -/
theorem covered_add {merged : List Span} {s : Span} (h : Merged merged s.start) {x : Int} :
    Covered (add merged s) x ↔ Covered merged x ∨ (s.start ≤ x ∧ x ≤ s.stop) := by
  cases merged with
  | nil => simp [add, Covered]
  | cons last rest =>
      have hstart : last.start ≤ s.start := h.before last List.mem_cons_self
      rw [add]
      split
      · next htouch =>
          rw [covered_cons, covered_cons, or_right_comm]
          refine or_congr_left ?_
          show last.start ≤ x ∧ x ≤ max last.stop s.stop ↔ _
          omega
      · rw [covered_cons, or_comm]

/-! ## All of them -/

theorem apart_foldl {spans merged : List Span}
    (hspans : spans.Pairwise fun s t => s.start ≤ t.start)
    (hmerged : ∀ s ∈ spans, Merged merged s.start)
    (hapart : merged.Pairwise fun later earlier => earlier.stop + 1 < later.start) :
    (spans.foldl add merged).Pairwise fun later earlier => earlier.stop + 1 < later.start := by
  induction spans generalizing merged with
  | nil => exact hapart
  | cons s spans ih =>
      obtain ⟨hs, hrest⟩ := List.pairwise_cons.mp hspans
      have hhead : Merged merged s.start := hmerged s List.mem_cons_self
      exact ih hrest (fun t ht => hhead.add (hs t ht)) (hhead.add le_rfl).apart

theorem covered_foldl {spans merged : List Span}
    (hspans : spans.Pairwise fun s t => s.start ≤ t.start)
    (hmerged : ∀ s ∈ spans, Merged merged s.start) {x : Int} :
    Covered (spans.foldl add merged) x ↔ Covered merged x ∨ Covered spans x := by
  induction spans generalizing merged with
  | nil => simp [Covered]
  | cons s spans ih =>
      obtain ⟨hs, hrest⟩ := List.pairwise_cons.mp hspans
      have hhead : Merged merged s.start := hmerged s List.mem_cons_self
      rw [List.foldl_cons, ih hrest fun t ht => hhead.add (hs t ht), covered_add hhead,
        covered_cons, or_assoc]

private theorem pairwise_sorted (spans : List Span) :
    (spans.insertionSort fun s t => s.start ≤ t.start).Pairwise fun s t => s.start ≤ t.start :=
  haveI : IsTrans Span fun s t => s.start ≤ t.start := ⟨fun _ _ _ => le_trans⟩
  haveI : Std.Total fun s t : Span => s.start ≤ t.start := ⟨fun s t => le_total s.start t.start⟩
  List.pairwise_insertionSort _ _

private theorem merged_nil (next : Int) : Merged [] next := ⟨List.Pairwise.nil, by simp⟩

/-- **The merged spans cover what the given ones do.** -/
theorem covered_merge {spans : List Span} {x : Int} :
    Covered (merge spans) x ↔ Covered spans x := by
  rw [merge, covered_congr fun s => List.mem_reverse,
    covered_foldl (pairwise_sorted spans) fun s _ => merged_nil s.start,
    covered_congr fun s => List.mem_insertionSort _]
  simp [Covered]

/-- **The merged spans are in order, with a gap after each.** -/
theorem pairwise_merge (spans : List Span) :
    (merge spans).Pairwise fun s t => s.stop + 1 < t.start := by
  rw [merge, List.pairwise_reverse]
  exact apart_foldl (pairwise_sorted spans) (fun s _ => merged_nil s.start) List.Pairwise.nil

/-- **No two merged spans touch.** -/
theorem separated_merge (spans : List Span) : (merge spans).Pairwise Apart :=
  (pairwise_merge spans).imp Or.inl

/-- What holds of the given spans, and of a span that reaches as far as another one, holds of the
merged ones. -/
theorem forall_mem_merge {spans : List Span} {p : Span → Prop} (hspans : ∀ s ∈ spans, p s)
    (hmax : ∀ s t, p s → p t → p { s with stop := max s.stop t.stop }) :
    ∀ s ∈ merge spans, p s := by
  have hadd : ∀ merged : List Span, (∀ s ∈ merged, p s) → ∀ t, p t → ∀ s ∈ add merged t, p s := by
    intro merged hmerged t ht
    cases merged with
    | nil => exact List.forall_mem_singleton.mpr ht
    | cons last rest =>
      obtain ⟨hlast, hrest⟩ := List.forall_mem_cons.mp hmerged
      rw [add]
      split
      · exact List.forall_mem_cons.mpr ⟨hmax last t hlast ht, hrest⟩
      · exact List.forall_mem_cons.mpr ⟨ht, hmerged⟩
  have hfold : ∀ sorted merged : List Span, (∀ s ∈ sorted, p s) → (∀ s ∈ merged, p s) →
      ∀ s ∈ sorted.foldl add merged, p s := by
    intro sorted
    induction sorted with
    | nil => exact fun merged _ hmerged => hmerged
    | cons t sorted ih =>
      intro merged hsorted hmerged
      obtain ⟨ht, hsorted⟩ := List.forall_mem_cons.mp hsorted
      exact ih (add merged t) hsorted (hadd merged hmerged t ht)
  intro s hs
  refine hfold _ [] (fun t ht => hspans t ?_) (List.forall_mem_nil p) s (List.mem_reverse.mp hs)
  exact (List.mem_insertionSort _).mp ht

/-- What is covered by spans in order is in one of them only. -/
theorem countP_contains {spans : List Span}
    (hspans : spans.Pairwise fun s t => s.stop + 1 < t.start) {x : Int} (hx : Covered spans x) :
    spans.countP (fun s => s.contains x) = 1 := by
  induction spans with
  | nil => simp [Covered] at hx
  | cons s spans ih =>
    obtain ⟨hs, hspans⟩ := List.pairwise_cons.mp hspans
    by_cases hin : s.contains x = true
    · have hothers : ∀ t ∈ spans, ¬ t.contains x = true := by
        intro t ht htx
        have hgap := hs t ht
        rw [Span.contains_iff] at hin htx
        omega
      rw [List.countP_cons_of_pos (p := fun s : Span => s.contains x) hin, List.countP_eq_zero.mpr hothers]
    · rw [List.countP_cons_of_neg (p := fun s : Span => s.contains x) hin]
      rw [covered_cons, ← Span.contains_iff] at hx
      exact ih hspans (hx.resolve_left hin)

/-- **From an element of one of them to another integer the way is covered if and only if the
integer is in the same one.** -/
theorem contains_iff_covered {spans : List Span} (hspans : spans.Pairwise Apart) {s : Span}
    (hs : s ∈ spans) {x y : Int} (hx : s.contains x = true) :
    s.contains y = true ↔ ∀ z, min x y ≤ z → z ≤ max x y → Covered spans z := by
  have hother : ∀ z, Covered spans z → z = s.stop + 1 ∨ z = s.start - 1 → False := by
    rintro z ⟨t, ht, hz⟩ hend
    by_cases hst : s = t
    · subst hst
      omega
    · have hapart : Apart s t := hspans.forall hs ht hst
      rw [Span.contains_iff] at hx
      unfold Apart at hapart
      omega
  rw [Span.contains_iff] at hx ⊢
  constructor
  · exact fun hy z hmin hmax => ⟨s, hs, by omega, by omega⟩
  · intro hway
    by_contra hy
    rcases lt_or_ge s.stop y with hlt | hge
    · exact hother (s.stop + 1) (hway _ (by omega) (by omega)) (.inl rfl)
    · exact hother (s.start - 1) (hway _ (by omega) (by omega)) (.inr rfl)

end Spans
