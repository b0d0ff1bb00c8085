import Mathlib.Order.Lattice
import Mathlib.Data.List.Basic
import Mathlib.Data.List.Infix

/-!
# Keeping the latest

Entries are put aside in their order, and from time to time all but the latest ones that are
there are thrown away.

* `Retains`: what is not there any more has so many later ones that are.
* `Retains.push`, `Retains.prune`: a new last entry, and throwing entries away.
-/

namespace Retention

variable {κ : Type*} [LinearOrder κ]

/-- What is not kept any more has at least `retain` later ones that are. -/
def Retains (retain : Nat) (all kept : List κ) : Prop :=
  ∀ k ∈ all, k ∉ kept → retain ≤ kept.countP (k < ·)

theorem retains_nil (retain : Nat) : Retains retain ([] : List κ) [] := by
  intro k hk
  cases hk

/-- A new entry is kept. -/
theorem Retains.push {retain : Nat} {all kept : List κ} (h : Retains retain all kept) (k : κ) :
    Retains retain (all ++ [k]) (kept ++ [k]) := by
  intro k' hk' hnot
  rw [List.mem_append, not_or] at hnot
  rcases List.mem_append.mp hk' with hall | hnew
  · rw [List.countP_append]
    exact Nat.le_add_right_of_le (h k' hall hnot.1)
  · exact absurd hnew hnot.2

/-- The later ones are at the end of an ordered list. -/
theorem filter_lt_suffix {l : List κ} (hl : l.Pairwise (· < ·)) (k : κ) :
    l.filter (k < ·) <:+ l := by
  induction l with
  | nil => exact List.suffix_refl _
  | cons a l ih =>
      obtain ⟨ha, hl⟩ := List.pairwise_cons.mp hl
      by_cases hka : k < a
      · have hall : (a :: l).filter (k < ·) = a :: l := by
          refine List.filter_eq_self.mpr fun b hb => ?_
          rcases List.mem_cons.mp hb with rfl | hb
          · exact decide_eq_true hka
          · exact decide_eq_true (hka.trans (ha b hb))
        rw [hall]
      · rw [List.filter_cons_of_neg (by simpa using hka)]
        exact (ih hl).trans (List.suffix_cons a l)

/-- **Throwing away all but the latest** keeps so many later ones of whatever is gone: also if
some of what should go stays. -/
theorem Retains.prune {retain : Nat} {all kept kept' : List κ} (h : Retains retain all kept)
    (hsorted : kept.Pairwise (· < ·))
    (hlatest : (kept.drop (kept.length - retain)).Sublist kept')
    (hfew : kept.length ≤ retain → kept' = kept) : Retains retain all kept' := by
  intro k hk hnot
  rcases Nat.lt_or_ge retain kept.length with hlong | hshort
  · -- there are so many in the end that is not thrown away, and all of them are later
    have hlength : (kept.drop (kept.length - retain)).length = retain := by
      rw [List.length_drop]
      omega
    have hlater : ∀ b ∈ kept.drop (kept.length - retain), k < b := by
      by_cases hkept : k ∈ kept
      · have hsplit := List.take_append_drop (kept.length - retain) kept
        have hfirst : k ∈ kept.take (kept.length - retain) := by
          rw [← hsplit] at hkept
          rcases List.mem_append.mp hkept with htake | hdrop
          · exact htake
          · exact absurd (hlatest.subset hdrop) hnot
        rw [← hsplit] at hsorted
        exact (List.pairwise_append.mp hsorted).2.2 k hfirst
      · have hcount := h k hk hkept
        rw [List.countP_eq_length_filter] at hcount
        have hsuffix : kept.drop (kept.length - retain) <:+ kept.filter (k < ·) :=
          List.suffix_of_suffix_length_le (List.drop_suffix _ _) (filter_lt_suffix hsorted k)
            (by rw [hlength]; exact hcount)
        intro b hb
        exact of_decide_eq_true (List.mem_filter.mp (hsuffix.subset hb)).2
    calc retain = (kept.drop (kept.length - retain)).length := hlength.symm
      _ = (kept.drop (kept.length - retain)).countP (k < ·) :=
          (List.countP_eq_length.mpr fun b hb => decide_eq_true (hlater b hb)).symm
      _ ≤ kept'.countP (k < ·) := hlatest.countP_le
  · rw [hfew hshort] at hnot ⊢
    exact h k hk hnot

end Retention
