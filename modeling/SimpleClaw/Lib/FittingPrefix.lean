import Mathlib.Order.Bounds.Basic

/-!
# The longest prefix that fits

Items are taken one by one as long as their sizes stay within a limit; the first one that does not
fit ends it, even if a later one would.

* `fitting`: how many are taken.
* `fitting_isGreatest`: no longer prefix fits.
-/

namespace FittingPrefix

universe u

variable {α : Type u}

/-- The size of some items. -/
def totalSize (size : α → Nat) : List α → Nat
  | [] => 0
  | a :: items => size a + totalSize size items

/-- The size of the first items. -/
def sizeOfTake (size : α → Nat) (items : List α) (n : Nat) : Nat := totalSize size (items.take n)

@[simp] theorem sizeOfTake_zero (size : α → Nat) (items : List α) : sizeOfTake size items 0 = 0 :=
  rfl

@[simp] theorem sizeOfTake_cons_succ (size : α → Nat) (a : α) (items : List α) (n : Nat) :
    sizeOfTake size (a :: items) (n + 1) = size a + sizeOfTake size items n := rfl

/-- How many items are taken, when this much of the limit is used. -/
def fitting (size : α → Nat) (limit : Nat) : Nat → List α → Nat
  | _, [] => 0
  | used, a :: items =>
      if limit < used + size a then 0 else fitting size limit (used + size a) items + 1

section Fitting

variable {size : α → Nat} {limit : Nat}

theorem fitting_le_length (used : Nat) (items : List α) :
    fitting size limit used items ≤ items.length := by
  induction items generalizing used with
  | nil => exact Nat.le_refl 0
  | cons a items ih =>
      rw [fitting, List.length_cons]
      split
      · omega
      · exact Nat.succ_le_succ (ih _)

/-- Those that are taken fit. -/
theorem used_add_sizeOfTake_fitting_le {used : Nat} {items : List α}
    (h : 0 < fitting size limit used items) :
    used + sizeOfTake size items (fitting size limit used items) ≤ limit := by
  induction items generalizing used with
  | nil => exact absurd h (Nat.lt_irrefl 0)
  | cons a items ih =>
      rw [fitting] at h ⊢
      split at h
      · exact absurd h (Nat.lt_irrefl 0)
      · next hfits =>
        rw [if_neg hfits, sizeOfTake_cons_succ, ← Nat.add_assoc]
        by_cases hrest : 0 < fitting size limit (used + size a) items
        · exact ih hrest
        · rw [show fitting size limit (used + size a) items = 0 by omega, sizeOfTake_zero]
          omega

/-- As many as fit are taken. -/
theorem le_fitting {used n : Nat} {items : List α} (hn : n ≤ items.length)
    (h : used + sizeOfTake size items n ≤ limit) : n ≤ fitting size limit used items := by
  induction items generalizing used n with
  | nil => exact hn
  | cons a items ih =>
      obtain _ | n := n
      · exact Nat.zero_le _
      · rw [sizeOfTake_cons_succ, ← Nat.add_assoc] at h
        rw [fitting, if_neg (by omega)]
        exact Nat.succ_le_succ (ih (Nat.le_of_succ_le_succ hn) h)

/-- **The longest prefix that fits is taken**, none counting as one that does. -/
theorem fitting_isGreatest (used : Nat) (items : List α) :
    IsGreatest {n | n ≤ items.length ∧ (0 < n → used + sizeOfTake size items n ≤ limit)}
      (fitting size limit used items) := by
  constructor
  · exact ⟨fitting_le_length used items, used_add_sizeOfTake_fitting_le⟩
  · rintro n ⟨hn, hfits⟩
    obtain _ | n := n
    · exact Nat.zero_le _
    · exact le_fitting hn (hfits (Nat.succ_pos n))

end Fitting

end FittingPrefix
