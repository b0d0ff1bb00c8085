import Mathlib.Data.List.Basic

/-!
# Layered settings

A setting may be given by any of several layers, listed from the most general to the most
specific one; each layer is a record, and `field` reads from it the setting, if it gives one.

* `mostSpecific field layers`: what the last layer giving the setting gives.
* `MostSpecificWins field layers fallback value`: the value is that of the last layer giving one,
  and the fallback if none does.
* `field_foldl`: merging the layers into one record, each overriding the fields it gives, leaves
  the most specific value in every field.
-/

namespace Layers

universe u v

variable {σ : Type u} {β : Type v}

/-- The value of the last layer that gives one. -/
def mostSpecific (field : σ → Option β) : List σ → Option β
  | [] => none
  | layer :: lower => (mostSpecific field lower).or (field layer)

@[simp] theorem mostSpecific_nil (field : σ → Option β) : mostSpecific field [] = none := rfl

@[simp] theorem mostSpecific_cons (field : σ → Option β) (layer : σ) (lower : List σ) :
    mostSpecific field (layer :: lower) = (mostSpecific field lower).or (field layer) := rfl

theorem mostSpecific_append (field : σ → Option β) (upper lower : List σ) :
    mostSpecific field (upper ++ lower) =
      (mostSpecific field lower).or (mostSpecific field upper) := by
  induction upper with
  | nil => simp
  | cons layer upper ih => rw [List.cons_append, mostSpecific_cons, mostSpecific_cons, ih,
      Option.or_assoc]

theorem mostSpecific_eq_none_iff {field : σ → Option β} {layers : List σ} :
    mostSpecific field layers = none ↔ ∀ layer ∈ layers, field layer = none := by
  induction layers with
  | nil => simp
  | cons layer lower ih =>
      rw [mostSpecific_cons, Option.or_eq_none_iff, ih, List.forall_mem_cons, and_comm]

/-- Whatever gives the setting, some layer does with nothing more specific below it. -/
theorem mostSpecific_eq_some_iff {field : σ → Option β} {layers : List σ} {b : β} :
    mostSpecific field layers = some b ↔
      ∃ upper layer lower, layers = upper ++ layer :: lower ∧ field layer = some b ∧
        ∀ l ∈ lower, field l = none := by
  constructor
  · intro h
    induction layers with
    | nil => cases h
    | cons layer lower ih =>
        rw [mostSpecific_cons] at h
        cases hlower : mostSpecific field lower with
        | some c =>
            rw [hlower, Option.some_or] at h
            obtain ⟨upper, l, rest, rfl, hl, hrest⟩ := ih (hlower.trans h)
            exact ⟨layer :: upper, l, rest, rfl, hl, hrest⟩
        | none =>
            rw [hlower, Option.none_or] at h
            exact ⟨[], layer, lower, rfl, h, mostSpecific_eq_none_iff.mp hlower⟩
  · rintro ⟨upper, layer, lower, rfl, hlayer, hlower⟩
    rw [mostSpecific_append, mostSpecific_cons, mostSpecific_eq_none_iff.mpr hlower, hlayer]
    rfl

/-- Reading the setting through a function reads its most specific value so. -/
theorem mostSpecific_map {γ : Type*} (g : β → γ) (field : σ → Option β) (layers : List σ) :
    mostSpecific (fun layer => (field layer).map g) layers = (mostSpecific field layers).map g := by
  induction layers with
  | nil => rfl
  | cons layer lower ih =>
      rw [mostSpecific_cons, mostSpecific_cons, ih]
      cases mostSpecific field lower <;> rfl

/-- **The most specific layer wins.** -/
structure MostSpecificWins (field : σ → Option β) (layers : List σ) (fallback value : β) :
    Prop where
  of_given : ∀ upper layer lower b, layers = upper ++ layer :: lower → field layer = some b →
    (∀ l ∈ lower, field l = none) → value = b
  of_not_given : (∀ layer ∈ layers, field layer = none) → value = fallback

/-- The relation determines the value. -/
theorem mostSpecificWins_iff {field : σ → Option β} {layers : List σ} {fallback value : β} :
    MostSpecificWins field layers fallback value ↔
      value = (mostSpecific field layers).getD fallback := by
  constructor
  · intro h
    cases hlayers : mostSpecific field layers with
    | none => exact h.of_not_given (mostSpecific_eq_none_iff.mp hlayers)
    | some b =>
        obtain ⟨upper, layer, lower, hsplit, hlayer, hlower⟩ := mostSpecific_eq_some_iff.mp hlayers
        exact h.of_given upper layer lower b hsplit hlayer hlower
  · rintro rfl
    refine ⟨fun upper layer lower b hsplit hlayer hlower => ?_, fun hnone => ?_⟩
    · rw [mostSpecific_eq_some_iff.mpr ⟨upper, layer, lower, hsplit, hlayer, hlower⟩]
      rfl
    · rw [mostSpecific_eq_none_iff.mpr hnone]
      rfl

/-- **Merging the layers in turn leaves the most specific value in the field.** -/
theorem field_foldl {field : σ → Option β} {merge : σ → σ → σ}
    (hmerge : ∀ upper lower, field (merge upper lower) = (field lower).or (field upper))
    (base : σ) (layers : List σ) :
    field (layers.foldl merge base) = mostSpecific field (base :: layers) := by
  induction layers generalizing base with
  | nil => simp
  | cons layer lower ih =>
      rw [List.foldl_cons, ih, mostSpecific_cons, hmerge, mostSpecific_cons, mostSpecific_cons,
        Option.or_assoc]

end Layers
