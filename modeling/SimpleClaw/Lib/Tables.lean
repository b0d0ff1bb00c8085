import Mathlib.Data.List.Nodup
import Mathlib.Data.List.Perm.Subperm

/-!
# Tables

A table that only grows is a list: an entry is named by its index, is changed in place with
`List.set`, and new entries go to the end.  A table with arbitrary keys is a function to
`Option`, changed with `Function.update`.  These lemmas say what an entry of the changed
table was in the table before.
-/

namespace Table

universe u v

/-! ## Growing lists -/

section Lists

variable {α : Type u} {xs : List α} {i j : Nat} {x y : α}

/-- An entry of a table with entry `i` replaced is the replacement or an old entry. -/
theorem getElem?_set_cases (h : (xs.set i x)[j]? = some y) :
    (i = j ∧ y = x) ∨ (i ≠ j ∧ xs[j]? = some y) := by
  by_cases hij : i = j
  · subst hij
    have hlt : i < xs.length := by
      have hlt := (List.getElem?_eq_some_iff.mp h).1
      rwa [List.length_set] at hlt
    rw [List.getElem?_set_self hlt] at h
    exact .inl ⟨rfl, (Option.some.inj h).symm⟩
  · rw [List.getElem?_set_ne hij] at h
    exact .inr ⟨hij, h⟩

/-- An entry of a table with one entry added is an old entry or the new one. -/
theorem getElem?_append_singleton_cases (h : (xs ++ [x])[j]? = some y) :
    xs[j]? = some y ∨ (j = xs.length ∧ y = x) := by
  rcases Nat.lt_trichotomy j xs.length with hlt | rfl | hgt
  · rw [List.getElem?_append_left hlt] at h
    exact .inl h
  · rw [List.getElem?_concat_length] at h
    exact .inr ⟨rfl, (Option.some.inj h).symm⟩
  · rw [List.getElem?_eq_none (by simp; omega)] at h
    cases h

/-- The entries other than the replaced one are still there. -/
theorem getElem?_set_of_getElem? (h : xs[j]? = some y) (hne : i ≠ j) :
    (xs.set i x)[j]? = some y := by
  rw [List.getElem?_set_ne hne, h]

/-- The replaced entry, when there was one. -/
theorem getElem?_set_self_of_getElem? (h : xs[i]? = some y) : (xs.set i x)[i]? = some x :=
  List.getElem?_set_self (List.getElem?_eq_some_iff.mp h).1

/-- The old entries are still there after one is added. -/
theorem getElem?_append_of_getElem? (h : xs[j]? = some y) (x : α) :
    (xs ++ [x])[j]? = some y := by
  rw [List.getElem?_append_left (List.getElem?_eq_some_iff.mp h).1, h]

theorem forall_mem_append {p : α → Prop} (h : ∀ y ∈ xs, p y) (hx : p x) :
    ∀ y ∈ xs ++ [x], p y := by
  intro y hy
  rcases List.mem_append.mp hy with hy | hy
  · exact h y hy
  · rwa [List.mem_singleton.mp hy]

theorem forall_mem_set {p : α → Prop} (h : ∀ y ∈ xs, p y) (hx : p x) :
    ∀ y ∈ xs.set i x, p y := by
  intro y hy
  rcases List.mem_or_eq_of_mem_set hy with hy | rfl
  · exact h y hy
  · exact hx

/-- Where no entry of a list contributes more than one, the contributions are counted by the
entries that have one. -/
theorem countP_flatMap_le {β : Type v} {f : α → List β} {p : β → Bool}
    (h : ∀ x ∈ xs, (f x).countP p ≤ 1) :
    (xs.flatMap f).countP p ≤ xs.countP fun x => (f x).any p := by
  induction xs with
  | nil => exact Nat.le_refl 0
  | cons x xs ih =>
      rw [List.flatMap_cons, List.countP_append, List.countP_cons]
      have htail := ih fun y hy => h y (List.mem_cons_of_mem x hy)
      have hhead := h x List.mem_cons_self
      by_cases hany : (f x).any p = true
      · rw [if_pos hany]
        omega
      · have hzero : (f x).countP p = 0 := List.countP_eq_zero.mpr fun y hy hp =>
          hany (List.any_eq_true.mpr ⟨y, hy, hp⟩)
        omega

/-- Where each of the chosen entries of a list has an entry of another list that is its own, there
are at least as many of these. -/
theorem countP_le_of_owner {β : Type v} {p : α → Bool} {q : β → Bool} (owner : β → Option Nat)
    {ys : List β} (h : ∀ i x, xs[i]? = some x → p x = true →
      ∃ y ∈ ys, q y = true ∧ owner y = some i) : xs.countP p ≤ ys.countP q := by
  have hcount : xs.zipIdx.countP (p ∘ Prod.fst) = xs.countP p := by
    rw [← List.countP_map, List.zipIdx_map_fst]
  have hindices : (xs.zipIdx.filter (p ∘ Prod.fst)).map (some ∘ Prod.snd) ⊆
      (ys.filter q).map owner := by
    intro o ho
    obtain ⟨⟨x, i⟩, hmem, rfl⟩ := List.mem_map.mp ho
    obtain ⟨hzip, hp⟩ := List.mem_filter.mp hmem
    obtain ⟨y, hy, hq, howner⟩ := h i x (List.mem_zipIdx_iff_getElem?.mp hzip) hp
    exact List.mem_map.mpr ⟨y, List.mem_filter.mpr ⟨hy, hq⟩, howner⟩
  have hnodup : ((xs.zipIdx.filter (p ∘ Prod.fst)).map (some ∘ Prod.snd)).Nodup := by
    have hall : (xs.zipIdx.map Prod.snd).Nodup := by
      rw [List.zipIdx_map_snd]
      exact List.nodup_range'
    rw [← List.map_map]
    exact (hall.sublist (List.filter_sublist.map Prod.snd)).map fun _ _ => Option.some.inj
  have hle := (hnodup.subperm hindices).length_le
  rwa [List.length_map, List.length_map, ← List.countP_eq_length_filter,
    ← List.countP_eq_length_filter, hcount] at hle

end Lists

/-! ## Maps -/

section Maps

variable {κ : Type u} {β : Type v} [DecidableEq κ] {f : κ → Option β} {k k' : κ} {b b' : β}

/-- An entry of a map with one entry put in is that one or an old entry under another key. -/
theorem update_some_cases (h : Function.update f k (some b) k' = some b') :
    (k' = k ∧ b' = b) ∨ (k' ≠ k ∧ f k' = some b') := by
  by_cases hk : k' = k
  · rw [hk, Function.update_self] at h
    exact .inl ⟨hk, (Option.some.inj h).symm⟩
  · rw [Function.update_of_ne hk] at h
    exact .inr ⟨hk, h⟩

/-- An entry of a map with a key cleared is an old entry under another key. -/
theorem update_none_cases (h : Function.update f k none k' = some b') :
    k' ≠ k ∧ f k' = some b' := by
  by_cases hk : k' = k
  · rw [hk, Function.update_self] at h
    cases h
  · rw [Function.update_of_ne hk] at h
    exact ⟨hk, h⟩

end Maps

end Table
