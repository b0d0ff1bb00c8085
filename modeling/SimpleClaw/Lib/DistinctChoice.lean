import Mathlib.Data.List.Basic

/-!
# A choice of things that do not clash

Things come one after the other, and one is kept unless something that is kept clashes with it, or
enough is kept.

* `choose`: what is kept of a list, with `pairwise_choose`, `choose_sublist`,
  `mem_choose_or_clashes`.
* `foldl_keepUpTo`: keeping no more than a number of them keeps the first ones.
* `foldl_keepUpTo_of_full`: once enough is kept nothing more is, so a loop may as well stop.
-/

namespace DistinctChoice

variable {α : Type*} {clashes : α → α → Bool} {cap : Nat} {a : α} {l kept : List α}

/-- One more. -/
def keep (clashes : α → α → Bool) (kept : List α) (a : α) : List α :=
  if kept.any (clashes · a) then kept else kept ++ [a]

/-- One more, unless there are enough. -/
def keepUpTo (clashes : α → α → Bool) (cap : Nat) (kept : List α) (a : α) : List α :=
  if cap ≤ kept.length then kept else keep clashes kept a

/-- What is kept of a list. -/
def choose (clashes : α → α → Bool) (l : List α) : List α := l.foldl (keep clashes) []

theorem keep_cases : keep clashes kept a = kept ∧ (∃ b ∈ kept, clashes b a = true) ∨
    keep clashes kept a = kept ++ [a] ∧ ∀ b ∈ kept, clashes b a = false := by
  rw [keep]
  by_cases hany : kept.any (clashes · a) = true
  · rw [if_pos hany]
    exact .inl ⟨rfl, List.any_eq_true.mp hany⟩
  · rw [if_neg hany]
    exact .inr ⟨rfl, fun b hb => by simpa using List.any_eq_false.mp (by simpa using hany) b hb⟩

/-! ## What is kept -/

theorem pairwise_foldl_keep (h : kept.Pairwise fun a b => clashes a b = false) :
    (l.foldl (keep clashes) kept).Pairwise fun a b => clashes a b = false := by
  induction l generalizing kept with
  | nil => exact h
  | cons a l ih =>
      rw [List.foldl_cons]
      obtain ⟨hkeep, -⟩ | ⟨hkeep, hclear⟩ := @keep_cases _ clashes a kept
      · rw [hkeep]
        exact ih h
      · rw [hkeep]
        refine ih (List.pairwise_append.mpr ⟨h, List.pairwise_singleton _ _, ?_⟩)
        intro b hb c hc
        rw [List.mem_singleton.mp hc]
        exact hclear b hb

/-- **What is kept does not clash.** -/
theorem pairwise_choose (clashes : α → α → Bool) (l : List α) :
    (choose clashes l).Pairwise fun a b => clashes a b = false :=
  pairwise_foldl_keep List.Pairwise.nil

theorem exists_foldl_keep_eq (clashes : α → α → Bool) (l kept : List α) :
    ∃ more, l.foldl (keep clashes) kept = kept ++ more ∧ more.Sublist l := by
  induction l generalizing kept with
  | nil => exact ⟨[], (List.append_nil _).symm, List.Sublist.refl _⟩
  | cons a l ih =>
      rw [List.foldl_cons]
      obtain ⟨hkeep, -⟩ | ⟨hkeep, -⟩ := @keep_cases _ clashes a kept
      · rw [hkeep]
        obtain ⟨more, heq, hmore⟩ := ih kept
        exact ⟨more, heq, hmore.cons a⟩
      · rw [hkeep]
        obtain ⟨more, heq, hmore⟩ := ih (kept ++ [a])
        exact ⟨a :: more, by rw [heq, List.append_assoc]; rfl, hmore.cons_cons a⟩

/-- What is kept stays in order. -/
theorem choose_sublist (clashes : α → α → Bool) (l : List α) :
    (choose clashes l).Sublist l := by
  obtain ⟨more, heq, hmore⟩ := exists_foldl_keep_eq clashes l []
  rw [choose, heq]
  exact hmore

theorem mem_foldl_keep_or_clashes (ha : a ∈ l) :
    a ∈ l.foldl (keep clashes) kept ∨
      ∃ b ∈ l.foldl (keep clashes) kept, clashes b a = true := by
  obtain ⟨before, after, rfl⟩ := List.append_of_mem ha
  rw [List.foldl_append, List.foldl_cons]
  obtain ⟨more, heq, -⟩ :=
    exists_foldl_keep_eq clashes after (keep clashes (before.foldl (keep clashes) kept) a)
  rw [heq]
  obtain ⟨hkeep, b, hb, hclash⟩ | ⟨hkeep, -⟩ :=
    @keep_cases _ clashes a (before.foldl (keep clashes) kept)
  · rw [hkeep]
    exact .inr ⟨b, List.mem_append_left _ hb, hclash⟩
  · rw [hkeep]
    exact .inl (List.mem_append_left _ (List.mem_append_right _ (List.mem_singleton_self a)))

/-- **Nothing is left out for no reason.** -/
theorem mem_choose_or_clashes (ha : a ∈ l) :
    a ∈ choose clashes l ∨ ∃ b ∈ choose clashes l, clashes b a = true :=
  mem_foldl_keep_or_clashes ha

/-! ## No more than a number -/

theorem keepUpTo_of_full (h : cap ≤ kept.length) (a : α) :
    keepUpTo clashes cap kept a = kept := if_pos h

theorem foldl_keepUpTo_of_full (h : cap ≤ kept.length) (l : List α) :
    l.foldl (keepUpTo clashes cap) kept = kept := by
  induction l with
  | nil => rfl
  | cons a l ih => rw [List.foldl_cons, keepUpTo_of_full h, ih]

theorem keepUpTo_take (clashes : α → α → Bool) (cap : Nat) (kept : List α) (a : α) :
    keepUpTo clashes cap (kept.take cap) a = (keep clashes kept a).take cap := by
  obtain hroom | hfull := Nat.lt_or_ge kept.length cap
  · have hlength : (keep clashes kept a).length ≤ cap := by
      obtain ⟨hkeep, -⟩ | ⟨hkeep, -⟩ := @keep_cases _ clashes a kept
      · rw [hkeep]
        omega
      · rw [hkeep, List.length_append, List.length_singleton]
        omega
    rw [List.take_of_length_le (Nat.le_of_lt hroom), List.take_of_length_le hlength, keepUpTo,
      if_neg (by omega)]
  · rw [keepUpTo_of_full (by rw [List.length_take]; omega)]
    obtain ⟨hkeep, -⟩ | ⟨hkeep, -⟩ := @keep_cases _ clashes a kept
    · rw [hkeep]
    · rw [hkeep, List.take_append_of_le_length hfull]

/-- **Keeping no more than a number keeps the first ones.** -/
theorem foldl_keepUpTo (clashes : α → α → Bool) (cap : Nat) (l : List α) :
    l.foldl (keepUpTo clashes cap) [] = (choose clashes l).take cap := by
  have hfold : ∀ kept : List α, l.foldl (keepUpTo clashes cap) (kept.take cap) =
      (l.foldl (keep clashes) kept).take cap := by
    induction l with
    | nil => exact fun kept => rfl
    | cons a l ih =>
        intro kept
        rw [List.foldl_cons, keepUpTo_take, ih, List.foldl_cons]
  have hnil := hfold []
  rwa [List.take_nil] at hnil

end DistinctChoice
