import Mathlib.Data.List.Sort

/-!
# Sorting groups

A list is the concatenation of groups, and all members of a group have the key of the group.
Sorting it by the keys, in a way that leaves equal ones in their order, is sorting the groups.

* `insertionSort_flatMap`: the members are sorted as their groups are.
* `takeAcross`: the first so many members, still in their groups.
-/

namespace GroupedSort

variable {α β κ : Type*}

/-! ## Sorting -/

section Sorting

variable {r : κ → κ → Prop} [DecidableRel r] {key : β → κ}

/-- What goes before everything is put in front. -/
theorem foldr_orderedInsert_of_forall_rel {k : κ} (hrefl : r k k) {group l : List β}
    (hgroup : ∀ b ∈ group, key b = k) (hl : ∀ b ∈ l, r k (key b)) :
    group.foldr (List.orderedInsert fun b b' => r (key b) (key b')) l = group ++ l := by
  induction group with
  | nil => rfl
  | cons b group ih =>
      obtain ⟨hb, hgroup⟩ := List.forall_mem_cons.mp hgroup
      rw [List.foldr_cons, ih hgroup, List.cons_append]
      match hrest : group ++ l with
      | [] => rfl
      | c :: rest =>
          refine List.orderedInsert_cons_of_le _ _ ?_
          rw [hb]
          have hc : c ∈ group ++ l := by
            rw [hrest]
            exact List.mem_cons_self
          rcases List.mem_append.mp hc with hc | hc
          · rw [hgroup c hc]
            exact hrefl
          · exact hl c hc

/-- What does not go before any of the first is put behind them. -/
theorem orderedInsert_append {b : β} {first : List β} (h : ∀ c ∈ first, ¬ r (key b) (key c))
    (l : List β) :
    List.orderedInsert (fun b b' => r (key b) (key b')) b (first ++ l) =
      first ++ List.orderedInsert (fun b b' => r (key b) (key b')) b l := by
  induction first with
  | nil => rfl
  | cons c first ih =>
      obtain ⟨hc, hfirst⟩ := List.forall_mem_cons.mp h
      rw [List.cons_append, List.orderedInsert_cons, if_neg hc, ih hfirst, List.cons_append]

theorem foldr_orderedInsert_append {group first : List β}
    (h : ∀ b ∈ group, ∀ c ∈ first, ¬ r (key b) (key c)) (l : List β) :
    group.foldr (List.orderedInsert fun b b' => r (key b) (key b')) (first ++ l) =
      first ++ group.foldr (List.orderedInsert fun b b' => r (key b) (key b')) l := by
  induction group with
  | nil => rfl
  | cons b group ih =>
      obtain ⟨hb, hgroup⟩ := List.forall_mem_cons.mp h
      rw [List.foldr_cons, ih hgroup, orderedInsert_append hb, List.foldr_cons]

theorem insertionSort_append (group l : List β) :
    (group ++ l).insertionSort (fun b b' => r (key b) (key b')) =
      group.foldr (List.orderedInsert fun b b' => r (key b) (key b'))
        (l.insertionSort fun b b' => r (key b) (key b')) := by
  induction group with
  | nil => rfl
  | cons b group ih =>
      rw [List.cons_append, List.insertionSort_cons, ih, List.foldr_cons]

variable {groupKey : α → κ} {members : α → List β}

/-- A group is inserted member by member. -/
theorem foldr_orderedInsert_flatMap [Std.Total r] [IsTrans κ r]
    (hkey : ∀ a, ∀ b ∈ members a, key b = groupKey a) (a : α) {l : List α}
    (hl : l.Pairwise fun a a' => r (groupKey a) (groupKey a')) :
    (members a).foldr (List.orderedInsert fun b b' => r (key b) (key b')) (l.flatMap members) =
      (List.orderedInsert (fun a a' => r (groupKey a) (groupKey a')) a l).flatMap members := by
  have hrefl : ∀ k, r k k := fun k => (Std.Total.total (r := r) k k).elim id id
  induction l with
  | nil =>
      rw [List.orderedInsert, List.flatMap_singleton, List.flatMap_nil,
        foldr_orderedInsert_of_forall_rel (hrefl (groupKey a)) (hkey a) (by simp),
        List.append_nil]
  | cons a' l ih =>
      obtain ⟨ha', hl⟩ := List.pairwise_cons.mp hl
      rw [List.orderedInsert_cons]
      by_cases hle : r (groupKey a) (groupKey a')
      · rw [if_pos hle, List.flatMap_cons]
        refine foldr_orderedInsert_of_forall_rel (hrefl (groupKey a)) (hkey a) ?_
        intro b hb
        rw [← List.flatMap_cons] at hb
        obtain ⟨a'', ha'', hb⟩ := List.mem_flatMap.mp hb
        rw [hkey a'' b hb]
        rcases List.mem_cons.mp ha'' with rfl | ha''
        · exact hle
        · exact trans_of r hle (ha' a'' ha'')
      · rw [if_neg hle, List.flatMap_cons, List.flatMap_cons, ← ih hl]
        refine foldr_orderedInsert_append (fun b hb c hc => ?_) _
        rw [hkey a b hb, hkey a' c hc]
        exact hle

/-- **The members are sorted as their groups are.** -/
theorem insertionSort_flatMap [Std.Total r] [IsTrans κ r]
    (hkey : ∀ a, ∀ b ∈ members a, key b = groupKey a) (l : List α) :
    (l.flatMap members).insertionSort (fun b b' => r (key b) (key b')) =
      (l.insertionSort fun a a' => r (groupKey a) (groupKey a')).flatMap members := by
  have htotal : Std.Total fun a a' : α => r (groupKey a) (groupKey a') :=
    ⟨fun a a' => Std.Total.total (groupKey a) (groupKey a')⟩
  have htrans : IsTrans α fun a a' => r (groupKey a) (groupKey a') :=
    ⟨fun _ _ _ hab hbc => trans_of r hab hbc⟩
  induction l with
  | nil => rfl
  | cons a l ih =>
      rw [List.flatMap_cons, insertionSort_append, ih, List.insertionSort_cons,
        foldr_orderedInsert_flatMap hkey a (List.pairwise_insertionSort _ l)]

end Sorting

/-! ## The first members -/

/-- The first so many members of groups, in their groups. -/
def takeAcross : Nat → List (α × List β) → List (α × List β)
  | _, [] => []
  | n, group :: groups =>
      (group.1, group.2.take n) :: takeAcross (n - group.2.length) groups

theorem flatMap_takeAcross {γ : Type*} (f : α → β → γ) (n : Nat) (groups : List (α × List β)) :
    (takeAcross n groups).flatMap (fun group => group.2.map (f group.1)) =
      (groups.flatMap fun group => group.2.map (f group.1)).take n := by
  induction groups generalizing n with
  | nil => simp [takeAcross]
  | cons group groups ih =>
      rw [takeAcross, List.flatMap_cons, List.flatMap_cons, ih, List.take_append, List.length_map,
        List.map_take]

theorem map_fst_takeAcross (n : Nat) (groups : List (α × List β)) :
    (takeAcross n groups).map Prod.fst = groups.map Prod.fst := by
  induction groups generalizing n with
  | nil => rfl
  | cons group groups ih => rw [takeAcross, List.map_cons, List.map_cons, ih]

end GroupedSort
