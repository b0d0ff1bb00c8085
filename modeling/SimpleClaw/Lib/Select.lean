import Mathlib.Data.Finset.Card
import Mathlib.Data.List.Sort

/-!
# Ranked selection without repetitions

Items are sorted by score, best first; those that are not eligible or repeat the key of a better
one are passed over, and the first few of the others are taken.  Where the items of interest come
last and in the order of their scores, each of them is taken or not whatever comes after it.

* `insertionSort_concat`: where the sort puts the last item.
* `firsts`: the first eligible item of each key.
* `select`: the best few of these.
* `select_covers`: what is not among them is not better.
* `Chosen`: whether an item is taken, given the better ones.
* `filter_select_concat`: one more item of interest.
-/

namespace Select

universe u v

variable {α : Type u}

/-! ## The last item of a sort -/

section LastItem

variable {r : α → α → Prop} [DecidableRel r]

/-- An item goes before all items that it is in relation to. -/
theorem orderedInsert_append_right {b : α} (l : List α) {m : List α} (h : ∀ a ∈ m, r b a) :
    (l ++ m).orderedInsert r b = l.orderedInsert r b ++ m := by
  induction l with
  | nil =>
      cases m with
      | nil => rfl
      | cons a m => exact List.orderedInsert_cons_of_le _ m (h a List.mem_cons_self)
  | cons x l ih =>
      rw [List.cons_append, List.orderedInsert_cons, List.orderedInsert_cons]
      split
      · rfl
      · rw [ih, List.cons_append]

/-- An item goes after the first ones if it is in relation to none of them. -/
theorem orderedInsert_append_left {b : α} {l : List α} (m : List α) (h : ∀ a ∈ l, ¬ r b a) :
    (l ++ m).orderedInsert r b = l ++ m.orderedInsert r b := by
  induction l with
  | nil => rfl
  | cons x l ih =>
      rw [List.cons_append, List.orderedInsert_of_not_le _ _ (h x List.mem_cons_self),
        ih fun a ha => h a (List.mem_cons_of_mem x ha), List.cons_append]

/-- The sort puts the last item after those in relation to it, and before the others. -/
theorem insertionSort_concat [IsTrans α r] [Std.Total r] (l : List α) (c : α) :
    ∃ before after, l.insertionSort r = before ++ after ∧
      (l ++ [c]).insertionSort r = before ++ c :: after ∧
      (∀ a ∈ before, r a c) ∧ ∀ a ∈ after, ¬ r a c := by
  induction l with
  | nil => exact ⟨[], [], rfl, rfl, by simp, by simp⟩
  | cons b l ih =>
      obtain ⟨before, after, hl, hlc, hbefore, hafter⟩ := ih
      rw [List.cons_append, List.insertionSort_cons, List.insertionSort_cons, hl, hlc]
      by_cases hb : r b c
      · have hrest : ∀ a ∈ after, r b a := fun a ha =>
          IsTrans.trans b c a hb ((Std.Total.total c a).resolve_right (hafter a ha))
        refine ⟨before.orderedInsert r b, after, orderedInsert_append_right _ hrest,
          orderedInsert_append_right _ ?_, ?_, hafter⟩
        · exact List.forall_mem_cons.mpr ⟨hb, hrest⟩
        · intro a ha
          rcases (List.mem_orderedInsert r).mp ha with rfl | ha
          · exact hb
          · exact hbefore a ha
      · have hfirst : ∀ a ∈ before, ¬ r b a := fun a ha hba =>
          hb (IsTrans.trans b a c hba (hbefore a ha))
        refine ⟨before, after.orderedInsert r b, orderedInsert_append_left _ hfirst, ?_,
          hbefore, ?_⟩
        · rw [orderedInsert_append_left _ hfirst, List.orderedInsert_of_not_le _ _ hb]
        · intro a ha
          rcases (List.mem_orderedInsert r).mp ha with rfl | ha
          · exact hb
          · exact hafter a ha

end LastItem

/-! ## One item of each key -/

section Firsts

variable {κ : Type v} [DecidableEq κ] (eligible : α → Bool) (key : α → κ)

/-- The first eligible item of each key that has not been seen. -/
def firsts (seen : Finset κ) : List α → List α
  | [] => []
  | a :: l =>
      if eligible a = true ∧ key a ∉ seen then a :: firsts (insert (key a) seen) l
      else firsts seen l

/-- The keys of the eligible items. -/
def keys (l : List α) : Finset κ := ((l.filter eligible).map key).toFinset

variable {eligible key} {seen : Finset κ} {l : List α}

theorem mem_keys {k : κ} : k ∈ keys eligible key l ↔ ∃ a ∈ l, eligible a = true ∧ key a = k := by
  simp [keys, and_assoc]

theorem keys_cons_of_eligible {a : α} (h : eligible a = true) :
    keys eligible key (a :: l) = insert (key a) (keys eligible key l) := by
  rw [keys, List.filter_cons_of_pos h, List.map_cons, List.toFinset_cons, keys]

theorem keys_cons_of_not {a : α} (h : ¬ eligible a = true) :
    keys eligible key (a :: l) = keys eligible key l := by
  rw [keys, List.filter_cons_of_neg h, keys]

theorem keys_congr {m : List α} (h : ∀ a, a ∈ l ↔ a ∈ m) :
    keys eligible key l = keys eligible key m := by
  ext k
  rw [mem_keys, mem_keys]
  exact exists_congr fun a => and_congr_left fun _ => h a

theorem keys_map {β : Type*} (g : β → α) (l : List β) :
    keys eligible key (l.map g) = keys (eligible ∘ g) (key ∘ g) l := by
  rw [keys, keys, List.filter_map, List.map_map]

theorem mem_of_mem_firsts {a : α} (h : a ∈ firsts eligible key seen l) : a ∈ l := by
  induction l generalizing seen with
  | nil => exact h
  | cons b l ih =>
      rw [firsts] at h
      split at h
      · rcases List.mem_cons.mp h with rfl | h
        · exact List.mem_cons_self
        · exact List.mem_cons_of_mem b (ih h)
      · exact List.mem_cons_of_mem b (ih h)

/-- Behind some items their keys have been seen too. -/
theorem firsts_append (m : List α) : firsts eligible key seen (l ++ m) =
    firsts eligible key seen l ++ firsts eligible key (seen ∪ keys eligible key l) m := by
  induction l generalizing seen with
  | nil => rw [show keys eligible key ([] : List α) = ∅ from rfl, Finset.union_empty]; rfl
  | cons a l ih =>
      rw [List.cons_append, firsts, firsts]
      split
      · next ha =>
          rw [ih, keys_cons_of_eligible ha.1, Finset.insert_union, Finset.union_insert,
            List.cons_append]
      · next ha =>
          rw [ih]
          by_cases heligible : eligible a = true
          · have hseen : key a ∈ seen := by simpa [heligible] using ha
            rw [keys_cons_of_eligible heligible, Finset.union_insert,
              Finset.insert_eq_of_mem (Finset.mem_union_left _ hseen)]
          · rw [keys_cons_of_not heligible]

/-- There are as many as there are new keys. -/
theorem length_firsts : (firsts eligible key seen l).length =
    (keys eligible key l \ seen).card := by
  induction l generalizing seen with
  | nil => rw [show keys eligible key ([] : List α) = ∅ from rfl, Finset.empty_sdiff]; rfl
  | cons a l ih =>
      rw [firsts]
      split
      · next ha =>
          rw [List.length_cons, ih, keys_cons_of_eligible ha.1,
            Finset.insert_sdiff_of_notMem _ ha.2, Finset.sdiff_insert,
            ← Finset.erase_insert_eq_erase]
          exact Finset.card_erase_add_one (Finset.mem_insert_self _ _)
      · next ha =>
          rw [ih]
          by_cases heligible : eligible a = true
          · have hseen : key a ∈ seen := by simpa [heligible] using ha
            rw [keys_cons_of_eligible heligible, Finset.insert_sdiff_of_mem _ hseen]
          · rw [keys_cons_of_not heligible]

theorem eligible_of_mem_firsts {a : α} (h : a ∈ firsts eligible key seen l) :
    eligible a = true := by
  induction l generalizing seen with
  | nil => cases h
  | cons b l ih =>
      rw [firsts] at h
      split at h
      · next hb =>
          rcases List.mem_cons.mp h with rfl | h
          · exact hb.1
          · exact ih h
      · exact ih h

theorem firsts_sublist : (firsts eligible key seen l).Sublist l := by
  induction l generalizing seen with
  | nil => exact List.Sublist.refl []
  | cons b l ih =>
      rw [firsts]
      split
      · exact ih.cons_cons b
      · exact ih.cons b

/-- Where the items come in the order of their scores, the first one of a key is the best. -/
theorem exists_mem_firsts {σ : Type*} [Preorder σ] {score : α → σ}
    (hsorted : l.Pairwise fun a b => score b ≤ score a) {a : α} (ha : a ∈ l)
    (heligible : eligible a = true) (hnew : key a ∉ seen) :
    ∃ b ∈ firsts eligible key seen l, key b = key a ∧ score a ≤ score b := by
  induction l generalizing seen with
  | nil => cases ha
  | cons b l ih =>
      obtain ⟨hb, hl⟩ := List.pairwise_cons.mp hsorted
      rw [firsts]
      rcases List.mem_cons.mp ha with rfl | ha
      · rw [if_pos ⟨heligible, hnew⟩]
        exact ⟨a, List.mem_cons_self, rfl, le_rfl⟩
      · split
        · by_cases hkey : key a = key b
          · exact ⟨b, List.mem_cons_self, hkey.symm, hb a ha⟩
          · have hnew' : key a ∉ insert (key b) seen :=
              fun hmem => (Finset.mem_insert.mp hmem).elim hkey hnew
            obtain ⟨c, hc, hbetter⟩ := ih hl ha hnew'
            exact ⟨c, List.mem_cons_of_mem b hc, hbetter⟩
        · exact ih hl ha hnew

/-- Exactly the new keys are given. -/
theorem mem_map_key_firsts {k : κ} :
    k ∈ (firsts eligible key seen l).map key ↔ k ∈ keys eligible key l ∧ k ∉ seen := by
  induction l generalizing seen with
  | nil => simp [firsts, keys]
  | cons a l ih =>
      rw [firsts]
      split
      · next ha =>
          rw [List.map_cons, List.mem_cons, ih, keys_cons_of_eligible ha.1, Finset.mem_insert,
            Finset.mem_insert, not_or]
          by_cases hk : k = key a
          · simp [hk, ha.2]
          · simp [hk]
      · next ha =>
          rw [ih]
          by_cases heligible : eligible a = true
          · have hseen : key a ∈ seen := by simpa [heligible] using ha
            rw [keys_cons_of_eligible heligible, Finset.mem_insert, or_and_right]
            refine (or_iff_right ?_).symm
            rintro ⟨rfl, hnew⟩
            exact hnew hseen
          · rw [keys_cons_of_not heligible]

/-- No key is given twice. -/
theorem nodup_map_key_firsts : ((firsts eligible key seen l).map key).Nodup := by
  induction l generalizing seen with
  | nil => exact List.nodup_nil
  | cons a l ih =>
      rw [firsts]
      split
      · rw [List.map_cons, List.nodup_cons, mem_map_key_firsts]
        exact ⟨fun h => h.2 (Finset.mem_insert_self _ _), ih⟩
      · exact ih

end Firsts

/-! ## The best few -/

section Ranked

variable {κ : Type v} [DecidableEq κ] {σ : Type*} [LinearOrder σ]
  (score : α → σ) (eligible : α → Bool) (key : α → κ)

/-- The items, best first. -/
def byScore (l : List α) : List α := l.insertionSort fun a b => score b ≤ score a

/-- The best eligible item of each key, as many as there is room for. -/
def select (limit : Nat) (l : List α) : List α :=
  (firsts eligible key ∅ (byScore score l)).take limit

/-- There is room for an item with a new key after the better ones. -/
def Chosen (limit : Nat) (better : List α) (c : α) : Prop :=
  eligible c = true ∧ key c ∉ keys eligible key better ∧
    (keys eligible key better).card < limit

instance (limit : Nat) (better : List α) (c : α) :
    Decidable (Chosen eligible key limit better c) :=
  inferInstanceAs (Decidable (_ ∧ _ ∧ _))

variable {score eligible key} {limit : Nat} {l : List α}

instance isTrans_score : IsTrans α fun a b => score b ≤ score a :=
  ⟨fun _ _ _ hab hbc => le_trans hbc hab⟩

instance total_score : Std.Total fun a b : α => score b ≤ score a :=
  ⟨fun a b => le_total (score b) (score a)⟩

theorem mem_byScore {a : α} : a ∈ byScore score l ↔ a ∈ l := List.mem_insertionSort _

theorem mem_of_mem_select {a : α} (h : a ∈ select score eligible key limit l) : a ∈ l :=
  mem_byScore.mp (mem_of_mem_firsts (List.mem_of_mem_take h))

theorem byScore_map {β : Type*} (g : β → α) (l : List β) :
    byScore score (l.map g) = (byScore (score ∘ g) l).map g :=
  (List.map_insertionSort _ _ g l fun _ _ _ _ => Iff.rfl).symm

/-- Items can be selected by what they stand for. -/
theorem select_map {β : Type*} (g : β → α) (l : List β) :
    select score eligible key limit (l.map g) =
      (select (score ∘ g) (eligible ∘ g) (key ∘ g) limit l).map g := by
  have hfirsts : ∀ (m : List β) (seen : Finset κ), firsts eligible key seen (m.map g) =
      (firsts (eligible ∘ g) (key ∘ g) seen m).map g := by
    intro m
    induction m with
    | nil => exact fun _ => rfl
    | cons b m ih =>
        intro seen
        rw [List.map_cons, firsts, firsts, ih, ih]
        show _ = List.map g (if eligible (g b) = true ∧ key (g b) ∉ seen then _ else _)
        split
        · rfl
        · rfl
  rw [select, select, List.map_take, ← hfirsts, byScore_map]

theorem chosen_map {β : Type*} (g : β → α) (better : List β) (c : β) :
    Chosen eligible key limit (better.map g) (g c) ↔
      Chosen (eligible ∘ g) (key ∘ g) limit better c := by
  rw [Chosen, Chosen, keys_map]
  rfl

theorem length_select (limit : Nat) (l : List α) :
    (select score eligible key limit l).length = min limit (keys eligible key l).card := by
  have hkeys : keys eligible key (byScore score l) = keys eligible key l :=
    keys_congr fun a => mem_byScore
  rw [select, List.length_take, length_firsts, Finset.sdiff_empty, hkeys]

theorem eligible_of_mem_select {a : α} (h : a ∈ select score eligible key limit l) :
    eligible a = true :=
  eligible_of_mem_firsts (List.mem_of_mem_take h)

theorem nodup_map_key_select : ((select score eligible key limit l).map key).Nodup := by
  rw [select, List.map_take]
  exact nodup_map_key_firsts.sublist (List.take_sublist _ _)

theorem pairwise_byScore (l : List α) :
    (byScore score l).Pairwise fun a b => score b ≤ score a := List.pairwise_insertionSort _ _

/-- The best come first. -/
theorem pairwise_select (limit : Nat) (l : List α) :
    (select score eligible key limit l).Pairwise fun a b => score b ≤ score a :=
  ((pairwise_byScore l).sublist firsts_sublist).sublist (List.take_sublist _ _)

theorem select_subperm (limit : Nat) (l : List α) :
    (select score eligible key limit l).Subperm l :=
  (((List.take_sublist _ _).trans firsts_sublist).subperm).trans
    (List.perm_insertionSort _ l).subperm

/-- **An eligible item is selected, or one of its key that is as good, or there is only room for
items that are as good.** -/
theorem select_covers {a : α} (ha : a ∈ l) (heligible : eligible a = true) :
    (∃ b ∈ select score eligible key limit l, key b = key a ∧ score a ≤ score b) ∨
      (select score eligible key limit l).length = limit ∧
        ∀ b ∈ select score eligible key limit l, score a ≤ score b := by
  have hsorted : (byScore score l).Pairwise fun a b => score b ≤ score a := pairwise_byScore l
  have hbest : ∃ b ∈ firsts eligible key ∅ (byScore score l), key b = key a ∧ score a ≤ score b :=
    exists_mem_firsts hsorted (mem_byScore.mpr ha) heligible (Finset.notMem_empty _)
  have hfirsts : (firsts eligible key ∅ (byScore score l)).Pairwise fun a b => score b ≤ score a :=
    hsorted.sublist firsts_sublist
  obtain ⟨b, hb, hkey, hbetter⟩ := hbest
  rw [select]
  generalize firsts eligible key ∅ (byScore score l) = found at hb hfirsts ⊢
  rw [← List.take_append_drop limit found, List.mem_append] at hb
  rcases hb with hb | hb
  · exact .inl ⟨b, hb, hkey, hbetter⟩
  · -- the best one of the key came too late
    have hlong : limit < found.length := by
      by_contra hshort
      rw [List.drop_of_length_le (by omega)] at hb
      cases hb
    rw [← List.take_append_drop limit found] at hfirsts
    refine .inr ⟨List.length_take_of_le hlong.le, fun c hc => ?_⟩
    exact le_trans hbetter ((List.pairwise_append.mp hfirsts).2.2 c hc b hb)

/-- Where there is room for all keys, all are selected. -/
theorem mem_map_key_select (h : (keys eligible key l).card ≤ limit) {k : κ} :
    k ∈ (select score eligible key limit l).map key ↔ k ∈ keys eligible key l := by
  have hkeys : keys eligible key (byScore score l) = keys eligible key l :=
    keys_congr fun a => mem_byScore
  have hlength : (firsts eligible key ∅ (byScore score l)).length ≤ limit := by
    rw [length_firsts, Finset.sdiff_empty, hkeys]
    exact h
  rw [select, List.take_of_length_le hlength, mem_map_key_firsts, hkeys]
  simp

theorem select_zero (l : List α) : select score eligible key 0 l = [] := List.take_zero

theorem take_select (limit n : Nat) (l : List α) :
    (select score eligible key limit l).take n = select score eligible key (min n limit) l := by
  rw [select, select, List.take_take]

/-! ### One pool before another -/

/-- A second pool gets the places that the first one leaves. -/
theorem select_append_take_select (limit : Nat) (l m : List α) :
    (if (select score eligible key limit l).length < limit then
        select score eligible key limit l ++ (select score eligible key limit m).take
          (limit - (select score eligible key limit l).length)
      else select score eligible key limit l) =
    select score eligible key limit l ++
      select score eligible key (limit - (keys eligible key l).card) m := by
  have hlength : (select score eligible key limit l).length =
      min limit (keys eligible key l).card := length_select limit l
  split
  · next hroom =>
      rw [hlength] at hroom
      have hplaces : min (limit - min limit (keys eligible key l).card) limit =
          limit - (keys eligible key l).card := by omega
      rw [take_select, hlength, hplaces]
  · next hroom =>
      rw [hlength] at hroom
      have hnone : limit - (keys eligible key l).card = 0 := by omega
      rw [hnone, select_zero, List.append_nil]

theorem length_select_append_le (limit : Nat) (l m : List α) :
    (select score eligible key limit l ++
      select score eligible key (limit - (keys eligible key l).card) m).length ≤ limit := by
  rw [List.length_append, length_select, length_select]
  omega

variable (score eligible key) in
/-- **Two pools one after the other give no key twice exactly when the second one gives none of
the first one's keys.** -/
theorem nodup_map_key_append_iff (limit : Nat) (l m : List α) :
    ((select score eligible key limit l ++
        select score eligible key (limit - (keys eligible key l).card) m).map key).Nodup ↔
      ∀ a ∈ select score eligible key (limit - (keys eligible key l).card) m,
        key a ∉ keys eligible key l := by
  by_cases hroom : (keys eligible key l).card ≤ limit
  · rw [List.map_append, List.nodup_append]
    constructor
    · rintro ⟨-, -, hapart⟩ a ha hkey
      have hl : key a ∈ (select score eligible key limit l).map key :=
        (mem_map_key_select hroom).mpr hkey
      exact hapart _ hl _ (List.mem_map_of_mem ha) rfl
    · intro hapart
      refine ⟨nodup_map_key_select, nodup_map_key_select, ?_⟩
      rintro k hk _ hm rfl
      obtain ⟨a, ha, rfl⟩ := List.mem_map.mp hm
      exact hapart a ha ((mem_map_key_select hroom).mp hk)
  · -- no place is left
    have hnone : limit - (keys eligible key l).card = 0 := by omega
    rw [hnone, select_zero, List.append_nil]
    exact iff_of_true nodup_map_key_select (by simp)

/-- Items of no interest at the end take nothing away. -/
theorem filter_take_append {p : α → Bool} (l : List α) {m : List α} (n : Nat)
    (h : ∀ a ∈ m, p a = false) : ((l ++ m).take n).filter p = (l.take n).filter p := by
  rw [List.take_append, List.filter_append]
  have hnone : (m.take (n - l.length)).filter p = [] :=
    List.filter_eq_nil_iff.mpr fun a ha => by simp [h a (List.mem_of_mem_take ha)]
  rw [hnone, List.append_nil]

/-- **One more item of interest, not better than the others, is taken or not, and the others are
taken as before.** -/
theorem filter_select_concat {p : α → Bool} {c : α} (hc : p c = true)
    (hbetter : ∀ a ∈ l, p a = true → score c ≤ score a) :
    (select score eligible key limit (l ++ [c])).filter p =
      (select score eligible key limit l).filter p ++
        if Chosen eligible key limit (l.filter fun a => score c ≤ score a) c then [c] else [] := by
  obtain ⟨before, after, hl, hlc, hbefore, hafter⟩ :=
    insertionSort_concat (r := fun a b => score b ≤ score a) l c
  have hmem : ∀ a, a ∈ l ↔ a ∈ before ∨ a ∈ after := fun a => by
    rw [← List.mem_append, ← hl, List.mem_insertionSort]
  have hnone : ∀ seen, ∀ a ∈ firsts eligible key seen after, p a = false := by
    intro seen a ha
    have ha' : a ∈ after := mem_of_mem_firsts ha
    by_contra hp
    exact hafter a ha' (hbetter a ((hmem a).mpr (.inr ha')) (by simpa using hp))
  have hkeys : keys eligible key before =
      keys eligible key (l.filter fun a => score c ≤ score a) := by
    refine keys_congr fun a => ?_
    rw [List.mem_filter, decide_eq_true_eq, hmem]
    exact ⟨fun ha => ⟨.inl ha, hbefore a ha⟩, fun ha => ha.1.resolve_right
      fun ha' => hafter a ha' ha.2⟩
  have hchosen : Chosen eligible key limit (l.filter fun a => score c ≤ score a) c ↔
      eligible c = true ∧ key c ∉ keys eligible key before ∧
        (keys eligible key before).card < limit := by
    rw [Chosen, hkeys]
  have hlength : (firsts eligible key ∅ before).length = (keys eligible key before).card := by
    rw [length_firsts, Finset.sdiff_empty]
  rw [select, select, byScore, byScore, hl, hlc, firsts_append, firsts_append, Finset.empty_union,
    firsts, filter_take_append (firsts eligible key ∅ before) limit (hnone _)]
  by_cases hnew : eligible c = true ∧ key c ∉ keys eligible key before
  · rw [if_pos hnew, List.take_append, List.filter_append, hlength]
    by_cases hroom : (keys eligible key before).card < limit
    · obtain ⟨n, hn⟩ : ∃ n, limit - (keys eligible key before).card = n + 1 :=
        ⟨limit - (keys eligible key before).card - 1, by omega⟩
      have hrest := filter_take_append (p := p) [] n
        (hnone (insert (key c) (keys eligible key before)))
      rw [List.nil_append, List.take_nil, List.filter_nil] at hrest
      rw [if_pos (hchosen.mpr ⟨hnew.1, hnew.2, hroom⟩), hn, List.take_succ_cons,
        List.filter_cons_of_pos hc, hrest]
    · rw [if_neg fun h => hroom (hchosen.mp h).2.2,
        show limit - (keys eligible key before).card = 0 by omega]
      rfl
  · rw [if_neg hnew, filter_take_append _ _ (hnone _),
      if_neg fun h => hnew ⟨(hchosen.mp h).1, (hchosen.mp h).2.1⟩, List.append_nil]

end Ranked

end Select
