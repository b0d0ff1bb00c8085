import Mathlib.Data.List.Induction
import Mathlib.Data.List.Nodup

/-!
# Tallies

A tally goes through a list once and keeps, for each key, an account of the entries with that key,
and a list of the keys in the order in which they first came up.

* `IsFirstSeen names order`: the names in the order of their first appearance.
* `tally`: the pass, and `order_tally`, `accounts_tally`: what it leaves.
-/

universe u v w

/-- What the pass keeps. -/
structure Tally (κ : Type v) (γ : Type w) where
  order : List κ
  accounts : κ → Option γ

namespace Tally

/-! ## First appearances -/

section FirstSeen

variable {κ : Type v} [BEq κ] [LawfulBEq κ] {names order : List κ} {k : κ}

/-- `order` has each of the names once, by where it first appears. -/
structure IsFirstSeen (names order : List κ) : Prop where
  nodup : order.Nodup
  mem_iff : ∀ k, k ∈ order ↔ k ∈ names
  sorted : order.Pairwise fun a b => names.idxOf a < names.idxOf b

omit [LawfulBEq κ] in
theorem IsFirstSeen.nil : IsFirstSeen ([] : List κ) [] :=
  ⟨List.nodup_nil, fun _ => Iff.rfl, List.Pairwise.nil⟩

/-- Names after those listed do not move the first appearances of the latter. -/
theorem IsFirstSeen.pairwise_append (h : IsFirstSeen names order) (k : κ) :
    order.Pairwise fun a b => (names ++ [k]).idxOf a < (names ++ [k]).idxOf b := by
  refine h.sorted.imp_of_mem ?_
  intro a b ha hb hab
  rwa [List.idxOf_append_of_mem ((h.mem_iff a).mp ha),
    List.idxOf_append_of_mem ((h.mem_iff b).mp hb)]

/-- A name that came up before adds nothing. -/
theorem IsFirstSeen.concat_of_mem (h : IsFirstSeen names order) (hk : k ∈ order) :
    IsFirstSeen (names ++ [k]) order := by
  refine ⟨h.nodup, fun a => ?_, h.pairwise_append k⟩
  rw [h.mem_iff a, List.mem_append, List.mem_singleton]
  refine ⟨Or.inl, fun ha => ha.elim id ?_⟩
  rintro rfl
  exact (h.mem_iff a).mp hk

/-- A new name goes to the end. -/
theorem IsFirstSeen.concat_of_not_mem (h : IsFirstSeen names order) (hk : k ∉ order) :
    IsFirstSeen (names ++ [k]) (order ++ [k]) where
  nodup := List.nodup_append.mpr ⟨h.nodup, List.nodup_singleton k, by
    intro a ha b hb hab
    rw [List.mem_singleton] at hb
    exact hk (hb ▸ hab ▸ ha)⟩
  mem_iff a := by rw [List.mem_append, List.mem_append, h.mem_iff a]
  sorted := by
    refine List.pairwise_append.mpr ⟨h.pairwise_append k, List.pairwise_singleton _ _, ?_⟩
    intro a ha b hb
    rw [List.mem_singleton] at hb
    have hmem : a ∈ names := (h.mem_iff a).mp ha
    have hnew : k ∉ names := fun hmem => hk ((h.mem_iff k).mpr hmem)
    have hlt : names.idxOf a < names.length := List.idxOf_lt_length_iff.mpr hmem
    rw [hb, List.idxOf_append_of_mem hmem, List.idxOf_append_of_notMem hnew]
    omega

end FirstSeen

/-! ## The pass -/

variable {α : Type u} {κ : Type v} {γ : Type w} [DecidableEq κ]

/-- Before the first entry. -/
def empty : Tally κ γ := ⟨[], fun _ => none⟩

variable (key : α → κ) (opening : γ) (enter : α → γ → γ)

/-- The account of the entry's key is opened if there is none, and the entry made in it. -/
def add (t : Tally κ γ) (a : α) : Tally κ γ :=
  match t.accounts (key a) with
  | some account => ⟨t.order, Function.update t.accounts (key a) (some (enter a account))⟩
  | none => ⟨t.order ++ [key a], Function.update t.accounts (key a) (some (enter a opening))⟩

/-- The entries one after the other. -/
def tally (entries : List α) : Tally κ γ := entries.foldl (add key opening enter) empty

/-- The account of one key on its own. -/
def accountOf (k : κ) (entries : List α) : γ :=
  (entries.filter fun a => key a = k).foldl (fun account a => enter a account) opening

variable {key opening enter} {entries : List α} {a : α}

theorem tally_concat : tally key opening enter (entries ++ [a]) =
    add key opening enter (tally key opening enter entries) a := by
  rw [tally, List.foldl_append]
  rfl

theorem accountOf_concat_self : accountOf key opening enter (key a) (entries ++ [a]) =
    enter a (accountOf key opening enter (key a) entries) := by
  simp [accountOf, List.filter_append, List.foldl_append]

theorem accountOf_concat_of_ne {k : κ} (h : key a ≠ k) :
    accountOf key opening enter k (entries ++ [a]) = accountOf key opening enter k entries := by
  simp [accountOf, List.filter_append, h]

theorem accountOf_of_not_mem {k : κ} (h : k ∉ entries.map key) :
    accountOf key opening enter k entries = opening := by
  have hnone : (entries.filter fun a => key a = k) = [] := by
    refine List.filter_eq_nil_iff.mpr fun a ha hk => h ?_
    exact List.mem_map.mpr ⟨a, ha, of_decide_eq_true hk⟩
  rw [accountOf, hnone, List.foldl_nil]

theorem accounts_add (t : Tally κ γ) (a : α) (k : κ) :
    (add key opening enter t a).accounts k =
      if k = key a then some (enter a ((t.accounts (key a)).getD opening)) else t.accounts k := by
  cases h : t.accounts (key a) <;> simp only [add, h, Function.update_apply, Option.getD]

theorem order_add (t : Tally κ γ) (a : α) : (add key opening enter t a).order =
    if (t.accounts (key a)).isSome then t.order else t.order ++ [key a] := by
  cases h : t.accounts (key a) <;> simp [add, h]

/-- A sum over keys. -/
def total (f : κ → Nat) : List κ → Nat
  | [] => 0
  | k :: keys => f k + total f keys

omit [DecidableEq κ] in
theorem total_congr {f g : κ → Nat} {keys : List κ} (h : ∀ k ∈ keys, f k = g k) :
    total f keys = total g keys := by
  induction keys with
  | nil => rfl
  | cons k keys ih =>
    rw [total, total, h k List.mem_cons_self, ih fun k' hk' => h k' (List.mem_cons_of_mem k hk')]

/-- Over all keys there are, the entries of each add up to all entries. -/
theorem total_countP {keys : List κ} (hnodup : keys.Nodup) (entries : List α)
    (hkeys : ∀ a ∈ entries, key a ∈ keys) :
    total (fun k => entries.countP fun a => key a = k) keys = entries.length := by
  induction keys generalizing entries with
  | nil =>
    have hnil : entries = [] := List.eq_nil_iff_forall_not_mem.mpr fun a ha => by
      cases hkeys a ha
    rw [hnil]
    rfl
  | cons k keys ih =>
    obtain ⟨hk, hnodup⟩ := List.nodup_cons.mp hnodup
    -- The entries with another key are those of the keys that are left.
    have hrest : ∀ k' ∈ keys, (entries.countP fun a => key a = k') =
        (entries.filter fun a => ¬ key a = k).countP fun a => key a = k' := by
      intro k' hk'
      rw [List.countP_filter]
      refine List.countP_congr fun a _ => ?_
      have hne : k' ≠ k := fun he => hk (he ▸ hk')
      simp only [decide_eq_true_eq, Bool.and_eq_true]
      exact ⟨fun h => ⟨h, h ▸ hne⟩, And.left⟩
    have hin : ∀ a ∈ entries.filter fun a => ¬ key a = k, key a ∈ keys := by
      intro a ha
      obtain ⟨ha, hne⟩ := List.mem_filter.mp ha
      exact (List.mem_cons.mp (hkeys a ha)).resolve_left (of_decide_eq_true hne)
    have hsplit := List.length_eq_countP_add_countP (l := entries) fun a => decide (key a = k)
    rw [total, total_congr hrest, ih hnodup _ hin, hsplit, List.countP_eq_length_filter]
    simp [List.countP_eq_length_filter]

/-- Each key that came up has the account of its entries, and no other key has one. -/
theorem accounts_tally (entries : List α) (k : κ) :
    (tally key opening enter entries).accounts k =
      if k ∈ entries.map key then some (accountOf key opening enter k entries) else none := by
  induction entries using List.reverseRecOn with
  | nil => rfl
  | append_singleton entries a ih =>
    rw [tally_concat, accounts_add, List.map_append, List.map_singleton]
    by_cases hk : k = key a
    · subst hk
      rw [if_pos rfl, if_pos (List.mem_append_right _ (List.mem_singleton_self _)),
        accountOf_concat_self, ih]
      by_cases hmem : key a ∈ entries.map key
      · rw [if_pos hmem, Option.getD_some]
      · rw [if_neg hmem, Option.getD_none, accountOf_of_not_mem hmem]
    · have hmem : k ∈ entries.map key ++ [key a] ↔ k ∈ entries.map key := by simp [hk]
      rw [if_neg hk, ih, accountOf_concat_of_ne (Ne.symm hk)]
      simp only [hmem]

/-- The keys are listed by their first appearance. -/
theorem order_tally [BEq κ] [LawfulBEq κ] (entries : List α) :
    IsFirstSeen (entries.map key) (tally key opening enter entries).order := by
  induction entries using List.reverseRecOn with
  | nil => exact IsFirstSeen.nil
  | append_singleton entries a ih =>
    have hknown : ((tally key opening enter entries).accounts (key a)).isSome ↔
        key a ∈ (tally key opening enter entries).order := by
      rw [accounts_tally, ih.mem_iff]
      by_cases hmem : key a ∈ entries.map key <;> simp [hmem]
    rw [tally_concat, order_add, List.map_append, List.map_singleton]
    by_cases hmem : key a ∈ (tally key opening enter entries).order
    · rw [if_pos (hknown.mpr hmem)]
      exact ih.concat_of_mem hmem
    · rw [if_neg fun hsome => hmem (hknown.mp hsome)]
      exact ih.concat_of_not_mem hmem

end Tally
