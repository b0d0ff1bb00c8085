import Mathlib.Data.List.Sort

/-!
# The nearest rows

Rows are ranked by a key in a linear order, such as a distance together with a tie-break, and a
search returns the first `k` of them.

* `byKey key rows`: the rows in the order of their keys.
* `nearest key k rows`: the first `k` of them.
* `filter_byKey`: the rows of some kind keep their order.
* `byKey_congr`: the order of the rows does not matter.
-/

namespace Nearest

universe u v

variable {α : Type u} {κ : Type v} [LinearOrder κ] (key : α → κ)

/-- The rows in the order of their keys. -/
def byKey (rows : List α) : List α := rows.insertionSort fun a b => key a ≤ key b

/-- The first `k` rows in the order of their keys. -/
def nearest (k : Nat) (rows : List α) : List α := (byKey key rows).take k

/-- No two of the rows have one key. -/
def Distinct (rows : List α) : Prop := ∀ a ∈ rows, ∀ b ∈ rows, key a = key b → a = b

instance isTrans_key : IsTrans α fun a b => key a ≤ key b := ⟨fun _ _ _ => le_trans⟩

instance total_key : Std.Total fun a b : α => key a ≤ key b := ⟨fun a b => le_total (key a) (key b)⟩

variable {key} {rows : List α} {k : Nat} {p : α → Bool}

theorem perm_byKey (rows : List α) : (byKey key rows).Perm rows := List.perm_insertionSort _ _

theorem pairwise_byKey (rows : List α) :
    (byKey key rows).Pairwise fun a b => key a ≤ key b := List.pairwise_insertionSort _ _

theorem mem_byKey {a : α} : a ∈ byKey key rows ↔ a ∈ rows := List.mem_insertionSort _

theorem mem_of_mem_nearest {a : α} (h : a ∈ nearest key k rows) : a ∈ rows :=
  mem_byKey.mp (List.mem_of_mem_take h)

/-- Rows with distinct keys are in one order only. -/
theorem eq_byKey (hdistinct : Distinct key rows) {sorted : List α}
    (hsorted : sorted.Pairwise fun a b => key a ≤ key b) (hperm : sorted.Perm rows) :
    sorted = byKey key rows := by
  refine List.Perm.eq_of_pairwise ?_ hsorted (pairwise_byKey rows)
    (hperm.trans (perm_byKey rows).symm)
  exact fun a b ha hb hab hba =>
    hdistinct a (hperm.mem_iff.mp ha) b (mem_byKey.mp hb) (le_antisymm hab hba)

theorem byKey_congr (hdistinct : Distinct key rows) {rows' : List α} (hperm : rows'.Perm rows) :
    byKey key rows' = byKey key rows :=
  eq_byKey hdistinct (pairwise_byKey rows') ((perm_byKey rows').trans hperm)

omit [LinearOrder κ] in
theorem Distinct.filter (h : Distinct key rows) (p : α → Bool) : Distinct key (rows.filter p) :=
  fun a ha b hb => h a (List.mem_of_mem_filter ha) b (List.mem_of_mem_filter hb)

theorem filter_byKey (hdistinct : Distinct key rows) (p : α → Bool) :
    (byKey key rows).filter p = byKey key (rows.filter p) :=
  eq_byKey (hdistinct.filter p) ((pairwise_byKey rows).filter p) ((perm_byKey rows).filter p)

end Nearest
