import Mathlib.Order.Lattice
import Mathlib.Algebra.Order.Group.Int

/-!
# Signed 64-bit integers

The range, and sums and differences that stay at its ends.

* `le_saturatingAdd_iff`, `saturatingSub_le_iff`: inside the range nothing is lost.
-/

namespace SimpleClaw

def i64Max : Int := 2 ^ 63 - 1

def i64Min : Int := -2 ^ 63

def saturatingAdd (a : Int) (b : Nat) : Int := min (a + b) i64Max

def saturatingSub (a : Int) (b : Nat) : Int := max (a - b) i64Min

theorem i64Min_le_zero : i64Min ≤ 0 := by decide

theorem zero_le_i64Max : 0 ≤ i64Max := by decide

theorem le_saturatingAdd_iff {a n : Int} {b : Nat} (hn : n ≤ i64Max) :
    n ≤ saturatingAdd a b ↔ n ≤ a + b := by
  rw [saturatingAdd]
  omega

theorem saturatingSub_le_iff {a n : Int} {b : Nat} (hn : i64Min ≤ n) :
    saturatingSub a b ≤ n ↔ a - b ≤ n := by
  rw [saturatingSub]
  omega

theorem saturatingSub_le_max {a : Int} {b : Nat} (ha : a ≤ i64Max) :
    saturatingSub a b ≤ i64Max := by
  have hmin := i64Min_le_zero
  have hmax := zero_le_i64Max
  rw [saturatingSub]
  omega

end SimpleClaw
