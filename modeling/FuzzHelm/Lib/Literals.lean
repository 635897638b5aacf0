import Mathlib.Algebra.Order.Ring.Rat
import Mathlib.Data.Nat.Cast.Defs
import Mathlib.Tactic.NormNum

namespace Lib

/-!
# Literals

The literals from two on come into an arbitrary field by a proof that they are at least two, and a
sample of a structure carries the bounds of its numbers.  With a name for such a proof a definition
refers to the name and keeps no copy of the proof.

* `two_atLeastTwo`, `three_atLeastTwo`, `ten_atLeastTwo` — the literals, as local instances;
* `one_pos_rat` and the rest — bounds of rational literals.
-/

/-! ### Literals of a field -/

/-- Two is at least two. -/
theorem two_atLeastTwo : Nat.AtLeastTwo 2 := ⟨Nat.le_refl 2⟩

/-- Three is at least two. -/
theorem three_atLeastTwo : Nat.AtLeastTwo 3 := ⟨Nat.le_succ 2⟩

/-- Ten is at least two. -/
theorem ten_atLeastTwo : Nat.AtLeastTwo 10 := ⟨Nat.le_of_ble_eq_true rfl⟩

/-! ### Bounds of rational literals -/

/-- One is positive. -/
theorem one_pos_rat : (0 : ℚ) < 1 := by norm_num

/-- Three is positive. -/
theorem three_pos_rat : (0 : ℚ) < 3 := by norm_num

/-- Five is positive. -/
theorem five_pos_rat : (0 : ℚ) < 5 := by norm_num

/-- Six is positive. -/
theorem six_pos_rat : (0 : ℚ) < 6 := by norm_num

/-- A hundred is positive. -/
theorem hundred_pos_rat : (0 : ℚ) < 100 := by norm_num

/-- A billionth is positive. -/
theorem billionth_pos_rat : (0 : ℚ) < 1 / 10 ^ 9 := by norm_num

/-- Zero is not negative. -/
theorem zero_nonneg_rat : (0 : ℚ) ≤ 0 := le_refl 0

/-- One is not negative. -/
theorem one_nonneg_rat : (0 : ℚ) ≤ 1 := by norm_num

/-- Ten thousand is not negative. -/
theorem tenThousand_nonneg_rat : (0 : ℚ) ≤ 10000 := by norm_num

/-- A half is a share. -/
theorem half_mem_unit_rat : (0 : ℚ) ≤ 1 / 2 ∧ (1 / 2 : ℚ) ≤ 1 := by norm_num

/-- One is a share. -/
theorem one_mem_unit_rat : (0 : ℚ) ≤ 1 ∧ (1 : ℚ) ≤ 1 := by norm_num

/-- A bound that is missing is not negative. -/
theorem nonneg_of_mem_none_rat : ∀ a ∈ (none : Option ℚ), 0 ≤ a := by simp

/-- A bound of one is not negative. -/
theorem nonneg_of_mem_some_one_rat : ∀ a ∈ some (1 : ℚ), 0 ≤ a := by simp

end Lib
