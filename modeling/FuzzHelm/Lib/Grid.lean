import Mathlib.Algebra.Order.Archimedean.Basic
import Mathlib.Algebra.Order.Floor.Ring
import Mathlib.Tactic.FieldSimp
import Mathlib.Tactic.Linarith
import Mathlib.Tactic.Positivity
import Mathlib.Tactic.Ring

namespace Lib

/-!
# Rounding to a grid

The multiples of a step in an ordered field, and the two directed ways of rounding onto
them: towards zero and half-to-even.

* `IsMultiple step x` — `x` is an integer number of steps; closed under `+`, `-`, `|·|`;
* `quantize r x step` — `x` rounded onto the grid by the mode `r`;
* `quantize_of_isMultiple` — rounding fixes the grid, hence is idempotent;
* `quantize_down_le` / `quantize_down_mono` — rounding down never goes up and keeps order.
-/

variable {K : Type*} [Field K]

/-! ### Multiples of a step -/

/-- `x` is a whole number of steps. -/
def IsMultiple (step x : K) : Prop := ∃ n : ℤ, x = n * step

namespace IsMultiple

variable {step x y : K}

/-- Zero is a multiple of every step. -/
theorem zero (step : K) : IsMultiple step 0 := ⟨0, by simp⟩

/-- Multiples add up to a multiple. -/
theorem add (hx : IsMultiple step x) (hy : IsMultiple step y) : IsMultiple step (x + y) := by
  obtain ⟨n, rfl⟩ := hx
  obtain ⟨m, rfl⟩ := hy
  exact ⟨n + m, by push_cast; ring⟩

/-- The opposite of a multiple is one. -/
theorem neg (hx : IsMultiple step x) : IsMultiple step (-x) := by
  obtain ⟨n, rfl⟩ := hx
  exact ⟨-n, by push_cast; ring⟩

/-- The difference of multiples is one. -/
theorem sub (hx : IsMultiple step x) (hy : IsMultiple step y) : IsMultiple step (x - y) := by
  rw [sub_eq_add_neg]
  exact hx.add hy.neg

/-- A whole number of multiples is one. -/
theorem intMul (m : ℤ) (hx : IsMultiple step x) : IsMultiple step (m * x) := by
  obtain ⟨n, rfl⟩ := hx
  exact ⟨m * n, by push_cast; ring⟩

/-- The size of a multiple is one. -/
theorem abs [LinearOrder K] (hx : IsMultiple step x) : IsMultiple step |x| := by
  rcases abs_choice x with h | h
  · rw [h]; exact hx
  · rw [h]; exact hx.neg

end IsMultiple

/-! ### Rounding modes -/

/-- The directions in which a value is rounded to an integer. -/
inductive Rounding where
  /-- towards zero -/
  | down
  /-- to the nearest integer, ties to the even one -/
  | halfEven
  deriving DecidableEq, Repr

variable [LinearOrder K] [FloorRing K]

/-- `x` rounded to an integer. -/
def Rounding.toInt : Rounding → K → ℤ
  | .down, x => if 0 ≤ x then ⌊x⌋ else ⌈x⌉
  | .halfEven, x =>
    if x - ⌊x⌋ < 1 / 2 then ⌊x⌋
    else if 1 / 2 < x - ⌊x⌋ then ⌊x⌋ + 1
    else if ⌊x⌋ % 2 = 0 then ⌊x⌋ else ⌊x⌋ + 1

/-- `x` rounded to a whole number of steps. -/
def quantize (r : Rounding) (x step : K) : K := r.toInt (x / step) * step

/-- A rounded value lies on the grid. -/
theorem quantize_isMultiple (r : Rounding) (x step : K) : IsMultiple step (quantize r x step) :=
  ⟨r.toInt (x / step), rfl⟩

variable [IsStrictOrderedRing K]

/-- Rounding an integer does nothing. -/
theorem Rounding.toInt_intCast (r : Rounding) (n : ℤ) : r.toInt (n : K) = n := by
  cases r
  case down => simp [Rounding.toInt]
  case halfEven => simp [Rounding.toInt]

/-- **Rounding fixes the grid.** -/
theorem quantize_of_isMultiple (r : Rounding) {x step : K} (hs : 0 < step)
    (hx : IsMultiple step x) : quantize r x step = x := by
  obtain ⟨n, rfl⟩ := hx
  rw [quantize, mul_div_cancel_right₀ _ hs.ne', Rounding.toInt_intCast]

/-- What is on the grid stays there, whatever the rounding. -/
theorem quantize_idem (r r' : Rounding) {step : K} (hs : 0 < step) (x : K) :
    quantize r (quantize r' x step) step = quantize r' x step :=
  quantize_of_isMultiple r hs (quantize_isMultiple r' x step)

/-- Zero is on every grid. -/
@[simp] theorem quantize_zero (r : Rounding) (step : K) : quantize r 0 step = 0 := by
  rw [quantize, zero_div, ← Int.cast_zero (R := K), Rounding.toInt_intCast]
  simp

/-! ### Rounding down -/

/-- A number that is not negative is rounded down to the floor of its quotient. -/
theorem quantize_down_eq {x step : K} (hs : 0 < step) (hx : 0 ≤ x) :
    quantize .down x step = ⌊x / step⌋ * step := by
  rw [quantize, Rounding.toInt, if_pos (div_nonneg hx hs.le)]

/-- Rounding down does not go below zero. -/
theorem quantize_down_nonneg {x step : K} (hs : 0 < step) (hx : 0 ≤ x) :
    0 ≤ quantize .down x step := by
  rw [quantize_down_eq hs hx]
  have hfloor : (0 : K) ≤ ⌊x / step⌋ := by
    exact_mod_cast Int.floor_nonneg.mpr (div_nonneg hx hs.le)
  exact mul_nonneg hfloor hs.le

/-- **Rounding down never goes up.** -/
theorem quantize_down_le {x step : K} (hs : 0 < step) (hx : 0 ≤ x) :
    quantize .down x step ≤ x := by
  rw [quantize_down_eq hs hx]
  calc (⌊x / step⌋ : K) * step ≤ x / step * step :=
        mul_le_mul_of_nonneg_right (Int.floor_le _) hs.le
    _ = x := div_mul_cancel₀ x hs.ne'

/-- Rounding down keeps the order of non-negative values. -/
theorem quantize_down_mono {x y step : K} (hs : 0 < step) (hx : 0 ≤ x) (hxy : x ≤ y) :
    quantize .down x step ≤ quantize .down y step := by
  rw [quantize_down_eq hs hx, quantize_down_eq hs (hx.trans hxy)]
  have hfloor : (⌊x / step⌋ : K) ≤ ⌊y / step⌋ := by
    exact_mod_cast Int.floor_mono (div_le_div_of_nonneg_right hxy hs.le)
  exact mul_le_mul_of_nonneg_right hfloor hs.le

/-! ### Rounding to the nearest -/

/-- A value of at least one step is not rounded below one step. -/
theorem le_quantize_halfEven {x step : K} (hs : 0 < step) (hx : step ≤ x) :
    step ≤ quantize .halfEven x step := by
  have hfloor : 1 ≤ ⌊x / step⌋ := by
    rw [Int.le_floor, Int.cast_one, le_div_iff₀ hs, one_mul]
    exact hx
  have hround : 1 ≤ Rounding.halfEven.toInt (x / step) := by
    simp only [Rounding.toInt]
    split_ifs <;> omega
  rw [quantize]
  calc step = 1 * step := (one_mul step).symm
    _ ≤ Rounding.halfEven.toInt (x / step) * step :=
        mul_le_mul_of_nonneg_right (by exact_mod_cast hround) hs.le

end Lib
