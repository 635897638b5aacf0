import FuzzHelm.Core.Enums
import FuzzHelm.Lib.Grid

namespace FuzzHelm

open Lib

/-!
# Decimal discipline

Money, prices and quantities.  A `Decimal` is a rational number: arithmetic is exact, and
the program rounds only where it says so, through `quantizeStep` (prices half-to-even onto
the tick, quantities down onto the lot step) and `floorFraction` of the verdict algebra.
-/

/-- Money, prices, quantities and rates; exact arithmetic. -/
abbrev Decimal := ℚ

/-- `Annotated[Decimal, Field(gt=0)]`: the check is part of the type. -/
abbrev PosDec := {x : Decimal // 0 < x}

/-- `Annotated[Decimal, Field(ge=0)]`: the check is part of the type. -/
abbrev NonNegDec := {x : Decimal // 0 ≤ x}

/-- A multiple of `step`, rounded by `rounding`; a step that is not positive raises. -/
def quantizeStep (x step : Decimal) (rounding : Rounding) : Except PyError Decimal :=
  if step ≤ 0 then .error (.valueError "step must be > 0")
  else .ok (quantize rounding x step)

/-- `quantize_price` for a tick that is known to be positive. -/
def quantizePrice (x : Decimal) (tick : PosDec) : Decimal := quantize .halfEven x tick

/-- `floor_qty` for a step that is known to be positive. -/
def floorQty (x : Decimal) (step : PosDec) : Decimal := quantize .down x step

/-- A quantisation by a step returns just when the step is positive. -/
theorem quantizeStep_eq_ok {x step y : Decimal} {r : Rounding} :
    quantizeStep x step r = .ok y ↔ 0 < step ∧ quantize r x step = y := by
  unfold quantizeStep
  split
  · rename_i h
    simp [not_lt.mpr h]
  · rename_i h
    simp [not_le.mp h]

/-- Nothing is rounded down to nothing. -/
@[simp] theorem floorQty_zero (step : PosDec) : floorQty 0 step = 0 := quantize_zero _ _

/-- A multiple of the step is left alone. -/
theorem floorQty_of_isMultiple {x : Decimal} {step : PosDec} (h : IsMultiple step.1 x) :
    floorQty x step = x :=
  quantize_of_isMultiple _ step.2 h

/-- A price on the grid stays where it is. -/
theorem quantizePrice_idem (x : Decimal) (tick : PosDec) :
    quantizePrice (quantizePrice x tick) tick = quantizePrice x tick :=
  quantize_idem _ _ tick.2 x

/-- `numerator / denominator` of decimals: a zero denominator raises. -/
def divE (x y : Decimal) : Except PyError Decimal :=
  if y = 0 then .error .zeroDivision else .ok (x / y)

/-- A division returns just when the divisor is not zero. -/
theorem divE_eq_ok {x y z : Decimal} : divE x y = .ok z ↔ y ≠ 0 ∧ x / y = z := by
  unfold divE
  split <;> simp_all

end FuzzHelm
