import Mathlib.Data.Rat.Defs
import Mathlib.Algebra.Order.Ring.Rat

namespace FuzzHelm

/-!
# The enumerations of the domain and the exceptions

The values that reach the database, the API and the journal, one inductive type for each
enumeration of the program, and one constructor for each exception class the modelled code
can raise (with the fixed part of its message).
-/

/-! ### Sides -/

/-- `LONG` buys, `SHORT` sells; the integer value is the sign of the position. -/
inductive Side where
  | short
  | flat
  | long
  deriving DecidableEq, Repr, Inhabited

namespace Side

/-- The integer behind a side. -/
def toInt : Side → ℤ
  | .short => -1
  | .flat => 0
  | .long => 1

/-- The side with a given sign. -/
def ofInt (s : ℤ) : Side :=
  if 0 < s then .long else if s < 0 then .short else .flat

/-- The number of a short side. -/
@[simp] theorem toInt_short : Side.short.toInt = -1 := rfl
/-- The number of a flat side. -/
@[simp] theorem toInt_flat : Side.flat.toInt = 0 := rfl
/-- The number of a long side. -/
@[simp] theorem toInt_long : Side.long.toInt = 1 := rfl

end Side

/-- `(x > 0) - (x < 0)`. -/
def sign (x : ℚ) : ℤ := if 0 < x then 1 else if x < 0 then -1 else 0

/-- A positive number has the sign 1. -/
theorem sign_of_pos {x : ℚ} (h : 0 < x) : sign x = 1 := by rw [sign, if_pos h]

/-- A negative number has the sign -1. -/
theorem sign_of_neg {x : ℚ} (h : x < 0) : sign x = -1 := by
  rw [sign, if_neg (not_lt.mpr h.le), if_pos h]

/-- Zero has no sign. -/
@[simp] theorem sign_zero : sign 0 = 0 := by simp [sign]

/-- Only zero has no sign. -/
theorem sign_eq_zero_iff {x : ℚ} : sign x = 0 ↔ x = 0 := by
  rcases lt_trichotomy x 0 with h | h | h
  · simp [sign_of_neg h, h.ne]
  · simp [h]
  · simp [sign_of_pos h, h.ne']

/-- The sign of a quantity is `-1`, `0` or `1`. -/
theorem sign_cases (x : ℚ) :
    (x < 0 ∧ sign x = -1) ∨ (x = 0 ∧ sign x = 0) ∨ (0 < x ∧ sign x = 1) := by
  rcases lt_trichotomy x 0 with h | h | h
  · exact .inl ⟨h, sign_of_neg h⟩
  · exact .inr (.inl ⟨h, by rw [h, sign_zero]⟩)
  · exact .inr (.inr ⟨h, sign_of_pos h⟩)

/-- A quantity is its sign times its size. -/
theorem sign_mul_abs (x : ℚ) : (sign x : ℚ) * |x| = x := by
  rcases sign_cases x with ⟨h, hs⟩ | ⟨h, hs⟩ | ⟨h, hs⟩
  · rw [hs, abs_of_neg h]; simp
  · rw [hs, h]; simp
  · rw [hs, abs_of_pos h]; simp

/-- Turning a number round turns its sign. -/
theorem sign_neg (x : ℚ) : sign (-x) = -sign x := by
  rcases sign_cases x with ⟨h, hs⟩ | ⟨h, hs⟩ | ⟨h, hs⟩
  · rw [hs, sign_of_pos (neg_pos.mpr h)]; rfl
  · simp [h]
  · rw [hs, sign_of_neg (neg_lt_zero.mpr h)]

/-- `Side(_sign(x))` has the sign of `x`. -/
theorem Side.toInt_ofInt_sign (x : ℚ) : (Side.ofInt (sign x)).toInt = sign x := by
  rcases sign_cases x with ⟨-, hs⟩ | ⟨-, hs⟩ | ⟨-, hs⟩ <;> rw [hs] <;> rfl

/-- `Side(-_sign(x))` has the opposite sign. -/
theorem Side.toInt_ofInt_neg_sign (x : ℚ) : (Side.ofInt (-sign x)).toInt = -sign x := by
  rcases sign_cases x with ⟨-, hs⟩ | ⟨-, hs⟩ | ⟨-, hs⟩ <;> rw [hs] <;> rfl

/-! ### Orders and exits -/

/-- `OrderType`: at the market, or when a stop is reached. -/
inductive OrderType where
  | market
  | stopMarket
  deriving DecidableEq, Repr

/-- `OrderStatus`: where an order is in its life. -/
inductive OrderStatus where
  | new
  | partialFill
  | filled
  | rejected
  | canceled
  deriving DecidableEq, Repr

/-- `Liquidity`: whether a fill made the market or took it. -/
inductive Liquidity where
  | maker
  | taker
  deriving DecidableEq, Repr

/-- `RejectCode`: why an order is refused. -/
inductive RejectCode where
  | belowMinNotional
  | zeroQty
  | riskVeto
  | halted
  | reduceOnly
  | insufficientMargin
  | duplicateClientId
  | venueError
  deriving DecidableEq, Repr

/-- `ExitReason`: why a position was closed. -/
inductive ExitReason where
  | signal
  | stop
  | tp
  | riskVeto
  | halt
  | liquidation
  deriving DecidableEq, Repr

/-! ### Risk -/

/-- `RiskState`: the states of the risk, from the calm one to the halt. -/
inductive RiskState where
  | normal
  | warning
  | cooldown
  | halted
  deriving DecidableEq, Repr, Inhabited

/-- `VerdictKind`: what a rule says of an increase. -/
inductive VerdictKind where
  | allow
  | shrink
  | veto
  deriving DecidableEq, Repr

/-- `Role | str`: roles are compared by their string value. -/
abbrev Role := String

/-- `Role.ADMIN`, which may release a switch. -/
def Role.admin : Role := "admin"

/-! ### Exceptions -/

/-- The exception classes that the modelled functions raise. -/
inductive PyError where
  | valueError (msg : String)
  | keyError (msg : String)
  | validationError (field : String)
  | zeroDivision
  | overflowError
  | permissionDenied (msg : String)
  | engineInvariant (msg : String)
  deriving DecidableEq, Repr

end FuzzHelm
