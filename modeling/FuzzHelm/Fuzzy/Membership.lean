import Mathlib.Algebra.Order.Field.Rat
import Mathlib.Order.Lattice

namespace FuzzHelm

/-!
# Linguistic variables

The terms of a variable and their membership functions, in exact arithmetic.

* `MembershipFunction` — a function with values between 0 and 1;
* `LinguisticVariable.fuzzify` — the degrees of the terms at a clipped input.
-/

/-- The base class of the triangular, trapezoidal and Gaussian functions. -/
structure MembershipFunction where
  scalar : ℚ → ℚ
  nonneg : ∀ x, 0 ≤ scalar x
  le_one : ∀ x, scalar x ≤ 1

/-- A variable with its range and its terms, in the order of the configuration. -/
structure LinguisticVariable where
  name : String
  lo : ℚ
  hi : ℚ
  lo_lt_hi : lo < hi
  terms : List (String × MembershipFunction)
  terms_ne : terms ≠ []

namespace LinguisticVariable

variable (v : LinguisticVariable)

/-- `clip`: an input outside the universe counts as its nearer end. -/
def clip (x : ℚ) : ℚ := if x < v.lo then v.lo else if v.hi < x then v.hi else x

/-- The degree of every term, with its name. -/
def fuzzify (x : ℚ) : List (String × ℚ) := v.terms.map fun t => (t.1, t.2.scalar (v.clip x))

/-- The degrees of the terms and, in the place after them, that of the term "any". -/
def degrees (x : ℚ) : List ℚ := (v.fuzzify x).map Prod.snd ++ [1]

/-- There is one degree for each term, and one for the wildcard. -/
@[simp] theorem length_degrees (x : ℚ) : (v.degrees x).length = v.terms.length + 1 := by
  simp [degrees, fuzzify]

end LinguisticVariable

end FuzzHelm
