import FuzzHelm.Lib.Grid
import Mathlib.Data.Int.Log
import Mathlib.Data.Rat.Floor

namespace Lib

/-!
# Floating decimals

Finite decimal numbers as a sign, a coefficient and an exponent, and the operations of general
decimal arithmetic at a precision: the exact result, rounded half-to-even to so many digits.
Exponents are not bounded.

* `FloatDec` — a number as it is written; `FloatDec.value` is what it stands for;
* `finish` — the exact result of an operation, rounded to the precision;
* `divide`, `multiply`, `add`, `sub`, `abs`, `toIntegral`, `rescale` — the operations;
* `finish_floor` — rounding keeps the integer part of what is far enough from the next integer;
* `finish_exact` — what fits into the precision is not rounded.
-/

/-- A decimal number, as it is written. -/
structure FloatDec where
  neg : Bool
  coeff : ℕ
  exp : ℤ
  deriving DecidableEq, Repr

/-- The conditions that end an operation. -/
inductive Signal where
  | invalidOperation
  | divisionByZero
  deriving DecidableEq, Repr

namespace FloatDec

/-- The size of the number. -/
def size (x : FloatDec) : ℚ := x.coeff * 10 ^ x.exp

/-- What the number stands for. -/
def value (x : FloatDec) : ℚ := if x.neg then -x.size else x.size

/-- Zeros at the end of a coefficient are dropped up to the ideal exponent. -/
def strip (ideal : ℤ) : ℕ → ℕ → ℤ → ℕ × ℤ
  | 0, c, e => (c, e)
  | n + 1, c, e => if e < ideal ∧ c % 10 = 0 then strip ideal n (c / 10) (e + 1) else (c, e)

/-- **The result of an operation** whose exact size is `q`: `prec` digits, rounded half-to-even;
    an exact result has the exponent closest to the ideal one. -/
def finish (prec : ℕ) (neg : Bool) (q : ℚ) (ideal : ℤ) : FloatDec :=
  if q = 0 then ⟨neg, 0, ideal⟩
  else
    let e := Int.log 10 q - prec + 1
    let c := (Rounding.halfEven.toInt (q / 10 ^ e)).toNat
    if (c : ℚ) * 10 ^ e = q then
      let (c, e) := strip ideal (ideal - e).toNat c e
      ⟨neg, c, e⟩
    else if c = 10 ^ prec then ⟨neg, 10 ^ (prec - 1), e + 1⟩
    else ⟨neg, c, e⟩

/-- `x / y`. -/
def divide (prec : ℕ) (x y : FloatDec) : Except Signal FloatDec :=
  if y.coeff = 0 then .error (if x.coeff = 0 then .invalidOperation else .divisionByZero)
  else .ok (finish prec (xor x.neg y.neg) (x.size / y.size) (x.exp - y.exp))

/-- `x * y`. -/
def multiply (prec : ℕ) (x y : FloatDec) : FloatDec :=
  finish prec (xor x.neg y.neg) (x.size * y.size) (x.exp + y.exp)

/-- `abs(x)`: the size, rounded to the precision. -/
def abs (prec : ℕ) (x : FloatDec) : FloatDec := finish prec false x.size x.exp

/-- `x + y`: a zero is negative only where both numbers are. -/
def add (prec : ℕ) (x y : FloatDec) : FloatDec :=
  let v := x.value + y.value
  finish prec (if v = 0 then x.neg && y.neg else decide (v < 0)) |v| (min x.exp y.exp)

/-- `x - y`. -/
def sub (prec : ℕ) (x y : FloatDec) : FloatDec := add prec x ⟨!y.neg, y.coeff, y.exp⟩

/-- `x.to_integral_value(rounding)`. -/
def toIntegral (r : Rounding) (x : FloatDec) : FloatDec :=
  if 0 ≤ x.exp then x else ⟨x.neg, (r.toInt x.size).toNat, 0⟩

/-- `x.quantize(y)`, half-to-even: the exponent of `y`, if the coefficient fits. -/
def rescale (prec : ℕ) (x y : FloatDec) : Except Signal FloatDec :=
  let c := (Rounding.halfEven.toInt (x.size / 10 ^ y.exp)).toNat
  if 10 ^ prec ≤ c then .error .invalidOperation else .ok ⟨x.neg, c, y.exp⟩

/-! ### Rounding to the nearest -/

section Nearest

variable {t : ℚ}

/-- Rounding to the nearest is not below the floor. -/
theorem floor_le_halfEven (t : ℚ) : ⌊t⌋ ≤ Rounding.halfEven.toInt t := by
  unfold Rounding.toInt
  dsimp only
  split_ifs <;> omega

/-- Rounding to the nearest is at most half above. -/
theorem halfEven_le (t : ℚ) : (Rounding.halfEven.toInt t : ℚ) ≤ t + 1 / 2 := by
  have hfloor := Int.floor_le t
  unfold Rounding.toInt
  dsimp only
  split_ifs with hbelow habove heven
  · linarith
  · push_cast
    linarith
  · linarith
  · push_cast
    linarith

/-- Rounding to the nearest keeps the sign of what is not negative. -/
theorem halfEven_nonneg (ht : 0 ≤ t) : 0 ≤ Rounding.halfEven.toInt t :=
  (Int.floor_nonneg.mpr ht).trans (floor_le_halfEven t)

end Nearest

/-! ### Sizes -/

variable {prec : ℕ} {neg : Bool} {q : ℚ} {ideal : ℤ}

/-- Powers of ten are positive. -/
theorem ten_zpow_pos (e : ℤ) : (0 : ℚ) < 10 ^ e := zpow_pos (by norm_num) e

/-- A size is not negative. -/
theorem size_nonneg (x : FloatDec) : 0 ≤ x.size :=
  mul_nonneg (Nat.cast_nonneg _) (ten_zpow_pos _).le

/-- Dropping zeros does not change the size. -/
theorem strip_size (ideal : ℤ) (n c : ℕ) (e : ℤ) :
    ((strip ideal n c e).1 : ℚ) * 10 ^ (strip ideal n c e).2 = c * 10 ^ e := by
  induction n generalizing c e with
  | zero => rfl
  | succ n ih =>
    unfold strip
    split_ifs with h
    · rw [ih, zpow_add₀ (by norm_num), zpow_one]
      have hten : 10 * (c / 10) = c := by omega
      have hcast : (10 : ℚ) * ((c / 10 : ℕ) : ℚ) = c := by exact_mod_cast hten
      rw [← hcast]
      ring
    · rfl

/-- The result of an operation has the sign that it was given. -/
@[simp] theorem finish_neg : (finish prec neg q ideal).neg = neg := by
  unfold finish
  dsimp only
  split_ifs
  · rfl
  · rfl
  · rfl
  · rfl

/-- Rounding to a whole number keeps the sign. -/
@[simp] theorem toIntegral_neg (r : Rounding) (x : FloatDec) : (x.toIntegral r).neg = x.neg := by
  unfold toIntegral
  split_ifs
  · rfl
  · rfl

/-- Zero is exact at every exponent. -/
@[simp] theorem finish_zero : finish prec neg 0 ideal = ⟨neg, 0, ideal⟩ := if_pos rfl

/-- The size of a result: the exact one, rounded to its last digit. -/
theorem finish_size (hprec : 0 < prec) (hq : 0 < q) : (finish prec neg q ideal).size =
    Rounding.halfEven.toInt (q / 10 ^ (Int.log 10 q - prec + 1)) *
      10 ^ (Int.log 10 q - prec + 1) := by
  unfold finish
  rw [if_neg hq.ne']
  generalize Int.log 10 q - prec + 1 = e
  have hcoeff := halfEven_nonneg (div_nonneg hq.le (ten_zpow_pos e).le)
  have hcast : (((Rounding.halfEven.toInt (q / 10 ^ e)).toNat : ℕ) : ℚ) =
      Rounding.halfEven.toInt (q / 10 ^ e) := by
    exact_mod_cast Int.toNat_of_nonneg hcoeff
  dsimp only
  split_ifs with hexact hcarry
  · rw [← hcast]
    exact strip_size ideal _ _ e
  · -- the carry has made one digit more
    rw [← hcast, hcarry, size]
    obtain ⟨p, rfl⟩ : ∃ p, prec = p + 1 := ⟨prec - 1, by omega⟩
    rw [Nat.add_sub_cancel, zpow_add₀ (by norm_num), zpow_one]
    push_cast
    ring
  · rw [← hcast, size]

/-- The last digit of a result is at most so large. -/
theorem last_digit_le (hq : 0 < q) :
    (10 : ℚ) ^ (Int.log 10 q - prec + 1) ≤ q * 10 ^ (1 - (prec : ℤ)) := by
  have hlog : (10 : ℚ) ^ Int.log 10 q ≤ q := by
    exact_mod_cast Int.zpow_log_le_self (b := 10) (by norm_num) hq
  have hsplit : Int.log 10 q - prec + 1 = Int.log 10 q + (1 - prec) := by ring
  rw [hsplit, zpow_add₀ (by norm_num)]
  exact mul_le_mul_of_nonneg_right hlog (ten_zpow_pos _).le

/-- A number below a power of ten has a smaller logarithm. -/
theorem log_lt {e : ℤ} (hq : 0 < q) (h : q < 10 ^ e) : Int.log 10 q < e := by
  rw [← Int.lt_zpow_iff_log_lt (b := 10) (by norm_num) hq]
  exact_mod_cast h

/-- **The integer part is kept** by rounding what is further from the next integer than its last
    digit can be large. -/
theorem finish_floor (hprec : 0 < prec) (hq : 0 < q) (hsmall : q < 10 ^ (prec : ℤ))
    (hfar : q * 10 ^ (1 - (prec : ℤ)) < ⌊q⌋ + 1 - q) :
    ⌊(finish prec neg q ideal).size⌋ = ⌊q⌋ := by
  rw [finish_size hprec hq, Int.floor_eq_iff]
  have hlast : (10 : ℚ) ^ (Int.log 10 q - prec + 1) ≤ q * 10 ^ (1 - (prec : ℤ)) :=
    last_digit_le hq
  have hlog := log_lt hq hsmall
  have hexp : Int.log 10 q - prec + 1 ≤ 0 := by omega
  generalize Int.log 10 q - prec + 1 = e at *
  have hpos := ten_zpow_pos e
  constructor
  · -- the integer part is a whole number of last digits
    obtain ⟨k, hk⟩ := Int.eq_ofNat_of_zero_le (neg_nonneg.mpr hexp)
    have hscale : ((10 : ℤ) ^ k : ℚ) * 10 ^ e = 1 := by
      rw [show e = -(k : ℤ) by omega, zpow_neg, zpow_natCast]
      push_cast
      field_simp
    have hdigits : ⌊q⌋ * 10 ^ k ≤ ⌊q / 10 ^ e⌋ := by
      rw [Int.le_floor, le_div_iff₀ hpos]
      push_cast
      push_cast at hscale
      rw [mul_assoc, hscale, mul_one]
      exact Int.floor_le q
    have hround : ((⌊q⌋ * 10 ^ k : ℤ) : ℚ) ≤ Rounding.halfEven.toInt (q / 10 ^ e) := by
      exact_mod_cast hdigits.trans (floor_le_halfEven _)
    calc (⌊q⌋ : ℚ) = ((⌊q⌋ * 10 ^ k : ℤ) : ℚ) * 10 ^ e := by
          push_cast at hscale ⊢
          rw [mul_assoc, hscale, mul_one]
      _ ≤ _ := mul_le_mul_of_nonneg_right hround hpos.le
  -- upwards: one last digit does not reach the next integer
  · have hround := mul_le_mul_of_nonneg_right (halfEven_le (q / 10 ^ e)) hpos.le
    rw [add_mul, div_mul_cancel₀ _ hpos.ne'] at hround
    linarith

/-- **What fits is not rounded.** -/
theorem finish_exact (hprec : 0 < prec) {k : ℕ} {e : ℤ} (hk : k < 10 ^ prec) :
    (finish prec neg (k * 10 ^ e) ideal).size = k * 10 ^ e := by
  rcases Nat.eq_zero_or_pos k with rfl | hpos
  · simp [size]
  · have hk0 : (0 : ℚ) < k := Nat.cast_pos.mpr hpos
    have hq : (0 : ℚ) < k * 10 ^ e := mul_pos hk0 (ten_zpow_pos e)
    have hsmall : (k : ℚ) * 10 ^ e < 10 ^ ((prec : ℤ) + e) := by
      rw [zpow_add₀ (by norm_num), zpow_natCast]
      exact mul_lt_mul_of_pos_right (by exact_mod_cast hk) (ten_zpow_pos e)
    have hlog := log_lt hq hsmall
    rw [finish_size hprec hq]
    obtain ⟨j, hj⟩ : ∃ j : ℕ, e = Int.log 10 ((k : ℚ) * 10 ^ e) - prec + 1 + j :=
      ⟨(e - (Int.log 10 ((k : ℚ) * 10 ^ e) - prec + 1)).toNat, by omega⟩
    generalize Int.log 10 ((k : ℚ) * 10 ^ e) - prec + 1 = last at *
    have hdigits : (k : ℚ) * 10 ^ e / 10 ^ last = ((k * 10 ^ j : ℤ) : ℚ) := by
      rw [hj, zpow_add₀ (by norm_num), zpow_natCast]
      have := (ten_zpow_pos last).ne'
      push_cast
      field_simp
    rw [hdigits, Rounding.toInt_intCast, ← hdigits, div_mul_cancel₀ _ (ten_zpow_pos last).ne']

end FloatDec

end Lib
