import FuzzHelm.Core.Money
import FuzzHelm.Lib.FloatingDecimal

namespace FuzzHelm

open Lib

/-!
# Quantities under the decimal context

`floor_qty` divides, and the quotient is rounded half-to-even before its fraction is cut off.  On
quantities with eighteen decimals nothing comes of it: a quotient of such numbers below `10 ^ 19`
is further from the next integer than the last of its 38 digits.

* `Written.quantizeStep`, `Written.floorQty` — the functions on decimals as they are written;
* `Written.floorQty_eq` — the number that is written;
* `floor_qty_exact` — it is the multiple of the step below, so that the exact model of `floorQty`
  is what the program computes.
-/

/-- `DECIMAL_CONTEXT.prec`: the digits that every operation keeps. -/
def decimalPrec : ℕ := 38

/-- What rounding to a step can raise. -/
inductive MoneyError where
  | valueError (msg : String)
  | signal (s : Signal)
  deriving DecidableEq, Repr

namespace Written

/-- `quantize_step`: divide, round to a whole number, and multiply, each within the context. -/
def quantizeStep (x step : FloatDec) (rounding : Rounding) : Except MoneyError FloatDec :=
  if step.value ≤ 0 then .error (.valueError "step must be > 0")
  else do
    let q ← (FloatDec.divide decimalPrec x step).mapError .signal
    let n := q.toIntegral rounding
    ((FloatDec.multiply decimalPrec n step).rescale decimalPrec step).mapError .signal

/-- `floor_qty`: the quantity rounded down to the step, within the context. -/
def floorQty (x step : FloatDec) : Except MoneyError FloatDec := quantizeStep x step .down

variable {x step : FloatDec}

/-- A number that is not negative is its size, also when its sign is that of a negative zero. -/
theorem size_of_nonneg (h : 0 ≤ x.value) : x.size = x.value := by
  have hsize := x.size_nonneg
  unfold FloatDec.value at h ⊢
  split_ifs at h ⊢
  · linarith
  · rfl

/-- A positive value has no sign. -/
theorem neg_of_pos (h : 0 < x.value) : x.neg = false := by
  have hsize := x.size_nonneg
  unfold FloatDec.value at h
  split_ifs at h with hneg
  · linarith
  · exact Bool.not_eq_true _ ▸ hneg

/-- Cutting off the fraction. -/
theorem toIntegral_size (x : FloatDec) : (x.toIntegral .down).size = (⌊x.size⌋ : ℤ) := by
  unfold FloatDec.toIntegral
  split_ifs with hexp
  · obtain ⟨k, hk⟩ := Int.eq_ofNat_of_zero_le hexp
    have hint : x.size = ((x.coeff * 10 ^ k : ℤ) : ℚ) := by
      rw [FloatDec.size, hk]
      push_cast
      rw [zpow_natCast]
    rw [hint, Int.floor_intCast]
  · have hfloor := Int.floor_nonneg.mpr x.size_nonneg
    rw [Rounding.toInt, if_pos x.size_nonneg, FloatDec.size, zpow_zero, mul_one]
    exact_mod_cast Int.toNat_of_nonneg hfloor

/-- **The quotient** keeps its integer part: it is a quotient of whole numbers, the upper one
    below `10 ^ 37`. -/
theorem quotient_floor {a b : ℕ} {neg : Bool} {ideal : ℤ} (ha : a < 10 ^ 37) (hb : 0 < b) :
    ⌊(FloatDec.finish decimalPrec neg ((a : ℚ) / b) ideal).size⌋ = ⌊(a : ℚ) / b⌋ := by
  have hb0 : (0 : ℚ) < b := Nat.cast_pos.mpr hb
  rcases Nat.eq_zero_or_pos a with rfl | ha0
  · simp [FloatDec.size]
  · have hq : (0 : ℚ) < (a : ℚ) / b := div_pos (Nat.cast_pos.mpr ha0) hb0
    -- a quotient is no larger than its numerator, so that its digits fit
    have hle : (a : ℚ) / b ≤ a := div_le_self (Nat.cast_nonneg a) (by exact_mod_cast hb)
    have hbound : (a : ℚ) < 10 ^ 37 := by exact_mod_cast ha
    apply FloatDec.finish_floor (by decide) hq
    · refine hle.trans_lt (hbound.trans_le ?_)
      norm_num [decimalPrec]
    · -- one part of `b` is missing up to the next integer
      have hnext : (a : ℤ) + 1 ≤ (⌊(a : ℚ) / b⌋ + 1) * b := by
        have hlt := Int.lt_floor_add_one ((a : ℚ) / b)
        rw [div_lt_iff₀ hb0] at hlt
        have hlt : (a : ℤ) < (⌊(a : ℚ) / b⌋ + 1) * b := by exact_mod_cast hlt
        omega
      have hnext : (a : ℚ) + 1 ≤ (⌊(a : ℚ) / b⌋ + 1) * b := by exact_mod_cast hnext
      have hgap : 1 / (b : ℚ) ≤ ⌊(a : ℚ) / b⌋ + 1 - a / b := by
        rw [le_sub_iff_add_le, ← add_div, div_le_iff₀ hb0]
        linarith
      refine lt_of_lt_of_le ?_ hgap
      rw [div_mul_eq_mul_div, div_lt_div_iff_of_pos_right hb0]
      have hten : (10 : ℚ) ^ (1 - (decimalPrec : ℤ)) = 1 / 10 ^ 37 := by
        norm_num [decimalPrec]
      rw [hten]
      linarith

/-- The digits that are written fit the precision: the number is below `10 ^ 19`, in units that
    are no smaller than `10 ^ (-19)`. -/
theorem digits_fit {n : ℕ} (hexp : -19 ≤ step.exp) (hlt : (n : ℚ) * 10 ^ step.exp < 10 ^ (19 : ℤ)) :
    n < 10 ^ decimalPrec := by
  have hlast : (10 : ℚ) ^ (-19 : ℤ) ≤ 10 ^ step.exp :=
    zpow_le_zpow_right₀ (by norm_num) hexp
  have hscaled := (mul_le_mul_of_nonneg_left hlast (Nat.cast_nonneg n)).trans_lt hlt
  have hsplit : (10 : ℚ) ^ (19 : ℤ) = 10 ^ 38 * 10 ^ (-19 : ℤ) := by norm_num
  rw [hsplit] at hscaled
  have hcount : (n : ℚ) < 10 ^ 38 := lt_of_mul_lt_mul_right hscaled (FloatDec.ten_zpow_pos _).le
  exact_mod_cast hcount

/-- **The number that is written**: the digits of the step, so many times as the quotient says. -/
theorem floorQty_eq {a b : ℕ} (hx : x.size = a / 10 ^ 18) (hs : step.size = b / 10 ^ 18)
    (ha : a < 10 ^ 37) (hb : 0 < b) (hneg : step.neg = false) (hexp : -19 ≤ step.exp) :
    floorQty x step = .ok ⟨x.neg, a / b * step.coeff, step.exp⟩ := by
  have hstep : 0 < step.size := by
    rw [hs]
    positivity
  have hvalue : ¬step.value ≤ 0 := by
    rw [FloatDec.value, hneg]
    simpa using hstep
  have hcoeff : step.coeff ≠ 0 := by
    intro h0
    rw [FloatDec.size, h0] at hstep
    simp at hstep
  have hquotient : x.size / step.size = (a : ℚ) / b := by
    rw [hx, hs]
    field_simp
  have hfloor : ⌊(a : ℚ) / b⌋ = ((a / b : ℕ) : ℤ) := by
    rw [Int.floor_div_natCast, Int.floor_natCast]
    rfl
  rw [floorQty, quantizeStep, if_neg hvalue, FloatDec.divide, if_neg hcoeff, hquotient]
  show Except.mapError _
    (FloatDec.rescale _ (FloatDec.multiply _ (FloatDec.toIntegral _ _) _) _) = _
  -- the quotient, its whole part, and the product with the step
  generalize hq : FloatDec.finish decimalPrec (xor x.neg step.neg) ((a : ℚ) / b)
    (x.exp - step.exp) = q
  have hqneg : q.neg = x.neg := by
    rw [← hq, FloatDec.finish_neg, hneg, Bool.xor_false]
  generalize hn : q.toIntegral .down = n
  have hnneg : n.neg = x.neg := by
    rw [← hn, FloatDec.toIntegral_neg, hqneg]
  have hnsize : n.size = ((a / b : ℕ) : ℚ) := by
    rw [← hn, toIntegral_size, ← hq, quotient_floor ha hb, hfloor]
    exact Int.cast_natCast _
  have hproduct : n.size * step.size = ((a / b * b : ℕ) : ℚ) * 10 ^ (-18 : ℤ) := by
    rw [hnsize, hs]
    push_cast
    rw [zpow_neg]
    norm_num
    ring
  have hbound : a / b * b ≤ a := Nat.div_mul_le_self a b
  have hsize : (FloatDec.multiply decimalPrec n step).size = n.size * step.size := by
    rw [FloatDec.multiply, hproduct]
    apply FloatDec.finish_exact (by decide)
    have : (10 : ℕ) ^ 37 < 10 ^ decimalPrec := by decide
    omega
  have hmneg : (FloatDec.multiply decimalPrec n step).neg = x.neg := by
    rw [FloatDec.multiply, FloatDec.finish_neg, hnneg, hneg, Bool.xor_false]
  have hdigits : n.size * step.size / 10 ^ step.exp = ((a / b * step.coeff : ℕ) : ℤ) := by
    rw [hnsize, FloatDec.size, ← mul_assoc, mul_div_cancel_right₀ _ (FloatDec.ten_zpow_pos _).ne']
    push_cast
    rfl
  have hfits : a / b * step.coeff < 10 ^ decimalPrec := by
    apply digits_fit hexp
    have hwritten : ((a / b * step.coeff : ℕ) : ℚ) * 10 ^ step.exp = n.size * step.size := by
      rw [hnsize, FloatDec.size]
      push_cast
      ring
    have hlt : ((a / b * b : ℕ) : ℚ) < 10 ^ 37 := by exact_mod_cast hbound.trans_lt ha
    rw [hwritten, hproduct]
    calc ((a / b * b : ℕ) : ℚ) * 10 ^ (-18 : ℤ) < 10 ^ 37 * 10 ^ (-18 : ℤ) :=
          mul_lt_mul_of_pos_right hlt (FloatDec.ten_zpow_pos _)
      _ = 10 ^ (19 : ℤ) := by norm_num
  rw [FloatDec.rescale, hsize, hdigits, Rounding.toInt_intCast, Int.toNat_natCast,
    if_neg (not_le.mpr hfits), hmneg]
  rfl

/-- A number with eighteen decimals, in units of the last of them. -/
theorem exists_units (h : IsMultiple (1 / 10 ^ 18) x.value) (h0 : 0 ≤ x.value) :
    ∃ a : ℕ, x.size = a / 10 ^ 18 := by
  obtain ⟨n, hn⟩ := h
  have hsize := size_of_nonneg h0
  have hn0 : 0 ≤ n := by
    rw [hn] at h0
    have : (0 : ℚ) ≤ n := by linarith
    exact_mod_cast this
  obtain ⟨a, rfl⟩ := Int.eq_ofNat_of_zero_le hn0
  refine ⟨a, ?_⟩
  rw [hsize, hn]
  push_cast
  ring

end Written

/-! ### Flooring -/

/-- **The quantity exactly**: where 38 digits hold the quotient, the context floors as exact
    arithmetic does. -/
theorem floor_qty_exact (x step : FloatDec) (hx : IsMultiple (1 / 10 ^ 18) x.value)
    (hs : IsMultiple (1 / 10 ^ 18) step.value) (hx0 : 0 ≤ x.value) (hs0 : 0 < step.value)
    (hlt : x.value < 10 ^ 19) (hexp : -19 ≤ step.exp) :
    ∃ y, Written.floorQty x step = .ok y ∧ y.value = ⌊x.value / step.value⌋ * step.value ∧
      y.value = floorQty x.value ⟨step.value, hs0⟩ ∧ y.value ≤ x.value ∧
      Written.floorQty y step = .ok y := by
  obtain ⟨a, ha⟩ := Written.exists_units hx hx0
  obtain ⟨b, hb⟩ := Written.exists_units hs hs0.le
  have hstep := Written.size_of_nonneg hs0.le
  have hneg := Written.neg_of_pos hs0
  have hb0 : 0 < b := by
    rw [← hstep, hb] at hs0
    have : (0 : ℚ) < b := by linarith
    exact_mod_cast this
  have ha37 : a < 10 ^ 37 := by
    rw [← Written.size_of_nonneg hx0, ha] at hlt
    have : (a : ℚ) < 10 ^ 37 := by linarith
    exact_mod_cast this
  have hquotient : x.value / step.value = (a : ℚ) / b := by
    rw [← hstep, ← Written.size_of_nonneg hx0, ha, hb]
    field_simp
  have hfloor : ⌊x.value / step.value⌋ = ((a / b : ℕ) : ℤ) := by
    rw [hquotient, Int.floor_div_natCast, Int.floor_natCast]
    rfl
  have hsize : (⟨x.neg, a / b * step.coeff, step.exp⟩ : FloatDec).size =
      ((a / b : ℕ) : ℚ) * step.size := by
    simp only [FloatDec.size]
    push_cast
    ring
  have hvalue : (⟨x.neg, a / b * step.coeff, step.exp⟩ : FloatDec).value =
      ⌊x.value / step.value⌋ * step.value := by
    rw [hfloor, Int.cast_natCast, ← hstep, ← hsize]
    cases hsign : x.neg with
    | false => rfl
    | true =>
      -- only a zero is written with a sign here
      have hzero : x.size = 0 := by
        have hx1 := Written.size_of_nonneg hx0
        rw [FloatDec.value, hsign] at hx1
        simp only [if_true] at hx1
        linarith
      have ha0 : a = 0 := by
        rw [ha] at hzero
        have : (a : ℚ) = 0 := by linarith
        exact_mod_cast this
      simp [FloatDec.value, FloatDec.size, ha0]
  have hexact := quantize_down_eq hs0 hx0
  refine ⟨_, Written.floorQty_eq ha hb ha37 hb0 hneg hexp, hvalue, ?_, ?_, ?_⟩
  · rw [hvalue]
    exact hexact.symm
  · rw [hvalue, ← hexact]
    exact quantize_down_le hs0 hx0
  · have hunits : (⟨x.neg, a / b * step.coeff, step.exp⟩ : FloatDec).size =
        ((a / b * b : ℕ) : ℚ) / 10 ^ 18 := by
      rw [hsize, hb]
      push_cast
      ring
    have hle : a / b * b < 10 ^ 37 := (Nat.div_mul_le_self a b).trans_lt ha37
    have hagain := Written.floorQty_eq hunits hb hle hb0 hneg hexp
    rwa [Nat.mul_div_cancel _ hb0] at hagain

/-- One step less than three, where the quotient has no end. -/
theorem floor_qty_exact_sample : Written.floorQty ⟨false, 8, 0⟩ ⟨false, 3, 0⟩ =
      .ok ⟨false, 6, 0⟩ ∧
    ∃ y, Written.floorQty ⟨false, 8, 0⟩ ⟨false, 3, 0⟩ = .ok y ∧
      y.value ≤ (⟨false, 8, 0⟩ : FloatDec).value := by
  have hx : (⟨false, 8, 0⟩ : FloatDec).value = 8 := by simp [FloatDec.value, FloatDec.size]
  have hs : (⟨false, 3, 0⟩ : FloatDec).value = 3 := by simp [FloatDec.value, FloatDec.size]
  obtain ⟨y, hy, -, -, hle, -⟩ := floor_qty_exact ⟨false, 8, 0⟩ ⟨false, 3, 0⟩
    ⟨8 * 10 ^ 18, by rw [hx]; norm_num⟩ ⟨3 * 10 ^ 18, by rw [hs]; norm_num⟩
    (by rw [hx]; norm_num) (by rw [hs]; norm_num) (by rw [hx]; norm_num) (by decide)
  exact ⟨by decide +kernel, y, hy, hle⟩

/-- **Too many zeros.**  A step of one tenth, written with 22 digits after the point, leaves no
    room for a quantity of `10 ^ 18`. -/
theorem long_step_raises : ¬∀ x step : FloatDec, IsMultiple (1 / 10 ^ 18) x.value →
    IsMultiple (1 / 10 ^ 18) step.value → 0 ≤ x.value → 0 < step.value → x.value < 10 ^ 19 →
      ∃ y, Written.floorQty x step = .ok y := by
  intro h
  have hx : (⟨false, 1, 18⟩ : FloatDec).value = 10 ^ 18 := by
    simp only [FloatDec.value, FloatDec.size]
    norm_num
  have hs : (⟨false, 10 ^ 21, -22⟩ : FloatDec).value = 1 / 10 := by
    simp only [FloatDec.value, FloatDec.size]
    norm_num
  obtain ⟨y, hy⟩ := h ⟨false, 1, 18⟩ ⟨false, 10 ^ 21, -22⟩
    ⟨10 ^ 36, by rw [hx]; norm_num⟩ ⟨10 ^ 17, by rw [hs]; norm_num⟩
    (by rw [hx]; norm_num) (by rw [hs]; norm_num) (by rw [hx]; norm_num)
  have hraises : Written.floorQty ⟨false, 1, 18⟩ ⟨false, 10 ^ 21, -22⟩ =
      .error (.signal .invalidOperation) := by decide +kernel
  rw [hraises] at hy
  cases hy

end FuzzHelm
