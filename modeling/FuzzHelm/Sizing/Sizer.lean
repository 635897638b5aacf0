import FuzzHelm.Core.Money
import FuzzHelm.Lib.Run
import FuzzHelm.Risk.Config

namespace FuzzHelm

open Lib

/-!
# Position sizing

The minimum of three bounds, scaled by the risk mode and rounded down to the lot.  The
floating-point domain of the program is exact here; a value that may be undefined on the
warm-up, such as the ATR, is an option.

* `qAtr`, `stopDistance` — the risk of the stop;
* `PositionSizer.size` — the three bounds, the binding one, and the quantity;
* `size_eq_ok` — the quantity is a whole number of lots, within every bound, and large enough;
* `size_le_floored` — it is at most the floored bound.
-/

/-- `stop_distance`: so many true ranges, where there is one. -/
def stopDistance (atr : Option ℚ) (chi : ℚ) : Option ℚ := atr.map fun a => chi * a

/-- `q_atr`: an unknown risk gives no size. -/
def qAtr (uFinal equity : ℚ) (atr : Option ℚ) (rhoBase chi : ℚ) : Except PyError ℚ :=
  match atr with
  | none => .ok 0
  | some a =>
    if a ≤ 0 ∨ equity ≤ 0 then .ok 0
    else if rhoBase ≤ 0 ∨ chi ≤ 0 then .error (.valueError "rho_base and chi must be > 0")
    else .ok (rhoBase * |uFinal| * equity / (chi * a))

/-- `BindingConstraint`: which bound decides the size. -/
inductive BindingConstraint where
  | atrRisk
  | volTarget
  | leverage
  deriving DecidableEq, Repr

/-- `SizingInput`: the intent, the prices, the account and the volatility. -/
structure SizingInput where
  uFinal : ℚ
  equity : Decimal
  price : Decimal
  atr : Option ℚ
  sT : ℚ
  kappaMode : ℚ
  stepSize : PosDec
  minNotional : Decimal
  grossNotional : Decimal

/-- `SizingResult`: the target, the stop, and which bound decided. -/
structure SizingResult where
  qty : Decimal
  side : Side
  bindingConstraint : BindingConstraint
  qAtr : ℚ
  qVt : ℚ
  qLev : ℚ
  sT : ℚ
  kappaMode : ℚ
  rejectCode : Option RejectCode
  qRaw : ℚ
  notional : Decimal
  stopDistance : Option ℚ
  deriving DecidableEq

/-- The smallest of the three bounds and its name; on a tie the first in the order. -/
def bindingBound (qa qv ql : ℚ) : ℚ × BindingConstraint :=
  let m : ℚ × BindingConstraint := if qv < qa then (qv, .volTarget) else (qa, .atrRisk)
  if ql < m.1 then (ql, .leverage) else m

/-- The quantity on the lot grid; without a side or with a zero multiplier there is none. -/
def flooredQty (qRaw kappaMode : ℚ) (side : Side) (step : PosDec) : Decimal :=
  if kappaMode = 0 ∨ side = .flat then 0 else floorQty qRaw step

/-- The quantity is too small to be sent. -/
def tooSmall (qty price minNotional : Decimal) : Bool :=
  decide (qty ≤ 0 ∨ qty * price < minNotional)

/-- A quantity that is too small is given up, not rounded up. -/
def acceptedQty (qty price minNotional : Decimal) : Decimal :=
  if tooSmall qty price minNotional then 0 else qty

/-- `PositionSizer.size`: the smallest of three bounds, scaled and rounded down to the lot. -/
def PositionSizer.size (prm : SizingCfg) (inp : SizingInput) : Except PyError SizingResult :=
  if ¬(-1 ≤ inp.uFinal ∧ inp.uFinal ≤ 1) then .error (.valueError "u_final must be in [-1, 1]")
  else if ¬(0 ≤ inp.kappaMode ∧ inp.kappaMode ≤ 1) then
    .error (.valueError "kappa_mode must be in [0, 1]")
  else if inp.price ≤ 0 then .error (.valueError "price must be > 0")
  else do
    let qa ← qAtr inp.uFinal inp.equity inp.atr prm.rhoBase prm.chiAtr
    let qv := if 0 < inp.equity then max 0 (inp.sT * inp.equity / inp.price) else 0
    let ql := max 0 ((inp.equity * prm.maxLeverage - inp.grossNotional) / inp.price)
    let bound := bindingBound qa qv ql
    let qRaw := inp.kappaMode * bound.1
    let side := Side.ofInt (sign inp.uFinal)
    let floored := flooredQty qRaw inp.kappaMode side inp.stepSize
    let small := tooSmall floored inp.price inp.minNotional
    let qty := acceptedQty floored inp.price inp.minNotional
    return {
      qty := qty
      side := side
      bindingConstraint := bound.2
      qAtr := qa
      qVt := qv
      qLev := ql
      sT := inp.sT
      kappaMode := inp.kappaMode
      rejectCode :=
        if inp.kappaMode = 0 then some .halted
        else if side ≠ .flat ∧ small then
          some (if 0 < inp.minNotional then .belowMinNotional else .zeroQty)
        else none
      qRaw := qRaw
      notional := qty * inp.price
      stopDistance := stopDistance inp.atr prm.chiAtr }

/-- A floored quantity is a whole number of lots, and a positive one was rounded down. -/
theorem flooredQty_spec (qRaw kappaMode : ℚ) (side : Side) (step : PosDec) :
    IsMultiple step.1 (flooredQty qRaw kappaMode side step) ∧
      (0 < flooredQty qRaw kappaMode side step →
        flooredQty qRaw kappaMode side step ≤ qRaw) := by
  unfold flooredQty
  split
  · exact ⟨.zero _, fun h => absurd h (lt_irrefl 0)⟩
  · refine ⟨quantize_isMultiple _ _ _, fun hpos => ?_⟩
    rcases le_or_gt 0 qRaw with h0 | hneg
    · exact quantize_down_le step.2 h0
    · -- a negative value is never rounded up past zero
      have hceil : ⌈qRaw / step.1⌉ ≤ 0 :=
        Int.ceil_le.mpr (by simpa using (div_neg_of_neg_of_pos hneg step.2).le)
      rw [floorQty, quantize, Rounding.toInt,
        if_neg (not_le.mpr (div_neg_of_neg_of_pos hneg step.2))] at hpos
      have hle : (⌈qRaw / step.1⌉ : ℚ) * step.1 ≤ 0 :=
        mul_nonpos_of_nonpos_of_nonneg (by exact_mod_cast hceil) step.2.le
      exact absurd hpos (not_lt.mpr hle)

/-- What is accepted is a whole number of lots, rounded down and large enough. -/
theorem acceptedQty_spec (qRaw kappaMode price minNotional : ℚ) (side : Side) (step : PosDec) :
    let qty := acceptedQty (flooredQty qRaw kappaMode side step) price minNotional
    0 ≤ qty ∧ IsMultiple step.1 qty ∧ (0 < qty → qty ≤ qRaw) ∧
      (0 < qty → minNotional ≤ qty * price) := by
  obtain ⟨hmul, hle⟩ := flooredQty_spec qRaw kappaMode side step
  simp only [acceptedQty]
  split
  · exact ⟨le_rfl, .zero _, fun h => absurd h (lt_irrefl _), fun h => absurd h (lt_irrefl _)⟩
  · rename_i hsmall
    rw [tooSmall, decide_eq_true_iff, not_or, not_le, not_lt] at hsmall
    exact ⟨hsmall.1.le, hmul, hle, fun _ => hsmall.2⟩

/-- **What a size is.**  The quantity is a non-negative whole number of lots, at most the
    scaled bound; a positive one is worth at least the minimal notional; the stop distance is
    that of the ATR. -/
theorem PositionSizer.size_eq_ok {prm : SizingCfg} {inp : SizingInput} {res : SizingResult}
    (h : PositionSizer.size prm inp = .ok res) :
    0 ≤ res.qty ∧ IsMultiple inp.stepSize.1 res.qty ∧ (0 < res.qty → res.qty ≤ res.qRaw) ∧
      (0 < res.qty → inp.minNotional ≤ res.qty * inp.price) ∧ 0 < inp.price ∧
      res.stopDistance = stopDistance inp.atr prm.chiAtr := by
  unfold size at h
  split at h
  · cases h
  · split at h
    · cases h
    · split at h
      · cases h
      · rename_i hprice
        obtain ⟨qa, -, h⟩ := bind_eq_ok.mp h
        cases h
        obtain ⟨h0, hmul, hle, hmin⟩ := acceptedQty_spec
          (inp.kappaMode * (bindingBound qa
            (if 0 < inp.equity then max 0 (inp.sT * inp.equity / inp.price) else 0)
            (max 0 ((inp.equity * prm.maxLeverage - inp.grossNotional) / inp.price))).1)
          inp.kappaMode inp.price inp.minNotional (Side.ofInt (sign inp.uFinal)) inp.stepSize
        exact ⟨h0, hmul, hle, hmin, not_le.mp hprice, rfl⟩

/-- The bound that decides is the smallest. -/
theorem bindingBound_eq (qa qv ql : ℚ) : (bindingBound qa qv ql).1 = min (min qa qv) ql := by
  unfold bindingBound
  rcases lt_or_ge qv qa with h | h
  · rw [if_pos h, min_eq_right h.le]
    rcases lt_or_ge ql qv with h' | h'
    · rw [if_pos h', min_eq_right h'.le]
    · rw [if_neg (not_lt.mpr h'), min_eq_left h']
  · rw [if_neg (not_lt.mpr h), min_eq_left h]
    rcases lt_or_ge ql qa with h' | h'
    · rw [if_pos h', min_eq_right h'.le]
    · rw [if_neg (not_lt.mpr h'), min_eq_left h']

/-- The risk of the stop gives no negative size. -/
theorem qAtr_nonneg {u equity rhoBase chi q : ℚ} {atr : Option ℚ}
    (h : qAtr u equity atr rhoBase chi = .ok q) : 0 ≤ q := by
  unfold qAtr at h
  split at h
  · cases h
    exact le_rfl
  · split at h
    · cases h
      exact le_rfl
    · rename_i hpos
      split at h
      · cases h
      · rename_i hcfg
        cases h
        rw [not_or, not_le, not_le] at hpos hcfg
        have hnum : 0 ≤ rhoBase * |u| * equity :=
          mul_nonneg (mul_nonneg hcfg.1.le (abs_nonneg u)) hpos.2.le
        exact div_nonneg hnum (mul_pos hcfg.2 hpos.1).le

/-- What is given up is zero, and a floored bound is not negative. -/
theorem acceptedQty_le_floor {qRaw : ℚ} (h : 0 ≤ qRaw) (kappaMode price minNotional : ℚ)
    (side : Side) (step : PosDec) :
    acceptedQty (flooredQty qRaw kappaMode side step) price minNotional ≤ floorQty qRaw step := by
  have hfloor : 0 ≤ floorQty qRaw step := quantize_down_nonneg step.2 h
  unfold acceptedQty flooredQty
  split
  · exact hfloor
  · split
    · exact hfloor
    · exact le_rfl

/-- **A size is at most the floored bound**: the smallest of the three bounds, scaled by the
    risk mode and rounded down to the lot. -/
theorem PositionSizer.size_le_floored {prm : SizingCfg} {inp : SizingInput} {res : SizingResult}
    (h : PositionSizer.size prm inp = .ok res) :
    res.qty ≤ floorQty (inp.kappaMode * min (min res.qAtr res.qVt) res.qLev) inp.stepSize := by
  unfold size at h
  split at h
  · cases h
  · split at h
    · cases h
    · rename_i hkappa
      split at h
      · cases h
      · obtain ⟨qa, hqa, h⟩ := bind_eq_ok.mp h
        cases h
        dsimp only
        rw [bindingBound_eq]
        refine acceptedQty_le_floor (mul_nonneg (not_not.mp hkappa).1 ?_) _ _ _ _ _
        refine le_min (le_min (qAtr_nonneg hqa) ?_) (le_max_left _ _)
        split
        · exact le_max_left _ _
        · exact le_rfl

end FuzzHelm
