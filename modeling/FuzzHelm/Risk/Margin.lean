import FuzzHelm.Core.Money
import Mathlib.Tactic.Linarith

namespace FuzzHelm

open Lib

/-!
# Margin algebra

The liquidation price derived from `Equity = MM`, the distance to it in ATRs, and the size
at which that distance is exactly the required one.

* `sideLiqPrice_eq_ok` / `signedDtlAtr_eq_ok` — the values of the two fallible formulas;
* `dtlOf` — the signed distance as one expression in the size;
* `dtlOf_ge_of_le_cap` — every size up to `max_qty_for_dtl` keeps the required distance;
* `dtlOf_antitone` — a smaller position is further from its liquidation.
-/

/-! ### The formulas -/

/-- `liq_price_long`: where the equity of a long position meets its maintenance. -/
def liqPriceLong (q entry wallet mmr maintAmount : Decimal) : Except PyError Decimal :=
  if q ≤ 0 then .error (.valueError "long quantity must be > 0")
  else divE (q * entry - wallet - maintAmount) (q * (1 - mmr))

/-- `liq_price_short`; `q` is the size of the short. -/
def liqPriceShort (q entry wallet mmr maintAmount : Decimal) : Except PyError Decimal :=
  if q ≤ 0 then .error (.valueError "short quantity (absolute) must be > 0")
  else divE (wallet + q * entry + maintAmount) (q * (1 + mmr))

/-- `liq_price`: the one formula for a signed position. -/
def liqPrice (qSigned entry wallet mmr maintAmount : Decimal) : Except PyError Decimal :=
  if qSigned = 0 then
    .error (.valueError "no position: liquidation price undefined for q = 0")
  else divE (qSigned * entry - wallet - maintAmount) (qSigned - |qSigned| * mmr)

/-- `side_liq_price`: the formula of the side. -/
def sideLiqPrice (side : Side) (qAbs entry wallet mmr maintAmount : Decimal) :
    Except PyError Decimal :=
  match side with
  | .long => liqPriceLong qAbs entry wallet mmr maintAmount
  | .short => liqPriceShort qAbs entry wallet mmr maintAmount
  | .flat => .error (.valueError "FLAT position has no liquidation price")

/-- `signed_dtl_atr`: negative when the price is already beyond the liquidation price. -/
def signedDtlAtr (side : Side) (price liq atr : Decimal) : Except PyError Decimal :=
  if atr ≤ 0 then .error (.valueError "ATR must be > 0")
  else match side with
  | .long => .ok ((price - liq) / atr)
  | .short => .ok ((liq - price) / atr)
  | .flat => .error (.valueError "FLAT position has no liquidation distance")

/-- `reduced_max_leverage`: the leverage at which the stop fires before the liquidation. -/
def reducedMaxLeverage (stopDistance entry mmr b : Decimal) : Except PyError Decimal :=
  if ¬ (0 ≤ b ∧ b < 1) then .error (.valueError "buffer b must be in [0, 1)")
  else if entry ≤ 0 then .error (.valueError "entry price must be > 0")
  else divE 1 (stopDistance / (entry * (1 - b)) + mmr)

/-- `max_qty_for_dtl`: the size at which the distance is exactly `minDtl`. -/
def maxQtyForDtl (side : Side) (wallet price atr minDtl mmr maintAmount : Decimal) :
    Except PyError Decimal :=
  if side = .flat then .error (.valueError "side must be LONG or SHORT")
  else if wallet + maintAmount ≤ 0 then .ok 0
  else
    let sgn := if side = .long then 1 - mmr else 1 + mmr
    divE (wallet + maintAmount) (price * mmr + minDtl * atr * sgn)

/-! ### The distance as a function of the size -/

/-- The factor `1 ∓ mmr` of a side. -/
def sideFactor (side : Side) (mmr : Decimal) : Decimal :=
  if side = .long then 1 - mmr else 1 + mmr

/-- The signed distance to liquidation of a fresh position of size `q`, in ATRs. -/
def dtlOf (side : Side) (q price wallet atr mmr maintAmount : Decimal) : Decimal :=
  (wallet + maintAmount - q * price * mmr) / (q * sideFactor side mmr) / atr

/-- The factor of a side is positive where the rate of the maintenance is below 1. -/
theorem sideFactor_pos (side : Side) {mmr : Decimal} (h0 : 0 ≤ mmr) (h1 : mmr < 1) :
    0 < sideFactor side mmr := by
  unfold sideFactor
  split
  · exact sub_pos.mpr h1
  · exact add_pos_of_pos_of_nonneg one_pos h0

/-- The liquidation price of a fresh position, entered at the current price. -/
theorem sideLiqPrice_eq_ok {side : Side} {q price wallet mmr ma liq : Decimal}
    (h : sideLiqPrice side q price wallet mmr ma = .ok liq) :
    0 < q ∧ ((side = .long ∧ q * (1 - mmr) ≠ 0 ∧
          liq = (q * price - wallet - ma) / (q * (1 - mmr))) ∨
      (side = .short ∧ q * (1 + mmr) ≠ 0 ∧
          liq = (wallet + q * price + ma) / (q * (1 + mmr)))) := by
  -- long and short, each with its own denominator
  cases side with
  | flat => cases h
  | long =>
    simp only [sideLiqPrice, liqPriceLong] at h
    split at h
    · cases h
    · rename_i hq
      obtain ⟨hne, hval⟩ := divE_eq_ok.mp h
      exact ⟨not_le.mp hq, .inl ⟨rfl, hne, hval.symm⟩⟩
  | short =>
    simp only [sideLiqPrice, liqPriceShort] at h
    split at h
    · cases h
    · rename_i hq
      obtain ⟨hne, hval⟩ := divE_eq_ok.mp h
      exact ⟨not_le.mp hq, .inr ⟨rfl, hne, hval.symm⟩⟩

/-- A position on either side has a liquidation price. -/
theorem sideLiqPrice_isOk {side : Side} (hside : side ≠ .flat) {q mmr : Decimal}
    (price wallet ma : Decimal) (h0 : 0 ≤ mmr) (h1 : mmr < 1) (hq : 0 < q) :
    ∃ liq, sideLiqPrice side q price wallet mmr ma = .ok liq := by
  cases side with
  | flat => exact absurd rfl hside
  | long =>
    have hne : q * (1 - mmr) ≠ 0 := (mul_pos hq (sub_pos.mpr h1)).ne'
    rw [sideLiqPrice, liqPriceLong, if_neg (not_le.mpr hq), divE, if_neg hne]
    exact ⟨_, rfl⟩
  | short =>
    have hne : q * (1 + mmr) ≠ 0 := (mul_pos hq (add_pos_of_pos_of_nonneg one_pos h0)).ne'
    rw [sideLiqPrice, liqPriceShort, if_neg (not_le.mpr hq), divE, if_neg hne]
    exact ⟨_, rfl⟩

/-- The distance in ranges is there for a side and a positive range. -/
theorem signedDtlAtr_isOk {side : Side} (hside : side ≠ .flat) (price liq : Decimal)
    {atr : Decimal} (hatr : 0 < atr) : ∃ d, signedDtlAtr side price liq atr = .ok d := by
  cases side with
  | flat => exact absurd rfl hside
  | long => exact ⟨_, if_neg (not_le.mpr hatr)⟩
  | short => exact ⟨_, if_neg (not_le.mpr hatr)⟩

/-- On both sides the signed distance is `dtlOf`. -/
theorem signedDtlAtr_eq_dtlOf {side : Side} {q price wallet atr mmr ma liq d : Decimal}
    (hliq : sideLiqPrice side q price wallet mmr ma = .ok liq)
    (hd : signedDtlAtr side price liq atr = .ok d) :
    0 < atr ∧ d = dtlOf side q price wallet atr mmr ma := by
  obtain ⟨hq, hside⟩ := sideLiqPrice_eq_ok hliq
  unfold signedDtlAtr at hd
  split at hd
  · cases hd
  · rename_i hatr
    refine ⟨not_le.mp hatr, ?_⟩
    -- the distance from the price, in the direction of the position
    rcases hside with ⟨rfl, hne, rfl⟩ | ⟨rfl, hne, rfl⟩
    · cases hd
      simp only [dtlOf, sideFactor, if_true]
      congr 1
      rw [eq_div_iff hne, sub_mul, div_mul_cancel₀ _ hne]
      ring
    · cases hd
      simp only [dtlOf, sideFactor]
      rw [if_neg (by decide)]
      congr 1
      rw [eq_div_iff hne, sub_mul, div_mul_cancel₀ _ hne]
      ring

/-- **A smaller position is further from its liquidation.** -/
theorem dtlOf_antitone (side : Side) {q q' price wallet atr mmr ma : Decimal} (h0 : 0 ≤ mmr)
    (h1 : mmr < 1) (hatr : 0 < atr) (hA : 0 ≤ wallet + ma) (hq : 0 < q) (hqq : q ≤ q') :
    dtlOf side q' price wallet atr mmr ma ≤ dtlOf side q price wallet atr mmr ma := by
  have hs := sideFactor_pos side h0 h1
  have hq' : 0 < q' := hq.trans_le hqq
  unfold dtlOf
  refine div_le_div_of_nonneg_right ?_ hatr.le
  rw [div_le_div_iff₀ (mul_pos hq' hs) (mul_pos hq hs)]
  -- cross-multiplied, only the term in the wallet depends on which size is larger
  have hdiff : (wallet + ma - q * price * mmr) * (q' * sideFactor side mmr) -
      (wallet + ma - q' * price * mmr) * (q * sideFactor side mmr) =
        (wallet + ma) * (q' - q) * sideFactor side mmr := by ring
  have hnonneg : 0 ≤ (wallet + ma) * (q' - q) * sideFactor side mmr :=
    mul_nonneg (mul_nonneg hA (sub_nonneg.mpr hqq)) hs.le
  linarith

/-- **The cap keeps the distance.** Every size up to `max_qty_for_dtl` is at least `minDtl`
    ATRs from its liquidation. -/
theorem dtlOf_ge_of_le_cap {side : Side} {q price wallet atr minDtl mmr ma cap : Decimal}
    (h0 : 0 ≤ mmr) (h1 : mmr < 1) (hatr : 0 < atr) (hprice : 0 < price) (hdtl : 0 < minDtl)
    (hcap : maxQtyForDtl side wallet price atr minDtl mmr ma = .ok cap) (hq : 0 < q)
    (hle : q ≤ cap) : minDtl ≤ dtlOf side q price wallet atr mmr ma := by
  have hs := sideFactor_pos side h0 h1
  simp only [maxQtyForDtl] at hcap
  split at hcap
  · cases hcap
  · split at hcap
    · cases hcap
      exact absurd hq (not_lt.mpr hle)
    · rename_i hA
      obtain ⟨-, hval⟩ := divE_eq_ok.mp hcap
      change (wallet + ma) / (price * mmr + minDtl * atr * sideFactor side mmr) = cap at hval
      have hden : 0 < price * mmr + minDtl * atr * sideFactor side mmr :=
        add_pos_of_nonneg_of_pos (mul_nonneg hprice.le h0) (mul_pos (mul_pos hdtl hatr) hs)
      rw [← hval, le_div_iff₀ hden] at hle
      unfold dtlOf
      rw [le_div_iff₀ hatr, le_div_iff₀ (mul_pos hq hs)]
      linarith [hle]

/-- The liquidation price of a long falls with its size. -/
theorem liqPriceLong_mono {q q' price wallet mmr ma : Decimal} (h1 : mmr < 1)
    (hA : 0 ≤ wallet + ma) (hq : 0 < q) (hqq : q ≤ q')
    (hle : (q' * price - wallet - ma) / (q' * (1 - mmr)) ≤ 0) :
    (q * price - wallet - ma) / (q * (1 - mmr)) ≤ 0 := by
  have hs : 0 < 1 - mmr := sub_pos.mpr h1
  have hq' : 0 < q' := hq.trans_le hqq
  rw [div_le_iff₀ (mul_pos hq' hs), zero_mul] at hle
  rw [div_le_iff₀ (mul_pos hq hs), zero_mul]
  rcases le_total 0 price with hp | hp
  · have hmul : q * price ≤ q' * price := mul_le_mul_of_nonneg_right hqq hp
    linarith
  · have hmul : q * price ≤ 0 := mul_nonpos_of_nonneg_of_nonpos hq.le hp
    linarith

end FuzzHelm
