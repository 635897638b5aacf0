import FuzzHelm.Execution.Portfolio
import FuzzHelm.Risk.Margin

namespace FuzzHelm

open Lib

/-!
# The margin formulas agree

The guard, the engine and the broker each use their own form of one condition,
`Equity = MM`.

* `positionEquity` / `maintenanceMargin` — the two sides of the condition;
* `liqPrice_spec` — the signed formula has a value, and there the two sides meet;
* `liqPrice_long` / `liqPrice_short` — on each side it is the formula of that side;
* `liqPrice_current` — entry and wallet may be exchanged for the current price and equity;
* `Portfolio.liqPrice_equity` — so the engine and the guard speak of one price;
* `le_cap_iff` — `max_qty_for_dtl` is the threshold of the distance.
-/

/-- `position_equity`: the wallet and what the position would bring. -/
def positionEquity (qSigned entry price wallet : Decimal) : Decimal :=
  wallet + qSigned * (price - entry)

/-- `maintenance_margin`: a share of the value, less the amount that is forgiven. -/
def maintenanceMargin (qSigned price mmr maintAmount : Decimal) : Decimal :=
  |qSigned| * price * mmr - maintAmount

/-- `signed_dtl_atr` of a fresh position of size `q`: entered at the current price, with the
    whole wallet behind it. -/
def freshDtlAtr (side : Side) (q price wallet atr mmr maintAmount : Decimal) :
    Except PyError Decimal := do
  let liq ← sideLiqPrice side q price wallet mmr maintAmount
  signedDtlAtr side price liq atr

/-! ### The price at which equity meets the maintenance margin -/

section LiqPrice

variable {q entry price wallet mmr ma : Decimal}

/-- The denominator of the signed formula: a rate below one leaves it the sign of the size. -/
theorem sub_abs_mul_ne_zero (hq : q ≠ 0) (h0 : 0 ≤ mmr) (h1 : mmr < 1) : q - |q| * mmr ≠ 0 := by
  intro h
  have habs : |q| = |q| * mmr := by
    calc |q| = |(|q| * mmr)| := by rw [← sub_eq_zero.mp h]
      _ = |q| * mmr := by rw [abs_mul, abs_abs, abs_of_nonneg h0]
  have hlt : |q| * mmr < |q| * 1 := mul_lt_mul_of_pos_left h1 (abs_pos.mpr hq)
  linarith

/-- The price of the liquidation of a position that is not flat. -/
theorem liqPrice_eq (hq : q ≠ 0) (h0 : 0 ≤ mmr) (h1 : mmr < 1) (entry wallet ma : Decimal) :
    liqPrice q entry wallet mmr ma = .ok ((q * entry - wallet - ma) / (q - |q| * mmr)) := by
  rw [liqPrice, if_neg hq, divE, if_neg (sub_abs_mul_ne_zero hq h0 h1)]

/-- **Equity meets the maintenance margin** at the liquidation price. -/
theorem liqPrice_spec (hq : q ≠ 0) (h0 : 0 ≤ mmr) (h1 : mmr < 1) {p : Decimal}
    (h : liqPrice q entry wallet mmr ma = .ok p) :
    positionEquity q entry p wallet = maintenanceMargin q p mmr ma := by
  rw [liqPrice_eq hq h0 h1, Except.ok.injEq, div_eq_iff (sub_abs_mul_ne_zero hq h0 h1)] at h
  unfold positionEquity maintenanceMargin
  linarith

/-- For a long position it is the one of the long formula. -/
theorem liqPrice_long (hq : 0 < q) (h0 : 0 ≤ mmr) (h1 : mmr < 1) :
    liqPriceLong q entry wallet mmr ma = liqPrice q entry wallet mmr ma := by
  have hden : q * (1 - mmr) ≠ 0 := (mul_pos hq (sub_pos.mpr h1)).ne'
  rw [liqPrice_eq hq.ne' h0 h1, liqPriceLong, if_neg (not_le.mpr hq), divE, if_neg hden,
    abs_of_pos hq, mul_one_sub]

/-- For a short position it is the one of the short formula. -/
theorem liqPrice_short (hq : q < 0) (h0 : 0 ≤ mmr) (h1 : mmr < 1) :
    liqPriceShort (-q) entry wallet mmr ma = liqPrice q entry wallet mmr ma := by
  have hpos : 0 < -q := neg_pos.mpr hq
  have hden : -q * (1 + mmr) ≠ 0 := (mul_pos hpos (add_pos_of_pos_of_nonneg one_pos h0)).ne'
  rw [liqPrice_eq hq.ne h0 h1, liqPriceShort, if_neg (not_le.mpr hpos), divE, if_neg hden,
    abs_of_neg hq]
  -- numerator and denominator both change their sign
  rw [← neg_div_neg_eq]
  ring_nf

/-- **Cross margin.** The liquidation price of `(wallet, entry)` is the one of the current
    equity and the current price. -/
theorem liqPrice_current (hq : q ≠ 0) (h0 : 0 ≤ mmr) (h1 : mmr < 1) :
    liqPrice q price (positionEquity q entry price wallet) mmr ma =
      liqPrice q entry wallet mmr ma := by
  rw [liqPrice_eq hq h0 h1, liqPrice_eq hq h0 h1, positionEquity]
  ring_nf

/-- The engine prices from the wallet and the average entry, the guard from the equity and the
    mark: for the only position of an account that is one price. -/
theorem Portfolio.liqPrice_equity {pf : Portfolio} {i : String} {p : Position} {mark e : Decimal}
    (hpos : pf.positions.entries = [(i, p)]) (hentry : p.avgEntry = some entry)
    (hmark : pf.markOf i = .ok mark) (he : pf.equity = .ok e) (h0 : 0 ≤ mmr) (h1 : mmr < 1) :
    liqPrice p.qty mark e mmr ma = liqPrice p.qty entry pf.walletBalance mmr ma := by
  have hq : p.qty ≠ 0 := by
    intro hq
    rw [Position.avgEntry, if_pos hq] at hentry
    cases hentry
  have hcost : p.costBasis = p.qty * entry := by
    rw [Position.avgEntry, if_neg hq, Option.some.injEq] at hentry
    rw [← hentry, mul_div_cancel₀ _ hq]
  have hequity : e = positionEquity p.qty entry mark pf.walletBalance := by
    simp [Portfolio.equity, Portfolio.unrealizedPnl, Portfolio.heldSum, hpos, hmark, hq] at he
    rw [← he, hcost, positionEquity, mul_sub]
  rw [hequity, liqPrice_current hq h0 h1]

end LiqPrice

/-! ### The size at which the distance is the required one -/

section Distance

variable {side : Side} {q price wallet atr minDtl mmr ma : Decimal}

/-- The distance of a fresh position is that of the algebra. -/
theorem freshDtlAtr_eq (hside : side ≠ .flat) (hq : 0 < q) (h0 : 0 ≤ mmr) (h1 : mmr < 1)
    (hatr : 0 < atr) :
    freshDtlAtr side q price wallet atr mmr ma = .ok (dtlOf side q price wallet atr mmr ma) := by
  obtain ⟨liq, hliq⟩ := sideLiqPrice_isOk hside price wallet ma h0 h1 hq
  obtain ⟨d, hd⟩ := signedDtlAtr_isOk hside price liq hatr
  rw [freshDtlAtr, hliq, ← (signedDtlAtr_eq_dtlOf hliq hd).2, ← hd]
  rfl

/-- The denominator of the cap. -/
def capDen (side : Side) (price atr minDtl mmr : Decimal) : Decimal :=
  price * mmr + minDtl * atr * sideFactor side mmr

/-- What the cap divides by is positive. -/
theorem capDen_pos (side : Side) (hprice : 0 < price) (hatr : 0 < atr) (hdtl : 0 < minDtl)
    (h0 : 0 ≤ mmr) (h1 : mmr < 1) : 0 < capDen side price atr minDtl mmr := by
  have hs := sideFactor_pos side h0 h1
  unfold capDen
  positivity

/-- The cap, in closed form: no size where the wallet does not cover the maintenance. -/
theorem maxQtyForDtl_eq (wallet ma : Decimal) (hside : side ≠ .flat) (hprice : 0 < price)
    (hatr : 0 < atr) (hdtl : 0 < minDtl) (h0 : 0 ≤ mmr) (h1 : mmr < 1) :
    maxQtyForDtl side wallet price atr minDtl mmr ma =
      .ok (if wallet + ma ≤ 0 then 0 else (wallet + ma) / capDen side price atr minDtl mmr) := by
  have hden := (capDen_pos side hprice hatr hdtl h0 h1).ne'
  rw [maxQtyForDtl, if_neg hside]
  split
  · rfl
  · exact if_neg hden

/-- The required distance, cross-multiplied. -/
theorem le_dtlOf_iff (hq : 0 < q) (h0 : 0 ≤ mmr) (h1 : mmr < 1) (hatr : 0 < atr) :
    minDtl ≤ dtlOf side q price wallet atr mmr ma ↔
      q * capDen side price atr minDtl mmr ≤ wallet + ma := by
  have hs := sideFactor_pos side h0 h1
  rw [dtlOf, le_div_iff₀ hatr, le_div_iff₀ (mul_pos hq hs), le_sub_iff_add_le, capDen]
  ring_nf

/-- **The cap is the threshold**: a size keeps the required distance iff it is within the cap. -/
theorem le_cap_iff {cap : Decimal} (hside : side ≠ .flat) (hprice : 0 < price) (hatr : 0 < atr)
    (hdtl : 0 < minDtl) (h0 : 0 ≤ mmr) (h1 : mmr < 1)
    (hcap : maxQtyForDtl side wallet price atr minDtl mmr ma = .ok cap) (hq : 0 < q) :
    q ≤ cap ↔ minDtl ≤ dtlOf side q price wallet atr mmr ma := by
  have hden := capDen_pos side hprice hatr hdtl h0 h1
  rw [maxQtyForDtl_eq wallet ma hside hprice hatr hdtl h0 h1, Except.ok.injEq] at hcap
  rw [le_dtlOf_iff hq h0 h1 hatr, ← hcap]
  split
  · -- nothing behind the position: no positive size keeps a positive distance
    rename_i hA
    have hpos := mul_pos hq hden
    constructor
    · intro hle
      exact absurd hle (not_le.mpr hq)
    · intro hle
      linarith
  · exact le_div_iff₀ hden

/-- At the cap the distance is the required one. -/
theorem dtlOf_cap {cap : Decimal} (hside : side ≠ .flat) (hprice : 0 < price) (hatr : 0 < atr)
    (hdtl : 0 < minDtl) (h0 : 0 ≤ mmr) (h1 : mmr < 1) (hA : 0 < wallet + ma)
    (hcap : maxQtyForDtl side wallet price atr minDtl mmr ma = .ok cap) :
    0 < cap ∧ dtlOf side cap price wallet atr mmr ma = minDtl := by
  have hs := sideFactor_pos side h0 h1
  have hden := capDen_pos side hprice hatr hdtl h0 h1
  rw [maxQtyForDtl_eq wallet ma hside hprice hatr hdtl h0 h1, Except.ok.injEq,
    if_neg (not_le.mpr hA)] at hcap
  have hpos : 0 < cap := hcap ▸ div_pos hA hden
  refine ⟨hpos, ?_⟩
  have hmul : cap * capDen side price atr minDtl mmr = wallet + ma := by
    rw [← hcap, div_mul_cancel₀ _ hden.ne']
  rw [dtlOf, div_eq_iff hatr.ne', div_eq_iff (mul_pos hpos hs).ne', ← hmul, capDen]
  ring

end Distance

/-! ### The law -/

/-- **The margin algebra.** Any position has a liquidation price; equity meets the maintenance
    margin there; the formula of its side, and the signed formula at the current equity and
    price, give the same.  On either side `max_qty_for_dtl` returns a size that is positive iff
    something is behind the position; a fresh position of exactly that size is exactly
    `minDtl` ATRs from its liquidation, a smaller one at least that, and a larger one less. -/
theorem margin_algebra (wallet price mmr ma : Decimal) (hprice : 0 < price) (h0 : 0 ≤ mmr)
    (h1 : mmr < 1) :
    (∀ q entry, q ≠ 0 → ∃ p, liqPrice q entry wallet mmr ma = .ok p ∧
      positionEquity q entry p wallet = maintenanceMargin q p mmr ma ∧
      (0 < q → liqPriceLong q entry wallet mmr ma = .ok p) ∧
      (q < 0 → liqPriceShort (-q) entry wallet mmr ma = .ok p) ∧
      liqPrice q price (positionEquity q entry price wallet) mmr ma = .ok p) ∧
    (∀ side atr minDtl, side ≠ .flat → 0 < atr → 0 < minDtl →
      ∃ cap, maxQtyForDtl side wallet price atr minDtl mmr ma = .ok cap ∧
        (0 < cap ↔ 0 < wallet + ma) ∧
        (0 < cap → freshDtlAtr side cap price wallet atr mmr ma = .ok minDtl) ∧
        ∀ q, 0 < q → ∃ d, freshDtlAtr side q price wallet atr mmr ma = .ok d ∧
          (q ≤ cap → minDtl ≤ d) ∧ (cap < q → d < minDtl)) := by
  constructor
  · intro q entry hq
    have hval := liqPrice_eq hq h0 h1 entry wallet ma
    refine ⟨_, hval, liqPrice_spec hq h0 h1 hval, ?_, ?_, ?_⟩
    · intro hpos
      rw [liqPrice_long hpos h0 h1, hval]
    · intro hneg
      rw [liqPrice_short hneg h0 h1, hval]
    · rw [liqPrice_current hq h0 h1, hval]
  · intro side atr minDtl hside hatr hdtl
    have hcap := maxQtyForDtl_eq wallet ma hside hprice hatr hdtl h0 h1
    refine ⟨_, hcap, ?_, ?_, ?_⟩
    · split
      · rename_i hA
        simp [not_lt.mpr hA]
      · rename_i hA
        have hpos := (dtlOf_cap hside hprice hatr hdtl h0 h1 (not_le.mp hA) hcap).1
        rw [if_neg hA] at hpos
        simp [hpos, not_le.mp hA]
    · intro hpos
      have hA : 0 < wallet + ma := by
        by_contra hA
        rw [if_pos (not_lt.mp hA)] at hpos
        exact lt_irrefl 0 hpos
      rw [freshDtlAtr_eq hside hpos h0 h1 hatr,
        (dtlOf_cap hside hprice hatr hdtl h0 h1 hA hcap).2]
    · intro q hq
      have hiff := le_cap_iff hside hprice hatr hdtl h0 h1 hcap hq
      refine ⟨_, freshDtlAtr_eq hside hq h0 h1 hatr, hiff.mp, ?_⟩
      intro hlt
      by_contra hle
      exact absurd (hiff.mpr (not_lt.mp hle)) (not_le.mpr hlt)

/-- With ten times leverage on an entry at 100: liquidation at `18000/199`, and the size that is
    six ATRs away from its own liquidation. -/
theorem margin_algebra_sample :
    liqPrice 1 100 10 (1 / 200) 0 = .ok (18000 / 199) ∧
      ∃ cap, maxQtyForDtl .long 10 100 1 6 (1 / 200) 0 = .ok cap ∧
        freshDtlAtr .long cap 100 10 1 (1 / 200) 0 = .ok 6 := by
  have hlaw := margin_algebra 10 100 (1 / 200) 0 (by norm_num) (by norm_num) (by norm_num)
  obtain ⟨p, hp, -⟩ := hlaw.1 1 100 one_ne_zero
  obtain ⟨cap, hcap, hpos, hexact, -⟩ :=
    hlaw.2 .long 1 6 (by decide) (by norm_num) (by norm_num)
  have hval : liqPrice 1 100 10 (1 / 200) 0 = .ok (18000 / 199) := by decide +kernel
  exact ⟨hval, cap, hcap, hexact (hpos.mpr (by norm_num))⟩

/-- With nothing in the wallet the cap is zero, and a position of size zero has no distance. -/
theorem capped_size_without_wallet :
    ¬ ∃ cap, maxQtyForDtl .long 0 100 1 6 (1 / 200) 0 = .ok cap ∧
      freshDtlAtr .long cap 100 0 1 (1 / 200) 0 = .ok 6 := by
  rintro ⟨cap, hcap, hdtl⟩
  have hzero : maxQtyForDtl .long 0 100 1 6 (1 / 200) 0 = .ok 0 := by decide +kernel
  rw [hzero, Except.ok.injEq] at hcap
  subst hcap
  have hraise : (freshDtlAtr .long 0 100 0 1 (1 / 200) 0).isOk = false := by decide +kernel
  rw [hdtl] at hraise
  cases hraise

end FuzzHelm
