import FuzzHelm.Lib.Literals
import FuzzHelm.Risk.Rules

namespace FuzzHelm

open Lib

/-!
# The stop and the liquidation after a shrink

The liquidation buffer cuts an increase to the smaller of two sizes: the one of the required
distance in ATRs, and the one of the leverage at which the stop should fire before the
liquidation.  The second one is derived for a long.

* `le_liqDistance_iff` — how far a size keeps from its liquidation, without a division;
* `liquidationBuffer_shrink` — a `SHRINK` of the rule leaves exactly the smaller size;
* `stop_before_liquidation` — when the stop keeps its buffer at that size: always for a long,
  for a short only under a condition on the context.
-/

/-- How far the price has to go against a position to its liquidation price. -/
def liqDistance (side : Side) (price liq : Decimal) : Decimal :=
  if side = .long then price - liq else liq - price

/-- `Δ_stop / (1 − b)`: the distance of the stop with the buffer. -/
def bufferedStop (cfg : LiquidationBufferCfg) (ctx : RiskContext) : Decimal :=
  ctx.stopDistance / (1 - cfg.b)

/-! ### Sizes and distances -/

/-- The distance of the liquidation, from the formula of its price. -/
theorem liqDistance_eq {side : Side} {q price wallet mmr ma liq : Decimal}
    (h : sideLiqPrice side q price wallet mmr ma = .ok liq) :
    liqDistance side price liq =
      (wallet + ma - q * price * mmr) / (q * sideFactor side mmr) := by
  obtain ⟨-, ⟨rfl, hne, rfl⟩ | ⟨rfl, hne, rfl⟩⟩ := sideLiqPrice_eq_ok h
  · simp only [liqDistance, sideFactor, if_true]
    rw [eq_div_iff hne, sub_mul, div_mul_cancel₀ _ hne]
    ring
  · simp only [liqDistance, sideFactor]
    rw [if_neg (by decide), if_neg (by decide), eq_div_iff hne, sub_mul, div_mul_cancel₀ _ hne]
    ring

/-- **A distance is kept** by the sizes up to a bound that the own funds set. -/
theorem le_liqDistance_iff {side : Side} {q price wallet mmr ma liq x : Decimal} (h0 : 0 ≤ mmr)
    (h1 : mmr < 1) (h : sideLiqPrice side q price wallet mmr ma = .ok liq) :
    x ≤ liqDistance side price liq ↔
      q * (x * sideFactor side mmr + price * mmr) ≤ wallet + ma := by
  have hq : 0 < q := (sideLiqPrice_eq_ok h).1
  rw [liqDistance_eq h, le_div_iff₀ (mul_pos hq (sideFactor_pos side h0 h1))]
  constructor
  · intro hle
    linarith [hle]
  · intro hle
    linarith [hle]

/-- The size at the reduced leverage, without the leverage. -/
theorem reducedMaxLeverage_size {stopDistance price mmr b wallet lRed : Decimal}
    (hprice : 0 < price) (hstop : 0 ≤ stopDistance) (h0 : 0 ≤ mmr) (hb : b < 1)
    (h : reducedMaxLeverage stopDistance price mmr b = .ok lRed) :
    0 < stopDistance / (1 - b) + price * mmr ∧
      lRed * wallet / price = wallet / (stopDistance / (1 - b) + price * mmr) := by
  unfold reducedMaxLeverage at h
  split at h
  · cases h
  · split at h
    · cases h
    · obtain ⟨hne, rfl⟩ := divE_eq_ok.mp h
      have hb' : 0 < 1 - b := sub_pos.mpr hb
      -- the denominator of the leverage is the one of the size over the price
      have hden : stopDistance / (1 - b) + price * mmr =
          price * (stopDistance / (price * (1 - b)) + mmr) := by
        field_simp
      have hnonneg : 0 ≤ stopDistance / (price * (1 - b)) + mmr :=
        add_nonneg (div_nonneg hstop (mul_pos hprice hb').le) h0
      have hpos : 0 < stopDistance / (price * (1 - b)) + mmr :=
        lt_of_le_of_ne hnonneg hne.symm
      refine ⟨by rw [hden]; exact mul_pos hprice hpos, ?_⟩
      rw [hden, one_div, inv_mul_eq_div, div_div, mul_comm (stopDistance / _ + mmr) price]

/-! ### What a shrink leaves -/

/-- A shrink leaves exactly the cap. -/
theorem capIncrease_shrink {ctx : RiskContext} {cap : Decimal} {v : Verdict}
    (h : capIncrease ctx cap = .ok v) (hv : v.kind = .shrink) :
    ctx.baseQty + ctx.increaseQty * v.factor = cap ∧ ctx.baseQty < cap := by
  simp only [capIncrease] at h
  split at h
  · cases h
    cases hv
  · rename_i hinc
    rw [not_or, not_le, not_le] at hinc
    split at h
    · cases h
      cases hv
    · rename_i hroom
      obtain ⟨-, -, hf⟩ := Verdict.shrink_eq_ok.mp h
      rw [hf, mul_div_cancel₀ _ hinc.1.ne']
      exact ⟨by ring, by linarith [not_le.mp hroom]⟩

/-- **A `SHRINK` of the rule** leaves the smaller of the two sizes. -/
theorem liquidationBuffer_shrink {cfg : LiquidationBufferCfg} {ctx : RiskContext}
    {rv : RuleVerdict} (h : (liquidationBuffer cfg).check ctx = .ok rv)
    (hv : rv.verdict.kind = .shrink) :
    ∃ lRed qDtl, reducedMaxLeverage ctx.stopDistance ctx.price ctx.mmr cfg.b = .ok lRed ∧
      maxQtyForDtl ctx.side ctx.wallet ctx.price ctx.atr cfg.minDtlAtr ctx.mmr
        ctx.maintAmount = .ok qDtl ∧
      ctx.baseQty + ctx.increaseQty * rv.verdict.factor =
        min (lRed * ctx.wallet / ctx.price) qDtl ∧
      ctx.baseQty < min (lRed * ctx.wallet / ctx.price) qDtl := by
  -- of the branches of the rule only the last one shrinks
  simp only [liquidationBuffer] at h
  split at h
  · cases h
    cases hv
  · split at h
    · cases h
      simp only [vetoIncrease] at hv
      split at hv <;> cases hv
    · obtain ⟨liq, -, h⟩ := bind_eq_ok.mp h
      split at h
      · cases h
        cases hv
      · obtain ⟨dtl, -, h⟩ := bind_eq_ok.mp h
        split at h
        · cases h
          cases hv
        · obtain ⟨lRed, hlRed, h⟩ := bind_eq_ok.mp h
          obtain ⟨qDtl, hqDtl, h⟩ := bind_eq_ok.mp h
          obtain ⟨v, hcap, h⟩ := bind_eq_ok.mp h
          cases h
          exact ⟨lRed, qDtl, hlRed, hqDtl, capIncrease_shrink hcap hv⟩

/-! ### The distance at the cap -/

/-- The smaller of two sizes is small enough just when one of them is. -/
theorem min_mul_le_iff {x y z w : Decimal} (hz : 0 ≤ z) :
    min x y * z ≤ w ↔ x * z ≤ w ∨ y * z ≤ w := by
  rw [min_mul_of_nonneg _ _ hz, min_le_iff]

/-- **The stop before the liquidation.**  When the rule answers `SHRINK` and the increase is
    scaled by it, the position that results keeps the buffered distance of its stop from its
    liquidation price for every long, and for a short just when the required distance in ATRs
    is no smaller, or the maintenance amount makes up for the factor `1 + mmr`. -/
theorem stop_before_liquidation {cfg : LiquidationBufferCfg} {ctx : RiskContext}
    {rv : RuleVerdict} (h0 : 0 ≤ ctx.mmr) (h1 : ctx.mmr < 1) (hma : 0 ≤ ctx.maintAmount)
    (hwallet : 0 < ctx.wallet) (hatr : 0 < ctx.atr)
    (h : (liquidationBuffer cfg).check ctx = .ok rv) (hv : rv.verdict.kind = .shrink) :
    ∃ liq, sideLiqPrice ctx.side (ctx.baseQty + ctx.increaseQty * rv.verdict.factor) ctx.price
        ctx.wallet ctx.mmr ctx.maintAmount = .ok liq ∧
      (bufferedStop cfg ctx ≤ liqDistance ctx.side ctx.price liq ↔
        ctx.side = .long ∨ bufferedStop cfg ctx ≤ cfg.minDtlAtr * ctx.atr ∨
          ctx.wallet * bufferedStop cfg ctx * ctx.mmr ≤
            ctx.maintAmount * (bufferedStop cfg ctx + ctx.price * ctx.mmr)) := by
  obtain ⟨lRed, qDtl, hlRed, hqDtl, hsize, hbase⟩ := liquidationBuffer_shrink h hv
  have hside : ctx.side ≠ .flat := by
    rcases ctx.side_cases with hs | hs <;> rw [hs] <;> decide
  have hq : 0 < ctx.baseQty + ctx.increaseQty * rv.verdict.factor := by
    rw [hsize]
    exact lt_of_le_of_lt ctx.baseQty_nonneg hbase
  obtain ⟨liq, hliq⟩ := sideLiqPrice_isOk hside ctx.price ctx.wallet ctx.maintAmount h0 h1 hq
  refine ⟨liq, hliq, ?_⟩
  have hf := sideFactor_pos ctx.side h0 h1
  have hx : 0 ≤ bufferedStop cfg ctx :=
    div_nonneg ctx.stopDistance_nonneg (sub_pos.mpr cfg.b_lt).le
  have hprice : 0 ≤ ctx.price * ctx.mmr := mul_nonneg ctx.price_pos.le h0
  have hneed : 0 ≤ bufferedStop cfg ctx * sideFactor ctx.side ctx.mmr + ctx.price * ctx.mmr :=
    add_nonneg (mul_nonneg hx hf.le) hprice
  obtain ⟨hden, hred⟩ : 0 < bufferedStop cfg ctx + ctx.price * ctx.mmr ∧
      lRed * ctx.wallet / ctx.price =
        ctx.wallet / (bufferedStop cfg ctx + ctx.price * ctx.mmr) :=
    reducedMaxLeverage_size ctx.price_pos ctx.stopDistance_nonneg h0 cfg.b_lt hlRed
  rw [le_liqDistance_iff h0 h1 hliq, hsize, min_mul_le_iff hneed]
  -- the size at the reduced leverage
  have hlever : lRed * ctx.wallet / ctx.price * (bufferedStop cfg ctx *
        sideFactor ctx.side ctx.mmr + ctx.price * ctx.mmr) ≤ ctx.wallet + ctx.maintAmount ↔
      ctx.wallet * bufferedStop cfg ctx * (sideFactor ctx.side ctx.mmr - 1) ≤
        ctx.maintAmount * (bufferedStop cfg ctx + ctx.price * ctx.mmr) := by
    rw [hred, div_mul_eq_mul_div, div_le_iff₀ hden]
    constructor <;> intro hle
    · linarith [hle]
    · linarith [hle]
  -- the size of the required distance
  have hdtl : qDtl * (bufferedStop cfg ctx * sideFactor ctx.side ctx.mmr +
        ctx.price * ctx.mmr) ≤ ctx.wallet + ctx.maintAmount ↔
      bufferedStop cfg ctx ≤ cfg.minDtlAtr * ctx.atr := by
    have hA : 0 < ctx.wallet + ctx.maintAmount := add_pos_of_pos_of_nonneg hwallet hma
    unfold maxQtyForDtl at hqDtl
    rw [if_neg hside, if_neg (not_le.mpr hA)] at hqDtl
    obtain ⟨-, rfl⟩ := divE_eq_ok.mp hqDtl
    change (ctx.wallet + ctx.maintAmount) / (ctx.price * ctx.mmr + cfg.minDtlAtr * ctx.atr *
      sideFactor ctx.side ctx.mmr) * _ ≤ _ ↔ _
    have hpos : 0 < ctx.price * ctx.mmr + cfg.minDtlAtr * ctx.atr * sideFactor ctx.side ctx.mmr :=
      add_pos_of_nonneg_of_pos hprice (mul_pos (mul_pos cfg.minDtlAtr_pos hatr) hf)
    rw [div_mul_eq_mul_div, div_le_iff₀ hpos, mul_le_mul_iff_right₀ hA, add_comm (ctx.price * _),
      add_le_add_iff_right, mul_le_mul_iff_left₀ hf]
  rw [hlever, hdtl]
  rcases ctx.side_cases with hs | hs
  · -- the factor of a long is at most one
    rw [hs]
    refine iff_of_true (.inl ?_) (.inl rfl)
    have hneg : sideFactor .long ctx.mmr - 1 ≤ 0 := by
      simp only [sideFactor, if_true]
      linarith
    exact (mul_nonpos_of_nonneg_of_nonpos (mul_nonneg hwallet.le hx) hneg).trans
      (mul_nonneg hma hden.le)
  · have hfac : sideFactor .short ctx.mmr - 1 = ctx.mmr := by
      rw [sideFactor, if_neg (by decide)]
      ring
    rw [hs, hfac]
    constructor
    · rintro (hle | hle)
      · exact .inr (.inr hle)
      · exact .inr (.inl hle)
    · rintro (hs' | hle | hle)
      · cases hs'
      · exact .inr hle
      · exact .inl hle

/-! ### A short that is liquidated inside the buffer -/

/-- A short of twenty contracts on an empty book. -/
def shortEntry : RiskContext where
  tsNs := 0
  instrument := "BTC"
  price := 100
  equity := 100
  currentQty := 0
  targetQty := -20
  atr := 1
  stopDistance := 8
  drawdown := 0
  pnlDay := 0
  equityDayOpen := none
  dayStartNs := none
  grossNotionalOther := 0
  mmr := 1 / 100
  maintAmount := 0
  leverageSetting := 3
  lastDataNs := none
  dqScore := 1
  riskState := .normal
  stepSize := some 1
  price_pos := hundred_pos_rat
  atr_nonneg := one_nonneg_rat
  stopDistance_nonneg := by norm_num
  leverageSetting_pos := three_pos_rat
  grossNotionalOther_nonneg := zero_nonneg_rat

/-- Six ATRs and a buffer of a fifth. -/
def bufferSixAtr : LiquidationBufferCfg := ⟨6, 1 / 5, six_pos_rat, by norm_num, by norm_num⟩

/-- The rule shrinks the short to 100/11 contracts. -/
theorem shortEntry_shrinks : ∃ rv, (liquidationBuffer bufferSixAtr).check shortEntry = .ok rv ∧
    rv.verdict.kind = .shrink ∧
    shortEntry.baseQty + shortEntry.increaseQty * rv.verdict.factor = 100 / 11 := by
  have hrun : ((liquidationBuffer bufferSixAtr).check shortEntry).toOption.map
      (fun rv => (rv.verdict.kind,
        shortEntry.baseQty + shortEntry.increaseQty * rv.verdict.factor)) =
      some (.shrink, 100 / 11) := by
    decide +kernel
  cases hcheck : (liquidationBuffer bufferSixAtr).check shortEntry with
  | error e =>
    rw [hcheck] at hrun
    cases hrun
  | ok rv =>
    rw [hcheck] at hrun
    have hpair := Prod.mk.inj (Option.some.inj hrun)
    exact ⟨rv, rfl, hpair.1, hpair.2⟩

/-- **The short keeps less than the buffered distance**: its liquidation is 9.90 away, where
    the stop with its buffer asks for 10. -/
theorem shortEntry_inside_buffer : ∃ rv liq,
    (liquidationBuffer bufferSixAtr).check shortEntry = .ok rv ∧ rv.verdict.kind = .shrink ∧
    sideLiqPrice shortEntry.side
      (shortEntry.baseQty + shortEntry.increaseQty * rv.verdict.factor) shortEntry.price
      shortEntry.wallet shortEntry.mmr shortEntry.maintAmount = .ok liq ∧
    |shortEntry.price - liq| < bufferedStop bufferSixAtr shortEntry := by
  obtain ⟨rv, hcheck, hkind, hsize⟩ := shortEntry_shrinks
  refine ⟨rv, 11100 / 101, hcheck, hkind, ?_, ?_⟩
  · rw [hsize]
    decide +kernel
  · decide +kernel

/-- The law on that context: the condition fails there, and so does the distance. -/
theorem stop_before_liquidation_shortEntry : ∃ rv liq,
    (liquidationBuffer bufferSixAtr).check shortEntry = .ok rv ∧
    sideLiqPrice shortEntry.side
      (shortEntry.baseQty + shortEntry.increaseQty * rv.verdict.factor) shortEntry.price
      shortEntry.wallet shortEntry.mmr shortEntry.maintAmount = .ok liq ∧
    ¬bufferedStop bufferSixAtr shortEntry ≤ liqDistance shortEntry.side shortEntry.price liq := by
  obtain ⟨rv, hcheck, hkind, -⟩ := shortEntry_shrinks
  obtain ⟨liq, hliq, hiff⟩ := stop_before_liquidation
    (by decide +kernel) (by decide +kernel) (by decide +kernel) (by decide +kernel)
    (by decide +kernel) hcheck hkind
  refine ⟨rv, liq, hcheck, hliq, fun hle => ?_⟩
  exact absurd (hiff.mp hle) (by decide +kernel)

end FuzzHelm
