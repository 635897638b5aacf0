import FuzzHelm.Lib.Run
import FuzzHelm.Risk.Config
import FuzzHelm.Risk.Context
import FuzzHelm.Risk.Margin

namespace FuzzHelm

open Lib

/-!
# The rules of the risk chain

A rule is a pure function from the context to a verdict on the increase, with what it
observed, its limit and a payload for the journal.  The six limits keep their own bodies.

* `RiskRule` — a named check that may raise;
* `vetoIncrease` — the verdict of the rules that refuse an increase but never a reduction;
* `staleData` … `liquidationBuffer` — the six limits;
* `positionNotional_sound` … `liquidationBuffer_sound` — what an increase that a limit did
  not veto satisfies.
-/

/-! ### Verdicts of rules -/

/-- A value of the payload that goes to the journal. -/
inductive PayloadValue where
  | dec (x : Decimal)
  | int (x : ℤ)
  | bool (x : Bool)
  | str (x : String)
  deriving DecidableEq, Repr

/-- What a rule has checked, and what it says. -/
structure RuleVerdict where
  rule : String
  verdict : Verdict
  observed : Option Decimal
  limit : Option Decimal
  payload : List (String × PayloadValue)
  halt : Bool
  deriving DecidableEq

/-- A rule of the chain: a pure function of the context. -/
structure RiskRule where
  name : String
  check : RiskContext → Except PyError RuleVerdict

/-- `VETO` on an increase under a breach, `ALLOW` otherwise. -/
def vetoIncrease (ctx : RiskContext) (breached : Bool) : Verdict :=
  if breached ∧ 0 < ctx.increaseQty then .veto else .allow

/-- A veto of an increase passes it where nothing is breached. -/
theorem not_breached_of_vetoIncrease {ctx : RiskContext} {breached : Bool}
    (hinc : 0 < ctx.increaseQty) (hv : 0 < (vetoIncrease ctx breached).factor) :
    breached = false := by
  unfold vetoIncrease at hv
  split at hv
  · exact absurd hv (lt_irrefl 0)
  · rename_i h
    by_contra hb
    exact h ⟨by simpa using hb, hinc⟩

/-! ### Stale data -/

/-- `StaleDataGuard`: old or poor data veto an increase. -/
def staleData (cfg : StaleDataCfg) : RiskRule where
  name := "stale_data"
  check ctx :=
    let lagS := decNsToS ctx.lagNs
    let lagBad := decide (cfg.maxLagS < lagS)
    let dqBad := decide (ctx.dqScore < cfg.minDq)
    let dqOnly := dqBad && !lagBad
    .ok {
      rule := "stale_data"
      verdict := vetoIncrease ctx (lagBad || dqBad)
      observed := some (if dqOnly then ctx.dqScore else lagS)
      limit := some (if dqOnly then cfg.minDq else cfg.maxLagS)
      payload := [("lag_s", .dec lagS), ("max_lag_s", .dec cfg.maxLagS),
        ("dq_score", .dec ctx.dqScore), ("min_dq", .dec cfg.minDq),
        ("lag_breached", .bool lagBad), ("dq_breached", .bool dqBad),
        ("increase_qty", .dec ctx.increaseQty)]
      halt := false }

/-- Data lag and quality score are within their limits. -/
def FreshData (cfg : StaleDataCfg) (ctx : RiskContext) : Prop :=
  decNsToS ctx.lagNs ≤ cfg.maxLagS ∧ cfg.minDq ≤ ctx.dqScore

/-- Fresh data is what the rule lets an increase pass with. -/
theorem staleData_sound {cfg : StaleDataCfg} {ctx : RiskContext} {rv : RuleVerdict}
    (h : (staleData cfg).check ctx = .ok rv) (hinc : 0 < ctx.increaseQty)
    (hv : 0 < rv.verdict.factor) : FreshData cfg ctx := by
  cases h
  have hb := not_breached_of_vetoIncrease hinc hv
  rw [Bool.or_eq_false_iff, decide_eq_false_iff_not, decide_eq_false_iff_not, not_lt,
    not_lt] at hb
  exact hb

/-! ### Position notional and gross leverage -/

/-- `MaxPositionNotional`: the initial margin after the trade as a share of the equity. -/
def maxPositionNotional (cfg : MaxPositionNotionalCfg) : RiskRule where
  name := "max_position_notional"
  check ctx :=
    let marginPost := ctx.postNotional / ctx.leverageSetting
    let observed := ratio marginPost ctx.equity
    let payload : List (String × PayloadValue) :=
      [("interpretation", .str "initial_margin_over_equity"), ("margin_post", .dec marginPost),
        ("leverage_setting", .dec ctx.leverageSetting), ("increase_qty", .dec ctx.increaseQty)]
    if ctx.equity ≤ 0 then
      .ok {
        rule := "max_position_notional"
        verdict := vetoIncrease ctx true
        observed := observed
        limit := some cfg.value
        payload := payload ++ [("reason", .str "non_positive_equity")]
        halt := false }
    else do
      let qMax := cfg.value * ctx.equity * ctx.leverageSetting / ctx.price
      let verdict ← capIncrease ctx qMax
      return {
        rule := "max_position_notional"
        verdict := verdict
        observed := observed
        limit := some cfg.value
        payload := payload ++ [("q_max_post", .dec qMax)]
        halt := false }

/-- `MaxGrossLeverage`: the gross notional after the trade over the equity. -/
def maxGrossLeverage (cfg : MaxGrossLeverageCfg) : RiskRule where
  name := "max_gross_leverage"
  check ctx :=
    let grossPost := ctx.grossNotionalOther + ctx.postNotional
    let observed := ratio grossPost ctx.equity
    let payload : List (String × PayloadValue) :=
      [("gross_notional_post", .dec grossPost),
        ("gross_notional_other", .dec ctx.grossNotionalOther),
        ("increase_qty", .dec ctx.increaseQty)]
    if ctx.equity ≤ 0 then
      .ok {
        rule := "max_gross_leverage"
        verdict := vetoIncrease ctx true
        observed := observed
        limit := some cfg.value
        payload := payload ++ [("reason", .str "non_positive_equity")]
        halt := false }
    else do
      let qMax := (cfg.value * ctx.equity - ctx.grossNotionalOther) / ctx.price
      let verdict ← capIncrease ctx qMax
      return {
        rule := "max_gross_leverage"
        verdict := verdict
        observed := observed
        limit := some cfg.value
        payload := payload ++ [("q_max_post", .dec qMax)]
        halt := false }

/-- The initial margin of a position of size `q` is within its share of the equity. -/
def MarginWithin (cfg : MaxPositionNotionalCfg) (ctx : RiskContext) (q : Decimal) : Prop :=
  q * ctx.price / ctx.leverageSetting ≤ cfg.value * ctx.equity

/-- The gross notional with a position of size `q` is within the leverage limit. -/
def GrossWithin (cfg : MaxGrossLeverageCfg) (ctx : RiskContext) (q : Decimal) : Prop :=
  ctx.grossNotionalOther + q * ctx.price ≤ cfg.value * ctx.equity

/-- Within the bound of the value, whatever part of the increase passes. -/
theorem maxPositionNotional_sound {cfg : MaxPositionNotionalCfg} {ctx : RiskContext}
    {rv : RuleVerdict} (h : (maxPositionNotional cfg).check ctx = .ok rv)
    (hinc : 0 < ctx.increaseQty) (hv : 0 < rv.verdict.factor) {q : Decimal}
    (hq : q ≤ ctx.baseQty + ctx.increaseQty * rv.verdict.factor) : MarginWithin cfg ctx q := by
  simp only [maxPositionNotional] at h
  split at h
  · cases h
    exact absurd (not_breached_of_vetoIncrease hinc hv) (by decide)
  · obtain ⟨v, hcap, hrv⟩ := bind_eq_ok.mp h
    cases hrv
    have hle := hq.trans (capIncrease_sound hcap hinc hv)
    rw [le_div_iff₀ ctx.price_pos] at hle
    rw [MarginWithin, div_le_iff₀ ctx.leverageSetting_pos]
    exact hle

/-- Within the bound of the leverage, whatever part of the increase passes. -/
theorem maxGrossLeverage_sound {cfg : MaxGrossLeverageCfg} {ctx : RiskContext}
    {rv : RuleVerdict} (h : (maxGrossLeverage cfg).check ctx = .ok rv)
    (hinc : 0 < ctx.increaseQty) (hv : 0 < rv.verdict.factor) {q : Decimal}
    (hq : q ≤ ctx.baseQty + ctx.increaseQty * rv.verdict.factor) : GrossWithin cfg ctx q := by
  simp only [maxGrossLeverage] at h
  split at h
  · cases h
    exact absurd (not_breached_of_vetoIncrease hinc hv) (by decide)
  · obtain ⟨v, hcap, hrv⟩ := bind_eq_ok.mp h
    cases hrv
    have hle := hq.trans (capIncrease_sound hcap hinc hv)
    rw [le_div_iff₀ ctx.price_pos] at hle
    rw [GrossWithin]
    linarith

/-! ### Daily loss and drawdown -/

/-- The profit of the context belongs to a day that is over. -/
def staleDay (ctx : RiskContext) : Bool :=
  ctx.dayStartNs.any (fun d => d ≠ utcDayStartNs ctx.tsNs)

/-- The return of the day that the daily-loss rule sees. -/
def dailyObserved (ctx : RiskContext) : Option Decimal :=
  ratio (if staleDay ctx then 0 else ctx.pnlDay)
    (if staleDay ctx then ctx.equity else ctx.effectiveDayOpen)

/-- The day's loss has reached the limit, or cannot be measured. -/
def dailyBreached (cfg : MaxDailyLossCfg) (ctx : RiskContext) : Bool :=
  match dailyObserved ctx with
  | none => true
  | some x => decide (x ≤ -cfg.value)

/-- `MaxDailyLoss`: a loss of the day beyond the bound vetoes an increase. -/
def maxDailyLoss (cfg : MaxDailyLossCfg) : RiskRule where
  name := "max_daily_loss"
  check ctx :=
    .ok {
      rule := "max_daily_loss"
      verdict := vetoIncrease ctx (dailyBreached cfg ctx)
      observed := dailyObserved ctx
      limit := some (-cfg.value)
      payload := [("pnl_day", .dec (if staleDay ctx then 0 else ctx.pnlDay)),
        ("equity_day_open", .dec (if staleDay ctx then ctx.equity else ctx.effectiveDayOpen)),
        ("day_start_ns", .int (utcDayStartNs ctx.tsNs)), ("reset_applied", .bool (staleDay ctx)),
        ("breached", .bool (dailyBreached cfg ctx)), ("increase_qty", .dec ctx.increaseQty)]
      halt := false }

/-- `MaxDrawdownHalt`: the halt signal does not depend on the direction of the order. -/
def maxDrawdownHalt (cfg : MaxDrawdownHaltCfg) : RiskRule where
  name := "max_drawdown_halt"
  check ctx :=
    let breached := decide (cfg.value ≤ ctx.drawdown)
    .ok {
      rule := "max_drawdown_halt"
      verdict := vetoIncrease ctx breached
      observed := some ctx.drawdown
      limit := some cfg.value
      payload := [("breached", .bool breached), ("increase_qty", .dec ctx.increaseQty)]
      halt := breached }

/-- The day's loss is measured and above its limit. -/
def NoDailyLoss (cfg : MaxDailyLossCfg) (ctx : RiskContext) : Prop :=
  ∃ x, dailyObserved ctx = some x ∧ -cfg.value < x

/-- Before the loss of the day an increase passes. -/
theorem maxDailyLoss_sound {cfg : MaxDailyLossCfg} {ctx : RiskContext} {rv : RuleVerdict}
    (h : (maxDailyLoss cfg).check ctx = .ok rv) (hinc : 0 < ctx.increaseQty)
    (hv : 0 < rv.verdict.factor) : NoDailyLoss cfg ctx := by
  cases h
  have hb := not_breached_of_vetoIncrease hinc hv
  unfold dailyBreached at hb
  split at hb
  · cases hb
  · rename_i x hx
    rw [decide_eq_false_iff_not, not_le] at hb
    exact ⟨x, hx, hb⟩

/-- Before the drawdown an increase passes. -/
theorem maxDrawdownHalt_sound {cfg : MaxDrawdownHaltCfg} {ctx : RiskContext}
    {rv : RuleVerdict} (h : (maxDrawdownHalt cfg).check ctx = .ok rv)
    (hinc : 0 < ctx.increaseQty) (hv : 0 < rv.verdict.factor) : ctx.drawdown < cfg.value := by
  cases h
  have hb := not_breached_of_vetoIncrease hinc hv
  rwa [decide_eq_false_iff_not, not_le] at hb

/-! ### Liquidation buffer -/

/-- The own funds of the position: equity less the maintenance margin of the others. -/
def RiskContext.wallet (ctx : RiskContext) : Decimal :=
  ctx.equity - ctx.grossNotionalOther * ctx.mmr

/-- `LONG` for a positive target, `SHORT` otherwise. -/
def RiskContext.side (ctx : RiskContext) : Side :=
  if 0 < ctx.targetSide then .long else .short

/-- The repair of a breach: the increase is cut to the size at which the stop fires before
    the liquidation and the distance is the required one. -/
def shrinkToBuffer (cfg : LiquidationBufferCfg) (ctx : RiskContext)
    (payload : List (String × PayloadValue)) (dtl : Decimal) : Except PyError RuleVerdict := do
  let lRed ← reducedMaxLeverage ctx.stopDistance ctx.price ctx.mmr cfg.b
  let qRed := lRed * ctx.wallet / ctx.price
  let qDtl ← maxQtyForDtl ctx.side ctx.wallet ctx.price ctx.atr cfg.minDtlAtr ctx.mmr
    ctx.maintAmount
  let qCap := min qRed qDtl
  let verdict ← capIncrease ctx qCap
  return {
    rule := "liquidation_buffer"
    verdict := verdict
    observed := some dtl
    limit := some cfg.minDtlAtr
    payload := payload ++ [("reduced_max_leverage", .dec lRed),
      ("dtl_max_leverage", .dec (qDtl * ctx.price / ctx.wallet)), ("q_cap_post", .dec qCap),
      ("leverage_cap", .dec (qCap * ctx.price / ctx.wallet)),
      ("cap_binding", .str (if qRed ≤ qDtl then "reduced_max_leverage" else "dtl_limit"))]
    halt := false }

/-- The check for a position with own funds and a known ATR. -/
def checkBuffer (cfg : LiquidationBufferCfg) (ctx : RiskContext)
    (payload : List (String × PayloadValue)) : Except PyError RuleVerdict := do
  let pLiq ← sideLiqPrice ctx.side ctx.postQty ctx.price ctx.wallet ctx.mmr ctx.maintAmount
  let payload := payload ++ [("liq_price", .dec pLiq), ("wallet", .dec ctx.wallet),
    ("leverage_post", .dec (ctx.postNotional / ctx.wallet))]
  -- a long position with a price of 0 or less cannot be liquidated
  if ctx.side = .long ∧ pLiq ≤ 0 then
    return {
      rule := "liquidation_buffer"
      verdict := .allow
      observed := none
      limit := some cfg.minDtlAtr
      payload := payload ++ [("reason", .str "liquidation_unreachable")]
      halt := false }
  else
    let dtl ← signedDtlAtr ctx.side ctx.price pLiq ctx.atr
    -- far enough already; else the increase is cut
    if cfg.minDtlAtr ≤ dtl then
      return {
        rule := "liquidation_buffer"
        verdict := .allow
        observed := some dtl
        limit := some cfg.minDtlAtr
        payload := payload
        halt := false }
    else shrinkToBuffer cfg ctx payload dtl

/-- `LiquidationBufferGuard`: the size at which the liquidation keeps its distance. -/
def liquidationBuffer (cfg : LiquidationBufferCfg) : RiskRule where
  name := "liquidation_buffer"
  check ctx :=
    let payload : List (String × PayloadValue) :=
      [("increase_qty", .dec ctx.increaseQty), ("b", .dec cfg.b)]
    if ctx.postQty = 0 then
      .ok {
        rule := "liquidation_buffer"
        verdict := .allow
        observed := none
        limit := some cfg.minDtlAtr
        payload := payload ++ [("reason", .str "no_position_after_order")]
        halt := false }
    else if ctx.wallet ≤ 0 ∨ ctx.atr ≤ 0 then
      .ok {
        rule := "liquidation_buffer"
        verdict := vetoIncrease ctx true
        observed := none
        limit := some cfg.minDtlAtr
        payload := payload ++ [("reason",
          .str (if ctx.wallet ≤ 0 then "non_positive_wallet" else "atr_unavailable"))]
        halt := false }
    else checkBuffer cfg ctx payload

/-- A position of size `q` is far enough from its liquidation, or a long that cannot be
    liquidated at a positive price. -/
def FarFromLiquidation (cfg : LiquidationBufferCfg) (ctx : RiskContext) (q : Decimal) : Prop :=
  ∃ liq, sideLiqPrice ctx.side q ctx.price ctx.wallet ctx.mmr ctx.maintAmount = .ok liq ∧
    ((ctx.side = .long ∧ liq ≤ 0) ∨
      ∃ dtl, signedDtlAtr ctx.side ctx.price liq ctx.atr = .ok dtl ∧ cfg.minDtlAtr ≤ dtl)

/-- A context is for a long side or for a short one. -/
theorem RiskContext.side_cases (ctx : RiskContext) : ctx.side = .long ∨ ctx.side = .short := by
  unfold RiskContext.side
  split
  · exact .inl rfl
  · exact .inr rfl

/-- Both formulas are defined for a position on either side, and give `dtlOf`. -/
theorem liq_and_dtl_of_pos (ctx : RiskContext) {q : Decimal} (h0 : 0 ≤ ctx.mmr)
    (h1 : ctx.mmr < 1) (hq : 0 < q) (hatr : 0 < ctx.atr) :
    ∃ liq dtl, sideLiqPrice ctx.side q ctx.price ctx.wallet ctx.mmr ctx.maintAmount = .ok liq ∧
      signedDtlAtr ctx.side ctx.price liq ctx.atr = .ok dtl ∧
      dtl = dtlOf ctx.side q ctx.price ctx.wallet ctx.atr ctx.mmr ctx.maintAmount := by
  have hside : ctx.side ≠ .flat := by
    rcases ctx.side_cases with hs | hs <;> rw [hs] <;> decide
  obtain ⟨liq, hliq⟩ := sideLiqPrice_isOk hside ctx.price ctx.wallet ctx.maintAmount h0 h1 hq
  obtain ⟨dtl, hdtl⟩ := signedDtlAtr_isOk hside ctx.price liq hatr
  exact ⟨liq, dtl, hliq, hdtl, (signedDtlAtr_eq_dtlOf hliq hdtl).2⟩

/-- **The buffer is closed downwards.** What the rule leaves of the target is far enough from
    its liquidation, whether the rule allowed the whole or only a part. -/
theorem liquidationBuffer_sound {cfg : LiquidationBufferCfg} {ctx : RiskContext}
    {rv : RuleVerdict} (h : (liquidationBuffer cfg).check ctx = .ok rv) (h0 : 0 ≤ ctx.mmr)
    (h1 : ctx.mmr < 1) (hma : 0 ≤ ctx.maintAmount) (hinc : 0 < ctx.increaseQty)
    (hv : 0 < rv.verdict.factor) {q : Decimal} (hqpos : 0 < q)
    (hq : q ≤ ctx.baseQty + ctx.increaseQty * rv.verdict.factor) :
    FarFromLiquidation cfg ctx q := by
  have hpost : q ≤ ctx.postQty := by
    have hle : ctx.increaseQty * rv.verdict.factor ≤ ctx.increaseQty :=
      mul_le_of_le_one_right hinc.le rv.verdict.factor_le_one
    linarith [ctx.base_add_increase]
  simp only [liquidationBuffer] at h
  split at h
  · rename_i hzero
    exact absurd (hqpos.trans_le hpost) (by rw [hzero]; exact lt_irrefl 0)
  -- a veto lets nothing through
  · split at h
    · cases h
      exact absurd (not_breached_of_vetoIncrease hinc hv) (by decide)
    · rename_i hfunds
      rw [not_or, not_le, not_le] at hfunds
      obtain ⟨hwallet, hatr⟩ := hfunds
      have hA : 0 ≤ ctx.wallet + ctx.maintAmount := add_nonneg hwallet.le hma
      obtain ⟨liq, dtl, hliq, hdtl, hval⟩ := liq_and_dtl_of_pos ctx h0 h1 hqpos hatr
      obtain ⟨liq', hliq', h⟩ := bind_eq_ok.mp h
      split at h
      · -- unreachable at the full size, hence at the smaller one
        rename_i hunreach
        refine ⟨liq, hliq, .inl ⟨hunreach.1, ?_⟩⟩
        rw [hunreach.1] at hliq hliq'
        obtain ⟨-, ⟨-, -, rfl⟩ | ⟨hs, -⟩⟩ := sideLiqPrice_eq_ok hliq
        · obtain ⟨-, ⟨-, -, rfl⟩ | ⟨hs, -⟩⟩ := sideLiqPrice_eq_ok hliq'
          · exact liqPriceLong_mono h1 hA hqpos hpost hunreach.2
          · cases hs
        · cases hs
      · obtain ⟨dtl', hdtl', h⟩ := bind_eq_ok.mp h
        refine ⟨liq, hliq, .inr ⟨dtl, hdtl, ?_⟩⟩
        rw [hval]
        split at h
        · -- far enough at the full size
          rename_i hfar
          rw [(signedDtlAtr_eq_dtlOf hliq' hdtl').2] at hfar
          exact hfar.trans (dtlOf_antitone ctx.side h0 h1 hatr hA hqpos hpost)
        · -- cut to the cap
          obtain ⟨lRed, -, h⟩ := bind_eq_ok.mp h
          obtain ⟨qDtl, hqDtl, h⟩ := bind_eq_ok.mp h
          obtain ⟨v, hcap, h⟩ := bind_eq_ok.mp h
          cases h
          have hle := hq.trans (capIncrease_sound hcap hinc hv)
          exact dtlOf_ge_of_le_cap h0 h1 hatr ctx.price_pos cfg.minDtlAtr_pos hqDtl hqpos
            (hle.trans (min_le_right _ _))

end FuzzHelm
