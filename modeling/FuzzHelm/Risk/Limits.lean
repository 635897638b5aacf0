import FuzzHelm.Risk.GuardBounds

namespace FuzzHelm

open Lib

/-!
# All limits hold at once

The default chain: the product of the factors of the rules is applied to the increase and
floored twice, and what is left satisfies every limit of the chain together.

* `WithinLimits` — the conjunction of the limits for a position of a given size;
* `share_le` — the approved size is at most the share that any one rule left;
* `all_limits_hold` — the law.
-/

/-- Every limit of the chain for a position of size `q`. -/
structure WithinLimits (cfg : RiskConfig) (k : Option KillSwitch) (ctx : RiskContext)
    (q : Decimal) : Prop where
  margin : MarginWithin cfg.limits.maxPositionNotional ctx q
  gross : GrossWithin cfg.limits.maxGrossLeverage ctx q
  liquidation : FarFromLiquidation cfg.limits.liquidationBuffer ctx q
  fresh : FreshData cfg.limits.staleData ctx
  dailyLoss : NoDailyLoss cfg.limits.maxDailyLoss ctx
  drawdown : ctx.drawdown < cfg.limits.maxDrawdownHalt.value
  mode : ModeAllows k cfg.stateMachine.cooldownPolicy ctx

section Share

variable {g : RiskGuard} {k k' : Option KillSwitch} {ctx : RiskContext} {res : GuardResult}

/-- An evaluation that increases does not flatten. -/
theorem flattenAll_of_increase (h : g.evaluate k ctx = .ok (res, k'))
    (hinc : 0 < res.increaseApproved) : res.flattenAll = false := by
  by_contra hflat
  obtain ⟨inc, -, -, -, -, -, -, hia⟩ := RiskGuard.evaluate_eq_ok h
  rw [Bool.not_eq_false] at hflat
  rw [hia, hflat, if_pos rfl] at hinc
  exact lt_irrefl 0 hinc

/-- **One rule at a time.** An approved increase leaves every rule of the chain with a
    positive factor, and the approved size within the share of that rule. -/
theorem share_le (h : g.evaluate k ctx = .ok (res, k')) (hinc : 0 < res.increaseApproved)
    {r : RiskRule} (hr : r ∈ g.chain k) :
    0 < ctx.increaseQty ∧ ∃ rv, r.check ctx = .ok rv ∧ 0 < rv.verdict.factor ∧
      |res.approvedQty| ≤ ctx.baseQty + ctx.increaseQty * rv.verdict.factor := by
  have hflat := flattenAll_of_increase h hinc
  obtain ⟨-, hle, -, habs⟩ := approved_abs h hflat
  have hpos : 0 < ctx.increaseQty := hinc.trans_le hle
  obtain ⟨inc, hrec, -⟩ := RiskGuard.evaluate_eq_ok h
  obtain ⟨rv, hrv, hcheck⟩ := exists_record hrec hr
  -- the increase is at most the exact product with the factor of this rule
  have hshare : res.increaseApproved ≤ ctx.increaseQty * rv.verdict.factor :=
    (increase_le_exposure h hrv).2.trans (Verdict.allowed_le_mul _ _)
  refine ⟨hpos, rv, hcheck, ?_, ?_⟩
  · exact (mul_pos_iff_of_pos_left hpos).mp (hinc.trans_le hshare)
  · rw [habs]
    linarith

end Share

/-- **All limits hold at once.** When the default chain of any configuration approves an
    increase, the approved position satisfies every limit of the chain. -/
theorem all_limits_hold (cfg : RiskConfig) (k k' : Option KillSwitch) (ctx : RiskContext)
    (res : GuardResult) (h0 : 0 ≤ ctx.mmr) (h1 : ctx.mmr < 1) (hma : 0 ≤ ctx.maintAmount)
    (h : (RiskGuard.fromConfig cfg).evaluate k ctx = .ok (res, k'))
    (hinc : 0 < res.increaseApproved) : WithinLimits cfg k ctx |res.approvedQty| := by
  -- each limit is the soundness of its rule, which is in the chain
  have hmem : ∀ r ∈ RiskGuard.defaultRules cfg, r ∈ (RiskGuard.fromConfig cfg).chain k :=
    fun r hr => List.mem_append_left _ hr
  have hgate : riskModeGate k cfg.stateMachine.cooldownPolicy ∈
      (RiskGuard.fromConfig cfg).chain k := List.mem_append_right _ (List.mem_singleton_self _)
  -- an approved increase makes the position not flat
  have hqpos : 0 < |res.approvedQty| := by
    obtain ⟨-, -, -, habs⟩ := approved_abs h (flattenAll_of_increase h hinc)
    rw [habs]
    exact add_pos_of_nonneg_of_pos ctx.baseQty_nonneg hinc
  constructor
  case margin =>
    obtain ⟨hpos, rv, hcheck, hv, hq⟩ :=
      share_le h hinc
        (hmem (maxPositionNotional cfg.limits.maxPositionNotional)
          (by simp [RiskGuard.defaultRules]))
    exact maxPositionNotional_sound hcheck hpos hv hq
  case gross =>
    obtain ⟨hpos, rv, hcheck, hv, hq⟩ :=
      share_le h hinc
        (hmem (maxGrossLeverage cfg.limits.maxGrossLeverage) (by simp [RiskGuard.defaultRules]))
    exact maxGrossLeverage_sound hcheck hpos hv hq
  case liquidation =>
    obtain ⟨hpos, rv, hcheck, hv, hq⟩ :=
      share_le h hinc
        (hmem (liquidationBuffer cfg.limits.liquidationBuffer) (by simp [RiskGuard.defaultRules]))
    exact liquidationBuffer_sound hcheck h0 h1 hma hpos hv hqpos hq
  case fresh =>
    obtain ⟨hpos, rv, hcheck, hv, -⟩ :=
      share_le h hinc (hmem (staleData cfg.limits.staleData) (by simp [RiskGuard.defaultRules]))
    exact staleData_sound hcheck hpos hv
  case dailyLoss =>
    obtain ⟨hpos, rv, hcheck, hv, -⟩ :=
      share_le h hinc
        (hmem (maxDailyLoss cfg.limits.maxDailyLoss) (by simp [RiskGuard.defaultRules]))
    exact maxDailyLoss_sound hcheck hpos hv
  case drawdown =>
    obtain ⟨hpos, rv, hcheck, hv, -⟩ :=
      share_le h hinc
        (hmem (maxDrawdownHalt cfg.limits.maxDrawdownHalt) (by simp [RiskGuard.defaultRules]))
    exact maxDrawdownHalt_sound hcheck hpos hv
  case mode =>
    obtain ⟨hpos, rv, hcheck, hv, -⟩ := share_le h hinc hgate
    exact riskModeGate_sound hcheck hpos hv

/-- The default chain on `entryContext`: one lot is approved, within every limit. -/
theorem all_limits_entryContext :
    ∃ res k', (RiskGuard.fromConfig RiskConfig.default).evaluate none entryContext
        = .ok (res, k') ∧ res.increaseApproved = 1 ∧
      WithinLimits RiskConfig.default none entryContext |res.approvedQty| := by
  have hok : ((RiskGuard.fromConfig RiskConfig.default).evaluate none entryContext).map
      (fun r => r.1.increaseApproved) = .ok 1 := by
    decide +kernel
  cases h : (RiskGuard.fromConfig RiskConfig.default).evaluate none entryContext with
  | error e =>
    rw [h] at hok
    cases hok
  | ok r =>
    rw [h] at hok
    have hone : r.1.increaseApproved = 1 := Except.ok.inj hok
    refine ⟨r.1, r.2, rfl, hone, ?_⟩
    exact all_limits_hold RiskConfig.default none r.2 entryContext r.1 (by decide +kernel)
      (by decide +kernel) (by decide +kernel) h (by rw [hone]; exact one_pos)

end FuzzHelm
