import FuzzHelm.Core.Money

namespace FuzzHelm

/-!
# Configuration of the risk contour

The validated image of `risk_limits.yaml`: the six limits, the thresholds of the state
machine and the parameters of the sizer and of the Schmitt trigger.  Every check of the
schema is a field, so a configuration that the loader would reject cannot be built.
-/

/-! ### The six limits -/

/-- The bound of a position's value. -/
structure MaxPositionNotionalCfg where
  value : Decimal
  value_pos : 0 < value
  value_le : value ≤ 1

/-- The bound of the leverage. -/
structure MaxGrossLeverageCfg where
  value : Decimal
  value_pos : 0 < value

/-- The bound of the loss of a day. -/
structure MaxDailyLossCfg where
  value : Decimal
  value_pos : 0 < value
  value_lt : value < 1

/-- The drawdown at which the risk halts. -/
structure MaxDrawdownHaltCfg where
  value : Decimal
  value_pos : 0 < value
  value_lt : value < 1

/-- The distance that the liquidation must keep. -/
structure LiquidationBufferCfg where
  minDtlAtr : Decimal
  b : Decimal
  minDtlAtr_pos : 0 < minDtlAtr
  b_nonneg : 0 ≤ b
  b_lt : b < 1

/-- How old a price may be. -/
structure StaleDataCfg where
  maxLagS : Decimal
  minDq : Decimal
  maxLagS_pos : 0 < maxLagS
  minDq_nonneg : 0 ≤ minDq
  minDq_le : minDq ≤ 1

/-- The six limits together, each within its bounds. -/
structure LimitsCfg where
  maxPositionNotional : MaxPositionNotionalCfg
  maxGrossLeverage : MaxGrossLeverageCfg
  maxDailyLoss : MaxDailyLossCfg
  maxDrawdownHalt : MaxDrawdownHaltCfg
  liquidationBuffer : LiquidationBufferCfg
  staleData : StaleDataCfg

/-! ### The state machine -/

/-- What is allowed in `COOLDOWN`: new entries of scaled size, or no increase at all. -/
inductive CooldownPolicy where
  | scaledEntries
  | reduceOnly
  deriving DecidableEq, Repr

/-- Thresholds, dwell times and size multipliers; the bands are nested and the exit of a
    band lies strictly below its entry. -/
structure StateMachineCfg where
  warnEnter : Decimal
  warnExit : Decimal
  warnDwell : ℕ
  warnVolRatio : ℚ
  coolEnter : Decimal
  coolExit : Decimal
  coolDwell : ℕ
  coolDailyLoss : Decimal
  haltEnter : Decimal
  haltDailyLoss : Decimal
  kappaMode : RiskState → Decimal
  cooldownPolicy : CooldownPolicy
  warnEnter_range : 0 < warnEnter ∧ warnEnter < 1
  warnExit_range : 0 ≤ warnExit ∧ warnExit < 1
  warnVolRatio_pos : 0 < warnVolRatio
  coolEnter_range : 0 < coolEnter ∧ coolEnter < 1
  coolExit_range : 0 ≤ coolExit ∧ coolExit < 1
  coolDailyLoss_range : 0 < coolDailyLoss ∧ coolDailyLoss < 1
  haltEnter_range : 0 < haltEnter ∧ haltEnter < 1
  haltDailyLoss_range : 0 < haltDailyLoss ∧ haltDailyLoss < 1
  warn_band : warnExit < warnEnter
  cool_band : coolExit < coolEnter
  nested : warnEnter ≤ coolExit
  cool_lt_halt : coolEnter < haltEnter
  coolDaily_lt_haltDaily : coolDailyLoss < haltDailyLoss
  kappa_range : ∀ s, 0 ≤ kappaMode s ∧ kappaMode s ≤ 1
  kappa_warning : kappaMode .warning ≤ kappaMode .normal
  kappa_cooldown : kappaMode .cooldown ≤ kappaMode .warning
  kappa_halted : kappaMode .halted = 0

/-! ### Sizing and hysteresis -/

/-- The numbers of the sizing. -/
structure SizingCfg where
  rhoBase : ℚ
  chiAtr : ℚ
  maxLeverage : ℚ
  rhoBase_pos : 0 < rhoBase
  chiAtr_pos : 0 < chiAtr
  maxLeverage_pos : 0 < maxLeverage

/-- The levels at which a side is entered and left. -/
structure HysteresisCfg where
  enter : ℚ
  exit : ℚ
  enter_pos : 0 < enter
  enter_le : enter ≤ 1
  exit_nonneg : 0 ≤ exit
  band : exit ≤ enter

/-- `RiskConfig`: the file of the limits, within the bounds of its schema. -/
structure RiskConfig where
  limits : LimitsCfg
  stateMachine : StateMachineCfg
  sizing : SizingCfg
  hysteresis : HysteresisCfg

/-! ### The defaults -/

/-- `StateMachineCfg()`: the default thresholds pass their own validation. -/
def StateMachineCfg.default : StateMachineCfg where
  warnEnter := 4 / 100
  warnExit := 25 / 1000
  warnDwell := 15
  warnVolRatio := 16 / 10
  coolEnter := 8 / 100
  coolExit := 5 / 100
  coolDwell := 30
  coolDailyLoss := 2 / 100
  haltEnter := 12 / 100
  haltDailyLoss := 3 / 100
  kappaMode := fun
    | .normal => 1
    | .warning => 1 / 2
    | .cooldown => 1 / 4
    | .halted => 0
  cooldownPolicy := .scaledEntries
  warnEnter_range := by norm_num
  warnExit_range := by norm_num
  warnVolRatio_pos := by norm_num
  coolEnter_range := by norm_num
  coolExit_range := by norm_num
  coolDailyLoss_range := by norm_num
  haltEnter_range := by norm_num
  haltDailyLoss_range := by norm_num
  warn_band := by norm_num
  cool_band := by norm_num
  nested := by norm_num
  cool_lt_halt := by norm_num
  coolDaily_lt_haltDaily := by norm_num
  kappa_range := fun s => by cases s <;> norm_num
  kappa_warning := by norm_num
  kappa_cooldown := by norm_num
  kappa_halted := rfl

/-- The limits of `config/risk_limits.yaml`. -/
def LimitsCfg.default : LimitsCfg where
  maxPositionNotional := ⟨30 / 100, by norm_num, by norm_num⟩
  maxGrossLeverage := ⟨3, by norm_num⟩
  maxDailyLoss := ⟨2 / 100, by norm_num, by norm_num⟩
  maxDrawdownHalt := ⟨12 / 100, by norm_num, by norm_num⟩
  liquidationBuffer := ⟨6, 20 / 100, by norm_num, by norm_num, by norm_num⟩
  staleData := ⟨5, 90 / 100, by norm_num, by norm_num, by norm_num⟩

/-- `SizingCfg()`: the values of the schema. -/
def SizingCfg.default : SizingCfg where
  rhoBase := 5 / 1000
  chiAtr := 2
  maxLeverage := 3
  rhoBase_pos := by norm_num
  chiAtr_pos := by norm_num
  maxLeverage_pos := by norm_num

/-- `HysteresisCfg()`: the values of the schema. -/
def HysteresisCfg.default : HysteresisCfg where
  enter := 25 / 100
  exit := 12 / 100
  enter_pos := by norm_num
  enter_le := by norm_num
  exit_nonneg := by norm_num
  band := by norm_num

/-- The configuration without a file: every default passes its own check. -/
def RiskConfig.default : RiskConfig :=
  ⟨LimitsCfg.default, StateMachineCfg.default, SizingCfg.default, HysteresisCfg.default⟩

end FuzzHelm
