import FuzzHelm.Risk.KillSwitch
import FuzzHelm.Risk.Rules
import FuzzHelm.Risk.State

namespace FuzzHelm

open Lib

/-!
# The risk guard

The chain of rules, the gate of the risk mode, and the evaluation of one request.

* `RiskGuard` — the chain, with the distinctness of the rule names as a field;
* `RiskGuard.evaluate` — check every rule, compose, floor, and flatten when the latch or a
  halt signal asks for it;
* `evaluate_eq_ok` — everything an evaluation returns, as a conjunction;
* `evaluate_isOk` — an evaluation returns whenever its rules do and the lot step is positive.
-/

/-! ### The gate of the risk mode -/

/-- The string value of a state. -/
def RiskState.value : RiskState → String
  | .normal => "NORMAL"
  | .warning => "WARNING"
  | .cooldown => "COOLDOWN"
  | .halted => "HALTED"

/-- The text of a policy. -/
def CooldownPolicy.value : CooldownPolicy → String
  | .scaledEntries => "scaled_entries"
  | .reduceOnly => "reduce_only"

/-- The switch that the guard was built with is tripped. -/
def isTripped (killswitch : Option KillSwitch) : Bool := killswitch.any KillSwitch.tripped

/-- The increase opens a position: nothing of the current one is kept. -/
def newEntry (ctx : RiskContext) : Bool := decide (0 < ctx.increaseQty ∧ ctx.baseQty = 0)

/-- The highest severity at which this kind of increase is still allowed. -/
def modeLimit (policy : CooldownPolicy) (ctx : RiskContext) : ℕ :=
  if policy = .scaledEntries ∧ newEntry ctx then RiskState.cooldown.severity
  else RiskState.warning.severity

/-- The state that the gate sees: a tripped switch counts as `HALTED`. -/
def modeState (killswitch : Option KillSwitch) (ctx : RiskContext) : RiskState :=
  if isTripped killswitch then .halted else ctx.riskState

/-- `RiskModeGate`: what the state of the risk leaves of an increase. -/
def riskModeGate (killswitch : Option KillSwitch) (policy : CooldownPolicy) : RiskRule where
  name := "risk_mode"
  check ctx :=
    let level := (modeState killswitch ctx).severity
    let limit := modeLimit policy ctx
    let entryLimit :=
      if policy = .scaledEntries then RiskState.cooldown.severity
      else RiskState.warning.severity
    .ok {
      rule := "risk_mode"
      verdict := vetoIncrease ctx (decide (limit < level))
      observed := some level
      limit := some limit
      payload := [("state", .str ctx.riskState.value),
        ("kill_switch", .bool (isTripped killswitch)), ("cooldown_policy", .str policy.value),
        ("new_entry", .bool (newEntry ctx)),
        ("reduce_only", .bool (RiskState.warning.severity < level)),
        ("entries_allowed", .bool (level ≤ entryLimit)),
        ("flatten_all", .bool (modeState killswitch ctx = .halted)),
        ("increase_qty", .dec ctx.increaseQty)]
      halt := false }

/-- The state and the switch allow this kind of increase: any increase up to `WARNING`, and
    in `COOLDOWN` only a new entry under `scaled_entries`. -/
def ModeAllows (killswitch : Option KillSwitch) (policy : CooldownPolicy) (ctx : RiskContext) :
    Prop :=
  isTripped killswitch = false ∧
    (ctx.riskState = .normal ∨ ctx.riskState = .warning ∨
      (ctx.riskState = .cooldown ∧ policy = .scaledEntries ∧ ctx.baseQty = 0))

/-- The gate of the mode lets an increase pass in the modes that allow it alone. -/
theorem riskModeGate_sound {killswitch : Option KillSwitch} {policy : CooldownPolicy}
    {ctx : RiskContext} {rv : RuleVerdict}
    (h : (riskModeGate killswitch policy).check ctx = .ok rv) (hinc : 0 < ctx.increaseQty)
    (hv : 0 < rv.verdict.factor) : ModeAllows killswitch policy ctx := by
  cases h
  have hb := not_breached_of_vetoIncrease hinc hv
  rw [decide_eq_false_iff_not, not_lt] at hb
  unfold modeState modeLimit at hb
  have htrip : isTripped killswitch = false := by
    by_contra ht
    rw [if_pos (by simpa using ht)] at hb
    split at hb <;> exact absurd hb (by decide)
  refine ⟨htrip, ?_⟩
  rw [htrip, if_neg Bool.false_ne_true] at hb
  cases hs : ctx.riskState with
  | normal => exact .inl rfl
  | warning => exact .inr (.inl rfl)
  | cooldown =>
    rw [hs] at hb
    split at hb
    · rename_i hentry
      rw [newEntry, decide_eq_true_iff] at hentry
      exact .inr (.inr ⟨rfl, hentry.1, hentry.2.2⟩)
    · exact absurd hb (by decide)
  | halted =>
    rw [hs] at hb
    split at hb <;> exact absurd hb (by decide)

/-! ### The guard -/

/-- What an evaluation answers: the verdict, what is approved, and the records. -/
structure GuardResult where
  verdict : Verdict
  records : List RuleVerdict
  approvedQty : Decimal
  requestedQty : Decimal
  currentQty : Decimal
  increaseRequested : Decimal
  increaseApproved : Decimal
  flattenAll : Bool
  halt : Bool
  deriving DecidableEq

/-- The change of the position that has to be sent. -/
def GuardResult.orderQty (r : GuardResult) : Decimal := r.approvedQty - r.currentQty

/-- The chain; a repeated rule name is refused by the constructor. -/
structure RiskGuard where
  rules : List RiskRule
  modeGate : Bool
  cooldownPolicy : CooldownPolicy
  names_nodup : (rules.map RiskRule.name).Nodup

namespace RiskGuard

/-- The rules in the order of evaluation: the gate of the mode comes last. -/
def chain (g : RiskGuard) (killswitch : Option KillSwitch) : List RiskRule :=
  g.rules ++ (if g.modeGate then [riskModeGate killswitch g.cooldownPolicy] else [])

/-- The loop over the rules. -/
def checkAll : List RiskRule → RiskContext → Except PyError (List RuleVerdict)
  | [], _ => .ok []
  | r :: rs, ctx => do
    let rv ← r.check ctx
    let rvs ← checkAll rs ctx
    return rv :: rvs

/-- The increase after the chain: floored to the lot step when one is given. -/
def approvedIncrease (verdict : Verdict) (ctx : RiskContext) : Except PyError Decimal := do
  let approved ← verdict.exposure ctx.increaseQty
  match ctx.stepSize with
  | none => return approved
  | some step => quantizeStep approved step .down

/-- `evaluate`: the result and the switch after it. -/
def evaluate (g : RiskGuard) (killswitch : Option KillSwitch) (ctx : RiskContext) :
    Except PyError (GuardResult × Option KillSwitch) := do
  let records ← checkAll (g.chain killswitch) ctx
  let verdict := Verdict.compose (records.map RuleVerdict.verdict)
  let approvedInc ← approvedIncrease verdict ctx
  let halt := records.any RuleVerdict.halt
  let killswitch' :=
    if halt then
      killswitch.map (fun k => (k.trip none "max_drawdown_halt" (some ctx.tsNs)).2)
    else killswitch
  let flatten := halt || isTripped killswitch' || decide (ctx.riskState = .halted)
  return ({
    verdict := verdict
    records := records
    approvedQty := if flatten then 0 else (ctx.baseQty + approvedInc) * ctx.targetSide
    requestedQty := ctx.targetQty
    currentQty := ctx.currentQty
    increaseRequested := ctx.increaseQty
    increaseApproved := if flatten then 0 else approvedInc
    flattenAll := flatten
    halt := halt }, killswitch')

/-- `default_rules`: the six limits. -/
def defaultRules (cfg : RiskConfig) : List RiskRule :=
  [staleData cfg.limits.staleData, maxPositionNotional cfg.limits.maxPositionNotional,
    maxGrossLeverage cfg.limits.maxGrossLeverage, maxDailyLoss cfg.limits.maxDailyLoss,
    maxDrawdownHalt cfg.limits.maxDrawdownHalt, liquidationBuffer cfg.limits.liquidationBuffer]

/-- `from_config`: the six rules in their order, and the gate. -/
def fromConfig (cfg : RiskConfig) : RiskGuard where
  rules := defaultRules cfg
  modeGate := true
  cooldownPolicy := cfg.stateMachine.cooldownPolicy
  names_nodup := by
    simp [defaultRules, staleData, maxPositionNotional, maxGrossLeverage, maxDailyLoss,
      maxDrawdownHalt, liquidationBuffer]

/-! ### What an evaluation returns -/

/-- The records are the verdicts of the rules, in order. -/
theorem checkAll_eq_ok {rules : List RiskRule} {ctx : RiskContext} {rvs : List RuleVerdict} :
    checkAll rules ctx = .ok rvs ↔
      List.Forall₂ (fun r rv => r.check ctx = .ok rv) rules rvs := by
  induction rules generalizing rvs with
  | nil =>
    constructor
    · rintro ⟨⟩
      exact .nil
    · rintro ⟨⟩
      rfl
  | cons r rs ih =>
    rw [checkAll, bind_eq_ok]
    constructor
    · rintro ⟨rv, hrv, h⟩
      obtain ⟨rvs', hrvs, h⟩ := bind_eq_ok.mp h
      cases h
      exact .cons hrv (ih.mp hrvs)
    · rintro (_ | ⟨hrv, hrvs⟩)
      exact ⟨_, hrv, bind_eq_ok.mpr ⟨_, ih.mpr hrvs, rfl⟩⟩

/-- A chain whose rules all return, returns. -/
theorem checkAll_isOk {rules : List RiskRule} {ctx : RiskContext}
    (h : ∀ r ∈ rules, ∃ rv, r.check ctx = .ok rv) : ∃ rvs, checkAll rules ctx = .ok rvs := by
  induction rules with
  | nil => exact ⟨[], rfl⟩
  | cons r rs ih =>
    obtain ⟨rv, hrv⟩ := h r (List.mem_cons_self ..)
    obtain ⟨rvs, hrvs⟩ := ih fun r' hr' => h r' (List.mem_cons_of_mem _ hr')
    exact ⟨rv :: rvs, bind_eq_ok.mpr ⟨rv, hrv, bind_eq_ok.mpr ⟨rvs, hrvs, rfl⟩⟩⟩

/-- **Flooring never goes up.** The increase that the chain leaves lies between zero and
    what its verdict allows. -/
theorem approvedIncrease_bounds {verdict : Verdict} {ctx : RiskContext} {inc : Decimal}
    (h : approvedIncrease verdict ctx = .ok inc) :
    0 ≤ inc ∧ inc ≤ verdict.allowed ctx.increaseQty := by
  have hnonneg := verdict.allowed_nonneg ctx.increaseQty_nonneg
  rw [approvedIncrease, Verdict.exposure_of_nonneg verdict ctx.increaseQty_nonneg] at h
  obtain ⟨approved, happ, h⟩ := bind_eq_ok.mp h
  cases happ
  split at h
  · cases h
    exact ⟨hnonneg, le_rfl⟩
  · obtain ⟨hstep, hval⟩ := quantizeStep_eq_ok.mp h
    rw [← hval]
    exact ⟨quantize_down_nonneg hstep hnonneg, quantize_down_le hstep hnonneg⟩

/-- **Everything an evaluation returns.** -/
theorem evaluate_eq_ok {g : RiskGuard} {k k' : Option KillSwitch} {ctx : RiskContext}
    {res : GuardResult} (h : g.evaluate k ctx = .ok (res, k')) :
    ∃ inc,
      List.Forall₂ (fun r rv => r.check ctx = .ok rv) (g.chain k) res.records ∧
      approvedIncrease (Verdict.compose (res.records.map RuleVerdict.verdict)) ctx = .ok inc ∧
      res.halt = res.records.any RuleVerdict.halt ∧
      k' = (if res.halt then
          k.map (fun k => (k.trip none "max_drawdown_halt" (some ctx.tsNs)).2)
        else k) ∧
      res.flattenAll = (res.halt || isTripped k' || decide (ctx.riskState = .halted)) ∧
      res.approvedQty =
        (if res.flattenAll then 0 else (ctx.baseQty + inc) * ctx.targetSide) ∧
      res.increaseApproved = (if res.flattenAll then 0 else inc) := by
  obtain ⟨records, hrec, h⟩ := bind_eq_ok.mp h
  obtain ⟨inc, hinc, h⟩ := bind_eq_ok.mp h
  cases h
  exact ⟨inc, checkAll_eq_ok.mp hrec, hinc, rfl, rfl, rfl, rfl, rfl⟩

/-- An evaluation returns when every rule of the chain does and the lot step is positive. -/
theorem evaluate_isOk {g : RiskGuard} {k : Option KillSwitch} {ctx : RiskContext}
    (hrules : ∀ r ∈ g.chain k, ∃ rv, r.check ctx = .ok rv)
    (hstep : ∀ step ∈ ctx.stepSize, 0 < step) :
    ∃ res k', g.evaluate k ctx = .ok (res, k') := by
  obtain ⟨records, hrec⟩ := checkAll_isOk hrules
  have hinc : ∃ inc,
      approvedIncrease (Verdict.compose (records.map RuleVerdict.verdict)) ctx = .ok inc := by
    rw [approvedIncrease, Verdict.exposure_of_nonneg _ ctx.increaseQty_nonneg]
    cases hs : ctx.stepSize with
    | none => exact ⟨_, rfl⟩
    | some step => exact ⟨_, quantizeStep_eq_ok.mpr ⟨hstep step hs, rfl⟩⟩
  obtain ⟨inc, hinc⟩ := hinc
  refine ⟨_, _, bind_eq_ok.mpr ⟨records, hrec, bind_eq_ok.mpr ⟨inc, hinc, rfl⟩⟩⟩

end RiskGuard

end FuzzHelm
