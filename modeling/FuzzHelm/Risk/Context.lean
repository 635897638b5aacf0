import FuzzHelm.Core.Clock
import FuzzHelm.Risk.Verdict

namespace FuzzHelm

open Lib

/-!
# The equity tracker and the context of a risk check

Everything the rules see is one `RiskContext`; everything that accumulates over time is the
`EquityTracker` (running peak, profit of the UTC day).

* `EquityTracker.update_eq_ok` — an accepted observation becomes the last one and its
  snapshot is the tracker's snapshot;
* `RiskContext.base_add_increase` — the split of the target into a part that is kept and an
  increase that the rules gate;
* `capIncrease_sound` — a cap on the size after the trade, turned into a verdict on the
  increase, is respected by whatever the verdict leaves.
-/

/-! ### The equity tracker -/

/-- `EquitySnapshot`: the equity, its peak, the drawdown and the loss of the day. -/
structure EquitySnapshot where
  tsNs : ℤ
  equity : Decimal
  peak : Decimal
  drawdown : Decimal
  dayStartNs : ℤ
  equityDayOpen : Decimal
  pnlDay : Decimal
  deriving DecidableEq, Repr

/-- `PnL_day / E_open`; zero when the day opened without capital. -/
def EquitySnapshot.dayReturn (s : EquitySnapshot) : Decimal :=
  if s.equityDayOpen ≤ 0 then 0 else s.pnlDay / s.equityDayOpen

/-- `EquityTracker`: the peak and the day, with the last observation. -/
structure EquityTracker where
  peak : Option Decimal
  day : Option ℤ
  dayOpen : Decimal
  lastEquity : Option Decimal
  lastTs : Option ℤ
  snapshot : Option EquitySnapshot
  deriving DecidableEq, Repr

namespace EquityTracker

/-- `EquityTracker()`: nothing was observed. -/
def new : EquityTracker := ⟨none, none, 0, none, none, none⟩

/-- `_make`: a peak that is not positive counts as a full drawdown. -/
def make (tr : EquityTracker) (tsNs : ℤ) (equity : Decimal) : EquitySnapshot :=
  let peak := tr.peak.getD equity
  { tsNs := tsNs
    equity := equity
    peak := peak
    drawdown := if 0 < peak then 1 - equity / peak else 1
    dayStartNs := tr.day.getD (utcDayStartNs tsNs)
    equityDayOpen := tr.dayOpen
    pnlDay := equity - tr.dayOpen }

/-- The capital with which the day of the observation opened. -/
def nextDayOpen (tr : EquityTracker) (day : ℤ) (equity : Decimal) : Decimal :=
  match tr.day with
  | none => equity
  | some d => if day ≠ d then tr.lastEquity.getD equity else tr.dayOpen

/-- The running peak after the observation. -/
def nextPeak (tr : EquityTracker) (equity : Decimal) : Decimal :=
  match tr.peak with
  | none => equity
  | some p => if p < equity then equity else p

/-- The tracker after the observation of `equity` at `tsNs`. -/
def observe (tr : EquityTracker) (tsNs : ℤ) (equity : Decimal) : EquityTracker :=
  let day := utcDayStartNs tsNs
  let tr' : EquityTracker :=
    { tr with
      dayOpen := tr.nextDayOpen day equity
      day := some day
      peak := some (tr.nextPeak equity)
      lastEquity := some equity
      lastTs := some tsNs }
  { tr' with snapshot := some (tr'.make tsNs equity) }

/-- `update`: a time stamp before the last one raises. -/
def update (tr : EquityTracker) (tsNs : ℤ) (equity : Decimal) :
    Except PyError (EquitySnapshot × EquityTracker) :=
  if tr.lastTs.any (fun last => tsNs < last) then
    .error (.valueError "equity timestamps must be non-decreasing")
  else
    let tr' := tr.observe tsNs equity
    .ok (tr'.make tsNs equity, tr')

/-- `rebase`: the peak and the opening capital of the day become the current equity. -/
def rebase (tr : EquityTracker) : Option EquitySnapshot × EquityTracker :=
  match tr.lastEquity, tr.lastTs with
  | some e, some ts =>
    let tr' := { tr with peak := some e, dayOpen := e }
    let snap := tr'.make ts e
    (some snap, { tr' with snapshot := some snap })
  | _, _ => (none, tr)

/-- An accepted observation is not older than the last one; its snapshot is the one that
    the tracker keeps. -/
theorem update_eq_ok {tr tr' : EquityTracker} {tsNs : ℤ} {equity : Decimal}
    {snap : EquitySnapshot} (h : tr.update tsNs equity = .ok (snap, tr')) :
    (∀ last ∈ tr.lastTs, last ≤ tsNs) ∧ tr' = tr.observe tsNs equity ∧
      tr'.snapshot = some snap := by
  unfold update at h
  split at h
  · cases h
  · rename_i hts
    cases h
    refine ⟨fun last hlast => ?_, rfl, rfl⟩
    rw [Option.mem_def] at hlast
    rw [hlast] at hts
    simpa using hts

/-- The equity that is observed is the last one. -/
@[simp] theorem observe_lastEquity (tr : EquityTracker) (ts : ℤ) (e : Decimal) :
    (tr.observe ts e).lastEquity = some e := rfl

/-- The time that is observed is the last one. -/
@[simp] theorem observe_lastTs (tr : EquityTracker) (ts : ℤ) (e : Decimal) :
    (tr.observe ts e).lastTs = some ts := rfl

/-- After an observation a rebase always has a value to go to. -/
theorem rebase_observe (tr : EquityTracker) (ts : ℤ) (e : Decimal) :
    ∃ snap, (tr.observe ts e).rebase.1 = some snap ∧
      (tr.observe ts e).rebase.2.snapshot = some snap ∧ snap.tsNs = ts ∧ snap.equity = e ∧
      snap.peak = e ∧ snap.equityDayOpen = e ∧ snap.pnlDay = 0 ∧
      snap.drawdown = if 0 < e then 0 else 1 := by
  refine ⟨_, rfl, rfl, rfl, rfl, rfl, rfl, sub_self e, ?_⟩
  show (if 0 < e then 1 - e / e else 1) = _
  split
  · rename_i he
    rw [div_self he.ne', sub_self]
  · rfl

end EquityTracker

/-! ### The context of one check -/

/-- The snapshot that the rules read; the checks of `__post_init__` are fields. -/
structure RiskContext where
  tsNs : ℤ
  instrument : String
  price : Decimal
  equity : Decimal
  currentQty : Decimal
  targetQty : Decimal
  atr : Decimal
  stopDistance : Decimal
  drawdown : Decimal
  pnlDay : Decimal
  equityDayOpen : Option Decimal
  dayStartNs : Option ℤ
  grossNotionalOther : Decimal
  mmr : Decimal
  maintAmount : Decimal
  leverageSetting : Decimal
  lastDataNs : Option ℤ
  dqScore : Decimal
  riskState : RiskState
  stepSize : Option Decimal
  price_pos : 0 < price
  atr_nonneg : 0 ≤ atr
  stopDistance_nonneg : 0 ≤ stopDistance
  leverageSetting_pos : 0 < leverageSetting
  grossNotionalOther_nonneg : 0 ≤ grossNotionalOther

namespace RiskContext

/-- `from_snapshot`, with the checks of the constructor; `grossNotionalOther` is zero. -/
def fromSnapshot (snap : EquitySnapshot) (instrument : String)
    (price currentQty targetQty atr stopDistance mmr maintAmount leverageSetting : Decimal)
    (lastDataNs : Option ℤ) (dqScore : Decimal) (riskState : RiskState)
    (stepSize : Option Decimal) : Except PyError RiskContext :=
  if hp : 0 < price then
    if ha : 0 ≤ atr then
      if hs : 0 ≤ stopDistance then
        if hl : 0 < leverageSetting then
          .ok {
            tsNs := snap.tsNs
            instrument := instrument
            price := price
            equity := snap.equity
            currentQty := currentQty
            targetQty := targetQty
            atr := atr
            stopDistance := stopDistance
            drawdown := snap.drawdown
            pnlDay := snap.pnlDay
            equityDayOpen := some snap.equityDayOpen
            dayStartNs := some snap.dayStartNs
            grossNotionalOther := 0
            mmr := mmr
            maintAmount := maintAmount
            leverageSetting := leverageSetting
            lastDataNs := lastDataNs
            dqScore := dqScore
            riskState := riskState
            stepSize := stepSize
            price_pos := hp
            atr_nonneg := ha
            stopDistance_nonneg := hs
            leverageSetting_pos := hl
            grossNotionalOther_nonneg := le_rfl }
        else .error (.valueError "leverage_setting must be > 0")
      else .error (.valueError "atr and stop_distance must be >= 0")
    else .error (.valueError "atr and stop_distance must be >= 0")
  else .error (.valueError "price must be > 0")

/-- A context that is built has a positive price and the quantities it was given. -/
theorem fromSnapshot_eq_ok {snap : EquitySnapshot} {instrument : String}
    {price cur target atr stop mmr ma lev : Decimal} {last : Option ℤ} {dq : Decimal}
    {state : RiskState} {step : Option Decimal} {ctx : RiskContext}
    (h : fromSnapshot snap instrument price cur target atr stop mmr ma lev last dq state step
      = .ok ctx) :
    0 < price ∧ ctx.currentQty = cur ∧ ctx.targetQty = target ∧ ctx.riskState = state ∧
      ctx.stepSize = step := by
  unfold fromSnapshot at h
  split at h
  · rename_i hp
    split at h
    · split at h
      · split at h
        · cases h
          exact ⟨hp, rfl, rfl, rfl, rfl⟩
        · cases h
      · cases h
    · cases h
  · cases h

variable (ctx : RiskContext)

/-- The side of the target. -/
def targetSide : ℤ := sign ctx.targetQty

/-- `is_flip`: the target is on the other side of the position. -/
def isFlip : Prop := sign ctx.currentQty * sign ctx.targetQty < 0

/-- Whether a target is a flip can be computed. -/
instance : Decidable ctx.isFlip := inferInstanceAs (Decidable (_ < _))

/-- The part of the position that the order leaves in place. -/
def baseQty : Decimal :=
  if ctx.targetQty = 0 then 0
  else if ctx.isFlip then 0
  else min |ctx.currentQty| |ctx.targetQty|

/-- The increase that the rules gate; zero for an order that only reduces. -/
def increaseQty : Decimal :=
  if ctx.targetQty = 0 then 0
  else if ctx.isFlip then |ctx.targetQty|
  else max 0 (|ctx.targetQty| - |ctx.currentQty|)

/-- The size of the target. -/
def postQty : Decimal := |ctx.targetQty|

/-- The value of the target. -/
def postNotional : Decimal := ctx.postQty * ctx.price

/-- The age of the price. -/
def lagNs : ℤ :=
  match ctx.lastDataNs with
  | none => 0
  | some t => ctx.tsNs - t

/-- The equity at the start of the day, or the present one. -/
def effectiveDayOpen : Decimal := ctx.equityDayOpen.getD ctx.equity

/-- What is kept of a position is not negative. -/
theorem baseQty_nonneg : 0 ≤ ctx.baseQty := by
  unfold baseQty
  split
  · exact le_rfl
  · split
    · exact le_rfl
    · exact le_min (abs_nonneg _) (abs_nonneg _)

/-- An increase is not negative. -/
theorem increaseQty_nonneg : 0 ≤ ctx.increaseQty := by
  unfold increaseQty
  split
  · exact le_rfl
  · split
    · exact abs_nonneg _
    · exact le_max_left _ _

/-- **The split of a target.** What is kept and what is added make up the size after the
    trade. -/
theorem base_add_increase : ctx.baseQty + ctx.increaseQty = ctx.postQty := by
  unfold baseQty increaseQty postQty
  split
  · rename_i h
    rw [h, abs_zero, add_zero]
  · split
    · rw [zero_add]
    · rcases le_total |ctx.currentQty| |ctx.targetQty| with h | h
      · rw [min_eq_left h, max_eq_right (sub_nonneg.mpr h)]
        ring
      · rw [min_eq_right h, max_eq_left (sub_nonpos.mpr h), add_zero]

end RiskContext

/-! ### Caps as verdicts -/

/-- The constraint "size after the trade at most `qMaxPost`" as a verdict on the increase. -/
def capIncrease (ctx : RiskContext) (qMaxPost : Decimal) : Except PyError Verdict :=
  let inc := ctx.increaseQty
  if inc ≤ 0 ∨ ctx.postQty ≤ qMaxPost then .ok .allow
  else
    let room := qMaxPost - ctx.baseQty
    if room ≤ 0 then .ok .veto else Verdict.shrink (room / inc)

/-- **A cap is respected.** When the verdict is no veto, the kept part together with the
    allowed share of the increase stays within the cap. -/
theorem capIncrease_sound {ctx : RiskContext} {qMaxPost : Decimal} {v : Verdict}
    (h : capIncrease ctx qMaxPost = .ok v) (hinc : 0 < ctx.increaseQty) (hv : 0 < v.factor) :
    ctx.baseQty + ctx.increaseQty * v.factor ≤ qMaxPost := by
  simp only [capIncrease] at h
  split at h
  · rename_i hfit
    cases h
    rcases hfit with hle | hle
    · exact absurd hinc (not_lt.mpr hle)
    · rw [Verdict.allow_factor, mul_one, ctx.base_add_increase]
      exact hle
  · split at h
    · cases h
      exact absurd hv (lt_irrefl 0)
    · obtain ⟨-, -, hf⟩ := Verdict.shrink_eq_ok.mp h
      rw [hf, mul_div_cancel₀ _ hinc.ne']
      linarith

/-- `num / den`, undefined when the denominator is not positive. -/
def ratio (num den : Decimal) : Option Decimal := if den ≤ 0 then none else some (num / den)

/-- `dec_ns_to_s`: seconds, exactly. -/
def decNsToS (ns : ℤ) : Decimal := ns / 1000000000

end FuzzHelm
