import FuzzHelm.Backtest.Records
import FuzzHelm.Execution.PaperBroker
import FuzzHelm.Execution.Router
import FuzzHelm.Risk.Guard
import FuzzHelm.Sizing.Hysteresis
import FuzzHelm.Sizing.Sizer

namespace FuzzHelm

open Lib

/-!
# The trading loop

One step of the engine: a closed bar goes through the execution of what is queued, the
account, the risk machine and the decision, which queues the orders of the next bar.  The
outputs of the decision core and of the volatility estimate are inputs of the step.

* `TradingLoop` — the state between two bars;
* `TradingLoop.cancelPendingIncreases`, `applyFill`, `syncOpenOrders`, `refreshLiquidation` —
  the parts of a step before the decision;
* `TradingLoop.decide`, `submit`, `send` — the decision and its orders;
* `TradingLoop.step` — the step.
-/

/-! ### State -/

/-- What a run is configured with and does not change; a zero rate, match window or tolerance gives
    way to a default where it is read. -/
structure LoopCfg where
  sizing : SizingCfg
  tpMultiple : ℚ
  fundingFallback : Decimal
  fundingMatchNs : ℤ
  tol : Decimal
  checkInvariants : Bool
  recordAll : Bool
  decideFrom : ℤ

/-- `VOL_LAMBDA` and the funding rate that the broker starts with. -/
def defaultVolLambda : Decimal := 94 / 100
/-- `Decimal("0.0001")`, which takes the place of a fallback of zero. -/
def defaultFundingRate : Decimal := 1 / 10000

namespace LoopCfg

variable (cfg : LoopCfg)

/-- `cfg.funding_fallback_rate or Decimal("0.0001")`: a fallback of zero is the default. -/
def fallbackRate : Decimal :=
  if cfg.fundingFallback = 0 then defaultFundingRate else cfg.fundingFallback

/-- `cfg.funding_match_ns or NS_PER_MIN`: a window of zero is a minute. -/
def matchNs : ℤ := if cfg.fundingMatchNs = 0 then nsPerMin else cfg.fundingMatchNs

/-- `cfg.invariant_tolerance or Decimal("1E-9")`: a tolerance of zero is the default. -/
def tolerance : Decimal := if cfg.tol = 0 then 1 / 10 ^ 9 else cfg.tol

/-- The configuration with the fallback and the match window that the loop goes by. -/
def inEffect : LoopCfg :=
  { cfg with fundingFallback := cfg.fallbackRate, fundingMatchNs := cfg.matchNs }

end LoopCfg

/-- The state between two bars.  `openOrders` are the ids of the orders under supervision;
    their records are those of `orders`. -/
structure TradingLoop where
  instrument : Instrument
  cfg : LoopCfg
  clock : ManualClock
  broker : PaperBroker
  router : OrderRouter
  portfolio : Portfolio
  gate : HysteresisGate
  fsm : RiskStateMachine
  riskCfg : RiskConfig
  guard : RiskGuard
  index : ℤ
  funding : List (ℤ × Decimal)
  fundingPtr : ℕ
  lastOpen : Option ℤ
  orders : Dict Uuid OrderRecord
  openOrders : List Uuid
  touched : List Uuid
  reason : Dict Uuid ExitReason
  entries : Dict Uuid EntryMeta
  openPos : Option PositionRecord
  haltIndex : Option ℤ

/-- What one step is given: the bar, its closing time, the quality of the data, and what the
    decision core and the volatility estimate make of the bars so far. -/
structure StepInput where
  bar : DecBar
  closeNs : ℤ
  dqScore : Decimal
  lastDataNs : Option ℤ
  uRaw : ℚ
  kappa : ℚ
  uFinal : ℚ
  atr : Option ℚ
  sT : ℚ
  volRatio : Option ℚ
  volRatio_nonneg : ∀ v ∈ volRatio, 0 ≤ v

/-- `StepResult`: what one step leaves for the records. -/
structure StepResult where
  index : ℤ
  openTimeNs : ℤ
  closeTimeNs : ℤ
  equity : Decimal
  positionQty : Decimal
  riskState : RiskState
  kappaMode : Decimal
  decided : Bool
  fills : List Fill
  funding : List FundingCharge
  decision : Option DecisionEntry
  orders : List OrderRecord
  closedPositions : List PositionRecord
  transition : Option Transition
  orderUpdates : List OrderRecord

/-- `to_decimal`, rounding down to the step. -/
def toDecimal (x : ℚ) (step : PosDec) : Decimal := quantize .down x step

namespace TradingLoop

/-- `TradingLoop(instrument, cfg)`: an empty account at the configured equity. -/
def new (instrument : Instrument) (cfg : LoopCfg) (riskCfg : RiskConfig) (clock : ManualClock)
    (ids : IdGenerator) (cost : CostModel) (initialEquity : NonNegDec) :
    Except PyError TradingLoop := do
  let broker ← (PaperBroker.new cost [instrument] ids defaultVolLambda
    defaultFundingRate).setFundingRate instrument.symbolCanon cfg.fallbackRate
  return {
    instrument := instrument
    cfg := cfg
    clock := clock
    broker := broker
    router := .new
    portfolio := .new initialEquity
    gate := .new riskCfg.hysteresis
    fsm := .new riskCfg.stateMachine .new .new
    riskCfg := riskCfg
    guard := .fromConfig riskCfg
    index := -1
    funding := []
    fundingPtr := 0
    lastOpen := none
    orders := ∅
    openOrders := []
    touched := []
    reason := ∅
    entries := ∅
    openPos := none
    haltIndex := none }

variable (l : TradingLoop)

/-- The symbol that the loop trades. -/
def sym : String := l.instrument.symbolCanon

/-- `dec(instrument.max_leverage)`: the leverage that the account is set to. -/
def levSetting : Decimal := l.instrument.maxLeverage

/-- The position that the portfolio has in the instrument. -/
def positionQty : Decimal := l.portfolio.positionQty l.sym

/-- The latch: the machine is `HALTED` or the kill-switch is tripped. -/
def latched : Bool := decide (l.fsm.state = .halted) || l.fsm.killswitch.tripped

/-- The record of an order. -/
def recordOf (coid : Uuid) : Except PyError OrderRecord :=
  match l.orders.get? coid with
  | none => .error (.keyError "order record")
  | some record => .ok record

/-! ### Before the bar -/

/-- `_apply_funding_rate`: the rate that the exchange fixed for the last moment of funding
    since the previous bar, if one is known by the close of this bar. -/
def applyFundingRate (tOpen closeNs : ℤ) : Except PyError TradingLoop :=
  match l.lastOpen.bind fun last => (l.broker.cost.fundingTimes last tOpen).getLast? with
  | none => .ok l
  | some m => do
    let horizon := min (m + l.cfg.matchNs) closeNs
    let p := l.fundingPtr +
      ((l.funding.drop l.fundingPtr).takeWhile fun e => decide (e.1 ≤ horizon)).length
    let rate :=
      match (l.funding.take p).getLast? with
      | none => l.cfg.fallbackRate
      | some e => if m - l.cfg.matchNs < e.1 then e.2 else l.cfg.fallbackRate
    let broker ← l.broker.setFundingRate l.sym rate
    return { l with fundingPtr := p, broker := broker }

/-- The first loop of `_cancel_pending_increases`: entries and flips that still wait; the
    decisions whose order was cancelled. -/
def cancelEntries : List Uuid → TradingLoop → Except PyError (List (Option ℤ) × TradingLoop)
  | [], l => .ok ([], l)
  | c :: cs, l => do
    let record ← l.recordOf c
    if record.request.otype = .market ∧ record.request.reduceOnly = false then
      let (done, broker) ← l.broker.cancel c
      if done then
        let (cancelled, l') ←
          cancelEntries cs { l with broker := broker, entries := l.entries.erase c }
        return (record.decisionNs :: cancelled, l')
      else cancelEntries cs { l with broker := broker }
    else cancelEntries cs l

/-- The second loop: the stops that were submitted with them. -/
def cancelStops (cancelled : List (Option ℤ)) :
    List Uuid → TradingLoop → Except PyError TradingLoop
  | [], l => .ok l
  | c :: cs, l => do
    let record ← l.recordOf c
    if record.role = "stop" ∧ record.decisionNs ∈ cancelled then
      let (_, broker) ← l.broker.cancel c
      cancelStops cancelled cs { l with broker := broker }
    else cancelStops cancelled cs l

/-- `_cancel_pending_increases`: entries that wait are cancelled, and the stops that go with them.
    -/
def cancelPendingIncreases : Except PyError TradingLoop := do
  let (cancelled, l₁) ← cancelEntries l.openOrders l
  if cancelled = [] then return l₁
  else
    let l₂ ← cancelStops cancelled l₁.openOrders l₁
    let broker ← l₂.broker.setTakeProfit l₂.sym none none
    return { l₂ with broker := broker }

/-! ### Fills and the account -/

/-- The role of an order that the loop did not send. -/
def syntheticRole (decisionRef : Option String) : String :=
  match decisionRef with
  | none => "tp"
  | some ref => if ref = "" then "tp" else ref.toLower

/-- `_order_record_for_fill`: the record of the order, a new one for a synthetic order. -/
def orderRecordForFill (f : Fill) : Except PyError OrderRecord :=
  match l.orders.get? f.clientOrderId with
  | some record => .ok record
  | none =>
    match l.broker.orderRequest f.clientOrderId with
    | none => .error (.engineInvariant "fill for unknown order")
    | some req =>
      .ok (.new req (l.openPos.bind PositionRecord.openingDecisionNs)
        (syntheticRole req.decisionRef) .new none f.venueOrderId none)

/-- `_close_position`: the record of the position that a closed trade ends. -/
def closePosition (ct : ClosedTrade) : Except PyError (PositionRecord × TradingLoop) :=
  match l.openPos with
  | none => .error (.engineInvariant "closed trade without an open position record")
  | some record => .ok (record.close ct, { l with openPos := none })

/-- The loop over the trades that a fill closed. -/
def closePositions : List ClosedTrade → TradingLoop →
    Except PyError (List PositionRecord × TradingLoop)
  | [], l => .ok ([], l)
  | ct :: cts, l => do
    let (record, l₁) ← l.closePosition ct
    let (records, l₂) ← closePositions cts l₁
    return (record :: records, l₂)

/-- `_open_position`: the record of the position that a fill opened. -/
def openPosition (f : Fill) (qty : Decimal) : Except PyError TradingLoop :=
  match l.portfolio.positions.get? l.sym with
  | none => .error (.keyError "position")
  | some pos => do
    let entry := l.entries.get? f.clientOrderId
    let avg := pos.avgEntry.getD f.price
    let notional := |qty| * avg
    let eq ← l.portfolio.equity
    let margin ← divE notional l.levSetting
    return { l with
      entries := l.entries.erase f.clientOrderId
      openPos := some {
        instrument := l.sym
        side := sign qty
        openedAtNs := f.tsFillNs
        openingDecisionNs := entry.map EntryMeta.decisionNs
        avgEntry := avg
        qty := |qty|
        -- a leverage is told of a positive equity only
        leverage := if eq ≤ 0 then none else some (notional / eq)
        allocatedMargin := some margin
        stopPrice := entry.bind EntryMeta.stop
        tpPrice := entry.bind EntryMeta.tp
        liqPrice := none
        closedAtNs := none
        exitReason := none
        realizedPnl := none
        fundingPaid := none
        fees := none
        maxAdverseExcursion := none
        exitPrice := none } }

/-- The book-keeping of a fill before the account: the record of its order. -/
def recordFill (f : Fill) (record : OrderRecord) : TradingLoop :=
  { l with
    touched := l.touched ++ [f.clientOrderId]
    orders := l.orders.insert f.clientOrderId (record.addFill f) }

/-- What a step has collected so far: the orders that appeared and the positions that were
    closed. -/
structure Collected where
  newOrders : List Uuid
  closed : List PositionRecord

/-- `_apply_fill`: the portfolio books the fill, and the records of its order and position follow.
    -/
def applyFill (f : Fill) (acc : Collected) : Except PyError (Collected × TradingLoop) := do
  let known := (l.orders.get? f.clientOrderId).isSome
  let record ← l.orderRecordForFill f
  let l₁ := l.recordFill f record
  let reason := (l₁.broker.exitReason f.clientOrderId).or (l₁.reason.get? f.clientOrderId)
  let before := l₁.positionQty
  let (trades, portfolio) := l₁.portfolio.applyFill f reason
  let trades ← trades
  let l₂ : TradingLoop := { l₁ with portfolio := portfolio }
  let after := l₂.positionQty
  let (closed, l₃) ← closePositions trades l₂
  let acc' : Collected :=
    { newOrders := if known then acc.newOrders else acc.newOrders ++ [f.clientOrderId]
      closed := acc.closed ++ closed }
  if after ≠ 0 ∧ (before = 0 ∨ sign after ≠ sign before) then
    let l₄ ← l₃.openPosition f after
    return (acc', l₄)
  else return (acc', l₃)

/-- The loop over the fills of a bar. -/
def applyFills : List Fill → TradingLoop → Collected → Except PyError (Collected × TradingLoop)
  | [], l, acc => .ok (acc, l)
  | f :: fs, l, acc => do
    let (acc', l') ← l.applyFill f acc
    applyFills fs l' acc'

/-- What the broker reports of an order that the loop still takes for open. -/
def synced (coid : Uuid) (record : OrderRecord) : OrderRecord :=
  if record.status.isFinal then record
  else match l.broker.orderAck coid with
    | none => record
    | some ack =>
      if ack.status = record.status then record
      else { record with status := ack.status, rejectCode := ack.rejectCode }

/-- The loop of `_sync_open_orders`: the orders that stay under supervision, the records of
    those that changed. -/
def syncOrders : List Uuid → TradingLoop →
    Except PyError (List Uuid × List OrderRecord × TradingLoop)
  | [], l => .ok ([], [], l)
  | c :: cs, l => do
    let record ← l.recordOf c
    let record' := l.synced c record
    let changed := decide (c ∈ l.touched) || decide (record'.status ≠ record.status)
    let (keep, out, l') ← syncOrders cs { l with orders := l.orders.insert c record' }
    return (if record'.status.isFinal then keep else c :: keep,
      if changed then record' :: out else out, l')

/-- `_sync_open_orders`: the open orders take the status that the broker has for them. -/
def syncOpenOrders : Except PyError (List OrderRecord × TradingLoop) := do
  let (keep, out, l') ← syncOrders l.openOrders l
  return (out, { l' with openOrders := keep })

/-- `_refresh_liquidation`: the price of the liquidation from the position and the wallet. -/
def refreshLiquidation : Except PyError TradingLoop :=
  match l.portfolio.positions.get? l.sym with
  | none => .error (.keyError "position")
  | some pos =>
    match pos.avgEntry with
    | none => .ok l
    | some entry => do
      let raw ← liqPrice pos.qty entry l.portfolio.walletBalance l.instrument.mmr
        l.instrument.maintAmount
      let lp := if 0 < raw then some (quantizePrice raw l.instrument.tickSize) else none
      let broker ← l.broker.setLiquidationPrice l.sym lp
      return { l with
        broker := broker
        openPos := l.openPos.map fun record =>
          if record.liqPrice = none then { record with liqPrice := lp } else record }

/-- `_check_accounting`: both forms of the equity must agree, and a latched switch must not
    increase. -/
def checkAccounting (latched : Bool) (exposureBefore : Decimal) : Except PyError Unit := do
  let res ← l.portfolio.identityResidual
  if l.cfg.tolerance < |res| then .error (.engineInvariant "accounting identity broken")
  else
    let pos ← l.broker.position l.sym
    if pos ≠ l.positionQty then .error (.engineInvariant "broker position != portfolio")
    else if latched ∧ exposureBefore < |l.positionQty| then
      .error (.engineInvariant "new exposure while HALTED / kill-switch latched")
    else .ok ()

/-! ### The decision -/

/-- What the signal asks for: the position it finds, the side that it wants, the size. -/
structure Intent where
  cur : Decimal
  gateSide : ℤ
  desired : ℤ
  sizing : Option SizingResult
  requested : Decimal

/-- The side of the position that the intent finds. -/
def Intent.curSide (it : Intent) : ℤ := sign it.cur

/-- The gate as the decision finds it: on the side of the actual position. -/
def syncedGate : HysteresisGate :=
  if l.gate.side.toInt = sign l.positionQty then l.gate
  else l.gate.reset (Side.ofInt (sign l.positionQty))

/-- The sizing of a step. -/
def sizingInput (inp : StepInput) (equity : Decimal) : SizingInput where
  uFinal := inp.uFinal
  equity := equity
  price := inp.bar.c
  atr := inp.atr
  sT := inp.sT
  kappaMode := l.fsm.kappaMode
  stepSize := l.instrument.stepSize
  minNotional := l.instrument.minNotional
  grossNotional := 0

/-- The first part of `_decide`: the gate, the side that is wanted, the size. -/
def intend (inp : StepInput) (equity : Decimal) : Except PyError (Intent × TradingLoop) := do
  let cur := l.positionQty
  let (side, gate) := l.syncedGate.update inp.uFinal
  let desired := if l.latched then 0 else side.toInt
  let sizing ←
    if desired ≠ sign cur ∨ l.cfg.recordAll then
      (PositionSizer.size l.cfg.sizing (l.sizingInput inp equity)).map some
    else .ok none
  let requested :=
    match sizing with
    | none => 0
    | some sz => if desired = 0 then 0 else sz.qty * desired
  return (⟨cur, side.toInt, desired, sizing, requested⟩, { l with gate := gate })

/-- A decision without an order. -/
def holdEntry (inp : StepInput) (it : Intent) : DecisionEntry where
  openTimeNs := inp.bar.openTimeNs
  decidedAtNs := inp.closeNs
  uRaw := inp.uRaw
  kappa := inp.kappa
  uFinal := inp.uFinal
  gateSide := it.gateSide
  currentQty := it.cur
  requestedQty := none
  targetSide := it.curSide
  targetQty := |it.cur|
  bindingConstraint := it.sizing.map SizingResult.bindingConstraint
  stopPrice := none
  tpPrice := none
  liqPrice := none
  action := if it.curSide ≠ 0 then .hold else .none
  verdict := none
  orderIds := []

/-- The evaluation of an intent by the guard; a halt signal trips the common switch. -/
def evaluate (inp : StepInput) (it : Intent) (sz : SizingResult) :
    Except PyError (GuardResult × TradingLoop) :=
  match l.fsm.tracker.snapshot with
  | none => .error (.engineInvariant "no equity snapshot at decision time")
  | some snap => do
    let ctx ← RiskContext.fromSnapshot snap l.sym inp.bar.c it.cur it.requested
      (inp.atr.elim 0 fun a => toDecimal a l.instrument.tickSize)
      (sz.stopDistance.elim 0 fun d => toDecimal d l.instrument.tickSize)
      l.instrument.mmr l.instrument.maintAmount l.levSetting inp.lastDataNs inp.dqScore
      l.fsm.state (some l.instrument.stepSize)
    let (res, killswitch) ← l.guard.evaluate (some l.fsm.killswitch) ctx
    return (res, { l with
      fsm := { l.fsm with killswitch := killswitch.getD l.fsm.killswitch } })

/-- A target that is worth less than the minimal notional is not opened. -/
def largeEnough (approved price : Decimal) : Decimal :=
  if approved ≠ 0 ∧ |approved| * price < l.instrument.minNotional then 0 else approved

/-- The approved target opens a position on a new side. -/
def opensNew (cur approved : Decimal) : Bool :=
  decide (sign approved ≠ 0 ∧ sign approved ≠ sign cur)

/-- The action of a decision and the reason of the exit that it may cause. -/
def actionOf (flattenAll : Bool) (cur requested approved : Decimal) : Action × ExitReason :=
  if flattenAll then (.flatten, .halt)
  else if sign cur ≠ 0 ∧ requested ≠ 0 ∧ sign requested ≠ sign cur ∧ approved = 0 then
    (.exit, .riskVeto)
  else if sign cur ≠ 0 ∧ sign cur ≠ sign approved then
    (if opensNew cur approved then .flip else .exit, .signal)
  else (if opensNew cur approved then .enter else .none, .signal)

/-- The stop and the take-profit of a new position on the side `s`. -/
def exitLevels (price : Decimal) (s : ℤ) (stopDist : Option ℚ) :
    Option Decimal × Option Decimal :=
  match stopDist with
  | none => (none, none)
  | some dist =>
    let tick := l.instrument.tickSize
    let dStop := toDecimal dist tick
    if 0 < dStop then
      let stop := quantizePrice (price - s * dStop) tick
      let tpD := toDecimal (l.cfg.tpMultiple * dist) tick
      let tp := quantizePrice (price + s * tpD) tick
      (if 0 < stop then some stop else none, if 0 < tp ∧ 0 < tpD then some tp else none)
    else (none, none)

/-- The estimate of the liquidation price of a new position. -/
def liqEstimate (price equity approved : Decimal) : Except PyError (Option Decimal) :=
  if 0 < equity then do
    let raw ← sideLiqPrice (Side.ofInt (sign approved)) |approved| price equity
      l.instrument.mmr l.instrument.maintAmount
    return if 0 < raw then some (quantizePrice raw l.instrument.tickSize) else none
  else .ok none

/-! ### Orders -/

/-- The paper broker as the venue of the router; `now` is the reading of the clock. -/
def paperVenue (now : ℤ) : Venue PaperBroker where
  send := fun pb req => (.ok (pb.submit now req).1, (pb.submit now req).2)
  query := none

/-- `_send`: an order under a fresh identifier, with its record. -/
def send (req : OrderRequest) (decisionNs : ℤ) (role : String) (reason : Option ExitReason) :
    TradingLoop :=
  let (ack, router, broker) :=
    l.router.submit (paperVenue l.clock.t) l.broker l.clock.t req
  let record : OrderRecord :=
    .new req (some decisionNs) role ack.status ack.rejectCode ack.venueOrderId reason
  { l with
    router := router
    broker := broker
    orders := l.orders.insert req.clientOrderId record
    openOrders :=
      if ack.status.isFinal ∨ req.clientOrderId ∈ l.openOrders then l.openOrders
      else l.openOrders ++ [req.clientOrderId]
    reason :=
      match reason with
      | none => l.reason
      | some r => if req.otype = .market then l.reason.insert req.clientOrderId r else l.reason }

/-- The next id of the generator that the loop shares with the broker. -/
def nextId : Uuid := l.broker.ids.nextUuid.1

/-- The loop after the draw of an id. -/
def drawId : TradingLoop :=
  { l with broker := { l.broker with ids := l.broker.ids.nextUuid.2 } }

/-- The market order of a decision. -/
def marketRequest (decisionNs closeNs : ℤ) (cur approved : Decimal) : OrderRequest where
  clientOrderId := l.nextId
  instrument := l.sym
  side := if 0 < approved - cur then .long else .short
  otype := .market
  qty := floorQty |approved - cur| l.instrument.stepSize
  stopPrice := none
  reduceOnly := decide (sign approved = 0 ∨ (sign approved = sign cur ∧ |approved| < |cur|))
  decisionRef := some (toString decisionNs)
  tsCreatedNs := closeNs

/-- The stop order of a new position. -/
def stopRequest (decisionNs closeNs : ℤ) (approved stop : Decimal) : OrderRequest where
  clientOrderId := l.nextId
  instrument := l.sym
  side := Side.ofInt (-sign approved)
  otype := .stopMarket
  qty := |approved|
  stopPrice := some stop
  reduceOnly := true
  decisionRef := some (toString decisionNs)
  tsCreatedNs := closeNs

/-- The first part of `_submit`: the market order. -/
def submitMarket (decisionNs closeNs : ℤ) (cur approved : Decimal) (action : Action)
    (reason : ExitReason) : TradingLoop :=
  l.drawId.send (l.marketRequest decisionNs closeNs cur approved) decisionNs action.role
    (if sign cur ≠ 0 then some reason else none)

/-- The second part of `_submit`: the stop order of the new position, if it has a stop. -/
def submitStop (decisionNs closeNs : ℤ) (approved : Decimal) (stop : Option Decimal) :
    TradingLoop :=
  match stop with
  | none => l
  | some price =>
    l.drawId.send (l.stopRequest decisionNs closeNs approved price) decisionNs "stop"
      (some .stop)

/-- `_submit`: the ids of the orders that were sent. -/
def submit (decisionNs closeNs : ℤ) (cur approved : Decimal) (action : Action)
    (reason : ExitReason) (stop tp : Option Decimal) :
    Except PyError (List Uuid × TradingLoop) :=
  if approved - cur = 0 then .ok ([], l)
  else
    let coid := l.nextId
    let l₁ := l.submitMarket decisionNs closeNs cur approved action reason
    if opensNew cur approved then do
      let l₂ : TradingLoop := { l₁ with entries := l₁.entries.insert coid ⟨decisionNs, stop, tp⟩ }
      let l₃ := l₂.submitStop decisionNs closeNs approved stop
      let broker ← l₃.broker.setTakeProfit l₃.sym tp
        (if tp.isSome then some (Side.ofInt (sign approved)) else none)
      return (coid :: (if stop.isSome then [l₂.nextId] else []), { l₃ with broker := broker })
    else .ok ([coid], l₁)

/-- The second part of `_decide`: the intent goes through the guard, and what is left of it
    becomes orders. -/
def act (inp : StepInput) (equity : Decimal) (it : Intent) (sz : SizingResult) :
    Except PyError (DecisionEntry × TradingLoop) := do
  let (res, l₁) ← l.evaluate inp it sz
  let approved := l₁.largeEnough res.approvedQty inp.bar.c
  let (action, reason) := actionOf res.flattenAll it.cur it.requested approved
  let new := opensNew it.cur approved
  -- stop and take-profit are only computed for a new side
  let levels :=
    if new then l₁.exitLevels inp.bar.c (sign approved) sz.stopDistance else (none, none)
  let liq ← if new then l₁.liqEstimate inp.bar.c equity approved else .ok none
  let (ids, l₂) ← l₁.submit inp.bar.openTimeNs inp.closeNs it.cur approved action reason levels.1
    levels.2
  return ({
    openTimeNs := inp.bar.openTimeNs
    decidedAtNs := inp.closeNs
    uRaw := inp.uRaw
    kappa := inp.kappa
    uFinal := inp.uFinal
    gateSide := it.gateSide
    currentQty := it.cur
    requestedQty := some it.requested
    targetSide := sign approved
    targetQty := |approved|
    bindingConstraint := some sz.bindingConstraint
    stopPrice := levels.1
    tpPrice := levels.2
    liqPrice := liq
    action := action
    verdict := some res.verdict.kind
    orderIds := ids }, l₂)

/-- `_decide`: the intent, its size, what the guard leaves of it, and the orders. -/
def decide (inp : StepInput) (equity : Decimal) : Except PyError (DecisionEntry × TradingLoop) := do
  let (it, l₁) ← l.intend inp equity
  match it.sizing with
  | none => return (holdEntry inp it, l₁)
  | some sz =>
    if it.desired = it.curSide ∨ it.requested = it.cur then return (holdEntry inp it, l₁)
    else l₁.act inp equity it sz

/-! ### The step -/

/-- The first part of a step: the clock, the funding rate, the latch. -/
def beginBar (inp : StepInput) : Except PyError TradingLoop := do
  let clock ← l.clock.set inp.bar.openTimeNs
  let l₁ : TradingLoop := { l with clock := clock }
  let l₂ ← if l₁.funding = [] then .ok l₁ else l₁.applyFundingRate inp.bar.openTimeNs inp.closeNs
  if l₂.latched then l₂.cancelPendingIncreases else .ok l₂

/-- The second part: what the broker executes on the bar, booked. -/
def bookBar (bar : DecBar) :
    Except PyError (List Fill × List FundingCharge × Collected × List OrderRecord ×
      TradingLoop) := do
  let (fills, broker) ← l.broker.onBar bar
  let (charges, broker) := broker.drainFunding
  let l₁ : TradingLoop :=
    { l with
      broker := broker
      portfolio := charges.foldl Portfolio.applyFunding l.portfolio
      touched := [] }
  let (acc, l₂) ← applyFills fills l₁ ⟨[], []⟩
  let (updates, l₃) ← l₂.syncOpenOrders
  let l₄ ←
    if (fills ≠ [] ∨ charges ≠ []) ∧ l₃.positionQty ≠ 0 then l₃.refreshLiquidation else .ok l₃
  return (fills, charges, acc, updates, l₄)

/-- The third part: the valuation at the close, the checks and the risk machine. -/
def valueBar (inp : StepInput) (latched : Bool) (exposureBefore : Decimal) :
    Except PyError (Decimal × Option Transition × TradingLoop) := do
  let clock ← l.clock.set inp.closeNs
  let (equity, portfolio) := l.portfolio.mark [(l.sym, inp.bar.c)]
  let equity ← equity
  let l₁ : TradingLoop := { l with clock := clock, portfolio := portfolio }
  let _ ← if l.cfg.checkInvariants then l₁.checkAccounting latched exposureBefore else .ok ()
  let (tr, fsm) := l₁.fsm.update ⟨inp.closeNs, equity, inp.volRatio, inp.volRatio_nonneg⟩
  let tr ← tr
  return (equity, tr, { l₁ with
    fsm := fsm
    haltIndex :=
      if l.haltIndex = none ∧ fsm.state = .halted then some (l.index + 1) else l.haltIndex })

/-- The fourth part: the decision, from the first index on that allows one. -/
def decideBar (inp : StepInput) (equity : Decimal) :
    Except PyError (Option DecisionEntry × TradingLoop) :=
  if l.cfg.decideFrom ≤ l.index + 1 then do
    let (decision, l') ← l.decide inp equity
    return (some decision, l')
  else .ok (none, l)

/-- `step`: the bar at the broker, the value of the account, and then a decision. -/
def step (inp : StepInput) : Except PyError (StepResult × TradingLoop) := do
  let latched := l.latched
  let l₁ ← l.beginBar inp
  let exposureBefore := |l₁.positionQty|
  let (fills, charges, acc, updates, l₂) ← l₁.bookBar inp.bar
  let (equity, tr, l₃) ← l₂.valueBar inp latched exposureBefore
  let (decision, l₄) ← l₃.decideBar inp equity
  let l₅ : TradingLoop := { l₄ with index := l.index + 1, lastOpen := some inp.bar.openTimeNs }
  let newOrders := acc.newOrders ++ decision.elim [] DecisionEntry.orderIds
  return ({
    index := l.index + 1
    openTimeNs := inp.bar.openTimeNs
    closeTimeNs := inp.closeNs
    equity := equity
    positionQty := l₅.positionQty
    riskState := l₅.fsm.state
    kappaMode := l₅.fsm.kappaMode
    decided := decision.isSome
    fills := fills
    funding := charges
    decision := decision
    orders := newOrders.filterMap l₅.orders.get?
    closedPositions := acc.closed
    transition := tr
    orderUpdates := updates }, l₅)

/-! ### Between two bars -/

/-- `apply_risk_limits`: new limits and thresholds; the state of the machine and the switch
    stay.  A tree without `cooldown_policy` keeps the policy of the run. -/
def applyRiskLimits (limits : LimitsCfg) (stateMachine : StateMachineCfg) : TradingLoop :=
  let cfg : RiskConfig :=
    { l.riskCfg with limits := limits, stateMachine := stateMachine }
  { l with
    riskCfg := cfg
    guard := .fromConfig cfg
    fsm := { l.fsm with cfg := stateMachine } }

/-- `set_funding_series`: the records of the funding, from the first one on. -/
def setFundingSeries (series : List (ℤ × Decimal)) : TradingLoop :=
  { l with funding := series, fundingPtr := if series = [] then l.fundingPtr else 0 }

/-! ### What the parts of a step do -/

section Parts

variable {l l' : TradingLoop}

/-- The latch cancels orders at the broker, forgets entries and drops the take-profit: what each
    of these keeps is kept by the latch. -/
theorem cancelPendingIncreases_invariant {I : TradingLoop → Prop}
    (hcancel : ∀ l c done broker entries, I l → l.broker.cancel c = .ok (done, broker) →
      entries = l.entries ∨ entries = l.entries.erase c →
      I { l with broker := broker, entries := entries })
    (htp : ∀ l i broker, I l → l.broker.setTakeProfit i none none = .ok broker →
      I { l with broker := broker })
    (hl : I l) (h : l.cancelPendingIncreases = .ok l') : I l' := by
  -- the entries first, by induction on the open orders
  have hentries : ∀ {cs : List Uuid} {l l' : TradingLoop} {cancelled : List (Option ℤ)}, I l →
      cancelEntries cs l = .ok (cancelled, l') → I l' := by
    intro cs
    induction cs with
    | nil =>
      intro l l' cancelled hl h
      cases h
      exact hl
    | cons c cs ih =>
      intro l l' cancelled hl h
      rw [cancelEntries] at h
      obtain ⟨record, -, h⟩ := bind_eq_ok.mp h
      split at h
      · obtain ⟨⟨done, broker⟩, hone, h⟩ := bind_eq_ok.mp h
        -- the entry leaves its table only where the broker still had the order
        cases done with
        | true =>
          obtain ⟨⟨rest, l₁⟩, hrest, h⟩ := bind_eq_ok.mp h
          cases h
          exact ih (hcancel l c true broker _ hl hone (.inr rfl)) hrest
        | false => exact ih (hcancel l c false broker _ hl hone (.inl rfl)) h
      · exact ih hl h
  have hstops : ∀ {cs : List Uuid} {cancelled : List (Option ℤ)} {l l' : TradingLoop}, I l →
      cancelStops cancelled cs l = .ok l' → I l' := by
    intro cs cancelled
    induction cs with
    | nil =>
      intro l l' hl h
      cases h
      exact hl
    | cons c cs ih =>
      intro l l' hl h
      rw [cancelStops] at h
      obtain ⟨record, -, h⟩ := bind_eq_ok.mp h
      split at h
      · obtain ⟨⟨done, broker⟩, hone, h⟩ := bind_eq_ok.mp h
        exact ih (hcancel l c done broker _ hl hone (.inl rfl)) h
      · exact ih hl h
  obtain ⟨⟨cancelled, l₁⟩, hfirst, h⟩ := bind_eq_ok.mp h
  have h₁ := hentries hl hfirst
  dsimp only at h
  split at h
  · cases h
    exact h₁
  · obtain ⟨l₂, hsecond, h⟩ := bind_eq_ok.mp h
    obtain ⟨broker, hlast, h⟩ := bind_eq_ok.mp h
    cases h
    exact htp _ _ _ (hstops h₁ hsecond) hlast

/-- **The valuation** moves the clock to the close and marks the account; the rest is the risk
    machine. -/
theorem valueBar_account {inp : StepInput} {latched : Bool} {exposureBefore equity : Decimal}
    {tr : Option Transition} (h : l.valueBar inp latched exposureBefore = .ok (equity, tr, l')) :
    l.clock.t ≤ inp.closeNs ∧ (l.portfolio.mark [(l.sym, inp.bar.c)]).1 = .ok equity ∧
      ∃ fsm haltIndex, l' = { l with
        clock := ⟨inp.closeNs⟩
        portfolio := (l.portfolio.mark [(l.sym, inp.bar.c)]).2
        fsm := fsm
        haltIndex := haltIndex } := by
  obtain ⟨clock, hclock, h⟩ := bind_eq_ok.mp h
  obtain ⟨hle, rfl⟩ := ManualClock.set_eq_ok.mp hclock
  obtain ⟨eq, hequity, h⟩ := bind_eq_ok.mp h
  refine ⟨hle, ?_⟩
  dsimp only at h
  -- with the checks of the account or without, the same assignments follow
  split at h
  · obtain ⟨-, -, h⟩ := bind_eq_ok.mp h
    obtain ⟨tr', -, h⟩ := bind_eq_ok.mp h
    cases h
    exact ⟨hequity, _, _, rfl⟩
  · obtain ⟨-, -, h⟩ := bind_eq_ok.mp h
    obtain ⟨tr', -, h⟩ := bind_eq_ok.mp h
    cases h
    exact ⟨hequity, _, _, rfl⟩

end Parts

end TradingLoop

end FuzzHelm
