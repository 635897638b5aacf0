import FuzzHelm.Execution.CostModel
import FuzzHelm.Lib.Dict
import FuzzHelm.Lib.Run

namespace FuzzHelm

open Lib

/-!
# The paper broker

The simulated venue: orders wait in two queues of their instrument, market orders fill at
the open of the next bar, and stops, the take-profit and the liquidation fire inside the
bar along a path that is pessimistic for the position.

* `Order`, `InstState`, `PaperBroker` — one order, one instrument, the broker;
* `Book` — what a bar works on: the instrument's state, the orders, the sequences and the
  fills so far;
* `Book.execute` and `Book.sweep` — the execution of one order and the loop that cancels
  stops, shared by the closing of a position and by the expiry of orphans;
* `PaperBroker.onBar`, `submit`, `cancel`, `cancelAll` and the setters — the calls.
-/

/-! ### State -/

/-- One order; `venueOrderId` is the number behind `PB-…`. -/
structure Order where
  req : OrderRequest
  venueOrderId : Option ℕ
  status : OrderStatus
  rejectCode : Option RejectCode
  tsNs : ℤ
  filledQty : Decimal
  avgPrice : Option Decimal
  exitReason : Option ExitReason
  deriving DecidableEq

/-- An order that has just been accepted. -/
def Order.accepted (req : OrderRequest) (venueOrderId : ℕ) (tsNs : ℤ) : Order :=
  ⟨req, some venueOrderId, .new, none, tsNs, 0, none, none⟩

/-- The state of one instrument.  `tpSide` is zero when the take-profit applies to any
    position, else the sign of the positions that it applies to. -/
structure InstState where
  spec : Instrument
  fundingRate : Decimal
  position : Decimal
  lastOpenNs : Option ℤ
  lastClose : Option Decimal
  var : Option Decimal
  vBar : Option Decimal
  tpPrice : Option Decimal
  tpSide : ℤ
  liqPrice : Option Decimal
  marketQueue : List Uuid
  stopOrders : List Uuid
  deriving DecidableEq

/-- `_InstState(spec=…, funding_rate=…)`: no position, no orders, and no bar yet. -/
def InstState.new (spec : Instrument) (fundingRate : Decimal) : InstState :=
  ⟨spec, fundingRate, 0, none, none, none, none, none, 0, none, [], []⟩

/-- `PaperBroker`: the instruments, their states, the orders and the identifiers. -/
structure PaperBroker where
  cost : CostModel
  ids : IdGenerator
  lam : Decimal
  state : Dict String InstState
  orders : Dict Uuid Order
  funding : List FundingCharge
  seq : ℕ

/-- The orders of a dictionary by their id; a missing one raises. -/
def orderOf (orders : Dict Uuid Order) (coid : Uuid) : Except PyError Order :=
  match orders.get? coid with
  | none => .error (.keyError "order")
  | some o => .ok o

/-! ### What a bar works on -/

/-- The state of one instrument while a bar is being worked through. -/
structure Book where
  st : InstState
  orders : Dict Uuid Order
  ids : IdGenerator
  seq : ℕ
  cost : CostModel
  fills : List Fill

/-- `_sigma` of an instrument. -/
def InstState.sigma (st : InstState) (cost : CostModel) : Decimal :=
  match st.var with
  | none => 0
  | some v => if v ≤ 0 then 0 else cost.sqrt v

namespace Book

variable (b : Book)

/-- The loop over the stops: orders that are no longer new leave the list silently, those
    that `drop` selects are cancelled, the others stay. -/
def sweep (drop : Order → Bool) (cancel : Order → Order) :
    List Uuid → Dict Uuid Order → Except PyError (List Uuid × Dict Uuid Order)
  | [], orders => .ok ([], orders)
  | c :: cs, orders => do
    let o ← orderOf orders c
    if o.status ≠ .new then sweep drop cancel cs orders
    else if drop o then sweep drop cancel cs (orders.insert c (cancel o))
    else do
      let (keep, orders') ← sweep drop cancel cs orders
      return (c :: keep, orders')

/-- `_executable_qty`: a reducing order never exceeds the position it is against. -/
def executableQty (req : OrderRequest) : Decimal :=
  if !req.reduceOnly then req.qty
  else if b.st.position = 0 ∨ sign b.st.position = req.side.toInt then 0
  else min req.qty |b.st.position|

/-- `_on_position_closed`: the stops that protected the old position are cancelled, its
    take-profit and the liquidation price are reset. -/
def onPositionClosed (old : Decimal) : Except PyError Book := do
  let protecting := Side.ofInt (-sign old)
  let (keep, orders) ← sweep (fun o => o.req.reduceOnly && decide (o.req.side = protecting))
    (fun o => { o with status := .canceled }) b.st.stopOrders b.orders
  let resets := b.st.tpSide = 0 ∨ b.st.tpSide = sign old
  return { b with
    orders := orders
    st := { b.st with
      stopOrders := keep
      tpPrice := if resets then none else b.st.tpPrice
      tpSide := if resets then 0 else b.st.tpSide
      liqPrice := none } }

/-- The reason that an execution is booked with. -/
def executionReason (req : OrderRequest) (reason : Option ExitReason) : Option ExitReason :=
  if reason = none ∧ req.otype = .stopMarket ∧ b.st.position ≠ 0 ∧
      sign b.st.position ≠ req.side.toInt then
    some .stop
  else reason

/-- What a fill does to the order and to the position. -/
def recordFill (coid : Uuid) (o : Order) (fill : Fill) (cost : CostModel)
    (reason : Option ExitReason) : Book :=
  { b with
    cost := cost
    fills := b.fills ++ [fill]
    orders := b.orders.insert coid
      { o with
        status := .filled
        filledQty := fill.qty
        avgPrice := some fill.price
        exitReason := reason }
    st := { b.st with position := b.st.position + fill.dq } }

/-- The position `old` is closed or flipped by a move to `new`. -/
def closes (old new : Decimal) : Bool := decide (old ≠ 0 ∧ (new = 0 ∨ sign new ≠ sign old))

/-- `_execute`: an order that can execute nothing is cancelled; otherwise it fills at the
    quoted price, and a position that it closes or flips is wound up. -/
def execute (coid : Uuid) (o : Order) (pRef : Decimal) (ts : ℤ) (reason : Option ExitReason) :
    Except PyError Book := do
  let qty := b.executableQty o.req
  if qty ≤ 0 then
    return { b with
      orders := b.orders.insert coid
        { o with status := .canceled, rejectCode := some .reduceOnly } }
  else
    let (q, cost) ← b.cost.quote o.req.side pRef qty (b.st.sigma b.cost) (b.st.vBar.getD 0)
      b.st.spec.tickSize
    let fill ← mkFill o.req.clientOrderId o.venueOrderId o.req.instrument o.req.side qty q.price
      (b.cost.fee (qty * q.price) .taker) .taker q.slippageBps ts
    let b' := b.recordFill coid o fill cost (b.executionReason o.req reason)
    if closes b.st.position b'.st.position then b'.onPositionClosed b.st.position
    else return b'

/-- The loop over the market queue: what stays queued, and the book. -/
def fillLoop (o : Decimal) (t : ℤ) : List Uuid → Book → Except PyError (List Uuid × Book)
  | [], b => .ok ([], b)
  | c :: cs, b => do
    let ord ← orderOf b.orders c
    if ord.status ≠ .new then fillLoop o t cs b
    else if t < ord.req.tsCreatedNs then do
      let (keep, b') ← fillLoop o t cs b
      return (c :: keep, b')
    else do
      let b' ← b.execute c ord o t none
      fillLoop o t cs b'

/-- `_fill_market_orders`: those that are old enough are filled at the open. -/
def fillMarketOrders (bar : DecBar) : Except PyError Book := do
  let (keep, b') ← fillLoop bar.o bar.openTimeNs b.st.marketQueue b
  return { b' with st := { b'.st with marketQueue := keep } }

/-! ### Triggers inside a bar -/

/-- What a trigger is: a stop, a take-profit or the liquidation. -/
inductive TriggerKind where
  | stop
  | tp
  | liq
  deriving DecidableEq, Repr

/-- A trigger with its level, and the order it belongs to. -/
structure Trigger where
  kind : TriggerKind
  level : Decimal
  firesUp : Bool
  coid : Option Uuid
  priority : ℕ
  deriving DecidableEq, Repr

/-- The trigger of a stop order; one created after the bar opened does not see its range. -/
def stopTrigger (t : ℤ) (coid : Uuid) (o : Order) : Option Trigger :=
  match o.req.stopPrice with
  | none => none
  | some level =>
    if o.status = .new ∧ o.req.tsCreatedNs ≤ t then
      some ⟨.stop, level, decide (o.req.side = .long), some coid, 1⟩
    else none

/-- The triggers of the stop orders, in queue order. -/
def stopTriggers (t : ℤ) (orders : Dict Uuid Order) :
    List Uuid → Except PyError (List Trigger)
  | [] => .ok []
  | c :: cs => do
    let o ← orderOf orders c
    let ts ← stopTriggers t orders cs
    return (stopTrigger t c o).toList ++ ts

/-- The trigger of the take-profit, for a position that it applies to. -/
def tpTrigger : Option Trigger :=
  match b.st.tpPrice with
  | none => none
  | some level =>
    if b.st.position ≠ 0 ∧ (b.st.tpSide = 0 ∨ b.st.tpSide = sign b.st.position) then
      some ⟨.tp, level, decide (0 < b.st.position), none, 2⟩
    else none

/-- The trigger of the liquidation. -/
def liqTrigger : Option Trigger :=
  match b.st.liqPrice with
  | none => none
  | some level =>
    if b.st.position ≠ 0 then some ⟨.liq, level, decide (b.st.position < 0), none, 0⟩ else none

/-- `_triggers`: the stops, the take-profit and the liquidation that could fire. -/
def triggers (t : ℤ) : Except PyError (List Trigger) := do
  let ts ← stopTriggers t b.orders b.st.stopOrders
  return ts ++ b.tpTrigger.toList ++ b.liqTrigger.toList

/-- `min(…, key=…)`: the first of the smallest. -/
def firstMin (lt : Trigger → Trigger → Bool) : List Trigger → Option Trigger
  | [] => none
  | tr :: trs => some (trs.foldl (fun m x => if lt x m then x else m) tr)

/-- `OrderRequest(…)` of a synthetic order; the schema rejects a value outside its bounds. -/
def syntheticRequest (pos level : Decimal) (reason : ExitReason) (t : ℤ) :
    Except PyError OrderRequest :=
  if pos = 0 then .error (.validationError "side")
  else if t < 0 then .error (.validationError "ts_created_ns")
  else .ok {
    clientOrderId := b.ids.nextUuid.1
    instrument := b.st.spec.symbolCanon
    side := Side.ofInt (-sign pos)
    otype := .stopMarket
    qty := |pos|
    stopPrice := some level
    reduceOnly := true
    decisionRef := some (if reason = .tp then "TP" else "LIQUIDATION")
    tsCreatedNs := t }

/-- The synthetic reduce-only order of a take-profit or a liquidation: accepted and executed
    at once, for the whole position. -/
def fireSynthetic (level pRef : Decimal) (reason : ExitReason) (t : ℤ) : Except PyError Book := do
  let req ← b.syntheticRequest b.st.position level reason t
  let order := Order.accepted req (b.seq + 1) t
  let b' : Book :=
    { b with
      ids := b.ids.nextUuid.2
      seq := b.seq + 1
      orders := b.orders.insert req.clientOrderId order }
  b'.execute req.clientOrderId order pRef t (some reason)

/-- `_fire`: a stop executes its order, and the other levels make one. -/
def fire (tr : Trigger) (pRef : Decimal) (t : ℤ) : Except PyError Book :=
  match tr.kind, tr.coid with
  | .stop, none => .error (.engineInvariant "stop trigger without an order")
  | .stop, some c => do
    let b' : Book := { b with st := { b.st with stopOrders := b.st.stopOrders.erase c } }
    let o ← orderOf b.orders c
    b'.execute c o pRef t none
  | .tp, _ =>
    fireSynthetic { b with st := { b.st with tpPrice := none, tpSide := 0 } } tr.level pRef .tp t
  | .liq, _ =>
    fireSynthetic { b with st := { b.st with liqPrice := none } } tr.level pRef .liquidation t

/-- The triggers that the price `o` of the open has already passed. -/
def behind (o : Decimal) (tr : Trigger) : Bool :=
  (tr.firesUp && decide (tr.level ≤ o)) || (!tr.firesUp && decide (o ≤ tr.level))

/-- The gap at the open: everything that is behind it fires at the open, by priority. -/
def walkAtOpen (o : Decimal) (t : ℤ) : ℕ → Book → Except PyError Book
  | 0, b => .ok b
  | n + 1, b => do
    let ts ← b.triggers t
    match firstMin (fun x m => decide (x.priority < m.priority)) (ts.filter (behind o)) with
    | none => return b
    | some first => do
      let b' ← b.fire first o t
      walkAtOpen o t n b'

/-- The triggers that lie on the way from `cur` to `dest`. -/
def onTheWay (cur dest : Decimal) (tr : Trigger) : Bool :=
  if dest < cur then !tr.firesUp && decide (dest ≤ tr.level ∧ tr.level ≤ cur)
  else tr.firesUp && decide (cur ≤ tr.level ∧ tr.level ≤ dest)

/-- The order of triggers on the way: the nearest level first, then the priority. -/
def nearer (cur dest : Decimal) (x m : Trigger) : Bool :=
  if dest < cur then decide (m.level < x.level ∨ (x.level = m.level ∧ x.priority < m.priority))
  else decide (x.level < m.level ∨ (x.level = m.level ∧ x.priority < m.priority))

/-- `_walk_segment`: the price moves from `cur` to `dest`, firing what it meets. -/
def walkSegment (t : ℤ) (dest : Decimal) : ℕ → Book → Decimal → Except PyError Book
  | 0, b, _ => .ok b
  | n + 1, b, cur =>
    if dest = cur then .ok b
    else do
      let ts ← b.triggers t
      match firstMin (nearer cur dest) (ts.filter (onTheWay cur dest)) with
      | none => return b
      | some first => do
        let b' ← b.fire first first.level t
        walkSegment t dest n b' first.level

/-- The number of things that can still fire: each firing removes one of them. -/
def budget : ℕ :=
  b.st.stopOrders.length + (if b.st.tpPrice.isSome then 1 else 0) +
    (if b.st.liqPrice.isSome then 1 else 0)

/-- The pessimistic path of the price inside the bar, after the open. -/
def path (bar : DecBar) : List Decimal :=
  if 0 < b.st.position then [bar.l, bar.h, bar.c]
  else if b.st.position < 0 then [bar.h, bar.l, bar.c]
  else if bar.o - bar.l ≤ bar.h - bar.o then [bar.l, bar.h, bar.c]
  else [bar.h, bar.l, bar.c]

/-- The segments of a path. -/
def walkPath (t : ℤ) : List Decimal → Book → Decimal → Except PyError Book
  | [], b, _ => .ok b
  | dest :: rest, b, cur => do
    let b' ← walkSegment t dest b.budget b cur
    walkPath t rest b' dest

/-- Some trigger lies inside the range of the bar. -/
def reachable (bar : DecBar) (ts : List Trigger) : Bool :=
  ts.any fun tr => if tr.firesUp then decide (tr.level ≤ bar.h) else decide (bar.l ≤ tr.level)

/-- `_walk_triggers`: at the open first, and then along the path of the bar. -/
def walkTriggers (bar : DecBar) : Except PyError Book := do
  let ts ← b.triggers bar.openTimeNs
  if !reachable bar ts then return b
  else
    let b' ← walkAtOpen bar.o bar.openTimeNs b.budget b
    walkPath bar.openTimeNs (b'.path bar) b' bar.o

/-! ### Orphans -/

/-- The sides of the queued orders that can open a position. -/
def entrySides (orders : Dict Uuid Order) : List Uuid → Except PyError (List Side)
  | [] => .ok []
  | c :: cs => do
    let o ← orderOf orders c
    let sides ← entrySides orders cs
    return if o.status = .new ∧ o.req.reduceOnly = false then o.req.side :: sides else sides

/-- `_expire_orphan_stops`: a reduce-only stop that can reduce neither the position nor one
    that a queued order may open is cancelled. -/
def expireOrphanStops : Except PyError Book := do
  let sides ← entrySides b.orders (b.st.marketQueue ++ b.st.stopOrders)
  let orphan (o : Order) : Bool :=
    o.req.reduceOnly && decide (sign b.st.position ≠ -o.req.side.toInt ∧
      Side.ofInt (-o.req.side.toInt) ∉ sides)
  let (keep, orders) ← sweep orphan
    (fun o => { o with status := .canceled, rejectCode := some .reduceOnly }) b.st.stopOrders
    b.orders
  return { b with orders := orders, st := { b.st with stopOrders := keep } }

/-- The second part of `on_bar`: the triggers, when there can be one. -/
def walkPhase (bar : DecBar) : Except PyError Book :=
  if b.st.stopOrders ≠ [] ∨ (b.st.position ≠ 0 ∧ (b.st.tpPrice.isSome ∨ b.st.liqPrice.isSome))
  then b.walkTriggers bar
  else .ok b

/-- The third part of `on_bar`: the orphans, when there can be one. -/
def expirePhase : Except PyError Book :=
  if b.st.stopOrders ≠ [] then b.expireOrphanStops else .ok b

/-- The part of `on_bar` that moves orders: the market queue, the triggers, the orphans. -/
def runBar (bar : DecBar) : Except PyError Book := do
  let b₁ ← b.fillMarketOrders bar
  let b₂ ← b₁.walkPhase bar
  b₂.expirePhase

end Book

/-! ### The calls of the broker -/

namespace InstState

/-- `_update_stats`: the smoothed volatility and volume, and the last close. -/
def updateStats (st : InstState) (lam : Decimal) (bar : DecBar) : InstState :=
  { st with
    var :=
      match st.lastClose with
      | none => st.var
      | some last =>
        let r := bar.c / last - 1
        match st.var with
        | none => some (r * r)
        | some v => some (lam * v + (1 - lam) * (r * r))
    lastClose := some bar.c
    vBar :=
      match st.vBar with
      | none => some bar.volume
      | some v => some (lam * v + (1 - lam) * bar.volume) }

/-- `_charge_funding`, for the moments since the last bar. -/
def fundingCharges (st : InstState) (cost : CostModel) (bar : DecBar) : List FundingCharge :=
  match st.lastOpenNs with
  | none => []
  | some last =>
    if st.position ≠ 0 ∧ cost.chargesFunding ∧ cost.nextFundingTime last ≤ bar.openTimeNs then
      (cost.fundingTimes last bar.openTimeNs).map fun ts =>
        let mark := if ts = bar.openTimeNs then bar.o else st.lastClose.getD bar.o
        ⟨st.spec.symbolCanon, ts, st.position, mark, st.fundingRate,
          cost.fundingPayment st.position mark st.fundingRate⟩
    else []

end InstState

namespace PaperBroker

variable (pb : PaperBroker)

/-- `PaperBroker(cost_model, instruments, ids, clock)`. -/
def new (cost : CostModel) (instruments : List Instrument) (ids : IdGenerator)
    (lam defaultFundingRate : Decimal) : PaperBroker where
  cost := cost
  ids := ids
  lam := lam
  state := instruments.foldl
    (fun d s => d.insert s.symbolCanon (InstState.new s defaultFundingRate)) ∅
  orders := ∅
  funding := []
  seq := 0

/-- `_reject`: the order is recorded with its code. -/
def reject (req : OrderRequest) (code : RejectCode) (now : ℤ) : OrderAck × PaperBroker :=
  (⟨req.clientOrderId, none, .rejected, some code, now⟩,
    { pb with
      orders := pb.orders.insert req.clientOrderId
        ⟨req, none, .rejected, some code, now, 0, none, none⟩ })

/-- The stop price of a request on the tick grid; `none` when it would not be positive. -/
def quantizedStop (spec : Instrument) (req : OrderRequest) : Option (Option Decimal) :=
  match req.otype, req.stopPrice with
  | .stopMarket, some sp =>
    let sp' := quantizePrice sp spec.tickSize
    if sp' ≤ 0 then none else some (some sp')
  | _, sp => some sp

/-- `submit`: queue an order; nothing executes on the current bar.  `now` is the reading of
    the clock. -/
def submit (now : ℤ) (req : OrderRequest) : OrderAck × PaperBroker :=
  let coid := req.clientOrderId
  if (pb.orders.get? coid).isSome then
    (⟨coid, none, .rejected, some .duplicateClientId, now⟩, pb)
  else match pb.state.get? req.instrument with
  | none => pb.reject req .venueError now
  | some st =>
    let qty := floorQty req.qty st.spec.stepSize
    if qty ≤ 0 then pb.reject req .zeroQty now
    -- only what may increase is held to the minimum, at the last known close
    else if !req.reduceOnly ∧ st.lastClose.any (fun c => decide (qty * c < st.spec.minNotional))
    then pb.reject req .belowMinNotional now
    else match quantizedStop st.spec req with
    | none => pb.reject req .venueError now
    | some sp =>
      let req' := { req with qty := qty, stopPrice := sp }
      let st' :=
        if req.otype = .market then { st with marketQueue := st.marketQueue ++ [coid] }
        else { st with stopOrders := st.stopOrders ++ [coid] }
      (⟨coid, some (pb.seq + 1), .new, none, now⟩,
        { pb with
          seq := pb.seq + 1
          orders := pb.orders.insert coid (Order.accepted req' (pb.seq + 1) now)
          state := pb.state.insert req.instrument st' })

/-- `on_bar`: funding, market orders, triggers, orphans, statistics. -/
def onBar (bar : DecBar) : Except PyError (List Fill × PaperBroker) :=
  match pb.state.get? bar.instrument with
  | none => .error (.valueError "unknown instrument")
  | some st =>
    if st.lastOpenNs.any (fun last => decide (bar.openTimeNs ≤ last)) then
      .error (.valueError "bars must be strictly increasing")
    else do
      let charges := st.fundingCharges pb.cost bar
      let b ← Book.runBar ⟨st, pb.orders, pb.ids, pb.seq, pb.cost, []⟩ bar
      let st' := { b.st.updateStats pb.lam bar with lastOpenNs := some bar.openTimeNs }
      return (b.fills, { pb with
        cost := b.cost
        ids := b.ids
        seq := b.seq
        orders := b.orders
        funding := pb.funding ++ charges
        state := pb.state.insert bar.instrument st' })

/-- The orders of a queue, with those that are still new cancelled. -/
def cancelQueue : List Uuid → Dict Uuid Order → Except PyError (Dict Uuid Order)
  | [], orders => .ok orders
  | c :: cs, orders => do
    let o ← orderOf orders c
    cancelQueue cs
      (if o.status = .new then orders.insert c { o with status := .canceled } else orders)

/-- `cancel_all`: both queues and the take-profit; the liquidation price stays. -/
def cancelAll (instrument : String) : Except PyError PaperBroker :=
  match pb.state.get? instrument with
  | none => .ok pb
  | some st => do
    let orders ← cancelQueue (st.marketQueue ++ st.stopOrders) pb.orders
    return { pb with
      orders := orders
      state := pb.state.insert instrument
        { st with marketQueue := [], stopOrders := [], tpPrice := none, tpSide := 0 } }

/-- `_require`: an unknown instrument raises. -/
def require (instrument : String) : Except PyError InstState :=
  match pb.state.get? instrument with
  | none => .error (.keyError "unknown instrument")
  | some st => .ok st

/-- `cancel`: one order that has not executed; false when there is none. -/
def cancel (coid : Uuid) : Except PyError (Bool × PaperBroker) :=
  match pb.orders.get? coid with
  | none => .ok (false, pb)
  | some o =>
    if o.status ≠ .new then .ok (false, pb)
    else do
      let st ← pb.require o.req.instrument
      return (true, { pb with
        orders := pb.orders.insert coid { o with status := .canceled }
        state := pb.state.insert o.req.instrument
          { st with
            marketQueue := st.marketQueue.erase coid
            stopOrders := st.stopOrders.erase coid } })

/-- `set_take_profit`; `side = none` applies to any position. -/
def setTakeProfit (instrument : String) (price : Option Decimal) (side : Option Side) :
    Except PyError PaperBroker := do
  let st ← pb.require instrument
  if side = some .flat then
    .error (.valueError "take-profit side must be LONG, SHORT or None")
  else
    return { pb with
      state := pb.state.insert instrument
        { st with
          tpPrice := price.map fun p => quantizePrice p st.spec.tickSize
          tpSide := if price = none then 0 else side.elim 0 Side.toInt } }

/-- `set_liquidation_price`: the level at which the position is closed by the exchange. -/
def setLiquidationPrice (instrument : String) (price : Option Decimal) :
    Except PyError PaperBroker := do
  let st ← pb.require instrument
  return { pb with state := pb.state.insert instrument { st with liqPrice := price } }

/-- `set_funding_rate`: the rate that the next moments are charged. -/
def setFundingRate (instrument : String) (rate : Decimal) : Except PyError PaperBroker := do
  let st ← pb.require instrument
  return { pb with state := pb.state.insert instrument { st with fundingRate := rate } }

/-! ### Queries -/

/-- `position`: the signed quantity that the broker holds. -/
def position (instrument : String) : Except PyError Decimal := do
  let st ← pb.require instrument
  return st.position

/-- `order_ack`: what was answered to the order, with its present status. -/
def orderAck (coid : Uuid) : Option OrderAck :=
  (pb.orders.get? coid).map fun o => ⟨coid, o.venueOrderId, o.status, o.rejectCode, o.tsNs⟩

/-- The request of an order, as it was accepted. -/
def orderRequest (coid : Uuid) : Option OrderRequest := (pb.orders.get? coid).map Order.req

/-- The reason that an order closed a position, once it has. -/
def exitReason (coid : Uuid) : Option ExitReason := (pb.orders.get? coid).bind Order.exitReason

/-- `drain_funding`: the charges so far are handed over once. -/
def drainFunding : List FundingCharge × PaperBroker := (pb.funding, { pb with funding := [] })

end PaperBroker

end FuzzHelm
