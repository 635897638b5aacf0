import FuzzHelm.Execution.Portfolio
import FuzzHelm.Risk.Verdict
import FuzzHelm.Sizing.Sizer

namespace FuzzHelm

/-!
# The records of the trading loop

The rows that a step leaves behind: decisions, orders with their current state, positions
from their opening to their closing.
-/

/-- The action of a decision; its string is the role of the market order that it sends. -/
inductive Action where
  | hold
  | enter
  | exit
  | flip
  | flatten
  | none
  deriving DecidableEq, Repr

/-- The text of an action. -/
def Action.value : Action → String
  | .hold => "hold"
  | .enter => "enter"
  | .exit => "exit"
  | .flip => "flip"
  | .flatten => "flatten"
  | .none => "none"

/-- The role of the market order of a decision. -/
def Action.role (a : Action) : String :=
  if a = .enter ∨ a = .exit ∨ a = .flip ∨ a = .flatten then a.value else "entry"

/-- What is recorded of a decision. -/
structure DecisionEntry where
  openTimeNs : ℤ
  decidedAtNs : ℤ
  uRaw : ℚ
  kappa : ℚ
  uFinal : ℚ
  gateSide : ℤ
  currentQty : Decimal
  requestedQty : Option Decimal
  targetSide : ℤ
  targetQty : Decimal
  bindingConstraint : Option BindingConstraint
  stopPrice : Option Decimal
  tpPrice : Option Decimal
  liqPrice : Option Decimal
  action : Action
  verdict : Option VerdictKind
  orderIds : List Uuid
  deriving DecidableEq

/-- An order and its current state. -/
structure OrderRecord where
  request : OrderRequest
  decisionNs : Option ℤ
  role : String
  status : OrderStatus
  rejectCode : Option RejectCode
  venueOrderId : Option ℕ
  tsCreatedNs : ℤ
  filledQty : Decimal
  avgFillPrice : Option Decimal
  fee : Decimal
  slippageBps : Option Decimal
  liquidity : Option Liquidity
  tsFilledNs : Option ℤ
  intentReason : Option ExitReason
  deriving DecidableEq

/-- `OrderRecord(…)` of an order that nothing has been filled of. -/
def OrderRecord.new (request : OrderRequest) (decisionNs : Option ℤ) (role : String)
    (status : OrderStatus) (rejectCode : Option RejectCode) (venueOrderId : Option ℕ)
    (intentReason : Option ExitReason) : OrderRecord where
  request := request
  decisionNs := decisionNs
  role := role
  status := status
  rejectCode := rejectCode
  venueOrderId := venueOrderId
  tsCreatedNs := request.tsCreatedNs
  filledQty := 0
  avgFillPrice := none
  fee := 0
  slippageBps := none
  liquidity := none
  tsFilledNs := none
  intentReason := intentReason

/-- The accumulation of one fill, as in `_apply_fill`. -/
def OrderRecord.addFill (record : OrderRecord) (f : Fill) : OrderRecord :=
  let q := record.filledQty + f.qty
  { record with
    avgFillPrice :=
      match record.avgFillPrice with
      | none => some f.price
      | some avg => some ((avg * record.filledQty + f.price * f.qty) / q)
    filledQty := q
    fee := record.fee + f.fee
    slippageBps := some f.slippageBps
    liquidity := some f.liquidity
    tsFilledNs := some f.tsFillNs
    status := if record.request.qty ≤ q then .filled else .partialFill }

/-- `_FINAL_STATUSES`: an order at one of them does not change any more. -/
def OrderStatus.isFinal (s : OrderStatus) : Bool :=
  decide (s = .filled ∨ s = .rejected ∨ s = .canceled)

/-- A position from its opening to its closing. -/
structure PositionRecord where
  instrument : String
  side : ℤ
  openedAtNs : ℤ
  openingDecisionNs : Option ℤ
  avgEntry : Decimal
  qty : Decimal
  leverage : Option Decimal
  allocatedMargin : Option Decimal
  stopPrice : Option Decimal
  tpPrice : Option Decimal
  liqPrice : Option Decimal
  closedAtNs : Option ℤ
  exitReason : Option ExitReason
  realizedPnl : Option Decimal
  fundingPaid : Option Decimal
  fees : Option Decimal
  maxAdverseExcursion : Option Decimal
  exitPrice : Option Decimal
  deriving DecidableEq

/-- The closing of a position by the trade `ct`, as in `_close_position`. -/
def PositionRecord.close (record : PositionRecord) (ct : ClosedTrade) : PositionRecord :=
  { record with
    qty := ct.qty
    avgEntry := ct.entryPrice
    closedAtNs := some ct.closedAtNs
    exitReason := ct.exitReason
    realizedPnl := some (ct.grossPnl - ct.fees)
    fundingPaid := some ct.funding
    fees := some ct.fees
    maxAdverseExcursion := some ct.maxAdverseExcursion
    exitPrice := some ct.exitPrice }

/-- `_Entry`: what a queued entry was decided with. -/
structure EntryMeta where
  decisionNs : ℤ
  stop : Option Decimal
  tp : Option Decimal
  deriving DecidableEq

end FuzzHelm
