import FuzzHelm.Core.Dto
import FuzzHelm.Lib.UniqueTable
import FuzzHelm.Storage.Common
import FuzzHelm.Storage.RiskEvent

namespace FuzzHelm

open Lib

/-!
# The repository of orders

A row of `sim_order` refers to its decision and has a unique client order id.  It is written
whole, or created and then changed by fills, receipts and cancellations.

* `orderValues` — a new row;
* `SimOrderRow.applyFill`, `applyAck`, `cancel` — the changes of a row;
* `OrderRepo` — the statements on the table;
* `OrderRepo.insertMany_eq` — the parts of a batch make no difference.
-/

/-- A row of `sim_order`.  A run has one decision for the open of a bar, which stands for its id;
    the times are in microseconds. -/
structure SimOrderRow where
  decisionNs : ℤ
  clientOrderId : Uuid
  venueOrderId : Option ℕ
  side : ℤ
  otype : OrderType
  qty : Decimal
  filledQty : Decimal
  avgFillPrice : Option Decimal
  fee : Decimal
  slippageBps : Option Decimal
  liquidity : Option Liquidity
  status : OrderStatus
  rejectCode : Option RejectCode
  tsCreated : ℤ
  tsFilled : Option ℤ
  deriving DecidableEq

/-- `order_values`; what is not given of the quantity and of the fee is zero. -/
def orderValues (req : OrderRequest) (decisionNs : ℤ) (status : OrderStatus)
    (rejectCode : Option RejectCode) (venueOrderId : Option ℕ) (filledQty avgFillPrice fee
    slippageBps : Option Decimal) (liquidity : Option Liquidity) (tsFilledNs : Option ℤ) :
    SimOrderRow where
  decisionNs := decisionNs
  clientOrderId := req.clientOrderId
  venueOrderId := venueOrderId
  side := req.side.toInt
  otype := req.otype
  qty := req.qty
  filledQty := filledQty.getD 0
  avgFillPrice := avgFillPrice
  fee := fee.getD 0
  slippageBps := slippageBps
  liquidity := liquidity
  status := status
  rejectCode := rejectCode
  tsCreated := nsToDt req.tsCreatedNs
  tsFilled := tsFilledNs.map nsToDt

namespace SimOrderRow

variable (row : SimOrderRow)

/-- The new values of `apply_ack`. -/
def applyAck (ack : OrderAck) : SimOrderRow :=
  { row with
    status := ack.status
    rejectCode := ack.rejectCode
    venueOrderId := ack.venueOrderId <|> row.venueOrderId }

/-- The new values of `apply_fill`: the fill is accumulated. -/
def applyFill (f : Fill) : SimOrderRow :=
  let newFilled := row.filledQty + f.qty
  { row with
    filledQty := newFilled
    avgFillPrice := some ((row.avgFillPrice.getD 0 * row.filledQty + f.price * f.qty) / newFilled)
    fee := row.fee + f.fee
    slippageBps := some f.slippageBps
    liquidity := some f.liquidity
    tsFilled := some (nsToDt f.tsFillNs)
    status := if row.qty ≤ newFilled then .filled else .partialFill
    venueOrderId := f.venueOrderId <|> row.venueOrderId }

/-- The new values of `cancel`. -/
def cancel (atNs : Option ℤ) : SimOrderRow :=
  { row with
    status := .canceled
    tsFilled := atNs.map nsToDt <|> row.tsFilled }

/-- The row without the id that the venue gave to the order. -/
def withoutVenue : SimOrderRow := { row with venueOrderId := none }

/-- An order that is cancelled twice is cancelled once. -/
@[simp] theorem cancel_cancel (t : ℤ) :
    (row.cancel (some t)).cancel (some t) = row.cancel (some t) := rfl

end SimOrderRow

/-- The table of the orders, by client identifier. -/
abbrev OrderTable := Dict Uuid SimOrderRow

/-- A taken key is a violation of the constraint `UNIQUE (client_order_id)`; a missing one is the
    `LookupError` of `_update`. -/
abbrev OrderError := TableError Uuid

namespace OrderRepo

/-- `INSERT_CHUNK`. -/
def INSERT_CHUNK : ℕ := 2000

/-- One statement for each part. -/
def insertParts : List (List SimOrderRow) → OrderTable → Except OrderError OrderTable
  | [], t => .ok t
  | part :: parts, t => do
    let t' ← insertRows SimOrderRow.clientOrderId part t
    insertParts parts t'

/-- `insert_many`. -/
def insertMany (rows : List SimOrderRow) (t : OrderTable) : Except OrderError OrderTable :=
  insertParts (chunks rows INSERT_CHUNK) t

/-- `apply_fill`, for one fill after another. -/
def applyFills : List Fill → OrderTable → Except OrderError OrderTable :=
  updateRows Fill.clientOrderId fun f row => row.applyFill f

/-- The parts go in one after another. -/
theorem insertParts_eq (parts : List (List SimOrderRow)) (t : OrderTable) :
    insertParts parts t = insertRows SimOrderRow.clientOrderId parts.flatten t := by
  induction parts generalizing t with
  | nil => rfl
  | cons part parts ih =>
    rw [insertParts, List.flatten_cons, insertRows_append]
    exact congrArg _ (funext ih)

/-- The rows are inserted, in however many parts. -/
theorem insertMany_eq (rows : List SimOrderRow) (t : OrderTable) :
    insertMany rows t = insertRows SimOrderRow.clientOrderId rows t := by
  rw [insertMany, insertParts_eq, chunks_flatten rows (by decide)]

end OrderRepo

end FuzzHelm
