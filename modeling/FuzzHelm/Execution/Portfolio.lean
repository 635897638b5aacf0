import FuzzHelm.Execution.CostModel
import FuzzHelm.Lib.Dict
import FuzzHelm.Lib.Run

namespace FuzzHelm

open Lib

/-!
# The account

Positions, realised profit, fees, funding and equity of a linear perpetual account.

* `Position` — an open position with the accumulators of its current trade;
* `Position.increase`, `Position.reduce`, `Position.reopen` — the three ways a fill moves a
  position;
* `Portfolio.applyFill`, `applyFunding`, `mark` — the events of the account;
* `Portfolio.equity`, `equityCashForm` — the two forms of the equity.
-/

/-! ### Positions and trades -/

/-- `Position`: the quantity, what it cost, and what has been realised, paid and charged. -/
structure Position where
  instrument : String
  qty : Decimal
  costBasis : Decimal
  realizedPnl : Decimal
  fundingPaid : Decimal
  feesPaid : Decimal
  openedAtNs : Option ℤ
  maxAdverseExcursion : Decimal
  tSide : Side
  tMaxQty : Decimal
  tRealized : Decimal
  tFees : Decimal
  tFunding : Decimal
  tEntryNotional : Decimal
  tEntryQty : Decimal
  tExitNotional : Decimal
  tExitQty : Decimal
  deriving DecidableEq, Repr

/-- A finished trade: from the opening of a position to its return to zero. -/
structure ClosedTrade where
  instrument : String
  side : Side
  qty : Decimal
  entryPrice : Decimal
  exitPrice : Decimal
  grossPnl : Decimal
  fees : Decimal
  funding : Decimal
  pnl : Decimal
  entryNotional : Decimal
  exitNotional : Decimal
  openedAtNs : ℤ
  closedAtNs : ℤ
  exitReason : Option ExitReason
  maxAdverseExcursion : Decimal
  deriving DecidableEq, Repr

namespace Position

/-- `Position(instrument)`: flat, and nothing realised. -/
def new (instrument : String) : Position :=
  ⟨instrument, 0, 0, 0, 0, 0, none, 0, .flat, 0, 0, 0, 0, 0, 0, 0, 0⟩

variable (p : Position)

/-- `avg_entry`: none without a position. -/
def avgEntry : Option Decimal := if p.qty = 0 then none else some (p.costBasis / p.qty)

/-- `_start_trade`: the accounts of a trade begin with its first fill. -/
def startTrade (side : Side) (tsNs : ℤ) : Position :=
  { p with
    openedAtNs := some tsNs
    maxAdverseExcursion := 0
    tSide := side
    tMaxQty := 0
    tRealized := 0
    tFees := 0
    tFunding := 0
    tEntryNotional := 0
    tEntryQty := 0
    tExitNotional := 0
    tExitQty := 0 }

/-- The trade that `_finish_trade` books. -/
def closedTrade (tsNs : ℤ) (exitReason : Option ExitReason) : ClosedTrade where
  instrument := p.instrument
  side := p.tSide
  qty := p.tMaxQty
  entryPrice := if 0 < p.tEntryQty then p.tEntryNotional / p.tEntryQty else 0
  exitPrice := if 0 < p.tExitQty then p.tExitNotional / p.tExitQty else 0
  grossPnl := p.tRealized
  fees := p.tFees
  funding := p.tFunding
  pnl := p.tRealized - p.tFees - p.tFunding
  entryNotional := p.tEntryNotional
  exitNotional := p.tExitNotional
  openedAtNs := p.openedAtNs.getD tsNs
  closedAtNs := tsNs
  exitReason := exitReason
  maxAdverseExcursion := p.maxAdverseExcursion

/-- The position after `_finish_trade`. -/
def finished : Position := { p with openedAtNs := none, tSide := .flat }

/-- The fee is booked on the instrument before the position moves. -/
def payFee (fee : Decimal) : Position := { p with feesPaid := p.feesPaid + fee }

/-- Opening or adding: the fill is on the side of the position, or there is none. -/
def increase (f : Fill) : Position :=
  let p := if p.qty = 0 then p.startTrade f.side f.tsFillNs else p
  { p with
    costBasis := p.costBasis + f.dq * f.price
    qty := p.qty + f.dq
    tFees := p.tFees + f.fee
    tEntryNotional := p.tEntryNotional + f.qty * f.price
    tEntryQty := p.tEntryQty + f.qty
    tMaxQty := max p.tMaxQty |p.qty + f.dq| }

/-- The part of the fill that closes. -/
def closedQty (f : Fill) : Decimal := min f.qty |p.qty|

/-- The average cost of the closed part. -/
def costRemoved (f : Fill) : Decimal :=
  if p.closedQty f = |p.qty| then p.costBasis else p.costBasis * p.closedQty f / |p.qty|

/-- The profit that the closed part realises. -/
def closedPnl (f : Fill) : Decimal := sign p.qty * p.closedQty f * f.price - p.costRemoved f

/-- The share of the fee that belongs to the closed part. -/
def feeClose (f : Fill) : Decimal :=
  if p.closedQty f = f.qty then f.fee else f.fee * p.closedQty f / f.qty

/-- Reducing, up to closing. -/
def reduce (f : Fill) : Position :=
  let qty := p.qty + f.side.toInt * p.closedQty f
  { p with
    realizedPnl := p.realizedPnl + p.closedPnl f
    costBasis := if qty = 0 then 0 else p.costBasis - p.costRemoved f
    qty := qty
    tRealized := p.tRealized + p.closedPnl f
    tFees := p.tFees + p.feeClose f
    tExitNotional := p.tExitNotional + p.closedQty f * f.price
    tExitQty := p.tExitQty + p.closedQty f }

/-- A flip through zero: what is left of the fill opens a trade on the other side. -/
def reopen (f : Fill) (remainder feeLeft : Decimal) : Position :=
  let p := p.startTrade f.side f.tsFillNs
  { p with
    costBasis := f.side.toInt * remainder * f.price
    qty := f.side.toInt * remainder
    tFees := p.tFees + feeLeft
    tEntryNotional := p.tEntryNotional + remainder * f.price
    tEntryQty := p.tEntryQty + remainder
    tMaxQty := remainder }

/-- The adverse excursion of the open trade follows the mark. -/
def markAt (price : Decimal) : Position :=
  { p with
    maxAdverseExcursion := min p.maxAdverseExcursion (p.qty * price - p.costBasis) }

/-- What a fill makes of a position: the position after it, the profit it realised and the
    trade it closed. -/
def fill (f : Fill) (exitReason : Option ExitReason) :
    Position × Decimal × Option ClosedTrade :=
  let p := p.payFee f.fee
  if p.qty = 0 ∨ sign p.qty = f.side.toInt then (p.increase f, 0, none)
  else
    let reduced := p.reduce f
    let trade :=
      if reduced.qty = 0 then some (reduced.closedTrade f.tsFillNs exitReason) else none
    let rest := if reduced.qty = 0 then reduced.finished else reduced
    let remainder := f.qty - p.closedQty f
    let after := if 0 < remainder then rest.reopen f remainder (f.fee - p.feeClose f) else rest
    (after, p.closedPnl f, trade)

end Position

/-! ### The portfolio -/

/-- `Portfolio`: the cash, the positions and the marks. -/
structure Portfolio where
  initial : NonNegDec
  cash : Decimal
  feesPaid : Decimal
  fundingPaid : Decimal
  realizedPnl : Decimal
  tradedNotional : Decimal
  nFills : ℕ
  positions : Dict String Position
  marks : Dict String Decimal
  closedTrades : List ClosedTrade

namespace Portfolio

/-- `Portfolio(cash)`. -/
def new (cash : NonNegDec) : Portfolio := ⟨cash, cash, 0, 0, 0, 0, 0, ∅, ∅, []⟩

variable (pf : Portfolio)

/-- The position of an instrument, created empty when it is not there. -/
def positionOrNew (instrument : String) : Position :=
  (pf.positions.get? instrument).getD (Position.new instrument)

/-- The quantity of an instrument that may be unknown. -/
def positionQty (instrument : String) : Decimal :=
  (pf.positions.get? instrument).elim 0 Position.qty

/-- The account after a fill, and the trades that it closed. -/
def bookFill (f : Fill) (exitReason : Option ExitReason) : List ClosedTrade × Portfolio :=
  let (pos, pnl, trade) := (pf.positionOrNew f.instrument).fill f exitReason
  (trade.toList, { pf with
    cash := pf.cash - f.dq * f.price
    feesPaid := pf.feesPaid + f.fee
    tradedNotional := pf.tradedNotional + f.qty * f.price
    nFills := pf.nFills + 1
    marks :=
      if (pf.marks.get? f.instrument).isSome then pf.marks
      else pf.marks.insert f.instrument f.price
    realizedPnl := pf.realizedPnl + pnl
    positions := pf.positions.insert f.instrument pos
    closedTrades := pf.closedTrades ++ trade.toList })

/-- `apply_fill`: a flat side raises before anything is booked. -/
def applyFill (f : Fill) (exitReason : Option ExitReason) :
    Except PyError (List ClosedTrade) × Portfolio :=
  if f.side = .flat then (.error (.valueError "fill side must be LONG or SHORT"), pf)
  else
    let (trades, pf') := pf.bookFill f exitReason
    (.ok trades, pf')

/-- `apply_funding`: the charge leaves the wallet, and is noted with the open trade. -/
def applyFunding (ch : FundingCharge) : Portfolio :=
  let pos := pf.positionOrNew ch.instrument
  { pf with
    cash := pf.cash - ch.amount
    fundingPaid := pf.fundingPaid + ch.amount
    positions := pf.positions.insert ch.instrument
      { pos with
        fundingPaid := pos.fundingPaid + ch.amount
        tFunding := pos.tFunding + ch.amount } }

/-! ### Valuation -/

/-- `_mark_of`: an instrument without a mark raises. -/
def markOf (instrument : String) : Except PyError Decimal :=
  match pf.marks.get? instrument with
  | none => .error (.keyError "no mark price")
  | some m => .ok m

/-- The sum of `value pos mark` over the held positions. -/
def heldSum (value : Position → Decimal → Decimal) : Except PyError Decimal :=
  pf.positions.entries.foldlM
    (fun total e =>
      if e.2.qty ≠ 0 then do
        let m ← pf.markOf e.1
        return total + value e.2 m
      else return total) 0

/-- `wallet_balance`: the cash with what was realised, paid and charged. -/
def walletBalance : Decimal := pf.initial + pf.realizedPnl - pf.feesPaid - pf.fundingPaid

/-- `unrealized_pnl`: every position that is open needs a mark. -/
def unrealizedPnl : Except PyError Decimal :=
  pf.heldSum fun p m => p.qty * m - p.costBasis

/-- `equity`: the margin form. -/
def equity : Except PyError Decimal := do
  let u ← pf.unrealizedPnl
  return pf.walletBalance + u

/-- `equity_cash_form`: the cash and the value of the positions. -/
def equityCashForm : Except PyError Decimal := do
  let holdings ← pf.heldSum fun p m => p.qty * m
  return pf.cash + holdings - pf.feesPaid

/-- `identity_residual`: by how much both forms of the equity differ. -/
def identityResidual : Except PyError Decimal := do
  let c ← pf.equityCashForm
  let e ← pf.equity
  return c - e

/-- `gross_exposure`: the value of all positions, each by its size. -/
def grossExposure : Except PyError Decimal := pf.heldSum fun p m => |p.qty| * m

/-- One price of a `mark`: the adverse excursion of an open trade follows it. -/
def markOne (instrument : String) (price : Decimal) : Portfolio :=
  { pf with
    marks := pf.marks.insert instrument price
    positions :=
      match pf.positions.get? instrument with
      | some pos =>
        if pos.qty ≠ 0 then pf.positions.insert instrument (pos.markAt price)
        else pf.positions
      | none => pf.positions }

/-- `mark`: a price that is not positive raises, after the prices before it were taken. -/
def mark (pf : Portfolio) : List (String × Decimal) → Except PyError Decimal × Portfolio
  | [] => (pf.equity, pf)
  | (instrument, price) :: prices =>
    if price ≤ 0 then (.error (.valueError "mark price must be > 0"), pf)
    else (pf.markOne instrument price).mark prices

end Portfolio

end FuzzHelm
