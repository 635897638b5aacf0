import FuzzHelm.Backtest.OrderStep
import FuzzHelm.Backtest.Recording
import FuzzHelm.Storage.Order

namespace FuzzHelm

open Lib

/-!
# Writing the orders of a run

The orders of a run are written in one batch when it is over, or step by step while it goes on.
The batch writes the record of every order as it is at the end; the steps create a row, and carry
into it the fills and the cancellations that they report.

* `DecisionEntry.traced`, `DecisionEntry.kept` — which decisions have a trace;
* `planBacktest` / `persistBacktest` — the batch;
* `LivePersister.writeStep` — one step.
-/

/-! ### Which decisions are written -/

/-- The decision has a trace. -/
def DecisionEntry.traced (mode : RecordMode) (D : DecisionEntry) : Bool :=
  match mode with
  | .all => true
  | .trades => decide (D.orderIds ≠ [])
  | .none => false

/-- The loop keeps the decision. -/
def DecisionEntry.kept (mode : RecordMode) (D : DecisionEntry) : Bool :=
  decide (mode = .all ∨ D.orderIds ≠ [])

/-- What has a trace is kept. -/
theorem DecisionEntry.kept_of_traced {mode : RecordMode} {D : DecisionEntry}
    (h : D.traced mode = true) : D.kept mode = true := by
  cases mode with
  | all => simp [kept]
  | trades =>
    rw [traced, decide_eq_true_iff] at h
    simp [kept, h]
  | none => cases h

section Traces

variable {W : Type} {core : DecisionCore W} {mode : RecordMode} {l l' : TradingLoop}
  {inp : BarInput W}

namespace TradingLoop

end TradingLoop

end Traces

/-- The decision that the row of an order refers to: one that has been written. -/
def OrderRecord.decisionAmong (o : OrderRecord) (known : List ℤ) : Option ℤ :=
  o.decisionNs.filter fun d => decide (d ∈ known)

/-! ### The batch -/

namespace TradingLoop

variable (l : TradingLoop)

/-- One turn of `refresh_order_statuses`. -/
def refreshed (c : Uuid) (record : OrderRecord) : OrderRecord :=
  match l.broker.orderAck c with
  | none => record
  | some ack =>
    if record.status = .filled then record
    else { record with status := ack.status, rejectCode := ack.rejectCode }

/-- `refresh_order_statuses`: every record takes the status that the broker has for it. -/
def refreshOrderStatuses : TradingLoop := { l with orders := l.orders.mapValues l.refreshed }

end TradingLoop

namespace LoopLog

variable (log : LoopLog)

/-- The decisions that a loop keeps. -/
def keptDecisions (mode : RecordMode) : List DecisionEntry :=
  log.decisions.filter fun D => D.kept mode

/-- The orders that appeared on the steps, in their order. -/
def orderIds : List Uuid :=
  log.steps.flatMap fun r => r.orders.map fun o => o.request.clientOrderId

/-- The records that a loop keeps.  A step adds the record itself and not a copy, so that it
    shows what later steps have done to it. -/
def keptOrders (l : TradingLoop) : List OrderRecord := log.orderIds.filterMap l.orders.get?

end LoopLog

/-- What is written of a finished run, as far as orders go. -/
structure BacktestPlan where
  decisionKeys : List ℤ
  decisionsSkipped : ℕ
  orders : List (OrderRecord × ℤ)
  ordersSkipped : ℕ

/-- `plan_backtest`: the rows of a run that has ended. -/
def planBacktest (mode : RecordMode) (decisions : List DecisionEntry)
    (orders : List OrderRecord) : BacktestPlan :=
  let known := (decisions.filter fun D => D.traced mode).map DecisionEntry.openTimeNs
  { decisionKeys := known
    decisionsSkipped := decisions.countP fun D => !D.traced mode
    orders := orders.filterMap fun o => (o.decisionAmong known).map fun d => (o, d)
    ordersSkipped := orders.countP fun o => (o.decisionAmong known).isNone }

/-- `order_row`: the row of an order, under the decision it came from. -/
def orderRow (o : OrderRecord) (decisionNs : ℤ) : SimOrderRow :=
  orderValues o.request decisionNs o.status o.rejectCode o.venueOrderId (some o.filledQty)
    o.avgFillPrice (some o.fee) o.slippageBps o.liquidity o.tsFilledNs

/-- `write_plan`, on the table of orders. -/
def writePlan (plan : BacktestPlan) (t : OrderTable) : Except OrderError OrderTable :=
  OrderRepo.insertMany (plan.orders.map fun e => orderRow e.1 e.2) t

/-- The end of `run_backtest`, and `persist_backtest`. -/
def persistBacktest (mode : RecordMode) (log : LoopLog) (l : TradingLoop) :
    Except OrderError OrderTable :=
  let l' := l.refreshOrderStatuses
  writePlan (planBacktest mode (log.keptDecisions mode) (log.keptOrders l')) ∅

/-! ### Step by step -/

/-- What `LivePersister` remembers between two steps, as far as orders go. -/
structure LivePersister where
  decisionIds : List ℤ
  orders : List Uuid
  ordersSkipped : ℕ

/-- `_has_fill`: some fill names the order. -/
def hasFill (fills : List Fill) (o : OrderRecord) : Bool :=
  fills.any fun f => decide (f.clientOrderId = o.request.clientOrderId)

/-- `_ack`: the acknowledgement that the record of an order amounts to. -/
def ackOf (o : OrderRecord) : OrderAck :=
  ⟨o.request.clientOrderId, o.venueOrderId, o.status, o.rejectCode, o.tsCreatedNs⟩

namespace LivePersister

/-- A persister that has written nothing. -/
def new : LivePersister := ⟨[], [], 0⟩

variable (p : LivePersister)

/-- A decision with a trace is written. -/
def noteDecision (mode : RecordMode) : Option DecisionEntry → LivePersister
  | some D => if D.traced mode then { p with decisionIds := p.decisionIds ++ [D.openTimeNs] } else p
  | none => p

/-- The row of an order that has appeared, before the fills of the step. -/
def newRow (fills : List Fill) (o : OrderRecord) : Option SimOrderRow :=
  (o.decisionAmong p.decisionIds).map fun d =>
    orderValues o.request d (if hasFill fills o then .new else o.status) o.rejectCode
      o.venueOrderId none none none none none none

/-- The orders of a step are created. -/
def noteOrders (r : StepResult) : LivePersister :=
  { p with
    orders := p.orders ++ (r.orders.filterMap (p.newRow r.fills)).map SimOrderRow.clientOrderId
    ordersSkipped := p.ordersSkipped +
      r.orders.countP fun o => (o.decisionAmong p.decisionIds).isNone }

/-- The update changes a row. -/
def reports (u : OrderRecord) : Bool :=
  decide (u.request.clientOrderId ∈ p.orders ∧ (u.status = .canceled ∨ u.status = .rejected))

/-- What an update makes of the row of its order. -/
def applyUpdate (closeTimeNs : ℤ) (u : OrderRecord) (row : SimOrderRow) : SimOrderRow :=
  if u.status = .canceled then row.cancel (some closeTimeNs) else row.applyAck (ackOf u)

/-- `write_step`, on the table of orders. -/
def writeStep (mode : RecordMode) (r : StepResult) (p : LivePersister) (t : OrderTable) :
    Except OrderError (LivePersister × OrderTable) := do
  let p₁ := p.noteDecision mode r.decision
  let t₁ ← OrderRepo.insertMany (r.orders.filterMap (p₁.newRow r.fills)) t
  let p₂ := p₁.noteOrders r
  let t₂ ← OrderRepo.applyFills
    (r.fills.filter fun f => decide (f.clientOrderId ∈ p₂.orders)) t₁
  let t₃ ← updateRows (fun u => u.request.clientOrderId) (applyUpdate r.closeTimeNs)
    (r.orderUpdates.filter p₂.reports) t₂
  return (p₂, t₃)

/-- The steps of a run, written one after another. -/
def writeSteps (mode : RecordMode) : List StepResult → LivePersister → OrderTable →
    Except OrderError (LivePersister × OrderTable)
  | [], p, t => .ok (p, t)
  | r :: rs, p, t => do
    let (p', t') ← writeStep mode r p t
    writeSteps mode rs p' t'

/-- One step more is written after the others. -/
theorem writeSteps_snoc {mode : RecordMode} {rs : List StepResult} {r : StepResult}
    {p p' : LivePersister} {t t' : OrderTable} (h : writeSteps mode rs p t = .ok (p', t')) :
    writeSteps mode (rs ++ [r]) p t = writeStep mode r p' t' := by
  induction rs generalizing p t with
  | nil =>
    cases h
    show writeStep mode r p' t' >>= (fun x => Except.ok (x.1, x.2)) = writeStep mode r p' t'
    cases writeStep mode r p' t' <;> rfl
  | cons r₀ rs ih =>
    obtain ⟨⟨p₁, t₁⟩, hone, h⟩ := bind_eq_ok.mp h
    rw [List.cons_append, writeSteps, hone]
    exact ih h

end LivePersister

end FuzzHelm
