import FuzzHelm.Backtest.Loop
import FuzzHelm.Execution.Rated

namespace FuzzHelm

open Lib

/-!
# What most of a step does not read

The recording level, the records of funding with their cursor, and the funding rate are each
read in one place.  Everywhere else the loop does the same under others, on the loop with these.

* `Overlay`, `TradingLoop.overlay` — other such values, and the loop with them;
* `cancelPendingIncreases_overlay`, `bookBar_overlay`, `valueBar_overlay` — the parts of a step
  before the decision; the bar, if it charges the same;
* `act_overlay` — an intent that goes through the guard.
-/

/-- Other values of what is read in one place only. -/
structure Overlay where
  recordAll : Bool → Bool
  records : List (ℤ × Decimal) → List (ℤ × Decimal)
  cursor : ℕ → ℕ
  rate : String → Decimal → Decimal

namespace TradingLoop

/-- The loop with other values. -/
def overlay (o : Overlay) (l : TradingLoop) : TradingLoop :=
  { l with
    cfg := { l.cfg with recordAll := o.recordAll l.cfg.recordAll }
    funding := o.records l.funding
    fundingPtr := o.cursor l.fundingPtr
    broker := l.broker.rated o.rate }

/-- A result of which the loop goes on with other values. -/
def overlaid {α : Type} (o : Overlay) (r : α × TradingLoop) : α × TradingLoop :=
  (r.1, r.2.overlay o)

variable (o : Overlay) (l : TradingLoop)

/-! ### Before the bar -/

/-- The overlay takes no part when entries are cancelled, by induction on them. -/
theorem cancelEntries_overlay (cs : List Uuid) : cancelEntries cs (l.overlay o) =
    overlaid o <$> cancelEntries cs l := by
  induction cs generalizing l with
  | nil => rfl
  | cons c cs ih =>
    rw [cancelEntries, cancelEntries]
    refine bind_same fun record => ite_square ?_ (ih l)
    refine bind_square (l.broker.cancel_rated o.rate c) fun r => ite_square ?_ ?_
    · exact bind_square (ih { l with broker := r.2, entries := l.entries.erase c }) fun r => rfl
    · exact ih { l with broker := r.2 }

/-- The overlay takes no part when stops are cancelled, by induction on them. -/
theorem cancelStops_overlay (cancelled : List (Option ℤ)) (cs : List Uuid) :
    cancelStops cancelled cs (l.overlay o) = overlay o <$> cancelStops cancelled cs l := by
  induction cs generalizing l with
  | nil => rfl
  | cons c cs ih =>
    rw [cancelStops, cancelStops]
    refine bind_same fun record => ite_square ?_ (ih l)
    refine bind_square (l.broker.cancel_rated o.rate c) fun r => ?_
    exact ih { l with broker := r.2 }

/-- The overlay takes no part when what would increase the position is cancelled. -/
theorem cancelPendingIncreases_overlay :
    (l.overlay o).cancelPendingIncreases = overlay o <$> l.cancelPendingIncreases := by
  unfold cancelPendingIncreases
  refine bind_square (l.cancelEntries_overlay o l.openOrders) fun r => ite_square rfl ?_
  refine bind_square (r.2.cancelStops_overlay o r.1 r.2.openOrders) fun l₂ => ?_
  exact bind_square (l₂.broker.setTakeProfit_rated o.rate l₂.sym none none) fun broker => rfl

/-! ### Fills and the account -/

/-- The overlay takes no part when a position is closed. -/
theorem closePosition_overlay (ct : ClosedTrade) :
    (l.overlay o).closePosition ct = overlaid o <$> l.closePosition ct := by
  unfold closePosition
  have hopen : (l.overlay o).openPos = l.openPos := rfl
  rw [hopen]
  cases l.openPos <;> rfl

/-- Nor when several are, by induction on them. -/
theorem closePositions_overlay (cts : List ClosedTrade) :
    closePositions cts (l.overlay o) = overlaid o <$> closePositions cts l := by
  induction cts generalizing l with
  | nil => rfl
  | cons ct cts ih =>
    rw [closePositions, closePositions]
    refine bind_square (l.closePosition_overlay o ct) fun r => ?_
    exact bind_square (ih r.2) fun r => rfl

/-- The overlay takes no part when a position is opened. -/
theorem openPosition_overlay (f : Fill) (qty : Decimal) :
    (l.overlay o).openPosition f qty = overlay o <$> l.openPosition f qty := by
  unfold openPosition
  have hpos : (l.overlay o).portfolio.positions.get? (l.overlay o).sym =
    l.portfolio.positions.get? l.sym := rfl
  rw [hpos]
  cases l.portfolio.positions.get? l.sym with
  | none => rfl
  | some pos => exact bind_same fun eq => bind_same fun margin => rfl

/-- The overlay takes no part in one fill. -/
theorem applyFill_overlay (f : Fill) (acc : Collected) :
    (l.overlay o).applyFill f acc = overlaid o <$> l.applyFill f acc := by
  unfold applyFill
  refine bind_same fun record => bind_same fun trades => ?_
  have hclose := closePositions_overlay o { l.recordFill f record with
    portfolio := ((l.recordFill f record).portfolio.applyFill f
      (((l.recordFill f record).broker.exitReason f.clientOrderId).or
        ((l.recordFill f record).reason.get? f.clientOrderId))).2 } trades
  refine bind_square hclose fun r => ite_square ?_ rfl
  exact bind_square (r.2.openPosition_overlay o f _) fun l₄ => rfl

/-- Nor in all fills of a bar, by induction on them. -/
theorem applyFills_overlay (fs : List Fill) (acc : Collected) :
    applyFills fs (l.overlay o) acc = overlaid o <$> applyFills fs l acc := by
  induction fs generalizing l acc with
  | nil => rfl
  | cons f fs ih =>
    rw [applyFills, applyFills]
    exact bind_square (l.applyFill_overlay o f acc) fun r => ih r.2 r.1

/-- The overlay takes no part when orders are looked up, by induction on them. -/
theorem syncOrders_overlay (cs : List Uuid) : syncOrders cs (l.overlay o) =
    (fun r => (r.1, r.2.1, r.2.2.overlay o)) <$> syncOrders cs l := by
  induction cs generalizing l with
  | nil => rfl
  | cons c cs ih =>
    rw [syncOrders, syncOrders]
    refine bind_same fun record => ?_
    exact bind_square (ih { l with orders := l.orders.insert c (l.synced c record) }) fun r => rfl

/-- Nor for the open orders. -/
theorem syncOpenOrders_overlay :
    (l.overlay o).syncOpenOrders = overlaid o <$> l.syncOpenOrders := by
  unfold syncOpenOrders
  exact bind_square (l.syncOrders_overlay o l.openOrders) fun r => rfl

/-- The overlay takes no part in the price of the liquidation. -/
theorem refreshLiquidation_overlay :
    (l.overlay o).refreshLiquidation = overlay o <$> l.refreshLiquidation := by
  unfold refreshLiquidation
  have hpos : (l.overlay o).portfolio.positions.get? (l.overlay o).sym =
    l.portfolio.positions.get? l.sym := rfl
  rw [hpos]
  cases l.portfolio.positions.get? l.sym with
  | none => rfl
  | some pos =>
    dsimp only
    cases pos.avgEntry with
    | none => rfl
    | some entry =>
      refine bind_same fun raw => ?_
      exact bind_square (l.broker.setLiquidationPrice_rated o.rate l.sym _) fun broker => rfl

/-- **A bar** is booked the same, if it charges the same. -/
theorem bookBar_overlay (bar : DecBar)
    (h : ∀ st, l.broker.state.get? bar.instrument = some st →
      (st.rated (o.rate bar.instrument)).fundingCharges (l.broker.rated o.rate).cost bar =
        st.fundingCharges l.broker.cost bar) :
    (l.overlay o).bookBar bar =
      (fun r => (r.1, r.2.1, r.2.2.1, r.2.2.2.1, r.2.2.2.2.overlay o)) <$> l.bookBar bar := by
  unfold bookBar
  refine bind_square (l.broker.onBar_rated o.rate bar h) fun r => ?_
  have hfills := applyFills_overlay o { l with
    broker := r.2.drainFunding.2
    portfolio := r.2.drainFunding.1.foldl Portfolio.applyFunding l.portfolio
    touched := [] } r.1 ⟨[], []⟩
  refine bind_square hfills fun r₂ => bind_square (r₂.2.syncOpenOrders_overlay o) fun r₃ => ?_
  exact ite_square (bind_square (r₃.2.refreshLiquidation_overlay o) fun l₄ => rfl)
    (bind_square rfl fun l₄ => rfl)

/-- The checks of the accounts do not look at the overlay. -/
theorem checkAccounting_overlay (latched : Bool) (exposureBefore : Decimal) :
    (l.overlay o).checkAccounting latched exposureBefore =
      l.checkAccounting latched exposureBefore := by
  unfold checkAccounting
  show (l.portfolio.identityResidual >>= _) = _
  rw [show (l.overlay o).broker.position (l.overlay o).sym = l.broker.position l.sym from
    l.broker.position_rated o.rate l.sym]
  rfl

/-- The overlay takes no part in the value of a bar. -/
theorem valueBar_overlay (inp : StepInput) (latched : Bool) (exposureBefore : Decimal) :
    (l.overlay o).valueBar inp latched exposureBefore =
      (fun r => (r.1, r.2.1, r.2.2.overlay o)) <$> l.valueBar inp latched exposureBefore := by
  unfold valueBar
  refine bind_same fun clock => bind_same fun equity => ?_
  refine ite_square ?_ (bind_same fun _ => bind_same fun tr => rfl)
  have hcheck := checkAccounting_overlay o { l with
    clock := clock, portfolio := (l.portfolio.mark [(l.sym, inp.bar.c)]).2 } latched exposureBefore
  refine bind_square (g := id) (hcheck.trans (id_map _).symm) fun _ => ?_
  exact bind_same fun tr => rfl

/-! ### The decision -/

/-- The overlay takes no part in the guard. -/
theorem evaluate_overlay (inp : StepInput) (it : Intent) (sz : SizingResult) :
    (l.overlay o).evaluate inp it sz = overlaid o <$> l.evaluate inp it sz := by
  unfold evaluate
  have hsnap : (l.overlay o).fsm.tracker.snapshot = l.fsm.tracker.snapshot := rfl
  rw [hsnap]
  cases l.fsm.tracker.snapshot with
  | none => rfl
  | some snap => exact bind_same fun ctx => bind_same fun r => rfl

/-- The router hands a request to the broker as it is. -/
theorem submit_paperVenue (g : String → Decimal → Decimal) (r : OrderRouter) (pb : PaperBroker)
    (now : ℤ) (req : OrderRequest) : r.submit (paperVenue now) (pb.rated g) now req =
      ((r.submit (paperVenue now) pb now req).1, (r.submit (paperVenue now) pb now req).2.1,
        (r.submit (paperVenue now) pb now req).2.2.rated g) := by
  unfold OrderRouter.submit
  cases r.known.get? req.clientOrderId with
  | some known => rfl
  | none => simp [paperVenue, PaperBroker.submit_rated, OrderRouter.answer]

/-- The overlay takes no part when one order is sent. -/
theorem send_overlay (req : OrderRequest) (decisionNs : ℤ) (role : String)
    (reason : Option ExitReason) : (l.overlay o).send req decisionNs role reason =
      (l.send req decisionNs role reason).overlay o := by
  unfold send
  have hsubmit : (l.overlay o).router.submit (paperVenue (l.overlay o).clock.t)
      (l.overlay o).broker (l.overlay o).clock.t req = _ :=
    submit_paperVenue o.rate l.router l.broker l.clock.t req
  rw [hsubmit]
  rfl

/-- Nor for a market order. -/
theorem submitMarket_overlay (decisionNs closeNs : ℤ) (cur approved : Decimal) (action : Action)
    (reason : ExitReason) :
    (l.overlay o).submitMarket decisionNs closeNs cur approved action reason =
      (l.submitMarket decisionNs closeNs cur approved action reason).overlay o :=
  l.drawId.send_overlay o _ _ _ _

/-- Nor for a stop. -/
theorem submitStop_overlay (decisionNs closeNs : ℤ) (approved : Decimal)
    (stop : Option Decimal) : (l.overlay o).submitStop decisionNs closeNs approved stop =
      (l.submitStop decisionNs closeNs approved stop).overlay o := by
  cases stop with
  | none => rfl
  | some price => exact l.drawId.send_overlay o _ _ _ _

/-- The stop and the take-profit of a position that is opened. -/
theorem protect_overlay (decisionNs closeNs : ℤ) (approved : Decimal) (stop tp : Option Decimal)
    (side : Option Side) (coid : Uuid) : (do
      let l' := (l.overlay o).submitStop decisionNs closeNs approved stop
      let broker ← l'.broker.setTakeProfit l'.sym tp side
      return (coid :: (if stop.isSome then [(l.overlay o).nextId] else []),
        { l' with broker := broker }) : Except PyError (List Uuid × TradingLoop)) =
    overlaid o <$> do
      let l' := l.submitStop decisionNs closeNs approved stop
      let broker ← l'.broker.setTakeProfit l'.sym tp side
      return (coid :: (if stop.isSome then [l.nextId] else []), { l' with broker := broker }) := by
  rw [l.submitStop_overlay o]
  exact bind_square (PaperBroker.setTakeProfit_rated o.rate _ _ tp side) fun broker => rfl

/-- Nor for all orders of a decision. -/
theorem submit_overlay (decisionNs closeNs : ℤ) (cur approved : Decimal) (action : Action)
    (reason : ExitReason) (stop tp : Option Decimal) :
    (l.overlay o).submit decisionNs closeNs cur approved action reason stop tp =
      overlaid o <$> l.submit decisionNs closeNs cur approved action reason stop tp := by
  unfold submit
  rw [l.submitMarket_overlay o]
  refine ite_square rfl (ite_square ?_ rfl)
  let l₁ := l.submitMarket decisionNs closeNs cur approved action reason
  exact protect_overlay o { l₁ with entries := l₁.entries.insert l.nextId ⟨decisionNs, stop, tp⟩ }
    decisionNs closeNs approved stop tp _ l.nextId

/-- The overlay takes no part in what a decision does. -/
theorem act_overlay (inp : StepInput) (equity : Decimal) (it : Intent) (sz : SizingResult) :
    (l.overlay o).act inp equity it sz = overlaid o <$> l.act inp equity it sz := by
  unfold act
  refine bind_square (l.evaluate_overlay o inp it sz) fun r => ?_
  refine ite_square (bind_same fun liq => ?_) (bind_same fun liq => ?_)
  · exact bind_square (r.2.submit_overlay o _ _ _ _ _ _ _ _) fun r => rfl
  · exact bind_square (r.2.submit_overlay o _ _ _ _ _ _ _ _) fun r => rfl

end TradingLoop

end FuzzHelm
