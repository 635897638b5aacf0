import FuzzHelm.Execution.PaperBroker
import FuzzHelm.Lib.Square

namespace FuzzHelm

open Lib

/-!
# The broker under other funding rates

The rate of an instrument is read by its charges and by nothing else: under other rates every
call of the broker does the same, on the broker under these rates.

* `Book.rated`, `PaperBroker.rated` — a book and a broker under other rates;
* `Book.runBar_rated` — the part of a bar that moves orders;
* `PaperBroker.onBar_rated` — a bar, if it charges the same;
* `submit_rated`, `cancel_rated`, … — the other calls;
* `setFundingRate_rated` — the setter forgets the rate that it overwrites.
-/

/-- The state of an instrument under another rate. -/
def InstState.rated (g : Decimal → Decimal) (st : InstState) : InstState :=
  { st with fundingRate := g st.fundingRate }

/-! ### A bar -/

namespace Book

/-- The book under another rate. -/
def rated (g : Decimal → Decimal) (b : Book) : Book := { b with st := b.st.rated g }

variable (g : Decimal → Decimal) (b : Book)

/-- The rate takes no part when a position is closed. -/
theorem onPositionClosed_rated (old : Decimal) :
    (b.rated g).onPositionClosed old = rated g <$> b.onPositionClosed old :=
  bind_same fun _ => rfl

/-- The rate takes no part in an execution. -/
theorem execute_rated (coid : Uuid) (o : Order) (pRef : Decimal) (ts : ℤ)
    (reason : Option ExitReason) : (b.rated g).execute coid o pRef ts reason =
      rated g <$> b.execute coid o pRef ts reason := by
  unfold execute
  refine ite_square rfl (bind_same fun q => bind_same fun fill => ite_square ?_ rfl)
  exact (b.recordFill coid o fill q.2 (b.executionReason o.req reason)).onPositionClosed_rated g
    b.st.position

/-- The rate takes no part in the loop over the market orders. -/
theorem fillLoop_rated (o : Decimal) (t : ℤ) (cs : List Uuid) : fillLoop o t cs (b.rated g) =
    (fun r => (r.1, r.2.rated g)) <$> fillLoop o t cs b := by
  induction cs generalizing b with
  | nil => rfl
  | cons c cs ih =>
    rw [fillLoop, fillLoop]
    refine bind_same fun ord => ite_square (ih b) (ite_square ?_ ?_)
    · exact bind_square (ih b) fun _ => rfl
    · exact bind_square (b.execute_rated g c ord o t none) ih

/-- The rate takes no part in what the market orders fill. -/
theorem fillMarketOrders_rated (bar : DecBar) :
    (b.rated g).fillMarketOrders bar = rated g <$> b.fillMarketOrders bar :=
  bind_square (b.fillLoop_rated g bar.o bar.openTimeNs b.st.marketQueue) fun _ => rfl

/-- The rate takes no part when a level without an order fires. -/
theorem fireSynthetic_rated (level pRef : Decimal) (reason : ExitReason) (t : ℤ) :
    (b.rated g).fireSynthetic level pRef reason t =
      rated g <$> b.fireSynthetic level pRef reason t :=
  bind_same fun req => execute_rated g { b with
    ids := b.ids.nextUuid.2
    seq := b.seq + 1
    orders := b.orders.insert req.clientOrderId (Order.accepted req (b.seq + 1) t) }
    req.clientOrderId _ pRef t (some reason)

/-- The rate takes no part when a trigger fires. -/
theorem fire_rated (tr : Trigger) (pRef : Decimal) (t : ℤ) :
    (b.rated g).fire tr pRef t = rated g <$> b.fire tr pRef t := by
  obtain ⟨kind, level, firesUp, coid, priority⟩ := tr
  cases kind with
  | stop =>
    cases coid with
    | none => rfl
    | some c =>
      exact bind_same fun o => execute_rated g
        { b with st := { b.st with stopOrders := b.st.stopOrders.erase c } } c o pRef t none
  | tp =>
    exact fireSynthetic_rated g { b with st := { b.st with tpPrice := none, tpSide := 0 } } level
      pRef .tp t
  | liq =>
    exact fireSynthetic_rated g { b with st := { b.st with liqPrice := none } } level pRef
      .liquidation t

/-- The first trigger of a list fires, if there is one, and the walk goes on. -/
theorem walkAtOpen_rated (o : Decimal) (t : ℤ) (n : ℕ) :
    walkAtOpen o t n (b.rated g) = rated g <$> walkAtOpen o t n b := by
  induction n generalizing b with
  | zero => rfl
  | succ n ih =>
    rw [walkAtOpen, walkAtOpen]
    refine bind_same fun ts => ?_
    cases firstMin (fun x m => decide (x.priority < m.priority)) (ts.filter (behind o)) with
    | none => rfl
    | some first => exact bind_square (b.fire_rated g first o t) ih

/-- The rate takes no part in a segment of the path. -/
theorem walkSegment_rated (t : ℤ) (dest : Decimal) (n : ℕ) (cur : Decimal) :
    walkSegment t dest n (b.rated g) cur = rated g <$> walkSegment t dest n b cur := by
  induction n generalizing b cur with
  | zero => rfl
  | succ n ih =>
    rw [walkSegment, walkSegment]
    refine ite_square rfl (bind_same fun ts => ?_)
    cases firstMin (nearer cur dest) (ts.filter (onTheWay cur dest)) with
    | none => rfl
    | some first => exact bind_square (b.fire_rated g first first.level t) fun b' => ih b' _

/-- The rate takes no part in the path. -/
theorem walkPath_rated (t : ℤ) (path : List Decimal) (cur : Decimal) :
    walkPath t path (b.rated g) cur = rated g <$> walkPath t path b cur := by
  induction path generalizing b cur with
  | nil => rfl
  | cons dest rest ih =>
    rw [walkPath, walkPath]
    exact bind_square (b.walkSegment_rated g t dest b.budget cur) fun b' => ih b' dest

/-- The rate takes no part in the triggers of a bar. -/
theorem walkTriggers_rated (bar : DecBar) :
    (b.rated g).walkTriggers bar = rated g <$> b.walkTriggers bar := by
  unfold walkTriggers
  refine bind_same fun ts => ite_square rfl ?_
  exact bind_square (b.walkAtOpen_rated g bar.o bar.openTimeNs b.budget) fun b' =>
    b'.walkPath_rated g bar.openTimeNs (b'.path bar) bar.o

/-- The rate takes no part in the stops that are left over. -/
theorem expireOrphanStops_rated :
    (b.rated g).expireOrphanStops = rated g <$> b.expireOrphanStops :=
  bind_same fun _ => bind_same fun _ => rfl

/-- **The part of a bar that moves orders** does not read the rate. -/
theorem runBar_rated (bar : DecBar) : (b.rated g).runBar bar = rated g <$> b.runBar bar := by
  unfold runBar
  refine bind_square (b.fillMarketOrders_rated g bar) fun b₁ => ?_
  refine bind_square (ite_square (b₁.walkTriggers_rated g bar) rfl) fun b₂ => ?_
  exact ite_square (b₂.expireOrphanStops_rated g) rfl

end Book

/-! ### The calls -/

namespace PaperBroker

/-- The broker under other rates. -/
def rated (g : String → Decimal → Decimal) (pb : PaperBroker) : PaperBroker :=
  { pb with state := pb.state.mapValues fun i st => st.rated (g i) }

/-- The rates that the broker has. -/
theorem rated_eq_self {g : String → Decimal → Decimal} {pb : PaperBroker}
    (h : ∀ i st, pb.state.get? i = some st → g i st.fundingRate = st.fundingRate) :
    pb.rated g = pb := by
  have hstate : pb.state.mapValues (fun i st => st.rated (g i)) = pb.state := by
    apply Dict.mapValues_eq_self
    intro i st hst
    rw [InstState.rated, h i st hst]
  exact congrArg (fun state => ({ pb with state := state } : PaperBroker)) hstate

variable (g g' : String → Decimal → Decimal) (pb : PaperBroker)

/-- The state of an instrument, with another rate. -/
theorem rated_state (i : String) :
    (pb.rated g).state.get? i = (pb.state.get? i).map (InstState.rated (g i)) :=
  Dict.get?_mapValues _ _ _

/-- A call that writes the state of one instrument. -/
theorem rated_insert (i : String) (st : InstState) :
    (pb.rated g).state.insert i (st.rated (g i)) =
      (pb.state.insert i st).mapValues fun i st => st.rated (g i) :=
  (Dict.mapValues_insert (fun i st => InstState.rated (g i) st) pb.state i st).symm

/-- Writing a state and changing the rates can be exchanged. -/
theorem rated_write (i : String) (st : InstState) :
    { pb with state := (pb.rated g).state.insert i (st.rated (g i)) } =
      ({ pb with state := pb.state.insert i st } : PaperBroker).rated g := by
  rw [rated_insert]
  rfl

/-- An instrument is known with any rate. -/
theorem require_rated (i : String) :
    (pb.rated g).require i = InstState.rated (g i) <$> pb.require i := by
  unfold require
  rw [rated_state]
  cases pb.state.get? i <;> rfl

/-- A submission does not look at the rate. -/
theorem submit_rated (now : ℤ) (req : OrderRequest) : (pb.rated g).submit now req =
    ((pb.submit now req).1, (pb.submit now req).2.rated g) := by
  unfold submit
  refine ite_image (F := fun r : OrderAck × PaperBroker => (r.1, r.2.rated g)) rfl ?_
  rw [rated_state]
  cases pb.state.get? req.instrument with
  | none => rfl
  | some st =>
    refine ite_image (F := fun r : OrderAck × PaperBroker => (r.1, r.2.rated g)) rfl ?_
    refine ite_image (F := fun r : OrderAck × PaperBroker => (r.1, r.2.rated g)) rfl ?_
    dsimp only [Option.map_some]
    rw [show (st.rated (g req.instrument)).spec = st.spec from rfl]
    cases quantizedStop st.spec req with
    | none => rfl
    | some sp =>
      rw [apply_ite (fun st' => pb.state.insert req.instrument st')]
      have hwrite := rated_write g { pb with
        seq := pb.seq + 1
        orders := pb.orders.insert req.clientOrderId (Order.accepted
          { req with qty := floorQty req.qty st.spec.stepSize, stopPrice := sp } (pb.seq + 1)
          now) } req.instrument
      by_cases hmarket : req.otype = .market
      · simp only [if_pos hmarket]
        exact congrArg (Prod.mk _) (hwrite { st with
          marketQueue := st.marketQueue ++ [req.clientOrderId] })
      · simp only [if_neg hmarket]
        exact congrArg (Prod.mk _) (hwrite { st with
          stopOrders := st.stopOrders ++ [req.clientOrderId] })

/-- A cancellation does not look at the rate. -/
theorem cancel_rated (coid : Uuid) : (pb.rated g).cancel coid =
    (fun r => (r.1, r.2.rated g)) <$> pb.cancel coid := by
  unfold cancel
  have horder : (pb.rated g).orders.get? coid = pb.orders.get? coid := rfl
  rw [horder]
  cases pb.orders.get? coid with
  | none => rfl
  | some o =>
    refine ite_square rfl (bind_square (pb.require_rated g o.req.instrument) fun st => ?_)
    exact congrArg (fun pb => Except.ok (true, pb)) (rated_write g { pb with
      orders := pb.orders.insert coid { o with status := .canceled } } o.req.instrument
      { st with
        marketQueue := st.marketQueue.erase coid
        stopOrders := st.stopOrders.erase coid })

/-- Setting a take-profit does not look at the rate. -/
theorem setTakeProfit_rated (i : String) (price : Option Decimal) (side : Option Side) :
    (pb.rated g).setTakeProfit i price side = rated g <$> pb.setTakeProfit i price side := by
  unfold setTakeProfit
  refine bind_square (pb.require_rated g i) fun st => ite_square rfl ?_
  exact congrArg Except.ok (pb.rated_write g i { st with
    tpPrice := price.map fun p => quantizePrice p st.spec.tickSize
    tpSide := if price = none then 0 else side.elim 0 Side.toInt })

/-- Setting the price of the liquidation does not look at the rate. -/
theorem setLiquidationPrice_rated (i : String) (price : Option Decimal) :
    (pb.rated g).setLiquidationPrice i price = rated g <$> pb.setLiquidationPrice i price := by
  refine bind_square (pb.require_rated g i) fun st => ?_
  exact congrArg Except.ok (pb.rated_write g i { st with liqPrice := price })

/-- **A bar** does the same under other rates, if it charges the same. -/
theorem onBar_rated (bar : DecBar) (h : ∀ st, pb.state.get? bar.instrument = some st →
      (st.rated (g bar.instrument)).fundingCharges (pb.rated g).cost bar =
        st.fundingCharges pb.cost bar) :
    (pb.rated g).onBar bar = (fun r => (r.1, r.2.rated g)) <$> pb.onBar bar := by
  unfold onBar
  rw [rated_state]
  cases hst : pb.state.get? bar.instrument with
  | none => rfl
  | some st =>
    refine ite_square rfl ?_
    refine bind_square (Book.runBar_rated (g bar.instrument)
      ⟨st, pb.orders, pb.ids, pb.seq, pb.cost, []⟩ bar) fun b => ?_
    dsimp only
    rw [h st hst]
    exact congrArg (fun pb => Except.ok (b.fills, pb)) (rated_write g { pb with
      cost := b.cost
      ids := b.ids
      seq := b.seq
      orders := b.orders
      funding := pb.funding ++ st.fundingCharges pb.cost bar } bar.instrument
      { b.st.updateStats pb.lam bar with lastOpenNs := some bar.openTimeNs })

/-- **The setter** of a rate forgets the one that it overwrites. -/
theorem setFundingRate_rated {i : String} (hg : ∀ j, j ≠ i → g' j = g j) (rate : Decimal)
    {rate' : Decimal} (hrate : g' i rate' = rate) : (pb.rated g).setFundingRate i rate =
      rated g' <$> pb.setFundingRate i rate' := by
  unfold setFundingRate
  rw [require_rated]
  cases pb.require i with
  | error e => rfl
  | ok st =>
    refine congrArg Except.ok ?_
    subst hrate
    have hinsert := Dict.insert_mapValues_congr (fun j st => InstState.rated (g j) st)
      (fun j st => InstState.rated (g' j) st) pb.state (k := i)
      (fun j hj => by rw [hg j hj]) (InstState.rated (g' i) { st with fundingRate := rate' })
    rw [← Dict.mapValues_insert (fun j st => InstState.rated (g' j) st)] at hinsert
    exact congrArg (fun state => ({ pb with state := state } : PaperBroker)) hinsert

/-- A rate that is overwritten anyway. -/
theorem rated_setFundingRate {i : String} {rate : Decimal} {pb' : PaperBroker}
    (h : pb.setFundingRate i rate = .ok pb') (hg : ∀ x y, g i x = g i y) :
    pb'.rated g = pb.rated g := by
  obtain ⟨st, hst, h⟩ := bind_eq_ok.mp h
  cases h
  have hget : (pb.rated g).state.get? i = some (st.rated (g i)) := by
    unfold require at hst
    split at hst
    · cases hst
    · rename_i st' hst'
      cases hst
      rw [rated_state, hst', Option.map_some]
  have hinsert : (pb.state.insert i { st with fundingRate := rate }).mapValues
      (fun i st => st.rated (g i)) = (pb.rated g).state := by
    rw [Dict.mapValues_insert]
    refine (congrArg (Dict.insert _ i) ?_).trans (Dict.insert_of_get? hget)
    simp only [InstState.rated, hg rate st.fundingRate]
  exact congrArg (fun state => ({ pb with state := state } : PaperBroker)) hinsert

/-- The position does not depend on the rate. -/
theorem position_rated (i : String) : (pb.rated g).position i = pb.position i := by
  unfold position
  rw [require_rated]
  cases pb.require i <;> rfl

end PaperBroker

end FuzzHelm
