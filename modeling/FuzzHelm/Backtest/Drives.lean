import FuzzHelm.Backtest.BookBar
import FuzzHelm.Backtest.Decide
import FuzzHelm.Execution.FundingSchedule

namespace FuzzHelm

open Lib

/-!
# What the loop does to its broker

Everything that the loop does to its broker is a call of the broker, or takes the charges
away that it has booked.  What every such call keeps is therefore kept by the loop.

* `Drives` — one broker is reached from another by calls that do not set the funding rate;
* `Drives.rule` — what every call and every drain keeps, the loop keeps;
* `Works` — one part of a step drives the broker and leaves the series of rates alone;
* `step_eq_ok` — a step in its parts.
-/

/-- The setter of the funding rate. -/
def BrokerCall.SetsRate : BrokerCall → Prop
  | .setFundingRate _ _ => True
  | .submit _ _ => False
  | .cancel _ => False
  | .cancelAll _ => False
  | .onBar _ => False
  | .setTakeProfit _ _ _ => False
  | .setLiquidationPrice _ _ => False
  | .nextUuid => False

/-- The calls that run a bar at the broker. -/
def BrokerCall.IsBar : BrokerCall → Prop
  | .onBar _ => True
  | .submit _ _ => False
  | .cancel _ => False
  | .cancelAll _ => False
  | .setTakeProfit _ _ _ => False
  | .setLiquidationPrice _ _ => False
  | .setFundingRate _ _ => False
  | .nextUuid => False

/-- **Driven**: the second broker is reached from the first by calls between two bars, none of
    which sets the funding rate. -/
inductive Drives : PaperBroker → PaperBroker → Prop
  | refl (pb : PaperBroker) : Drives pb pb
  | call {pb pb' pb'' : PaperBroker} {c : BrokerCall} {a : BrokerAnswer} (hc : ¬c.SetsRate)
      (hb : ¬c.IsBar) (h : pb.call c = .ok (a, pb')) (hrest : Drives pb' pb'') : Drives pb pb''

namespace Drives

variable {pb pb' pb'' : PaperBroker}

/-- One call is a drive. -/
theorem one {c : BrokerCall} {a : BrokerAnswer} (hc : ¬c.SetsRate) (hb : ¬c.IsBar)
    (h : pb.call c = .ok (a, pb')) : Drives pb pb' :=
  .call hc hb h (.refl _)

/-- One drive after another. -/
theorem trans (h : Drives pb pb') (h' : Drives pb' pb'') : Drives pb pb'' := by
  induction h with
  | refl => exact h'
  | call hc hb hcall _ ih => exact .call hc hb hcall (ih h')

/-- A cancellation is a drive. -/
theorem cancel {coid : Uuid} {done : Bool} (h : pb.cancel coid = .ok (done, pb')) :
    Drives pb pb' :=
  .one (c := .cancel coid) id id (bind_eq_ok.mpr ⟨_, h, rfl⟩)

/-- Setting a take-profit is a drive. -/
theorem setTakeProfit {i : String} {price : Option Decimal} {side : Option Side}
    (h : pb.setTakeProfit i price side = .ok pb') : Drives pb pb' :=
  .one (c := .setTakeProfit i price side) id id (bind_eq_ok.mpr ⟨_, h, rfl⟩)

/-- Setting the price of the liquidation is a drive. -/
theorem setLiquidationPrice {i : String} {price : Option Decimal}
    (h : pb.setLiquidationPrice i price = .ok pb') : Drives pb pb' :=
  .one (c := .setLiquidationPrice i price) id id (bind_eq_ok.mpr ⟨_, h, rfl⟩)

/-- A submission is a drive. -/
theorem submit (now : ℤ) (req : OrderRequest) : Drives pb (pb.submit now req).2 :=
  .one (c := .submit now req) id id rfl

/-- Drawing an identifier is a drive. -/
theorem nextUuid : Drives pb { pb with ids := pb.ids.nextUuid.2 } :=
  .one (c := .nextUuid) id id rfl

/-- **What every call keeps, the loop keeps.** -/
theorem rule {P : PaperBroker → Prop}
    (hstep : ∀ pb c a pb', ¬c.SetsRate → ¬c.IsBar → P pb → pb.call c = .ok (a, pb') → P pb')
    (h : Drives pb pb') (hP : P pb) : P pb' := by
  induction h with
  | refl => exact hP
  | call hc hb hcall _ ih => exact ih (hstep _ _ _ _ hc hb hP hcall)

/-- The terms of funding are left alone. -/
theorem terms (h : Drives pb pb') : CostModel.SameSchedule pb.cost pb'.cost ∧
    pb'.funding = pb.funding ∧
    ∀ i st', pb'.state.get? i = some st' → ∃ st, pb.state.get? i = some st ∧
      st'.lastOpenNs = st.lastOpenNs ∧ st'.fundingRate = st.fundingRate := by
  -- the induction is over the calls, none of which is a bar or sets a rate
  refine h.rule (P := fun x => CostModel.SameSchedule pb.cost x.cost ∧ x.funding = pb.funding ∧
    ∀ i st', x.state.get? i = some st' → ∃ st, pb.state.get? i = some st ∧
      st'.lastOpenNs = st.lastOpenNs ∧ st'.fundingRate = st.fundingRate)
    ?_ ⟨.refl _, rfl, fun i st' h => ⟨st', h, rfl, rfl⟩⟩
  rintro x c a x' hc hb ⟨hcost, hfunding, hstate⟩ hcall
  have hkeeps := KeepsTime.call hcall
  have hnone : x.charged c = [] ∧ (∀ i, c.openOf i = none) ∧ ∀ i, c.rateOf i = none := by
    cases c with
    | onBar => exact absurd trivial hb
    | setFundingRate => exact absurd trivial hc
    | _ => exact ⟨rfl, fun _ => rfl, fun _ => rfl⟩
  obtain ⟨hcharged, hopen, hrate⟩ := hnone
  refine ⟨hcost.trans hkeeps.schedule, ?_, fun i st' hst' => ?_⟩
  · rw [hkeeps.funding, hcharged, List.append_nil, hfunding]
  · obtain ⟨st₁, hst₁, hlast, hr⟩ := hkeeps.state i st' hst'
    obtain ⟨st, hst, hlast₀, hr₀⟩ := hstate i st₁ hst₁
    rw [hopen, Option.none_or] at hlast
    rw [hrate, Option.getD_none] at hr
    exact ⟨st, hst, hlast.trans hlast₀, hr.trans hr₀⟩

end Drives

/-- **One part of a step works on the loop**: it drives the broker and leaves the series of
    rates, the clock and the configuration alone. -/
structure Works (l l' : TradingLoop) : Prop where
  drives : Drives l.broker l'.broker
  instrument : l'.instrument = l.instrument
  cfg : l'.cfg = l.cfg
  clock : l'.clock = l.clock
  lastOpen : l'.lastOpen = l.lastOpen
  funding : l'.funding = l.funding
  fundingPtr : l'.fundingPtr = l.fundingPtr

namespace Works

variable {l l' l'' : TradingLoop}

/-- Nothing is done. -/
theorem refl (l : TradingLoop) : Works l l := ⟨.refl _, rfl, rfl, rfl, rfl, rfl, rfl⟩

/-- One work after another. -/
theorem trans (h : Works l l') (h' : Works l' l'') : Works l l'' :=
  ⟨h.drives.trans h'.drives, h'.instrument.trans h.instrument, h'.cfg.trans h.cfg,
    h'.clock.trans h.clock, h'.lastOpen.trans h.lastOpen, h'.funding.trans h.funding,
    h'.fundingPtr.trans h.fundingPtr⟩

/-- Work after a change of other fields. -/
theorem after (h : Works l' l'') (hd : Drives l.broker l'.broker)
    (hinst : l'.instrument = l.instrument) (hcfg : l'.cfg = l.cfg) (hclock : l'.clock = l.clock)
    (hlast : l'.lastOpen = l.lastOpen) (hfunding : l'.funding = l.funding)
    (hptr : l'.fundingPtr = l.fundingPtr) : Works l l'' :=
  .trans ⟨hd, hinst, hcfg, hclock, hlast, hfunding, hptr⟩ h

/-- The loop keeps its instrument. -/
theorem sym (h : Works l l') : l'.sym = l.sym := congrArg Instrument.symbolCanon h.instrument

end Works

namespace TradingLoop

variable {l l' : TradingLoop}

/-! ### Before the bar -/

/-- Cancelling what waits to increase the position is work between two bars. -/
theorem cancelPendingIncreases_works (h : l.cancelPendingIncreases = .ok l') : Works l l' := by
  refine cancelPendingIncreases_invariant (fun l₁ c done broker entries h₁ hcancel _ => ?_)
    (fun l₁ i broker h₁ htp => ?_) (.refl l) h
  · exact h₁.trans ⟨.cancel hcancel, rfl, rfl, rfl, rfl, rfl, rfl⟩
  · exact h₁.trans ⟨.setTakeProfit htp, rfl, rfl, rfl, rfl, rfl, rfl⟩

/-- **Before the bar** the clock moves, the rate is set and the latch cancels. -/
theorem beginBar_eq_ok {inp : StepInput} (h : l.beginBar inp = .ok l') :
    l.clock.t ≤ inp.bar.openTimeNs ∧ ∃ l₂,
      (if l.funding = [] then .ok { l with clock := ⟨inp.bar.openTimeNs⟩ }
        else TradingLoop.applyFundingRate { l with clock := ⟨inp.bar.openTimeNs⟩ }
          inp.bar.openTimeNs inp.closeNs) = .ok l₂ ∧ Works l₂ l' := by
  obtain ⟨clock, hclock, h⟩ := bind_eq_ok.mp h
  obtain ⟨hle, rfl⟩ := ManualClock.set_eq_ok.mp hclock
  have hlatch : ∀ l₂ : TradingLoop,
      (if l₂.latched then l₂.cancelPendingIncreases else .ok l₂) = .ok l' → Works l₂ l' := by
    intro l₂ hl₂
    split at hl₂
    · exact cancelPendingIncreases_works hl₂
    · cases hl₂
      exact .refl _
  refine ⟨hle, ?_⟩
  dsimp only at h
  split at h
  · rename_i hnil
    exact ⟨_, by rw [if_pos hnil], hlatch _ h⟩
  · rename_i hne
    obtain ⟨l₂, hrate, h⟩ := bind_eq_ok.mp h
    exact ⟨l₂, by rw [if_neg hne]; exact hrate, hlatch l₂ h⟩

/-! ### The bar -/

/-- Computing the price of the liquidation afresh is work between two bars. -/
theorem refreshLiquidation_works (h : l.refreshLiquidation = .ok l') : Works l l' := by
  unfold refreshLiquidation at h
  split at h
  · cases h
  · split at h
    · cases h
      exact .refl _
    · obtain ⟨raw, -, h⟩ := bind_eq_ok.mp h
      obtain ⟨broker, hliq, h⟩ := bind_eq_ok.mp h
      cases h
      exact ⟨.setLiquidationPrice hliq, rfl, rfl, rfl, rfl, rfl, rfl⟩

/-- One fill is work, and the broker is left alone. -/
theorem applyFill_works {f : Fill} {acc acc' : Collected}
    (h : l.applyFill f acc = .ok (acc', l')) : Works l l' ∧ l'.broker = l.broker := by
  obtain ⟨record, reason, happ⟩ := applyFill_eq_ok h
  rw [happ.state]
  exact ⟨⟨.refl _, rfl, rfl, rfl, rfl, rfl, rfl⟩, rfl⟩

/-- So are many fills, by induction on them. -/
theorem applyFills_works {fs : List Fill} {acc acc' : Collected}
    (h : applyFills fs l acc = .ok (acc', l')) : Works l l' ∧ l'.broker = l.broker := by
  induction fs generalizing l acc with
  | nil =>
    cases h
    exact ⟨.refl _, rfl⟩
  | cons f fs ih =>
    rw [applyFills] at h
    obtain ⟨⟨acc₁, l₁⟩, hone, h⟩ := bind_eq_ok.mp h
    obtain ⟨hworks₁, hbroker₁⟩ := applyFill_works hone
    obtain ⟨hworks, hbroker⟩ := ih h
    exact ⟨hworks₁.trans hworks, hbroker.trans hbroker₁⟩

/-- Looking at the open orders is work between two bars. -/
theorem syncOpenOrders_works {updates : List OrderRecord}
    (h : l.syncOpenOrders = .ok (updates, l')) : Works l l' := by
  obtain ⟨⟨keep, out, l₁⟩, hsync, h⟩ := bind_eq_ok.mp h
  cases h
  obtain ⟨orders, rfl, -⟩ := syncOrders_spec hsync
  exact ⟨.refl _, rfl, rfl, rfl, rfl, rfl, rfl⟩

/-- **The bar at the broker**: what it charges and fills is what the loop books, and then the
    loop works on. -/
theorem bookBar_eq_ok {bar : DecBar} {fills : List Fill} {charges : List FundingCharge}
    {acc : Collected} {updates : List OrderRecord}
    (h : l.bookBar bar = .ok (fills, charges, acc, updates, l')) :
    ∃ broker, l.broker.onBar bar = .ok (fills, broker) ∧ charges = broker.funding ∧
      Works { l with broker := { broker with funding := [] } } l' := by
  obtain ⟨⟨fills', broker⟩, hbar, h⟩ := bind_eq_ok.mp h
  dsimp only [PaperBroker.drainFunding] at h
  obtain ⟨⟨acc₁, l₂⟩, hfills, h⟩ := bind_eq_ok.mp h
  obtain ⟨⟨out, l₃⟩, hsync, h⟩ := bind_eq_ok.mp h
  have h₂ := (applyFills_works hfills).1
  have h₃ := h₂.trans (syncOpenOrders_works hsync)
  have h₀ : Works { l with broker := { broker with funding := [] } } l₃ :=
    ⟨h₃.drives, h₃.instrument, h₃.cfg, h₃.clock, h₃.lastOpen, h₃.funding, h₃.fundingPtr⟩
  dsimp only at h
  split at h
  · obtain ⟨l₄, hrefresh, h⟩ := bind_eq_ok.mp h
    cases h
    exact ⟨broker, hbar, rfl, h₀.trans (refreshLiquidation_works hrefresh)⟩
  · cases h
    exact ⟨broker, hbar, rfl, h₀⟩

/-- The valuation moves the clock to the close and does nothing else to what a part of a step
    leaves alone. -/
theorem valueBar_eq_ok {inp : StepInput} {latched : Bool} {exposureBefore equity : Decimal}
    {tr : Option Transition} (h : l.valueBar inp latched exposureBefore = .ok (equity, tr, l')) :
    l.clock.t ≤ inp.closeNs ∧ Works { l with clock := ⟨inp.closeNs⟩ } l' := by
  obtain ⟨hle, -, fsm, haltIndex, rfl⟩ := valueBar_account h
  exact ⟨hle, .refl _, rfl, rfl, rfl, rfl, rfl, rfl⟩

/-! ### The decision -/

/-- Drawing an identifier is work between two bars. -/
theorem drawId_works (l : TradingLoop) : Works l l.drawId :=
  ⟨.nextUuid, rfl, rfl, rfl, rfl, rfl, rfl⟩

/-- What is sent reaches the broker once, or not at all. -/
theorem send_works (l : TradingLoop) (req : OrderRequest) (d : ℤ) (role : String)
    (reason : Option ExitReason) : Works l (l.send req d role reason) := by
  refine ⟨?_, rfl, rfl, rfl, rfl, rfl, rfl⟩
  show Drives l.broker (l.router.submit (paperVenue l.clock.t) l.broker l.clock.t req).2.2
  cases hk : l.router.known.get? req.clientOrderId with
  | some known =>
    obtain ⟨hsame, -⟩ := l.router.submit_known (paperVenue l.clock.t) l.broker l.clock.t req hk
    rw [hsame]
    exact .refl _
  | none =>
    rw [l.router.submit_new (paperVenue l.clock.t) l.broker l.clock.t req hk rfl]
    exact .submit _ _

/-- A market order is work between two bars. -/
theorem submitMarket_works (l : TradingLoop) (d closeNs : ℤ) (cur approved : Decimal)
    (action : Action) (reason : ExitReason) :
    Works l (l.submitMarket d closeNs cur approved action reason) :=
  l.drawId_works.trans (l.drawId.send_works _ _ _ _)

/-- A stop is work between two bars. -/
theorem submitStop_works (l : TradingLoop) (d closeNs : ℤ) (approved : Decimal)
    (stop : Option Decimal) : Works l (l.submitStop d closeNs approved stop) := by
  cases stop with
  | none => exact .refl _
  | some price => exact l.drawId_works.trans (l.drawId.send_works _ _ _ _)

/-- What a decision submits is work between two bars. -/
theorem submit_works {d closeNs : ℤ} {cur approved : Decimal} {action : Action}
    {reason : ExitReason} {stop tp : Option Decimal} {ids : List Uuid}
    (h : l.submit d closeNs cur approved action reason stop tp = .ok (ids, l')) :
    Works l l' := by
  unfold submit at h
  split at h
  · cases h
    exact .refl _
  · have h₁ := l.submitMarket_works d closeNs cur approved action reason
    dsimp only at h
    generalize l.submitMarket d closeNs cur approved action reason = l₁ at h h₁
    split at h
    · obtain ⟨broker, htp, h⟩ := bind_eq_ok.mp h
      have hstop := submitStop_works { l₁ with entries := l₁.entries.insert l.nextId ⟨d, stop, tp⟩ }
        d closeNs approved stop
      have hall := h₁.trans (hstop.after (.refl _) rfl rfl rfl rfl rfl rfl)
      cases h
      exact hall.trans ⟨.setTakeProfit htp, rfl, rfl, rfl, rfl, rfl, rfl⟩
    · cases h
      exact h₁

/-- To act on a sized target is work between two bars. -/
theorem act_works {inp : StepInput} {equity : Decimal} {it : Intent} {sz : SizingResult}
    {D : DecisionEntry} (h : l.act inp equity it sz = .ok (D, l')) : Works l l' := by
  obtain ⟨res, l₁, target, stop, tp, ids, heval, -, hsubmit, -⟩ := act_eq_ok h
  obtain ⟨ctx, k, killswitch, -, -, -, -, -, rfl⟩ := evaluate_eq_ok heval
  have hworks := submit_works hsubmit
  exact hworks.after (.refl _) rfl rfl rfl rfl rfl rfl

/-- A decision is work between two bars. -/
theorem decide_works {inp : StepInput} {equity : Decimal} {D : DecisionEntry}
    (h : l.decide inp equity = .ok (D, l')) : Works l l' := by
  obtain ⟨it, gate, -, h⟩ := decide_eq_ok h
  have hgate : Works l { l with gate := gate } := ⟨.refl _, rfl, rfl, rfl, rfl, rfl, rfl⟩
  rcases h with ⟨-, rfl, -⟩ | ⟨sz, -, -, hact⟩
  · exact hgate
  · exact hgate.trans (act_works hact)

/-- So is what a bar does when a decision is due or not. -/
theorem decideBar_works {inp : StepInput} {equity : Decimal} {decision : Option DecisionEntry}
    (h : l.decideBar inp equity = .ok (decision, l')) : Works l l' := by
  unfold decideBar at h
  split at h
  · obtain ⟨⟨D, l₁⟩, hdecide, h⟩ := bind_eq_ok.mp h
    cases h
    exact decide_works hdecide
  · cases h
    exact .refl _

/-! ### The step -/

/-- **A step in its parts**: what comes before the bar, the bar at the broker, and the work on
    the loop after it, with the clock moved to the close in between. -/
theorem step_eq_ok {inp : StepInput} {r : StepResult} (h : l.step inp = .ok (r, l')) :
    l.clock.t ≤ inp.bar.openTimeNs ∧ inp.bar.openTimeNs ≤ inp.closeNs ∧
    r.openTimeNs = inp.bar.openTimeNs ∧ r.closeTimeNs = inp.closeNs ∧
    ∃ l₁ l₂ broker, l.beginBar inp = .ok l₁ ∧
      l₁.broker.onBar inp.bar = .ok (r.fills, broker) ∧ r.funding = broker.funding ∧
      Works { l₁ with broker := { broker with funding := [] } } l₂ ∧
      Drives l₂.broker l'.broker ∧ l'.instrument = l₂.instrument ∧ l'.cfg = l₂.cfg ∧
      l'.clock = ⟨inp.closeNs⟩ ∧ l'.lastOpen = some inp.bar.openTimeNs ∧
      l'.funding = l₂.funding ∧ l'.fundingPtr = l₂.fundingPtr := by
  obtain ⟨l₁, hbegin, h⟩ := bind_eq_ok.mp h
  obtain ⟨⟨fills, charges, acc, updates, l₂⟩, hbook, h⟩ := bind_eq_ok.mp h
  obtain ⟨⟨equity, tr, l₃⟩, hvalue, h⟩ := bind_eq_ok.mp h
  obtain ⟨⟨decision, l₄⟩, hdecide, h⟩ := bind_eq_ok.mp h
  cases h
  obtain ⟨hle, lr, hrate, hworks₁⟩ := beginBar_eq_ok hbegin
  obtain ⟨broker, hbar, rfl, hworks₂⟩ := bookBar_eq_ok hbook
  obtain ⟨hclose, hworks₃⟩ := valueBar_eq_ok hvalue
  have hworks₄ := decideBar_works hdecide
  have hrest := hworks₃.trans hworks₄
  have hclock : lr.clock = ⟨inp.bar.openTimeNs⟩ := by
    split at hrate
    · cases hrate
      rfl
    · unfold applyFundingRate at hrate
      split at hrate
      · cases hrate
        rfl
      · obtain ⟨b, -, hrate⟩ := bind_eq_ok.mp hrate
        cases hrate
        rfl
  refine ⟨hle, ?_, rfl, rfl, l₁, l₂, broker, hbegin, hbar, rfl, hworks₂, hrest.drives,
    hrest.instrument, hrest.cfg, hrest.clock, rfl, hrest.funding, hrest.fundingPtr⟩
  rw [hworks₂.clock, hworks₁.clock, hclock] at hclose
  exact hclose

end TradingLoop

end FuzzHelm
