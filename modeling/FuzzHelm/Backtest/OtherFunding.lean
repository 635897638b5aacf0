import FuzzHelm.Backtest.FundingRate
import FuzzHelm.Backtest.Recording

namespace FuzzHelm

open Lib

/-!
# The loop with other records of funding

Two loops that differ in their records of funding go through the same steps as long as they
charge the same rates.

* `Overlay.funding` — other records, another cursor and the rate of the symbol;
* `decide_overlay`, `recordedDecision_overlay` — the decision at the same level;
* `beginBar_funding` — before the bar each loop sets its own rate;
* `recordedStep_funding` — a step is the same if it charges the same rate, and then only.
-/

/-- Other records with their cursor, and the rate of the instrument `i`. -/
def Overlay.funding (i : String) (series : List (ℤ × Decimal)) (n : ℕ) (rate : Decimal) :
    Overlay :=
  ⟨id, fun _ => series, fun _ => n, fun j old => if j = i then rate else old⟩

namespace TradingLoop

/-! ### The decision -/

section Decision

variable {o : Overlay} (l : TradingLoop)

/-- An overlay that records as the loop does takes no part in the intent. -/
theorem intend_overlay (ho : o.recordAll = id) (inp : StepInput) (equity : Decimal) :
    (l.overlay o).intend inp equity = overlaid o <$> l.intend inp equity := by
  obtain ⟨recordAll, records, cursor, rate⟩ := o
  subst ho
  exact ite_square (bind_same fun sizing => rfl) rfl

/-- Nor in the decision. -/
theorem decide_overlay (ho : o.recordAll = id) (inp : StepInput) (equity : Decimal) :
    (l.overlay o).decide inp equity = overlaid o <$> l.decide inp equity := by
  unfold decide
  refine bind_square (l.intend_overlay ho inp equity) fun r => ?_
  cases hsizing : r.1.sizing with
  | none => simp only [overlaid, hsizing]; rfl
  | some sz =>
    simp only [overlaid, hsizing]
    exact ite_square rfl (r.2.act_overlay o inp equity r.1 sz)

variable {W : Type} (core : DecisionCore W) (mode : RecordMode)

/-- Nor in the decision that is recorded. -/
theorem recordedDecision_overlay (ho : o.recordAll = id) (inp : BarInput W) (equity : Decimal) :
    recordedDecision core mode (l.overlay o) inp equity =
      (fun r => (r.1, r.2.1, r.2.2.overlay o)) <$> recordedDecision core mode l inp equity := by
  unfold recordedDecision
  refine ite_square (bind_same fun asked => ?_) rfl
  refine bind_square (l.decide_overlay ho (inp.withNumbers asked.1) equity) fun r => ?_
  exact bind_same fun trace => rfl

/-- **The rest of a step**, once what comes before the bar has been done and the bar charges the
    same. -/
theorem recordedStep_overlay (ho : o.recordAll = id) {l' l₁ : TradingLoop} {inp : BarInput W}
    (hlatched : l'.latched = l.latched) (hindex : l'.index = l.index)
    (hbegin : l.beginBar inp.unasked = .ok l₁)
    (hbegin' : l'.beginBar inp.unasked = .ok (l₁.overlay o))
    (h : ∀ st, l₁.broker.state.get? inp.bar.instrument = some st →
      (st.rated (o.rate inp.bar.instrument)).fundingCharges (l₁.broker.rated o.rate).cost inp.bar =
        st.fundingCharges l₁.broker.cost inp.bar) :
    recordedStep core mode l' inp = overlaid o <$> recordedStep core mode l inp := by
  unfold recordedStep
  rw [hbegin, hbegin', hlatched, hindex]
  change ((l₁.overlay o).bookBar inp.bar >>= _) = _ <$> (l₁.bookBar inp.bar >>= _)
  refine bind_square (l₁.bookBar_overlay o inp.bar h) fun r₂ => ?_
  refine bind_square (r₂.2.2.2.2.valueBar_overlay o inp.unasked l.latched |l₁.positionQty|)
    fun r₃ => ?_
  refine bind_square (r₃.2.2.recordedDecision_overlay core mode ho inp r₃.1) fun r₄ => ?_
  exact bind_same fun point => rfl

end Decision

/-! ### Before the bar -/

section Before

variable {l : TradingLoop} {series : List (ℤ × Decimal)} {tOpen closeNs : ℤ}

/-- The last moment of funding since the previous bar. -/
def lastMoment (l : TradingLoop) (tOpen : ℤ) : Option ℤ :=
  l.lastOpen.bind fun last => (l.broker.cost.fundingTimes last tOpen).getLast?

/-- A step without a moment sets no rate. -/
theorem applyFundingRate_idle (h : l.lastMoment tOpen = none) :
    l.applyFundingRate tOpen closeNs = .ok l := by
  rw [lastMoment] at h
  rw [applyFundingRate, h]

/-- A step with a moment sets one rate, that of its last moment. -/
theorem applyFundingRate_due {m : ℤ} (h : l.lastMoment tOpen = some m) (closeNs : ℤ) :
    ∃ n rate, l.applyFundingRate tOpen closeNs =
      (fun broker => { l with fundingPtr := n, broker := broker }) <$>
        l.broker.setFundingRate l.sym rate := by
  rw [lastMoment] at h
  rw [applyFundingRate, h]
  exact ⟨_, _, bind_pure_comp _ _⟩

/-- The rate of the step, where there are records. -/
def setRate (l : TradingLoop) (tOpen closeNs : ℤ) : Except PyError TradingLoop :=
  if l.funding = [] then .ok l else l.applyFundingRate tOpen closeNs

/-- A bar begins with the clock, the rate and the cancellations. -/
theorem beginBar_eq (l : TradingLoop) (inp : StepInput) : l.beginBar inp =
    l.clock.set inp.bar.openTimeNs >>= fun clock =>
      setRate { l with clock := clock } inp.bar.openTimeNs inp.closeNs >>= fun l₂ =>
        if l₂.latched then l₂.cancelPendingIncreases else .ok l₂ := by
  unfold beginBar setRate
  refine congrArg (l.clock.set inp.bar.openTimeNs >>= ·) ?_
  funext clock
  dsimp only
  split
  · rfl
  · rfl

/-- **Each loop sets its own rate**, and differs from the other in nothing else. -/
theorem setRate_funding (n : ℕ) (rate : Decimal) (tOpen closeNs : ℤ)
    (hinst : ∃ st, l.broker.state.get? l.sym = some st) (hnil : l.funding = [] → series = []) :
    ∃ n' rate', (l.overlay (.funding l.sym series n rate)).setRate tOpen closeNs =
      overlay (.funding l.sym series n' rate') <$> l.setRate tOpen closeNs := by
  have hmoment : ∀ n rate, (l.overlay (.funding l.sym series n rate)).lastMoment tOpen =
      l.lastMoment tOpen := fun _ _ => rfl
  by_cases hseries : series = []
  · -- without records nothing is set, and what the other loop sets is overwritten
    refine ⟨n, rate, ?_⟩
    have hleft : (l.overlay (.funding l.sym series n rate)).setRate tOpen closeNs =
        .ok (l.overlay (.funding l.sym series n rate)) := if_pos hseries
    rw [hleft, setRate]
    split
    · rfl
    -- this loop has records, so that it sets a rate where a moment is due
    · cases hm : l.lastMoment tOpen with
      | none => rw [applyFundingRate_idle hm]; rfl
      | some m =>
        obtain ⟨n₁, rate₁, hdue⟩ := applyFundingRate_due hm closeNs
        obtain ⟨st, hst⟩ := hinst
        have hset : ∃ pb, l.broker.setFundingRate l.sym rate₁ = .ok pb := by
          rw [PaperBroker.setFundingRate, PaperBroker.require, hst]
          exact ⟨_, rfl⟩
        obtain ⟨pb, hset⟩ := hset
        rw [hdue, hset]
        have hforget := l.broker.rated_setFundingRate
          (Overlay.funding l.sym series n rate).rate hset (by simp [Overlay.funding])
        refine congrArg Except.ok ?_
        rw [overlay, ← hforget]
        rfl
  · have hrecords : l.funding ≠ [] := fun h => hseries (hnil h)
    have hleft : (l.overlay (.funding l.sym series n rate)).setRate tOpen closeNs =
        (l.overlay (.funding l.sym series n rate)).applyFundingRate tOpen closeNs :=
      if_neg hseries
    rw [hleft, setRate, if_neg hrecords]
    cases hm : l.lastMoment tOpen with
    | none =>
      refine ⟨n, rate, ?_⟩
      rw [applyFundingRate_idle hm, applyFundingRate_idle ((hmoment n rate).trans hm)]
      rfl
    | some m =>
      obtain ⟨n₁, rate₁, hdue⟩ := applyFundingRate_due hm closeNs
      obtain ⟨n₂, rate₂, hdue'⟩ := applyFundingRate_due ((hmoment n rate).trans hm) closeNs
      refine ⟨n₂, rate₂, ?_⟩
      have hset := l.broker.setFundingRate_rated (Overlay.funding l.sym series n rate).rate
        (Overlay.funding l.sym series n₂ rate₂).rate (i := l.sym)
        (fun j hj => by simp [Overlay.funding, hj]) rate₂
        (show (Overlay.funding l.sym series n₂ rate₂).rate l.sym rate₁ = rate₂ by
          simp [Overlay.funding])
      rw [hdue, hdue']
      show _ <$> (l.broker.rated _).setFundingRate l.sym rate₂ = _
      rw [hset]
      cases l.broker.setFundingRate l.sym rate₁ with
      | error e => rfl
      | ok pb => rfl

/-- **Before the bar** the loops differ in their records and in the rate alone. -/
theorem beginBar_funding (n : ℕ) (rate : Decimal) (inp : StepInput)
    (hinst : ∃ st, l.broker.state.get? l.sym = some st) (hnil : l.funding = [] → series = []) :
    ∃ n' rate', (l.overlay (.funding l.sym series n rate)).beginBar inp =
      overlay (.funding l.sym series n' rate') <$> l.beginBar inp := by
  rw [beginBar_eq, beginBar_eq]
  show ∃ n' rate', (l.clock.set inp.bar.openTimeNs >>= _) = _
  cases hclock : l.clock.set inp.bar.openTimeNs with
  | error e => exact ⟨n, rate, rfl⟩
  | ok clock =>
    obtain ⟨n', rate', hset⟩ := setRate_funding (l := { l with clock := clock }) n rate
      inp.bar.openTimeNs inp.closeNs hinst hnil
    refine ⟨n', rate', ?_⟩
    change (setRate _ _ _ >>= _) = _ <$> (setRate _ _ _ >>= _)
    exact bind_square hset fun l₂ =>
      ite_square (l₂.cancelPendingIncreases_overlay (.funding l.sym series n' rate')) rfl

end Before

end TradingLoop

/-! ### A step of both loops -/

/-- A bar charges the same at another rate, unless there is a position to charge. -/
theorem InstState.fundingCharges_rated {st : InstState} {cost : CostModel} {bar : DecBar}
    {g : Decimal → Decimal} (h : st.position ≠ 0 → cost.chargesFunding = true →
      ∀ m, (stepMoments cost st.lastOpenNs bar.openTimeNs).getLast? = some m →
        g st.fundingRate = st.fundingRate) :
    (st.rated g).fundingCharges cost bar = st.fundingCharges cost bar := by
  unfold fundingCharges
  have hopen : (st.rated g).lastOpenNs = st.lastOpenNs := rfl
  rw [hopen]
  -- before the first bar nothing is charged
  cases hlast : st.lastOpenNs with
  | none => rfl
  | some last =>
    dsimp only
    rw [hlast] at h
    -- a charge is made for an open position, at a moment that the bar has passed
    by_cases hcharges : st.position ≠ 0 ∧ cost.chargesFunding = true ∧
        cost.nextFundingTime last ≤ bar.openTimeNs
    · cases htimes : cost.fundingTimes last bar.openTimeNs with
      | nil => simp
      | cons t ts =>
        have hsome : (stepMoments cost (some last) bar.openTimeNs).getLast?.isSome = true := by
          rw [List.getLast?_isSome, stepMoments, Option.elim_some, htimes]
          exact List.cons_ne_nil t ts
        obtain ⟨m, hm⟩ := Option.isSome_iff_exists.mp hsome
        rw [show st.rated g = st by rw [rated, h hcharges.1 hcharges.2.1 m hm]]
    · rw [if_neg hcharges]
      exact if_neg hcharges

/-- **The same rate**: where there is a position to charge, the records give the last moment of
    the step the same rate. -/
def SameRate (cost : CostModel) (cfg : LoopCfg) (series series' : List (ℤ × Decimal))
    (l : TradingLoop) (bar : DecBar) (closeNs : ℤ) : Prop :=
  l.positionQty ≠ 0 → cost.chargesFunding = true →
    ∀ m, (stepMoments cost l.lastOpen bar.openTimeNs).getLast? = some m →
      usedRate cfg series' closeNs m = usedRate cfg series closeNs m

/-- **In step**: the loops differ in their records, and each awaits the next bar with its own. -/
structure InStep (cost : CostModel) (cfg : LoopCfg) (series series' : List (ℤ × Decimal))
    (l l' : TradingLoop) : Prop where
  awaits : Awaits cost cfg series l
  awaits' : Awaits cost cfg series' l'
  overlaid : ∃ n rate, l' = l.overlay (.funding l.sym series' n rate)

namespace InStep

variable {cost : CostModel} {cfg : LoopCfg} {series series' : List (ℤ × Decimal)}
  {l l' l₂ l₂' : TradingLoop} {W : Type} {core : DecisionCore W} {mode : RecordMode}
  {inp : BarInput W} {r : RecordedResult}

/-- A step at the same rate. -/
theorem same (h : InStep cost cfg series series' l l') (hs : SeriesSorted series)
    (hs' : SeriesSorted series') (hnil : series = [] → series' = [])
    (hstep : TradingLoop.recordedStep core mode l inp = .ok (r, l₂))
    (hsame : SameRate cost cfg series series' l inp.bar inp.closeNs) :
    ∃ l₂', TradingLoop.recordedStep core mode l' inp = .ok (r, l₂') ∧
      InStep cost cfg series series' l₂ l₂' := by
  obtain ⟨n, rate, rfl⟩ := h.overlaid
  obtain ⟨numbers, hloop, -⟩ := TradingLoop.recordedStep_step hstep
  obtain ⟨-, hclose, -, -, l₁, l₃, _, hbegin, -, -, hworks, -, hinst, -⟩ :=
    TradingLoop.step_eq_ok hloop
  have hbegin : l.beginBar inp.unasked = .ok l₁ := hbegin
  obtain ⟨p, hfollows⟩ := h.awaits.follows
  obtain ⟨st, hrep, -⟩ := hfollows.represents
  have hnil : l.funding = [] → series' = [] := fun hl => hnil (h.awaits.sameSeries ▸ hl)
  obtain ⟨n', rate', hbegin'⟩ :=
    TradingLoop.beginBar_funding n rate inp.unasked ⟨st, hrep.inst⟩ hnil
  rw [hbegin] at hbegin'
  have hbegin' : (l.overlay (.funding l.sym series' n rate)).beginBar inp.unasked =
      .ok (l₁.overlay (.funding l.sym series' n' rate')) := hbegin'
  obtain ⟨hbegun, st₁, hst₁, hpos, hopen, hsym, hsingle⟩ := h.awaits.begun_bar hs hclose hbegin
  obtain ⟨hbegun', -⟩ := h.awaits'.begun_bar hs' hclose hbegin'
  have hcharges : ∀ st, l₁.broker.state.get? inp.bar.instrument = some st →
      (st.rated ((Overlay.funding l.sym series' n' rate').rate inp.bar.instrument)).fundingCharges
        (l₁.broker.rated (Overlay.funding l.sym series' n' rate').rate).cost inp.bar =
      st.fundingCharges l₁.broker.cost inp.bar := by
    intro st hst
    obtain rfl : st₁ = st := by
      rw [hsingle _ _ hst] at hst
      exact Option.some.inj (hst₁.symm.trans hst)
    apply InstState.fundingCharges_rated
    intro hq hc m hm
    -- each bar finds the rate of its own records
    have hm : (stepMoments l₁.broker.cost st₁.lastOpenNs inp.bar.openTimeNs).getLast? = some m := hm
    have hc : l₁.broker.cost.chargesFunding = true := hc
    rw [hopen, hbegun.schedule.stepMoments] at hm
    have hfull : st₁.fundingRate = usedRate cfg series inp.closeNs m :=
      hbegun.rate m hm st₁ hst₁
    have hpart : (st₁.rated ((Overlay.funding l.sym series' n' rate').rate l₁.sym)).fundingRate =
        usedRate cfg series' inp.closeNs m :=
      hbegun'.rate m hm _ ((PaperBroker.rated_state _ _ _).trans (congrArg (Option.map _) hst₁))
    rw [hpos] at hq
    rw [hbegun.schedule.chargesFunding] at hc
    rw [hsingle _ _ hst, hfull, ← hsame hq hc m hm, ← hpart]
    simp [InstState.rated, Overlay.funding, hsym]
  have hlatched : (l.overlay (.funding l.sym series' n rate)).latched = l.latched := rfl
  have hstep' :=
    TradingLoop.recordedStep_overlay l core mode rfl hlatched rfl hbegin hbegin' hcharges
  rw [hstep] at hstep'
  have hstep' : TradingLoop.recordedStep core mode (l.overlay (.funding l.sym series' n rate)) inp =
      .ok (r, l₂.overlay (.funding l.sym series' n' rate')) := hstep'
  obtain ⟨numbers', hloop', -⟩ := TradingLoop.recordedStep_step hstep'
  have hsym₂ : l₂.sym = l.sym :=
    (congrArg Instrument.symbolCanon (hinst.trans hworks.instrument)).trans hsym
  refine ⟨_, hstep', (h.awaits.step hs hloop).2, (h.awaits'.step hs' hloop').2, n', rate', ?_⟩
  rw [hsym₂]

/-- The same step charges the same rate. -/
theorem sameRate (h : InStep cost cfg series series' l l') (hs : SeriesSorted series)
    (hs' : SeriesSorted series')
    (hstep : TradingLoop.recordedStep core mode l inp = .ok (r, l₂))
    (hstep' : TradingLoop.recordedStep core mode l' inp = .ok (r, l₂')) :
    SameRate cost cfg series series' l inp.bar inp.closeNs := by
  obtain ⟨numbers, hloop, -⟩ := TradingLoop.recordedStep_step hstep
  obtain ⟨numbers', hloop', -⟩ := TradingLoop.recordedStep_step hstep'
  have hcharges := (h.awaits.step hs hloop).1
  have hcharges' := (h.awaits'.step hs' hloop').1
  obtain ⟨n, rate, rfl⟩ := h.overlaid
  intro hq hc m hm
  -- there is a charge, and both runs see its rate
  have htimes := hcharges.times
  rw [if_pos ⟨hq, hc⟩] at htimes
  have hne : r.result.funding ≠ [] := by
    intro hnil
    rw [hnil, List.map_nil] at htimes
    rw [show stepMoments cost l.lastOpen inp.bar.openTimeNs = [] from htimes.symm] at hm
    cases hm
  obtain ⟨ch, hch⟩ := List.exists_mem_of_ne_nil _ hne
  exact (hcharges'.rates ch hch m hm).symm.trans (hcharges.rates ch hch m hm)

/-- New loops with their records. -/
theorem new {instrument : Instrument} {riskCfg : RiskConfig} {clock : ManualClock}
    {ids : IdGenerator} {equity : NonNegDec}
    (hnew : TradingLoop.new instrument cfg riskCfg clock ids cost equity = .ok l)
    (series series' : List (ℤ × Decimal)) :
    InStep cost cfg series series' (l.setFundingSeries series) (l.setFundingSeries series') where
  awaits := .new hnew series
  awaits' := .new hnew series'
  overlaid := by
    obtain ⟨broker, hset, hnew⟩ := bind_eq_ok.mp hnew
    cases hnew
    -- both begin with the rate of the fallback
    have hrate : broker.rated (Overlay.funding instrument.symbolCanon series'
        (if series' = [] then 0 else 0) cfg.fallbackRate).rate = broker := by
      apply PaperBroker.rated_eq_self
      intro i st hst
      by_cases hi : i = instrument.symbolCanon
      · subst hi
        simp [Overlay.funding, setFundingRate_rate hset hst]
      · simp [Overlay.funding, hi]
    refine ⟨if series' = [] then 0 else 0, cfg.fallbackRate, ?_⟩
    simp only [TradingLoop.overlay, TradingLoop.setFundingSeries, TradingLoop.sym]
    rw [hrate]
    rfl

end InStep

end FuzzHelm
