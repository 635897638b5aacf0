import FuzzHelm.Backtest.Drives
import FuzzHelm.Backtest.LoopRun
import FuzzHelm.Lib.Cursor
import FuzzHelm.Lib.Literals

namespace FuzzHelm

open Lib

/-!
# The rate of a funding charge

The exchange records the rate of every moment of funding.  The loop looks one record up per
step, that of the last moment since the previous bar, and every charge of the step carries it.

* `recordedRate` — the record of one moment, or the fallback, as the configuration has them;
* `usedRate` — the same under the window and the fallback that the loop goes by;
* `Awaits` — what the loop knows of the records between two bars;
* `Awaits.step_rates` — the charges of a step: their moments, and their one rate;
* `funding_rate` — a run charges the recorded rates just when every step finds one rate for all
  its moments, and the loop goes by what is configured.
-/

/-- **The rate of the moment `m`**: that of the last record stamped in `(m - w, m + w]` and
    not after the close of the bar, or the fallback. -/
def recordedRate (cfg : LoopCfg) (series : List (ℤ × Decimal)) (closeNs m : ℤ) : Decimal :=
  (series.filter fun e => decide (m - cfg.fundingMatchNs < e.1 ∧
    e.1 ≤ m + cfg.fundingMatchNs ∧ e.1 ≤ closeNs)).getLast?.elim cfg.fundingFallback Prod.snd

/-- **The rate that the loop finds**: a configured zero has given way to its default. -/
def usedRate (cfg : LoopCfg) (series : List (ℤ × Decimal)) (closeNs m : ℤ) : Decimal :=
  recordedRate cfg.inEffect series closeNs m

/-- The rate is that of the last record within the window of the moment, or the fallback. -/
theorem usedRate_elim (cfg : LoopCfg) (series : List (ℤ × Decimal)) (closeNs m : ℤ) :
    usedRate cfg series closeNs m =
      (series.filter fun e => decide (m - cfg.matchNs < e.1 ∧ e.1 ≤ m + cfg.matchNs ∧
        e.1 ≤ closeNs)).getLast?.elim cfg.fallbackRate Prod.snd := rfl

/-- What is configured is what the loop goes by, unless it is zero. -/
theorem usedRate_eq {cfg : LoopCfg} (hrate : cfg.fundingFallback ≠ 0)
    (hmatch : cfg.fundingMatchNs ≠ 0) (series : List (ℤ × Decimal)) (closeNs m : ℤ) :
    usedRate cfg series closeNs m = recordedRate cfg series closeNs m := by
  rw [usedRate, LoopCfg.inEffect, LoopCfg.fallbackRate, LoopCfg.matchNs, if_neg hrate,
    if_neg hmatch]

/-- Stamps in order, as the exchange delivers them. -/
def SeriesSorted (series : List (ℤ × Decimal)) : Prop := series.Pairwise fun x y => x.1 ≤ y.1

/-- The moments of funding of a step on a bar that opens at `tOpen`, after one at `last`. -/
def stepMoments (cost : CostModel) (last : Option ℤ) (tOpen : ℤ) : List ℤ :=
  last.elim [] fun last => cost.fundingTimes last tOpen

section

variable {cost : CostModel} {cfg : LoopCfg} {series : List (ℤ × Decimal)} {l l' : TradingLoop}
  {last : Option ℤ} {tOpen closeNs : ℤ}

/-! ### The record that the cursor finds -/

/-- **The record that the cursor finds** is the one of the moment. -/
theorem usedRate_found (hs : SeriesSorted series) {n : ℕ} {m : ℤ}
    (hn : ∀ e ∈ series.take n, e.1 ≤ min (m + cfg.matchNs) closeNs) :
    (match (series.take (advance Prod.fst series n
        (min (m + cfg.matchNs) closeNs))).getLast? with
      | none => cfg.fallbackRate
      | some e => if m - cfg.matchNs < e.1 then e.2 else cfg.fallbackRate) =
      usedRate cfg series closeNs m := by
  have hwindow : (series.filter fun e => decide (m - cfg.matchNs < e.1 ∧
      e.1 ≤ m + cfg.matchNs ∧ e.1 ≤ closeNs)).getLast? =
      (series.filter fun e => decide (e.1 ≤ min (m + cfg.matchNs) closeNs)).getLast?.filter
        fun e => decide (m - cfg.matchNs < e.1) := by
    simp only [← le_min_iff]
    exact getLast?_filter_above hs (fun e => e.1 ≤ min (m + cfg.matchNs) closeNs) _
  rw [usedRate_elim, hwindow, take_advance hs hn]
  cases (series.filter fun e => decide (e.1 ≤ min (m + cfg.matchNs) closeNs)).getLast? with
  | none => rfl
  | some e => by_cases he : m - cfg.matchNs < e.1 <;> simp [he, Option.filter_some]

/-- Without records the fallback is charged. -/
theorem usedRate_nil (m : ℤ) : usedRate cfg [] closeNs m = cfg.fallbackRate := rfl

/-- The last moment of a step is the last of the schedule since the last open. -/
theorem getLast?_stepMoments : (stepMoments cost last tOpen).getLast? =
    last.bind fun last => (cost.fundingTimes last tOpen).getLast? := by
  cases last <;> rfl

/-- A moment of the step lies between the opens. -/
theorem stepMoments_range {m : ℤ} (hm : m ∈ stepMoments cost last tOpen) :
    ∃ t, last = some t ∧ t < m ∧ m ≤ tOpen := by
  cases last with
  | none => cases hm
  | some t =>
    obtain ⟨hlt, hle, -⟩ := ((cost.fundingTimes_enumerates t tOpen).mem m).mp hm
    exact ⟨t, rfl, hlt, hle⟩

/-- A step has the same moments under the same schedule. -/
theorem CostModel.SameSchedule.stepMoments {cost' : CostModel}
    (h : CostModel.SameSchedule cost cost') :
    FuzzHelm.stepMoments cost' last tOpen = FuzzHelm.stepMoments cost last tOpen := by
  cases last with
  | none => rfl
  | some t => exact h.fundingTimes t tOpen

/-! ### Before the bar -/

/-- **What the loop knows of the records** between two bars: the cursor has passed nothing that
    the next moment may need, and without a series the rate is the fallback. -/
structure Awaits (cost : CostModel) (cfg : LoopCfg) (series : List (ℤ × Decimal))
    (l : TradingLoop) : Prop where
  follows : ∃ p, Follows l p
  schedule : CostModel.SameSchedule cost l.broker.cost
  sameCfg : l.cfg = cfg
  sameSeries : l.funding = series
  drained : l.broker.funding = []
  opened : ∀ last, l.lastOpen = some last → last ≤ l.clock.t
  passed : ∀ e ∈ series.take l.fundingPtr,
    e.1 ≤ l.clock.t ∧ ∃ last, l.lastOpen = some last ∧ e.1 ≤ last + cfg.matchNs
  fallback : series = [] → ∀ st, l.broker.state.get? l.sym = some st →
    st.fundingRate = cfg.fallbackRate

/-- **What it knows before the bar**: the rate is the one of the last moment. -/
structure Begun (cost : CostModel) (cfg : LoopCfg) (series : List (ℤ × Decimal))
    (last : Option ℤ) (tOpen closeNs : ℤ) (l : TradingLoop) : Prop where
  schedule : CostModel.SameSchedule cost l.broker.cost
  sameCfg : l.cfg = cfg
  sameSeries : l.funding = series
  drained : l.broker.funding = []
  passed : ∀ e ∈ series.take l.fundingPtr, e.1 ≤ closeNs ∧ e.1 ≤ tOpen + cfg.matchNs
  rate : ∀ m, (stepMoments cost last tOpen).getLast? = some m →
    ∀ st, l.broker.state.get? l.sym = some st → st.fundingRate = usedRate cfg series closeNs m
  fallback : series = [] → ∀ st, l.broker.state.get? l.sym = some st →
    st.fundingRate = cfg.fallbackRate

/-- The rate that is set is the rate that is charged. -/
theorem setFundingRate_rate {pb pb' : PaperBroker} {i : String} {rate : Decimal}
    {st' : InstState} (h : pb.setFundingRate i rate = .ok pb')
    (hst' : pb'.state.get? i = some st') : st'.fundingRate = rate := by
  obtain ⟨st, -, -, hrate⟩ := (KeepsTime.setFundingRate h).state i st' hst'
  rw [hrate, BrokerCall.rateOf, if_pos rfl, Option.getD_some]

/-- The rate that a step sets is kept by the work on the loop. -/
theorem Works.rate {st' : InstState} (h : Works l l')
    (hst' : l'.broker.state.get? l'.sym = some st') :
    ∃ st, l.broker.state.get? l.sym = some st ∧ st'.fundingRate = st.fundingRate := by
  rw [h.sym] at hst'
  obtain ⟨st, hst, -, hrate⟩ := h.drives.terms.2.2 _ st' hst'
  exact ⟨st, hst, hrate⟩

/-- Work between two bars leaves the rates of the step alone. -/
theorem Begun.works (h : Begun cost cfg series last tOpen closeNs l) (hw : Works l l') :
    Begun cost cfg series last tOpen closeNs l' where
  schedule := h.schedule.trans hw.drives.terms.1
  sameCfg := hw.cfg.trans h.sameCfg
  sameSeries := hw.funding.trans h.sameSeries
  drained := hw.drives.terms.2.1.trans h.drained
  passed := by
    rw [hw.fundingPtr]
    exact h.passed
  rate := by
    intro m hm st' hst'
    obtain ⟨st, hst, heq⟩ := hw.rate hst'
    rw [heq]
    exact h.rate m hm st hst
  fallback := by
    intro hnil st' hst'
    obtain ⟨st, hst, heq⟩ := hw.rate hst'
    rw [heq]
    exact h.fallback hnil st hst

/-- A step without a moment of funding sets no rate. -/
theorem Awaits.begun_idle (h : Awaits cost cfg series l) (hle : l.clock.t ≤ tOpen)
    (hclose : tOpen ≤ closeNs)
    (hno : series ≠ [] → (stepMoments cost l.lastOpen tOpen).getLast? = none) :
    Begun cost cfg series l.lastOpen tOpen closeNs { l with clock := ⟨tOpen⟩ } where
  schedule := h.schedule
  sameCfg := h.sameCfg
  sameSeries := h.sameSeries
  drained := h.drained
  passed := by
    intro e he
    obtain ⟨hclock, t, ht, hwindow⟩ := h.passed e he
    have hopened := h.opened t ht
    exact ⟨by omega, by omega⟩
  -- no moment asks for a rate, so that only the fallback of an empty series matters
  rate := by
    intro m hm st hst
    have hnil : series = [] := by
      by_contra hne
      rw [hno hne] at hm
      cases hm
    rw [hnil, usedRate_nil]
    exact h.fallback hnil st hst
  fallback := h.fallback

/-- **The rate that is set** is that of the last moment. -/
theorem Awaits.begun (h : Awaits cost cfg series l) (hs : SeriesSorted series)
    (hle : l.clock.t ≤ tOpen) (hclose : tOpen ≤ closeNs)
    (hl : (if l.funding = [] then .ok { l with clock := ⟨tOpen⟩ }
      else TradingLoop.applyFundingRate { l with clock := ⟨tOpen⟩ } tOpen closeNs) = .ok l') :
    Begun cost cfg series l.lastOpen tOpen closeNs l' := by
  split at hl
  · rename_i hnil
    cases hl
    exact h.begun_idle hle hclose fun hne => absurd (h.sameSeries.symm.trans hnil) hne
  · rename_i hne
    unfold TradingLoop.applyFundingRate at hl
    have hmoments : (l.lastOpen.bind fun last => (l.broker.cost.fundingTimes last tOpen).getLast?) =
        (stepMoments l.broker.cost l.lastOpen tOpen).getLast? := getLast?_stepMoments.symm
    rw [h.schedule.stepMoments] at hmoments
    dsimp only at hl
    rw [hmoments] at hl
    cases hlast : (stepMoments cost l.lastOpen tOpen).getLast? with
    | none =>
      rw [hlast] at hl
      cases hl
      exact h.begun_idle hle hclose fun _ => hlast
    | some m =>
      rw [hlast] at hl
      obtain ⟨broker, hset, hl⟩ := bind_eq_ok.mp hl
      obtain ⟨t, ht, htm, hmt⟩ := stepMoments_range (List.mem_of_getLast? hlast)
      have hkeeps := KeepsTime.setFundingRate hset
      -- nothing that the cursor has passed lies beyond the horizon of this moment
      have hn : ∀ e ∈ series.take l.fundingPtr,
          e.1 ≤ min (m + cfg.matchNs) closeNs := by
        intro e he
        obtain ⟨hclock, t', ht', hwindow⟩ := h.passed e he
        rw [ht] at ht'
        cases ht'
        exact le_min (by omega) (by omega)
      have hrate := usedRate_found hs hn
      rw [h.sameCfg, h.sameSeries] at hset hl
      cases hl
      exact {
        schedule := h.schedule.trans hkeeps.schedule
        sameCfg := rfl
        sameSeries := rfl
        drained := hkeeps.funding.trans (by rw [h.drained]; rfl)
        passed := by
          intro e he
          have hmem := le_of_mem_take_advance hs hn he
          rw [le_min_iff] at hmem
          exact ⟨hmem.2, by omega⟩
        rate := by
          intro m' hm' st' hst'
          rw [hlast] at hm'
          cases hm'
          exact (setFundingRate_rate hset hst').trans hrate
        fallback := by
          intro hnil
          exact absurd (h.sameSeries.trans hnil) hne }

/-! ### The step -/

/-- **What the bar finds**: the position and the last open of the loop, and the rate of the last
    moment. -/
theorem Awaits.begun_bar {inp : StepInput} (h : Awaits cost cfg series l)
    (hs : SeriesSorted series) (hclose : inp.bar.openTimeNs ≤ inp.closeNs)
    (hbegin : l.beginBar inp = .ok l') :
    Begun cost cfg series l.lastOpen inp.bar.openTimeNs inp.closeNs l' ∧
      ∃ st, l'.broker.state.get? l'.sym = some st ∧ st.position = l.positionQty ∧
        st.lastOpenNs = l.lastOpen ∧ l'.sym = l.sym ∧
        ∀ i s, l'.broker.state.get? i = some s → i = l'.sym := by
  obtain ⟨p, hfollows⟩ := h.follows
  obtain ⟨st, hrep, hlast⟩ := hfollows.represents
  obtain ⟨st', hrep', hkeeps, -, hlast'⟩ := hrep.beginBar hfollows.dated hbegin
  obtain ⟨hle, lr, hset, hworks⟩ := TradingLoop.beginBar_eq_ok hbegin
  refine ⟨(h.begun hs hle hclose hset).works hworks, st', hrep'.inst, ?_, hlast'.trans hlast,
    congrArg Instrument.symbolCanon hkeeps.instrument, hrep'.single⟩
  rw [hrep'.carries.position, hfollows.qty]
  split
  · exact p.latch_position
  · rfl

/-- **The charges of a step**: one for every moment since the last bar, when there is a position
    and the costs charge at all, and each with the rate of the last moment. -/
structure StepCharges (cost : CostModel) (cfg : LoopCfg) (series : List (ℤ × Decimal))
    (l : TradingLoop) (inp : StepInput) (r : StepResult) : Prop where
  times : r.funding.map FundingCharge.tsNs =
    if l.positionQty ≠ 0 ∧ cost.chargesFunding = true then
      stepMoments cost l.lastOpen inp.bar.openTimeNs
    else []
  rates : ∀ ch ∈ r.funding, ∀ m,
    (stepMoments cost l.lastOpen inp.bar.openTimeNs).getLast? = some m →
    ch.rate = usedRate cfg series inp.closeNs m

/-- **A step** charges the rate of its last moment and awaits the next bar. -/
theorem Awaits.step {inp : StepInput} {r : StepResult} (h : Awaits cost cfg series l)
    (hs : SeriesSorted series) (hl : l.step inp = .ok (r, l')) :
    StepCharges cost cfg series l inp r ∧ Awaits cost cfg series l' := by
  obtain ⟨p, hfollows⟩ := h.follows
  obtain ⟨p', hlaw⟩ := hfollows.step hl
  obtain ⟨-, hclose, -, -, l₁, l₂, broker, hbegin, hbar, hfunding, hworks, hdrives, hinst, hcfg,
    hclock, hlast, hseries, hptr⟩ := TradingLoop.step_eq_ok hl
  obtain ⟨hbegun, st₁, hst₁, hpos, hopen₁, -, hsingle⟩ := h.begun_bar hs hclose hbegin
  have hbroker := KeepsTime.onBar hbar
  have hsym : inp.bar.instrument = l₁.sym := by
    unfold PaperBroker.onBar at hbar
    split at hbar
    · cases hbar
    · rename_i s hget
      exact hsingle _ s hget
  have hcharges : r.funding = st₁.fundingCharges l₁.broker.cost inp.bar := by
    rw [hfunding, hbroker.funding, hbegun.drained, List.nil_append, PaperBroker.charged, hsym,
      hst₁, Option.elim_some]
  refine ⟨⟨?_, fun ch hch m hm => ?_⟩, ?_⟩
  · rw [hcharges, InstState.fundingCharges_times, hpos, hbegun.schedule.chargesFunding, hopen₁]
    simp only [stepMoments, hbegun.schedule.fundingTimes]
  · rw [hcharges] at hch
    rw [(InstState.fundingCharges_data hch).2.2]
    exact hbegun.rate m hm st₁ hst₁
  · exact {
      follows := ⟨p', hlaw.follows⟩
      schedule := (hbegun.schedule.trans hbroker.schedule).trans
        (hworks.drives.terms.1.trans hdrives.terms.1)
      sameCfg := hcfg.trans (hworks.cfg.trans hbegun.sameCfg)
      sameSeries := hseries.trans (hworks.funding.trans hbegun.sameSeries)
      drained := hdrives.terms.2.1.trans hworks.drives.terms.2.1
      opened := by
        intro last hl'
        rw [hlast] at hl'
        cases hl'
        rw [hclock]
        exact hclose
      passed := by
        intro e he
        rw [hptr, hworks.fundingPtr] at he
        obtain ⟨hcl, hop⟩ := hbegun.passed e he
        rw [hclock, hlast]
        exact ⟨hcl, _, rfl, hop⟩
      fallback := by
        intro hnil st' hst'
        have hsym' : l'.sym = l₁.sym := congrArg Instrument.symbolCanon
          (hinst.trans hworks.instrument)
        rw [hsym'] at hst'
        obtain ⟨st₂, hst₂, -, hr₂⟩ := hdrives.terms.2.2 _ st' hst'
        obtain ⟨st₃, hst₃, -, hr₃⟩ := hworks.drives.terms.2.2 _ st₂ hst₂
        obtain ⟨st₄, hst₄, -, hr₄⟩ := hbroker.state _ st₃ hst₃
        rw [hr₂, hr₃, hr₄]
        exact hbegun.fallback hnil st₄ hst₄ }

/-- The other calls leave the rate alone. -/
theorem Awaits.call {c : LoopCall} {a : LoopAnswer} (h : Awaits cost cfg series l)
    (hs : SeriesSorted series) (hc : ∀ s, c ≠ .setFundingSeries s)
    (hl : l.call c = .ok (a, l')) : Awaits cost cfg series l' := by
  obtain ⟨p, hfollows⟩ := h.follows
  -- only a step charges; every other call leaves what the next bar begins with
  rcases hfollows.call hl with ⟨inp, r, -, -, hstep⟩ | ⟨ha, hfollows', -⟩
  · exact (h.step hs hstep).2
  · cases c with
    | step inp =>
      obtain ⟨⟨r, l₁⟩, -, hl⟩ := bind_eq_ok.mp hl
      cases hl
      cases ha
    | setFundingSeries s => exact absurd rfl (hc s)
    | trip reason tsNs =>
      cases hl
      exact { h with follows := ⟨p, hfollows'⟩ }
    | releaseSwitch actorRole actor tsNs =>
      obtain ⟨answer, -, hl⟩ := bind_eq_ok.mp hl
      cases hl
      exact { h with follows := ⟨p, hfollows'⟩ }
    | releaseHalt actorRole actor =>
      obtain ⟨answer, -, hl⟩ := bind_eq_ok.mp hl
      cases hl
      exact { h with follows := ⟨p, hfollows'⟩ }
    | applyRiskLimits limits stateMachine =>
      cases hl
      exact { h with follows := ⟨p, hfollows'⟩ }

/-! ### Which rates a step charges -/

/-- **One rate in one step**: the rate that the loop finds for the last moment since the last bar
    is the recorded one of every moment, when there is a position and the costs charge at all. -/
def OneRate (cost : CostModel) (cfg : LoopCfg) (series : List (ℤ × Decimal)) (l : TradingLoop)
    (inp : StepInput) : Prop :=
  l.positionQty ≠ 0 → cost.chargesFunding = true →
    ∀ m ∈ stepMoments cost l.lastOpen inp.bar.openTimeNs,
    ∀ last, (stepMoments cost l.lastOpen inp.bar.openTimeNs).getLast? = some last →
      recordedRate cfg series inp.closeNs m = usedRate cfg series inp.closeNs last

/-- A step with at most one moment of funding has one rate, unless a zero is configured. -/
theorem OneRate.of_single {inp : StepInput} (hrate : cfg.fundingFallback ≠ 0)
    (hmatch : cfg.fundingMatchNs ≠ 0)
    (h : (stepMoments cost l.lastOpen inp.bar.openTimeNs).length ≤ 1) :
    OneRate cost cfg series l inp := by
  intro _ _ m hm last hlast
  rw [usedRate_eq hrate hmatch]
  have hlast := List.mem_of_getLast? hlast
  generalize stepMoments cost l.lastOpen inp.bar.openTimeNs = ms at h hm hlast
  obtain _ | ⟨x, _ | _⟩ := ms
  · cases hm
  · rw [List.mem_singleton.mp hm, List.mem_singleton.mp hlast]
  · simp at h

/-- The charges of a step carry their own rates. -/
def OwnRates (cfg : LoopCfg) (series : List (ℤ × Decimal)) (inp : StepInput) (r : StepResult) :
    Prop := ∀ ch ∈ r.funding, ch.rate = recordedRate cfg series inp.closeNs ch.tsNs

/-- A step charges each of its moments its own rate just when there is one rate for them all. -/
theorem StepCharges.ownRates_iff {inp : StepInput} {r : StepResult}
    (h : StepCharges cost cfg series l inp r) :
    OwnRates cfg series inp r ↔ OneRate cost cfg series l inp := by
  constructor
  · -- every moment has its charge, and the charge the rate that was found for the last one
    intro hown hpos hcharges m hm last hlast
    have htimes := h.times
    rw [if_pos ⟨hpos, hcharges⟩] at htimes
    rw [← htimes] at hm
    obtain ⟨ch, hch, rfl⟩ := List.mem_map.mp hm
    exact (hown ch hch).symm.trans (h.rates ch hch last hlast)
  · intro hone ch hch
    have htime : ch.tsNs ∈ r.funding.map FundingCharge.tsNs := List.mem_map_of_mem hch
    rw [h.times] at htime
    split at htime
    · rename_i hcharges
      obtain ⟨last, hlast⟩ := Option.isSome_iff_exists.mp
        (List.getLast?_isSome.mpr (List.ne_nil_of_mem htime))
      exact (h.rates ch hch last hlast).trans
        (hone hcharges.1 hcharges.2 _ htime last hlast).symm
    · cases htime

/-! ### Whole runs -/

/-- The input and the result of a call that was a step. -/
def stepOf (e : LoopEntry) : Option (StepInput × StepResult) :=
  match e.call, e.answer with
  | .step inp, .stepped r => some (inp, r)
  | _, _ => none

/-- The series is set before the run and not again. -/
def KeepsSeries (log : LoopLog) : Prop := ∀ e ∈ log, ∀ s, e.call ≠ .setFundingSeries s

/-- An entry of the log that is a step is a call of it with its answer. -/
theorem stepOf_eq_some {e : LoopEntry} {inp : StepInput} {r : StepResult}
    (h : stepOf e = some (inp, r)) : e.call = .step inp ∧ e.answer = .stepped r := by
  unfold stepOf at h
  split at h
  · rename_i hcall hanswer
    cases h
    exact ⟨hcall, hanswer⟩
  · cases h

/-- A new loop awaits its first bar. -/
theorem Awaits.new {instrument : Instrument} {riskCfg : RiskConfig} {clock : ManualClock}
    {ids : IdGenerator} {equity : NonNegDec} (hnew : TradingLoop.new instrument cfg riskCfg clock
      ids cost equity = .ok l) (series : List (ℤ × Decimal)) :
    Awaits cost cfg series (l.setFundingSeries series) := by
  obtain ⟨st, hrep, hlast⟩ := Represents.new hnew
  have hfollows : Follows (l.setFundingSeries series) .flat := ⟨⟨st, { hrep with }, hlast⟩, .flat⟩
  obtain ⟨broker, hset, hnew⟩ := bind_eq_ok.mp hnew
  cases hnew
  have hkeeps := KeepsTime.setFundingRate hset
  exact {
    follows := ⟨.flat, hfollows⟩
    schedule := hkeeps.schedule
    sameCfg := rfl
    sameSeries := rfl
    drained := hkeeps.funding
    opened := by
      intro last hlast
      cases hlast
    passed := by
      intro e he
      have hptr : (if series = [] then 0 else 0) = 0 := ite_self 0
      change e ∈ series.take (if series = [] then 0 else 0) at he
      rw [hptr] at he
      cases he
    fallback := fun _ st' hst' => setFundingRate_rate hset hst' }

/-- **The rates of a run.**  A run charges every moment of funding its own recorded rate exactly
    when every step that charges at all finds, for the last of its moments, the recorded rate of
    each of them. -/
theorem funding_rate {instrument : Instrument} {riskCfg : RiskConfig} {clock : ManualClock}
    {ids : IdGenerator} {equity : NonNegDec} {l₀ : TradingLoop} {log : LoopLog}
    (hnew : TradingLoop.new instrument cfg riskCfg clock ids cost equity = .ok l₀)
    (hs : SeriesSorted series) (hrun : Run LoopStep (l₀.setFundingSeries series) l log)
    (hkeeps : KeepsSeries log) :
    (∀ e ∈ log, ∀ inp r, stepOf e = some (inp, r) → OwnRates cfg series inp r) ↔
      ∀ e ∈ log, ∀ inp r, stepOf e = some (inp, r) → OneRate cost cfg series e.before inp := by
  -- the run up to each of its calls awaits the next bar
  have hawaits : ∀ l' pre, Run LoopStep (l₀.setFundingSeries series) l' pre → KeepsSeries pre →
      Awaits cost cfg series l' := by
    intro l' pre hpre
    induction hpre with
    | nil => exact fun _ => .new hnew series
    | snoc hpre hcall ih =>
      intro hk
      have hbefore := ih fun e he => hk e (List.mem_append_left _ he)
      exact hbefore.call hs (hk _ (List.mem_append_right _ (List.mem_singleton_self _))) hcall
  have hiff : ∀ e ∈ log, ∀ inp r, stepOf e = some (inp, r) →
      (OwnRates cfg series inp r ↔ OneRate cost cfg series e.before inp) := by
    intro e he inp r hstep
    obtain ⟨pre, post, hlog⟩ := List.append_of_mem he
    obtain ⟨hpre, hcall⟩ := hrun.before_entry hlog
    have hk : KeepsSeries pre := fun x hx => hkeeps x (hlog ▸ List.mem_append_left _ hx)
    obtain ⟨hc, ha⟩ := stepOf_eq_some hstep
    rw [LoopStep, hc, ha] at hcall
    obtain ⟨⟨r', l'⟩, hstep', hcall⟩ := bind_eq_ok.mp hcall
    cases hcall
    exact ((hawaits _ pre hpre hk).step hs hstep').1.ownRates_iff
  exact forall₂_congr fun e he => forall₂_congr fun inp r => forall_congr' (hiff e he inp r)

end

/-! ### A night without bars -/

/-- The sample loop with costs that charge funding. -/
def fundedLoop : Except PyError TradingLoop :=
  TradingLoop.new sampleInstrument sampleLoopCfg .default ⟨0⟩ evenIds fullCost
    ⟨10000, tenThousand_nonneg_rat⟩

/-- A record a little after each of two moments. -/
def sampleSeries : List (ℤ × Decimal) :=
  [(8 * nsPerHour + 2, 1 / 1000), (16 * nsPerHour + 2, 2 / 1000)]

/-- The records of the sample are in the order of time. -/
theorem sampleSeries_sorted : SeriesSorted sampleSeries := by
  simp [SeriesSorted, sampleSeries, nsPerHour]

/-- A long, and a bar at each moment of funding. -/
def hourlyCalls : List LoopCall :=
  [sampleStep 1, sampleStep 11, sampleStep (8 * nsPerHour), sampleStep (16 * nsPerHour)]

/-- A long, and a gap over both moments. -/
def gapCalls : List LoopCall := [sampleStep 1, sampleStep 11, sampleStep (16 * nsPerHour)]

/-- The calls of a run on the sample series, seen to end with a given property. -/
theorem fundedRun_any (calls : List LoopCall) (p : TradingLoop × LoopLog → Bool)
    (h : (fundedLoop.bind fun l₀ =>
      execE TradingLoop.call (l₀.setFundingSeries sampleSeries) calls).toOption.any p = true) :
    ∃ l₀ l log, fundedLoop = .ok l₀ ∧
      execE TradingLoop.call (l₀.setFundingSeries sampleSeries) calls = .ok (l, log) ∧
      p (l, log) = true := by
  cases hnew : fundedLoop with
  | error e =>
    rw [hnew] at h
    cases h
  | ok l₀ =>
    rw [hnew] at h
    obtain ⟨l, log, hexec, hp⟩ := execE_any TradingLoop.call _ _ p h
    exact ⟨l₀, l, log, rfl, hexec, hp⟩

/-- Whether a step charges its own rates can be computed. -/
instance (cfg : LoopCfg) (series : List (ℤ × Decimal)) (inp : StepInput) (r : StepResult) :
    Decidable (OwnRates cfg series inp r) :=
  inferInstanceAs (Decidable (∀ ch ∈ r.funding, _))

/-- **The gap**: both moments are charged the record of the second. -/
theorem funding_rate_gap : ∃ (l₀ l : TradingLoop) (log : LoopLog),
    fundedLoop = .ok l₀ ∧ SeriesSorted sampleSeries ∧
    execE TradingLoop.call (l₀.setFundingSeries sampleSeries) gapCalls = .ok (l, log) ∧
    ∃ e ∈ log, ∃ inp r, stepOf e = some (inp, r) ∧ ¬OwnRates sampleLoopCfg sampleSeries inp r := by
  obtain ⟨l₀, l, log, hnew, hexec, hp⟩ := fundedRun_any gapCalls
    (fun run => run.2.any fun e => (stepOf e).any fun x =>
      !decide (OwnRates sampleLoopCfg sampleSeries x.1 x.2)) (by decide +kernel)
  rw [List.any_eq_true] at hp
  obtain ⟨e, he, hp⟩ := hp
  rw [Option.any_eq_true] at hp
  obtain ⟨⟨inp, r⟩, hstep, hp⟩ := hp
  refine ⟨l₀, l, log, hnew, sampleSeries_sorted, hexec, e, he, inp, r, hstep, ?_⟩
  simpa using hp

/-- A bar at each moment: every charge has its own rate. -/
theorem funding_rate_sample : ∃ (l₀ l : TradingLoop) (log : LoopLog),
    fundedLoop = .ok l₀ ∧
    execE TradingLoop.call (l₀.setFundingSeries sampleSeries) hourlyCalls = .ok (l, log) ∧
    (log.steps.flatMap StepResult.funding).map FundingCharge.rate = [1 / 1000, 2 / 1000] ∧
    ∀ e ∈ log, ∀ inp r, stepOf e = some (inp, r) → OwnRates sampleLoopCfg sampleSeries inp r := by
  obtain ⟨l₀, l, log, hnew, hexec, hp⟩ := fundedRun_any hourlyCalls
    (fun run => decide ((run.2.steps.flatMap StepResult.funding).map FundingCharge.rate =
        [1 / 1000, 2 / 1000]) &&
      run.2.all fun e => (stepOf e).all fun x =>
        decide ((stepMoments fullCost e.before.lastOpen x.1.bar.openTimeNs).length ≤ 1))
    (by decide +kernel)
  rw [Bool.and_eq_true, decide_eq_true_iff, List.all_eq_true] at hp
  obtain ⟨hrates, hsingle⟩ := hp
  have hkeeps : KeepsSeries log := by
    intro e he s hs
    have hmem : e.call ∈ hourlyCalls := calls_execE _ hexec ▸ List.mem_map_of_mem he
    simp [hs, hourlyCalls, sampleStep] at hmem
  refine ⟨l₀, l, log, hnew, hexec, hrates,
    (funding_rate hnew sampleSeries_sorted (Run.execE _ hexec) hkeeps).mpr ?_⟩
  -- each step spans one moment at most, so that there is one rate
  intro e he inp r hstep
  have hone := hsingle e he
  rw [hstep, Option.all_some, decide_eq_true_iff] at hone
  exact OneRate.of_single (by decide +kernel) (by decide) hone

end FuzzHelm
