import FuzzHelm.Backtest.Dataset
import FuzzHelm.Backtest.OtherFunding
import FuzzHelm.Decision.ConsensusLaws
import FuzzHelm.Lib.Literals

namespace FuzzHelm

open Lib

/-!
# A slice replays the prefix

A run of the loop over a dataset, bar after bar.  Walk-forward and grid runs work on slices, and
a slice keeps the rates of a fixed window of time, whatever window the loop matches them in.

* `Signals`, `RunSetup` — what a run is configured with;
* `RunSetup.firstSteps` — the first steps of a run over a dataset;
* `slice_replay` — a run over a slice replays the first steps of the run over the dataset just
  when the slice has kept the rates that these steps charge;
* `slice_replay_of_small` — it has when the rates are matched within a minute.
-/

/-- What a step reads besides its bar: the window of the detectors and the estimates. -/
structure BarView (W : Type) where
  window : W
  atr : Option ℚ
  sT : ℚ
  volRatio : Option ℚ
  volRatio_nonneg : ∀ v ∈ volRatio, 0 ≤ v

/-- The features and the estimate of volatility: a machine that is given one bar after the
    other. -/
structure Signals (W : Type) where
  State : Type
  init : State
  update : State → Bar ℚ → BarView W × State

/-- What a run is configured with. -/
structure RunSetup (W : Type) where
  cfg : LoopCfg
  riskCfg : RiskConfig
  clock : ManualClock
  ids : IdGenerator
  cost : CostModel
  initialEquity : NonNegDec
  core : DecisionCore W
  mode : RecordMode
  signals : Signals W

/-- The input of the step on a bar of the feed. -/
def FeedItem.input {W : Type} (item : FeedItem) (view : BarView W) : BarInput W where
  bar := item.decBar
  closeNs := item.closeNs
  dqScore := 1
  lastDataNs := none
  window := view.window
  atr := view.atr
  sT := view.sT
  volRatio := view.volRatio
  volRatio_nonneg := view.volRatio_nonneg

namespace RunSetup

variable {W : Type} (s : RunSetup W)

/-- The settings of the loop, with the recording level of the run. -/
def loopCfg : LoopCfg := { s.cfg with recordAll := s.mode.isAll }

/-- The loop of a run, before its first bar. -/
def loop (ds : Dataset) : Except PyError TradingLoop := do
  let l ← TradingLoop.new ds.instrument s.loopCfg s.riskCfg s.clock s.ids s.cost s.initialEquity
  return l.setFundingSeries ds.series

/-- One bar of the feed. -/
def step (x : TradingLoop × s.signals.State) (item : FeedItem) :
    Except PyError (RecordedResult × TradingLoop × s.signals.State) := do
  let (view, signals) := s.signals.update x.2 item.bar
  let (r, l) ← TradingLoop.recordedStep s.core s.mode x.1 (item.input view)
  return (r, l, signals)

/-- The log of a session. -/
abbrev Log := List (Entry (TradingLoop × s.signals.State) FeedItem RecordedResult)

/-- **The first `k` steps** of `run_backtest`. -/
def firstSteps (ds : Dataset) (k : ℕ) :
    Except PyError ((TradingLoop × s.signals.State) × s.Log) := do
  let l ← s.loop ds
  execE s.step (l, s.signals.init) (ds.feed.take k)

/-- **The slice keeps the rate** of a step: where there is a position to charge, the last moment
    of funding has the same rate by the records of the slice as by all. -/
def KeepsRate (ds part : Dataset) (l : TradingLoop) (item : FeedItem) : Prop :=
  SameRate s.cost s.cfg ds.series part.series l item.decBar item.closeNs

/-- The loops of a run over the dataset and of one over a slice: in step, with the same state of
    the detectors. -/
def Lockstep (ds part : Dataset) (x x' : TradingLoop × s.signals.State) : Prop :=
  InStep s.cost s.loopCfg ds.series part.series x.1 x'.1 ∧ x'.2 = x.2

/-- The run over a slice gives the answers of a log. -/
def Replays (part : Dataset) (log : s.Log) : Prop :=
  ∃ m log', s.firstSteps part log.length = .ok (m, log') ∧
    log'.map Entry.answer = log.map Entry.answer

variable {s} {ds part : Dataset} {k : ℤ} {j : ℕ} {m : TradingLoop × s.signals.State}
  {log : s.Log}

/-- A step of the session is an update of the signals and a step of the loop with what they read. -/
theorem step_eq_ok {x x' : TradingLoop × s.signals.State} {item : FeedItem} {r : RecordedResult} :
    s.step x item = .ok (r, x') ↔
      x'.2 = (s.signals.update x.2 item.bar).2 ∧
      TradingLoop.recordedStep s.core s.mode x.1
        (item.input (s.signals.update x.2 item.bar).1) = .ok (r, x'.1) := by
  obtain ⟨l', signals'⟩ := x'
  rw [step, bind_eq_ok]
  constructor
  · rintro ⟨⟨r', l''⟩, hstep, heq⟩
    cases heq
    exact ⟨rfl, hstep⟩
  · rintro ⟨hsignals, hstep⟩
    dsimp only at hsignals
    subst hsignals
    exact ⟨_, hstep, rfl⟩

end RunSetup

/-! ### The rates that a slice keeps -/

section Replay

variable {W : Type} (s : RunSetup W) {ds part : Dataset} {k : ℤ} {j : ℕ}
  {m : TradingLoop × s.signals.State} {log : s.Log}

/-- The records in the order of time. -/
theorem Dataset.series_sorted (ds : Dataset) : SeriesSorted ds.series :=
  ds.series_increasing.imp fun h => h.le

/-- The first bars of a slice are those of the dataset. -/
theorem Dataset.feed_take (hslice : ds.slice 0 k = .ok part) (hj : j ≤ k) :
    part.feed.take j = ds.feed.take j := by
  rw [Dataset.slice_feed hslice, Int.toNat_zero, List.drop_zero, List.take_take]
  congr 1
  omega

/-- **A slice replays the first steps** of the run over the dataset just when it keeps the rate
    of each of them. -/
theorem slice_replay (hslice : ds.slice 0 k = .ok part) (hj : j ≤ k)
    (hrun : s.firstSteps ds j = .ok (m, log)) :
    s.Replays part log ↔ ∀ e ∈ log, s.KeepsRate ds part e.before.1 e.call := by
  obtain ⟨l, hl, hexec⟩ := bind_eq_ok.mp hrun
  obtain ⟨l₀, hnew, hl⟩ := bind_eq_ok.mp hl
  cases hl
  obtain ⟨-, -, hk, hinst, -, -, -⟩ := Dataset.slice_eq_ok hslice
  have hlength : log.length = j := by
    have hcalls := congrArg List.length (calls_execE _ hexec)
    rw [List.length_map, List.length_take, Dataset.feed, List.length_map] at hcalls
    omega
  have hfeed := Dataset.feed_take hslice hj
  have hnil : ds.series = [] → part.series = [] := by
    intro h
    rw [Dataset.slice_series hslice, h]
    rfl
  have hpart : s.loop part = .ok (l₀.setFundingSeries part.series) := by
    rw [RunSetup.loop, hinst, hnew]
    rfl
  have hreplays : s.Replays part log ↔ ∃ m' log',
      execE s.step (l₀.setFundingSeries part.series, s.signals.init) (ds.feed.take j) =
        .ok (m', log') ∧ log'.map Entry.answer = log.map Entry.answer := by
    rw [RunSetup.Replays, hlength, RunSetup.firstSteps, hpart, hfeed]
    rfl
  rw [hreplays]
  -- both loops begin alike but for their series, and go on in lockstep
  have hstart : s.Lockstep ds part (l₀.setFundingSeries ds.series, s.signals.init)
      (l₀.setFundingSeries part.series, s.signals.init) := ⟨.new hnew _ _, rfl⟩
  refine execE_lockstep (C := fun x item => s.KeepsRate ds part x.1 item) ?_ ?_ hstart hexec
  · rintro ⟨l, signals⟩ ⟨l', _⟩ item r ⟨l₂, signals₂⟩ ⟨hin, rfl⟩ hstep
    obtain ⟨hsignals, hstep⟩ := RunSetup.step_eq_ok.mp hstep
    constructor
    · rintro ⟨⟨l₂', signals₂'⟩, hstep'⟩
      obtain ⟨-, hstep'⟩ := RunSetup.step_eq_ok.mp hstep'
      exact hin.sameRate ds.series_sorted part.series_sorted hstep hstep'
    · intro hkeeps
      obtain ⟨l₂', hstep', -⟩ := hin.same ds.series_sorted part.series_sorted hnil hstep hkeeps
      exact ⟨(l₂', signals₂), RunSetup.step_eq_ok.mpr ⟨hsignals, hstep'⟩⟩
  · rintro ⟨l, signals⟩ ⟨l', _⟩ item r ⟨l₂, signals₂⟩ ⟨l₂', signals₂'⟩ ⟨hin, rfl⟩ hstep hstep'
    obtain ⟨hsignals, hstep⟩ := RunSetup.step_eq_ok.mp hstep
    obtain ⟨hsignals', hstep'⟩ := RunSetup.step_eq_ok.mp hstep'
    have hkeeps := hin.sameRate ds.series_sorted part.series_sorted hstep hstep'
    obtain ⟨l₃, hstep₃, hin₃⟩ := hin.same ds.series_sorted part.series_sorted hnil hstep hkeeps
    rw [hstep₃] at hstep'
    cases hstep'
    exact ⟨hin₃, hsignals'.trans hsignals.symm⟩

/-! ### Small windows -/

/-- Records outside the window of a moment do not matter to its rate. -/
theorem usedRate_filter {cfg : LoopCfg} {series : List (ℤ × Decimal)} {closeNs m : ℤ}
    {p : ℤ × Decimal → Bool} (h : ∀ e ∈ series, m - cfg.matchNs < e.1 →
      e.1 ≤ m + cfg.matchNs → e.1 ≤ closeNs → p e = true) :
    usedRate cfg (series.filter p) closeNs m = usedRate cfg series closeNs m := by
  rw [usedRate_elim, usedRate_elim, List.filter_filter]
  congr 2
  apply List.filter_congr
  intro e he
  rw [Bool.and_eq_left_iff_imp, decide_eq_true_iff]
  exact fun hwindow => h e he hwindow.1 hwindow.2.1 hwindow.2.2

/-- The last open of a run is that of one of its bars. -/
theorem RunSetup.lastOpen_mem (hrun : s.firstSteps ds j = .ok (m, log)) {e} (he : e ∈ log) {t : ℤ}
    (ht : e.before.1.lastOpen = some t) : ∃ item ∈ ds.feed.take j, item.decBar.openTimeNs = t := by
  obtain ⟨l, hl, hexec⟩ := bind_eq_ok.mp hrun
  obtain ⟨l₀, hnew, hl⟩ := bind_eq_ok.mp hl
  cases hl
  obtain ⟨pre, post, hlog⟩ := List.append_of_mem he
  obtain ⟨hpre, -⟩ := (Run.execE _ hexec).before_entry hlog
  -- the last open is that of a bar that was stepped
  have hinv : ∀ t, e.before.1.lastOpen = some t →
      ∃ item ∈ pre.map Entry.call, item.decBar.openTimeNs = t := by
    refine hpre.invariant (fun x log => ∀ t, x.1.lastOpen = some t →
      ∃ item ∈ log.map Entry.call, item.decBar.openTimeNs = t) ?_ ?_
    · intro t ht
      obtain ⟨broker, -, hnew⟩ := bind_eq_ok.mp hnew
      cases hnew
      cases ht
    · rintro x log item r x' - hstep t ht
      obtain ⟨-, hstep⟩ := RunSetup.step_eq_ok.mp hstep
      obtain ⟨numbers, hloop, -⟩ := TradingLoop.recordedStep_step hstep
      obtain ⟨-, -, -, -, l₁, l₂, broker, -, -, -, -, -, -, -, -, hlast, -⟩ :=
        TradingLoop.step_eq_ok hloop
      rw [hlast] at ht
      cases ht
      exact ⟨item, by simp, rfl⟩
  obtain ⟨item, hitem, hopen⟩ := hinv t ht
  refine ⟨item, ?_, hopen⟩
  rw [← calls_execE _ hexec, hlog, List.map_append]
  exact List.mem_append_left _ hitem

/-- **A slice keeps the rates that are matched within a minute**, and those that are matched
    within a day where the bars are minutes. -/
theorem keepsRate_of_small (hday : s.cfg.matchNs ≤ nsPerDay)
    (hsmall : s.cfg.matchNs ≤ nsPerMin ∨ ds.tf = .m1)
    (hslice : ds.slice 0 k = .ok part) (hj : j ≤ k) (hrun : s.firstSteps ds j = .ok (m, log)) :
    ∀ e ∈ log, s.KeepsRate ds part e.before.1 e.call := by
  intro e he _ _ moment hmoment
  obtain ⟨t, ht, hlow, hhigh⟩ := stepMoments_range (List.mem_of_getLast? hmoment)
  obtain ⟨-, -, -, hinst, htf, -, -⟩ := Dataset.slice_eq_ok hslice
  have hbar : ∀ item ∈ ds.feed.take j, ∃ bar ∈ part.bars, item.decBar.openTimeNs = bar.tNs ∧
      item.closeNs = bar.tNs + ds.tf.ns - nsPerMs := by
    intro item hitem
    rw [← Dataset.feed_take hslice hj] at hitem
    obtain ⟨bar, hbar, rfl⟩ := List.mem_map.mp (List.mem_of_mem_take hitem)
    exact ⟨bar, hbar, rfl, by rw [← htf]; rfl⟩
  -- the last open and the bar of the step are bars of the slice
  obtain ⟨item, hitem, hopen⟩ := RunSetup.lastOpen_mem s hrun he ht
  obtain ⟨before, hbefore, hbeforeNs, -⟩ := hbar item hitem
  obtain ⟨l, -, hexec⟩ := bind_eq_ok.mp hrun
  obtain ⟨bar, hbarMem, hbarNs, hcloseNs⟩ := hbar e.call
    (calls_execE _ hexec ▸ List.mem_map_of_mem he)
  obtain ⟨first, hfirst⟩ := Option.isSome_iff_exists.mp
    (List.isSome_head?.mpr (List.ne_nil_of_mem hbefore))
  obtain ⟨last, hlast⟩ := Option.isSome_iff_exists.mp
    (List.getLast?_isSome.mpr (List.ne_nil_of_mem hbefore))
  have hfirstLe := Dataset.head_le part.increasing hfirst hbefore
  have hlastLe := Dataset.le_getLast part.increasing hlast hbarMem
  rw [Dataset.slice_series hslice]
  apply usedRate_filter
  intro record _ hafter hbeyond hclose
  refine Dataset.keepsFunding_iff.mpr ⟨first, last, hfirst, hlast, ?_, ?_⟩
  · rw [nsPerDay] at hday
    omega
  · rcases hsmall with hsmall | hsmall
    · omega
    · rw [hcloseNs, hsmall] at hclose
      simp only [DatasetTf.ns, nsPerMs] at hclose
      omega

end Replay

/-! ### A record two minutes after its moment -/

/-- A bar around 100. -/
def flatBar (minute : ℤ) : Bar ℚ := ⟨minute * nsPerMin, 100, 101, 99, 100, 7, 0, 0⟩

/-- Four bars of five minutes around eight o'clock, and one record of funding. -/
def fundedDataset (stampNs : ℤ) : Dataset where
  instrument := sampleInstrument
  tf := .m5
  bars := [flatBar 470, flatBar 475, flatBar 480, flatBar 485]
  funding := some [(stampNs, 1 / 1000)]
  increasing := by simp [flatBar, nsPerMin, nsPerSec]
  priced := by simp [flatBar]
  ordered := by norm_num [flatBar]
  volumes := by simp [flatBar]
  funding_increasing := by simp

/-- A run that goes long, with rates that are matched within `matchNs`. -/
def fundedSetup (matchNs : ℤ) : RunSetup Unit where
  cfg := { sampleLoopCfg with fundingMatchNs := matchNs }
  riskCfg := .default
  clock := ⟨0⟩
  ids := evenIds
  cost := fullCost
  initialEquity := ⟨10000, tenThousand_nonneg_rat⟩
  core := silentCore 1 one_mem_unit_rat
  mode := .none
  signals := {
    State := Unit
    init := ()
    update := fun _ _ => (⟨(), some 1, 1, some 1, nonneg_of_mem_some_one_rat⟩, ()) }

/-- The rates that the steps of a log charge. -/
def chargedRates {W : Type} {s : RunSetup W} (log : s.Log) : List (List ℚ) :=
  (log.map Entry.answer).map fun r => r.result.funding.map FundingCharge.rate

/-- The first three steps of a run, seen to charge some rates. -/
theorem firstSteps_rates (s : RunSetup Unit) (ds : Dataset) (rates : List (List ℚ))
    (h : (s.firstSteps ds 3).toOption.any (fun r => decide (chargedRates r.2 = rates)) = true) :
    ∃ m log, s.firstSteps ds 3 = .ok (m, log) ∧ chargedRates log = rates := by
  cases hrun : s.firstSteps ds 3 with
  | error e =>
    rw [hrun] at h
    cases h
  | ok r =>
    rw [hrun] at h
    exact ⟨r.1, r.2, rfl, of_decide_eq_true h⟩

/-- The three bars up to eight o'clock. -/
theorem slice_three (stampNs : ℤ) : ∃ part, (fundedDataset stampNs).slice 0 3 = .ok part :=
  ⟨_, rfl⟩

/-- **A rate is lost.**  It was recorded two minutes after the moment of funding, within the
    match window and before the bar closes, and after the window of the slice. -/
theorem sliced_rate_lost : ¬∀ (s : RunSetup Unit) (ds part : Dataset) (k : ℕ)
    (m : TradingLoop × s.signals.State) (log : s.Log), ds.slice 0 k = .ok part →
      s.firstSteps ds k = .ok (m, log) → s.Replays part log := by
  intro h
  obtain ⟨m, log, hrun, hrates⟩ := firstSteps_rates (fundedSetup (5 * nsPerMin))
    (fundedDataset (482 * nsPerMin)) [[], [], [1 / 1000]] (by decide +kernel)
  obtain ⟨part, hpart⟩ := slice_three (482 * nsPerMin)
  have hslice : ((fundedDataset (482 * nsPerMin)).slice 0 3).toOption.any (fun part =>
      ((fundedSetup (5 * nsPerMin)).firstSteps part 3).toOption.any fun r =>
        decide (chargedRates r.2 = [[], [], [1 / 10000]])) = true := by decide +kernel
  rw [hpart] at hslice
  obtain ⟨m₁, log₁, hrun₁, hrates₁⟩ := firstSteps_rates _ part _ hslice
  obtain ⟨m₂, log₂, hrun₂, hanswers⟩ := h _ _ part 3 m log hpart hrun
  have hlength : log.length = 3 := by
    simpa [chargedRates] using congrArg List.length hrates
  rw [hlength, hrun₁] at hrun₂
  cases hrun₂
  have hequal : chargedRates log₁ = chargedRates log :=
    congrArg (List.map fun r : RecordedResult => r.result.funding.map FundingCharge.rate) hanswers
  rw [hrates, hrates₁] at hequal
  exact absurd hequal (by decide +kernel)

/-- A record right after its moment, with rates that are matched within a minute. -/
theorem slice_replay_minute : ∃ (part : Dataset)
    (m : TradingLoop × (fundedSetup nsPerMin).signals.State) (log : (fundedSetup nsPerMin).Log),
    (fundedDataset (480 * nsPerMin + 4)).slice 0 3 = .ok part ∧
      (fundedSetup nsPerMin).firstSteps (fundedDataset (480 * nsPerMin + 4)) 3 = .ok (m, log) ∧
      chargedRates log = [[], [], [1 / 1000]] ∧ (fundedSetup nsPerMin).Replays part log := by
  obtain ⟨m, log, hrun, hrates⟩ := firstSteps_rates (fundedSetup nsPerMin)
    (fundedDataset (480 * nsPerMin + 4)) [[], [], [1 / 1000]] (by decide +kernel)
  obtain ⟨part, hpart⟩ := slice_three (480 * nsPerMin + 4)
  have hkeeps := keepsRate_of_small (fundedSetup nsPerMin) (by decide) (.inl (le_refl _)) hpart
    (j := 3) (le_refl _) hrun
  exact ⟨part, m, log, hpart, hrun, hrates,
    (slice_replay (fundedSetup nsPerMin) hpart (j := 3) (le_refl _) hrun).mpr hkeeps⟩

end FuzzHelm
