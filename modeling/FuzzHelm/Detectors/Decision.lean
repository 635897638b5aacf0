import FuzzHelm.Decision.ConsensusLaws
import FuzzHelm.Decision.Core
import FuzzHelm.Detectors.Ensemble
import FuzzHelm.Features.Warmup

namespace FuzzHelm

open Lib

/-!
# From the bars to a decision

The ensemble of a configuration over the features of any history, and the decision core over the
ensemble.

* `pipeline_of_config` — every configuration that is accepted has its pipeline;
* `ensemble_exact` — no detector ever fails, and each is heard from the bar of its warm-up on;
* `decision_total` — the core decides at every bar of every history, within its bounds; a group
  whose detectors are all cold says nothing, and `V` is the rank from its warm-up on.
-/

/-! ### What a configuration builds -/

/-- The periods of a checked configuration are accepted by every indicator. -/
theorem pipeline_of_config (cfg : DetectorsConfig) :
    ∃ fp, FeaturePipeline.new cfg.featureParams = .ok fp := by
  obtain ⟨hema, -, hdonchian, hrsi, -, hrank, hvol, hvolRank, hatr⟩ := cfg.periods_pos
  obtain ⟨hr2, hbb, hvolume⟩ := cfg.windows_two
  unfold FeaturePipeline.new
  refine exists_ok_bind ⟨_, if_pos hema⟩ fun _ => exists_ok_bind ⟨_, dif_pos hr2⟩ fun _ => ?_
  refine exists_ok_bind ⟨_, if_pos hatr⟩ fun _ => exists_ok_bind ⟨_, if_pos hrsi⟩ fun _ => ?_
  refine exists_ok_bind ⟨_, dif_pos (Nat.le_of_succ_le hbb)⟩ fun _ => ?_
  refine exists_ok_bind ⟨_, if_pos hrank⟩ fun _ => exists_ok_bind ⟨_, if_pos hdonchian⟩ fun _ => ?_
  refine exists_ok_bind ⟨_, if_pos hdonchian⟩ fun _ => exists_ok_bind ⟨_, dif_pos hvol⟩ fun _ => ?_
  refine exists_ok_bind ⟨_, if_pos hvolRank⟩ fun _ => ?_
  exact exists_ok_bind ⟨_, dif_pos (Nat.le_of_succ_le hvolume)⟩ fun _ => ⟨_, rfl⟩

/-- The detectors of a configuration. -/
def detectorsOf (m : FloatFunctions) (cfg : DetectorsConfig) : List Detector :=
  let fp := cfg.featureParams
  let slopeWarmup := max (max (fp.warmupOf .emaLag) (fp.warmupOf .emaR2)) (fp.warmupOf .atr)
  [(⟨cfg.emaWeight, cfg.emaHorizon, cfg.emaScale, slopeWarmup⟩ : EmaSlope).detector m,
    (Donchian.new cfg.donchianWeight cfg.donchianDecay fp).detector m,
    (RsiExhaustion.new cfg.rsiWeight cfg.rsiPower fp).detector m,
    (BollingerZ.new cfg.bbWeight cfg.bbZScale fp).detector m,
    (CandleGeometry.new cfg.candleWeight cfg.candlePin cfg.candleEngulf fp).detector m,
    (VolRegime.new cfg.volWeight fp).detector m]

/-- The registry builds all six detectors: the horizon of the slope is the one the features have. -/
theorem buildDetectors_eq (m : FloatFunctions) (cfg : DetectorsConfig) :
    buildDetectors m cfg = .ok (detectorsOf m cfg) := by
  have hslope : EmaSlope.new cfg.emaWeight cfg.emaHorizon cfg.emaScale cfg.featureParams =
      .ok _ := if_neg (not_not.mpr rfl)
  rw [buildDetectors, hslope]
  rfl

/-- The detectors that a run keeps: all of them, or those of the names that it gives. -/
def keptDetectors (keep : Option (List String)) (ds : List Detector) : List Detector :=
  match keep with
  | none => ds
  | some names => ds.filter fun d => d.name ∈ names

/-- Leaving detectors out is a filter on the list, whatever names are given. -/
theorem keptDetectors_eq_filter (keep : Option (List String)) (ds : List Detector) :
    ∃ p, keptDetectors keep ds = ds.filter p := by
  cases keep with
  | none => exact ⟨fun _ => true, (List.filter_true ds).symm⟩
  | some names => exact ⟨_, rfl⟩

/-! ### The features of a history -/

/-- The window at the bar `b` after the bars `xs`. -/
def windowAt (fns : RealFunctions ℚ) (fp : FeaturePipeline ℚ) (xs : List (Bar ℚ)) (b : Bar ℚ) :
    DetectorWindow := ⟨((fp.after fns xs).update fns b).1, b, xs.getLast?⟩

section History

variable {m : FloatFunctions} {fns : RealFunctions ℚ} {cfg : DetectorsConfig}
  {fp : FeaturePipeline ℚ}

/-- The number of bars since a breakout never gets below zero: it is set to zero or counted on. -/
theorem breakout_nonneg {fp : FeaturePipeline ℚ} (h : ∀ age ∈ fp.brkBars, 0 ≤ age)
    (u d : Option ℚ) (c : ℚ) : ∀ age ∈ (fp.breakout u d c).2.2, 0 ≤ age := by
  intro age hage
  unfold FeaturePipeline.breakout at hage
  split at hage
  · split_ifs at hage
    · cases hage
      exact le_rfl
    · cases hage
      exact le_rfl
    · obtain ⟨old, hold, rfl⟩ := Option.mem_map.mp hage
      exact add_nonneg (h old hold) zero_le_one
  · exact h age hage

/-- The bars since a breakout are never a negative number. -/
theorem brkBars_nonneg (hp : FeaturePipeline.new cfg.featureParams = .ok fp)
    (xs : List (Bar ℚ)) : ∀ age ∈ (fp.after fns xs).brkBars, 0 ≤ age := by
  induction xs using List.reverseRecOn with
  | nil =>
    have hnone : fp.brkBars = none := by
      unfold FeaturePipeline.new at hp
      repeat
        obtain ⟨_, -, hp⟩ := bind_eq_ok.mp hp
      cases hp
      rfl
    intro age hage
    rw [FeaturePipeline.after, List.foldl_nil, hnone] at hage
    cases hage
  | append_singleton xs b ih =>
    rw [FeaturePipeline.after, List.foldl_append]
    exact breakout_nonneg ih _ _ _

/-- The warm-up of a feature, at the bar `b` after the bars `xs`. -/
theorem feature_warm (fns : RealFunctions ℚ)
    (hp : FeaturePipeline.new cfg.featureParams = .ok fp) (xs : List (Bar ℚ))
    (b : Bar ℚ) {f : FeatureName} {n : ℕ} (hf : (f, n) ∈ cfg.featureParams.warmup) :
    ((windowAt fns fp xs b).feats.get f).isSome ↔ n ≤ xs.length + 1 :=
  (FeaturePipeline.Tracks.after fns hp xs).warm b hf

/-! ### Each detector of the ensemble -/

/-- **What a detector answers at a bar**: it is heard from the bar of its warm-up on, the channel
    from its first breakout on, and before that it says nothing. -/
structure AnswersAt (d : Detector) (w : DetectorWindow) (bars : ℕ) (o : DetectorOutput) :
    Prop where
  computes : d.compute w = .ok o
  name : o.name = d.name
  group : o.group = d.group
  weight : d.weight = .finite o.weight
  silent : o.measures = false → o.s = 0 ∧ o.c = 0
  warm : o.measures = true → d.warmup ≤ bars
  heard : d.name ≠ "donchian" → d.warmup ≤ bars → o.measures = true

/-- **What a detector does at a bar**: it answers, unless its weight is infinite. -/
structure ActsAt (d : Detector) (w : DetectorWindow) (bars : ℕ) : Prop where
  answers : d.weight ≠ .inf → ∃ o, AnswersAt d w bars o
  raises : d.weight = .inf → d.compute w = .error d.infiniteWeight

/-- A detector that is ready from the bar of its warm-up on. -/
theorem Says.at {d : Detector} {w : DetectorWindow} {ready : Prop} {bars : ℕ} {s c : ℚ}
    {features : List (String × Option ℚ)} (h : Says m d w ready s c features)
    (hweight : d.weight.Nonneg) (hwarm : ready → d.warmup ≤ bars)
    (hready : d.name ≠ "donchian" → d.warmup ≤ bars → ready) : ActsAt d w bars where
  answers hfinite := by
    obtain ⟨o, ho⟩ := h.answers hweight hfinite
    exact ⟨o, {
      computes := ho.computes
      name := ho.name
      group := ho.group
      weight := ho.weight
      silent := fun hno => ho.silent fun hyes => by
        rw [ho.measures.mpr hyes] at hno
        cases hno
      warm := fun hyes => hwarm (ho.measures.mp hyes)
      heard := fun hname hbars => ho.measures.mpr (hready hname hbars) }⟩
  raises hinf := h.raises hinf

section Ensemble

variable (hm : m.Lawful) (hp : FeaturePipeline.new cfg.featureParams = .ok fp)
  (xs : List (Bar ℚ)) (b : Bar ℚ)
include hm hp

/-- After its warm-up the slope has the average, its lag, the range and the fit, so it answers as
    ready. -/
theorem emaSlope_at : ActsAt (EmaSlope.detector m ⟨cfg.emaWeight, cfg.emaHorizon,
    cfg.emaScale, max (max (cfg.nEma + cfg.emaHorizon) (cfg.nEma + cfg.emaR2Points - 1))
      (cfg.nAtr + 1)⟩) (windowAt fns fp xs b) (xs.length + 1) := by
  -- each feature is there from its own number of bars on
  have hema := feature_warm fns hp xs b (f := .ema) (n := cfg.nEma)
    (by simp [FeatureParams.warmup, DetectorsConfig.featureParams])
  have hlag := feature_warm fns hp xs b (f := .emaLag) (n := cfg.nEma + cfg.emaHorizon)
    (by simp [FeatureParams.warmup, DetectorsConfig.featureParams])
  have hr2 := feature_warm fns hp xs b (f := .emaR2)
    (n := cfg.nEma + cfg.emaR2Points - 1)
    (by simp [FeatureParams.warmup, DetectorsConfig.featureParams])
  have hatr := feature_warm fns hp xs b (f := .atr) (n := cfg.nAtr + 1)
    (by simp [FeatureParams.warmup, DetectorsConfig.featureParams])
  simp only [Features.get] at hema hlag hr2 hatr
  obtain ⟨s, c, features, hsays⟩ := EmaSlope.says (w := windowAt fns fp xs b) hm
    ⟨cfg.emaWeight, cfg.emaHorizon, cfg.emaScale, max (max (cfg.nEma + cfg.emaHorizon)
      (cfg.nEma + cfg.emaR2Points - 1)) (cfg.nAtr + 1)⟩ cfg.scales_pos.1
  simp only [hema, hlag, hr2, hatr] at hsays
  refine hsays.at cfg.weights_nonneg.1 (fun hready => ?_) fun _ hle => ?_
  · show max (max _ _) _ ≤ _
    omega
  · have hle : max (max _ _) _ ≤ _ := hle
    omega

/-- After its warm-up the channel is there; before the first breakout the detector still answers
    silence. -/
theorem donchian_at : ActsAt ((Donchian.new cfg.donchianWeight cfg.donchianDecay
    cfg.featureParams).detector m) (windowAt fns fp xs b) (xs.length + 1) := by
  have hhi := feature_warm fns hp xs b (f := .donchHi) (n := cfg.donchianN + 1)
    (by simp [FeatureParams.warmup, DetectorsConfig.featureParams])
  have hatr := feature_warm fns hp xs b (f := .atr) (n := cfg.nAtr + 1)
    (by simp [FeatureParams.warmup, DetectorsConfig.featureParams])
  simp only [Features.get] at hhi hatr
  obtain ⟨s, c, features, hsays⟩ := Donchian.says (w := windowAt fns fp xs b) hm
    (Donchian.new cfg.donchianWeight cfg.donchianDecay cfg.featureParams)
    cfg.shares_nonneg.1 (by norm_num [Donchian.new])
    (by norm_num [Donchian.new]) (breakout_nonneg (brkBars_nonneg hp xs) _ _ _)
  refine hsays.at cfg.weights_nonneg.2.1 (fun hready => ?_) fun hname => absurd rfl hname
  obtain ⟨⟨hchannel, -, hrange⟩, -⟩ := hready
  exact max_le (hhi.mp hchannel) (hatr.mp hrange)

/-- After its warm-up the index, both changes and the range are there. -/
theorem rsi_at : ActsAt ((RsiExhaustion.new cfg.rsiWeight cfg.rsiPower
    cfg.featureParams).detector m) (windowAt fns fp xs b) (xs.length + 1) := by
  have hrsi := feature_warm fns hp xs b (f := .rsi) (n := cfg.nRsi + 1)
    (by simp [FeatureParams.warmup, DetectorsConfig.featureParams])
  have hdelta := feature_warm fns hp xs b (f := .rsiDelta)
    (n := cfg.nRsi + 1 + cfg.rsiDivLookback)
    (by simp [FeatureParams.warmup, DetectorsConfig.featureParams])
  have hclose := feature_warm fns hp xs b (f := .closeDelta)
    (n := cfg.rsiDivLookback + 1)
    (by simp [FeatureParams.warmup, DetectorsConfig.featureParams])
  have hatr := feature_warm fns hp xs b (f := .atr) (n := cfg.nAtr + 1)
    (by simp [FeatureParams.warmup, DetectorsConfig.featureParams])
  simp only [Features.get] at hrsi hdelta hclose hatr
  obtain ⟨s, c, features, hsays⟩ := RsiExhaustion.says (w := windowAt fns fp xs b) hm
    (RsiExhaustion.new cfg.rsiWeight cfg.rsiPower cfg.featureParams)
    cfg.scales_pos.2.1 (by norm_num [RsiExhaustion.new]) (by norm_num [RsiExhaustion.new])
    (by norm_num [RsiExhaustion.new]) (by norm_num [RsiExhaustion.new])
    (by norm_num [RsiExhaustion.new])
  simp only [hrsi, hdelta, hclose, hatr] at hsays
  refine hsays.at cfg.weights_nonneg.2.2.1 (fun hready => ?_) fun _ hle => ?_
  · show max (max (cfg.nRsi + 1 + cfg.rsiDivLookback) (cfg.rsiDivLookback + 1)) (cfg.nAtr + 1) ≤ _
    omega
  · have hle : max (max (cfg.nRsi + 1 + cfg.rsiDivLookback) (cfg.rsiDivLookback + 1))
      (cfg.nAtr + 1) ≤ xs.length + 1 := hle
    omega

/-- After its warm-up the rank of the width is there, and with it the mean and the deviation. -/
theorem bollinger_at : ActsAt ((BollingerZ.new cfg.bbWeight cfg.bbZScale
    cfg.featureParams).detector m) (windowAt fns fp xs b) (xs.length + 1) := by
  have hsma := feature_warm fns hp xs b (f := .sma) (n := cfg.bbN)
    (by simp [FeatureParams.warmup, DetectorsConfig.featureParams])
  have hsigma := feature_warm fns hp xs b (f := .sigma) (n := cfg.bbN)
    (by simp [FeatureParams.warmup, DetectorsConfig.featureParams])
  have hrank := feature_warm fns hp xs b (f := .bbBwRank)
    (n := cfg.bbN + cfg.bbRankWindow - 1)
    (by simp [FeatureParams.warmup, DetectorsConfig.featureParams])
  have hwindow := cfg.periods_pos.2.2.2.2.2.1
  simp only [Features.get] at hsma hsigma hrank
  obtain ⟨s, c, features, hsays⟩ := BollingerZ.says (w := windowAt fns fp xs b) hm
    (BollingerZ.new cfg.bbWeight cfg.bbZScale cfg.featureParams) cfg.scales_pos.2.2.2
  simp only [hsma, hsigma, hrank] at hsays
  refine hsays.at cfg.weights_nonneg.2.2.2.1 (fun hready => hready.2.2) fun _ hle => ?_
  have hle : cfg.bbN + cfg.bbRankWindow - 1 ≤ xs.length + 1 := hle
  omega

/-- After its warm-up the range and the channel are there, and the window has a bar before the last.
    -/
theorem candle_at : ActsAt ((CandleGeometry.new cfg.candleWeight cfg.candlePin
    cfg.candleEngulf cfg.featureParams).detector m) (windowAt fns fp xs b) (xs.length + 1) := by
  have hatr := feature_warm fns hp xs b (f := .atr) (n := cfg.nAtr + 1)
    (by simp [FeatureParams.warmup, DetectorsConfig.featureParams])
  have hhi := feature_warm fns hp xs b (f := .donchHi) (n := cfg.donchianN + 1)
    (by simp [FeatureParams.warmup, DetectorsConfig.featureParams])
  have hlo := feature_warm fns hp xs b (f := .donchLo) (n := cfg.donchianN + 1)
    (by simp [FeatureParams.warmup, DetectorsConfig.featureParams])
  have hprev : (windowAt fns fp xs b).prev.isSome ↔ 2 ≤ xs.length + 1 := by
    rw [windowAt, List.getLast?_isSome, ← List.length_pos_iff]
    omega
  simp only [Features.get] at hatr hhi hlo
  obtain ⟨s, c, features, hsays⟩ := CandleGeometry.says (w := windowAt fns fp xs b) hm
    (CandleGeometry.new cfg.candleWeight cfg.candlePin cfg.candleEngulf cfg.featureParams)
  simp only [hatr, hhi, hlo, hprev] at hsays
  refine hsays.at cfg.weights_nonneg.2.2.2.2.1 (fun hready => ?_) fun _ hle => ?_
  · show max (max (cfg.nAtr + 1) (cfg.donchianN + 1)) 2 ≤ _
    omega
  · have hle : max (max (cfg.nAtr + 1) (cfg.donchianN + 1)) 2 ≤ xs.length + 1 := hle
    omega

omit hm in
/-- After its warm-up the volatility has a rank. -/
theorem vol_at : ActsAt ((VolRegime.new cfg.volWeight cfg.featureParams).detector m)
    (windowAt fns fp xs b) (xs.length + 1) := by
  have hrank := feature_warm fns hp xs b (f := .volRank)
    (n := cfg.volWindow + cfg.volRankWindow - 1)
    (by simp [FeatureParams.warmup, DetectorsConfig.featureParams])
  simp only [Features.get] at hrank
  obtain ⟨s, c, features, hsays⟩ := VolRegime.says (m := m) (w := windowAt fns fp xs b)
    (VolRegime.new cfg.volWeight cfg.featureParams)
  exact hsays.at cfg.weights_nonneg.2.2.2.2.2 hrank.mp fun _ => hrank.mpr

/-- **The ensemble at a bar.** -/
theorem ensemble_acts : ∀ d ∈ detectorsOf m cfg,
    ActsAt d (windowAt fns fp xs b) (xs.length + 1) := by
  simp only [detectorsOf, List.forall_mem_cons, List.not_mem_nil, false_imp_iff, implies_true,
    and_true]
  exact ⟨emaSlope_at hm hp xs b, donchian_at hm hp xs b, rsi_at hm hp xs b,
    bollinger_at hm hp xs b, candle_at hm hp xs b, vol_at hp xs b⟩

omit hm in
/-- The context is warm where the rank of the volatility is. -/
theorem context_warm : ∀ d ∈ detectorsOf m cfg, d.group = .context →
    ((windowAt fns fp xs b).feats.volRank.isSome ↔ d.warmup ≤ xs.length + 1) := by
  intro d hd hcontext
  simp only [detectorsOf, List.mem_cons, List.not_mem_nil, or_false] at hd
  rcases hd with rfl | rfl | rfl | rfl | rfl | rfl
  case inr.inr.inr.inr.inr =>
    exact feature_warm fns hp xs b (f := .volRank)
      (n := cfg.volWindow + cfg.volRankWindow - 1)
      (by simp [FeatureParams.warmup, DetectorsConfig.featureParams])
  all_goals exact DetectorGroup.noConfusion hcontext

end Ensemble

end History

/-- Rational functions of the shape of the real ones. -/
def roughFunctions : FloatFunctions where
  tanh x := x / (1 + |x|)
  exp x := if x ≤ 0 then 1 / (1 - x) else 1 + x
  sqrt x := x
  pow x _ := x
  repr _ := ""

/-- The rough functions obey the laws that the detectors rely on. -/
theorem roughFunctions_lawful : roughFunctions.Lawful where
  tanh_mem x := by
    have hpos : 0 < 1 + |x| := by positivity
    refine ⟨(le_div_iff₀ hpos).mpr ?_, (div_le_one hpos).mpr ?_⟩
    · linarith [neg_abs_le x]
    · linarith [le_abs_self x]
  exp_nonneg x := by
    show 0 ≤ if x ≤ 0 then 1 / (1 - x) else 1 + x
    split_ifs with h
    · exact div_nonneg zero_le_one (by linarith)
    · linarith
  exp_le_one x h := by
    show (if x ≤ 0 then 1 / (1 - x) else 1 + x) ≤ 1
    rw [if_pos h]
    exact (div_le_one (by linarith)).mpr (by linarith)
  pow_mem x _ h0 h1 _ := ⟨h0, h1⟩

/-- The bars of a price that rises. -/
def risingBar (n : ℕ) : Bar ℚ := ⟨n, 100 + n, 102 + n, 99 + n, 101 + n, 1, 0, 0⟩

section Volatility

variable {m : FloatFunctions} {w : DetectorWindow} {o : DetectorOutput} {vDefault : ℚ}

/-- The rank of the volatility, as far as it is known. -/
def DetectorWindow.volatility (w : DetectorWindow) (vDefault : ℚ) : ℚ × String :=
  w.feats.volRank.elim (vDefault, V_SOURCE_DEFAULT) fun v => (min 1 (max 0 v), "vol_regime")

/-- The volatility that a window shows lies in [0, 1] when the default does. -/
theorem DetectorWindow.volatility_mem (h : 0 ≤ vDefault ∧ vDefault ≤ 1) :
    0 ≤ (w.volatility vDefault).1 ∧ (w.volatility vDefault).1 ≤ 1 := by
  rw [DetectorWindow.volatility]
  cases w.feats.volRank with
  | none => exact h
  | some v => exact ⟨le_min zero_le_one (le_max_left _ _), min_le_left _ _⟩

/-- What the regime of volatility answers carries exactly the volatility that the engine reads of
    it. -/
theorem VolRegime.volatility_eq {d : VolRegime} (h : d.compute m w = .ok o) :
    FuzzHelm.volatility [o] vDefault = .ok (w.volatility vDefault) := by
  unfold VolRegime.compute detectorOutput at h
  cases hrank : w.feats.volRank with
  | none =>
    rw [hrank] at h
    dsimp only at h
    split_ifs at h
    -- an infinite weight raises before anything is told
    cases hweight : d.weight with
    | inf =>
      rw [hweight] at h
      cases h
    | finite weight =>
      rw [hweight] at h
      dsimp only at h
      split_ifs at h
      cases h
      rw [DetectorWindow.volatility, hrank]
      simp [FuzzHelm.volatility, volatilityLoop, bind, Except.bind, pure, Except.pure]
  | some v =>
    have hv : 0 ≤ min 1 (max 0 v) ∧ min 1 (max 0 v) ≤ 1 :=
      ⟨le_min zero_le_one (le_max_left _ _), min_le_left _ _⟩
    rw [hrank] at h
    dsimp only at h
    split_ifs at h
    cases hweight : d.weight with
    | inf =>
      rw [hweight] at h
      cases h
    | finite weight =>
      rw [hweight] at h
      dsimp only at h
      split_ifs at h
      cases h
      rw [DetectorWindow.volatility, hrank]
      simp [FuzzHelm.volatility, volatilityLoop, bind, Except.bind, pure, Except.pure]

/-- A detector that is not of the context does not matter to `V`. -/
theorem volatility_votes {votes : List DetectorOutput}
    (hvotes : ∀ o ∈ votes, o.group ≠ .context) (os : List DetectorOutput) :
    FuzzHelm.volatility (votes ++ os) vDefault = FuzzHelm.volatility os vDefault := by
  have hskip : votes.filter DetectorOutput.provides = [] := by
    rw [List.filter_eq_nil_iff]
    intro o ho hprovides
    rw [DetectorOutput.provides, decide_eq_true_eq] at hprovides
    exact hvotes o ho hprovides.1
  rw [FuzzHelm.volatility, volatilityLoop_filter, List.filter_append, hskip, List.nil_append,
    ← volatilityLoop_filter, FuzzHelm.volatility]

end Volatility

/-! ### The decision -/

/-- **What the core says of a bar**, the window `w` after `bars` bars, by the detectors `ds`. -/
structure Decides (core : DecisionCore DetectorWindow) (ds : List Detector) (w : DetectorWindow)
    (bars : ℕ) (trace : DecisionTrace) : Prop where
  heard : List.Forall₂ (fun d o => AnswersAt d w bars o) ds trace.detectorOutputs
  trend_mem : -1 ≤ trace.consensus.T ∧ trace.consensus.T ≤ 1
  reversion_mem : -1 ≤ trace.consensus.R ∧ trace.consensus.R ≤ 1
  trend_cold : (∀ d ∈ ds, d.group = .trend → bars < d.warmup) → trace.consensus.T = 0
  reversion_cold : (∀ d ∈ ds, d.group = .reversion → bars < d.warmup) → trace.consensus.R = 0
  volatility : (trace.consensus.V, trace.consensus.vSource) =
    if ∃ d ∈ ds, d.group = .context then w.volatility core.vDefault
    else (core.vDefault, V_SOURCE_DEFAULT)
  volatility_warm : ∀ d ∈ ds, d.group = .context →
    (w.feats.volRank.isSome ↔ d.warmup ≤ bars)
  volatility_mem : 0 ≤ trace.consensus.V ∧ trace.consensus.V ≤ 1
  final_mem : -1 ≤ trace.uFinal ∧ trace.uFinal ≤ 1


/-- A member on the right of related lists has a related one on the left. -/
theorem forall₂_mem_right {α β : Type*} {P : α → β → Prop} {xs : List α} {ys : List β}
    (h : List.Forall₂ P xs ys) {y : β} (hy : y ∈ ys) : ∃ x ∈ xs, P x y := by
  induction h with
  | nil => cases hy
  | cons hp _ ih =>
    rcases List.mem_cons.mp hy with rfl | hy
    · exact ⟨_, List.mem_cons_self, hp⟩
    · obtain ⟨x, hx, hp⟩ := ih hy
      exact ⟨x, List.mem_cons_of_mem _ hx, hp⟩

section Decides

variable {ds : List Detector} {w : DetectorWindow} {bars : ℕ} {outputs : List DetectorOutput}
  {eps : ℚ}

/-- Every strength is between -1 and 1, so every group is. -/
theorem GroupSum.value_unit (heps : 0 < eps) (group : DetectorGroup)
    (outputs : List DetectorOutput) :
    -1 ≤ (GroupSum.of group outputs).value eps ∧ (GroupSum.of group outputs).value eps ≤ 1 :=
  GroupSum.value_mem heps (fun o _ _ _ => o.s_mem) (.inl (by norm_num))

/-- A group whose detectors are all cold. -/
theorem GroupSum.value_cold (heps : 0 < eps) {group : DetectorGroup}
    (h : List.Forall₂ (fun d o => AnswersAt d w bars o) ds outputs)
    (hcold : ∀ d ∈ ds, d.group = group → bars < d.warmup) :
    (GroupSum.of group outputs).value eps = 0 := by
  have hs : ∀ o ∈ outputs, o.group = group → 0 < o.weight * o.c → 0 ≤ o.s ∧ o.s ≤ 0 := by
    intro o ho hgroup _
    obtain ⟨d, hd, hanswer⟩ := forall₂_mem_right h ho
    -- a detector that is cold measures nothing, and one that measures nothing says nothing
    have hlt := hcold d hd (hanswer.group ▸ hgroup)
    have hsilent : o.measures = false := by
      by_contra hmeasures
      exact absurd (hanswer.warm (Bool.not_eq_false _ ▸ hmeasures)) (not_le.mpr hlt)
    rw [(hanswer.silent hsilent).1]
    exact ⟨le_rfl, le_rfl⟩
  obtain ⟨hlo, hhi⟩ := GroupSum.value_mem heps hs (.inl ⟨le_rfl, le_rfl⟩)
  exact le_antisymm hhi hlo

/-- The last detector of the ensemble is its only source of `V`. -/
theorem ensemble_volatility {m : FloatFunctions} {cfg : DetectorsConfig} {vDefault : ℚ}
    {p : Detector → Bool} {kept : List Detector} (hkept : kept = (detectorsOf m cfg).filter p)
    (h : List.Forall₂ (fun d o => AnswersAt d w bars o) kept outputs) :
    volatility outputs vDefault =
      .ok (if ∃ d ∈ kept, d.group = .context then w.volatility vDefault
        else (vDefault, V_SOURCE_DEFAULT)) := by
  have hvoters : ∀ d ∈ (detectorsOf m cfg).take 5, d.group ≠ .context := by
    intro d hd
    simp only [detectorsOf, List.take_succ_cons, List.take_zero, List.mem_cons, List.not_mem_nil,
      or_false] at hd
    rcases hd with rfl | rfl | rfl | rfl | rfl
    all_goals exact DetectorGroup.noConfusion
  have hsplit : kept = ((detectorsOf m cfg).take 5).filter p ++
      ((detectorsOf m cfg).drop 5).filter p := by
    rw [← List.filter_append, List.take_append_drop, hkept]
  generalize hvotersOf : ((detectorsOf m cfg).take 5).filter p = voters at hsplit
  have hvote : ∀ d ∈ voters, d.group ≠ .context := by
    intro d hd
    rw [← hvotersOf] at hd
    exact hvoters d (List.mem_of_mem_filter hd)
  subst hsplit
  have hfirst := List.forall₂_take voters.length h
  have hrest := List.forall₂_drop voters.length h
  rw [List.take_left] at hfirst
  rw [List.drop_left] at hrest
  have hvotes : ∀ o ∈ outputs.take voters.length, o.group ≠ .context := by
    intro o ho
    obtain ⟨d, hd, hanswer⟩ := forall₂_mem_right hfirst ho
    rw [hanswer.group]
    exact hvote d hd
  -- only the last detector can be of the context
  rw [← List.take_append_drop voters.length outputs, volatility_votes hvotes]
  by_cases hp : p ((VolRegime.new cfg.volWeight cfg.featureParams).detector m) = true
  · -- the context is kept
    have hlast : ((detectorsOf m cfg).drop 5).filter p =
        [(VolRegime.new cfg.volWeight cfg.featureParams).detector m] := List.filter_cons_of_pos hp
    rw [hlast] at hrest ⊢
    obtain ⟨o, rest, hanswer, hnil, hcons⟩ := List.forall₂_cons_left_iff.mp hrest
    rw [List.forall₂_nil_left_iff.mp hnil] at hcons
    rw [hcons, if_pos ⟨_, List.mem_append_right _ List.mem_cons_self, rfl⟩]
    exact VolRegime.volatility_eq hanswer.computes
  · have hlast : ((detectorsOf m cfg).drop 5).filter p = [] := List.filter_cons_of_neg hp
    rw [hlast] at hrest ⊢
    rw [List.append_nil, List.forall₂_nil_left_iff.mp hrest, if_neg]
    · rfl
    · rintro ⟨d, hd, hcontext⟩
      exact hvote d hd hcontext

end Decides

/-- The core over some of the detectors of a configuration. -/
theorem core_decides {m : FloatFunctions} (hm : m.Lawful) (fns : RealFunctions ℚ)
    {cfg : DetectorsConfig} {fp : FeaturePipeline ℚ}
    (hfp : FeaturePipeline.new cfg.featureParams = .ok fp) {p : Detector → Bool}
    {kept : List Detector} (hkept : kept = (detectorsOf m cfg).filter p)
    {core : DecisionCore DetectorWindow} (hcore : core.detectors = kept.map Detector.compute)
    (hfinite : ∀ d ∈ kept, d.weight ≠ .inf) (xs : List (Bar ℚ)) (b : Bar ℚ) (openTimeNs : ℤ) :
    ∃ trace, core.decide (windowAt fns fp xs b) openTimeNs = .ok trace ∧
      Decides core kept (windowAt fns fp xs b) (xs.length + 1) trace := by
  have hmem : ∀ d ∈ kept, d ∈ detectorsOf m cfg := by
    intro d hd
    rw [hkept] at hd
    exact List.mem_of_mem_filter hd
  -- every detector that is kept answers, so that none of them ends the bar
  have hall : ∀ d ∈ kept, ∃ o, d.compute (windowAt fns fp xs b) = .ok o ∧
      AnswersAt d (windowAt fns fp xs b) (xs.length + 1) o := by
    intro d hd
    obtain ⟨o, ho⟩ := (ensemble_acts hm hfp xs b d (hmem d hd)).answers (hfinite d hd)
    exact ⟨o, ho.computes, ho⟩
  obtain ⟨outputs, hrun, hheard⟩ := exists_mapM_ok hall
  have houtputs : core.outputs (windowAt fns fp xs b) = .ok outputs := by
    rw [DecisionCore.outputs, hcore, List.mapM_map]
    exact hrun
  -- at most one of them provides the volatility
  have hvolatility : volatility outputs core.vDefault = .ok _ :=
    ensemble_volatility hkept hheard
  have hcons : consensus outputs core.eps core.vDefault = .ok _ :=
    consensus_eq_ok.mpr ⟨_, hvolatility, rfl⟩
  refine ⟨_, bind_eq_ok.mpr ⟨outputs, houtputs, bind_eq_ok.mpr ⟨_, hcons, rfl⟩⟩, ?_⟩
  exact {
    heard := hheard
    trend_mem := GroupSum.value_unit core.eps_pos _ _
    reversion_mem := GroupSum.value_unit core.eps_pos _ _
    trend_cold := GroupSum.value_cold core.eps_pos hheard
    reversion_cold := GroupSum.value_cold core.eps_pos hheard
    volatility := rfl
    volatility_warm := fun d hd => context_warm hfp xs b d (hmem d hd)
    volatility_mem := by
      show 0 ≤ (ite _ _ _ : ℚ × String).1 ∧ (ite _ _ _ : ℚ × String).1 ≤ 1
      split_ifs
      · exact DetectorWindow.volatility_mem core.vDefault_mem
      · exact core.vDefault_mem
    final_mem := clipUnit_mem _ }

/-- A function that fails just where `P` holds fails on a list with the error of the first such
    member. -/
theorem mapM_eq_error {α β ε : Type} {f : α → Except ε β} {P : α → Bool} {error : α → ε}
    {xs : List α} (hok : ∀ x ∈ xs, P x = false → ∃ y, f x = .ok y)
    (herror : ∀ x ∈ xs, P x = true → f x = .error (error x)) {x : α}
    (hfind : xs.find? P = some x) : xs.mapM f = .error (error x) := by
  induction xs with
  | nil => cases hfind
  | cons y ys ih =>
    rw [List.mapM_cons]
    cases hy : P y with
    | true =>
      rw [List.find?_cons_of_pos hy, Option.some.injEq] at hfind
      subst hfind
      rw [herror y List.mem_cons_self hy]
      rfl
    | false =>
      rw [List.find?_cons_of_neg (by rw [hy]; exact Bool.false_ne_true)] at hfind
      obtain ⟨z, hz⟩ := hok y List.mem_cons_self hy
      rw [hz, ih (fun x hx => hok x (List.mem_cons_of_mem _ hx))
        (fun x hx => herror x (List.mem_cons_of_mem _ hx)) hfind]
      rfl

/-- The core over detectors of which one has an infinite weight raises as the first of these. -/
theorem core_raises {m : FloatFunctions} (hm : m.Lawful) (fns : RealFunctions ℚ)
    {cfg : DetectorsConfig} {fp : FeaturePipeline ℚ}
    (hfp : FeaturePipeline.new cfg.featureParams = .ok fp) {p : Detector → Bool}
    {kept : List Detector} (hkept : kept = (detectorsOf m cfg).filter p)
    {core : DecisionCore DetectorWindow} (hcore : core.detectors = kept.map Detector.compute)
    {d : Detector} (hfind : kept.find? (fun d => decide (d.weight = .inf)) = some d)
    (xs : List (Bar ℚ)) (b : Bar ℚ) (openTimeNs : ℤ) :
    core.decide (windowAt fns fp xs b) openTimeNs = .error d.infiniteWeight := by
  have hacts : ∀ d ∈ kept, ActsAt d (windowAt fns fp xs b) (xs.length + 1) := by
    intro d hd
    rw [hkept] at hd
    exact ensemble_acts hm hfp xs b d (List.mem_of_mem_filter hd)
  have houtputs : core.outputs (windowAt fns fp xs b) = .error d.infiniteWeight := by
    rw [DecisionCore.outputs, hcore, List.mapM_map]
    refine mapM_eq_error (fun d hd hno => ?_) (fun d hd hyes => ?_) hfind
    · obtain ⟨o, ho⟩ := (hacts d hd).answers (of_decide_eq_false hno)
      exact ⟨o, ho.computes⟩
    · exact (hacts d hd).raises (of_decide_eq_true hyes)
  rw [DecisionCore.decide, houtputs]
  rfl

/-- **The core always decides**: over any of the detectors of an accepted configuration whose
    weights are numbers, and the features of any history, there is a decision at every bar.  Where
    a weight is infinite the core raises at every bar, as the first such detector does. -/
theorem decision_total {m : FloatFunctions} (hm : m.Lawful) (fns : RealFunctions ℚ)
    {cfg : DetectorsConfig} {ds : List Detector} (hds : buildDetectors m cfg = .ok ds)
    {fp : FeaturePipeline ℚ} (hfp : FeaturePipeline.new cfg.featureParams = .ok fp)
    (keep : Option (List String)) {core : DecisionCore DetectorWindow}
    (hcore : core.detectors = (keptDetectors keep ds).map Detector.compute)
    (xs : List (Bar ℚ)) (b : Bar ℚ) (openTimeNs : ℤ) :
    ((∀ d ∈ keptDetectors keep ds, d.weight ≠ .inf) →
      ∃ trace, core.decide (windowAt fns fp xs b) openTimeNs = .ok trace ∧
        Decides core (keptDetectors keep ds) (windowAt fns fp xs b) (xs.length + 1) trace) ∧
    ∀ d, (keptDetectors keep ds).find? (fun d => decide (d.weight = .inf)) = some d →
      core.decide (windowAt fns fp xs b) openTimeNs = .error d.infiniteWeight := by
  rw [buildDetectors_eq] at hds
  cases hds
  obtain ⟨p, hp⟩ := keptDetectors_eq_filter keep (detectorsOf m cfg)
  exact ⟨fun hfinite => core_decides hm fns hfp hp hcore hfinite xs b openTimeNs,
    fun d hfind => core_raises hm fns hfp hp hcore hfind xs b openTimeNs⟩

/-- The consensus coefficient of the samples is a share. -/
theorem sampleKappa_mem : (0 : ℚ) ≤ 7 / 20 ∧ (7 / 20 : ℚ) ≤ 1 := by norm_num

/-- The core over the ensemble of the defaults. -/
def sampleCore : DecisionCore DetectorWindow where
  detectors := (detectorsOf roughFunctions .default).map Detector.compute
  engine := sampleEngine
  math := sampleMath
  kappaMin := 7 / 20
  nu := 1
  eps := 1 / 10 ^ 9
  vDefault := 1 / 2
  kappaMin_mem := sampleKappa_mem
  nu_pos := one_pos_rat
  eps_pos := billionth_pos_rat
  vDefault_mem := half_mem_unit_rat

/-- The core of the defaults at the last of six hundred bars: `V` is the rank of the volatility. -/
theorem decision_total_warm : ∃ fp trace,
    FeaturePipeline.new DetectorsConfig.default.featureParams = .ok fp ∧
      sampleCore.decide (windowAt ⟨id, id⟩ fp ((List.range 599).map risingBar) (risingBar 599)) 0 =
        .ok trace ∧
      Decides sampleCore (detectorsOf roughFunctions .default)
        (windowAt ⟨id, id⟩ fp ((List.range 599).map risingBar) (risingBar 599)) 600 trace ∧
      trace.consensus.vSource = "vol_regime" := by
  obtain ⟨fp, hfp⟩ := pipeline_of_config DetectorsConfig.default
  have hcore : sampleCore.detectors = (keptDetectors none
      (detectorsOf roughFunctions .default)).map Detector.compute := rfl
  have hfinite : ∀ d ∈ detectorsOf roughFunctions .default, d.weight ≠ .inf := by
    simp only [detectorsOf, List.forall_mem_cons, List.not_mem_nil, false_imp_iff, implies_true,
      and_true]
    decide +kernel
  obtain ⟨trace, hdecide, hdecides⟩ := (decision_total roughFunctions_lawful ⟨id, id⟩
    (buildDetectors_eq roughFunctions .default) hfp none hcore ((List.range 599).map risingBar)
    (risingBar 599) 0).1 hfinite
  rw [List.length_map, List.length_range] at hdecides
  refine ⟨fp, trace, hfp, hdecide, hdecides, ?_⟩
  -- the volatility is warm after 523 bars
  have hlast : (VolRegime.new DetectorsConfig.default.volWeight
      DetectorsConfig.default.featureParams).detector roughFunctions ∈
        detectorsOf roughFunctions .default := by
    simp [detectorsOf]
  have hrank := (hdecides.volatility_warm _ hlast rfl).mpr (by decide +kernel)
  have hvolatility := hdecides.volatility
  rw [if_pos ⟨_, hlast, rfl⟩] at hvolatility
  refine (congrArg Prod.snd hvolatility).trans ?_
  rw [DetectorWindow.volatility]
  cases hfeats : (windowAt ⟨id, id⟩ fp ((List.range 599).map risingBar)
      (risingBar 599)).feats.volRank with
  | none =>
    rw [hfeats] at hrank
    cases hrank
  | some v => rfl

end FuzzHelm
