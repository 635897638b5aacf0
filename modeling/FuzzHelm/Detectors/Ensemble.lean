import FuzzHelm.Decision.Consensus
import FuzzHelm.Features.Pipeline
import FuzzHelm.Lib.Run
import Mathlib.Algebra.Order.Field.Basic

namespace FuzzHelm

open Lib

/-!
# The detectors of patterns

Six functions of the last bars and their features.  Each gives a strength and a confidence, and
says nothing before its features are warm.

* `EmaSlope`, `Donchian` — the trend;
* `RsiExhaustion`, `BollingerZ`, `CandleGeometry` — the reversion;
* `VolRegime` — the context, the volatility `V`;
* `DetectorsConfig`, `buildDetectors` — the ensemble of a configuration;
* `Answers` — what an answer of a detector says, proved for each of them.
-/

/-- `math.tanh`, `math.exp`, `math.sqrt`, the power `**` and `repr`. -/
structure FloatFunctions where
  tanh : ℚ → ℚ
  exp : ℚ → ℚ
  sqrt : ℚ → ℚ
  pow : ℚ → ℚ → ℚ
  repr : ℚ → String

/-- What is documented of them, as far as the detectors rest on it. -/
structure FloatFunctions.Lawful (m : FloatFunctions) : Prop where
  tanh_mem : ∀ x, -1 ≤ m.tanh x ∧ m.tanh x ≤ 1
  exp_nonneg : ∀ x, 0 ≤ m.exp x
  exp_le_one : ∀ x ≤ 0, m.exp x ≤ 1
  pow_mem : ∀ x p, 0 ≤ x → x ≤ 1 → 0 < p → 0 ≤ m.pow x p ∧ m.pow x p ≤ 1

/-- A quotient of floats; a zero divisor raises. -/
def floatDiv (x y : ℚ) : Except PyError ℚ := if y = 0 then .error .zeroDivision else .ok (x / y)

/-- A quotient by a positive divisor never raises, so that a floor under a divisor is enough. -/
theorem floatDiv_pos {y : ℚ} (h : 0 < y) (x : ℚ) : floatDiv x y = .ok (x / y) := if_neg h.ne'

/-- A weight as a configuration gives it.  `Field(ge=0.0)` lets `.inf` pass. -/
inductive FloatWeight where
  | finite (w : ℚ)
  | inf
  deriving DecidableEq

/-- `weight >= 0`, which an infinite weight meets. -/
def FloatWeight.Nonneg : FloatWeight → Prop
  | finite w => 0 ≤ w
  | inf => True

/-- The check of a weight can be run. -/
instance : DecidablePred FloatWeight.Nonneg
  | .finite w => inferInstanceAs (Decidable (0 ≤ w))
  | .inf => .isTrue trivial

/-- `DetectorOutput(...)`, with the checks of `__post_init__`. -/
def detectorOutput (m : FloatFunctions) (name : String) (s c : ℚ)
    (features : List (String × Option ℚ)) (group : DetectorGroup) (weight : FloatWeight) :
    Except PyError DetectorOutput :=
  if hs : -1 ≤ s ∧ s ≤ 1 then
    if hc : 0 ≤ c ∧ c ≤ 1 then
      match weight with
      | .finite w =>
        if hw : 0 ≤ w then .ok ⟨name, s, c, features, group, w, hs, hc, hw⟩
        else .error (.valueError s!"{name}: weight={m.repr w} must be finite and >= 0")
      | .inf => .error (.valueError s!"{name}: weight=inf must be finite and >= 0")
    else .error (.valueError s!"{name}: c={m.repr c} outside [0,1]")
  else .error (.valueError s!"{name}: s={m.repr s} outside [-1,1]")

/-- What a detector reads of a `BarWindow`: the features of the last bar, that bar, and the bar
    before it where the window has one. -/
structure DetectorWindow where
  feats : Features ℚ
  bar : Bar ℚ
  prev : Option (Bar ℚ)

/-- `Detector`: its names, its weight, the bars it needs, and what it makes of a window. -/
structure Detector where
  name : String
  group : DetectorGroup
  weight : FloatWeight
  warmup : ℕ
  compute : DetectorWindow → Except PyError DetectorOutput

/-- The error of a detector whose weight is infinite. -/
def Detector.infiniteWeight (d : Detector) : PyError :=
  .valueError s!"{d.name}: weight=inf must be finite and >= 0"

/-- `p.warmup()[...]`: the number of bars until a feature is there. -/
def FeatureParams.warmupOf {K : Type*} (p : FeatureParams K) (f : FeatureName) : ℕ :=
  (p.warmup.lookup f).getD 0

open FeaturePipeline (relFloor)

/-! ### Trend -/

/-- `EmaSlope`: the slope of the average over `horizon` bars, in units of the true range. -/
structure EmaSlope where
  weight : FloatWeight
  horizon : ℕ
  scale : ℚ
  warmup : ℕ

namespace EmaSlope

/-- `EmaSlope.__init__`: the horizon must be the one that the features are computed with. -/
def new (weight : FloatWeight) (horizon : ℕ) (scale : ℚ) (p : FeatureParams ℚ) :
    Except PyError EmaSlope :=
  if p.emaHorizon ≠ horizon then
    .error (.valueError
      s!"EmaSlope.horizon={horizon} != FeatureParams.ema_horizon={p.emaHorizon}")
  else .ok ⟨weight, horizon, scale,
    max (max (p.warmupOf .emaLag) (p.warmupOf .emaR2)) (p.warmupOf .atr)⟩

/-- `EmaSlope.compute`: the slope through `tanh`, and the fit of the average as the confidence. -/
def compute (m : FloatFunctions) (d : EmaSlope) (w : DetectorWindow) :
    Except PyError DetectorOutput :=
  match w.feats.ema, w.feats.emaLag, w.feats.atr, w.feats.emaR2 with
  | some e, some eLag, some atr, some r2 => do
    let den := d.horizon * max atr (relFloor * |e|)
    let g := if 0 < den then (e - eLag) / den else 0
    let s := m.tanh (← floatDiv g d.scale)
    let c := if 0 ≤ r2 ∧ r2 ≤ 1 then r2 else 0
    detectorOutput m "ema_slope" s c [("g", some g), ("r2", some r2)] .trend d.weight
  | _, _, _, _ => detectorOutput m "ema_slope" 0 0 [] .trend d.weight

/-- The slope as a detector of the trend group. -/
def detector (m : FloatFunctions) (d : EmaSlope) : Detector :=
  ⟨"ema_slope", .trend, d.weight, d.warmup, d.compute m⟩

end EmaSlope

/-- `Donchian`: the distance from the last breakout, and the width of the channel. -/
structure Donchian where
  weight : FloatWeight
  decay : ℚ
  dScale : ℚ
  widthAtr : ℚ
  warmup : ℕ

namespace Donchian

/-- `Donchian.__init__`, with the defaults of the scales that the configuration does not set. -/
def new (weight : FloatWeight) (decay : ℚ) (p : FeatureParams ℚ) : Donchian :=
  ⟨weight, decay, 1 / 2, 6, max (p.warmupOf .donchHi) (p.warmupOf .atr)⟩

/-- `Donchian.compute`: the confidence decays with the bars since the breakout. -/
def compute (m : FloatFunctions) (d : Donchian) (w : DetectorWindow) :
    Except PyError DetectorOutput :=
  match w.feats.donchHi, w.feats.donchLo, w.feats.atr, w.feats.donchRef,
    w.feats.barsSinceBreakout with
  | some u, some lo, some atr, some ref, some age => do
    let p := w.bar.c
    let a := max atr (relFloor * |p|)
    if ¬0 < a then detectorOutput m "donchian" 0 0 [] .trend d.weight
    else
      let dist := (p - ref) / a
      let s := m.tanh (← floatDiv dist d.dScale)
      let width := (u - lo) / a
      let c := min 1 (max 0 (← floatDiv width d.widthAtr)) * m.exp (-d.decay * age)
      detectorOutput m "donchian" s c
        [("d", some dist), ("width_atr", some width), ("bars_since_breakout", some age),
          ("direction", some (w.feats.donchDir.getD 0))] .trend d.weight
  | _, _, _, _, _ => detectorOutput m "donchian" 0 0 [] .trend d.weight

/-- The channel as a detector of the trend group. -/
def detector (m : FloatFunctions) (d : Donchian) : Detector :=
  ⟨"donchian", .trend, d.weight, d.warmup, d.compute m⟩

end Donchian

/-! ### Reversion -/

/-- `RsiExhaustion`: the index against its middle, and its divergence from the price. -/
structure RsiExhaustion where
  weight : FloatWeight
  power : ℚ
  confPower : ℚ
  divLookback : ℕ
  baseW : ℚ
  divW : ℚ
  rsiScale : ℚ
  z0 : ℚ
  warmup : ℕ

namespace RsiExhaustion

/-- `RsiExhaustion.__init__`, with the defaults of the scales that the configuration does not set.
    -/
def new (weight : FloatWeight) (power : ℚ) (p : FeatureParams ℚ) : RsiExhaustion :=
  ⟨weight, power, 4 / 5, p.rsiDivLookback, 3 / 5, 2 / 5, 10, 1 / 10,
    max (max (p.warmupOf .rsiDelta) (p.warmupOf .closeDelta)) (p.warmupOf .atr)⟩

/-- `math.copysign`, for a `y` that is not zero. -/
def copysign (x y : ℚ) : ℚ := if y < 0 then -|x| else |x|

/-- `RsiExhaustion.compute`: a price and an index that move apart add to the confidence. -/
def compute (m : FloatFunctions) (d : RsiExhaustion) (w : DetectorWindow) :
    Except PyError DetectorOutput :=
  match w.feats.rsi, w.feats.rsiDelta, w.feats.closeDelta, w.feats.atr with
  | some rsi, some dRsi, some dPx, some atr => do
    let z := min 1 (max (-1) ((50 - rsi) / 50))
    let az := |z|
    let s := if 0 < az then copysign (m.pow az d.power) z else 0
    let aDen := max atr (relFloor * |w.bar.c|) * m.sqrt d.divLookback
    let a := if 0 < aDen then m.tanh (dPx / aDen) else 0
    let b := m.tanh (← floatDiv dRsi d.rsiScale)
    let zeta := m.tanh (← floatDiv z d.z0)
    let div := max 0 (-zeta * a) * max 0 (zeta * b)
    let c := min 1 (d.baseW * m.pow az d.confPower + d.divW * div)
    detectorOutput m "rsi_exhaustion" s c
      [("rsi", some rsi), ("z", some z), ("div_score", some div)] .reversion d.weight
  | _, _, _, _ => detectorOutput m "rsi_exhaustion" 0 0 [] .reversion d.weight

/-- The exhaustion of the index as a detector of the reversion group. -/
def detector (m : FloatFunctions) (d : RsiExhaustion) : Detector :=
  ⟨"rsi_exhaustion", .reversion, d.weight, d.warmup, d.compute m⟩

end RsiExhaustion

/-- `BollingerZ`: the price within the bands, against its mean. -/
structure BollingerZ where
  weight : FloatWeight
  zScale : ℚ
  warmup : ℕ

namespace BollingerZ

/-- `BollingerZ.__init__`: the rank of the width is the feature that comes last. -/
def new (weight : FloatWeight) (zScale : ℚ) (p : FeatureParams ℚ) : BollingerZ :=
  ⟨weight, zScale, p.warmupOf .bbBwRank⟩

/-- `BollingerZ.compute`: the wider the bands among the last ones, the less confidence. -/
def compute (m : FloatFunctions) (d : BollingerZ) (w : DetectorWindow) :
    Except PyError DetectorOutput :=
  match w.feats.sma, w.feats.sigma, w.feats.bbBwRank with
  | some mu, some sigma, some rho => do
    let p := w.bar.c
    let sd := max sigma (relFloor * |mu|)
    let z := if 0 < sd then (p - mu) / sd else 0
    let s := -m.tanh (← floatDiv z d.zScale)
    let c := 1 - min 1 (max 0 rho)
    detectorOutput m "bollinger_z" s c [("z", some z), ("bw_rank", some rho)] .reversion d.weight
  | _, _, _ => detectorOutput m "bollinger_z" 0 0 [] .reversion d.weight

/-- The bands as a detector of the reversion group. -/
def detector (m : FloatFunctions) (d : BollingerZ) : Detector :=
  ⟨"bollinger_z", .reversion, d.weight, d.warmup, d.compute m⟩

end BollingerZ

/-! ### The geometry of candles -/

/-- `_TINY`, the floor of the smallest divisor. -/
def TINY : ℚ := 1 / 10 ^ 300

/-- The smallest floor is above zero, so that no score divides by zero. -/
theorem tiny_pos : 0 < TINY := by
  unfold TINY
  positivity

/-- `sigma_s`: the logistic of slope 3, in the form that does not overflow. -/
def sigmaS (m : FloatFunctions) (x : ℚ) : Except PyError ℚ :=
  if 0 ≤ x then floatDiv 1 (1 + m.exp (-3 * x))
  else floatDiv (m.exp (3 * x)) (1 + m.exp (3 * x))

/-- `_geometry`: both ends of the bar, its body, its shadows and its range. -/
structure Geometry where
  hi : ℚ
  lo : ℚ
  body : ℚ
  wU : ℚ
  wL : ℚ
  rg : ℚ

/-- `_geometry`: the range is widened where the body leaves it. -/
def geometry (b : Bar ℚ) : Geometry :=
  let top := if b.c < b.o then b.o else b.c
  let bot := if b.c < b.o then b.c else b.o
  let hi := if top < b.h then b.h else top
  let lo := if b.l < bot then b.l else bot
  ⟨hi, lo, top - bot, hi - top, bot - lo, hi - lo⟩

/-- The floor of what a score divides by. -/
def barEps (b : Bar ℚ) : ℚ := relFloor * |b.c| + TINY

/-- A number, unless it is too small to divide by. -/
def orEps (x eps : ℚ) : ℚ := if eps < x then x else eps

/-- `pin_bar_scores`: a long shadow on one side and a short one on the other. -/
def pinBarScores (m : FloatFunctions) (bar : Bar ℚ) (atr : ℚ) : Except PyError (ℚ × ℚ) := do
  let g := geometry bar
  let bd := orEps g.body (barEps bar)
  let a := orEps atr (barEps bar)
  let amp := min 1 (← floatDiv g.rg a)
  let pinBull :=
    (← sigmaS m ((← floatDiv g.wL bd) - 2)) * (← sigmaS m (1 - (← floatDiv g.wU bd))) * amp
  let pinBear :=
    (← sigmaS m ((← floatDiv g.wU bd) - 2)) * (← sigmaS m (1 - (← floatDiv g.wL bd))) * amp
  return (pinBull, pinBear)

/-- `engulfing_scores`: a body that covers the one before, in the other direction. -/
def engulfingScores (m : FloatFunctions) (bar prev : Bar ℚ) (atr : ℚ) :
    Except PyError (ℚ × ℚ) := do
  let g := geometry bar
  let gp := geometry prev
  let eps := barEps bar
  let a := orEps atr eps
  let amp := min 1 (← floatDiv g.rg a)
  let dt ← floatDiv (bar.c - bar.o) (orEps g.rg eps)
  let dp ← floatDiv (prev.c - prev.o) (orEps gp.rg eps)
  let size ← sigmaS m ((← floatDiv g.body (orEps gp.body eps)) - 1)
  let colBull := (← sigmaS m (4 * dt - 1)) * (← sigmaS m (-4 * dp - 1))
  let colBear := (← sigmaS m (-4 * dt - 1)) * (← sigmaS m (4 * dp - 1))
  return (size * colBull * amp, size * colBear * amp)

/-- `CandleGeometry`: pin bars and engulfing bars near the ends of the channel. -/
structure CandleGeometry where
  weight : FloatWeight
  wPin : ℚ
  wEngulf : ℚ
  warmup : ℕ

namespace CandleGeometry

/-- `CandleGeometry.__init__`: two bars at least, since it reads the bar before the last. -/
def new (weight : FloatWeight) (wPin wEngulf : ℚ) (p : FeatureParams ℚ) : CandleGeometry :=
  ⟨weight, wPin, wEngulf, max (max (p.warmupOf .atr) (p.warmupOf .donchHi)) 2⟩

/-- `CandleGeometry.compute`: both patterns, weighted by themselves, and how near the level is. -/
def compute (m : FloatFunctions) (d : CandleGeometry) (w : DetectorWindow) :
    Except PyError DetectorOutput :=
  match w.feats.atr, w.feats.donchHi, w.feats.donchLo, w.prev with
  | some atr, some u, some lvlLo, some prev => do
    let bar := w.bar
    let g := geometry bar
    let a := max atr (relFloor * |bar.c|) + TINY
    let (pinB, pinS) ← pinBarScores m bar atr
    let (engB, engS) ← engulfingScores m bar prev atr
    let num := d.wPin * (pinB * pinB - pinS * pinS) + d.wEngulf * (engB * engB - engS * engS)
    let den := d.wPin * (pinB + pinS) + d.wEngulf * (engB + engS)
    let s := if 1 / 10 ^ 12 < den then num / den else 0
    let s := min 1 (max (-1) s)
    let proxBull := m.exp (-(← floatDiv |g.lo - lvlLo| (2 * a)))
    let proxBear := m.exp (-(← floatDiv |g.hi - u| (2 * a)))
    let c := max (max (max (pinB * proxBull) (engB * proxBull)) (pinS * proxBear))
      (engS * proxBear)
    let c := min 1 (max 0 c)
    detectorOutput m "candle_geometry" s c
      [("pin_bull", some pinB), ("pin_bear", some pinS), ("engulf_bull", some engB),
        ("engulf_bear", some engS), ("prox_support", some proxBull),
        ("prox_resistance", some proxBear)] .reversion d.weight
  | _, _, _, _ => detectorOutput m "candle_geometry" 0 0 [] .reversion d.weight

/-- The geometry of candles as a detector of the reversion group. -/
def detector (m : FloatFunctions) (d : CandleGeometry) : Detector :=
  ⟨"candle_geometry", .reversion, d.weight, d.warmup, d.compute m⟩

end CandleGeometry

/-! ### Context -/

/-- `V_UNKNOWN`, the volatility before there is a rank. -/
def V_UNKNOWN : ℚ := 1 / 2

/-- `VolRegime`: no direction, only the rank of the volatility. -/
structure VolRegime where
  weight : FloatWeight
  warmup : ℕ

namespace VolRegime

/-- `VolRegime.__init__`: the rank of the volatility is all it waits for. -/
def new (weight : FloatWeight) (p : FeatureParams ℚ) : VolRegime := ⟨weight, p.warmupOf .volRank⟩

/-- `VolRegime.compute`: before the rank is there it says so, at the value of the unknown. -/
def compute (m : FloatFunctions) (d : VolRegime) (w : DetectorWindow) :
    Except PyError DetectorOutput :=
  match w.feats.volRank with
  | none =>
    detectorOutput m "vol_regime" 0 0 [("V", some V_UNKNOWN), ("warm", some 0)] .context d.weight
  | some v =>
    let v := min 1 (max 0 v)
    detectorOutput m "vol_regime" 0 1
      [("V", some v), ("park_sigma", some (w.feats.parkSigma.getD 0)), ("warm", some 1)] .context
      d.weight

/-- The regime of volatility as a detector of the context group. -/
def detector (m : FloatFunctions) (d : VolRegime) : Detector :=
  ⟨"vol_regime", .context, d.weight, d.warmup, d.compute m⟩

end VolRegime

/-! ### The registry -/

/-- `DetectorsConfig` and `FeatureParams.from_config`: the numbers of `config/detectors.yaml`
    within the bounds that they are checked for.  The weights may be infinite; a configuration in
    which another number is, which the schema accepts as well, is not one of these. -/
structure DetectorsConfig where
  emaWeight : FloatWeight
  nEma : ℕ
  emaHorizon : ℕ
  emaScale : ℚ
  emaR2Points : ℕ
  donchianWeight : FloatWeight
  donchianN : ℕ
  donchianDecay : ℚ
  rsiWeight : FloatWeight
  nRsi : ℕ
  rsiPower : ℚ
  rsiDivLookback : ℕ
  bbWeight : FloatWeight
  bbN : ℕ
  bbK : ℚ
  bbZScale : ℚ
  bbRankWindow : ℕ
  candleWeight : FloatWeight
  candlePin : ℚ
  candleEngulf : ℚ
  volWeight : FloatWeight
  volWindow : ℕ
  volRankWindow : ℕ
  nAtr : ℕ
  volumeWindow : ℕ
  weights_nonneg : emaWeight.Nonneg ∧ donchianWeight.Nonneg ∧ rsiWeight.Nonneg ∧ bbWeight.Nonneg ∧
    candleWeight.Nonneg ∧ volWeight.Nonneg
  periods_pos : 1 ≤ nEma ∧ 1 ≤ emaHorizon ∧ 1 ≤ donchianN ∧ 1 ≤ nRsi ∧ 1 ≤ rsiDivLookback ∧
    1 ≤ bbRankWindow ∧ 1 ≤ volWindow ∧ 1 ≤ volRankWindow ∧ 1 ≤ nAtr
  windows_two : 2 ≤ emaR2Points ∧ 2 ≤ bbN ∧ 2 ≤ volumeWindow
  scales_pos : 0 < emaScale ∧ 0 < rsiPower ∧ 0 < bbK ∧ 0 < bbZScale
  shares_nonneg : 0 ≤ donchianDecay ∧ 0 ≤ candlePin ∧ 0 ≤ candleEngulf

/-- The defaults of the sections; each of them passes its check. -/
def DetectorsConfig.default : DetectorsConfig where
  emaWeight := .finite 1
  nEma := 21
  emaHorizon := 5
  emaScale := 3 / 20
  emaR2Points := 5
  donchianWeight := .finite 1
  donchianN := 20
  donchianDecay := 3 / 10
  rsiWeight := .finite (4 / 5)
  nRsi := 14
  rsiPower := 8 / 5
  rsiDivLookback := 14
  bbWeight := .finite (4 / 5)
  bbN := 20
  bbK := 2
  bbZScale := 2
  bbRankWindow := 200
  candleWeight := .finite (3 / 5)
  candlePin := 1
  candleEngulf := 1
  volWeight := .finite 1
  volWindow := 24
  volRankWindow := 500
  nAtr := 14
  volumeWindow := 60
  weights_nonneg := by decide +kernel
  periods_pos := by decide
  windows_two := by decide
  scales_pos := by decide +kernel
  shares_nonneg := by decide +kernel

/-- `DEFAULT_RESYNC`: after so many updates sums are computed afresh. -/
def DEFAULT_RESYNC : ℤ := 1024

namespace DetectorsConfig

variable (cfg : DetectorsConfig)

/-- `FeatureParams.from_config`: the periods of the features, from those of the detectors. -/
def featureParams : FeatureParams ℚ where
  nEma := cfg.nEma
  emaHorizon := cfg.emaHorizon
  emaR2Points := cfg.emaR2Points
  nAtr := cfg.nAtr
  nRsi := cfg.nRsi
  rsiDivLookback := cfg.rsiDivLookback
  bbN := cfg.bbN
  bbK := cfg.bbK
  bbRankWindow := cfg.bbRankWindow
  donchianN := cfg.donchianN
  parkWindow := cfg.volWindow
  volRankWindow := cfg.volRankWindow
  volumeWindow := cfg.volumeWindow
  resyncEvery := DEFAULT_RESYNC

end DetectorsConfig

/-- `build_detectors`: all six, in the order of their names. -/
def buildDetectors (m : FloatFunctions) (cfg : DetectorsConfig) :
    Except PyError (List Detector) := do
  let fp := cfg.featureParams
  let slope ← EmaSlope.new cfg.emaWeight cfg.emaHorizon cfg.emaScale fp
  return [
    slope.detector m,
    (Donchian.new cfg.donchianWeight cfg.donchianDecay fp).detector m,
    (RsiExhaustion.new cfg.rsiWeight cfg.rsiPower fp).detector m,
    (BollingerZ.new cfg.bbWeight cfg.bbZScale fp).detector m,
    (CandleGeometry.new cfg.candleWeight cfg.candlePin cfg.candleEngulf fp).detector m,
    (VolRegime.new cfg.volWeight fp).detector m]

/-! ### What a detector answers -/

/-- A measurement is shown with the output. -/
def DetectorOutput.measures (o : DetectorOutput) : Bool :=
  !o.features.isEmpty && o.features.lookup "warm" != some (some 0)

/-- **What a detector says** at a window, before its weight is checked: a measurement where the
    detector is ready, and nothing where it is not. -/
structure Says (m : FloatFunctions) (d : Detector) (w : DetectorWindow) (ready : Prop) (s c : ℚ)
    (features : List (String × Option ℚ)) : Prop where
  computes : d.compute w = detectorOutput m d.name s c features d.group d.weight
  s_mem : -1 ≤ s ∧ s ≤ 1
  c_mem : 0 ≤ c ∧ c ≤ 1
  measures : (!features.isEmpty && features.lookup "warm" != some (some 0)) = true ↔ ready
  silent : ¬ready → s = 0 ∧ c = 0

/-- **An answer of a detector**, under its name, group and weight: a measurement where the
    detector is ready, and nothing where it is not. -/
structure Answers (d : Detector) (w : DetectorWindow) (ready : Prop) (o : DetectorOutput) :
    Prop where
  computes : d.compute w = .ok o
  name : o.name = d.name
  group : o.group = d.group
  weight : d.weight = .finite o.weight
  measures : o.measures = true ↔ ready
  silent : ¬ready → o.s = 0 ∧ o.c = 0

section Answers

variable {m : FloatFunctions} {w : DetectorWindow}

/-- A detector that is not ready. -/
theorem says_silent {d : Detector} {ready : Prop} {features : List (String × Option ℚ)}
    (hcompute : d.compute w = detectorOutput m d.name 0 0 features d.group d.weight)
    (hready : ¬ready) (hfeatures : features = [] ∨ features.lookup "warm" = some (some 0)) :
    ∃ s c features, Says m d w ready s c features := by
  refine ⟨0, 0, features, hcompute, by norm_num, by norm_num, iff_of_false ?_ hready,
    fun _ => ⟨rfl, rfl⟩⟩
  rcases hfeatures with rfl | hwarm
  · exact Bool.false_ne_true
  · simp [hwarm]

/-- A detector that is ready. -/
theorem says_ready {d : Detector} {ready : Prop} {features : List (String × Option ℚ)}
    {s c : ℚ} (hcompute : d.compute w = detectorOutput m d.name s c features d.group d.weight)
    (hs : -1 ≤ s ∧ s ≤ 1) (hc : 0 ≤ c ∧ c ≤ 1) (hready : ready)
    (hfeatures : features.isEmpty = false ∧ features.lookup "warm" ≠ some (some 0)) :
    ∃ s c features, Says m d w ready s c features := by
  refine ⟨s, c, features, hcompute, hs, hc, iff_of_true ?_ hready, fun h => absurd hready h⟩
  simp [hfeatures]

/-- A detector whose weight is a number answers. -/
theorem Says.answers {d : Detector} {ready : Prop} {s c : ℚ}
    {features : List (String × Option ℚ)} (h : Says m d w ready s c features)
    (hweight : d.weight.Nonneg) (hfinite : d.weight ≠ .inf) : ∃ o, Answers d w ready o := by
  have hcompute := h.computes
  cases hd : d.weight with
  | inf => exact absurd hd hfinite
  | finite weight =>
    rw [hd] at hweight hcompute
    have hweight : 0 ≤ weight := hweight
    rw [detectorOutput, dif_pos h.s_mem, dif_pos h.c_mem] at hcompute
    dsimp only at hcompute
    rw [dif_pos hweight] at hcompute
    exact ⟨_, hcompute, rfl, rfl, hd, h.measures, h.silent⟩

/-- A detector whose weight is infinite raises whatever it would say. -/
theorem Says.raises {d : Detector} {ready : Prop} {s c : ℚ}
    {features : List (String × Option ℚ)} (h : Says m d w ready s c features)
    (hinf : d.weight = .inf) :
    d.compute w = .error d.infiniteWeight := by
  have hcompute := h.computes
  rw [hinf, detectorOutput, dif_pos h.s_mem, dif_pos h.c_mem] at hcompute
  exact hcompute

/-- The slope of the average is heard once the average, its lag, the range and the fit are. -/
theorem EmaSlope.says (hm : m.Lawful) (d : EmaSlope) (hscale : 0 < d.scale) :
    ∃ s c features, Says m (d.detector m) w (w.feats.ema.isSome ∧ w.feats.emaLag.isSome ∧
      w.feats.atr.isSome ∧ w.feats.emaR2.isSome) s c features := by
  have hcompute : (d.detector m).compute w = d.compute m w := rfl
  unfold EmaSlope.compute at hcompute
  split at hcompute
  · rename_i e eLag atr r2 he heLag hatr hr2
    dsimp only at hcompute
    rw [floatDiv_pos hscale] at hcompute
    refine says_ready hcompute (hm.tanh_mem _) ?_ ?_ ⟨rfl, by simp [List.lookup_cons]⟩
    · split_ifs with h
      · exact h
      · exact ⟨le_rfl, zero_le_one⟩
    · rw [he, heLag, hatr, hr2]
      exact ⟨rfl, rfl, rfl, rfl⟩
  · rename_i hcold
    refine says_silent hcompute (fun hready => ?_) (.inl rfl)
    simp only [Option.isSome_iff_exists] at hready
    obtain ⟨⟨e, he⟩, ⟨eLag, heLag⟩, ⟨atr, hatr⟩, r2, hr2⟩ := hready
    exact hcold e eLag atr r2 he heLag hatr hr2

/-- Until the first breakout, and where the range is nothing, there is no channel to speak of. -/
theorem Donchian.says (hm : m.Lawful) (d : Donchian) (hdecay : 0 ≤ d.decay)
    (hdScale : 0 < d.dScale) (hwidthAtr : 0 < d.widthAtr)
    (hage : ∀ age ∈ w.feats.barsSinceBreakout, 0 ≤ age) :
    ∃ s c features, Says m (d.detector m) w ((w.feats.donchHi.isSome ∧ w.feats.donchLo.isSome ∧
      w.feats.atr.isSome) ∧ w.feats.donchRef.isSome ∧ w.feats.barsSinceBreakout.isSome ∧
        ∃ atr ∈ w.feats.atr, 0 < max atr (relFloor * |w.bar.c|)) s c features := by
  have hcompute : (d.detector m).compute w = d.compute m w := rfl
  unfold Donchian.compute at hcompute
  split at hcompute
  · rename_i u lo atr ref age hu hlo hatr href hbars
    dsimp only at hcompute
    split_ifs at hcompute with hpos
    · rw [floatDiv_pos hdScale, floatDiv_pos hwidthAtr] at hcompute
      -- the age is not negative, so the breakout only fades
      have hdecayed : -d.decay * age ≤ 0 := by
        rw [neg_mul, neg_nonpos]
        exact mul_nonneg hdecay (hage age hbars)
      have hfades : 0 ≤ m.exp (-d.decay * age) ∧ m.exp (-d.decay * age) ≤ 1 :=
        ⟨hm.exp_nonneg _, hm.exp_le_one _ hdecayed⟩
      have hwidth : 0 ≤ min 1 (max 0 ((u - lo) / max atr (relFloor * |w.bar.c|) / d.widthAtr)) :=
        le_min zero_le_one (le_max_left _ _)
      refine says_ready hcompute (hm.tanh_mem _)
        ⟨mul_nonneg hwidth hfades.1, mul_le_one₀ (min_le_left _ _) hfades.1 hfades.2⟩ ?_
        ⟨rfl, by simp [List.lookup_cons]⟩
      rw [hu, hlo, hatr, href, hbars]
      exact ⟨⟨rfl, rfl, rfl⟩, rfl, rfl, atr, rfl, hpos⟩
    · refine says_silent hcompute (fun hready => ?_) (.inl rfl)
      obtain ⟨-, -, -, atr', hatr', hpos'⟩ := hready
      rw [hatr] at hatr'
      cases hatr'
      exact hpos hpos'
  · rename_i hcold
    refine says_silent hcompute (fun hready => ?_) (.inl rfl)
    simp only [Option.isSome_iff_exists] at hready
    obtain ⟨⟨⟨u, hu⟩, ⟨lo, hlo⟩, ⟨atr, hatr⟩⟩, ⟨ref, href⟩, ⟨age, hbars⟩, -⟩ := hready
    exact hcold u lo atr ref age hu hlo hatr href hbars

/-- A share with either sign is a score. -/
theorem copysign_mem {x : ℚ} (h : 0 ≤ x ∧ x ≤ 1) (y : ℚ) :
    -1 ≤ RsiExhaustion.copysign x y ∧ RsiExhaustion.copysign x y ≤ 1 := by
  unfold RsiExhaustion.copysign
  rw [abs_of_nonneg h.1]
  split_ifs
  · exact ⟨by linarith [h.2], by linarith [h.1]⟩
  · exact ⟨by linarith [h.1], h.2⟩

/-- The exhaustion is heard once the index, both of its differences and the range are. -/
theorem RsiExhaustion.says (hm : m.Lawful) (d : RsiExhaustion) (hpower : 0 < d.power)
    (hconf : 0 < d.confPower) (hbase : 0 ≤ d.baseW) (hdiv : 0 ≤ d.divW)
    (hrsiScale : 0 < d.rsiScale) (hz0 : 0 < d.z0) :
    ∃ s c features, Says m (d.detector m) w (w.feats.rsi.isSome ∧ w.feats.rsiDelta.isSome ∧
      w.feats.closeDelta.isSome ∧ w.feats.atr.isSome) s c features := by
  have hcompute : (d.detector m).compute w = d.compute m w := rfl
  unfold RsiExhaustion.compute at hcompute
  split at hcompute
  -- all four features are there
  · rename_i rsi dRsi dPx atr hrsi hdRsi hdPx hatr
    dsimp only at hcompute
    rw [floatDiv_pos hrsiScale, floatDiv_pos hz0] at hcompute
    have hz : |min 1 (max (-1) ((50 - rsi) / 50))| ≤ 1 :=
      abs_le.mpr ⟨le_min (by norm_num) (le_max_left _ _), min_le_left _ _⟩
    generalize min 1 (max (-1) ((50 - rsi) / 50)) = z at hcompute hz
    have hstrength := hm.pow_mem |z| d.power (abs_nonneg z) hz hpower
    have hbasis := hm.pow_mem |z| d.confPower (abs_nonneg z) hz hconf
    refine says_ready hcompute ?_ ⟨?_, min_le_left _ _⟩ ?_
      ⟨rfl, by simp [List.lookup_cons]⟩
    · split_ifs
      · exact copysign_mem hstrength z
      · norm_num
    · -- both shares of the confidence are not negative
      refine le_min zero_le_one (add_nonneg (mul_nonneg hbase hbasis.1) (mul_nonneg hdiv ?_))
      exact mul_nonneg (le_max_left _ _) (le_max_left _ _)
    · rw [hrsi, hdRsi, hdPx, hatr]
      exact ⟨rfl, rfl, rfl, rfl⟩
  · rename_i hcold
    refine says_silent hcompute (fun hready => ?_) (.inl rfl)
    simp only [Option.isSome_iff_exists] at hready
    obtain ⟨⟨rsi, hrsi⟩, ⟨dRsi, hdRsi⟩, ⟨dPx, hdPx⟩, atr, hatr⟩ := hready
    exact hcold rsi dRsi dPx atr hrsi hdRsi hdPx hatr

/-- The bands are heard once the average, the deviation and the rank of their width are. -/
theorem BollingerZ.says (hm : m.Lawful) (d : BollingerZ) (hzScale : 0 < d.zScale) :
    ∃ s c features, Says m (d.detector m) w (w.feats.sma.isSome ∧ w.feats.sigma.isSome ∧
      w.feats.bbBwRank.isSome) s c features := by
  have hcompute : (d.detector m).compute w = d.compute m w := rfl
  unfold BollingerZ.compute at hcompute
  split at hcompute
  · rename_i mu sigma rho hmu hsigma hrho
    dsimp only at hcompute
    rw [floatDiv_pos hzScale] at hcompute
    have hrank : 0 ≤ min 1 (max 0 rho) ∧ min 1 (max 0 rho) ≤ 1 :=
      ⟨le_min zero_le_one (le_max_left _ _), min_le_left _ _⟩
    refine says_ready hcompute ?_ ⟨sub_nonneg.mpr hrank.2, sub_le_self 1 hrank.1⟩ ?_
      ⟨rfl, by simp [List.lookup_cons]⟩
    · obtain ⟨hlo, hhi⟩ := hm.tanh_mem
        ((if 0 < max sigma (relFloor * |mu|) then (w.bar.c - mu) / max sigma (relFloor * |mu|)
          else 0) / d.zScale)
      exact ⟨neg_le_neg hhi, neg_le.mp hlo⟩
    · rw [hmu, hsigma, hrho]
      exact ⟨rfl, rfl, rfl⟩
  -- without them it is silent
  · rename_i hcold
    refine says_silent hcompute (fun hready => ?_) (.inl rfl)
    simp only [Option.isSome_iff_exists] at hready
    obtain ⟨⟨mu, hmu⟩, ⟨sigma, hsigma⟩, rho, hrho⟩ := hready
    exact hcold mu sigma rho hmu hsigma hrho

/-! ### No score divides by zero -/

/-- The logistic divides by more than one, so it always returns. -/
theorem sigmaS_ok (hm : m.Lawful) (x : ℚ) : ∃ y, sigmaS m x = .ok y := by
  unfold sigmaS
  split_ifs
  · exact ⟨_, floatDiv_pos (by linarith [hm.exp_nonneg (-3 * x)]) _⟩
  · exact ⟨_, floatDiv_pos (by linarith [hm.exp_nonneg (3 * x)]) _⟩

/-- The floor relative to a price is not negative. -/
theorem relFloor_mul_nonneg (x : ℚ) : 0 ≤ relFloor * |x| := by
  unfold relFloor
  positivity

/-- The floor of a bar is positive even where its price is zero. -/
theorem barEps_pos (b : Bar ℚ) : 0 < barEps b :=
  add_pos_of_nonneg_of_pos (relFloor_mul_nonneg b.c) tiny_pos

/-- What a score divides by is positive. -/
theorem orEps_pos {eps : ℚ} (h : 0 < eps) (x : ℚ) : 0 < orEps x eps := by
  unfold orEps
  split_ifs with hx
  · exact h.trans hx
  · exact h

/-- The scores of a pin bar return for any bar and any range. -/
theorem pinBarScores_ok (hm : m.Lawful) (bar : Bar ℚ) (atr : ℚ) :
    ∃ scores, pinBarScores m bar atr = .ok scores := by
  have hdiv (x y : ℚ) : ∃ z, floatDiv x (orEps y (barEps bar)) = .ok z :=
    ⟨_, floatDiv_pos (orEps_pos (barEps_pos bar) y) x⟩
  have hsigma := sigmaS_ok hm
  unfold pinBarScores
  refine exists_ok_bind (hdiv _ _) fun _ => exists_ok_bind (hdiv _ _) fun _ => ?_
  refine exists_ok_bind (hsigma _) fun _ => exists_ok_bind (hdiv _ _) fun _ => ?_
  refine exists_ok_bind (hsigma _) fun _ => exists_ok_bind (hdiv _ _) fun _ => ?_
  refine exists_ok_bind (hsigma _) fun _ => exists_ok_bind (hdiv _ _) fun _ => ?_
  exact exists_ok_bind (hsigma _) fun _ => ⟨_, rfl⟩

/-- The scores of an engulfing bar return for any two bars and any range. -/
theorem engulfingScores_ok (hm : m.Lawful) (bar prev : Bar ℚ) (atr : ℚ) :
    ∃ scores, engulfingScores m bar prev atr = .ok scores := by
  have hdiv (x y : ℚ) : ∃ z, floatDiv x (orEps y (barEps bar)) = .ok z :=
    ⟨_, floatDiv_pos (orEps_pos (barEps_pos bar) y) x⟩
  have hsigma := sigmaS_ok hm
  unfold engulfingScores
  refine exists_ok_bind (hdiv _ _) fun _ => exists_ok_bind (hdiv _ _) fun _ => ?_
  refine exists_ok_bind (hdiv _ _) fun _ => exists_ok_bind (hdiv _ _) fun _ => ?_
  refine exists_ok_bind (hsigma _) fun _ => exists_ok_bind (hsigma _) fun _ => ?_
  refine exists_ok_bind (hsigma _) fun _ => exists_ok_bind (hsigma _) fun _ => ?_
  exact exists_ok_bind (hsigma _) fun _ => ⟨_, rfl⟩

/-- The candles are heard once the range and the channel are, from the second bar on. -/
theorem CandleGeometry.says (hm : m.Lawful) (d : CandleGeometry) :
    ∃ s c features, Says m (d.detector m) w (w.feats.atr.isSome ∧ w.feats.donchHi.isSome ∧
      w.feats.donchLo.isSome ∧ w.prev.isSome) s c features := by
  have hcompute : (d.detector m).compute w = d.compute m w := rfl
  unfold CandleGeometry.compute at hcompute
  split at hcompute
  · rename_i atr u lvlLo prev hatr hu hlo hprev
    obtain ⟨⟨pinB, pinS⟩, hpin⟩ := pinBarScores_ok hm w.bar atr
    obtain ⟨⟨engB, engS⟩, heng⟩ := engulfingScores_ok hm w.bar prev atr
    have hrange : 0 ≤ max atr (relFloor * |w.bar.c|) :=
      (relFloor_mul_nonneg w.bar.c).trans (le_max_right _ _)
    have ha : 0 < 2 * (max atr (relFloor * |w.bar.c|) + TINY) :=
      mul_pos two_pos (add_pos_of_nonneg_of_pos hrange tiny_pos)
    dsimp only at hcompute
    rw [hpin, heng, floatDiv_pos ha, floatDiv_pos ha] at hcompute
    refine says_ready hcompute ⟨le_min (by norm_num) (le_max_left _ _), min_le_left _ _⟩
      ⟨le_min zero_le_one (le_max_left _ _), min_le_left _ _⟩ ?_
      ⟨rfl, by simp [List.lookup_cons]⟩
    rw [hatr, hu, hlo, hprev]
    exact ⟨rfl, rfl, rfl, rfl⟩
  -- otherwise it is silent
  · rename_i hcold
    refine says_silent hcompute (fun hready => ?_) (.inl rfl)
    simp only [Option.isSome_iff_exists] at hready
    obtain ⟨⟨atr, hatr⟩, ⟨u, hu⟩, ⟨lo, hlo⟩, prev, hprev⟩ := hready
    exact hcold atr u lo prev hatr hu hlo hprev

/-- The volatility is heard once its rank is. -/
theorem VolRegime.says (d : VolRegime) :
    ∃ s c features, Says m (d.detector m) w (w.feats.volRank.isSome = true) s c features := by
  have hcompute : (d.detector m).compute w = d.compute m w := rfl
  unfold VolRegime.compute at hcompute
  split at hcompute
  · rename_i hnone
    exact says_silent hcompute (by rw [hnone]; exact Bool.false_ne_true) (.inr rfl)
  · rename_i v hv
    refine says_ready hcompute (by norm_num) (by norm_num) ?_
      ⟨rfl, by simp [List.lookup_cons]⟩
    rw [hv]
    rfl

end Answers

end FuzzHelm
