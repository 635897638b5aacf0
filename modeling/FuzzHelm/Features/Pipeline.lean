import FuzzHelm.Features.Indicators

namespace FuzzHelm

open Lib

/-!
# The feature pipeline

All that is kept of the bars: the indicators, their lags, and the last breakout of the channel.
One closed bar comes in, and the features at its close go out.

* `FeatureParams.warmup` — the number of bars that each feature needs;
* `FeaturePipeline.update` — one bar;
* `FeaturePipeline.run` — the features of a sequence of bars.
-/

/-- `FeatureParams`: the periods of the indicators, and how often sums are computed afresh. -/
structure FeatureParams (K : Type*) where
  nEma : ℕ
  emaHorizon : ℕ
  emaR2Points : ℕ
  nAtr : ℕ
  nRsi : ℕ
  rsiDivLookback : ℕ
  bbN : ℕ
  bbK : K
  bbRankWindow : ℕ
  donchianN : ℕ
  parkWindow : ℕ
  volRankWindow : ℕ
  volumeWindow : ℕ
  resyncEvery : ℤ

/-- The fields of `Features`. -/
inductive FeatureName where
  | ema
  | emaLag
  | emaR2
  | atr
  | rsi
  | rsiDelta
  | closeDelta
  | sma
  | sigma
  | bbUpper
  | bbLower
  | bbBw
  | bbBwRank
  | donchHi
  | donchLo
  | donchRef
  | donchDir
  | barsSinceBreakout
  | parkSigma
  | volRank
  | volMean
  | volZ
  deriving DecidableEq, Repr

/-- `warmup`: how many bars a feature needs.  The fields of the breakout depend on the data and
    are not listed. -/
def FeatureParams.warmup {K : Type*} (p : FeatureParams K) : List (FeatureName × ℕ) :=
  let k := p.rsiDivLookback
  [(.ema, p.nEma),
   (.emaLag, p.nEma + p.emaHorizon),
   (.emaR2, p.nEma + p.emaR2Points - 1),
   (.atr, p.nAtr + 1),
   (.rsi, p.nRsi + 1),
   (.rsiDelta, p.nRsi + 1 + k),
   (.closeDelta, k + 1),
   (.sma, p.bbN),
   (.sigma, p.bbN),
   (.bbUpper, p.bbN),
   (.bbLower, p.bbN),
   (.bbBw, p.bbN),
   (.bbBwRank, p.bbN + p.bbRankWindow - 1),
   (.donchHi, p.donchianN + 1),
   (.donchLo, p.donchianN + 1),
   (.parkSigma, p.parkWindow),
   (.volRank, p.parkWindow + p.volRankWindow - 1),
   (.volMean, p.volumeWindow),
   (.volZ, p.volumeWindow)]

/-- The features at the close of a bar; `none` is not warm yet. -/
structure Features (K : Type*) where
  ema : Option K
  emaLag : Option K
  emaR2 : Option K
  atr : Option K
  rsi : Option K
  rsiDelta : Option K
  closeDelta : Option K
  sma : Option K
  sigma : Option K
  bbUpper : Option K
  bbLower : Option K
  bbBw : Option K
  bbBwRank : Option K
  donchHi : Option K
  donchLo : Option K
  donchRef : Option K
  donchDir : Option K
  barsSinceBreakout : Option K
  parkSigma : Option K
  volRank : Option K
  volMean : Option K
  volZ : Option K

/-- `getattr(features, name)`, for the fields that there are. -/
def Features.get {K : Type*} (f : Features K) : FeatureName → Option K
  | .ema => f.ema
  | .emaLag => f.emaLag
  | .emaR2 => f.emaR2
  | .atr => f.atr
  | .rsi => f.rsi
  | .rsiDelta => f.rsiDelta
  | .closeDelta => f.closeDelta
  | .sma => f.sma
  | .sigma => f.sigma
  | .bbUpper => f.bbUpper
  | .bbLower => f.bbLower
  | .bbBw => f.bbBw
  | .bbBwRank => f.bbBwRank
  | .donchHi => f.donchHi
  | .donchLo => f.donchLo
  | .donchRef => f.donchRef
  | .donchDir => f.donchDir
  | .barsSinceBreakout => f.barsSinceBreakout
  | .parkSigma => f.parkSigma
  | .volRank => f.volRank
  | .volMean => f.volMean
  | .volZ => f.volZ

/-- A closed candle in numbers. -/
structure Bar (K : Type*) where
  tNs : ℤ
  o : K
  h : K
  l : K
  c : K
  v : K
  qv : K
  n : ℕ

/-- `FeaturePipeline`: the indicators, the queues of their lags, the last breakout, and the bars so
    far. -/
structure FeaturePipeline (K : Type*) where
  params : FeatureParams K
  ema : EMA K
  emaHist : List K
  emaOls : RollingOLS K
  atr : WilderATR K
  rsi : WilderRSI K
  rsiHist : List K
  closeHist : List K
  bb : RollingWelford K
  bwRank : PercentileRank K
  dmax : MonotonicDequeMax K
  dmin : MonotonicDequeMin K
  brkRef : Option K
  brkDir : Option K
  brkBars : Option K
  park : Parkinson K
  volRank : PercentileRank K
  volume : RollingWelford K
  n : ℕ

namespace FeaturePipeline

attribute [local instance] two_atLeastTwo ten_atLeastTwo

variable {K : Type*} [Field K] [LinearOrder K]

/-- `REL_FLOOR`: a deviation below it is rounding noise. -/
def relFloor : K := 1 / 10 ^ 9

/-- Every indicator checks its own period. -/
def new (p : FeatureParams K) : Except PyError (FeaturePipeline K) := do
  let ema ← EMA.new p.nEma
  let emaOls ← RollingOLS.new p.emaR2Points p.resyncEvery
  let atr ← WilderATR.new p.nAtr
  let rsi ← WilderRSI.new p.nRsi
  let bb ← RollingWelford.new p.bbN p.resyncEvery
  let bwRank ← PercentileRank.new p.bbRankWindow
  let dmax ← MonotonicDeque.new p.donchianN
  let dmin ← MonotonicDeque.new p.donchianN
  let park ← Parkinson.new p.parkWindow p.resyncEvery
  let volRank ← PercentileRank.new p.volRankWindow
  let volume ← RollingWelford.new p.volumeWindow p.resyncEvery
  return {
    params := p
    ema := ema
    emaHist := []
    emaOls := emaOls
    atr := atr
    rsi := rsi
    rsiHist := []
    closeHist := []
    bb := bb
    bwRank := bwRank
    dmax := dmax
    dmin := dmin
    brkRef := none
    brkDir := none
    brkBars := none
    park := park
    volRank := volRank
    volume := volume
    n := 0 }

/-! ### The parts of `update` -/

/-- What a queue of length `maxlen` holds first, once it is full. -/
def lagged (maxlen : ℕ) (q : List K) : Option K := if q.length = maxlen then q.head? else none

/-- The lag of the average, the fit of its last values, and what is kept for them. -/
def trend (fp : FeaturePipeline K) : Option K → (Option K × Option K) × List K × RollingOLS K
  | none => ((none, none), fp.emaHist, fp.emaOls)
  | some ema =>
    let maxlen := fp.params.emaHorizon + 1
    let hist := boundedAppend maxlen fp.emaHist ema
    let ols := fp.emaOls.update ema
    ((lagged maxlen hist, if ols.1.isSome then ols.2.r2 else none), hist, ols.2)

/-- The change of the index over the lookback, and what is kept for it. -/
def momentum (fp : FeaturePipeline K) : Option K → Option K × List K
  | none => (none, fp.rsiHist)
  | some rsi =>
    let maxlen := fp.params.rsiDivLookback + 1
    let hist := boundedAppend maxlen fp.rsiHist rsi
    ((lagged maxlen hist).map (rsi - ·), hist)

/-- The bands about the mean, and the rank of their width. -/
structure Bands (K : Type*) where
  sigma : Option K
  upper : Option K
  lower : Option K
  bw : Option K
  bwRank : Option K

/-- The width of the bands relative to the mean. -/
def bandwidth (sma sigma : K) : K := if 0 < |sma| then 2 * sigma / |sma| else 0

/-- The bands about the mean, and the rank of their width once there is one. -/
def bands (fp : FeaturePipeline K) (sma sigma : Option K) : Bands K × PercentileRank K :=
  match sma, sigma with
  | some sma, some sigma =>
    let bw := bandwidth sma sigma
    let rank := fp.bwRank.update bw
    (⟨some sigma, some (sma + fp.params.bbK * sigma), some (sma - fp.params.bbK * sigma), some bw,
      rank.1⟩, rank.2)
  | _, _ => (⟨none, none, none, none, none⟩, fp.bwRank)

/-- The level and the direction of the last breakout, and the bars since. -/
def breakout (fp : FeaturePipeline K) (u d : Option K) (c : K) :
    Option K × Option K × Option K :=
  match u, d with
  | some u, some d =>
    if u < c then (some u, some 1, some 0)
    else if c < d then (some d, some (-1), some 0)
    else (fp.brkRef, fp.brkDir, fp.brkBars.map (· + 1))
  | _, _ => (fp.brkRef, fp.brkDir, fp.brkBars)

/-- The rank of a volatility, once there is one. -/
def rankOf (fp : FeaturePipeline K) : Option K → Option K × PercentileRank K
  | none => (none, fp.volRank)
  | some park => fp.volRank.update park

/-- A spread at the level of rounding noise gives no score. -/
def zScore (v vm vs : K) : K := if relFloor * |vm| < vs ∧ 0 < vs then (v - vm) / vs else 0

/-! ### A bar -/

/-- `FeaturePipeline.update`: one closed bar, and the features at its close. -/
def update (fns : RealFunctions K) (fp : FeaturePipeline K) (bar : Bar K) :
    Features K × FeaturePipeline K :=
  let p := fp.params
  let ema := fp.ema.update bar.c
  let trend := fp.trend ema.1
  let atr := fp.atr.update bar.h bar.l bar.c
  let rsi := fp.rsi.update bar.c
  let closeHist := boundedAppend (p.rsiDivLookback + 1) fp.closeHist bar.c
  let closeDelta := (lagged (p.rsiDivLookback + 1) closeHist).map (bar.c - ·)
  let momentum := fp.momentum rsi.1
  let bb := fp.bb.update bar.c
  let bands := fp.bands bb.1 (bb.2.std fns)
  -- the channel of the bars before, and then the bar enters it
  let u := fp.dmax.value
  let d := fp.dmin.value.map OrderDual.ofDual
  let dmax := fp.dmax.update bar.h
  let dmin := fp.dmin.update (OrderDual.toDual bar.l)
  let brk := fp.breakout u d bar.c
  let park := fp.park.update fns bar.h bar.l
  let volRank := fp.rankOf park.1
  let volume := fp.volume.update bar.v
  let volZ := volume.1.bind fun vm => (volume.2.std fns).map fun vs => zScore bar.v vm vs
  ({ ema := ema.1
     emaLag := trend.1.1
     emaR2 := trend.1.2
     atr := atr.1
     rsi := rsi.1
     rsiDelta := momentum.1
     closeDelta := closeDelta
     sma := bb.1
     sigma := bands.1.sigma
     bbUpper := bands.1.upper
     bbLower := bands.1.lower
     bbBw := bands.1.bw
     bbBwRank := bands.1.bwRank
     donchHi := u
     donchLo := d
     donchRef := brk.1
     donchDir := brk.2.1
     barsSinceBreakout := brk.2.2
     parkSigma := park.1
     volRank := volRank.1
     volMean := volume.1
     volZ := volZ },
   { fp with
     ema := ema.2
     emaHist := trend.2.1
     emaOls := trend.2.2
     atr := atr.2
     rsi := rsi.2
     rsiHist := momentum.2
     closeHist := closeHist
     bb := bb.2
     bwRank := bands.2
     dmax := dmax.2
     dmin := dmin.2
     brkRef := brk.1
     brkDir := brk.2.1
     brkBars := brk.2.2
     park := park.2
     volRank := volRank.2
     volume := volume.2
     n := fp.n + 1 })

/-- `run`: the features at the close of each bar. -/
def run (fns : RealFunctions K) (fp : FeaturePipeline K) : List (Bar K) → List (Features K)
  | [] => []
  | bar :: bars => (fp.update fns bar).1 :: run fns (fp.update fns bar).2 bars

/-- The pipeline after a sequence of bars. -/
def after (fns : RealFunctions K) (fp : FeaturePipeline K) (bars : List (Bar K)) :
    FeaturePipeline K :=
  bars.foldl (fun fp bar => (fp.update fns bar).2) fp

/-- The features at the last of the bars. -/
theorem run_concat (fns : RealFunctions K) (fp : FeaturePipeline K) (bars : List (Bar K))
    (bar : Bar K) :
    fp.run fns (bars ++ [bar]) = fp.run fns bars ++ [((fp.after fns bars).update fns bar).1] := by
  induction bars generalizing fp with
  | nil => rfl
  | cons b bars ih =>
    rw [List.cons_append, run, ih, run, List.cons_append]
    rfl

/-- Every member of a run is the answer to a bar after the bars before it. -/
theorem run_getElem? {fns : RealFunctions K} {fp : FeaturePipeline K} {bars : List (Bar K)} {k : ℕ}
    {feats : Features K} (h : (fp.run fns bars)[k]? = some feats) :
    ∃ xs b, xs.length = k ∧ feats = ((fp.after fns xs).update fns b).1 := by
  induction bars generalizing fp k with
  | nil => simp [run] at h
  | cons b bars ih =>
    cases k with
    | zero =>
      rw [run, List.getElem?_cons_zero, Option.some.injEq] at h
      exact ⟨[], b, rfl, h.symm⟩
    | succ k =>
      rw [run, List.getElem?_cons_succ] at h
      obtain ⟨xs, b', hlen, hfeats⟩ := ih h
      exact ⟨b :: xs, b', by rw [List.length_cons, hlen], hfeats⟩

end FeaturePipeline

end FuzzHelm
