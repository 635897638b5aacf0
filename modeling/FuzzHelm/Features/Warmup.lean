import FuzzHelm.Features.Pipeline
import FuzzHelm.Features.Trackers
import FuzzHelm.Lib.Run
import Mathlib.Analysis.SpecialFunctions.Log.Basic

namespace FuzzHelm

open Lib

/-!
# Warm-up and memory of the features

From which bar on a feature has a value, and which bars that value depends on.

* `FeatureParams.batch` — a windowed feature computed from scratch, from the bars of its warm-up
  and no others;
* `FeaturePipeline.Tracks` — what the pipeline keeps after a sequence of bars;
* `Tracks.windowed` — the pipeline gives the feature that `batch` gives;
* `warmup_exact` — a feature has no value before the bar of its warm-up and one from it on, and
  histories that agree on the bars of the warm-up agree on a windowed feature.
-/

set_option linter.unusedSectionVars false

attribute [local instance] two_atLeastTwo

variable {K : Type*} [Field K] [LinearOrder K]

/-! ### Windowed features from scratch -/

/-- The closes of some bars. -/
def closes (bars : List (Bar K)) : List K := bars.map Bar.c

/-- The volumes of some bars. -/
def volumes (bars : List (Bar K)) : List K := bars.map Bar.v

/-- The close of one more bar comes last. -/
theorem closes_concat (xs : List (Bar K)) (b : Bar K) : closes (xs ++ [b]) = closes xs ++ [b.c] :=
  List.map_append

/-- The squared logarithms of the ranges. -/
def squaredRanges (fns : RealFunctions K) (bars : List (Bar K)) : List K :=
  bars.map fun b => logRangeSq fns b.h b.l

/-- The standard deviation of a window of `n`. -/
def deviation (fns : RealFunctions K) (n : ℕ) (window : List K) : K :=
  fns.sqrt (sqDev window / n)

/-- The relative width of the bands of a window of `n`. -/
def widthOf (fns : RealFunctions K) (n : ℕ) (window : List K) : K :=
  FeaturePipeline.bandwidth (mean window) (deviation fns n window)

/-- The rank of the last of some values among them. -/
def rankOfLast (xs : List K) : K := PercentileRank.shareUpTo xs (xs.getLastD 0)

/-- The features with a finite memory. -/
def windowedFeatures : List FeatureName :=
  [.closeDelta, .sma, .sigma, .bbUpper, .bbLower, .bbBw, .bbBwRank, .donchHi, .donchLo,
    .parkSigma, .volRank, .volMean, .volZ]

/-- A windowed feature from the bars of its warm-up alone. -/
def FeatureParams.batch (fns : RealFunctions K) (p : FeatureParams K) (bars : List (Bar K)) :
    FeatureName → K
  | .closeDelta => (closes bars).getLastD 0 - (closes bars).headD 0
  | .sma => mean (closes bars)
  | .sigma => deviation fns p.bbN (closes bars)
  | .bbUpper => mean (closes bars) + p.bbK * deviation fns p.bbN (closes bars)
  | .bbLower => mean (closes bars) - p.bbK * deviation fns p.bbN (closes bars)
  | .bbBw => widthOf fns p.bbN (closes bars)
  | .bbBwRank => rankOfLast ((windows p.bbN (closes bars)).map (widthOf fns p.bbN))
  | .donchHi => (bars.dropLast.map Bar.h).max?.getD 0
  | .donchLo => (bars.dropLast.map Bar.l).min?.getD 0
  | .parkSigma => Parkinson.sigma fns p.parkWindow (squaredRanges fns bars).sum
  | .volRank => rankOfLast ((windows p.parkWindow (squaredRanges fns bars)).map fun w =>
      Parkinson.sigma fns p.parkWindow w.sum)
  | .volMean => mean (volumes bars)
  | .volZ => FeaturePipeline.zScore ((volumes bars).getLastD 0) (mean (volumes bars))
      (deviation fns p.volumeWindow (volumes bars))
  | _ => 0

/-! ### The last elements -/

/-- A window that is not empty ends with the newest value. -/
theorem getLastD_rtake_concat {α : Type*} {n : ℕ} (hn : 0 < n) (xs : List α) (x d : α) :
    ((xs ++ [x]).rtake n).getLastD d = x := by
  obtain ⟨m, rfl⟩ : ∃ m, n = m + 1 := ⟨n - 1, by omega⟩
  rw [List.rtake_concat_succ, List.getLastD_concat]

/-- The rank among the values of all windows, for the last of them. -/
theorem PercentileRank.Tracks.rank {n m : ℕ} {p : PercentileRank K} {xs : List K} {f : List K → K}
    (hm : 0 < m) (h : PercentileRank.Tracks n p ((windows m xs).map f)) (x : K)
    (hle : m ≤ xs.length + 1) :
    PercentileRank.Tracks n (p.update (f ((xs ++ [x]).rtake m))).2
        ((windows m (xs ++ [x])).map f) ∧
      (p.update (f ((xs ++ [x]).rtake m))).1 = if m + n - 1 ≤ xs.length + 1 then
        some (rankOfLast ((windows m ((xs ++ [x]).rtake (m + n - 1))).map f)) else none := by
  have hwindows : (windows m (xs ++ [x])).map f =
      (windows m xs).map f ++ [f ((xs ++ [x]).rtake m)] := by
    rw [windows_concat, if_pos hle, List.map_append, List.map_cons, List.map_nil]
  obtain ⟨htracks, hvalue⟩ := h.update (f ((xs ++ [x]).rtake m))
  rw [← hwindows] at htracks hvalue
  refine ⟨htracks, ?_⟩
  have hwarm : n ≤ ((windows m xs).map f).length + 1 ↔ m + n - 1 ≤ xs.length + 1 := by
    rw [List.length_map, length_windows hm]
    omega
  have hlast : ((windows m (xs ++ [x])).map f).rtake n =
      (windows m ((xs ++ [x]).rtake (m + n - 1))).map f := by
    rw [rtake_map, rtake_windows hm]
  rw [hvalue, hlast, rankOfLast, ← hlast, hwindows, getLastD_rtake_concat h.pos]
  simp only [hwarm]

variable [IsStrictOrderedRing K]

/-- The deviation is that of the last `n` values, as soon as there are so many. -/
theorem RollingWelford.Tracks.std {n : ℕ} {w : RollingWelford K} {xs : List K}
    (h : RollingWelford.Tracks n w xs) (fns : RealFunctions K) :
    w.std fns = if n ≤ xs.length then some (deviation fns n (xs.rtake n)) else none := by
  have hiff : w.buf.count = n ↔ n ≤ xs.length := by
    rw [h.holds.count]
    omega
  simp only [RollingWelford.std, h.m2, h.size, hiff, deviation]

/-! ### What the pipeline keeps -/

namespace FeaturePipeline

variable {fns : RealFunctions K} {p : FeatureParams K} {fp : FeaturePipeline K}
  {xs : List (Bar K)}

/-- The pipeline after the bars `xs`.  Of the recurrent filters only the number of their values
    is followed. -/
structure Tracks (fns : RealFunctions K) (p : FeatureParams K) (fp : FeaturePipeline K)
    (xs : List (Bar K)) : Prop where
  params : fp.params = p
  ema : EMA.Counts p.nEma fp.ema xs.length
  emaOls : ∃ es : List K, es.length = xs.length + 1 - p.nEma ∧
    fp.emaHist = es.rtake (p.emaHorizon + 1) ∧ RollingOLS.Tracks p.emaR2Points fp.emaOls es
  atr : WilderATR.Counts p.nAtr fp.atr xs.length
  rsi : WilderRSI.Counts p.nRsi fp.rsi xs.length
  rsiHist : ∃ rs : List K,
    rs.length = xs.length - p.nRsi ∧ fp.rsiHist = rs.rtake (p.rsiDivLookback + 1)
  closeHist : fp.closeHist = (closes xs).rtake (p.rsiDivLookback + 1)
  bb : RollingWelford.Tracks p.bbN fp.bb (closes xs)
  bwRank : PercentileRank.Tracks p.bbRankWindow fp.bwRank
    ((windows p.bbN (closes xs)).map (widthOf fns p.bbN))
  dmax : MonotonicDeque.Tracks p.donchianN fp.dmax (xs.map Bar.h)
  dmin : MonotonicDeque.Tracks p.donchianN fp.dmin (xs.map fun b => OrderDual.toDual b.l)
  park : Parkinson.Tracks p.parkWindow fp.park (squaredRanges fns xs)
  volRank : PercentileRank.Tracks p.volRankWindow fp.volRank
    ((windows p.parkWindow (squaredRanges fns xs)).map fun w =>
      Parkinson.sigma fns p.parkWindow w.sum)
  volume : RollingWelford.Tracks p.volumeWindow fp.volume (volumes xs)

/-- A new pipeline has seen no bar. -/
theorem Tracks.new (fns : RealFunctions K) (h : FeaturePipeline.new p = .ok fp) :
    Tracks fns p fp [] := by
  unfold FeaturePipeline.new at h
  obtain ⟨ema, hema, h⟩ := bind_eq_ok.mp h
  obtain ⟨ols, hols, h⟩ := bind_eq_ok.mp h
  obtain ⟨atr, hatr, h⟩ := bind_eq_ok.mp h
  obtain ⟨rsi, hrsi, h⟩ := bind_eq_ok.mp h
  obtain ⟨bb, hbb, h⟩ := bind_eq_ok.mp h
  obtain ⟨bwRank, hbwRank, h⟩ := bind_eq_ok.mp h
  obtain ⟨dmax, hdmax, h⟩ := bind_eq_ok.mp h
  obtain ⟨dmin, hdmin, h⟩ := bind_eq_ok.mp h
  obtain ⟨park, hpark, h⟩ := bind_eq_ok.mp h
  obtain ⟨volRank, hvolRank, h⟩ := bind_eq_ok.mp h
  obtain ⟨volume, hvolume, h⟩ := bind_eq_ok.mp h
  cases h
  have hbbTracks := RollingWelford.Tracks.new hbb
  have hparkTracks := Parkinson.Tracks.new hpark
  have hemaCounts := EMA.Counts.new hema
  have hbw : PercentileRank.Tracks p.bbRankWindow bwRank
      ((windows p.bbN (closes ([] : List (Bar K)))).map (widthOf fns p.bbN)) := by
    rw [closes, List.map_nil, windows_nil hbbTracks.pos]
    exact .new hbwRank
  have hvr : PercentileRank.Tracks p.volRankWindow volRank
      ((windows p.parkWindow (squaredRanges fns [])).map fun w =>
        Parkinson.sigma fns p.parkWindow w.sum) := by
    rw [squaredRanges, List.map_nil, windows_nil hparkTracks.pos]
    exact .new hvolRank
  have hols' : ∃ es : List K, es.length = ([] : List (Bar K)).length + 1 - p.nEma ∧
      ([] : List K) = es.rtake (p.emaHorizon + 1) ∧ RollingOLS.Tracks p.emaR2Points ols es := by
    refine ⟨[], ?_, (List.rtake_nil _).symm, .new hols⟩
    have := hemaCounts.pos
    simp only [List.length_nil]
    omega
  exact ⟨rfl, hemaCounts, hols', .new hatr, .new hrsi, ⟨[], by simp, by simp⟩, by simp [closes],
    hbbTracks, hbw, .new hdmax, .new hdmin, hparkTracks, hvr, .new hvolume⟩

/-! ### A bar -/

section Step

variable (h : Tracks fns p fp xs) (b : Bar K)
include h

omit h in
/-- A queue has its lag when it is full. -/
theorem isSome_lagged {maxlen : ℕ} (hpos : 0 < maxlen) (q : List K) :
    (lagged maxlen q).isSome ↔ q.length = maxlen := by
  unfold lagged
  split_ifs with hlen
  · simp only [hlen, iff_true]
    cases q with
    | nil =>
      rw [List.length_nil] at hlen
      omega
    | cons x q => rfl
  · simp [hlen]

omit h in
/-- The fit is there when the window of the regression is full. -/
theorem isSome_r2 {n : ℕ} {o : RollingOLS K} {es : List K} (h : RollingOLS.Tracks n o es) :
    o.r2.isSome ↔ n ≤ es.length := by
  rw [← h.count_eq, RollingOLS.r2]
  by_cases hcount : o.buf.count = o.n
  · rw [if_neg (not_not.mpr hcount)]
    dsimp only
    split_ifs <;> simp [hcount]
  · rw [if_pos hcount]
    simp [hcount]

/-- The average, its lag and its fit. -/
theorem Tracks.trend :
    (((fp.trend (fp.ema.update b.c).1).1.1.isSome ↔ p.nEma + p.emaHorizon ≤ xs.length + 1) ∧
      ((fp.trend (fp.ema.update b.c).1).1.2.isSome ↔ p.nEma + p.emaR2Points - 1 ≤ xs.length + 1)) ∧
    ∃ es : List K, es.length = xs.length + 1 + 1 - p.nEma ∧
      (fp.trend (fp.ema.update b.c).1).2.1 = es.rtake (p.emaHorizon + 1) ∧
      RollingOLS.Tracks p.emaR2Points (fp.trend (fp.ema.update b.c).1).2.2 es := by
  obtain ⟨es, hlen, hhist, hols⟩ := h.emaOls
  have htwo := hols.two_le
  have hwarm := (h.ema.update b.c).2
  -- the regression sees the EMA only from bar `nEma` on
  cases hema : (fp.ema.update b.c).1 with
  | none =>
    have hlt : ¬p.nEma ≤ xs.length + 1 := fun hle => by
      rw [hema] at hwarm
      simpa using hwarm.mpr hle
    refine ⟨⟨?_, ?_⟩, es, by omega, hhist, hols⟩ <;>
    · simp only [FeaturePipeline.trend, Option.isSome_none, Bool.false_eq_true, false_iff]
      omega
  | some e =>
    have hle : p.nEma ≤ xs.length + 1 := hwarm.mp (by rw [hema]; rfl)
    have hols' := hols.update e
    have hnew : boundedAppend (p.emaHorizon + 1) fp.emaHist e =
        (es ++ [e]).rtake (p.emaHorizon + 1) := by
      rw [hhist, boundedAppend_rtake]
    have hlen' : (es ++ [e]).length = xs.length + 1 + 1 - p.nEma := by
      rw [length_concat]
      omega
    refine ⟨⟨?_, ?_⟩, es ++ [e], hlen', ?_, hols'.1⟩
    · show (lagged (fp.params.emaHorizon + 1)
        (boundedAppend (fp.params.emaHorizon + 1) fp.emaHist e)).isSome ↔ _
      rw [h.params, hnew, isSome_lagged (Nat.succ_pos _), length_rtake]
      omega
    · show (if (fp.emaOls.update e).1.isSome then (fp.emaOls.update e).2.r2 else none).isSome ↔ _
      have hr2 := isSome_r2 hols'.1
      have hslope : (fp.emaOls.update e).1.isSome ↔ p.emaR2Points ≤ (es ++ [e]).length := by
        rw [hols'.2, hols'.1.slope]
        split_ifs with hfull
        · simp only [Option.isSome_some, hfull]
        · simp only [Option.isSome_none, Bool.false_eq_true, hfull]
      by_cases hfull : p.emaR2Points ≤ (es ++ [e]).length
      · rw [if_pos (hslope.mpr hfull), hr2]
        omega
      · rw [if_neg (mt hslope.mp hfull)]
        simp only [Option.isSome_none, Bool.false_eq_true, false_iff]
        omega
    · show boundedAppend (fp.params.emaHorizon + 1) fp.emaHist e = _
      rw [h.params, hnew]

/-- The change of the strength index. -/
theorem Tracks.momentum :
    ((fp.momentum (fp.rsi.update b.c).1).1.isSome ↔
      p.nRsi + 1 + p.rsiDivLookback ≤ xs.length + 1) ∧
    ∃ rs : List K, rs.length = xs.length + 1 - p.nRsi ∧
      (fp.momentum (fp.rsi.update b.c).1).2 = rs.rtake (p.rsiDivLookback + 1) := by
  obtain ⟨rs, hlen, hhist⟩ := h.rsiHist
  have hwarm := (h.rsi.update b.c).2
  -- the history of the RSI begins with its first value
  cases hrsi : (fp.rsi.update b.c).1 with
  | none =>
    have hlt : ¬p.nRsi + 1 ≤ xs.length + 1 := fun hle => by
      rw [hrsi] at hwarm
      simpa using hwarm.mpr hle
    refine ⟨?_, rs, by omega, hhist⟩
    simp only [FeaturePipeline.momentum, Option.isSome_none, Bool.false_eq_true, false_iff]
    omega
  | some r =>
    have hle : p.nRsi + 1 ≤ xs.length + 1 := hwarm.mp (by rw [hrsi]; rfl)
    have hnew : boundedAppend (p.rsiDivLookback + 1) fp.rsiHist r =
        (rs ++ [r]).rtake (p.rsiDivLookback + 1) := by
      rw [hhist, boundedAppend_rtake]
    refine ⟨?_, rs ++ [r], by rw [length_concat]; omega, ?_⟩
    · show ((lagged (fp.params.rsiDivLookback + 1)
        (boundedAppend (fp.params.rsiDivLookback + 1) fp.rsiHist r)).map _).isSome ↔ _
      rw [Option.isSome_map, h.params, hnew, isSome_lagged (Nat.succ_pos _), length_rtake,
        length_concat]
      omega
    · show boundedAppend (fp.params.rsiDivLookback + 1) fp.rsiHist r = _
      rw [h.params, hnew]

/-- The mean and the deviation of the closes. -/
theorem Tracks.bbValues :
    RollingWelford.Tracks p.bbN (fp.bb.update b.c).2 (closes (xs ++ [b])) ∧
    (fp.bb.update b.c).1 = (if p.bbN ≤ xs.length + 1 then
      some (mean (closes ((xs ++ [b]).rtake p.bbN))) else none) ∧
    (fp.bb.update b.c).2.std fns = (if p.bbN ≤ xs.length + 1 then
      some (deviation fns p.bbN (closes ((xs ++ [b]).rtake p.bbN))) else none) := by
  obtain ⟨htracks, hvalue⟩ := h.bb.update b.c
  rw [← closes_concat] at htracks
  have hlen : (closes (xs ++ [b])).length = xs.length + 1 := by
    rw [closes, List.length_map, List.length_append, List.length_singleton]
  refine ⟨htracks, ?_, ?_⟩
  · rw [hvalue, htracks.value, hlen, closes, rtake_map, closes]
  · rw [htracks.std, hlen, closes, rtake_map, closes]

/-- The bands and the rank of their width. -/
theorem Tracks.bands :
    let out := fp.bands (fp.bb.update b.c).1 ((fp.bb.update b.c).2.std fns)
    let ys := xs ++ [b]
    (out.1.sigma = if p.bbN ≤ xs.length + 1 then
      some (p.batch fns (ys.rtake p.bbN) .sigma) else none) ∧
    (out.1.upper = if p.bbN ≤ xs.length + 1 then
      some (p.batch fns (ys.rtake p.bbN) .bbUpper) else none) ∧
    (out.1.lower = if p.bbN ≤ xs.length + 1 then
      some (p.batch fns (ys.rtake p.bbN) .bbLower) else none) ∧
    (out.1.bw = if p.bbN ≤ xs.length + 1 then
      some (p.batch fns (ys.rtake p.bbN) .bbBw) else none) ∧
    out.1.bwRank = (if p.bbN + p.bbRankWindow - 1 ≤ xs.length + 1 then
      some (p.batch fns (ys.rtake (p.bbN + p.bbRankWindow - 1)) .bbBwRank) else none) ∧
    PercentileRank.Tracks p.bbRankWindow out.2
      ((windows p.bbN (closes ys)).map (widthOf fns p.bbN)) := by
  obtain ⟨-, hmean, hstd⟩ := h.bbValues b
  have hpos := h.bb.pos
  have hrankPos := h.bwRank.pos
  have hlen : (closes xs).length = xs.length := List.length_map _
  dsimp only
  rw [hmean, hstd]
  -- with a full window all five values are those of the last `bbN` closes
  by_cases hle : p.bbN ≤ xs.length + 1
  · simp only [if_pos hle]
    have hrank := h.bwRank.rank hpos b.c (by rw [hlen]; exact hle)
    rw [← closes_concat, hlen] at hrank
    have hwidth : widthOf fns p.bbN ((closes (xs ++ [b])).rtake p.bbN) =
        FeaturePipeline.bandwidth (mean (closes ((xs ++ [b]).rtake p.bbN)))
          (deviation fns p.bbN (closes ((xs ++ [b]).rtake p.bbN))) := by
      rw [closes, rtake_map, widthOf, closes]
    rw [hwidth] at hrank
    refine ⟨rfl, ?_, ?_, rfl, ?_, hrank.1⟩
    · show some (_ + fp.params.bbK * _) = _
      rw [h.params]
      rfl
    · show some (_ - fp.params.bbK * _) = _
      rw [h.params]
      rfl
    · have hwindow (n : ℕ) : (closes (xs ++ [b])).rtake n = closes ((xs ++ [b]).rtake n) := by
        rw [closes, rtake_map, closes]
      rw [hwindow (p.bbN + p.bbRankWindow - 1)] at hrank
      exact hrank.2
  · have hwindows : windows p.bbN (closes (xs ++ [b])) = windows p.bbN (closes xs) := by
      rw [closes_concat, windows_concat, hlen, if_neg hle, List.append_nil]
    simp only [if_neg hle]
    rw [if_neg (by omega), hwindows]
    exact ⟨rfl, rfl, rfl, rfl, rfl, h.bwRank⟩

/-- The channel of the bars before the last one. -/
theorem Tracks.channel :
    (fp.dmax.value = if p.donchianN + 1 ≤ xs.length + 1 then
      some (p.batch fns ((xs ++ [b]).rtake (p.donchianN + 1)) .donchHi) else none) ∧
    (fp.dmin.value.map OrderDual.ofDual = if p.donchianN + 1 ≤ xs.length + 1 then
      some (p.batch fns ((xs ++ [b]).rtake (p.donchianN + 1)) .donchLo) else none) := by
  have hpos := h.dmax.pos
  -- the channel is read before the bar is pushed, so it is that of the bars before
  have hbefore : ((xs ++ [b]).rtake (p.donchianN + 1)).dropLast = xs.rtake p.donchianN := by
    rw [List.rtake_concat_succ, List.dropLast_concat]
  have hhi := h.dmax.value
  have hlo := h.dmin.value
  rw [List.length_map, rtake_map] at hhi hlo
  -- the two deques are full together
  by_cases hle : p.donchianN ≤ xs.length
  · have hne : xs.rtake p.donchianN ≠ [] := by
      intro hnil
      have := length_rtake p.donchianN xs
      rw [hnil, List.length_nil] at this
      omega
    rw [if_pos hle] at hhi hlo
    rw [if_pos (by omega), if_pos (by omega)]
    simp only [FeatureParams.batch, hbefore]
    constructor
    · rw [hhi]
      cases hm : ((xs.rtake p.donchianN).map Bar.h).max? with
      | none => exact absurd (List.map_eq_nil_iff.mp (List.max?_eq_none_iff.mp hm)) hne
      | some m => rfl
    · -- the maximum in the order turned round is the minimum
      rw [hlo]
      cases hm : ((xs.rtake p.donchianN).map Bar.l).min? with
      | none => exact absurd (List.map_eq_nil_iff.mp (List.min?_eq_none_iff.mp hm)) hne
      | some m =>
        obtain ⟨hmem, hleast⟩ := List.min?_eq_some_iff.mp hm
        have hdual : ((xs.rtake p.donchianN).map fun b => OrderDual.toDual b.l).max? =
            some (OrderDual.toDual m) := by
          rw [List.max?_eq_some_iff]
          obtain ⟨x, hx, rfl⟩ := List.mem_map.mp hmem
          refine ⟨List.mem_map.mpr ⟨x, hx, rfl⟩, fun y hy => ?_⟩
          obtain ⟨z, hz, rfl⟩ := List.mem_map.mp hy
          exact OrderDual.toDual_le_toDual.mpr (hleast _ (List.mem_map.mpr ⟨z, hz, rfl⟩))
        rw [hdual]
        rfl
  · rw [if_neg hle] at hhi hlo
    rw [if_neg (by omega), if_neg (by omega), hhi, hlo]
    exact ⟨rfl, rfl⟩

/-- The volatility and its rank. -/
theorem Tracks.volatility :
    let park := fp.park.update fns b.h b.l
    let ys := xs ++ [b]
    park.1 = (if p.parkWindow ≤ xs.length + 1 then
      some (p.batch fns (ys.rtake p.parkWindow) .parkSigma) else none) ∧
    Parkinson.Tracks p.parkWindow park.2 (squaredRanges fns ys) ∧
    (fp.rankOf park.1).1 = (if p.parkWindow + p.volRankWindow - 1 ≤ xs.length + 1 then
      some (p.batch fns (ys.rtake (p.parkWindow + p.volRankWindow - 1)) .volRank) else none) ∧
    PercentileRank.Tracks p.volRankWindow (fp.rankOf park.1).2
      ((windows p.parkWindow (squaredRanges fns ys)).map fun w =>
        Parkinson.sigma fns p.parkWindow w.sum) := by
  obtain ⟨htracks, hvalue⟩ := h.park.update fns b.h b.l
  have hpos := h.park.pos
  have hrankPos := h.volRank.pos
  have hlen : (squaredRanges fns xs).length = xs.length := List.length_map _
  -- the bar brings one squared log range
  have hconcat : squaredRanges fns (xs ++ [b]) = squaredRanges fns xs ++ [logRangeSq fns b.h b.l] :=
    List.map_append
  rw [← hconcat] at htracks hvalue
  rw [hlen] at hvalue
  have hwindow (n : ℕ) :
      (squaredRanges fns (xs ++ [b])).rtake n = squaredRanges fns ((xs ++ [b]).rtake n) := by
    rw [squaredRanges, rtake_map, squaredRanges]
  rw [hwindow] at hvalue
  dsimp only
  refine ⟨hvalue, htracks, ?_⟩
  rw [hvalue]
  -- the rank takes its first value when the first window is full
  by_cases hle : p.parkWindow ≤ xs.length + 1
  · rw [if_pos hle]
    have hrank := h.volRank.rank hpos (logRangeSq fns b.h b.l) (by rw [hlen]; exact hle)
    rw [← hconcat, hlen, hwindow, hwindow] at hrank
    exact ⟨hrank.2, hrank.1⟩
  · have hwindows : windows p.parkWindow (squaredRanges fns (xs ++ [b])) =
        windows p.parkWindow (squaredRanges fns xs) := by
      rw [hconcat, windows_concat, hlen, if_neg hle, List.append_nil]
    rw [if_neg hle, if_neg (by omega), hwindows]
    exact ⟨rfl, h.volRank⟩

/-- The mean of the volumes and the score of the last. -/
theorem Tracks.volumes :
    let volume := fp.volume.update b.v
    let ys := xs ++ [b]
    RollingWelford.Tracks p.volumeWindow volume.2 (FuzzHelm.volumes ys) ∧
    volume.1 = (if p.volumeWindow ≤ xs.length + 1 then
      some (p.batch fns (ys.rtake p.volumeWindow) .volMean) else none) ∧
    (volume.1.bind fun vm => (volume.2.std fns).map fun vs => zScore b.v vm vs) =
      (if p.volumeWindow ≤ xs.length + 1 then
        some (p.batch fns (ys.rtake p.volumeWindow) .volZ) else none) := by
  obtain ⟨htracks, hvalue⟩ := h.volume.update b.v
  -- the bar brings one volume, and the score is of that volume
  have hconcat : FuzzHelm.volumes (xs ++ [b]) = FuzzHelm.volumes xs ++ [b.v] := List.map_append
  have hlen : (FuzzHelm.volumes (xs ++ [b])).length = xs.length + 1 := by
    rw [FuzzHelm.volumes, List.length_map, List.length_append, List.length_singleton]
  rw [← hconcat] at htracks
  have hmean := htracks.value
  have hstd := htracks.std fns
  have hwindow : (FuzzHelm.volumes (xs ++ [b])).rtake p.volumeWindow =
      FuzzHelm.volumes ((xs ++ [b]).rtake p.volumeWindow) := by
    rw [FuzzHelm.volumes, rtake_map, FuzzHelm.volumes]
  rw [hlen, hwindow] at hmean hstd
  dsimp only
  rw [hvalue, hmean, hstd]
  refine ⟨htracks, rfl, ?_⟩
  -- the mean and the deviation are given together
  by_cases hle : p.volumeWindow ≤ xs.length + 1
  · have hlast : (FuzzHelm.volumes ((xs ++ [b]).rtake p.volumeWindow)).getLastD 0 = b.v := by
      rw [← hwindow, hconcat, getLastD_rtake_concat h.volume.pos]
    rw [if_pos hle, if_pos hle, if_pos hle, FeatureParams.batch, hlast]
    rfl
  · rw [if_neg hle, if_neg hle, if_neg hle]
    rfl

/-- The change of the close over the lookback. -/
theorem Tracks.closeDelta :
    (lagged (p.rsiDivLookback + 1)
        (boundedAppend (p.rsiDivLookback + 1) fp.closeHist b.c)).map (b.c - ·) =
      if p.rsiDivLookback + 1 ≤ xs.length + 1 then
        some (p.batch fns ((xs ++ [b]).rtake (p.rsiDivLookback + 1)) .closeDelta) else none := by
  -- the history holds the last closes, the newest at its end
  have hhist : boundedAppend (p.rsiDivLookback + 1) fp.closeHist b.c =
      closes ((xs ++ [b]).rtake (p.rsiDivLookback + 1)) := by
    rw [h.closeHist, boundedAppend_rtake, ← closes_concat, closes, rtake_map, closes]
  have hlen : (closes ((xs ++ [b]).rtake (p.rsiDivLookback + 1))).length =
      min (p.rsiDivLookback + 1) (xs.length + 1) := by
    rw [closes, List.length_map, length_rtake, List.length_append, List.length_singleton]
  have hlast : (closes ((xs ++ [b]).rtake (p.rsiDivLookback + 1))).getLastD 0 = b.c := by
    rw [closes, ← rtake_map, ← closes, closes_concat, getLastD_rtake_concat (Nat.succ_pos _)]
  rw [hhist, lagged]
  -- the oldest of `rsiDivLookback + 1` closes is the one to subtract
  by_cases hle : p.rsiDivLookback + 1 ≤ xs.length + 1
  · rw [if_pos (by rw [hlen]; omega), if_pos hle, FeatureParams.batch, hlast]
    cases hc : closes ((xs ++ [b]).rtake (p.rsiDivLookback + 1)) with
    | nil =>
      rw [hc, List.length_nil] at hlen
      omega
    | cons c cs => rfl
  · rw [if_neg (by rw [hlen]; omega), if_neg hle]
    rfl

/-- **One bar** keeps what the pipeline keeps. -/
theorem Tracks.update : Tracks fns p (fp.update fns b).2 (xs ++ [b]) := by
  have hlen : (xs ++ [b]).length = xs.length + 1 := by
    rw [List.length_append, List.length_singleton]
  -- each field is the invariant of one tracker after the bar
  have hema := (h.ema.update b.c).1
  have hatr := (h.atr.update b.h b.l b.c).1
  have hrsi := (h.rsi.update b.c).1
  obtain ⟨-, hols⟩ := h.trend b
  obtain ⟨-, hrsiHist⟩ := h.momentum b
  obtain ⟨hbb, -, -⟩ := h.bbValues b
  obtain ⟨-, -, -, -, -, hbwRank⟩ := h.bands b
  obtain ⟨-, hpark, -, hvolRank⟩ := h.volatility b
  obtain ⟨hvolume, -, -⟩ := h.volumes b
  have hdmax := h.dmax.update b.h
  have hdmin := h.dmin.update (OrderDual.toDual b.l)
  have hcloseHist : boundedAppend (fp.params.rsiDivLookback + 1) fp.closeHist b.c =
      (closes (xs ++ [b])).rtake (p.rsiDivLookback + 1) := by
    rw [h.params, h.closeHist, boundedAppend_rtake, closes_concat]
  rw [← hlen] at hema hatr hrsi hols hrsiHist
  refine ⟨h.params, hema, hols, hatr, hrsi, hrsiHist, hcloseHist, hbb, hbwRank, ?_, ?_, hpark,
    hvolRank, hvolume⟩
  · rw [List.map_append]
    exact hdmax
  · rw [List.map_append]
    exact hdmin

/-- **A windowed feature** is the batch of the bars of its warm-up. -/
theorem Tracks.windowed {f : FeatureName} {m : ℕ} (hm : (f, m) ∈ p.warmup)
    (hf : f ∈ windowedFeatures) :
    (fp.update fns b).1.get f =
      if m ≤ xs.length + 1 then some (p.batch fns ((xs ++ [b]).rtake m) f) else none := by
  have hclose : (fp.update fns b).1.closeDelta = if p.rsiDivLookback + 1 ≤ xs.length + 1 then
      some (p.batch fns ((xs ++ [b]).rtake (p.rsiDivLookback + 1)) .closeDelta) else none := by
    show (lagged (fp.params.rsiDivLookback + 1)
      (boundedAppend (fp.params.rsiDivLookback + 1) fp.closeHist b.c)).map (b.c - ·) = _
    rw [h.params]
    exact h.closeDelta b
  obtain ⟨-, hmean, -⟩ := h.bbValues b
  obtain ⟨hsigma, hupper, hlower, hbw, hrank, -⟩ := h.bands b
  obtain ⟨hhi, hlo⟩ := h.channel b
  obtain ⟨hpark, -, hvolRank, -⟩ := h.volatility b
  obtain ⟨-, hvm, hvz⟩ := h.volumes b
  simp only [FeatureParams.warmup, List.mem_cons, Prod.mk.injEq, List.not_mem_nil, or_false] at hm
  rcases hm with ⟨rfl, rfl⟩ | ⟨rfl, rfl⟩ | ⟨rfl, rfl⟩ | ⟨rfl, rfl⟩ | ⟨rfl, rfl⟩ | ⟨rfl, rfl⟩ |
    ⟨rfl, rfl⟩ | ⟨rfl, rfl⟩ | ⟨rfl, rfl⟩ | ⟨rfl, rfl⟩ | ⟨rfl, rfl⟩ | ⟨rfl, rfl⟩ | ⟨rfl, rfl⟩ |
    ⟨rfl, rfl⟩ | ⟨rfl, rfl⟩ | ⟨rfl, rfl⟩ | ⟨rfl, rfl⟩ | ⟨rfl, rfl⟩ | ⟨rfl, rfl⟩
  -- the first six are the recurrent filters
  iterate 6 exact absurd hf (by decide)
  · exact hclose
  · exact hmean
  · exact hsigma
  · exact hupper
  · exact hlower
  · exact hbw
  · exact hrank
  · exact hhi
  · exact hlo
  · exact hpark
  · exact hvolRank
  · exact hvm
  · exact hvz

/-- **The warm-up table** at one bar. -/
theorem Tracks.warm {f : FeatureName} {m : ℕ} (hm : (f, m) ∈ p.warmup) :
    ((fp.update fns b).1.get f).isSome ↔ m ≤ xs.length + 1 := by
  -- the windowed features carry their value, the recursive ones only their warm-up
  by_cases hf : f ∈ windowedFeatures
  · rw [h.windowed b hm hf]
    split_ifs with hle
    · simp only [Option.isSome_some, hle]
    · simp only [Option.isSome_none, Bool.false_eq_true, hle]
  · have hema := (h.ema.update b.c).2
    have hatr := (h.atr.update b.h b.l b.c).2
    have hrsi := (h.rsi.update b.c).2
    obtain ⟨⟨hlag, hr2⟩, -⟩ := h.trend b
    obtain ⟨hdelta, -⟩ := h.momentum b
    simp only [FeatureParams.warmup, List.mem_cons, Prod.mk.injEq, List.not_mem_nil,
      or_false] at hm
    rcases hm with ⟨rfl, rfl⟩ | ⟨rfl, rfl⟩ | ⟨rfl, rfl⟩ | ⟨rfl, rfl⟩ | ⟨rfl, rfl⟩ | ⟨rfl, rfl⟩ |
      ⟨rfl, rfl⟩ | ⟨rfl, rfl⟩ | ⟨rfl, rfl⟩ | ⟨rfl, rfl⟩ | ⟨rfl, rfl⟩ | ⟨rfl, rfl⟩ | ⟨rfl, rfl⟩ |
      ⟨rfl, rfl⟩ | ⟨rfl, rfl⟩ | ⟨rfl, rfl⟩ | ⟨rfl, rfl⟩ | ⟨rfl, rfl⟩ | ⟨rfl, rfl⟩
    · exact hema
    · exact hlag
    · exact hr2
    · exact hatr
    · exact hrsi
    · exact hdelta
    all_goals exact absurd (by decide) hf

end Step

/-- The pipeline after any sequence of bars. -/
theorem Tracks.after (fns : RealFunctions K) (h : FeaturePipeline.new p = .ok fp)
    (xs : List (Bar K)) : Tracks fns p (fp.after fns xs) xs := by
  induction xs using List.reverseRecOn with
  | nil => exact .new fns h
  | append_singleton xs b ih =>
    rw [FeaturePipeline.after, List.foldl_append]
    exact ih.update b

end FeaturePipeline

/-! ### The table -/

/-- Every warm-up takes a bar. -/
theorem warmup_pos {p : FeatureParams K} {fp : FeaturePipeline K}
    (hp : FeaturePipeline.new p = .ok fp) {f : FeatureName} {m : ℕ} (hm : (f, m) ∈ p.warmup) :
    0 < m := by
  have h := FeaturePipeline.Tracks.new ⟨id, id⟩ hp
  have hema := h.ema.pos
  have hols : 2 ≤ p.emaR2Points := by
    obtain ⟨es, -, -, hols⟩ := h.emaOls
    exact hols.two_le
  have hbb := h.bb.pos
  have hbwRank := h.bwRank.pos
  have hpark := h.park.pos
  have hvolRank := h.volRank.pos
  have hvolume := h.volume.pos
  simp only [FeatureParams.warmup, List.mem_cons, Prod.mk.injEq, List.not_mem_nil, or_false] at hm
  omega

/-- The features at the last of some bars. -/
def lastFeatures (fns : RealFunctions K) (fp : FeaturePipeline K) (bars : List (Bar K)) :
    Option (Features K) := (fp.run fns bars).getLast?

/-- A windowed feature after any bars. -/
theorem lastFeatures_windowed (fns : RealFunctions K) {p : FeatureParams K}
    {fp : FeaturePipeline K} (hp : FeaturePipeline.new p = .ok fp) {f : FeatureName} {m : ℕ}
    (hm : (f, m) ∈ p.warmup) (hf : f ∈ windowedFeatures) (xs : List (Bar K)) :
    (lastFeatures fns fp xs).bind (·.get f) =
      if m ≤ xs.length then some (p.batch fns (xs.rtake m) f) else none := by
  cases xs using List.reverseRecOn with
  | nil =>
    have hpos := warmup_pos hp hm
    rw [if_neg (by rw [List.length_nil]; omega)]
    rfl
  | append_singleton xs b =>
    rw [lastFeatures, FeaturePipeline.run_concat, List.getLast?_concat, Option.bind_some,
      (FeaturePipeline.Tracks.after fns hp xs).windowed b hm hf, List.length_append,
      List.length_singleton]

/-- **The warm-up table is exact**: a feature of the table is missing before the bar of its
    warm-up and there from it on.  A windowed feature depends on the bars of its warm-up alone:
    two histories that agree on them give the same value, whenever either is resynchronised. -/
theorem warmup_exact (fns : RealFunctions K) {p : FeatureParams K} {fp : FeaturePipeline K}
    (hp : FeaturePipeline.new p = .ok fp) {f : FeatureName} {m : ℕ} (hm : (f, m) ∈ p.warmup) :
    (∀ (bars : List (Bar K)) (k : ℕ) (feats : Features K), (fp.run fns bars)[k]? = some feats →
      ((feats.get f).isSome ↔ m ≤ k + 1)) ∧
    (f ∈ windowedFeatures → ∀ (resync : ℤ) (fp' : FeaturePipeline K),
      FeaturePipeline.new { p with resyncEvery := resync } = .ok fp' →
      ∀ bars bars' : List (Bar K), bars.rtake m = bars'.rtake m →
        (lastFeatures fns fp bars).bind (·.get f) =
          (lastFeatures fns fp' bars').bind (·.get f)) := by
  constructor
  · intro bars k feats hk
    obtain ⟨xs, b, rfl, rfl⟩ := FeaturePipeline.run_getElem? hk
    exact (FeaturePipeline.Tracks.after fns hp xs).warm b hm
  · intro hf resync fp' hp' bars bars' hagree
    have hlength : m ≤ bars.length ↔ m ≤ bars'.length := le_length_congr hagree
    rw [lastFeatures_windowed fns hp hm hf, lastFeatures_windowed fns hp' hm hf, ← hagree]
    -- `batch` does not look at the resynchronisation
    have hbatch : FeatureParams.batch fns { p with resyncEvery := resync } (bars.rtake m) f =
        p.batch fns (bars.rtake m) f := by
      cases f <;> rfl
    simp only [hlength, hbatch]

/-- The functions on the real numbers. -/
noncomputable def realFunctions : RealFunctions ℝ := ⟨Real.sqrt, Real.log⟩

/-- Parameters of two bars each. -/
def sampleParams : FeatureParams ℝ where
  nEma := 2
  emaHorizon := 2
  emaR2Points := 2
  nAtr := 2
  nRsi := 2
  rsiDivLookback := 2
  bbN := 2
  bbK := 2
  bbRankWindow := 2
  donchianN := 2
  parkWindow := 2
  volRankWindow := 2
  volumeWindow := 2
  resyncEvery := 1024

/-- The mean of two closes is there from the second bar on, whatever came before. -/
theorem warmup_exact_sample :
    ∃ fp : FeaturePipeline ℝ, FeaturePipeline.new sampleParams = .ok fp ∧
      (∀ (bars : List (Bar ℝ)) (k : ℕ) (feats : Features ℝ),
        (fp.run realFunctions bars)[k]? = some feats → (feats.sma.isSome ↔ 2 ≤ k + 1)) ∧
      (lastFeatures realFunctions fp
          [⟨0, 9, 9, 8, 8, 1, 0, 0⟩, ⟨1, 1, 3, 1, 2, 5, 0, 0⟩, ⟨2, 2, 4, 1, 4, 6, 0, 0⟩]).bind
          (·.get .sma) =
        (lastFeatures realFunctions fp
          [⟨1, 1, 3, 1, 2, 5, 0, 0⟩, ⟨2, 2, 4, 1, 4, 6, 0, 0⟩]).bind (·.get .sma) := by
  refine ⟨_, rfl, ?_⟩
  obtain ⟨hwarm, hmemory⟩ := warmup_exact realFunctions (p := sampleParams) rfl (f := .sma) (m := 2)
    (by decide)
  exact ⟨hwarm, hmemory (by decide) 1024 _ rfl _ _ rfl⟩

end FuzzHelm
