import FuzzHelm.Backtest.SliceReplay
import FuzzHelm.Detectors.Decision
import FuzzHelm.Features.Window
import FuzzHelm.Sizing.VolTarget

namespace FuzzHelm

open Lib

/-!
# The signals of the engine

What `TradingLoop` computes of its bars in floats: the features, the window of the detectors, the
estimate of volatility and its base.  The account never sees a failure of theirs.

* `EngineState.update`, `engineSignals` — one bar, and the machine that a run is configured with;
* `Tracks`, `Reads` — the estimates and what a step reads, from the bars alone;
* `price_unit_free` — in another unit of price the loop is told the same of the volatility;
* `ring_shows_window` — the ring that the detectors read shows them the last bar of the history;
* `engine_step_total` — at every bar of every run the core decides, and the step is that of the
  loop on the numbers of the core.
-/

/-- `np.median`, of a list that is not empty. -/
def median (xs : List ℚ) : ℚ :=
  let sorted := xs.insertionSort (· ≤ ·)
  let mid := sorted.length / 2
  if sorted.length % 2 = 1 then sorted.getD mid 0
  else (sorted.getD (mid - 1) 0 + sorted.getD mid 0) / 2

/-- The functions of floats that the estimates use, with what is documented of the root. -/
structure EngineFunctions extends RealFunctions ℚ where
  sqrt_laws : VolTarget.SqrtLaws sqrt

/-- `sigma_ann`; `none` is NaN. -/
def VolTarget.sigmaAnn (fns : RealFunctions ℚ) (v : VolTarget ℚ) : Option ℚ :=
  v.sigma2.map fun s2 => fns.sqrt s2 * v.sqrtA

/-- The estimates between two bars. -/
structure EngineState where
  pipe : FeaturePipeline ℚ
  prev : Option (Bar ℚ)
  vt : VolTarget ℚ
  prevClose : Option ℚ
  sigmaAnn : Option ℚ
  sigmaHist : List ℚ
  sigmaBase : Option ℚ
  index : ℤ
  sound : vt.Sound
  sqrtA_nonneg : 0 ≤ vt.sqrtA
  sigmaAnn_nonneg : ∀ s ∈ sigmaAnn, 0 ≤ s

namespace EngineState

/-- The estimates before the first bar. -/
def new (fp : FeaturePipeline ℚ) (vt : VolTarget ℚ) (hsound : vt.Sound) (hA : 0 ≤ vt.sqrtA) :
    EngineState where
  pipe := fp
  prev := none
  vt := vt
  prevClose := none
  sigmaAnn := none
  sigmaHist := []
  sigmaBase := none
  index := -1
  sound := hsound
  sqrtA_nonneg := hA
  sigmaAnn_nonneg := by simp

variable (fns : EngineFunctions) (decideFrom : ℤ) (st : EngineState)

/-- The estimate of volatility after the close `c`. -/
def estimate (c : ℚ) : Option ℚ × VolTarget ℚ :=
  match st.prevClose with
  | none => (st.sigmaAnn, st.vt)
  | some p =>
    let (out, vt) := st.vt.update fns.toRealFunctions (c / p - 1)
    (some out.1, vt)

/-- The base of the ratio, and what it will be the median of. -/
def rebase (i : ℤ) (sigmaAnn : Option ℚ) : Option ℚ × List ℚ :=
  match st.sigmaBase with
  | some base => (some base, st.sigmaHist)
  | none =>
    if i < decideFrom then (none, st.sigmaHist ++ sigmaAnn.toList)
    else (if st.sigmaHist = [] then none else some (median st.sigmaHist), [])

/-- The ratio of the volatility to its base. -/
def ratio (sigmaAnn base : Option ℚ) : Option ℚ :=
  match base, sigmaAnn with
  | some sb, some s => if 0 < sb then some (s / sb) else none
  | _, _ => none

/-- The estimator stays sound, and what it estimates is not negative. -/
theorem estimate_sound (c : ℚ) : (st.estimate fns c).2.Sound ∧ 0 ≤ (st.estimate fns c).2.sqrtA ∧
    ∀ s ∈ (st.estimate fns c).1, 0 ≤ s := by
  unfold estimate
  split
  · exact ⟨st.sound, st.sqrtA_nonneg, st.sigmaAnn_nonneg⟩
  · refine ⟨st.sound.update _ _, st.sqrtA_nonneg, fun s hs => ?_⟩
    cases hs
    exact mul_nonneg (fns.sqrt_laws.nonneg _) st.sqrtA_nonneg

/-- The ratio of two volatilities is not negative. -/
theorem ratio_nonneg {sigmaAnn base : Option ℚ} (h : ∀ s ∈ sigmaAnn, 0 ≤ s) :
    ∀ v ∈ ratio sigmaAnn base, 0 ≤ v := by
  intro v hv
  unfold ratio at hv
  split at hv
  · split_ifs at hv with hpos
    · cases hv
      exact div_nonneg (h _ rfl) hpos.le
    · cases hv
  · cases hv

/-- One bar: what the step reads, and the estimates after it. -/
def update (b : Bar ℚ) : BarView DetectorWindow × EngineState :=
  let features := st.pipe.update fns.toRealFunctions b
  let est := st.estimate fns b.c
  let base := st.rebase decideFrom (st.index + 1) est.1
  ({ window := ⟨features.1, b, st.prev⟩
     atr := features.1.atr
     sT := est.2.s
     volRatio := ratio est.1 base.1
     volRatio_nonneg := ratio_nonneg (st.estimate_sound fns b.c).2.2 },
   { pipe := features.2
     prev := some b
     vt := est.2
     prevClose := some b.c
     sigmaAnn := est.1
     sigmaHist := base.2
     sigmaBase := base.1
     index := st.index + 1
     sound := (st.estimate_sound fns b.c).1
     sqrtA_nonneg := (st.estimate_sound fns b.c).2.1
     sigmaAnn_nonneg := (st.estimate_sound fns b.c).2.2 })

/-- The estimates after some bars. -/
def after (xs : List (Bar ℚ)) : EngineState :=
  xs.foldl (fun st b => (st.update fns decideFrom b).2) st

/-- One more bar is one more update. -/
theorem after_concat (xs : List (Bar ℚ)) (b : Bar ℚ) :
    st.after fns decideFrom (xs ++ [b]) =
      ((st.after fns decideFrom xs).update fns decideFrom b).2 := by
  rw [after, List.foldl_append]
  rfl

end EngineState

/-! ### What the estimates depend on -/

/-- The returns between some closes. -/
def returnsOf : List ℚ → List ℚ
  | p :: c :: cs => (c / p - 1) :: returnsOf (c :: cs)
  | _ => []

/-- One more close is one more return, but for the first. -/
theorem returnsOf_concat (cs : List ℚ) (c : ℚ) :
    returnsOf (cs ++ [c]) = returnsOf cs ++ (cs.getLast?.map fun p => c / p - 1).toList := by
  induction cs with
  | nil => rfl
  | cons p cs ih =>
    cases cs with
    | nil => rfl
    | cons q cs =>
      rw [List.cons_append, List.cons_append, returnsOf, ← List.cons_append, ih, returnsOf,
        List.cons_append, List.getLast?_cons_cons]

section History

variable (fns : EngineFunctions) (decideFrom : ℤ) (fp : FeaturePipeline ℚ) (vt : VolTarget ℚ)

/-- The annual volatility after some closes. -/
def sigmaOf (closes : List ℚ) : Option ℚ :=
  (vt.after fns.toRealFunctions (returnsOf closes)).sigmaAnn fns.toRealFunctions

/-- The volatilities that were known at some closes. -/
def sigmasOf (closes : List ℚ) : List ℚ :=
  (List.range closes.length).filterMap fun j => sigmaOf fns vt (closes.take (j + 1))

/-- The median of the volatilities of the closes before the first decision. -/
def baseOf (closes : List ℚ) : Option ℚ :=
  if sigmasOf fns vt closes = [] then none else some (median (sigmasOf fns vt closes))

/-- One more close is one more volatility, once there is one. -/
theorem sigmasOf_concat (cs : List ℚ) (c : ℚ) :
    sigmasOf fns vt (cs ++ [c]) = sigmasOf fns vt cs ++ (sigmaOf fns vt (cs ++ [c])).toList := by
  have hfirst : (List.range cs.length).filterMap
      (fun j => sigmaOf fns vt ((cs ++ [c]).take (j + 1))) = sigmasOf fns vt cs := by
    apply List.filterMap_congr
    intro j hj
    rw [List.take_append_of_le_length (List.mem_range.mp hj)]
  have hlast : (cs ++ [c]).take (cs.length + 1) = cs ++ [c] :=
    List.take_of_length_le (by simp)
  rw [sigmasOf, List.length_append, List.length_singleton, List.range_succ, List.filterMap_append,
    hfirst, List.filterMap_cons, List.filterMap_nil, hlast]
  cases sigmaOf fns vt (cs ++ [c]) <;> rfl

/-- **The estimates after the bars `xs`**, from those of a new engine. -/
structure EngineState.Tracks (xs : List (Bar ℚ)) (st : EngineState) : Prop where
  pipe : st.pipe = fp.after fns.toRealFunctions xs
  prev : st.prev = xs.getLast?
  prevClose : st.prevClose = (xs.map Bar.c).getLast?
  estimator : st.vt = vt.after fns.toRealFunctions (returnsOf (xs.map Bar.c))
  sigmaAnn : st.sigmaAnn = sigmaOf fns vt (xs.map Bar.c)
  index : st.index = xs.length - 1
  warming : (xs.length : ℤ) ≤ decideFrom →
    st.sigmaBase = none ∧ st.sigmaHist = sigmasOf fns vt (xs.map Bar.c)
  warm : decideFrom < xs.length →
    st.sigmaBase = baseOf fns vt ((xs.map Bar.c).take decideFrom.toNat) ∧ st.sigmaHist = []

variable {fns decideFrom fp vt} {xs : List (Bar ℚ)} {st : EngineState}

namespace EngineState

/-- A new state has seen no bar. -/
theorem Tracks.new (hfresh : vt.sigma2 = none) (hsound : vt.Sound) (hA : 0 ≤ vt.sqrtA) :
    Tracks fns decideFrom fp vt [] (.new fp vt hsound hA) where
  pipe := rfl
  prev := rfl
  prevClose := rfl
  estimator := rfl
  sigmaAnn := by
    show none = (vt.after fns.toRealFunctions []).sigmaAnn fns.toRealFunctions
    rw [VolTarget.after_nil, VolTarget.sigmaAnn, hfresh]
    rfl
  index := rfl
  warming _ := ⟨rfl, rfl⟩
  warm hneg := by
    rw [List.map_nil, List.take_nil]
    exact ⟨rfl, rfl⟩

/-- The estimate at a bar is the volatility of the closes up to it. -/
theorem Tracks.estimate (h : Tracks fns decideFrom fp vt xs st) (b : Bar ℚ) :
    st.estimate fns b.c = (sigmaOf fns vt ((xs ++ [b]).map Bar.c),
      vt.after fns.toRealFunctions (returnsOf ((xs ++ [b]).map Bar.c))) := by
  unfold EngineState.estimate
  rw [List.map_append, List.map_singleton, sigmaOf, returnsOf_concat, ← h.prevClose]
  cases hprev : st.prevClose with
  | none =>
    have hsigma := h.sigmaAnn
    rw [sigmaOf] at hsigma
    rw [Option.map_none, Option.toList_none, List.append_nil, h.estimator, hsigma]
  | some p =>
    rw [Option.map_some, Option.toList_some, VolTarget.after_append, ← h.estimator]
    rfl

/-- **One bar.** -/
theorem Tracks.update (h : Tracks fns decideFrom fp vt xs st) (b : Bar ℚ) :
    Tracks fns decideFrom fp vt (xs ++ [b]) (st.update fns decideFrom b).2 := by
  have hest := h.estimate b
  have hlength : ((xs ++ [b]).length : ℤ) = xs.length + 1 := by simp
  have hindex : st.index + 1 = xs.length := by
    rw [h.index]
    ring
  have hclosesLen : (xs.map Bar.c).length = xs.length := List.length_map _
  refine ⟨?_, ?_, ?_, ?_, ?_, ?_, fun hle => ?_, fun hlt => ?_⟩
  · show (st.pipe.update fns.toRealFunctions b).2 = _
    rw [h.pipe, FeaturePipeline.after, FeaturePipeline.after, List.foldl_append]
    rfl
  · exact List.getLast?_concat.symm
  · rw [List.map_append, List.map_singleton, List.getLast?_concat]
    rfl
  · exact congrArg Prod.snd hest
  · exact congrArg Prod.fst hest
  · show st.index + 1 = _
    rw [hlength, hindex]
    ring
  -- still before the first decision: one more volatility for the median
  · obtain ⟨hbase, hhist⟩ := h.warming (by omega)
    have hrebase : st.rebase decideFrom (st.index + 1) (st.estimate fns b.c).1 =
        (none, st.sigmaHist ++ (st.estimate fns b.c).1.toList) := by
      rw [rebase, hbase, if_pos (by omega)]
    refine ⟨congrArg Prod.fst hrebase, (congrArg Prod.snd hrebase).trans ?_⟩
    rw [hest, hhist, List.map_append, List.map_singleton, sigmasOf_concat]
  · have htake : ((xs ++ [b]).map Bar.c).take decideFrom.toNat =
        (xs.map Bar.c).take decideFrom.toNat := by
      rw [List.map_append, List.take_append_of_le_length (by omega)]
    have hrebase : st.rebase decideFrom (st.index + 1) (st.estimate fns b.c).1 =
        (baseOf fns vt ((xs.map Bar.c).take decideFrom.toNat), []) := by
      rcases lt_or_ge decideFrom xs.length with hold | hfirst
      · -- the base is there, or never will be
        obtain ⟨hbase, hhist⟩ := h.warm hold
        rw [rebase, hhist, ← hbase]
        cases st.sigmaBase with
        | none =>
          dsimp only
          rw [if_neg (by omega), if_pos rfl]
        | some base => rfl
      · -- the first decision is at this bar
        obtain ⟨hbase, hhist⟩ := h.warming hfirst
        have hall : (xs.map Bar.c).take decideFrom.toNat = xs.map Bar.c :=
          List.take_of_length_le (by omega)
        rw [rebase, hbase, hall, baseOf, ← hhist]
        dsimp only
        rw [if_neg (by omega)]
    rw [htake]
    exact ⟨congrArg Prod.fst hrebase, congrArg Prod.snd hrebase⟩

/-- **Run lemma**: the state tracks the bars from the start on. -/
theorem Tracks.after (hfresh : vt.sigma2 = none) (hsound : vt.Sound) (hA : 0 ≤ vt.sqrtA)
    (xs : List (Bar ℚ)) :
    Tracks fns decideFrom fp vt xs ((EngineState.new fp vt hsound hA).after fns decideFrom xs) := by
  induction xs using List.reverseRecOn with
  | nil => exact .new hfresh hsound hA
  | append_singleton xs b ih =>
    rw [after_concat]
    exact ih.update b

/-- **What a step reads** at the bar `b` after the bars `xs`. -/
structure Reads (fns : EngineFunctions) (decideFrom : ℤ) (fp : FeaturePipeline ℚ)
    (vt : VolTarget ℚ) (xs : List (Bar ℚ)) (b : Bar ℚ) (view : BarView DetectorWindow) : Prop where
  window : view.window = windowAt fns.toRealFunctions fp xs b
  atr : view.atr = view.window.feats.atr
  multiplier : view.sT =
    (vt.after fns.toRealFunctions (returnsOf ((xs ++ [b]).map Bar.c))).s
  multiplier_mem : vt.sMin ≤ view.sT ∧ view.sT ≤ vt.sMax
  ratio_cold : (xs.length : ℤ) < decideFrom → view.volRatio = none
  ratio_warm : decideFrom ≤ xs.length → view.volRatio =
    ratio (sigmaOf fns vt ((xs ++ [b]).map Bar.c))
      (baseOf fns vt ((xs.map Bar.c).take decideFrom.toNat))

/-- **What the engine reads at a bar** is what the bars so far say. -/
theorem Tracks.reads (h : Tracks fns decideFrom fp vt xs st) (hsound : vt.Sound) (b : Bar ℚ) :
    Reads fns decideFrom fp vt xs b (st.update fns decideFrom b).1 := by
  -- both sides of the engine have seen this bar too
  have hest := h.estimate b
  have hnext := h.update b
  have hs : (st.estimate fns b.c).2.s =
      (vt.after fns.toRealFunctions (returnsOf ((xs ++ [b]).map Bar.c))).s :=
    congrArg (VolTarget.s ∘ Prod.snd) hest
  have hratio : (st.update fns decideFrom b).1.volRatio =
      ratio (sigmaOf fns vt ((xs ++ [b]).map Bar.c)) (st.update fns decideFrom b).2.sigmaBase :=
    congrArg (fun e => ratio e (st.update fns decideFrom b).2.sigmaBase) hnext.sigmaAnn
  refine ⟨?_, rfl, hs, ?_, fun hcold => ?_, fun hwarm => ?_⟩
  · show (⟨_, b, st.prev⟩ : DetectorWindow) = _
    rw [h.pipe, h.prev]
    rfl
  · show vt.sMin ≤ (st.estimate fns b.c).2.s ∧ (st.estimate fns b.c).2.s ≤ vt.sMax
    rw [hs]
    have hsame := vt.after_params fns.toRealFunctions (returnsOf ((xs ++ [b]).map Bar.c))
    have hrun := (hsound.after fns.toRealFunctions (returnsOf ((xs ++ [b]).map Bar.c))).s_mem
    rwa [hsame.sMin, hsame.sMax] at hrun
  · have hle : ((xs ++ [b]).length : ℤ) ≤ decideFrom := by
      rw [List.length_append, List.length_singleton]
      omega
    rw [hratio, (hnext.warming hle).1]
    rfl
  · have hlt : decideFrom < ((xs ++ [b]).length : ℤ) := by
      rw [List.length_append, List.length_singleton]
      omega
    rw [hratio, (hnext.warm hlt).1, List.map_append, List.map_singleton,
      List.take_append_of_le_length (by rw [List.length_map]; omega)]

end EngineState

end History

/-! ### Prices in another unit -/

section Scale

variable {fns : EngineFunctions} {vt : VolTarget ℚ} {c : ℚ}

/-- Returns do not depend on the unit of the prices. -/
theorem returnsOf_scale (hc : c ≠ 0) (cs : List ℚ) :
    returnsOf (cs.map (c * ·)) = returnsOf cs := by
  induction cs with
  | nil => rfl
  | cons p cs ih =>
    cases cs with
    | nil => rfl
    | cons q cs =>
      rw [List.map_cons, List.map_cons, returnsOf, ← List.map_cons, ih, returnsOf,
        mul_div_mul_left _ _ hc]

/-- Nor does the volatility. -/
theorem sigmaOf_scale (hc : c ≠ 0) (cs : List ℚ) :
    sigmaOf fns vt (cs.map (c * ·)) = sigmaOf fns vt cs := by
  rw [sigmaOf, returnsOf_scale hc, sigmaOf]

/-- Nor does the base that it is compared with. -/
theorem baseOf_scale (hc : c ≠ 0) (cs : List ℚ) :
    baseOf fns vt (cs.map (c * ·)) = baseOf fns vt cs := by
  have hsigmas : sigmasOf fns vt (cs.map (c * ·)) = sigmasOf fns vt cs := by
    rw [sigmasOf, List.length_map, sigmasOf]
    refine List.filterMap_congr fun j _ => ?_
    rw [← List.map_take, sigmaOf_scale hc]
  rw [baseOf, hsigmas, baseOf]

/-- **The unit of price does not matter**: where all closes are multiplied by the same number,
    the multiplier and the ratio of the volatility are the same at every bar, before the first
    decision and after it. -/
theorem price_unit_free (fns : EngineFunctions) (decideFrom : ℤ) (fp : FeaturePipeline ℚ)
    {vt : VolTarget ℚ} (hfresh : vt.sigma2 = none) (hsound : vt.Sound) (hA : 0 ≤ vt.sqrtA)
    (hc : c ≠ 0) {xs ys : List (Bar ℚ)} {x y : Bar ℚ}
    (hscale : (ys ++ [y]).map Bar.c = ((xs ++ [x]).map Bar.c).map (c * ·)) :
    let init := EngineState.new fp vt hsound hA
    let view := ((init.after fns decideFrom xs).update fns decideFrom x).1
    let scaled := ((init.after fns decideFrom ys).update fns decideFrom y).1
    scaled.sT = view.sT ∧ scaled.volRatio = view.volRatio := by
  intro init view scaled
  have hview : EngineState.Reads fns decideFrom fp vt xs x view :=
    (EngineState.Tracks.after hfresh hsound hA xs).reads hsound x
  have hscaled : EngineState.Reads fns decideFrom fp vt ys y scaled :=
    (EngineState.Tracks.after hfresh hsound hA ys).reads hsound y
  have hlength : ys.length = xs.length := by
    have hlengths := congrArg List.length hscale
    simpa using hlengths
  have hbefore : ys.map Bar.c = (xs.map Bar.c).map (c * ·) := by
    rw [List.map_append, List.map_append, List.map_append] at hscale
    exact (List.append_inj' hscale rfl).1
  constructor
  -- a ratio of two closes does not see the unit, so the returns are the same
  · rw [hview.multiplier, hscaled.multiplier, hscale, returnsOf_scale hc]
  · rcases lt_or_ge (xs.length : ℤ) decideFrom with hcold | hwarm
    · rw [hview.ratio_cold hcold, hscaled.ratio_cold (by omega)]
    · rw [hview.ratio_warm hwarm, hscaled.ratio_warm (by omega), hscale, sigmaOf_scale hc,
        hbefore, ← List.map_take, baseOf_scale hc]

/-- Functions of the shape of the real ones. -/
def floorFunctions : EngineFunctions where
  toRealFunctions := ⟨floorSqrt, id⟩
  sqrt_laws := floorSqrt_laws

/-- The yearly estimator of the samples is sound. -/
theorem yearly_sound : yearly.Sound :=
  (VolTarget.Sound.new ⟨floorSqrt, id⟩ (yearly_new fun _ => "")).1

/-- Its annual factor is not negative. -/
theorem yearly_sqrtA : 0 ≤ yearly.sqrtA := one_nonneg_rat

/-- A bar at one price. -/
def barAt (price : ℚ) : Bar ℚ := ⟨0, price, price, price, price, 1, 0, 0⟩

/-- Two bars, in one unit and in its hundredth. -/
theorem price_unit_free_cents : ∃ fp : FeaturePipeline ℚ,
    let init := EngineState.new fp yearly yearly_sound yearly_sqrtA
    let view := ((init.after floorFunctions 1 [barAt 5]).update floorFunctions 1 (barAt 6)).1
    let scaled := ((init.after floorFunctions 1 [barAt 500]).update floorFunctions 1 (barAt 600)).1
    scaled.sT = view.sT ∧ scaled.volRatio = view.volRatio := by
  obtain ⟨fp, -⟩ := pipeline_of_config DetectorsConfig.default
  have hscale : ([barAt 500] ++ [barAt 600]).map Bar.c =
      (([barAt 5] ++ [barAt 6]).map Bar.c).map ((100 : ℚ) * ·) := by norm_num [barAt]
  exact ⟨fp, price_unit_free floorFunctions 1 fp rfl yearly_sound yearly_sqrtA
    (by norm_num) hscale⟩

end Scale

/-! ### The ring that the detectors read -/

section Ring

variable (fns : RealFunctions ℚ)

/-- The rows that a history appends to the window: its bars with their features. -/
def featureRows (fp : FeaturePipeline ℚ) (xs : List (Bar ℚ)) : List (Row ℚ) :=
  xs.zip (fp.run fns xs)

/-- One more bar is one more row of features. -/
theorem featureRows_concat (fp : FeaturePipeline ℚ) (xs : List (Bar ℚ)) (b : Bar ℚ) :
    featureRows fns fp (xs ++ [b]) =
      featureRows fns fp xs ++ [(b, (windowAt fns fp xs b).feats)] := by
  induction xs generalizing fp with
  | nil => rfl
  | cons x xs ih => exact congrArg ((x, (fp.update fns x).1) :: ·) (ih (fp.update fns x).2)

/-- The rows of the features are those of the bars. -/
theorem featureRows_bars (fp : FeaturePipeline ℚ) (xs : List (Bar ℚ)) :
    (featureRows fns fp xs).map Prod.fst = xs := by
  induction xs generalizing fp with
  | nil => rfl
  | cons x xs ih => exact congrArg (x :: ·) (ih (fp.update fns x).2)

/-- What the detectors ask the window for: `feats()`, `bar()` and `bar(1)`. -/
def DetectorWindow.ofRing (w : BarWindow ℚ) : Except WindowError DetectorWindow := do
  let feats ← w.feats 0
  let bar ← w.bar 0
  return ⟨feats, bar, (w.bar 1).toOption⟩

/-- **The ring shows the history.**  Whatever bars have come, a ring of two rows or more that was
    given each of them with its features shows the detectors the window of the last bar. -/
theorem ring_shows_window (fp : FeaturePipeline ℚ) {capacity : ℤ} (h : 2 ≤ capacity) :
    ∃ w : BarWindow ℚ, BarWindow.new capacity = .ok w ∧ ∀ (xs : List (Bar ℚ)) (b : Bar ℚ),
      DetectorWindow.ofRing (w.appendAll (featureRows fns fp (xs ++ [b]))) =
        .ok (windowAt fns fp xs b) := by
  obtain ⟨w, hw, hkeeps⟩ := BarWindow.keeps_new (K := ℚ) (show 1 ≤ capacity by omega)
  refine ⟨w, hw, fun xs b => ?_⟩
  have hreads := (hkeeps.appendAll (featureRows fns fp (xs ++ [b]))).readsSuffix
  generalize w.appendAll (featureRows fns fp (xs ++ [b])) = ring at hreads
  rw [List.nil_append, featureRows_concat] at hreads
  generalize hrows : featureRows fns fp xs = rows at hreads
  have hbars : rows.map Prod.fst = xs := hrows ▸ featureRows_bars fns fp xs
  -- from the newest row backwards, as far as the ring reaches
  have hback : ((rows ++ [(b, (windowAt fns fp xs b).feats)]).rtake capacity.toNat).reverse =
      ((b, (windowAt fns fp xs b).feats) :: rows.reverse).take capacity.toNat := by
    rw [List.rtake_eq_reverse_take_reverse, List.reverse_reverse, List.reverse_append]
    rfl
  obtain ⟨hbar, hfeats⟩ := hreads.row 0 (b, (windowAt fns fp xs b).feats) (by
    rw [hback, List.getElem?_take_of_lt (by omega)]
    rfl)
  have hprev : (ring.bar 1).toOption = xs.getLast? := by
    rw [← hbars, List.getLast?_map]
    cases hlast : rows.getLast? with
    | none =>
      rw [List.getLast?_eq_none_iff] at hlast
      subst hlast
      obtain ⟨⟨msg, hdeep⟩, -⟩ := hreads.deep 1 (by
        rw [length_rtake]
        simp)
      rw [hdeep]
      rfl
    | some r =>
      obtain ⟨hr, -⟩ := hreads.row 1 r (by
        rw [hback, List.getElem?_take_of_lt (by omega), List.getElem?_cons_succ,
          ← List.head?_eq_getElem?, List.head?_reverse, hlast])
      have hr : ring.bar 1 = .ok r.1 := hr
      rw [hr]
      rfl
  have hfeats : ring.feats 0 = .ok (windowAt fns fp xs b).feats := hfeats
  have hbar : ring.bar 0 = .ok b := hbar
  rw [DetectorWindow.ofRing, hfeats, hbar, hprev]
  rfl

/-- The ring of the engine after two bars. -/
theorem ring_shows_window_eight : ∃ (fp : FeaturePipeline ℚ) (w : BarWindow ℚ),
    BarWindow.new 8 = .ok w ∧
      DetectorWindow.ofRing (w.appendAll
        (featureRows ⟨floorSqrt, id⟩ fp ([barAt 5] ++ [barAt 6]))) =
        .ok (windowAt ⟨floorSqrt, id⟩ fp [barAt 5] (barAt 6)) := by
  obtain ⟨fp, -⟩ := pipeline_of_config DetectorsConfig.default
  obtain ⟨w, hw, hshows⟩ := ring_shows_window ⟨floorSqrt, id⟩ fp (show (2 : ℤ) ≤ 8 by omega)
  exact ⟨fp, w, hw, hshows [barAt 5] (barAt 6)⟩

end Ring

/-- The signals of the engine, as the machine of a run. -/
def engineSignals (fns : EngineFunctions) (decideFrom : ℤ) (init : EngineState) :
    Signals DetectorWindow where
  State := EngineState
  init := init
  update := EngineState.update fns decideFrom

/-! ### A step whose core decides -/

namespace TradingLoop

section Core

variable {W : Type} {core : DecisionCore W} (mode : RecordMode) {inp : BarInput W}
  {numbers : Numbers}

/-- With the numbers of the intent in the input, the recorded decision is the decision of the loop.
    -/
theorem recordedDecision_eq (hintent : core.intent inp.window = .ok numbers) (l : TradingLoop)
    (equity : Decimal) :
    (fun r => (r.1, r.2.2)) <$> recordedDecision core mode l inp equity =
      l.decideBar (inp.withNumbers numbers) equity := by
  unfold recordedDecision decideBar
  have hfrom : (inp.withNumbers numbers).bar = inp.bar := rfl
  split_ifs with hle
  -- at every level the core is asked, and it answers
  · have hask : ∃ trace, askCore core mode inp = .ok (numbers, trace) := by
      have hnumbers := askCore_numbers core mode inp
      rw [hintent] at hnumbers
      cases hask : askCore core mode inp with
      | error e =>
        rw [hask] at hnumbers
        cases hnumbers
      | ok r =>
        rw [hask] at hnumbers
        cases hnumbers
        exact ⟨r.2, rfl⟩
    obtain ⟨trace, hask⟩ := hask
    rw [hask]
    show _ <$> (l.decide (inp.withNumbers numbers) equity >>= _) = _
    cases hdecide : l.decide (inp.withNumbers numbers) equity with
    | error e => rfl
    | ok r =>
      -- the second call of the core cannot fail either
      obtain ⟨trace', hretrace⟩ := retrace_ok core mode inp hintent l.cfg.checkInvariants trace
        r.1.orderIds
      show _ <$> (retrace core mode inp l.cfg.checkInvariants numbers trace r.1.orderIds >>= _) = _
      rw [hretrace]
      rfl
  · rfl

/-- **The recorded step of a core that decides** is the step of the loop on its numbers, also
    where that fails. -/
theorem recordedStep_eq (hintent : core.intent inp.window = .ok numbers) (l : TradingLoop) :
    (fun r => (r.1.result, r.2)) <$> recordedStep core mode l inp =
      l.step (inp.withNumbers numbers) := by
  rw [← id_map (l.step (inp.withNumbers numbers))]
  -- up to the decision both are the same computation
  refine span_bind (id_map _).symm (id_map _).symm ?_
  rintro l₁ -
  refine span_bind (id_map _).symm (id_map _).symm ?_
  rintro ⟨fills, charges, acc, updates, l₂⟩ -
  refine span_bind (id_map _).symm (id_map _).symm ?_
  rintro ⟨equity, tr, l₃⟩ hvalue
  have hequity := (valueBar_priced hvalue).2
  show _ <$> (recordedDecision core mode l₃ inp equity >>= _) =
    id <$> (l₃.decideBar (inp.withNumbers numbers) equity >>= _)
  refine span_bind (id_map _).symm (recordedDecision_eq mode hintent l₃ equity).symm ?_
  rintro ⟨decision, trace, l₄⟩ hdecision
  -- the decision leaves the account alone, so the curve has its point
  have hpoint : ∃ point, equityPoint { l₄ with
      index := l.index + 1, lastOpen := some inp.bar.openTimeNs } mode inp.closeNs equity =
        .ok point := by
    apply equityPoint_ok
    show l₄.portfolio.equity = .ok equity
    rw [recordedDecision_portfolio hdecision]
    exact hequity
  obtain ⟨point, hpoint⟩ := hpoint
  show _ <$> (equityPoint { l₄ with
    index := l.index + 1, lastOpen := some inp.bar.openTimeNs } mode inp.closeNs equity >>= _) = _
  rw [hpoint]
  rfl

end Core

end TradingLoop

/-- A bar of the feed is a recorded step on what the signals show of it. -/
theorem RunSetup.step_result {W : Type} (s : RunSetup W) (x : TradingLoop × s.signals.State)
    (item : FeedItem) :
    (fun r : RecordedResult × TradingLoop × s.signals.State => (r.1.result, r.2.1)) <$>
        s.step x item =
      (fun r : RecordedResult × TradingLoop => (r.1.result, r.2)) <$>
        TradingLoop.recordedStep s.core s.mode x.1
          (item.input (s.signals.update x.2 item.bar).1) := by
  rw [RunSetup.step]
  obtain ⟨view, signals⟩ := s.signals.update x.2 item.bar
  dsimp only
  cases TradingLoop.recordedStep s.core s.mode x.1 (item.input view) with
  | error e => rfl
  | ok r => rfl

/-! ### The engine of a run -/

/-- The float side of `TradingLoop(...)`: the detectors that are kept, the pipeline, the volatility
    target and the core, each built from settings that have passed their checks. -/
structure EngineParts where
  floats : FloatFunctions
  lawful : floats.Lawful
  fns : EngineFunctions
  detectors : DetectorsConfig
  keep : Option (List String)
  fp : FeaturePipeline ℚ
  fp_new : FeaturePipeline.new detectors.featureParams = .ok fp
  vt : VolTarget ℚ
  vt_sound : vt.Sound
  vt_sqrtA : 0 ≤ vt.sqrtA
  vt_fresh : vt.sigma2 = none
  core : DecisionCore DetectorWindow
  core_detectors : core.detectors =
    (keptDetectors keep (detectorsOf floats detectors)).map Detector.compute

namespace EngineParts

variable {W : Type} (p : EngineParts) (base : RunSetup W)

/-- The detectors that the run keeps. -/
def kept : List Detector := keptDetectors p.keep (detectorsOf p.floats p.detectors)

/-- The run `base`, with the engine's own signals and core. -/
def setup : RunSetup DetectorWindow where
  cfg := base.cfg
  riskCfg := base.riskCfg
  clock := base.clock
  ids := base.ids
  cost := base.cost
  initialEquity := base.initialEquity
  core := p.core
  mode := base.mode
  signals := engineSignals p.fns base.cfg.decideFrom (.new p.fp p.vt p.vt_sound p.vt_sqrtA)

variable {p base} {ds : Dataset} {k : ℕ}
  {x : TradingLoop × (p.setup base).signals.State} {log : (p.setup base).Log}

/-- The estimates of a run depend on its bars. -/
theorem tracks (hrun : (p.setup base).firstSteps ds k = .ok (x, log)) :
    EngineState.Tracks p.fns base.cfg.decideFrom p.fp p.vt ((ds.feed.take k).map FeedItem.bar)
      x.2 := by
  obtain ⟨l, -, hexec⟩ := bind_eq_ok.mp hrun
  rw [← calls_execE _ hexec]
  refine (Run.execE _ hexec).invariant (fun x log => EngineState.Tracks p.fns
    base.cfg.decideFrom p.fp p.vt ((log.map Entry.call).map FeedItem.bar) x.2) ?_ ?_
  · exact .new p.vt_fresh p.vt_sound p.vt_sqrtA
  · rintro x log item r x' h hstep
    obtain ⟨hsignals, -⟩ := RunSetup.step_eq_ok.mp hstep
    rw [List.map_append, List.map_append, hsignals]
    exact h.update item.bar

end EngineParts

/-- **The engine decides at every bar of every run** over detectors whose weights are numbers.
    What a step reads is what the bars so far give, the core decides on it within its bounds, and
    the step is that of the loop on the numbers of the core: only the account can fail. -/
theorem engine_step_total {W : Type} (p : EngineParts) (hfinite : ∀ d ∈ p.kept, d.weight ≠ .inf)
    (base : RunSetup W) {ds : Dataset} {k : ℕ}
    {x : TradingLoop × (p.setup base).signals.State} {log : (p.setup base).Log}
    (hrun : (p.setup base).firstSteps ds k = .ok (x, log)) {item : FeedItem}
    (hitem : ds.feed[k]? = some item) :
    ∃ view trace, EngineState.Reads p.fns base.cfg.decideFrom p.fp p.vt
        ((ds.feed.take k).map FeedItem.bar) item.bar view ∧
      p.core.decide view.window item.decBar.openTimeNs = .ok trace ∧
      Decides p.core p.kept view.window (k + 1) trace ∧
      (fun r => (r.1.result, r.2.1)) <$> (p.setup base).step x item =
        x.1.step ((item.input view).withNumbers trace.numbers) := by
  have hreads := (EngineParts.tracks hrun).reads p.vt_sound item.bar
  have hlength : ((ds.feed.take k).map FeedItem.bar).length = k := by
    obtain ⟨hlt, -⟩ := List.getElem?_eq_some_iff.mp hitem
    rw [List.length_map, List.length_take, Nat.min_eq_left hlt.le]
  -- the core over the detectors that are kept
  obtain ⟨_, hkept⟩ := keptDetectors_eq_filter p.keep (detectorsOf p.floats p.detectors)
  obtain ⟨trace, hdecide, hdecides⟩ := core_decides p.lawful p.fns.toRealFunctions p.fp_new hkept
    p.core_detectors hfinite ((ds.feed.take k).map FeedItem.bar) item.bar item.decBar.openTimeNs
  rw [hlength, ← hreads.window] at hdecides
  rw [← hreads.window] at hdecide
  refine ⟨_, trace, hreads, hdecide, hdecides, ?_⟩
  generalize hview : (EngineState.update p.fns base.cfg.decideFrom x.2 item.bar).1 = view
    at hdecide
  have hintent : p.core.intent (item.input view).window = .ok trace.numbers := by
    rw [p.core.intent_eq_decide _ item.decBar.openTimeNs]
    exact congrArg (DecisionTrace.numbers <$> ·) hdecide
  rw [← TradingLoop.recordedStep_eq base.mode hintent x.1, ← hview, RunSetup.step_result]
  rfl

/-- The parts of an engine with the defaults of its detectors. -/
def sampleParts (fp : FeaturePipeline ℚ)
    (hfp : FeaturePipeline.new DetectorsConfig.default.featureParams = .ok fp) : EngineParts where
  floats := roughFunctions
  lawful := roughFunctions_lawful
  fns := floorFunctions
  detectors := .default
  keep := none
  fp := fp
  fp_new := hfp
  vt := yearly
  vt_sound := yearly_sound
  vt_sqrtA := yearly_sqrtA
  vt_fresh := rfl
  core := sampleCore
  core_detectors := rfl

/-- A bar of a price that moves a lot. -/
def restlessBar (minute : ℤ) (close : ℚ) : Bar ℚ :=
  ⟨minute * nsPerMin, 100, 901, 99, close, 7, 0, 0⟩

/-- Four bars whose closes go up and down. -/
def restlessDataset : Dataset where
  instrument := sampleInstrument
  tf := .m5
  bars := [restlessBar 470 100, restlessBar 475 200, restlessBar 480 100, restlessBar 485 900]
  funding := none
  increasing := by simp [restlessBar, nsPerMin, nsPerSec]
  priced := by simp [restlessBar]
  ordered := by norm_num [restlessBar]
  volumes := by simp [restlessBar]
  funding_increasing := by simp

/-- A run that decides from its third bar on. -/
def restlessBase : RunSetup Unit :=
  { fundedSetup 5 with cfg := { sampleLoopCfg with decideFrom := 2 } }

/-- The first three steps of this run succeed. -/
theorem restless_runs : ∃ fp hfp x log,
    ((sampleParts fp hfp).setup restlessBase).firstSteps restlessDataset 3 = .ok (x, log) := by
  obtain ⟨fp, hfp⟩ := pipeline_of_config DetectorsConfig.default
  -- the run is computed once, on the parts that the configuration gives
  have hruns : (FeaturePipeline.new DetectorsConfig.default.featureParams).toOption.any
      (fun fp => (RunSetup.firstSteps ⟨restlessBase.cfg, restlessBase.riskCfg, restlessBase.clock,
        restlessBase.ids, restlessBase.cost, restlessBase.initialEquity, sampleCore,
        restlessBase.mode, engineSignals floorFunctions restlessBase.cfg.decideFrom
          (.new fp yearly yearly_sound yearly_sqrtA)⟩ restlessDataset 3).toOption.isSome) =
      true := by decide +kernel
  rw [hfp] at hruns
  obtain ⟨⟨x, log⟩, hrun⟩ := Option.isSome_iff_exists.mp hruns
  refine ⟨fp, hfp, x, log, ?_⟩
  cases hsteps : ((sampleParts fp hfp).setup restlessBase).firstSteps restlessDataset 3 with
  | error e =>
    have hrun : (((sampleParts fp hfp).setup restlessBase).firstSteps restlessDataset
      3).toOption = some (x, log) := hrun
    rw [hsteps] at hrun
    cases hrun
  | ok r =>
    have hrun : (((sampleParts fp hfp).setup restlessBase).firstSteps restlessDataset
      3).toOption = some (x, log) := hrun
    rw [hsteps] at hrun
    exact congrArg Except.ok (Option.some.inj hrun)

/-- The engine of the defaults at the fourth bar of this run, after its first decision: the
    volatility is twice the median of those before that. -/
theorem engine_step_total_fourth : ∃ fp hfp view trace,
    EngineState.Reads (sampleParts fp hfp).fns 2 fp yearly
      ((restlessDataset.feed.take 3).map FeedItem.bar) (restlessBar 485 900) view ∧
      view.volRatio = some 2 ∧
      Decides sampleCore (sampleParts fp hfp).kept view.window 4 trace := by
  obtain ⟨fp, hfp, x, log, hrun⟩ := restless_runs
  have hfinite : ∀ d ∈ (sampleParts fp hfp).kept, d.weight ≠ .inf := by
    show ∀ d ∈ detectorsOf roughFunctions .default, d.weight ≠ .inf
    simp only [detectorsOf, List.forall_mem_cons, List.not_mem_nil, false_imp_iff, implies_true,
      and_true]
    decide +kernel
  obtain ⟨view, trace, hreads, -, hdecides, -⟩ :=
    engine_step_total (sampleParts fp hfp) hfinite restlessBase hrun rfl
  refine ⟨fp, hfp, view, trace, hreads, ?_, hdecides⟩
  rw [hreads.ratio_warm (by decide)]
  show EngineState.ratio (sigmaOf floorFunctions yearly [100, 200, 100, 900])
    (baseOf floorFunctions yearly [100, 200]) = some 2
  decide +kernel

end FuzzHelm
