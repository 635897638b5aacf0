import FuzzHelm.Features.Indicators
import FuzzHelm.Lib.Smoothing
import FuzzHelm.Sizing.Sizer

namespace FuzzHelm

open Lib

/-!
# Volatility targeting

The variance of the returns as an exponential average, the multiplier that brings it to the
target, and a filter of the first order on the multiplier.

* `VolTarget.update`, `after` — the return of one bar, and of many;
* `after_s`, `after_sigma2` — the multiplier is the filter of its targets, the variance a weighted
  sum of squares;
* `vol_target_exact` — a run from the start, and how fast a step of the target is followed;
* `calmer_is_larger` — returns that are no larger never give a smaller multiplier, nor a smaller
  position.
-/

/-- `VolTarget`, of which the parameters have passed their checks; `sqrtA` is `math.sqrt(A)`. -/
structure VolTarget (K : Type*) where
  lam : K
  A : ℕ
  sigmaTarget : K
  sMin : K
  sMax : K
  gamma : K
  sqrtA : K
  sigma2 : Option K
  s : K
  sStar : K
  n : ℕ

/-- The arguments of `VolTarget(...)`. -/
structure VolTargetArgs (K : Type*) where
  lam : K
  A : ℤ
  sigmaTarget : K
  sMin : K
  sMax : K
  gamma : K
  s0 : Option K
  sigma20 : Option K

namespace VolTarget

variable {K : Type*}

/-- The parameters are those of `v`. -/
structure SameParams (v w : VolTarget K) : Prop where
  lam : w.lam = v.lam
  sigmaTarget : w.sigmaTarget = v.sigmaTarget
  sMin : w.sMin = v.sMin
  sMax : w.sMax = v.sMax
  gamma : w.gamma = v.gamma
  sqrtA : w.sqrtA = v.sqrtA

/-- An estimator has its own parameters. -/
theorem SameParams.refl (v : VolTarget K) : SameParams v v := ⟨rfl, rfl, rfl, rfl, rfl, rfl⟩

/-- Parameters over two parts. -/
theorem SameParams.trans {u v w : VolTarget K} (h : SameParams u v) (h' : SameParams v w) :
    SameParams u w where
  lam := h'.lam.trans h.lam
  sigmaTarget := h'.sigmaTarget.trans h.sigmaTarget
  sMin := h'.sMin.trans h.sMin
  sMax := h'.sMax.trans h.sMax
  gamma := h'.gamma.trans h.gamma
  sqrtA := h'.sqrtA.trans h.sqrtA

variable [Field K] [LinearOrder K]

/-- `VolTarget(...)`; `repr` writes a number. -/
def new (fns : RealFunctions K) (repr : K → String) (args : VolTargetArgs K) :
    Except PyError (VolTarget K) :=
  if ¬(0 < args.lam ∧ args.lam < 1) then .error (.valueError "lam must be in (0, 1)")
  else if args.A ≤ 0 ∨ args.sigmaTarget ≤ 0 then
    .error (.valueError "A and sigma_target must be > 0")
  else if ¬(0 < args.sMin ∧ args.sMin ≤ args.sMax) then
    .error (.valueError "need 0 < s_min <= s_max")
  else if ¬(0 < args.gamma ∧ args.gamma ≤ 1) then .error (.valueError "gamma must be in (0, 1]")
  else if ¬∀ v ∈ args.sigma20, 0 ≤ v then
    .error (.valueError "sigma2_0 must be a finite non-negative number")
  else if ¬∀ s ∈ args.s0, args.sMin ≤ s ∧ s ≤ args.sMax then
    .error (.valueError ("s0 must lie in [s_min, s_max] = [" ++ repr args.sMin ++ ", " ++
      repr args.sMax ++ "], got " ++ (args.s0.elim "None" repr)))
  else .ok {
    lam := args.lam
    A := args.A.toNat
    sigmaTarget := args.sigmaTarget
    sMin := args.sMin
    sMax := args.sMax
    gamma := args.gamma
    sqrtA := fns.sqrt args.A
    sigma2 := args.sigma20
    s := args.s0.getD args.sMin
    sStar := args.s0.getD args.sMin
    n := 0 }

variable (fns : RealFunctions K) (v : VolTarget K)

/-- `target_scale`: the target by the volatility, within the bounds. -/
def targetScale (sigmaAnn : K) : K :=
  if sigmaAnn ≤ 0 then v.sMax else min v.sMax (max v.sMin (v.sigmaTarget / sigmaAnn))

/-- The variance after the return `r`. -/
def nextSigma2 (r : K) : K :=
  match v.sigma2 with
  | none => r * r
  | some s2 => v.lam * s2 + (1 - v.lam) * (r * r)

/-- `update`: the annual volatility, the target of the multiplier and the multiplier. -/
def update (r : K) : (K × K × K) × VolTarget K :=
  let s2 := v.nextSigma2 r
  let sigmaAnn := fns.sqrt s2 * v.sqrtA
  let sStar := v.targetScale sigmaAnn
  let s := v.s + v.gamma * (sStar - v.s)
  ((sigmaAnn, sStar, s), { v with sigma2 := some s2, s := s, sStar := sStar, n := v.n + 1 })

/-- The estimate after some returns. -/
def after (rs : List K) : VolTarget K := rs.foldl (fun v r => (v.update fns r).2) v

/-- `filter_step_response`: how much of a step the filter shows after `n` updates. -/
def filterStepResponse (gamma : K) (n : ℕ) : K := 1 - (1 - gamma) ^ n

/-! ### The estimate between two bars -/

/-- The parameters are in their ranges and the state between its bounds. -/
structure Sound (v : VolTarget K) : Prop where
  lam_mem : 0 < v.lam ∧ v.lam < 1
  target_pos : 0 < v.sigmaTarget
  bounds : 0 < v.sMin ∧ v.sMin ≤ v.sMax
  gamma_mem : 0 < v.gamma ∧ v.gamma ≤ 1
  sigma2_nonneg : ∀ s2 ∈ v.sigma2, 0 ≤ s2
  s_mem : v.sMin ≤ v.s ∧ v.s ≤ v.sMax
  sStar_mem : v.sMin ≤ v.sStar ∧ v.sStar ≤ v.sMax

/-- Without returns nothing changes. -/
@[simp] theorem after_nil : v.after fns [] = v := rfl

/-- The first return, and then the rest. -/
@[simp] theorem after_cons (r : K) (rs : List K) :
    v.after fns (r :: rs) = (v.update fns r).2.after fns rs := rfl

/-- Returns in two parts. -/
theorem after_append (rs qs : List K) :
    v.after fns (rs ++ qs) = (v.after fns rs).after fns qs := List.foldl_append

/-- An update keeps the parameters. -/
theorem update_params (r : K) : SameParams v (v.update fns r).2 := ⟨rfl, rfl, rfl, rfl, rfl, rfl⟩

/-- So do any returns, by induction on them. -/
theorem after_params (rs : List K) : SameParams v (v.after fns rs) := by
  induction rs generalizing v with
  | nil => exact .refl v
  | cons r rs ih => exact (v.update_params fns r).trans (ih _)

/-- Each return is counted. -/
theorem after_n (rs : List K) : (v.after fns rs).n = v.n + rs.length := by
  induction rs generalizing v with
  | nil => rfl
  | cons r rs ih =>
    rw [after_cons, ih, List.length_cons]
    show v.n + 1 + rs.length = _
    omega

/-- The scale is smoothed towards its target. -/
theorem update_s (r : K) : (v.update fns r).2.s =
    smooth v.gamma v.s (v.update fns r).2.sStar := rfl

/-- The targets of the multiplier, bar after bar. -/
def targets : List K → VolTarget K → List K
  | [], _ => []
  | r :: rs, v => (v.update fns r).2.sStar :: targets rs (v.update fns r).2

/-- **The multiplier follows its targets.** -/
theorem after_s (rs : List K) :
    (v.after fns rs).s = smoothed v.gamma v.s (targets fns rs v) := by
  induction rs generalizing v with
  | nil => rfl
  | cons r rs ih =>
    rw [after_cons, ih, targets, smoothed_cons]
    rfl

variable {v}

omit [LinearOrder K] in
/-- The variance is smoothed towards the square of the return. -/
theorem nextSigma2_eq_smooth {s2 : K} (h : v.sigma2 = some s2) (r : K) :
    v.nextSigma2 r = smooth (1 - v.lam) s2 (r * r) := by
  rw [nextSigma2, h, smooth_eq]
  show v.lam * s2 + (1 - v.lam) * (r * r) = _
  ring

/-- **The variance** is a weighted sum of the squares. -/
theorem after_sigma2 {s2 : K} (h : v.sigma2 = some s2) (rs : List K) :
    (v.after fns rs).sigma2 = some (smoothed (1 - v.lam) s2 (rs.map fun r => r * r)) := by
  induction rs generalizing v s2 with
  | nil => exact h
  | cons r rs ih =>
    rw [after_cons, ih (v := (v.update fns r).2) rfl, List.map_cons, smoothed_cons,
      ← nextSigma2_eq_smooth h]
    rfl

/-- The target of the scale lies within the bounds. -/
theorem targetScale_mem (h : v.Sound) (x : K) :
    v.sMin ≤ v.targetScale x ∧ v.targetScale x ≤ v.sMax := by
  unfold targetScale
  split_ifs
  · exact ⟨h.bounds.2, le_rfl⟩
  · exact ⟨le_min h.bounds.2 (le_max_left _ _), min_le_left _ _⟩

/-- What the constructor accepts is sound, and has seen no return. -/
theorem Sound.new {repr : K → String} {args : VolTargetArgs K}
    (h : VolTarget.new fns repr args = .ok v) : v.Sound ∧ v.n = 0 := by
  unfold VolTarget.new at h
  split_ifs at h with hlam hA hbounds hgamma hsigma hs0
  cases h
  rw [not_or, not_le, not_le] at hA
  have hs : args.sMin ≤ args.s0.getD args.sMin ∧ args.s0.getD args.sMin ≤ args.sMax := by
    cases hstart : args.s0 with
    | none => exact ⟨le_rfl, hbounds.2⟩
    | some s => exact hs0 s hstart
  exact ⟨⟨hlam, hA.2, hbounds, hgamma, hsigma, hs, hs⟩, rfl⟩

variable [IsStrictOrderedRing K]

/-- The variance is not negative. -/
theorem nextSigma2_nonneg (h : v.Sound) (r : K) : 0 ≤ v.nextSigma2 r := by
  unfold nextSigma2
  split
  · exact mul_self_nonneg r
  · rename_i s2 hs2
    exact add_nonneg (mul_nonneg h.lam_mem.1.le (h.sigma2_nonneg s2 hs2))
      (mul_nonneg (sub_nonneg.mpr h.lam_mem.2.le) (mul_self_nonneg r))

/-- **Step lemma**: an update keeps the estimator sound. -/
theorem Sound.update (h : v.Sound) (r : K) : (v.update fns r).2.Sound where
  lam_mem := h.lam_mem
  target_pos := h.target_pos
  bounds := h.bounds
  gamma_mem := h.gamma_mem
  sigma2_nonneg := by
    intro s2 hs2
    cases hs2
    exact nextSigma2_nonneg h r
  s_mem := smooth_mem h.gamma_mem.1.le h.gamma_mem.2 h.s_mem (targetScale_mem h _)
  sStar_mem := targetScale_mem h _

/-- **Run lemma**: so do any returns. -/
theorem Sound.after (h : v.Sound) (rs : List K) : (v.after fns rs).Sound := by
  induction rs generalizing v with
  | nil => exact h
  | cons r rs ih => exact ih (h.update fns r)

/-- A return moves the multiplier by at most the share `gamma` of its range. -/
theorem Sound.move_le (h : v.Sound) (r : K) :
    |(v.update fns r).2.s - v.s| ≤ v.gamma * (v.sMax - v.sMin) :=
  abs_smooth_sub_le h.gamma_mem.1.le h.s_mem (targetScale_mem h _)

/-! ### The response to a step -/

omit [IsStrictOrderedRing K] in
/-- Returns of one size leave the variance at their square. -/
theorem nextSigma2_steady {c r : K} (hsigma : v.sigma2 = none ∨ v.sigma2 = some (c * c))
    (hr : |r| = c) : v.nextSigma2 r = c * c := by
  have hsq : r * r = c * c := by rw [← hr, abs_mul_abs_self]
  rcases hsigma with hsigma | hsigma
  · rw [nextSigma2, hsigma]
    exact hsq
  · rw [nextSigma2_eq_smooth hsigma, hsq, smooth_self]

omit [IsStrictOrderedRing K] in
/-- A variance that is the square of every return stays, and so does the target. -/
theorem targets_steady {c : K} {rs : List K}
    (hsigma : v.sigma2 = none ∨ v.sigma2 = some (c * c)) (hrs : ∀ r ∈ rs, |r| = c) :
    targets fns rs v =
      List.replicate rs.length (v.targetScale (fns.sqrt (c * c) * v.sqrtA)) := by
  induction rs generalizing v with
  | nil => rfl
  | cons r rs ih =>
    have hkept := nextSigma2_steady hsigma (hrs r List.mem_cons_self)
    have hrest := ih (v := (v.update fns r).2) (.inr (congrArg some hkept))
      fun q hq => hrs q (List.mem_cons_of_mem r hq)
    rw [targets, hrest, List.length_cons, List.replicate_succ]
    show v.targetScale (fns.sqrt (v.nextSigma2 r) * v.sqrtA) :: _ = _
    rw [hkept]
    rfl

omit [IsStrictOrderedRing K] in
/-- **Returns of one size**: the multiplier covers the share `filter_step_response` of its way to
    the target. -/
theorem after_steady {c : K} {rs : List K}
    (hsigma : v.sigma2 = none ∨ v.sigma2 = some (c * c)) (hrs : ∀ r ∈ rs, |r| = c) :
    (v.after fns rs).s = v.s + filterStepResponse v.gamma rs.length *
      (v.targetScale (fns.sqrt (c * c) * v.sqrtA) - v.s) := by
  have hstep := smoothed_replicate v.gamma v.s
    (v.targetScale (fns.sqrt (c * c) * v.sqrtA)) rs.length
  rw [after_s, targets_steady fns hsigma hrs, eq_add_of_sub_eq hstep, filterStepResponse]
  ring

/-! ### Calmer returns -/

/-- The returns of `v` were calmer than those of `w`. -/
structure Calmer (v w : VolTarget K) : Prop where
  params : SameParams v w
  started : v.sigma2.isSome = w.sigma2.isSome
  sigma2 : ∀ a ∈ v.sigma2, ∀ b ∈ w.sigma2, a ≤ b
  s : w.s ≤ v.s

omit [Field K] [IsStrictOrderedRing K] in
/-- An estimator is as calm as itself. -/
theorem Calmer.refl (v : VolTarget K) : Calmer v v where
  params := .refl v
  started := rfl
  sigma2 _ ha _ hb := (Option.mem_unique ha hb).le
  s := le_rfl

/-- A greater volatility has a smaller target. -/
theorem targetScale_anti (h : v.Sound) {x y : K} (hxy : x ≤ y) :
    v.targetScale y ≤ v.targetScale x := by
  unfold targetScale
  split_ifs with hy hx hx
  · exact le_rfl
  · exact absurd (hxy.trans hy) hx
  · exact min_le_left _ _
  · have hquot : v.sigmaTarget / y ≤ v.sigmaTarget / x :=
      div_le_div_of_nonneg_left h.target_pos.le (not_le.mp hx) hxy
    exact min_le_min_left _ (max_le_max_left _ hquot)

omit [IsStrictOrderedRing K] in
/-- The target depends on the parameters alone. -/
theorem SameParams.targetScale {v w : VolTarget K} (h : SameParams v w) (x : K) :
    w.targetScale x = v.targetScale x := by
  unfold VolTarget.targetScale
  rw [h.sMax, h.sMin, h.sigmaTarget]

/-- What is documented of `math.sqrt`. -/
structure SqrtLaws (sqrt : K → K) : Prop where
  nonneg : ∀ x, 0 ≤ sqrt x
  mono : Monotone sqrt

variable {fns} {w : VolTarget K}

/-- Smaller returns give a smaller variance. -/
theorem Calmer.nextSigma2 (h : Calmer v w) (hv : v.Sound) {r r' : K} (hr : |r| ≤ |r'|) :
    v.nextSigma2 r ≤ w.nextSigma2 r' := by
  have hsq : r * r ≤ r' * r' := by
    rw [← abs_mul_abs_self r, ← abs_mul_abs_self r']
    exact mul_self_le_mul_self (abs_nonneg r) hr
  have hstarted := h.started
  cases hsv : v.sigma2 with
  | none =>
    rw [hsv, Option.isSome_none, eq_comm, Option.isSome_eq_false_iff, Option.isNone_iff_eq_none]
      at hstarted
    rw [VolTarget.nextSigma2, VolTarget.nextSigma2, hsv, hstarted]
    exact hsq
  | some a =>
    rw [hsv, Option.isSome_some, eq_comm, Option.isSome_iff_exists] at hstarted
    obtain ⟨b, hb⟩ := hstarted
    rw [nextSigma2_eq_smooth hsv, nextSigma2_eq_smooth hb, h.params.lam]
    exact smooth_mono (sub_nonneg.mpr hv.lam_mem.2.le) (sub_le_self 1 hv.lam_mem.1.le)
      (h.sigma2 a hsv b hb) hsq

/-- **One bar**: a return that is no larger keeps the calm. -/
theorem Calmer.update (h : Calmer v w) (hv : v.Sound) (hsqrt : SqrtLaws fns.sqrt)
    (hA : 0 ≤ v.sqrtA) {r r' : K} (hr : |r| ≤ |r'|) :
    Calmer (v.update fns r).2 (w.update fns r').2 where
  params := by
    obtain ⟨hlam, htarget, hmin, hmax, hgamma, hA⟩ := h.params
    exact ⟨hlam, htarget, hmin, hmax, hgamma, hA⟩
  started := rfl
  sigma2 := by
    intro a ha b hb
    cases ha
    cases hb
    exact h.nextSigma2 hv hr
  s := by
    -- a larger volatility has a smaller target, and the filter keeps the order of the targets
    have hsigma : fns.sqrt (v.nextSigma2 r) * v.sqrtA ≤ fns.sqrt (w.nextSigma2 r') * w.sqrtA := by
      rw [h.params.sqrtA]
      exact mul_le_mul_of_nonneg_right (hsqrt.mono (h.nextSigma2 hv hr)) hA
    rw [update_s, update_s, h.params.gamma]
    refine smooth_mono hv.gamma_mem.1.le hv.gamma_mem.2 h.s ?_
    show w.targetScale _ ≤ v.targetScale _
    rw [h.params.targetScale]
    exact targetScale_anti hv hsigma

/-- **Run lemma**: the calmer estimator stays so over smaller returns. -/
theorem Calmer.after (h : Calmer v w) (hv : v.Sound) (hsqrt : SqrtLaws fns.sqrt)
    (hA : 0 ≤ v.sqrtA) {rs rs' : List K} (hrs : List.Forall₂ (fun r r' => |r| ≤ |r'|) rs rs') :
    Calmer (v.after fns rs) (w.after fns rs') := by
  induction hrs generalizing v w with
  | nil => exact h
  | cons hr _ ih => exact ih (h.update hv hsqrt hA hr) (hv.update fns _) hA

/-! ### Whole runs -/

/-- **A run of the volatility target.**  After any returns the multiplier is the filter of its
    targets, between `s_min` and `s_max`, and no bar moves it by more than its share of that
    range; the variance is the sum of the squares, faded; and returns of one size bring the
    multiplier to their target by the share of the step response. -/
theorem vol_target_exact {repr : K → String} {args : VolTargetArgs K}
    (h : VolTarget.new fns repr args = .ok v) :
    (∀ rs, (v.after fns rs).n = rs.length ∧
      (v.after fns rs).s = smoothed args.gamma v.s (targets fns rs v) ∧
      (args.sMin ≤ (v.after fns rs).s ∧ (v.after fns rs).s ≤ args.sMax) ∧
      (args.sMin ≤ (v.after fns rs).sStar ∧ (v.after fns rs).sStar ≤ args.sMax) ∧
      ∀ r, |(v.after fns (rs ++ [r])).s - (v.after fns rs).s| ≤
        args.gamma * (args.sMax - args.sMin)) ∧
    (args.sigma20 = none → ∀ r rs, (v.after fns (r :: rs)).sigma2 =
      some (args.lam ^ rs.length * (r * r) + faded (1 - args.lam) (rs.map fun q => q * q))) ∧
    (args.sigma20 = none → ∀ c rs, (∀ r ∈ rs, |r| = c) → (v.after fns rs).s =
      v.s + filterStepResponse args.gamma rs.length *
        (v.targetScale (fns.sqrt (c * c) * v.sqrtA) - v.s)) := by
  obtain ⟨hsound, hn⟩ := Sound.new fns h
  have hparams : v.lam = args.lam ∧ v.sMin = args.sMin ∧ v.sMax = args.sMax ∧
      v.gamma = args.gamma ∧ v.sigma2 = args.sigma20 := by
    unfold VolTarget.new at h
    split_ifs at h
    cases h
    exact ⟨rfl, rfl, rfl, rfl, rfl⟩
  obtain ⟨hlam, hmin, hmax, hgamma, hsigma⟩ := hparams
  -- the parameters are those of the arguments, and no update changes them
  rw [← hlam, ← hmin, ← hmax, ← hgamma, ← hsigma]
  refine ⟨fun rs => ?_, fun hnone r rs => ?_, fun hnone c rs hrs => ?_⟩
  · have hrun := hsound.after fns rs
    have hsame := v.after_params fns rs
    obtain ⟨hs, hstar⟩ := And.intro hrun.s_mem hrun.sStar_mem
    rw [hsame.sMin, hsame.sMax] at hs hstar
    refine ⟨by rw [after_n, hn, zero_add], after_s fns v rs, hs, hstar, fun r => ?_⟩
    have hmove := hrun.move_le fns r
    rw [hsame.sMin, hsame.sMax, hsame.gamma] at hmove
    rw [after_append]
    exact hmove
  -- without a variance to start from, the first return gives it whole
  · have hfirst : (v.update fns r).2.sigma2 = some (r * r) := by
      show some (v.nextSigma2 r) = _
      rw [nextSigma2, hnone]
    rw [after_cons, after_sigma2 fns hfirst, smoothed_eq, List.length_map]
    show some ((1 - (1 - v.lam)) ^ rs.length * (r * r) + faded (1 - v.lam) _) = _
    rw [sub_sub_cancel]
  · exact after_steady fns (.inl hnone) hrs

end VolTarget

/-! ### The position -/

/-- What is accepted grows with what is floored. -/
theorem acceptedQty_mono {q q' price : Decimal} (hprice : 0 < price) (minNotional : Decimal)
    (hq : q ≤ q') : acceptedQty q price minNotional ≤ acceptedQty q' price minNotional := by
  unfold acceptedQty
  by_cases hsmall : tooSmall q price minNotional = true
  · rw [if_pos hsmall]
    split_ifs with hsmall'
    · exact le_rfl
    · rw [tooSmall, decide_eq_true_iff, not_or, not_le] at hsmall'
      exact hsmall'.1.le
  · have hlarge := hsmall
    rw [tooSmall, decide_eq_true_iff, not_or, not_le, not_lt] at hlarge
    have hvalue : q * price ≤ q' * price := mul_le_mul_of_nonneg_right hq hprice.le
    have hsmall' : ¬tooSmall q' price minNotional = true := by
      rw [tooSmall, decide_eq_true_iff, not_or, not_le, not_lt]
      exact ⟨hlarge.1.trans_le hq, hlarge.2.trans hvalue⟩
    rw [if_neg hsmall, if_neg hsmall']
    exact hq

/-- A greater quantity is rounded down to a greater one. -/
theorem flooredQty_mono {q q' : ℚ} (h0 : 0 ≤ q) (hq : q ≤ q') (kappaMode : ℚ) (side : Side)
    (step : PosDec) : flooredQty q kappaMode side step ≤ flooredQty q' kappaMode side step := by
  unfold flooredQty
  split_ifs
  · exact le_rfl
  · exact quantize_down_mono step.2 h0 hq

/-- A larger bound by volatility gives no smaller quantity. -/
theorem acceptedQty_bound_mono {qa qv qv' ql kappa price : ℚ} (hqa : 0 ≤ qa) (hqv : 0 ≤ qv)
    (hle : qv ≤ qv') (hql : 0 ≤ ql) (hkappa : 0 ≤ kappa) (hprice : 0 < price) (side : Side)
    (step : PosDec) (minNotional : Decimal) :
    acceptedQty (flooredQty (kappa * (bindingBound qa qv ql).1) kappa side step) price
        minNotional ≤
      acceptedQty (flooredQty (kappa * (bindingBound qa qv' ql).1) kappa side step) price
        minNotional := by
  rw [bindingBound_eq, bindingBound_eq]
  have hmin : min (min qa qv) ql ≤ min (min qa qv') ql :=
    min_le_min_right _ (min_le_min_left _ hle)
  exact acceptedQty_mono hprice minNotional (flooredQty_mono
    (mul_nonneg hkappa (le_min (le_min hqa hqv) hql)) (mul_le_mul_of_nonneg_left hmin hkappa) _ _ _)

/-- A larger multiplier gives no smaller position. -/
theorem PositionSizer.size_mono {prm : SizingCfg} (inp : SizingInput) {s : ℚ} (hs : inp.sT ≤ s)
    {res : SizingResult} (h : PositionSizer.size prm inp = .ok res) :
    ∃ res', PositionSizer.size prm { inp with sT := s } = .ok res' ∧ res.qty ≤ res'.qty := by
  unfold size at h ⊢
  dsimp only at h ⊢
  -- the refusals do not read the multiplier
  by_cases hu : ¬(-1 ≤ inp.uFinal ∧ inp.uFinal ≤ 1)
  · rw [if_pos hu] at h
    cases h
  by_cases hkappa : ¬(0 ≤ inp.kappaMode ∧ inp.kappaMode ≤ 1)
  · rw [if_neg hu, if_pos hkappa] at h
    cases h
  by_cases hprice : inp.price ≤ 0
  · rw [if_neg hu, if_neg hkappa, if_pos hprice] at h
    cases h
  rw [if_neg hu, if_neg hkappa, if_neg hprice] at h ⊢
  obtain ⟨qa, hqa, h⟩ := bind_eq_ok.mp h
  refine ⟨_, bind_eq_ok.mpr ⟨qa, hqa, rfl⟩, ?_⟩
  cases h
  -- all bounds but that of the volatility target are the same
  refine acceptedQty_bound_mono (qAtr_nonneg hqa) ?_ ?_ (le_max_left _ _)
    (not_not.mp hkappa).1 (not_le.mp hprice) _ _ _
  · split_ifs
    · exact le_max_left _ _
    · exact le_rfl
  · split_ifs with hequity
    · exact max_le_max_left _ (div_le_div_of_nonneg_right
        (mul_le_mul_of_nonneg_right hs hequity.le) (not_le.mp hprice).le)
    · exact le_rfl

/-- **The calmer market is traded larger**: of two histories of returns, the one that is nowhere
    larger in size gives no smaller multiplier, and for the same signal no smaller position. -/
theorem calmer_is_larger {fns : RealFunctions ℚ} (hsqrt : VolTarget.SqrtLaws fns.sqrt)
    {repr : ℚ → String} {args : VolTargetArgs ℚ} {v : VolTarget ℚ}
    (h : VolTarget.new fns repr args = .ok v) {rs rs' : List ℚ}
    (hrs : List.Forall₂ (fun r r' => |r| ≤ |r'|) rs rs') :
    (v.after fns rs').s ≤ (v.after fns rs).s ∧
      ∀ (prm : SizingCfg) (inp : SizingInput) (res' : SizingResult),
        PositionSizer.size prm { inp with sT := (v.after fns rs').s } = .ok res' →
        ∃ res, PositionSizer.size prm { inp with sT := (v.after fns rs).s } = .ok res ∧
          res'.qty ≤ res.qty := by
  have hA : 0 ≤ v.sqrtA := by
    unfold VolTarget.new at h
    split_ifs at h
    cases h
    exact hsqrt.nonneg _
  have hcalm := (VolTarget.Calmer.refl v).after (VolTarget.Sound.new fns h).1 hsqrt hA hrs
  refine ⟨hcalm.s, fun prm inp res' hsize => ?_⟩
  exact PositionSizer.size_mono { inp with sT := (v.after fns rs').s } hcalm.s hsize

/-! ### One bar a year -/

/-- The square root rounded down, which is exact on squares. -/
def floorSqrt (x : ℚ) : ℚ := Nat.sqrt ⌊x⌋₊

/-- The root of the samples obeys the laws of the root. -/
theorem floorSqrt_laws : VolTarget.SqrtLaws floorSqrt where
  nonneg _ := Nat.cast_nonneg _
  mono _ _ h := Nat.cast_le.mpr (Nat.sqrt_le_sqrt (Nat.floor_mono h))

/-- The defaults, but one bar a year. -/
def yearlyArgs : VolTargetArgs ℚ where
  lam := 94 / 100
  A := 1
  sigmaTarget := 1 / 5
  sMin := 1 / 4
  sMax := 3
  gamma := 1 / 5
  s0 := some 3
  sigma20 := none

/-- The estimator of the samples. -/
def yearly : VolTarget ℚ where
  lam := 94 / 100
  A := 1
  sigmaTarget := 1 / 5
  sMin := 1 / 4
  sMax := 3
  gamma := 1 / 5
  sqrtA := 1
  sigma2 := none
  s := 3
  sStar := 3
  n := 0

/-- Its arguments are accepted. -/
theorem yearly_new (repr : ℚ → String) :
    VolTarget.new ⟨floorSqrt, id⟩ repr yearlyArgs = .ok yearly := by
  have hchecks : (0 < yearlyArgs.lam ∧ yearlyArgs.lam < 1) ∧
      ¬(yearlyArgs.A ≤ 0 ∨ yearlyArgs.sigmaTarget ≤ 0) ∧
      (0 < yearlyArgs.sMin ∧ yearlyArgs.sMin ≤ yearlyArgs.sMax) ∧
      (0 < yearlyArgs.gamma ∧ yearlyArgs.gamma ≤ 1) ∧
      (∀ s2 ∈ yearlyArgs.sigma20, 0 ≤ s2) ∧
      ∀ s ∈ yearlyArgs.s0, yearlyArgs.sMin ≤ s ∧ s ≤ yearlyArgs.sMax := by decide +kernel
  obtain ⟨hlam, hA, hbounds, hgamma, hsigma, hs0⟩ := hchecks
  rw [VolTarget.new, if_neg (not_not.mpr hlam), if_neg hA, if_neg (not_not.mpr hbounds),
    if_neg (not_not.mpr hgamma), if_neg (not_not.mpr hsigma), if_neg (not_not.mpr hs0)]
  have hsqrt : floorSqrt ((1 : ℤ) : ℚ) = 1 := by norm_num [floorSqrt]
  exact congrArg (fun x => Except.ok { yearly with sqrtA := x }) hsqrt

/-- After two years of returns of the size 1 the multiplier has covered 9/25 of its way. -/
theorem vol_target_exact_yearly : (yearly.after ⟨floorSqrt, id⟩ [1, -1]).s =
    3 + 9 / 25 * (yearly.targetScale (floorSqrt (1 * 1) * 1) - 3) := by
  obtain ⟨-, -, hsteady⟩ := VolTarget.vol_target_exact (yearly_new fun _ => "")
  have hshare : VolTarget.filterStepResponse (1 / 5 : ℚ) 2 = 9 / 25 := by
    norm_num [VolTarget.filterStepResponse]
  rw [← hshare]
  exact hsteady rfl 1 [1, -1] (by decide +kernel)

/-- A return of 1 against one of -2. -/
theorem calmer_is_larger_yearly :
    (yearly.after ⟨floorSqrt, id⟩ [-2]).s ≤ (yearly.after ⟨floorSqrt, id⟩ [1]).s :=
  (calmer_is_larger floorSqrt_laws (yearly_new fun _ => "") (.cons (by decide +kernel) .nil)).1

end FuzzHelm
