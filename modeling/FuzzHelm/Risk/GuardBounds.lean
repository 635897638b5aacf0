import FuzzHelm.Core.DecimalContext
import FuzzHelm.Lib.Literals
import FuzzHelm.Risk.Guard

namespace FuzzHelm

open Lib

/-!
# No rule can increase exposure

The headline invariant of the risk contour, for a guard built from any list of rules.

* `DemandsFlat` — a rule signals halt, the switch is tripped, or the state is `HALTED`;
* `flattenAll_iff` — an evaluation flattens exactly then;
* `approved_bounds` — the size and the sign of what is approved;
* `guard_never_increases` — the law, in exact arithmetic;
* `Written.approvedQty` — the end of an evaluation on decimals as they are written;
* `floor_exceeds_target` — a quotient that the context rounds up to an integer.
-/

/-! ### The records of a chain -/

/-- Every rule has its record. -/
theorem exists_record {α β : Type*} {R : α → β → Prop} {l : List α} {l' : List β}
    (h : List.Forall₂ R l l') {a : α} (ha : a ∈ l) : ∃ b ∈ l', R a b := by
  induction h with
  | nil => cases ha
  | cons hab _ ih =>
    rcases List.mem_cons.mp ha with rfl | ha
    · exact ⟨_, List.mem_cons_self .., hab⟩
    · obtain ⟨b, hb, hR⟩ := ih ha
      exact ⟨b, List.mem_cons_of_mem _ hb, hR⟩

/-- Every record has its rule. -/
theorem exists_rule {α β : Type*} {R : α → β → Prop} {l : List α} {l' : List β}
    (h : List.Forall₂ R l l') {b : β} (hb : b ∈ l') : ∃ a ∈ l, R a b := by
  induction h with
  | nil => cases hb
  | cons hab _ ih =>
    rcases List.mem_cons.mp hb with rfl | hb
    · exact ⟨_, List.mem_cons_self .., hab⟩
    · obtain ⟨a, ha, hR⟩ := ih hb
      exact ⟨a, List.mem_cons_of_mem _ ha, hR⟩

/-! ### When an evaluation flattens -/

/-- A rule of the chain signals halt. -/
def SignalsHalt (g : RiskGuard) (k : Option KillSwitch) (ctx : RiskContext) : Prop :=
  ∃ r ∈ g.chain k, ∃ rv, r.check ctx = .ok rv ∧ rv.halt = true

/-- Something demands that the book be flat. -/
def DemandsFlat (g : RiskGuard) (k : Option KillSwitch) (ctx : RiskContext) : Prop :=
  SignalsHalt g k ctx ∨ isTripped k = true ∨ ctx.riskState = .halted

section Evaluation

variable {g : RiskGuard} {k k' : Option KillSwitch} {ctx : RiskContext} {res : GuardResult}

/-- **A halt** is answered just when some signal of the evaluation demands it. -/
theorem halt_iff (h : g.evaluate k ctx = .ok (res, k')) :
    res.halt = true ↔ SignalsHalt g k ctx := by
  obtain ⟨inc, hrec, -, hhalt, -⟩ := RiskGuard.evaluate_eq_ok h
  rw [hhalt, List.any_eq_true]
  constructor
  · rintro ⟨rv, hrv, hh⟩
    obtain ⟨r, hr, hcheck⟩ := exists_rule hrec hrv
    exact ⟨r, hr, rv, hcheck, hh⟩
  · rintro ⟨r, hr, rv, hcheck, hh⟩
    obtain ⟨rv', hrv', hcheck'⟩ := exists_record hrec hr
    rw [hcheck] at hcheck'
    cases hcheck'
    exact ⟨rv, hrv', hh⟩

/-- **An evaluation flattens exactly when something demands it.** -/
theorem flattenAll_iff (h : g.evaluate k ctx = .ok (res, k')) :
    res.flattenAll = true ↔ DemandsFlat g k ctx := by
  obtain ⟨inc, -, -, -, hk, hflat, -⟩ := RiskGuard.evaluate_eq_ok h
  rw [DemandsFlat, ← halt_iff h, hflat, hk, Bool.or_eq_true, Bool.or_eq_true,
    decide_eq_true_iff, or_assoc]
  cases hh : res.halt with
  | true => simp
  | false => simp

/-- After a halt signal the switch that the guard holds is tripped, by that signal. -/
theorem halt_trips (h : g.evaluate k ctx = .ok (res, k')) (hh : res.halt = true) :
    k' = k.map (fun s => (s.trip none "max_drawdown_halt" (some ctx.tsNs)).2) ∧
      ∀ s ∈ k', s.tripped = true := by
  obtain ⟨inc, -, -, -, hk, -⟩ := RiskGuard.evaluate_eq_ok h
  rw [hh, if_pos rfl] at hk
  refine ⟨hk, fun s hs => ?_⟩
  rw [hk, Option.mem_def, Option.map_eq_some_iff] at hs
  obtain ⟨s₀, -, rfl⟩ := hs
  exact KillSwitch.trip_tripped _ _ _ _

/-! ### The size of what is approved -/

/-- The side of a target that is not flat has size 1. -/
theorem targetSide_abs (hq : ctx.targetQty ≠ 0) : |(ctx.targetSide : ℚ)| = 1 := by
  rw [RiskContext.targetSide]
  rcases sign_cases ctx.targetQty with ⟨-, hs⟩ | ⟨h0, -⟩ | ⟨-, hs⟩
  · rw [hs]; norm_num
  · exact absurd h0 hq
  · rw [hs]; norm_num

/-- A non-negative share of the target has its sign or is zero. -/
theorem share_sign {x : ℚ} (hx : 0 ≤ x) :
    x * ctx.targetSide = 0 ∨ sign (x * ctx.targetSide) = sign ctx.targetQty := by
  rcases hx.eq_or_lt with rfl | hx
  · exact .inl (zero_mul _)
  · rw [RiskContext.targetSide]
    rcases sign_cases ctx.targetQty with ⟨-, hs⟩ | ⟨-, hs⟩ | ⟨-, hs⟩
    · right
      rw [hs]
      exact sign_of_neg (by push_cast; linarith)
    · left
      rw [hs, Int.cast_zero, mul_zero]
    · right
      rw [hs]
      exact sign_of_pos (by push_cast; linarith)

/-- The size that is approved when nothing demands flattening. -/
theorem approved_abs (h : g.evaluate k ctx = .ok (res, k')) (hflat : res.flattenAll = false) :
    0 ≤ res.increaseApproved ∧ res.increaseApproved ≤ ctx.increaseQty ∧
      res.approvedQty = (ctx.baseQty + res.increaseApproved) * ctx.targetSide ∧
      |res.approvedQty| = ctx.baseQty + res.increaseApproved := by
  obtain ⟨inc, -, hinc, -, -, -, happ, hia⟩ := RiskGuard.evaluate_eq_ok h
  rw [hflat, if_neg Bool.false_ne_true] at happ hia
  obtain ⟨hnonneg, hle⟩ := RiskGuard.approvedIncrease_bounds hinc
  have hle' : inc ≤ ctx.increaseQty := hle.trans (Verdict.allowed_le _ ctx.increaseQty_nonneg)
  rw [hia]
  refine ⟨hnonneg, hle', happ, ?_⟩
  have hsum : 0 ≤ ctx.baseQty + inc := add_nonneg ctx.baseQty_nonneg hnonneg
  by_cases hq : ctx.targetQty = 0
  · have hbase : ctx.baseQty = 0 := by rw [RiskContext.baseQty, if_pos hq]
    have hincr : ctx.increaseQty = 0 := by rw [RiskContext.increaseQty, if_pos hq]
    have hzero : inc = 0 := le_antisymm (hincr ▸ hle') hnonneg
    rw [happ, hbase, hzero]
    simp
  · rw [happ, abs_mul, targetSide_abs hq, mul_one, abs_of_nonneg hsum]

/-- **Sign and size.** -/
theorem approved_bounds (h : g.evaluate k ctx = .ok (res, k')) :
    (res.approvedQty = 0 ∨ sign res.approvedQty = sign ctx.targetQty) ∧
      |res.approvedQty| ≤ |ctx.targetQty| := by
  cases hflat : res.flattenAll with
  | true =>
    obtain ⟨inc, -, -, -, -, -, happ, -⟩ := RiskGuard.evaluate_eq_ok h
    rw [hflat, if_pos rfl] at happ
    rw [happ, abs_zero]
    exact ⟨.inl rfl, abs_nonneg _⟩
  | false =>
    obtain ⟨h0, hle, happ, habs⟩ := approved_abs h hflat
    constructor
    · rw [happ]
      exact share_sign (add_nonneg ctx.baseQty_nonneg h0)
    · rw [habs]
      have hsum := ctx.base_add_increase
      rw [RiskContext.postQty] at hsum
      linarith

/-- **No rule is exceeded.** The approved increase is at most what the verdict of each rule
    leaves. -/
theorem increase_le_exposure (h : g.evaluate k ctx = .ok (res, k')) {rv : RuleVerdict}
    (hrv : rv ∈ res.records) :
    0 ≤ res.increaseApproved ∧ res.increaseApproved ≤ rv.verdict.allowed ctx.increaseQty := by
  obtain ⟨inc, -, hinc, -, -, -, -, hia⟩ := RiskGuard.evaluate_eq_ok h
  obtain ⟨hnonneg, hle⟩ := RiskGuard.approvedIncrease_bounds hinc
  have hmem : rv.verdict ∈ res.records.map RuleVerdict.verdict := List.mem_map.mpr ⟨rv, hrv, rfl⟩
  have hone := Verdict.allowed_compose_le _ hmem ctx.increaseQty_nonneg
  rw [hia]
  split
  · exact ⟨le_rfl, Verdict.allowed_nonneg _ ctx.increaseQty_nonneg⟩
  · exact ⟨hnonneg, hle.trans hone⟩

/-- **A reduction always passes.** -/
theorem reduction_passes (h : g.evaluate k ctx = .ok (res, k')) (hflat : res.flattenAll = false)
    (hinc : ctx.increaseQty = 0) : res.approvedQty = ctx.targetQty := by
  obtain ⟨h0, hle, happ, -⟩ := approved_abs h hflat
  have hzero : res.increaseApproved = 0 := le_antisymm (hinc ▸ hle) h0
  have hbase : ctx.baseQty = |ctx.targetQty| := by
    have hsum := ctx.base_add_increase
    rwa [hinc, add_zero] at hsum
  rw [happ, hzero, add_zero, hbase, mul_comm]
  exact sign_mul_abs ctx.targetQty

end Evaluation

/-! ### The law -/

/-- **No rule can increase exposure**, in exact arithmetic.  For a guard of any rules, with or
    without the mode gate, any switch and any context: what an evaluation approves has the sign
    and at most the size of the target; the increase is at most what each rule leaves; a pure
    reduction passes unless something demands a flat book, and then everything is closed and a halt
    signal has tripped the switch.  An evaluation returns whenever its rules do and the lot
    step, if given, is positive. -/
theorem guard_never_increases (g : RiskGuard) (k : Option KillSwitch) (ctx : RiskContext) :
    (∀ res k', g.evaluate k ctx = .ok (res, k') →
      ((res.approvedQty = 0 ∨ sign res.approvedQty = sign ctx.targetQty) ∧
        |res.approvedQty| ≤ |ctx.targetQty|) ∧
      0 ≤ res.increaseApproved ∧
      (∀ r ∈ g.chain k, ∃ rv x, r.check ctx = .ok rv ∧
        rv.verdict.exposure ctx.increaseQty = .ok x ∧ res.increaseApproved ≤ x) ∧
      (ctx.increaseQty = 0 → ¬ DemandsFlat g k ctx → res.approvedQty = ctx.targetQty) ∧
      (DemandsFlat g k ctx → res.approvedQty = 0 ∧ res.flattenAll = true) ∧
      (SignalsHalt g k ctx →
        k' = k.map (fun s => (s.trip none "max_drawdown_halt" (some ctx.tsNs)).2) ∧
          ∀ s ∈ k', s.tripped = true)) ∧
    ((∀ r ∈ g.chain k, ∃ rv, r.check ctx = .ok rv) → (∀ step ∈ ctx.stepSize, 0 < step) →
      ∃ res k', g.evaluate k ctx = .ok (res, k')) := by
  refine ⟨fun res k' h => ⟨approved_bounds h, ?_, ?_, ?_, ?_, ?_⟩, RiskGuard.evaluate_isOk⟩
  · cases hflat : res.flattenAll with
    | true =>
      obtain ⟨inc, -, -, -, -, -, -, hia⟩ := RiskGuard.evaluate_eq_ok h
      rw [hia, hflat, if_pos rfl]
    | false => exact (approved_abs h hflat).1
  · intro r hr
    obtain ⟨inc, hrec, -⟩ := RiskGuard.evaluate_eq_ok h
    obtain ⟨rv, hrv, hcheck⟩ := exists_record hrec hr
    exact ⟨rv, _, hcheck, Verdict.exposure_of_nonneg _ ctx.increaseQty_nonneg,
      (increase_le_exposure h hrv).2⟩
  · intro hinc hnot
    refine reduction_passes h ?_ hinc
    rwa [← flattenAll_iff h, Bool.not_eq_true] at hnot
  · intro hflat
    rw [← flattenAll_iff h] at hflat
    obtain ⟨inc, -, -, -, -, -, happ, -⟩ := RiskGuard.evaluate_eq_ok h
    rw [hflat, if_pos rfl] at happ
    exact ⟨happ, hflat⟩
  · intro hhalt
    exact halt_trips h ((halt_iff h).mpr hhalt)

/-- A request for one and a half lots on an empty book. -/
def entryContext : RiskContext where
  tsNs := 0
  instrument := "BTC"
  price := 100
  equity := 1000
  currentQty := 0
  targetQty := 3 / 2
  atr := 1
  stopDistance := 2
  drawdown := 0
  pnlDay := 0
  equityDayOpen := none
  dayStartNs := none
  grossNotionalOther := 0
  mmr := 5 / 1000
  maintAmount := 0
  leverageSetting := 3
  lastDataNs := none
  dqScore := 1
  riskState := .normal
  stepSize := some 1
  price_pos := hundred_pos_rat
  atr_nonneg := one_nonneg_rat
  stopDistance_nonneg := by norm_num
  leverageSetting_pos := three_pos_rat
  grossNotionalOther_nonneg := zero_nonneg_rat

/-- The default chain on `entryContext`: it returns, within the target. -/
theorem guard_entryContext :
    ∃ res k', (RiskGuard.fromConfig RiskConfig.default).evaluate none entryContext
        = .ok (res, k') ∧ |res.approvedQty| ≤ |entryContext.targetQty| := by
  have hlaw := guard_never_increases (RiskGuard.fromConfig RiskConfig.default) none entryContext
  have hok :
      ((RiskGuard.fromConfig RiskConfig.default).evaluate none entryContext).isOk = true := by
    decide +kernel
  cases h : (RiskGuard.fromConfig RiskConfig.default).evaluate none entryContext with
  | error e =>
    rw [h] at hok
    cases hok
  | ok r => exact ⟨r.1, r.2, rfl, (hlaw.1 r.1 r.2 h).1.2⟩

/-! ### Under the decimal context -/

namespace Written

/-- `D0`, the zero of the context. -/
def zero : FloatDec := ⟨false, 0, 0⟩

/-- `_sign`: of a zero with a sign too it is 0. -/
def sign (x : FloatDec) : ℤ :=
  if 0 < x.value then 1 else if x.value < 0 then -1 else 0

/-- The base and the increase of `RiskContext.__post_init__`: nothing is kept of a position
    that is closed or turned over. -/
def baseAndIncrease (current target : FloatDec) : FloatDec × FloatDec :=
  let cur := FloatDec.abs decimalPrec current
  let tgt := FloatDec.abs decimalPrec target
  if target.value = 0 then (zero, zero)
  else if sign current * sign target < 0 then (zero, tgt)
  else
    let increase := FloatDec.sub decimalPrec tgt cur
    (if tgt.value < cur.value then tgt else cur, if 0 < increase.value then increase else zero)

/-- `floor_fraction`, as it is written: a whole number, or eighteen decimals. -/
def floorFraction (x : ℚ) : FloatDec :=
  if x.den = 1 then ⟨decide (x.num < 0), x.num.natAbs, 0⟩
  else
    let n := x.num * 10 ^ fractionScale / (x.den : ℤ)
    ⟨decide (n < 0), n.natAbs, -fractionScale⟩

/-- `exposure` of a size that is not negative. -/
def exposure (verdict : Verdict) (requested : FloatDec) : FloatDec :=
  match verdict.kind with
  | .allow => requested
  | .veto => zero
  | .shrink => floorFraction (requested.value * verdict.factor)

/-- **The end of `evaluate`** where nothing demands a flat book: what is approved of a target,
    from the verdict of the chain. -/
def approvedQty (verdict : Verdict) (current target : FloatDec) (stepSize : Option FloatDec) :
    Except MoneyError FloatDec := do
  let (base, increase) := baseAndIncrease current target
  let allowed := exposure verdict increase
  let approvedInc ←
    match stepSize with
    | none => .ok allowed
    | some step => floorQty allowed step
  let approved := FloatDec.multiply decimalPrec (FloatDec.add decimalPrec base approvedInc)
    ⟨decide (sign target < 0), (sign target).natAbs, 0⟩
  return if approved.value = 0 then zero else approved

end Written

/-- **Flooring can go up.**  A target of two lots less `10 ^ (-37)`: the quotient has no 38 digits
    below two, and the empty chain approves two lots. -/
theorem floor_exceeds_target : ¬∀ (verdicts : List Verdict) (current target : FloatDec)
    (stepSize : Option FloatDec) (y : FloatDec),
    Written.approvedQty (Verdict.compose verdicts) current target stepSize = .ok y →
      |y.value| ≤ |target.value| := by
  intro h
  have hrounds : Written.approvedQty (Verdict.compose []) Written.zero
      ⟨false, 998 * 10 ^ 35 - 1, -37⟩ (some ⟨false, 499, -2⟩) = .ok ⟨false, 998, -2⟩ := by
    decide +kernel
  have hle := h [] Written.zero ⟨false, 998 * 10 ^ 35 - 1, -37⟩ (some ⟨false, 499, -2⟩)
    ⟨false, 998, -2⟩ hrounds
  have habove : ¬|(⟨false, 998, -2⟩ : FloatDec).value| ≤
      |(⟨false, 998 * 10 ^ 35 - 1, -37⟩ : FloatDec).value| := by
    decide +kernel
  exact habove hle

end FuzzHelm
