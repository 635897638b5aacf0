import FuzzHelm.Core.Money
import Mathlib.Data.Rat.Floor

namespace FuzzHelm

open Lib

/-!
# The verdict algebra

`ALLOW`, `SHRINK f` with `0 < f < 1`, `VETO`, and their composition.

* `Verdict` — a verdict with the range of its factor as a field, so that a shrink by zero or
  by one cannot be built;
* `compose` — the chain: a veto absorbs, shrink factors multiply, the empty chain allows;
* `exposure` — the size that a verdict leaves, rounded down to 18 decimals;
* `compose_factor_le` — the factor of a chain is at most the factor of each of its verdicts;
* `allowed_compose_le` — hence so is the exposure.
-/

/-- The number of decimals that an exposure is floored to. -/
def fractionScale : ℕ := 18

/-- `⌊x·10^scale⌋·10^(-scale)`; whole numbers are returned as they are. -/
def floorFraction (x : ℚ) (scale : ℕ := fractionScale) : Decimal :=
  if x.den = 1 then x.num
  else ((x.num * 10 ^ scale / (x.den : ℤ) : ℤ) : ℚ) / 10 ^ scale

/-- The integer division of the source is a floor on the grid of `10^(-scale)`. -/
theorem floorFraction_eq (x : ℚ) (scale : ℕ) :
    floorFraction x scale = (⌊x * 10 ^ scale⌋ : ℚ) / 10 ^ scale := by
  have hpow : (10 : ℚ) ^ scale ≠ 0 := by positivity
  unfold floorFraction
  -- a whole number is scaled as it is, any other fraction by a division that rounds down
  split
  · rename_i hden
    have hx : x = (x.num : ℚ) := by
      conv_lhs => rw [← Rat.num_div_den x]
      rw [hden, Nat.cast_one, div_one]
    have hfloor : ⌊x * 10 ^ scale⌋ = x.num * 10 ^ scale := by
      rw [hx, Rat.num_intCast, Int.floor_eq_iff]
      push_cast
      constructor
      · exact le_rfl
      · linarith
    rw [hfloor]
    push_cast
    rw [mul_div_cancel_right₀ _ hpow]
  · have hfloor : ⌊x * 10 ^ scale⌋ = x.num * 10 ^ scale / (x.den : ℤ) := by
      have hx : x * 10 ^ scale = ((x.num * 10 ^ scale : ℤ) : ℚ) / (x.den : ℚ) := by
        conv_lhs => rw [← Rat.num_div_den x]
        push_cast
        ring
      rw [hx, Rat.floor_intCast_div_natCast]
    rw [hfloor]

/-- Rounding a share down does not go below zero. -/
theorem floorFraction_nonneg {x : ℚ} (hx : 0 ≤ x) : 0 ≤ floorFraction x := by
  rw [floorFraction_eq]
  have hfloor : 0 ≤ ⌊x * 10 ^ fractionScale⌋ := Int.floor_nonneg.mpr (by positivity)
  exact div_nonneg (by exact_mod_cast hfloor) (by positivity)

/-- Rounding a share down does not raise it. -/
theorem floorFraction_le (x : ℚ) : floorFraction x ≤ x := by
  rw [floorFraction_eq, div_le_iff₀ (by positivity)]
  exact Int.floor_le _

/-- Rounding shares down keeps their order. -/
theorem floorFraction_mono {x y : ℚ} (h : x ≤ y) : floorFraction x ≤ floorFraction y := by
  rw [floorFraction_eq, floorFraction_eq]
  refine div_le_div_of_nonneg_right ?_ (by positivity)
  exact_mod_cast Int.floor_mono (mul_le_mul_of_nonneg_right h (by positivity))

/-! ### Verdicts -/

/-- The range of the factor of each kind of verdict. -/
def VerdictKind.Admits : VerdictKind → ℚ → Prop
  | .allow, f => f = 1
  | .veto, f => f = 0
  | .shrink, f => 0 < f ∧ f < 1

/-- Whether a factor belongs to a kind of verdict can be computed. -/
instance (k : VerdictKind) (f : ℚ) : Decidable (k.Admits f) := by
  cases k <;> unfold VerdictKind.Admits <;> infer_instance

/-- The verdict of a rule: `factor` is the exact multiplier of the exposure. -/
structure Verdict where
  kind : VerdictKind
  factor : ℚ
  admits : kind.Admits factor
  deriving DecidableEq

namespace Verdict

/-- `ALLOW`: the whole increase passes. -/
def allow : Verdict := ⟨.allow, 1, rfl⟩

/-- `VETO`: nothing of the increase passes. -/
def veto : Verdict := ⟨.veto, 0, rfl⟩

/-- `SHRINK(f)`; a factor outside `(0, 1)` raises. -/
def shrink (f : ℚ) : Except PyError Verdict :=
  if h : 0 < f ∧ f < 1 then .ok ⟨.shrink, f, h⟩
  else .error (.valueError "SHRINK factor must lie strictly in (0; 1)")

/-- A verdict that allows leaves everything. -/
@[simp] theorem allow_factor : allow.factor = 1 := rfl
/-- A veto leaves nothing. -/
@[simp] theorem veto_factor : veto.factor = 0 := rfl

/-- A factor is not negative. -/
theorem factor_nonneg (v : Verdict) : 0 ≤ v.factor := by
  obtain ⟨k, f, h⟩ := v
  cases k
  case allow => have hf : f = 1 := h; show 0 ≤ f; rw [hf]; exact zero_le_one
  case shrink => exact h.1.le
  case veto => have hf : f = 0 := h; show 0 ≤ f; rw [hf]

/-- A factor is at most 1. -/
theorem factor_le_one (v : Verdict) : v.factor ≤ 1 := by
  obtain ⟨k, f, h⟩ := v
  cases k
  case allow => have hf : f = 1 := h; show f ≤ 1; rw [hf]
  case shrink => exact h.2.le
  case veto => have hf : f = 0 := h; show f ≤ 1; rw [hf]; exact zero_le_one

/-- `shrink` succeeds exactly inside the open interval, with that factor. -/
theorem shrink_eq_ok {f : ℚ} {v : Verdict} :
    shrink f = .ok v ↔ (0 < f ∧ f < 1) ∧ v.kind = .shrink ∧ v.factor = f := by
  unfold shrink
  split
  · rename_i h
    constructor
    · rintro ⟨⟩
      exact ⟨h, rfl, rfl⟩
    · rintro ⟨-, hk, hf⟩
      obtain ⟨k, g, hv⟩ := v
      simp only at hk hf
      subst hk hf
      rfl
  · rename_i h
    constructor
    · rintro ⟨⟩
    · exact fun hv => absurd hv.1 h

/-! ### Composition -/

/-- The running state of the chain: the product of the factors seen so far and whether one
    of them was a shrink. -/
structure Running where
  product : ℚ
  shrunk : Bool
  inv : if shrunk then 0 < product ∧ product < 1 else product = 1

/-- The start of a chain. -/
def Running.start : Running := ⟨1, false, rfl⟩

/-- One more shrink: the product of factors in `(0, 1)` stays there. -/
def Running.mul (r : Running) (f : ℚ) (hf : 0 < f ∧ f < 1) : Running where
  product := r.product * f
  shrunk := true
  inv := by
    have hr := r.inv
    rw [if_pos rfl]
    split at hr
    · exact ⟨mul_pos hr.1 hf.1, by nlinarith [hr.1, hr.2, hf.1, hf.2]⟩
    · rw [hr, one_mul]; exact hf

/-- The verdict of a chain that has ended without a veto. -/
def Running.finish (r : Running) : Verdict :=
  if h : r.shrunk then ⟨.shrink, r.product, by have := r.inv; rwa [if_pos h] at this⟩
  else allow

/-- The loop over the remaining verdicts. -/
def composeLoop : List Verdict → Running → Verdict
  | [], r => r.finish
  | ⟨.veto, _, _⟩ :: _, _ => veto
  | ⟨.shrink, f, hf⟩ :: vs, r => composeLoop vs (r.mul f hf)
  | ⟨.allow, _, _⟩ :: vs, r => composeLoop vs r

/-- The composition of a chain of verdicts. -/
def compose (vs : List Verdict) : Verdict := composeLoop vs Running.start

/-- The verdict of a running product has its factor. -/
theorem Running.finish_factor (r : Running) : r.finish.factor = r.product := by
  have hr := r.inv
  unfold Running.finish
  split
  · rfl
  · rename_i h
    rw [if_neg h] at hr
    rw [hr]
    rfl

/-- The factor of a chain is the product of the factors of its verdicts. -/
theorem composeLoop_factor (vs : List Verdict) (r : Running) :
    (composeLoop vs r).factor = r.product * (vs.map factor).prod := by
  induction vs generalizing r with
  | nil => simp [composeLoop, Running.finish_factor]
  | cons v vs ih =>
    obtain ⟨k, f, h⟩ := v
    cases k
    case allow =>
      have hf : f = 1 := h
      simp only [composeLoop, ih, List.map_cons, List.prod_cons, hf, one_mul]
    case shrink =>
      simp only [composeLoop, ih, List.map_cons, List.prod_cons, Running.mul, mul_assoc]
    case veto =>
      have hf : f = 0 := h
      simp only [composeLoop, List.map_cons, List.prod_cons, hf, zero_mul, mul_zero,
        veto_factor]

/-- **The factor of a composition** is the product of the factors. -/
theorem compose_factor (vs : List Verdict) : (compose vs).factor = (vs.map factor).prod := by
  rw [compose, composeLoop_factor]
  exact one_mul _

/-- **A chain is at most as permissive as each of its verdicts.** -/
theorem compose_factor_le (vs : List Verdict) {v : Verdict} (hv : v ∈ vs) :
    (compose vs).factor ≤ v.factor := by
  induction vs with
  | nil => simp at hv
  | cons w ws ih =>
    have hcons : (compose (w :: ws)).factor = w.factor * (compose ws).factor := by
      rw [compose_factor, compose_factor, List.map_cons, List.prod_cons]
    rw [hcons]
    rcases List.mem_cons.mp hv with rfl | hv
    · exact mul_le_of_le_one_right v.factor_nonneg (compose ws).factor_le_one
    · exact (mul_le_of_le_one_left (compose ws).factor_nonneg w.factor_le_one).trans (ih hv)

/-- A verdict is determined by its factor. -/
theorem ext_factor {v w : Verdict} (h : v.factor = w.factor) : v = w := by
  have kind_of (u : Verdict) :
      u.kind = if u.factor = 1 then .allow else if u.factor = 0 then .veto else .shrink := by
    obtain ⟨k, f, hu⟩ := u
    cases k
    case allow => rw [if_pos (show f = 1 from hu)]
    case veto =>
      have hf : f = 0 := hu
      rw [if_neg (show ¬ f = 1 from hf ▸ zero_ne_one), if_pos (show f = 0 from hf)]
    case shrink => rw [if_neg hu.2.ne, if_neg hu.1.ne']
  have hk : v.kind = w.kind := by rw [kind_of v, kind_of w, h]
  obtain ⟨k, f, hv⟩ := v
  obtain ⟨l, g, hw⟩ := w
  simp only at h hk
  subst h hk
  rfl

/-! ### Exposure -/

/-- The part of a non-negative exposure that a verdict leaves. -/
def allowed (v : Verdict) (requested : Decimal) : Decimal :=
  match v.kind with
  | .allow => requested
  | .veto => 0
  | .shrink => floorFraction (requested * v.factor)

/-- The allowed exposure; a negative request raises. -/
def exposure (v : Verdict) (requested : Decimal) : Except PyError Decimal :=
  if requested < 0 then .error (.valueError "requested exposure must be >= 0")
  else .ok (v.allowed requested)

/-- The exposure of a size is what the verdict leaves of it. -/
theorem exposure_of_nonneg (v : Verdict) {q : Decimal} (hq : 0 ≤ q) :
    v.exposure q = .ok (v.allowed q) := by
  rw [exposure, if_neg (not_lt.mpr hq)]

/-- What a verdict leaves is not negative. -/
theorem allowed_nonneg (v : Verdict) {q : Decimal} (hq : 0 ≤ q) : 0 ≤ v.allowed q := by
  unfold allowed
  split
  · exact hq
  · exact le_rfl
  · exact floorFraction_nonneg (mul_nonneg hq v.factor_nonneg)

/-- The allowed part is at most the exact product. -/
theorem allowed_le_mul (v : Verdict) (q : Decimal) : v.allowed q ≤ q * v.factor := by
  obtain ⟨k, f, h⟩ := v
  cases k
  case allow => have hf : f = 1 := h; simp [allowed, hf]
  case shrink => exact floorFraction_le _
  case veto => have hf : f = 0 := h; simp [allowed, hf]

/-- Nothing is left of nothing. -/
@[simp] theorem allowed_zero (v : Verdict) : v.allowed 0 = 0 := by
  unfold allowed
  split
  · rfl
  · rfl
  · rw [zero_mul]; rfl

/-- A smaller factor leaves a smaller exposure, rounding included. -/
theorem allowed_le_allowed {v w : Verdict} {q : Decimal} (hq : 0 ≤ q)
    (h : v.factor ≤ w.factor) : v.allowed q ≤ w.allowed q := by
  obtain ⟨k, f, hv⟩ := v
  obtain ⟨l, g, hw⟩ := w
  simp only at h
  -- the kinds in the order allow, veto, shrink of the larger one
  cases l
  case allow =>
    have hf1 : f ≤ 1 := (⟨k, f, hv⟩ : Verdict).factor_le_one
    exact (allowed_le_mul ⟨k, f, hv⟩ q).trans (mul_le_of_le_one_right hq hf1)
  case veto =>
    have hg : g = 0 := hw
    have hf0 : f = 0 := le_antisymm (hg ▸ h) (⟨k, f, hv⟩ : Verdict).factor_nonneg
    have heq : (⟨k, f, hv⟩ : Verdict) = veto := ext_factor hf0
    rw [heq]
    exact le_rfl
  case shrink =>
    -- a shrunk verdict is below one that allows
    cases k
    case allow =>
      have hf : f = 1 := hv
      exact absurd (hf ▸ h) (not_le.mpr hw.2)
    case veto => exact allowed_nonneg ⟨.shrink, g, hw⟩ hq
    case shrink => exact floorFraction_mono (mul_le_mul_of_nonneg_left h hq)

/-- **No verdict of a chain leaves less than the chain.** -/
theorem allowed_compose_le (vs : List Verdict) {v : Verdict} (hv : v ∈ vs) {q : Decimal}
    (hq : 0 ≤ q) : (compose vs).allowed q ≤ v.allowed q :=
  allowed_le_allowed hq (compose_factor_le vs hv)

/-- A verdict leaves no more than there was. -/
theorem allowed_le (v : Verdict) {q : Decimal} (hq : 0 ≤ q) : v.allowed q ≤ q :=
  (allowed_le_mul v q).trans (mul_le_of_le_one_right hq v.factor_le_one)

end Verdict

end FuzzHelm
