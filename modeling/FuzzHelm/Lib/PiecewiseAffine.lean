import FuzzHelm.Lib.Partition
import Mathlib.Algebra.Order.Field.Basic
import Mathlib.Analysis.SpecialFunctions.Integrals.Basic
import Mathlib.Tactic.FieldSimp
import Mathlib.Tactic.LinearCombination
import Mathlib.Tactic.Linarith
import Mathlib.Tactic.Ring

namespace Lib

/-!
# Functions that are lines between neighbours

What is a line on an open interval, whatever the function does at the ends: lines through two
inner points, minima and maxima of lines, and where two lines may cross.

* `AffineOn` — the function is a line on the open interval;
* `AffineOn.eq_line` — it is the line through its values at the two thirds;
* `OrderedOn` — of two functions one is below the other throughout;
* `AffineOn.orderedOn` — two lines are ordered unless their crossing lies inside;
* `exists_eq_peak` — the largest of functions ordered by pairs is one of them throughout.
-/

section Lines

variable {K : Type*} [Field K] [LinearOrder K] {f g : K → K} {a b : K}

/-- The function is a line on the open interval. -/
def AffineOn (f : K → K) (a b : K) : Prop :=
  ∃ m c : K, ∀ u, a < u → u < b → f u = m * u + c

/-- On the open interval one of two functions is below the other throughout. -/
def OrderedOn (f g : K → K) (a b : K) : Prop :=
  (∀ u, a < u → u < b → f u ≤ g u) ∨ ∀ u, a < u → u < b → g u ≤ f u

/-- The line through `(x0, y0)` and `(x1, y1)`. -/
def line (x0 x1 y0 y1 u : K) : K := y0 + (y1 - y0) * (u - x0) / (x1 - x0)

namespace AffineOn

/-- A constant is affine. -/
theorem const (c : K) : AffineOn (fun _ => c) a b := ⟨0, c, fun _ _ _ => by ring⟩

/-- Affine on a piece is so whatever happens elsewhere. -/
theorem congr (hf : AffineOn f a b) (h : ∀ u, a < u → u < b → g u = f u) : AffineOn g a b := by
  obtain ⟨m, c, hf⟩ := hf
  exact ⟨m, c, fun u hau hub => (h u hau hub).trans (hf u hau hub)⟩

/-- Affine on a smaller piece. -/
theorem mono {a' b' : K} (hf : AffineOn f a b) (ha : a ≤ a') (hb : b' ≤ b) :
    AffineOn f a' b' := by
  obtain ⟨m, c, hf⟩ := hf
  exact ⟨m, c, fun u hau hub => hf u (ha.trans_lt hau) (hub.trans_le hb)⟩

/-- The difference of affine functions is affine. -/
theorem sub (hf : AffineOn f a b) (hg : AffineOn g a b) :
    AffineOn (fun u => f u - g u) a b := by
  obtain ⟨m, c, hf⟩ := hf
  obtain ⟨m', c', hg⟩ := hg
  refine ⟨m - m', c - c', ?_⟩
  intro u hau hub
  show f u - g u = _
  rw [hf u hau hub, hg u hau hub]
  ring

/-- The smaller of two ordered lines is a line. -/
theorem min (hf : AffineOn f a b) (hg : AffineOn g a b) (h : OrderedOn f g a b) :
    AffineOn (fun u => f u ⊓ g u) a b := by
  rcases h with h | h
  · exact hf.congr fun u hau hub => min_eq_left (h u hau hub)
  · exact hg.congr fun u hau hub => min_eq_right (h u hau hub)

end AffineOn

end Lines

section Thirds

variable {K : Type*} [Field K] [LinearOrder K] [IsStrictOrderedRing K] {f g : K → K} {x0 x1 : K}

/-- The first of two points that cut an interval into three. -/
theorem third_mem (h : x0 < x1) : x0 < x0 + (x1 - x0) / 3 ∧ x0 + (x1 - x0) / 3 < x1 := by
  constructor
  · linarith
  · linarith

/-- Two thirds of a piece lie inside it. -/
theorem two_thirds_mem (h : x0 < x1) :
    x0 < x0 + 2 * (x1 - x0) / 3 ∧ x0 + 2 * (x1 - x0) / 3 < x1 := by
  constructor
  · linarith
  · linarith

/-- **A line is given by its values at the thirds.**  The values at the ends are those of the
    line, which need not be those of the function. -/
theorem AffineOn.eq_line (hf : AffineOn f x0 x1) (h : x0 < x1) {u : K} (h0 : x0 < u)
    (h1 : u < x1) :
    f u = line x0 x1 (2 * f (x0 + (x1 - x0) / 3) - f (x0 + 2 * (x1 - x0) / 3))
      (2 * f (x0 + 2 * (x1 - x0) / 3) - f (x0 + (x1 - x0) / 3)) u := by
  obtain ⟨m, c, hf⟩ := hf
  have hne : x1 - x0 ≠ 0 := sub_ne_zero.mpr h.ne'
  rw [hf u h0 h1, hf _ (third_mem h).1 (third_mem h).2,
    hf _ (two_thirds_mem h).1 (two_thirds_mem h).2]
  unfold line
  field_simp
  ring

/-- A line through values of the same sign keeps the sign between them. -/
theorem line_nonneg {y0 y1 u : K} (hy0 : 0 ≤ y0) (hy1 : 0 ≤ y1) (h0 : x0 < u) (h1 : u < x1) :
    0 ≤ line x0 x1 y0 y1 u := by
  have hpos : 0 < x1 - x0 := by linarith
  have heq : line x0 x1 y0 y1 u = (y0 * (x1 - u) + y1 * (u - x0)) / (x1 - x0) := by
    unfold line
    field_simp
    ring
  rw [heq]
  have hleft : 0 ≤ y0 * (x1 - u) := mul_nonneg hy0 (by linarith)
  have hright : 0 ≤ y1 * (u - x0) := mul_nonneg hy1 (by linarith)
  exact div_nonneg (by linarith) hpos.le

omit [LinearOrder K] [IsStrictOrderedRing K] in
/-- The line through the opposite values is the opposite line. -/
theorem line_neg (y0 y1 u : K) : line x0 x1 (-y0) (-y1) u = -line x0 x1 y0 y1 u := by
  unfold line
  ring

/-- A line that rises from below 0 to above it has the sign of the side of its zero. -/
theorem line_sign {y0 y1 u : K} (hy0 : y0 < 0) (hy1 : 0 < y1) (hx : x0 < x1) :
    (u ≤ x0 + (x1 - x0) * y0 / (y0 - y1) → line x0 x1 y0 y1 u ≤ 0) ∧
      (x0 + (x1 - x0) * y0 / (y0 - y1) ≤ u → 0 ≤ line x0 x1 y0 y1 u) := by
  have hpos : 0 < x1 - x0 := by linarith
  have hrise : 0 < y1 - y0 := by linarith
  have hfall : y0 - y1 ≠ 0 := by linarith
  -- the distance from the zero, scaled
  have heq : line x0 x1 y0 y1 u =
      (y1 - y0) / (x1 - x0) * (u - (x0 + (x1 - x0) * y0 / (y0 - y1))) := by
    unfold line
    field_simp
    ring
  have hslope : 0 ≤ (y1 - y0) / (x1 - x0) := (div_pos hrise hpos).le
  rw [heq]
  constructor
  · intro h
    exact mul_nonpos_of_nonneg_of_nonpos hslope (by linarith)
  · intro h
    exact mul_nonneg hslope (by linarith)

/-- **Two lines are ordered between neighbours** unless they cross between them: the difference
    at the ends is that of the lines, by the values at the thirds. -/
theorem AffineOn.orderedOn {z0 z1 y0 y1 : K} (hf : AffineOn f x0 x1) (hg : AffineOn g x0 x1)
    (hx : x0 < x1) (hz0 : x0 ≤ z0) (hz1 : z1 ≤ x1)
    (hy0 : y0 = 2 * (f (x0 + (x1 - x0) / 3) - g (x0 + (x1 - x0) / 3)) -
      (f (x0 + 2 * (x1 - x0) / 3) - g (x0 + 2 * (x1 - x0) / 3)))
    (hy1 : y1 = 2 * (f (x0 + 2 * (x1 - x0) / 3) - g (x0 + 2 * (x1 - x0) / 3)) -
      (f (x0 + (x1 - x0) / 3) - g (x0 + (x1 - x0) / 3)))
    (hcross : y0 < 0 ∧ 0 < y1 ∨ y1 < 0 ∧ 0 < y0 →
      x0 + (x1 - x0) * y0 / (y0 - y1) ≤ z0 ∨ z1 ≤ x0 + (x1 - x0) * y0 / (y0 - y1)) :
    OrderedOn f g z0 z1 := by
  -- the difference is a line, given by its values at the ends
  have hline : ∀ u, z0 < u → u < z1 → f u - g u = line x0 x1 y0 y1 u := by
    intro u hu0 hu1
    rw [hy0, hy1]
    exact (hf.sub hg).eq_line hx (hz0.trans_lt hu0) (hu1.trans_le hz1)
  -- the line turned over has its zero at the same place
  have hneg : ∀ u, line x0 x1 (-y0) (-y1) u = -line x0 x1 y0 y1 u := line_neg y0 y1
  have hsame : (-y0) / (-y0 - -y1) = y0 / (y0 - y1) := by
    rw [show -y0 - -y1 = -(y0 - y1) by ring, neg_div_neg_eq]
  have hzero : x0 + (x1 - x0) * (-y0) / (-y0 - -y1) = x0 + (x1 - x0) * y0 / (y0 - y1) := by
    rw [mul_div_assoc, hsame, mul_div_assoc]
  by_cases hup : y0 < 0 ∧ 0 < y1
  · -- the difference rises through 0, left or right of the interval
    rcases hcross (.inl hup) with h | h
    · right
      intro u hu0 hu1
      have := (line_sign hup.1 hup.2 hx).2 (h.trans hu0.le)
      linarith [hline u hu0 hu1]
    · left
      intro u hu0 hu1
      have := (line_sign hup.1 hup.2 hx).1 (hu1.le.trans h)
      linarith [hline u hu0 hu1]
  · by_cases hdown : y1 < 0 ∧ 0 < y0
    · -- the same of the difference the other way round
      have hy0' : -y0 < 0 := by linarith
      have hy1' : 0 < -y1 := by linarith
      rcases hcross (.inr hdown) with h | h
      · left
        intro u hu0 hu1
        have := (line_sign hy0' hy1' hx).2 (hzero.trans_le (h.trans hu0.le))
        linarith [hline u hu0 hu1, hneg u]
      · right
        intro u hu0 hu1
        have := (line_sign hy0' hy1' hx).1 ((hu1.le.trans h).trans_eq hzero.symm)
        linarith [hline u hu0 hu1, hneg u]
    · -- the ends have the same sign
      by_cases hpos : 0 ≤ y0 ∧ 0 ≤ y1
      · right
        intro u hu0 hu1
        have := line_nonneg hpos.1 hpos.2 (hz0.trans_lt hu0) (hu1.trans_le hz1)
        linarith [hline u hu0 hu1]
      · have hnonpos : y0 ≤ 0 ∧ y1 ≤ 0 := by grind
        left
        intro u hu0 hu1
        have := line_nonneg (neg_nonneg.mpr hnonpos.1) (neg_nonneg.mpr hnonpos.2)
          (hz0.trans_lt hu0) (hu1.trans_le hz1)
        linarith [hline u hu0 hu1, hneg u]

end Thirds

section Peak

variable {K : Type*} [Field K] [LinearOrder K] {a b : K}

/-- The largest member of a list, and 0 of the empty one. -/
def peak (ys : List K) : K := ys.max?.getD 0

/-- Nothing has the peak zero. -/
@[simp] theorem peak_nil : peak ([] : List K) = 0 := rfl

/-- One value is its own peak. -/
@[simp] theorem peak_singleton (y : K) : peak [y] = y := rfl

/-- The peak of more values. -/
@[simp] theorem peak_cons_cons (y z : K) (ys : List K) :
    peak (y :: z :: ys) = y ⊔ peak (z :: ys) := by
  unfold peak
  rw [List.max?_cons, List.max?_cons]
  rfl

/-- Of nonnegative numbers the largest is found from 0 on. -/
theorem peak_eq_foldr {ys : List K} (h : ∀ y ∈ ys, 0 ≤ y) : peak ys = ys.foldr max 0 := by
  induction ys with
  | nil => rfl
  | cons y ys ih =>
    rw [List.forall_mem_cons] at h
    cases ys with
    | nil => exact (max_eq_left h.1).symm
    | cons z zs =>
      rw [peak_cons_cons, ih h.2]
      rfl

/-- **The largest of functions that are ordered by pairs** is one of them throughout. -/
theorem exists_eq_peak {fs : List (K → K)} (hne : fs ≠ [])
    (h : fs.Pairwise fun f g => OrderedOn f g a b) :
    ∃ f ∈ fs, ∀ u, a < u → u < b → peak (fs.map (· u)) = f u := by
  induction fs with
  | nil => exact absurd rfl hne
  | cons f fs ih =>
    rw [List.pairwise_cons] at h
    cases fs with
    | nil => exact ⟨f, by simp, fun u _ _ => rfl⟩
    | cons f' fs =>
      obtain ⟨g, hg, hpeak⟩ := ih (by simp) h.2
      -- the maximum of the rest is one function, to be compared with the first
      have hmax : ∀ u, a < u → u < b →
          peak ((f :: f' :: fs).map (· u)) = f u ⊔ g u := by
        intro u hau hub
        rw [← hpeak u hau hub]
        exact peak_cons_cons _ _ _
      rcases h.1 g hg with hfg | hgf
      · refine ⟨g, List.mem_cons_of_mem _ hg, ?_⟩
        intro u hau hub
        rw [hmax u hau hub, max_eq_right (hfg u hau hub)]
      · refine ⟨f, List.mem_cons_self, ?_⟩
        intro u hau hub
        rw [hmax u hau hub, max_eq_left (hgf u hau hub)]

/-- The largest of lines that are ordered by pairs is a line. -/
theorem affineOn_peak {fs : List (K → K)} (hlines : ∀ f ∈ fs, AffineOn f a b)
    (h : fs.Pairwise fun f g => OrderedOn f g a b) :
    AffineOn (fun u => peak (fs.map (· u))) a b := by
  by_cases hne : fs = []
  · subst hne
    exact AffineOn.const 0
  · obtain ⟨f, hf, hpeak⟩ := exists_eq_peak hne h
    exact (hlines f hf).congr hpeak

end Peak

/-! ### Integrals -/

section Integrals

open MeasureTheory

variable {f : ℝ → ℝ} {x0 x1 y0 y1 : ℝ}

/-- A line is continuous. -/
theorem continuous_line : Continuous (line x0 x1 y0 y1) := by
  unfold line
  fun_prop

/-- The integral of a line is the trapezoid. -/
theorem integral_line (h : x0 < x1) :
    ∫ u in x0..x1, line x0 x1 y0 y1 u = (x1 - x0) * (y0 + y1) / 2 := by
  have hne : x1 - x0 ≠ 0 := sub_ne_zero.mpr h.ne'
  have hline : ∀ u, line x0 x1 y0 y1 u =
      (y0 - (y1 - y0) * x0 / (x1 - x0)) + (y1 - y0) / (x1 - x0) * u := by
    intro u
    unfold line
    field_simp
    ring
  have hid : IntervalIntegrable (fun u => (y1 - y0) / (x1 - x0) * u) volume x0 x1 :=
    Continuous.intervalIntegrable (by fun_prop) _ _
  simp only [hline]
  rw [intervalIntegral.integral_add (by simp) hid, intervalIntegral.integral_const,
    intervalIntegral.integral_const_mul, integral_id, smul_eq_mul]
  field_simp
  ring

/-- The integral of a line times the place. -/
theorem integral_mul_line (h : x0 < x1) :
    ∫ u in x0..x1, u * line x0 x1 y0 y1 u =
      (x1 - x0) * (x0 * (2 * y0 + y1) + x1 * (y0 + 2 * y1)) / 6 := by
  have hne : x1 - x0 ≠ 0 := sub_ne_zero.mpr h.ne'
  have hline : ∀ u, u * line x0 x1 y0 y1 u =
      (y0 - (y1 - y0) * x0 / (x1 - x0)) * u + (y1 - y0) / (x1 - x0) * u ^ 2 := by
    intro u
    unfold line
    field_simp
    ring
  have hid : IntervalIntegrable (fun u => (y0 - (y1 - y0) * x0 / (x1 - x0)) * u) volume x0 x1 :=
    Continuous.intervalIntegrable (by fun_prop) _ _
  have hsq : IntervalIntegrable (fun u => (y1 - y0) / (x1 - x0) * u ^ 2) volume x0 x1 :=
    Continuous.intervalIntegrable (by fun_prop) _ _
  simp only [hline]
  rw [intervalIntegral.integral_add hid hsq, intervalIntegral.integral_const_mul,
    intervalIntegral.integral_const_mul, integral_id, integral_pow]
  field_simp
  ring

/-- Only the values between the ends count. -/
theorem integral_eq_of_between {g : ℝ → ℝ} (h : x0 ≤ x1) (hg : Continuous g)
    (heq : ∀ u, x0 < u → u < x1 → f u = g u) :
    IntervalIntegrable f volume x0 x1 ∧ ∫ u in x0..x1, f u = ∫ u in x0..x1, g u := by
  have hon : Set.EqOn g f (Set.Ioo x0 x1) := fun u hu => (heq u hu.1 hu.2).symm
  constructor
  · apply (hg.intervalIntegrable x0 x1).congr_uIoo
    rwa [Set.uIoo_of_le h]
  · exact (intervalIntegral.integral_congr_Ioo_of_le h hon).symm

/-- What holds of the integral between neighbours adds up over the stretch. -/
theorem integral_adjacent {F : ℝ × ℝ → ℝ} {x : ℝ} {xs : List ℝ}
    (h : ∀ s ∈ adjacent (x :: xs),
      IntervalIntegrable f volume s.1 s.2 ∧ ∫ u in s.1..s.2, f u = F s) :
    IntervalIntegrable f volume x ((x :: xs).getLast (by simp)) ∧
      ∫ u in x..(x :: xs).getLast (by simp), f u = ((adjacent (x :: xs)).map F).sum := by
  induction xs generalizing x with
  | nil => simp
  | cons y ys ih =>
    rw [adjacent_cons_cons, List.forall_mem_cons] at h
    obtain ⟨⟨hfirst, hF⟩, hrest⟩ := h
    obtain ⟨hint, hsum⟩ := ih hrest
    rw [List.getLast_cons (by simp)]
    refine ⟨hfirst.trans hint, ?_⟩
    rw [adjacent_cons_cons, List.map_cons, List.sum_cons, ← hF, ← hsum]
    exact (intervalIntegral.integral_add_adjacent_intervals hfirst hint).symm

end Integrals

end Lib
