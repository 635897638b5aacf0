import FuzzHelm.Lib.Literals
import Mathlib.Algebra.BigOperators.Group.List.Basic
import Mathlib.Algebra.Order.BigOperators.Group.List
import Mathlib.Algebra.Order.Field.Basic
import Mathlib.Tactic.FieldSimp
import Mathlib.Tactic.Linarith
import Mathlib.Tactic.Ring

namespace Lib

/-!
# Moments of a sequence

The mean of a list, the sum of its squared deviations and its covariance with the positions
0, 1, 2, ..., with what an element more or a shift by one does to them.  The laws are those of
Welford: each moment comes from the one before without a second pass.

* `mean`, `sqDev`, `crossDev` — the moments;
* `mean_concat`, `sqDev_concat` — a list grows by an element;
* `mean_shift`, `sqDev_shift`, `crossDev_shift` — the first goes and a new one comes last;
* `olsSlope`, `olsIntercept`, `residualSum` — the regression on the positions.
-/

attribute [local instance] two_atLeastTwo

variable {K : Type*} [Field K]

/-! ### Mean and squared deviations -/

/-- The mean. -/
def mean (xs : List K) : K := xs.sum / xs.length

/-- The sum of the squared deviations. -/
def sqDev (xs : List K) : K := (xs.map fun x => (x - mean xs) * (x - mean xs)).sum

/-- The mean does not depend on the order. -/
theorem mean_perm {xs ys : List K} (h : xs.Perm ys) : mean xs = mean ys := by
  rw [mean, mean, h.sum_eq, h.length_eq]

/-- Nor do the squared deviations. -/
theorem sqDev_perm {xs ys : List K} (h : xs.Perm ys) : sqDev xs = sqDev ys := by
  rw [sqDev, sqDev, mean_perm h]
  exact (h.map _).sum_eq

/-- The squares about any centre. -/
theorem sum_sq_sub (xs : List K) (c : K) :
    (xs.map fun x => (x - c) * (x - c)).sum =
      (xs.map fun x => x * x).sum - 2 * c * xs.sum + xs.length * (c * c) := by
  induction xs with
  | nil => simp
  | cons x xs ih =>
    simp only [List.map_cons, List.sum_cons, List.length_cons, Nat.cast_succ, ih]
    ring

omit [Field K] in
/-- One value more is one more. -/
theorem length_concat (xs : List K) (x : K) : (xs ++ [x]).length = xs.length + 1 := by
  simp

/-- One value more is added. -/
theorem sum_concat (xs : List K) (x : K) : (xs ++ [x]).sum = xs.sum + x := by
  rw [List.sum_append, List.sum_singleton]

variable [CharZero K]

/-- The sum is the mean times the number. -/
theorem sum_eq_mean {xs : List K} (h : xs ≠ []) : xs.sum = xs.length * mean xs := by
  have hlen : (xs.length : K) ≠ 0 := by
    rw [Nat.cast_ne_zero]
    exact fun h0 => h (List.length_eq_zero_iff.mp h0)
  rw [mean]
  field_simp

/-- The sum of the squares less the square of the sum. -/
theorem sqDev_eq {xs : List K} (h : xs ≠ []) :
    sqDev xs = (xs.map fun x => x * x).sum - xs.length * (mean xs * mean xs) := by
  rw [sqDev, sum_sq_sub, sum_eq_mean h]
  ring

/-- The mean with one value more. -/
theorem mean_concat (xs : List K) (x : K) :
    mean (xs ++ [x]) = mean xs + (x - mean xs) / (xs.length + 1) := by
  have hlen : ((xs.length : K) + 1) ≠ 0 := Nat.cast_add_one_ne_zero _
  have hsum : xs.sum = xs.length * mean xs := by
    by_cases h : xs = []
    · simp [h, mean]
    · exact sum_eq_mean h
  rw [mean, sum_concat, hsum, length_concat, Nat.cast_succ]
  field_simp
  ring

/-- The squared deviations with one value more. -/
theorem sqDev_concat (xs : List K) (x : K) :
    sqDev (xs ++ [x]) = sqDev xs + (x - mean xs) * (x - mean (xs ++ [x])) := by
  have hlen : ((xs.length : K) + 1) ≠ 0 := Nat.cast_add_one_ne_zero _
  have hsq : sqDev xs = (xs.map fun x => x * x).sum - xs.length * (mean xs * mean xs) := by
    by_cases h : xs = []
    · simp [h, sqDev]
    · exact sqDev_eq h
  rw [sqDev_eq (by simp), hsq, mean_concat]
  simp only [List.map_append, List.map_cons, List.map_nil, sum_concat, length_concat, Nat.cast_succ]
  field_simp
  ring

/-- The mean of a window that moves by one. -/
theorem mean_shift (y x : K) (ys : List K) :
    mean (ys ++ [x]) = mean (y :: ys) + (x - y) / (ys.length + 1) := by
  have hlen : ((ys.length : K) + 1) ≠ 0 := Nat.cast_add_one_ne_zero _
  simp only [mean, sum_concat, List.sum_cons, length_concat, List.length_cons, Nat.cast_succ]
  field_simp
  ring

/-- **The shifted window**: one product says how the squared deviations change. -/
theorem sqDev_shift (y x : K) (ys : List K) :
    sqDev (ys ++ [x]) =
      sqDev (y :: ys) + (x - y) * (x - mean (ys ++ [x]) + y - mean (y :: ys)) := by
  have hlen : ((ys.length : K) + 1) ≠ 0 := Nat.cast_add_one_ne_zero _
  rw [sqDev_eq (by simp), sqDev_eq (by simp), mean_shift y x ys]
  simp only [List.map_append, List.map_cons, List.map_nil, sum_concat, List.sum_cons,
    length_concat, List.length_cons, Nat.cast_succ]
  field_simp
  ring

/-! ### The covariance with the positions -/

/-- The mean of the positions. -/
def midpoint (xs : List K) : K := ((xs.length : K) - 1) / 2

/-- The covariance of a list with its positions, without the division by the length. -/
def crossDev (xs : List K) : K :=
  (xs.zipIdx.map fun p => ((p.2 : K) - midpoint xs) * (p.1 - mean xs)).sum

/-- The squared deviations of the positions. -/
def posDev (xs : List K) : K :=
  (xs.zipIdx.map fun p => ((p.2 : K) - midpoint xs) * ((p.2 : K) - midpoint xs)).sum

/-- The elements weighted by their positions, counted from `i`. -/
def weighted (i : ℕ) (xs : List K) : K := ((xs.zipIdx i).map fun p => (p.2 : K) * p.1).sum

omit [CharZero K] in
/-- The weighted sum with one value before the others. -/
theorem weighted_cons (i : ℕ) (x : K) (xs : List K) :
    weighted i (x :: xs) = i * x + weighted (i + 1) xs := by
  simp only [weighted, List.zipIdx_cons, List.map_cons, List.sum_cons]

omit [CharZero K] in
/-- The weighted sum with all weights one higher. -/
theorem weighted_succ (i : ℕ) (xs : List K) :
    weighted (i + 1) xs = weighted i xs + xs.sum := by
  induction xs generalizing i with
  | nil => simp [weighted]
  | cons x xs ih =>
    rw [weighted_cons, weighted_cons, ih (i + 1), List.sum_cons]
    push_cast
    ring

omit [CharZero K] in
/-- The weighted sum with one value after the others. -/
theorem weighted_concat (i : ℕ) (xs : List K) (x : K) :
    weighted i (xs ++ [x]) = weighted i xs + (i + xs.length) * x := by
  induction xs generalizing i with
  | nil => simp [weighted]
  | cons y xs ih =>
    rw [List.cons_append, weighted_cons, weighted_cons, ih (i + 1), List.length_cons]
    push_cast
    ring

/-- A sum of products about two centres, over positions counted from `i`. -/
theorem sum_cross (i : ℕ) (xs : List K) (c m : K) :
    ((xs.zipIdx i).map fun p => ((p.2 : K) - c) * (p.1 - m)).sum =
      weighted i xs - c * xs.sum + xs.length * (c * m) -
        m * (xs.length * i + (xs.length : K) * (xs.length - 1) / 2) := by
  induction xs generalizing i with
  | nil => simp [weighted]
  | cons x xs ih =>
    rw [weighted_cons, List.zipIdx_cons, List.map_cons, List.sum_cons, List.sum_cons, ih (i + 1),
      List.length_cons]
    push_cast
    ring

/-- The deviations against the places, as a weighted sum. -/
theorem crossDev_eq (xs : List K) : crossDev xs = weighted 0 xs - midpoint xs * xs.sum := by
  rw [crossDev, sum_cross]
  simp only [midpoint, Nat.cast_zero]
  ring

/-- **The shifted window** and its covariance: every position goes down by one. -/
theorem crossDev_shift (y x : K) (ys : List K) :
    crossDev (ys ++ [x]) =
      crossDev (y :: ys) + (1 / 2 * (ys.length + 1 + 1) * (y - mean (y :: ys)) +
        1 / 2 * (ys.length + 1 - 1) * (x - mean (y :: ys))) := by
  have hsum : ys.sum = (ys.length + 1) * mean (y :: ys) - y := by
    have := sum_eq_mean (List.cons_ne_nil y ys)
    rw [List.sum_cons, List.length_cons, Nat.cast_succ] at this
    rw [← this]
    ring
  rw [crossDev_eq, crossDev_eq, weighted_concat, weighted_cons, weighted_succ]
  simp only [midpoint, sum_concat, List.sum_cons, length_concat, List.length_cons, Nat.cast_succ,
    Nat.cast_zero, hsum]
  ring

/-! ### Regression on the positions -/

/-- What the line `a + b k` leaves of the elements, squared. -/
def lineResidual (a b : K) (xs : List K) : K :=
  (xs.zipIdx.map fun p => (p.1 - (a + b * p.2)) * (p.1 - (a + b * p.2))).sum

/-- The slope of the line of least squares. -/
def olsSlope (xs : List K) : K := crossDev xs / posDev xs

/-- Its intercept. -/
def olsIntercept (xs : List K) : K := mean xs - olsSlope xs * midpoint xs

/-- What the line leaves over. -/
def residualSum (xs : List K) : K := lineResidual (olsIntercept xs) (olsSlope xs) xs

/-- Squares about a line, over positions counted from `i`. -/
theorem sum_sq_line (i : ℕ) (xs : List K) (a b : K) :
    ((xs.zipIdx i).map fun p => (p.1 - (a + b * p.2)) * (p.1 - (a + b * p.2))).sum =
      (xs.map fun x => x * x).sum - 2 * a * xs.sum - 2 * b * weighted i xs + xs.length * (a * a) +
        2 * a * b * (xs.length * i + (xs.length : K) * (xs.length - 1) / 2) +
        b * b * (xs.length * (i * i) + i * ((xs.length : K) * (xs.length - 1)) +
          (xs.length : K) * (xs.length - 1) * (2 * xs.length - 1) / 6) := by
  induction xs generalizing i with
  | nil => simp [weighted]
  | cons x xs ih =>
    simp only [List.zipIdx_cons, List.map_cons, List.sum_cons, ih (i + 1), weighted_cons,
      List.length_cons]
    push_cast
    ring

/-- The squares of the positions, counted from `i`, about a centre. -/
theorem sum_sq_positions (i : ℕ) (xs : List K) (c : K) :
    ((xs.zipIdx i).map fun p => ((p.2 : K) - c) * ((p.2 : K) - c)).sum =
      ((xs.length : K) * (i * i) + i * ((xs.length : K) * (xs.length - 1)) +
          (xs.length : K) * (xs.length - 1) * (2 * xs.length - 1) / 6) -
        2 * c * (xs.length * i + (xs.length : K) * (xs.length - 1) / 2) + xs.length * (c * c) := by
  induction xs generalizing i with
  | nil => simp
  | cons x xs ih =>
    simp only [List.zipIdx_cons, List.map_cons, List.sum_cons, ih (i + 1), List.length_cons]
    push_cast
    ring

/-- The spread of the places is known from their number. -/
theorem posDev_eq (xs : List K) :
    posDev xs = (xs.length : K) * ((xs.length : K) * xs.length - 1) / 12 := by
  rw [posDev, sum_sq_positions, midpoint, Nat.cast_zero]
  ring

/-- A line leaves the variance, less what its slope explains, and its distance at the middle. -/
theorem lineResidual_eq {xs : List K} (h : xs ≠ []) (a b : K) :
    lineResidual a b xs = sqDev xs - 2 * b * crossDev xs + b * b * posDev xs +
      xs.length * ((mean xs - a - b * midpoint xs) * (mean xs - a - b * midpoint xs)) := by
  rw [lineResidual, sum_sq_line, sqDev_eq h, crossDev_eq, posDev_eq, sum_eq_mean h, midpoint,
    Nat.cast_zero]
  ring

variable [LinearOrder K] [IsStrictOrderedRing K]

omit [CharZero K] in
/-- The squared deviations are not negative. -/
theorem sqDev_nonneg (xs : List K) : 0 ≤ sqDev xs := by
  apply List.sum_nonneg
  intro s hs
  obtain ⟨x, -, rfl⟩ := List.mem_map.mp hs
  exact mul_self_nonneg _

/-- Two places or more are spread. -/
theorem posDev_pos {xs : List K} (h : 2 ≤ xs.length) : 0 < posDev xs := by
  have hn : (2 : K) ≤ xs.length := by exact_mod_cast h
  rw [posDev_eq]
  apply div_pos _ (by norm_num)
  apply mul_pos (by linarith)
  nlinarith

/-- What the line leaves over, from the deviations alone. -/
theorem residualSum_eq {xs : List K} (h : 2 ≤ xs.length) :
    residualSum xs = sqDev xs - crossDev xs * crossDev xs / posDev xs := by
  have hpos : posDev xs ≠ 0 := (posDev_pos h).ne'
  have hne : xs ≠ [] := by
    rintro rfl
    simp at h
  rw [residualSum, lineResidual_eq hne, olsIntercept, olsSlope]
  field_simp
  ring

end Lib
