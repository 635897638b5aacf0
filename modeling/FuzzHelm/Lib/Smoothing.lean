import Mathlib.Algebra.Order.BigOperators.Group.List
import Mathlib.Algebra.Order.Field.Basic
import Mathlib.Tactic.Linarith
import Mathlib.Tactic.Ring

namespace Lib

/-!
# Exponential smoothing

A level that moves towards each input by the share `gamma` of the distance.

* `smooth`, `smoothed` — one step, and the level after some inputs;
* `smoothed_eq` — the start and each input, faded by what came after it;
* `smoothed_replicate` — the response to a step.
-/

variable {K : Type*} [Field K]

/-- One step of the level. -/
def smooth (gamma level x : K) : K := level + gamma * (x - level)

/-- The level after some inputs. -/
def smoothed (gamma level : K) (xs : List K) : K := xs.foldl (smooth gamma) level

/-- The inputs, each faded by those after it. -/
def faded (gamma : K) : List K → K
  | [] => 0
  | x :: xs => gamma * (1 - gamma) ^ xs.length * x + faded gamma xs

variable {gamma level level' x x' lo hi : K} {xs xs' : List K}

/-- A step is a mixture of the level and of what comes. -/
theorem smooth_eq (gamma level x : K) : smooth gamma level x = (1 - gamma) * level + gamma * x := by
  unfold smooth
  ring

/-- What comes at the level leaves it there. -/
@[simp] theorem smooth_self (gamma x : K) : smooth gamma x x = x := by
  unfold smooth
  ring

/-- Without values the level stays. -/
@[simp] theorem smoothed_nil (gamma level : K) : smoothed gamma level [] = level := rfl

/-- The first value moves the level, and then the rest. -/
@[simp] theorem smoothed_cons (gamma level x : K) (xs : List K) :
    smoothed gamma level (x :: xs) = smoothed gamma (smooth gamma level x) xs := rfl

/-- **The level is a weighted sum**: what is left of the start, and the faded inputs. -/
theorem smoothed_eq (gamma level : K) (xs : List K) :
    smoothed gamma level xs = (1 - gamma) ^ xs.length * level + faded gamma xs := by
  induction xs generalizing level with
  | nil => simp [faded]
  | cons x xs ih =>
    rw [smoothed_cons, ih, smooth_eq, faded, List.length_cons]
    ring

/-- **The response to a step** of the input. -/
theorem smoothed_replicate (gamma level x : K) (n : ℕ) :
    smoothed gamma level (List.replicate n x) - x = (1 - gamma) ^ n * (level - x) := by
  induction n generalizing level with
  | zero => simp
  | succ n ih =>
    rw [List.replicate_succ, smoothed_cons, ih, smooth_eq]
    ring

/-! ### Order -/

variable [LinearOrder K] [IsStrictOrderedRing K]

/-- A higher level and a higher value give a higher level. -/
theorem smooth_mono (h0 : 0 ≤ gamma) (h1 : gamma ≤ 1) (hlevel : level ≤ level') (hx : x ≤ x') :
    smooth gamma level x ≤ smooth gamma level' x' := by
  rw [smooth_eq, smooth_eq]
  exact add_le_add (mul_le_mul_of_nonneg_left hlevel (sub_nonneg.mpr h1))
    (mul_le_mul_of_nonneg_left hx h0)

/-- A level between two bounds stays there. -/
theorem smooth_mem (h0 : 0 ≤ gamma) (h1 : gamma ≤ 1) (hlevel : lo ≤ level ∧ level ≤ hi)
    (hx : lo ≤ x ∧ x ≤ hi) : lo ≤ smooth gamma level x ∧ smooth gamma level x ≤ hi := by
  constructor
  · calc lo = smooth gamma lo lo := (smooth_self gamma lo).symm
      _ ≤ smooth gamma level x := smooth_mono h0 h1 hlevel.1 hx.1
  · calc smooth gamma level x ≤ smooth gamma hi hi := smooth_mono h0 h1 hlevel.2 hx.2
      _ = hi := smooth_self gamma hi

/-- A step is at most the share `gamma` of the range. -/
theorem abs_smooth_sub_le (h0 : 0 ≤ gamma) (hlevel : lo ≤ level ∧ level ≤ hi)
    (hx : lo ≤ x ∧ x ≤ hi) : |smooth gamma level x - level| ≤ gamma * (hi - lo) := by
  have hdist : |x - level| ≤ hi - lo := by
    rw [abs_le]
    constructor
    · linarith [hx.1, hlevel.2]
    · linarith [hx.2, hlevel.1]
  rw [smooth, add_sub_cancel_left, abs_mul, abs_of_nonneg h0]
  exact mul_le_mul_of_nonneg_left hdist h0

end Lib
