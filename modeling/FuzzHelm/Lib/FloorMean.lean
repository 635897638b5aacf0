import Mathlib.Algebra.BigOperators.Group.List.Basic
import Mathlib.Algebra.Order.Field.Basic
import Mathlib.Data.List.Forall2
import Mathlib.Tactic.FieldSimp
import Mathlib.Tactic.Linarith
import Mathlib.Tactic.Ring

namespace Lib

/-!
# Weighted means with a floor under the mass

Pairs of a weight and a value; the weighted sum of the values is divided by the mass of the
weights, or by a floor when the mass does not reach it.

* `floorMean` — the mean;
* `le_floorMean`, `floorMean_le` — it lies between the values, and zero where the floor divides;
* `floorMean_mono` — it rises with every value;
* `floorMean_perm` — it does not depend on the order.
-/

variable {K : Type*} [Field K] [LinearOrder K]

/-- The sum of the weights. -/
def mass (xs : List (K × K)) : K := (xs.map Prod.fst).sum

/-- The sum of the weighted values. -/
def weightedSum (xs : List (K × K)) : K := (xs.map fun p => p.1 * p.2).sum

/-- The mean of the values by weight, with a floor under the mass. -/
def floorMean (eps : K) (xs : List (K × K)) : K := weightedSum xs / max eps (mass xs)

/-- The order of the values does not matter. -/
theorem floorMean_perm {xs ys : List (K × K)} (h : xs.Perm ys) (eps : K) :
    floorMean eps xs = floorMean eps ys := by
  rw [floorMean, floorMean, mass, mass, weightedSum, weightedSum, (h.map _).sum_eq,
    (h.map Prod.fst).sum_eq]

/-- The same weights with the values turned round. -/
def opposite (xs : List (K × K)) : List (K × K) := xs.map fun p => (p.1, -p.2)

omit [LinearOrder K] in
/-- The opposite values have the same weights. -/
theorem mass_opposite (xs : List (K × K)) : mass (opposite xs) = mass xs := by
  rw [mass, opposite, List.map_map]
  rfl

/-- The mean of the opposite values is the opposite mean. -/
theorem floorMean_opposite (eps : K) (xs : List (K × K)) :
    floorMean eps (opposite xs) = -floorMean eps xs := by
  have hsum : weightedSum (opposite xs) = -weightedSum xs := by
    induction xs with
    | nil => simp [weightedSum, opposite]
    | cons p xs ih =>
      simp only [weightedSum, opposite, List.map_cons, List.sum_cons] at ih ⊢
      rw [ih]
      ring
  rw [floorMean, floorMean, mass_opposite, hsum, neg_div]

variable [IsStrictOrderedRing K] {xs ys : List (K × K)} {eps lo hi : K}

/-- Values above a bound have a weighted sum above the bound times the mass. -/
theorem mul_mass_le (hw : ∀ p ∈ xs, 0 ≤ p.1) (hlo : ∀ p ∈ xs, 0 < p.1 → lo ≤ p.2) :
    lo * mass xs ≤ weightedSum xs := by
  induction xs with
  | nil => simp [mass, weightedSum]
  | cons p xs ih =>
    rw [List.forall_mem_cons] at hw hlo
    have hterm : lo * p.1 ≤ p.1 * p.2 := by
      rcases hw.1.eq_or_lt with h0 | hpos
      · rw [← h0, mul_zero, zero_mul]
      · rw [mul_comm]
        exact mul_le_mul_of_nonneg_left (hlo.1 hpos) hw.1
    have hrest := ih hw.2 hlo.2
    simp only [mass, weightedSum, List.map_cons, List.sum_cons] at hrest ⊢
    rw [mul_add]
    exact add_le_add hterm hrest

/-- **The hull, from below**: the floor draws the mean towards zero. -/
theorem le_floorMean (heps : 0 < eps) (hw : ∀ p ∈ xs, 0 ≤ p.1)
    (hlo : ∀ p ∈ xs, 0 < p.1 → lo ≤ p.2) (h0 : lo ≤ 0 ∨ eps ≤ mass xs) :
    lo ≤ floorMean eps xs := by
  have hmax : 0 < max eps (mass xs) := lt_of_lt_of_le heps (le_max_left _ _)
  rw [floorMean, le_div_iff₀ hmax]
  refine le_trans ?_ (mul_mass_le hw hlo)
  rcases h0 with h0 | h0
  · exact mul_le_mul_of_nonpos_left (le_max_right _ _) h0
  · rw [max_eq_right h0]

/-- **The hull, from above.** -/
theorem floorMean_le (heps : 0 < eps) (hw : ∀ p ∈ xs, 0 ≤ p.1)
    (hhi : ∀ p ∈ xs, 0 < p.1 → p.2 ≤ hi) (h0 : 0 ≤ hi ∨ eps ≤ mass xs) :
    floorMean eps xs ≤ hi := by
  have hneg : -hi ≤ floorMean eps (opposite xs) := by
    apply le_floorMean heps
    · intro p hp
      obtain ⟨q, hq, rfl⟩ := List.mem_map.mp hp
      exact hw q hq
    · intro p hp hpos
      obtain ⟨q, hq, rfl⟩ := List.mem_map.mp hp
      exact neg_le_neg (hhi q hq hpos)
    · rw [mass_opposite]
      exact h0.imp_left neg_nonpos.mpr
  rw [floorMean_opposite] at hneg
  exact neg_le_neg_iff.mp hneg

/-- **Monotone**: higher values at the same weights do not lower the mean. -/
theorem floorMean_mono (heps : 0 < eps) (hw : ∀ p ∈ xs, 0 ≤ p.1)
    (h : List.Forall₂ (fun p q => p.1 = q.1 ∧ p.2 ≤ q.2) xs ys) :
    floorMean eps xs ≤ floorMean eps ys := by
  -- the masses are the same, the sums are ordered
  have hmass : mass xs = mass ys := by
    clear hw
    induction h with
    | nil => rfl
    | cons hpq _ ih =>
      simp only [mass, List.map_cons, List.sum_cons] at ih ⊢
      rw [hpq.1, ih]
  have hsum : weightedSum xs ≤ weightedSum ys := by
    clear hmass
    induction h with
    | nil => exact le_refl _
    | cons hpq _ ih =>
      rw [List.forall_mem_cons] at hw
      have hrest := ih hw.2
      simp only [weightedSum, List.map_cons, List.sum_cons] at hrest ⊢
      rw [← hpq.1]
      exact add_le_add (mul_le_mul_of_nonneg_left hpq.2 hw.1) hrest
  rw [floorMean, floorMean, hmass]
  exact div_le_div_of_nonneg_right hsum (heps.le.trans (le_max_left _ _))

end Lib
