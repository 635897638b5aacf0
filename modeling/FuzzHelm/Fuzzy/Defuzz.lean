import FuzzHelm.Fuzzy.Config
import FuzzHelm.Fuzzy.Mamdani
import Mathlib.Algebra.Order.Field.Basic
import Mathlib.Tactic.FieldSimp
import Mathlib.Tactic.Positivity
import Mathlib.Tactic.Ring

namespace FuzzHelm

/-!
# Defuzzification

The centroid on a uniform grid: its nodes, the weights of the three quadratures, and what the
engine relies on.

* `quadratureWeights`, `makeGrid` — the weights are positive, the ends of the grid are those of
  the range;
* `centroid` — the centroid of any degrees on a grid;
* `dot_pos` — degrees have an area just when one of them is positive.
-/

/-! ### Weights and nodes -/

/-- The weight of node `j` of `n` intervals of length `delta`. -/
def quadratureWeight (scheme : DefuzzScheme) (n : ℕ) (delta : ℚ) (j : ℕ) : ℚ :=
  match scheme with
  | .rect => delta
  | .trapezoid => if j = 0 ∨ j = n then delta / 2 else delta
  | .simpson =>
    if j = 0 ∨ j = n then delta / 3
    else if j % 2 = 1 then 4 * delta / 3
    else 2 * delta / 3

/-- `quadrature_weights`: by the scheme, which may want an odd number of nodes. -/
def quadratureWeights (nodes : ℕ) (scheme : DefuzzScheme) (lo hi : ℚ) : Except PyError (List ℚ) :=
  if nodes < 3 then .error (.valueError ("need at least 3 grid nodes, got " ++ toString nodes))
  else if scheme = .simpson ∧ (nodes - 1) % 2 = 1 then
    .error (.valueError ("simpson needs an even number of intervals, got " ++ toString (nodes - 1)))
  else
    let delta := (hi - lo) / (nodes - 1 : ℕ)
    .ok ((List.range nodes).map (quadratureWeight scheme (nodes - 1) delta))

/-- Node `j` of `n` intervals, from the centre of the range. -/
def gridNode (n : ℕ) (lo hi : ℚ) (j : ℕ) : ℚ :=
  (lo + hi) / 2 + (hi - lo) / 2 * ((2 * j - n) / n)

/-- `make_grid`: both ends and evenly spaced nodes between them. -/
def makeGrid (nodes : ℕ) (lo hi : ℚ) : Except PyError (List ℚ) :=
  if nodes < 2 then .error (.valueError ("need at least 2 grid nodes, got " ++ toString nodes))
  else .ok ((List.range nodes).map (gridNode (nodes - 1) lo hi))

/-- Every weight of a quadrature is positive. -/
theorem quadratureWeight_pos {scheme : DefuzzScheme} {n j : ℕ} {delta : ℚ} (h : 0 < delta) :
    0 < quadratureWeight scheme n delta j := by
  unfold quadratureWeight
  cases scheme with
  | rect => exact h
  | trapezoid =>
    dsimp only
    split_ifs <;> positivity
  | simpson =>
    dsimp only
    split_ifs <;> positivity

/-- The weights are those of the scheme, on three nodes at least. -/
theorem quadratureWeights_ok {nodes : ℕ} {scheme : DefuzzScheme} {lo hi : ℚ} {w : List ℚ}
    (h : quadratureWeights nodes scheme lo hi = .ok w) :
    3 ≤ nodes ∧
      w = (List.range nodes).map
        (quadratureWeight scheme (nodes - 1) ((hi - lo) / (nodes - 1 : ℕ))) := by
  unfold quadratureWeights at h
  split_ifs at h with hlt heven
  · cases h
    exact ⟨by omega, rfl⟩

/-- There is one weight for each node. -/
theorem length_quadratureWeights {nodes : ℕ} {scheme : DefuzzScheme} {lo hi : ℚ} {w : List ℚ}
    (h : quadratureWeights nodes scheme lo hi = .ok w) : w.length = nodes := by
  rw [(quadratureWeights_ok h).2]
  simp

/-- The weights of a universe that is not a point are positive. -/
theorem quadratureWeights_pos {nodes : ℕ} {scheme : DefuzzScheme} {lo hi : ℚ} {w : List ℚ}
    (h : quadratureWeights nodes scheme lo hi = .ok w) (hlt : lo < hi) : ∀ x ∈ w, 0 < x := by
  obtain ⟨hnodes, rfl⟩ := quadratureWeights_ok h
  intro x hx
  obtain ⟨j, -, rfl⟩ := List.mem_map.mp hx
  apply quadratureWeight_pos
  have hn : (0 : ℚ) < (nodes - 1 : ℕ) := by
    rw [Nat.cast_pos]
    omega
  exact div_pos (by linarith) hn

/-- The grid is evenly spaced, on two nodes at least. -/
theorem makeGrid_ok {nodes : ℕ} {lo hi : ℚ} {grid : List ℚ} (h : makeGrid nodes lo hi = .ok grid) :
    2 ≤ nodes ∧ grid = (List.range nodes).map (gridNode (nodes - 1) lo hi) := by
  unfold makeGrid at h
  split_ifs at h with hlt
  · cases h
    exact ⟨by omega, rfl⟩

/-- There are as many nodes as were asked for. -/
theorem length_makeGrid {nodes : ℕ} {lo hi : ℚ} {grid : List ℚ}
    (h : makeGrid nodes lo hi = .ok grid) : grid.length = nodes := by
  rw [(makeGrid_ok h).2]
  simp

/-- The ends of the grid are exact. -/
theorem makeGrid_ends {nodes : ℕ} {lo hi : ℚ} {grid : List ℚ}
    (h : makeGrid nodes lo hi = .ok grid) :
    grid.head? = some lo ∧ grid.getLast? = some hi := by
  obtain ⟨hnodes, rfl⟩ := makeGrid_ok h
  obtain ⟨n, rfl⟩ : ∃ n, nodes = n + 1 := ⟨nodes - 1, by omega⟩
  have hn : (n : ℚ) ≠ 0 := by
    have : n ≠ 0 := by omega
    exact_mod_cast this
  constructor
  · rw [List.range_succ_eq_map]
    simp only [List.map_cons, List.head?_cons, Option.some.injEq, Nat.add_sub_cancel]
    unfold gridNode
    field_simp
    push_cast
    ring
  · rw [List.range_succ, List.map_append, List.map_singleton, List.getLast?_concat,
      Nat.add_sub_cancel, Option.some.injEq]
    unfold gridNode
    field_simp
    ring

/-! ### The centroid -/

/-- `centroid`: the quotient of both sums, or the middle of the universe where there is no mass. -/
def centroid (grid mu : List ℚ) (scheme : DefuzzScheme) : Except PyError ℚ :=
  if grid.length ≠ mu.length then
    .error (.valueError "grid and mu must be 1-D arrays of equal length")
  else
    let lo := grid.head?.getD 0
    let hi := grid.getLast?.getD 0
    (quadratureWeights grid.length scheme lo hi).map fun w =>
      centroidWeighted w (List.zipWith (· * ·) w grid) mu lo hi

section Dot

variable {w mu : List ℚ}

/-- Degrees that are not positive have no area. -/
theorem dot_nonpos (hw : ∀ x ∈ w, 0 < x) (hmu : ∀ x ∈ mu, x ≤ 0) : dot w mu ≤ 0 := by
  unfold dot
  induction w generalizing mu with
  | nil => simp
  | cons a w ih =>
    cases mu with
    | nil => simp
    | cons b mu =>
      rw [List.forall_mem_cons] at hw hmu
      rw [List.zipWith_cons_cons, List.sum_cons]
      have := mul_nonpos_of_nonneg_of_nonpos hw.1.le hmu.1
      linarith [ih hw.2 hmu.2]

/-- A sum of products that are not negative is not negative. -/
theorem dot_nonneg (hw : ∀ x ∈ w, 0 < x) (hmu : ∀ x ∈ mu, 0 ≤ x) : 0 ≤ dot w mu := by
  unfold dot
  induction w generalizing mu with
  | nil => simp
  | cons a w ih =>
    cases mu with
    | nil => simp
    | cons b mu =>
      rw [List.forall_mem_cons] at hw hmu
      rw [List.zipWith_cons_cons, List.sum_cons]
      have := mul_nonneg hw.1.le hmu.1
      linarith [ih hw.2 hmu.2]

/-- **The area is positive** just when a degree is. -/
theorem dot_pos (hlen : w.length = mu.length) (hw : ∀ x ∈ w, 0 < x) (hmu : ∀ x ∈ mu, 0 ≤ x) :
    0 < dot w mu ↔ ∃ x ∈ mu, 0 < x := by
  constructor
  -- a sum above 0 needs a term above 0
  · intro hpos
    by_contra hnone
    push Not at hnone
    exact absurd hpos (not_lt.mpr (dot_nonpos hw hnone))
  -- by induction on the weights, the term being the first or in the rest
  · rintro ⟨x, hx, hpos⟩
    induction w generalizing mu with
    | nil =>
      rw [List.eq_nil_of_length_eq_zero hlen.symm] at hx
      cases hx
    | cons a w ih =>
      cases mu with
      | nil => cases hx
      | cons b mu =>
        rw [List.forall_mem_cons] at hw hmu
        have hlen' : w.length = mu.length := by simpa using hlen
        have hsum : dot (a :: w) (b :: mu) = a * b + dot w mu := rfl
        rw [hsum]
        rcases List.mem_cons.mp hx with rfl | hx
        · have := mul_pos hw.1 hpos
          linarith [dot_nonneg hw.2 hmu.2]
        · have := mul_nonneg hw.1.le hmu.1
          linarith [ih hlen' hw.2 hmu.2 hx]

end Dot

/-! ### Largest elements -/

section VecMax

variable {xs : List ℚ} {x : ℚ}

/-- A maximum is below a bound just when all values are. -/
theorem vecMax_le (hx : 0 ≤ x) : vecMax xs ≤ x ↔ ∀ a ∈ xs, a ≤ x := by
  unfold vecMax
  cases hmax : xs.max? with
  | none =>
    rw [List.max?_eq_none_iff] at hmax
    simp [hmax, hx]
  | some m => exact List.max?_le_iff hmax

/-- A maximum of values that are not negative is not negative. -/
theorem vecMax_nonneg (h : ∀ a ∈ xs, 0 ≤ a) : 0 ≤ vecMax xs := by
  unfold vecMax
  cases hmax : xs.max? with
  | none => exact le_refl _
  | some m => exact h m (List.max?_mem hmax)

/-- The aggregate at a node, by its bounds. -/
theorem aggregateNode_le {betas : List ℚ} {rows : List (List ℚ)} {j : ℕ}
    (hlen : betas.length = rows.length) (hx : 0 ≤ x) :
    vecMax (List.zipWith (fun b row => min b (List.getD row j 0)) betas rows) ≤ x ↔
      ∀ k < rows.length, betas.getD k 0 ≤ x ∨ (rows.getD k []).getD j 0 ≤ x := by
  rw [vecMax_le hx]
  constructor
  · intro h k hk
    have hb : k < betas.length := by omega
    have hz : k < (List.zipWith (fun b row => min b (List.getD row j 0)) betas rows).length := by
      rw [List.length_zipWith]
      omega
    have hmin := h _ (List.getElem_mem hz)
    rw [List.getElem_zipWith, min_le_iff] at hmin
    rwa [List.getD_eq_getElem _ 0 hb, List.getD_eq_getElem _ [] hk]
  · intro h b hb
    obtain ⟨k, hk, rfl⟩ := List.getElem_of_mem hb
    rw [List.length_zipWith] at hk
    have hb : k < betas.length := by omega
    have hr : k < rows.length := by omega
    rw [List.getElem_zipWith, min_le_iff]
    have := h k hr
    rwa [List.getD_eq_getElem _ 0 hb, List.getD_eq_getElem _ [] hr] at this

/-- Numbers that are not negative and have the same bounds that are not negative are equal. -/
theorem eq_of_same_bounds {a b : ℚ} (ha : 0 ≤ a) (hb : 0 ≤ b)
    (h : ∀ x, 0 ≤ x → (a ≤ x ↔ b ≤ x)) : a = b :=
  le_antisymm ((h b hb).mpr (le_refl b)) ((h a ha).mp (le_refl a))

end VecMax

end FuzzHelm
