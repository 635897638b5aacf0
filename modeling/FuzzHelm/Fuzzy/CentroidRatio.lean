import FuzzHelm.Fuzzy.ExactCentroid
import Mathlib.Data.Rat.Cast.Order

namespace FuzzHelm

open Lib

/-!
# The exact centroid and the integrals

The engine computes with rational knots and activations.  What it computes is the centroid of the
same terms in any ordered field; over the reals that is the first moment over the area, and so the
rational result is the ratio of two integrals.

* `plEval_cast`, `cut_cast` — the degrees in another field;
* `breakpoints_cast` — the breakpoints;
* `exactCentroid_cast` — the centroid;
* `exact_centroid_is_ratio` — the result is the first moment over the area.
-/

/-! ### Another field -/

section Cast

variable {K : Type*} [Field K] [LinearOrder K] [IsStrictOrderedRing K]

/-- Rational knots in another field. -/
def Knots.cast (k : Knots ℚ) : Knots K where
  a := k.a
  b := k.b
  c := k.c
  d := k.d
  a_le := Rat.cast_le.mpr k.a_le
  b_le := Rat.cast_le.mpr k.b_le
  c_le := Rat.cast_le.mpr k.c_le
  support := Rat.cast_injective.ne k.support

/-- The value of the knots, computed in another field. -/
theorem plEval_cast (k : Knots ℚ) (x : ℚ) : plEval (k.cast : Knots K) x = (plEval k x : ℚ) := by
  unfold plEval Knots.cast
  simp only [Rat.cast_lt, Rat.cast_le]
  split_ifs <;> push_cast <;> rfl

/-- A term and its activation in another field. -/
def castTerm (t : Knots ℚ × ℚ) : Knots K × K := (t.1.cast, t.2)

/-- The value of a clipped term, computed in another field. -/
theorem cut_cast (t : Knots ℚ × ℚ) (x : ℚ) : cut (castTerm t : Knots K × K) x = (cut t x : ℚ) := by
  unfold cut castTerm
  rw [plEval_cast, Rat.cast_min]

/-- The values of all terms, computed in another field. -/
theorem gAll_cast (active : List (Knots ℚ × ℚ)) (x : ℚ) :
    gAll (active.map castTerm : List (Knots K × K)) x = (gAll active x).map (↑) := by
  simp [gAll, cut_cast, Function.comp_def]

/-- Sorting without repetitions, in another field. -/
theorem sortedDistinct_cast (ps : List ℚ) :
    sortedDistinct (ps.map ((↑) : ℚ → K)) = (sortedDistinct ps).map (↑) := by
  have hle : ∀ a ∈ ps.dedup, ∀ b ∈ ps.dedup, a ≤ b ↔ ((a : ℚ) : K) ≤ (b : ℚ) :=
    fun a _ b _ => Rat.cast_le.symm
  unfold sortedDistinct
  rw [List.dedup_map_of_injective Rat.cast_injective]
  exact (List.map_insertionSort _ _ _ _ hle).symm

/-- The corners of a clipped term, in another field. -/
theorem corners_cast (t : Knots ℚ × ℚ) :
    corners (castTerm t : Knots K × K) = (corners t).map (↑) := by
  unfold corners castTerm Knots.cast
  simp only [Rat.cast_lt]
  split_ifs <;> simp

/-- The points between which every term is affine, in another field. -/
theorem cornerPoints_cast (active : List (Knots ℚ × ℚ)) (lo hi : ℚ) :
    cornerPoints (active.map castTerm : List (Knots K × K)) lo hi =
      (cornerPoints active lo hi).map (↑) := by
  have hpts : ((lo : K) :: (hi : K) :: (active.map castTerm).flatMap corners) =
      (lo :: hi :: active.flatMap corners).map (↑) := by
    simp [List.flatMap_map, List.map_flatMap, corners_cast]
  have hin : (fun p : ℚ => decide ((lo : K) ≤ p ∧ (p : K) ≤ hi)) =
      fun p : ℚ => decide (lo ≤ p ∧ p ≤ hi) := by
    funext p
    simp only [Rat.cast_le]
  unfold cornerPoints
  rw [hpts, List.filter_map, ← sortedDistinct_cast]
  exact congrArg _ (congrArg _ (List.filter_congr fun p _ => congrFun hin p))

/-- The neighbours of mapped points are the mapped neighbours. -/
theorem adjacent_map {α β : Type*} (f : α → β) (xs : List α) :
    adjacent (xs.map f) = (adjacent xs).map (Prod.map f f) := by
  unfold adjacent
  rw [← List.map_tail, List.zip_map]

/-- Where two chords cross, in another field. -/
theorem crossing_cast (x0 h : ℚ) (i j : ℚ × ℚ) :
    crossing (x0 : K) h (Prod.map (↑) (↑) i) (Prod.map (↑) (↑) j) =
      (crossing x0 h i j).map (↑) := by
  unfold crossing
  simp only [Prod.map_fst, Prod.map_snd, Option.map_if]
  norm_cast

/-- The values at the thirds of a piece, in another field. -/
theorem gAll_thirds_cast (active : List (Knots ℚ × ℚ)) (s : ℚ × ℚ) :
    gAll (active.map castTerm : List (Knots K × K)) ((s.1 : K) + ((s.2 : K) - s.1) / 3) =
      (gAll active (s.1 + (s.2 - s.1) / 3)).map (↑) ∧
    gAll (active.map castTerm : List (Knots K × K)) ((s.1 : K) + 2 * ((s.2 : K) - s.1) / 3) =
      (gAll active (s.1 + 2 * (s.2 - s.1) / 3)).map (↑) := by
  rw [← gAll_cast, ← gAll_cast]
  constructor
  · push_cast
    rfl
  · push_cast
    rfl

/-- The crossings of a piece, in another field. -/
theorem crossings_cast (active : List (Knots ℚ × ℚ)) (s : ℚ × ℚ) :
    crossings (active.map castTerm : List (Knots K × K)) (Prod.map (↑) (↑) s) =
      (crossings active s).map (↑) := by
  have hthirds := gAll_thirds_cast (K := K) active s
  have hle : (s.2 : K) - s.1 ≤ 0 ↔ s.2 - s.1 ≤ 0 := by
    norm_cast
  unfold crossings
  dsimp only [Prod.map_fst, Prod.map_snd]
  rw [hthirds.1, hthirds.2]
  by_cases h : s.2 - s.1 ≤ 0
  · rw [if_pos h, if_pos (hle.mpr h)]
    rfl
  · rw [if_neg h, if_neg (mt hle.mp h), List.zip_map, pairs_map, List.filterMap_map,
      List.map_filterMap]
    apply List.filterMap_congr
    intro t _
    rw [← crossing_cast]
    push_cast
    rfl

/-- All breakpoints, in another field. -/
theorem breakpoints_cast (active : List (Knots ℚ × ℚ)) (lo hi : ℚ) :
    breakpoints (active.map castTerm : List (Knots K × K)) lo hi =
      (breakpoints active lo hi).map (↑) := by
  have hin : (fun e : ℚ => decide ((lo : K) < e ∧ (e : K) < hi)) =
      fun e : ℚ => decide (lo < e ∧ e < hi) := by
    funext e
    simp only [Rat.cast_lt]
  have hextra : (adjacent ((cornerPoints active lo hi).map ((↑) : ℚ → K))).flatMap
      (crossings (active.map castTerm)) =
      ((adjacent (cornerPoints active lo hi)).flatMap (crossings active)).map (↑) := by
    rw [adjacent_map, List.flatMap_map, List.map_flatMap]
    simp only [crossings_cast]
  unfold breakpoints
  dsimp only
  rw [cornerPoints_cast, hextra, List.filter_map, ← List.map_append, ← sortedDistinct_cast]
  exact congrArg _ (congrArg _ (congrArg _ (List.filter_congr fun e _ => congrFun hin e)))

/-- The greatest value, in another field. -/
theorem peak_cast (ys : List ℚ) : peak (ys.map ((↑) : ℚ → K)) = (peak ys : ℚ) := by
  induction ys with
  | nil => exact Rat.cast_zero.symm
  | cons y ys ih =>
    cases ys with
    | nil => rfl
    | cons z zs =>
      rw [peak_cons_cons, Rat.cast_max, ← ih]
      exact peak_cons_cons _ _ _

/-- The values at both ends of a piece, in another field. -/
theorem ends_cast (active : List (Knots ℚ × ℚ)) (s : ℚ × ℚ) :
    ends (active.map castTerm : List (Knots K × K)) (Prod.map (↑) (↑) s) =
      Prod.map (↑) (↑) (ends active s) := by
  have hthirds := gAll_thirds_cast (K := K) active s
  unfold ends
  dsimp only [Prod.map_fst, Prod.map_snd]
  rw [hthirds.1, hthirds.2, peak_cast, peak_cast]
  simp

/-- The sums in another field. -/
def Moments.cast (m : Moments ℚ) : Moments K := ⟨m.area, m.moment⟩

/-- The moments with one piece more, in another field. -/
theorem add_cast (active : List (Knots ℚ × ℚ)) (m : Moments ℚ) (s : ℚ × ℚ) :
    Moments.add (active.map castTerm : List (Knots K × K)) m.cast (Prod.map (↑) (↑) s) =
      (Moments.add active m s).cast := by
  have hle : (s.2 : K) - s.1 ≤ 0 ↔ s.2 - s.1 ≤ 0 := by
    norm_cast
  unfold Moments.add pieceArea pieceMoment
  rw [ends_cast]
  dsimp only [Prod.map_fst, Prod.map_snd]
  by_cases h : s.2 - s.1 ≤ 0
  · rw [if_pos h, if_pos (hle.mpr h)]
  · rw [if_neg h, if_neg (mt hle.mp h)]
    simp [Moments.cast]

/-- The moments of all pieces, by induction on them. -/
theorem foldl_add_cast (active : List (Knots ℚ × ℚ)) (m : Moments ℚ) (ss : List (ℚ × ℚ)) :
    (ss.map (Prod.map (↑) (↑))).foldl
      (Moments.add (active.map castTerm : List (Knots K × K))) m.cast =
      (ss.foldl (Moments.add active) m).cast := by
  induction ss generalizing m with
  | nil => rfl
  | cons s ss ih => rw [List.map_cons, List.foldl_cons, add_cast, ih, List.foldl_cons]

/-- The centroid of the active terms, in another field. -/
theorem activeCentroid_cast (active : List (Knots ℚ × ℚ)) (lo hi : ℚ) :
    activeCentroid (active.map castTerm : List (Knots K × K)) lo hi =
      (activeCentroid active lo hi : ℚ) := by
  have hzero : (⟨0, 0⟩ : Moments K) = (⟨0, 0⟩ : Moments ℚ).cast := by
    simp [Moments.cast]
  unfold activeCentroid
  rw [breakpoints_cast, adjacent_map, hzero, foldl_add_cast, List.isEmpty_map]
  generalize (adjacent (breakpoints active lo hi)).foldl (Moments.add active) ⟨0, 0⟩ = m
  by_cases hnone : active.isEmpty = true
  · rw [if_pos hnone, if_pos hnone, Rat.cast_zero]
  · rw [if_neg hnone, if_neg hnone]
    by_cases harea : 0 < m.area
    · have harea' : 0 < (m.cast : Moments K).area := Rat.cast_pos.mpr harea
      rw [if_neg (not_not.mpr harea), if_neg (not_not.mpr harea'), Rat.cast_div]
      rfl
    · have harea' : ¬0 < (m.cast : Moments K).area := mt Rat.cast_pos.mp harea
      rw [if_pos harea, if_pos harea', Rat.cast_zero]

/-- **The rational centroid is that of the field.** -/
theorem exactCentroid_cast {knots : List (Knots ℚ)} {betas : List ℚ} (lo hi : ℚ)
    (h : knots.length = betas.length) :
    exactCentroid (knots.map fun k => some k.cast) (betas.map ((↑) : ℚ → K)) lo hi =
      (exactCentroid (knots.map some) betas lo hi).map (↑) := by
  have hmap : knots.map (fun k => some (k.cast : Knots K)) = (knots.map Knots.cast).map some := by
    rw [List.map_map]
    rfl
  have hlen : (knots.map (Knots.cast : Knots ℚ → Knots K)).length =
      (betas.map ((↑) : ℚ → K)).length := by
    rw [List.length_map, List.length_map, h]
  have hpos : ((fun t : Knots K × K => decide (0 < t.2)) ∘ castTerm) =
      fun t : Knots ℚ × ℚ => decide (0 < t.2) := by
    funext t
    exact decide_eq_decide.mpr Rat.cast_pos
  have hzip : (knots.map (Knots.cast : Knots ℚ → Knots K)).zip (betas.map (↑)) =
      (knots.zip betas).map castTerm := List.zip_map
  rw [hmap, exactCentroid_some _ _ hlen, exactCentroid_some lo hi h, hzip, List.filter_map, hpos,
    activeCentroid_cast]
  rfl

end Cast

/-! ### The integrals -/

section Result

open MeasureTheory

variable {active : List (Knots ℝ × ℝ)} {lo hi : ℝ}

/-- The line that is integrated is the aggregate. -/
theorem aggregateAt_eq_line (h : lo ≤ hi) {z : ℝ × ℝ}
    (hz : z ∈ adjacent (breakpoints active lo hi)) {u : ℝ} (h0 : z.1 < u) (h1 : u < z.2) :
    aggregateAt active u = line z.1 z.2 (ends active z).1 (ends active z).2 u :=
  (affineOn_aggregateAt h hz).eq_line (lt_of_mem_adjacent pairwise_breakpoints hz) h0 h1

/-- The area of a piece is the integral of the aggregate over it. -/
theorem piece_area (h : lo ≤ hi) {z : ℝ × ℝ} (hz : z ∈ adjacent (breakpoints active lo hi)) :
    IntervalIntegrable (aggregateAt active) volume z.1 z.2 ∧
      ∫ u in z.1..z.2, aggregateAt active u = pieceArea active z := by
  have hlt := lt_of_mem_adjacent pairwise_breakpoints hz
  obtain ⟨hint, heq⟩ := integral_eq_of_between hlt.le continuous_line
    fun u h0 h1 => aggregateAt_eq_line h hz h0 h1
  rw [integral_line hlt] at heq
  exact ⟨hint, heq⟩

/-- The moment of a piece is the integral of the aggregate times the place. -/
theorem piece_moment (h : lo ≤ hi) {z : ℝ × ℝ} (hz : z ∈ adjacent (breakpoints active lo hi)) :
    IntervalIntegrable (fun u => u * aggregateAt active u) volume z.1 z.2 ∧
      ∫ u in z.1..z.2, u * aggregateAt active u = pieceMoment active z := by
  have hlt := lt_of_mem_adjacent pairwise_breakpoints hz
  obtain ⟨hint, heq⟩ := integral_eq_of_between hlt.le (continuous_id.mul continuous_line)
    fun u h0 h1 => congrArg (u * ·) (aggregateAt_eq_line h hz h0 h1)
  have hline : ∫ u in z.1..z.2, u * line z.1 z.2 (ends active z).1 (ends active z).2 u =
      pieceMoment active z := integral_mul_line hlt
  exact ⟨hint, heq.trans hline⟩

/-- What the pieces sum up to, over the whole universe. -/
theorem integral_breakpoints (h : lo ≤ hi) {f : ℝ → ℝ} {F : ℝ × ℝ → ℝ}
    (hpieces : ∀ z ∈ adjacent (breakpoints active lo hi),
      IntervalIntegrable f volume z.1 z.2 ∧ ∫ u in z.1..z.2, f u = F z) :
    IntervalIntegrable f volume lo hi ∧
      ∫ u in lo..hi, f u = ((adjacent (breakpoints active lo hi)).map F).sum := by
  have hends : lo ∈ cornerPoints active lo hi ∧ hi ∈ cornerPoints active lo hi :=
    ends_mem_cornerPoints h
  have hlo := mem_breakpoints.mpr (.inl hends.1)
  have hhi := mem_breakpoints.mpr (.inl hends.2)
  have hlast := getLast_eq_of_greatest pairwise_breakpoints hhi fun p hp => (breakpoints_mem hp).2
  obtain ⟨rest, hrest⟩ := eq_cons_of_least pairwise_breakpoints hlo
    fun p hp => (breakpoints_mem hp).1
  simp only [hrest] at hpieces hlast ⊢
  have hsum := integral_adjacent hpieces
  rwa [hlast] at hsum

/-- **The exact centroid is exact.**  Between final breakpoints the aggregate is a line, the one
    that is integrated, and the result is the first moment over the area; without an area it
    is 0. -/
theorem exact_centroid_is_ratio {knots : List (Knots ℝ)} {betas : List ℝ} {lo hi : ℝ}
    (hlen : knots.length = betas.length) (hbetas : ∀ beta ∈ betas, 0 ≤ beta ∧ beta ≤ 1)
    (hlt : lo < hi) :
    let terms := knots.zip betas
    let active := terms.filter fun t => 0 < t.2
    (∀ z ∈ adjacent (breakpoints active lo hi),
      AffineOn (aggregateAt terms) z.1 z.2 ∧
        ∀ u, z.1 < u → u < z.2 →
          aggregateAt terms u = line z.1 z.2 (ends active z).1 (ends active z).2 u) ∧
    IntervalIntegrable (aggregateAt terms) volume lo hi ∧
    IntervalIntegrable (fun u => u * aggregateAt terms u) volume lo hi ∧
    exactCentroid (knots.map some) betas lo hi =
      .ok (if ∫ u in lo..hi, aggregateAt terms u = 0 then 0
        else (∫ u in lo..hi, u * aggregateAt terms u) / ∫ u in lo..hi, aggregateAt terms u) := by
  intro terms active
  have hterms : ∀ t ∈ terms, 0 ≤ t.2 := fun t ht => (hbetas t.2 (List.of_mem_zip ht).2).1
  have hactive : aggregateAt active = aggregateAt terms := by
    funext u
    exact aggregateAt_filter hterms u
  obtain ⟨hint, harea⟩ := integral_breakpoints hlt.le fun z hz => piece_area hlt.le hz
  obtain ⟨hint', hmoment⟩ := integral_breakpoints hlt.le fun z hz => piece_moment hlt.le hz
  rw [hactive] at hint harea
  refine ⟨?_, hint, ?_, ?_⟩
  · intro z hz
    rw [← hactive]
    exact ⟨affineOn_aggregateAt hlt.le hz, fun u h0 h1 => aggregateAt_eq_line hlt.le hz h0 h1⟩
  · rwa [← hactive]
  · -- the sums are the two integrals
    have hsums : (adjacent (breakpoints active lo hi)).foldl (Moments.add active) ⟨0, 0⟩ =
        ⟨∫ u in lo..hi, aggregateAt terms u, ∫ u in lo..hi, u * aggregateAt terms u⟩ := by
      rw [foldl_add (fun z hz => lt_of_mem_adjacent pairwise_breakpoints hz), zero_add, zero_add,
        harea, ← hactive, hmoment]
    have hnonneg : 0 ≤ ∫ u in lo..hi, aggregateAt terms u :=
      intervalIntegral.integral_nonneg hlt.le fun u _ => aggregateAt_nonneg hterms u
    rw [exactCentroid_some lo hi hlen, Except.ok.injEq]
    unfold activeCentroid
    by_cases hnone : active = []
    · have hzero : ∫ u in lo..hi, aggregateAt terms u = 0 := by
        rw [← hactive, hnone]
        exact intervalIntegral.integral_zero
      rw [if_pos (List.isEmpty_iff.mpr hnone), if_pos hzero]
    · rw [if_neg (mt List.isEmpty_iff.mp hnone)]
      dsimp only
      rw [hsums]
      by_cases hzero : ∫ u in lo..hi, aggregateAt terms u = 0
      · rw [if_pos hzero, if_pos (by simp [hzero])]
      · rw [if_neg hzero, if_neg (not_not.mpr (lt_of_le_of_ne hnonneg (Ne.symm hzero)))]

/-- A block with upright edges, clipped at one half, and a triangle: the program computes 49/54, and
    that is the ratio of the two integrals. -/
theorem exact_centroid_is_ratio_upright :
    let block : Knots ℚ := ⟨0, 0, 1, 1, le_refl 0, zero_le_one, le_refl 1, zero_ne_one⟩
    let triangle : Knots ℚ := ⟨0, 1, 1, 2, zero_le_one, le_refl 1, one_le_two, two_ne_zero.symm⟩
    let mu : ℝ → ℝ := aggregateAt ([(block, 1 / 2), (triangle, 1)].map castTerm)
    exactCentroid [some block, some triangle] [1 / 2, 1] (-1) 2 = .ok (49 / 54) ∧
      (∫ u in (-1 : ℝ)..2, mu u) ≠ 0 ∧
      (∫ u in (-1 : ℝ)..2, u * mu u) / (∫ u in (-1 : ℝ)..2, mu u) = 49 / 54 := by
  intro block triangle mu
  have hrat : exactCentroid [some block, some triangle] [1 / 2, 1] (-1) 2 = .ok (49 / 54) := by
    decide +kernel
  have hlen : [block, triangle].length = [(1 / 2 : ℚ), 1].length := rfl
  -- the same terms over the reals have the same centroid
  have hreal : exactCentroid ([block.cast, triangle.cast].map some)
      [((1 / 2 : ℚ) : ℝ), ((1 : ℚ) : ℝ)] ((-1 : ℚ) : ℝ) ((2 : ℚ) : ℝ) =
      .ok ((49 / 54 : ℚ) : ℝ) := by
    have hcast : exactCentroid ([block.cast, triangle.cast].map some)
        [((1 / 2 : ℚ) : ℝ), ((1 : ℚ) : ℝ)] ((-1 : ℚ) : ℝ) ((2 : ℚ) : ℝ) =
        (exactCentroid [some block, some triangle] [1 / 2, 1] (-1) 2).map (↑) :=
      exactCentroid_cast (-1) 2 hlen
    rw [hrat] at hcast
    exact hcast
  have hbetas : ∀ beta ∈ [((1 / 2 : ℚ) : ℝ), ((1 : ℚ) : ℝ)], 0 ≤ beta ∧ beta ≤ 1 := by
    intro beta hbeta
    simp only [List.mem_cons, List.not_mem_nil, or_false] at hbeta
    rcases hbeta with rfl | rfl
    · norm_num
    · norm_num
  have hratio := (exact_centroid_is_ratio
    (rfl : [(block.cast : Knots ℝ), triangle.cast].length = _) hbetas
    (Rat.cast_lt.mpr (by norm_num : (-1 : ℚ) < 2))).2.2.2
  have hlo : ((-1 : ℚ) : ℝ) = -1 := by norm_num
  have hhi : ((2 : ℚ) : ℝ) = 2 := by norm_num
  have hvalue : ((49 / 54 : ℚ) : ℝ) = 49 / 54 := by norm_num
  rw [hreal, Except.ok.injEq, hlo, hhi, hvalue] at hratio
  -- no area would make the result zero
  by_cases hzero : ∫ u in (-1 : ℝ)..2, mu u = 0
  · have hbad : (49 / 54 : ℝ) = 0 := hratio.trans (if_pos hzero)
    norm_num at hbad
  · exact ⟨hrat, hzero, (hratio.trans (if_neg hzero)).symm⟩

end Result

end FuzzHelm
