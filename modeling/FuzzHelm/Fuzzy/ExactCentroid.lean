import FuzzHelm.Fuzzy.Config
import FuzzHelm.Lib.Literals
import FuzzHelm.Lib.PiecewiseAffine

namespace FuzzHelm

open Lib

/-!
# The exact centroid

The centroid of terms that are lines between their knots, integrated piece by piece over any
ordered field: the program runs over the rationals, the integrals are those over the reals.

* `plEval` — the degree of a number, from the knots;
* `breakpoints` — knots, clip points and crossings, in increasing order;
* `exactCentroid` — the pieces summed up;
* `affineOn_cut` — between its corners a clipped term is a line;
* `orderedOn_breakpoints` — between breakpoints no two clipped terms cross, so that
  `affineOn_aggregateAt` the aggregate is a line there;
* `foldl_add` — the loop sums up the areas and the moments of the pieces.
-/

/-- The knots `a ≤ b ≤ c ≤ d` of a term; an edge may be upright. -/
structure Knots (K : Type*) [LE K] where
  a : K
  b : K
  c : K
  d : K
  a_le : a ≤ b
  b_le : b ≤ c
  c_le : c ≤ d
  support : a ≠ d

/-- `knots` of a membership function: a Gaussian has none. -/
def MembershipSpec.knots : MembershipSpec → Option (Knots ℚ)
  | .trapezoidal t => some ⟨t.a, t.b, t.c, t.d, t.a_le, t.b_le, t.c_le, t.support⟩
  | .gaussian _ => none

attribute [local instance] two_atLeastTwo three_atLeastTwo

section Definitions

variable {K : Type*} [Field K] [LinearOrder K]

/-- `_pl_eval`: the value of the knots at one place. -/
def plEval (k : Knots K) (x : K) : K :=
  if x < k.a ∨ k.d < x then 0
  else if x < k.b then (x - k.a) / (k.b - k.a)
  else if x ≤ k.c then 1
  else (k.d - x) / (k.d - k.c)

/-- The knots of every term; a term without them is refused. -/
def knotsList (mfs : List (Option (Knots K))) : Except PyError (List (Knots K)) :=
  mfs.mapM fun
    | some k => .ok k
    | none =>
      .error (.valueError "exact_centroid supports only piecewise-linear (tri/trap) terms")

/-- `zip(xs, ys, strict=True)`, which raises for different lengths. -/
def zipStrict {α β : Type*} (xs : List α) (ys : List β) : Except PyError (List (α × β)) :=
  if ys.length < xs.length then .error (.valueError "zip() argument 2 is shorter than argument 1")
  else if xs.length < ys.length then
    .error (.valueError "zip() argument 2 is longer than argument 1")
  else .ok (xs.zip ys)

/-- A term clipped at its activation, `min(β, μ(x))`. -/
def cut (t : Knots K × K) (x : K) : K := t.2 ⊓ plEval t.1 x

/-- `g_all`: the clipped degrees of the terms. -/
def gAll (active : List (Knots K × K)) (x : K) : List K := active.map fun t => cut t x

/-- The knots of a term and where its edges are clipped. -/
def corners (t : Knots K × K) : List K :=
  [t.1.a, t.1.b, t.1.c, t.1.d] ++
    ((if t.1.a < t.1.b then [t.1.a + t.2 * (t.1.b - t.1.a)] else []) ++
      if t.1.c < t.1.d then [t.1.d - t.2 * (t.1.d - t.1.c)] else [])

/-- The breakpoints of the single terms. -/
def cornerPoints (active : List (Knots K × K)) (lo hi : K) : List K :=
  sortedDistinct ((lo :: hi :: active.flatMap corners).filter fun p => lo ≤ p ∧ p ≤ hi)

/-- Where two terms cross inside the interval from `x0` on that is `h` long, if they do:
    `i` and `j` are their values at the thirds. -/
def crossing (x0 h : K) (i j : K × K) : Option K :=
  let dp := i.1 - j.1
  let dq := i.2 - j.2
  let d0 := 2 * dp - dq
  let d1 := 2 * dq - dp
  if d0 < 0 ∧ 0 < d1 ∨ d1 < 0 ∧ 0 < d0 then some (x0 + h * d0 / (d0 - d1)) else none

/-- The pairs of members, the earlier one first. -/
def pairs {α : Type*} : List α → List (α × α)
  | [] => []
  | x :: xs => xs.map (fun y => (x, y)) ++ pairs xs

/-- The crossings of any two terms inside an interval. -/
def crossings (active : List (Knots K × K)) (s : K × K) : List K :=
  let h := s.2 - s.1
  if h ≤ 0 then []
  else
    let gp := gAll active (s.1 + h / 3)
    let gq := gAll active (s.1 + 2 * h / 3)
    (pairs (gp.zip gq)).filterMap fun t => crossing s.1 h t.1 t.2

/-- The final breakpoints: between two of them every clipped term is affine and none crosses. -/
def breakpoints (active : List (Knots K × K)) (lo hi : K) : List K :=
  let xs := cornerPoints active lo hi
  let extra := (adjacent xs).flatMap (crossings active)
  sortedDistinct (xs ++ extra.filter fun e => lo < e ∧ e < hi)

/-- The values at the ends of an interval: those of the line through the thirds. -/
def ends (active : List (Knots K × K)) (s : K × K) : K × K :=
  let h := s.2 - s.1
  let mp := peak (gAll active (s.1 + h / 3))
  let mq := peak (gAll active (s.1 + 2 * h / 3))
  (2 * mp - mq, 2 * mq - mp)

/-- The area of an interval. -/
def pieceArea (active : List (Knots K × K)) (s : K × K) : K :=
  let y := ends active s
  (s.2 - s.1) * (y.1 + y.2) / 2

/-- The first moment of an interval. -/
def pieceMoment (active : List (Knots K × K)) (s : K × K) : K :=
  let y := ends active s
  (s.2 - s.1) * (s.1 * (2 * y.1 + y.2) + s.2 * (y.1 + 2 * y.2)) / 6

/-- The area and the first moment, as far as they are summed up. -/
structure Moments (K : Type*) where
  area : K
  moment : K

/-- The area and the moment of one interval, added to those before. -/
def Moments.add (active : List (Knots K × K)) (m : Moments K) (s : K × K) : Moments K :=
  if s.2 - s.1 ≤ 0 then m
  else ⟨m.area + pieceArea active s, m.moment + pieceMoment active s⟩

/-- The centroid of the active terms. -/
def activeCentroid (active : List (Knots K × K)) (lo hi : K) : K :=
  if active.isEmpty then 0
  else
    let m := (adjacent (breakpoints active lo hi)).foldl (Moments.add active) ⟨0, 0⟩
    if ¬0 < m.area then 0 else m.moment / m.area

/-- `exact_centroid`: the active terms, their breakpoints and the moments between them. -/
def exactCentroid (mfs : List (Option (Knots K))) (betas : List K) (lo hi : K) :
    Except PyError K := do
  let knots ← knotsList mfs
  let terms ← zipStrict knots betas
  return activeCentroid (terms.filter fun t => 0 < t.2) lo hi

/-- `max_k min(β_k, μ_k(u))`. -/
def aggregateAt (terms : List (Knots K × K)) (u : K) : K := peak (gAll terms u)

end Definitions

section Pieces

variable {K : Type*} [Field K] [LinearOrder K] [IsStrictOrderedRing K]

/-- The value of the knots is not negative. -/
theorem plEval_nonneg (k : Knots K) (x : K) : 0 ≤ plEval k x := by
  unfold plEval
  split_ifs with hout hrise hflat
  · exact le_refl _
  · rw [not_or, not_lt, not_lt] at hout
    exact div_nonneg (by linarith) (by linarith)
  · exact zero_le_one
  · rw [not_or, not_lt, not_lt] at hout
    exact div_nonneg (by linarith) (by linarith)

/-- Between its knots a term is 0, rises, is 1 or falls. -/
theorem plEval_shape {k : Knots K} {x0 x1 : K} (hx : x0 < x1)
    (hout : ∀ p ∈ [k.a, k.b, k.c, k.d], p ≤ x0 ∨ x1 ≤ p) :
    (∀ u, x0 < u → u < x1 → plEval k u = 0) ∨
    (k.a < k.b ∧ ∀ u, x0 < u → u < x1 → plEval k u = (u - k.a) / (k.b - k.a)) ∨
    (∀ u, x0 < u → u < x1 → plEval k u = 1) ∨
    (k.c < k.d ∧ ∀ u, x0 < u → u < x1 → plEval k u = (k.d - u) / (k.d - k.c)) := by
  have hab := k.a_le
  have hbc := k.b_le
  have hcd := k.c_le
  simp only [List.forall_mem_cons, List.not_mem_nil, false_imp_iff, implies_true, and_true] at hout
  obtain ⟨ha, hb, hc, hd⟩ := hout
  rcases ha with ha | ha
  · rcases hd with hd | hd
    · -- right of the support
      left
      intro u h0 h1
      exact if_pos (.inr (hd.trans_lt h0))
    -- else the piece is inside the support
    · have hin : ∀ u, x0 < u → u < x1 → ¬(u < k.a ∨ k.d < u) := by
        intro u h0 h1
        rw [not_or, not_lt, not_lt]
        exact ⟨ha.trans h0.le, h1.le.trans hd⟩
      rcases hb with hb | hb
      · rcases hc with hc | hc
        · refine .inr (.inr (.inr ⟨by linarith, ?_⟩))
          intro u h0 h1
          unfold plEval
          rw [if_neg (hin u h0 h1), if_neg (by linarith), if_neg (by linarith)]
        · refine .inr (.inr (.inl ?_))
          intro u h0 h1
          unfold plEval
          rw [if_neg (hin u h0 h1), if_neg (by linarith), if_pos (by linarith)]
      · refine .inr (.inl ⟨by linarith, ?_⟩)
        intro u h0 h1
        unfold plEval
        rw [if_neg (hin u h0 h1), if_pos (h1.trans_le hb)]
  · -- left of the support
    left
    intro u h0 h1
    exact if_pos (.inl (h1.trans_le ha))

/-- Between its knots a term is a line. -/
theorem affineOn_plEval {k : Knots K} {x0 x1 : K} (hx : x0 < x1)
    (hout : ∀ p ∈ [k.a, k.b, k.c, k.d], p ≤ x0 ∨ x1 ≤ p) : AffineOn (plEval k) x0 x1 := by
  rcases plEval_shape hx hout with h | ⟨-, h⟩ | h | ⟨-, h⟩
  · exact (AffineOn.const 0).congr h
  · refine ⟨1 / (k.b - k.a), -k.a / (k.b - k.a), ?_⟩
    intro u h0 h1
    rw [h u h0 h1]
    ring
  · exact (AffineOn.const 1).congr h
  · refine ⟨-1 / (k.d - k.c), k.d / (k.d - k.c), ?_⟩
    intro u h0 h1
    rw [h u h0 h1]
    ring

/-- Between its corners a term is above its activation or below it throughout. -/
theorem orderedOn_plEval {t : Knots K × K} {x0 x1 : K} (hx : x0 < x1)
    (hout : ∀ p ∈ corners t, p ≤ x0 ∨ x1 ≤ p) :
    OrderedOn (fun _ => t.2) (plEval t.1) x0 x1 := by
  obtain ⟨k, beta⟩ := t
  rw [corners, List.forall_mem_append, List.forall_mem_append] at hout
  obtain ⟨hknots, hrise, hfall⟩ := hout
  show OrderedOn (fun _ => beta) (plEval k) x0 x1
  -- degree 0, rising edge, degree 1 or falling edge
  rcases plEval_shape hx hknots with h | ⟨hab, h⟩ | h | ⟨hcd, h⟩
  · rcases le_total beta 0 with hb | hb
    · exact .inl fun u h0 h1 => hb.trans_eq (h u h0 h1).symm
    · exact .inr fun u h0 h1 => (h u h0 h1).trans_le hb
  · -- the rising edge meets the activation at its clip point only
    have hpos : 0 < k.b - k.a := by linarith
    rcases hrise (k.a + beta * (k.b - k.a)) (by simp [hab]) with hclip | hclip
    · left
      intro u h0 h1
      rw [h u h0 h1, le_div_iff₀ hpos]
      linarith
    · right
      intro u h0 h1
      rw [h u h0 h1, div_le_iff₀ hpos]
      linarith
  · rcases le_total beta 1 with hb | hb
    · exact .inl fun u h0 h1 => hb.trans_eq (h u h0 h1).symm
    · exact .inr fun u h0 h1 => (h u h0 h1).trans_le hb
  -- and the falling edge at the other one
  · have hpos : 0 < k.d - k.c := by linarith
    rcases hfall (k.d - beta * (k.d - k.c)) (by simp [hcd]) with hclip | hclip
    · right
      intro u h0 h1
      rw [h u h0 h1, div_le_iff₀ hpos]
      linarith
    · left
      intro u h0 h1
      rw [h u h0 h1, le_div_iff₀ hpos]
      linarith

/-- **Between its corners a clipped term is a line.** -/
theorem affineOn_cut {t : Knots K × K} {x0 x1 : K} (hx : x0 < x1)
    (hout : ∀ p ∈ corners t, p ≤ x0 ∨ x1 ≤ p) : AffineOn (cut t) x0 x1 := by
  have hknots : ∀ p ∈ [t.1.a, t.1.b, t.1.c, t.1.d], p ≤ x0 ∨ x1 ≤ p :=
    fun p hp => hout p (List.mem_append_left _ hp)
  exact (AffineOn.const t.2).min (affineOn_plEval hx hknots) (orderedOn_plEval hx hout)

end Pieces

/-! ### The breakpoints -/

section Breakpoints

variable {K : Type*} [Field K] [LinearOrder K] {active : List (Knots K × K)} {lo hi : K}

/-- A corner point is an end or a corner of a term, within the universe. -/
theorem mem_cornerPoints {p : K} : p ∈ cornerPoints active lo hi ↔
    (p = lo ∨ p = hi ∨ ∃ t ∈ active, p ∈ corners t) ∧ lo ≤ p ∧ p ≤ hi := by
  simp [cornerPoints, List.mem_filter]

/-- The corner points ascend strictly. -/
theorem pairwise_cornerPoints : (cornerPoints active lo hi).Pairwise (· < ·) :=
  pairwise_sortedDistinct _

/-- Both ends are corner points. -/
theorem ends_mem_cornerPoints (h : lo ≤ hi) :
    lo ∈ cornerPoints active lo hi ∧ hi ∈ cornerPoints active lo hi := by
  simp [mem_cornerPoints, h]

/-- No corner of a term lies between two neighbours of the first list. -/
theorem corners_outside {s : K × K} (hs : s ∈ adjacent (cornerPoints active lo hi))
    {t : Knots K × K} (ht : t ∈ active) : ∀ p ∈ corners t, p ≤ s.1 ∨ s.2 ≤ p := by
  intro p hp
  have hends := mem_of_mem_adjacent hs
  have hlo := (mem_cornerPoints.mp hends.1).2.1
  have hhi := (mem_cornerPoints.mp hends.2).2.2
  by_cases hin : lo ≤ p ∧ p ≤ hi
  · exact outside_of_mem_adjacent pairwise_cornerPoints hs
      (mem_cornerPoints.mpr ⟨.inr (.inr ⟨t, ht, hp⟩), hin⟩)
  · -- a corner outside the universe
    rcases not_and_or.mp hin with h | h
    · exact .inl ((not_le.mp h).le.trans hlo)
    · exact .inr (hhi.trans (not_le.mp h).le)

/-- A breakpoint is a corner point or a crossing, within the universe. -/
theorem mem_breakpoints {p : K} : p ∈ breakpoints active lo hi ↔
    p ∈ cornerPoints active lo hi ∨
      (∃ s ∈ adjacent (cornerPoints active lo hi), p ∈ crossings active s) ∧ lo < p ∧ p < hi := by
  simp [breakpoints, List.mem_filter]

/-- The breakpoints ascend strictly. -/
theorem pairwise_breakpoints : (breakpoints active lo hi).Pairwise (· < ·) :=
  pairwise_sortedDistinct _

/-- The breakpoints lie within the universe. -/
theorem breakpoints_mem {p : K} (hp : p ∈ breakpoints active lo hi) : lo ≤ p ∧ p ≤ hi := by
  rcases mem_breakpoints.mp hp with h | ⟨-, h⟩
  · exact (mem_cornerPoints.mp h).2
  · exact ⟨h.1.le, h.2.le⟩

end Breakpoints

/-! ### No two terms cross -/

section Crossings

variable {K : Type*} [Field K] [LinearOrder K]

/-- The pairs of mapped items are the mapped pairs. -/
theorem pairs_map {α β : Type*} (f : α → β) (xs : List α) :
    pairs (xs.map f) = (pairs xs).map (Prod.map f f) := by
  induction xs with
  | nil => rfl
  | cons x xs ih => simp [pairs, ih]

/-- Both items of a pair are items of the list. -/
theorem mem_of_mem_pairs {α : Type*} {xs : List α} {x y : α} (h : (x, y) ∈ pairs xs) :
    x ∈ xs ∧ y ∈ xs := by
  induction xs with
  | nil => simp [pairs] at h
  | cons z zs ih =>
    rw [pairs, List.mem_append, List.mem_map] at h
    rcases h with ⟨w, hw, hwz⟩ | h
    · obtain ⟨rfl, rfl⟩ := Prod.mk.inj hwz
      exact ⟨List.mem_cons_self, List.mem_cons_of_mem _ hw⟩
    · exact ⟨List.mem_cons_of_mem _ (ih h).1, List.mem_cons_of_mem _ (ih h).2⟩

/-- What holds of all pairs holds pairwise. -/
theorem pairwise_of_pairs {α : Type*} {R : α → α → Prop} {xs : List α}
    (h : ∀ p ∈ pairs xs, R p.1 p.2) : xs.Pairwise R := by
  induction xs with
  | nil => exact List.Pairwise.nil
  | cons x xs ih =>
    rw [pairs, List.forall_mem_append, List.forall_mem_map] at h
    exact List.pairwise_cons.mpr ⟨h.1, ih h.2⟩

/-- Where two lines have their crossing, if they change their order. -/
theorem crossing_eq {x0 h d0 d1 : K} {i j : K × K} (hd0 : d0 = 2 * (i.1 - j.1) - (i.2 - j.2))
    (hd1 : d1 = 2 * (i.2 - j.2) - (i.1 - j.1)) (hsign : d0 < 0 ∧ 0 < d1 ∨ d1 < 0 ∧ 0 < d0) :
    crossing x0 h i j = some (x0 + h * d0 / (d0 - d1)) := by
  subst hd0 hd1
  exact if_pos hsign

/-- A crossing of two chords lies inside the piece, and both have the same value there. -/
theorem mem_crossings {active : List (Knots K × K)} {s : K × K} {t t' : Knots K × K} {e : K}
    (hs : s.1 < s.2) (ht : (t, t') ∈ pairs active)
    (he : crossing s.1 (s.2 - s.1)
      (cut t (s.1 + (s.2 - s.1) / 3), cut t (s.1 + 2 * (s.2 - s.1) / 3))
      (cut t' (s.1 + (s.2 - s.1) / 3), cut t' (s.1 + 2 * (s.2 - s.1) / 3)) = some e)
    [IsStrictOrderedRing K] : e ∈ crossings active s := by
  have hpos : ¬s.2 - s.1 ≤ 0 := by
    rw [not_le]
    linarith
  unfold crossings gAll
  dsimp only
  rw [if_neg hpos, List.zip_map', pairs_map, List.filterMap_map, List.mem_filterMap]
  exact ⟨(t, t'), ht, he⟩

variable [IsStrictOrderedRing K] {active : List (Knots K × K)} {lo hi : K}

/-- Between final breakpoints every clipped term is a line. -/
theorem affineOn_breakpoints (h : lo ≤ hi) {z : K × K}
    (hz : z ∈ adjacent (breakpoints active lo hi)) :
    ∃ s ∈ adjacent (cornerPoints active lo hi), s.1 ≤ z.1 ∧ z.2 ≤ s.2 ∧
      ∀ t ∈ active, AffineOn (cut t) s.1 s.2 := by
  have hends : lo ∈ cornerPoints active lo hi ∧ hi ∈ cornerPoints active lo hi :=
    ends_mem_cornerPoints h
  obtain ⟨s, hs, hs0, hs1⟩ := exists_coarser pairwise_cornerPoints pairwise_breakpoints
    (fun p hp => mem_breakpoints.mpr (.inl hp)) hends.1 hends.2
    (fun p hp => breakpoints_mem hp) hz
  exact ⟨s, hs, hs0, hs1, fun t ht =>
    affineOn_cut (lt_of_mem_adjacent pairwise_cornerPoints hs) (corners_outside hs ht)⟩

/-- **Between final breakpoints no two clipped terms cross.** -/
theorem orderedOn_breakpoints (h : lo ≤ hi) {z : K × K}
    (hz : z ∈ adjacent (breakpoints active lo hi)) :
    (active.map cut).Pairwise fun f g => OrderedOn f g z.1 z.2 := by
  obtain ⟨s, hs, hs0, hs1, hlines⟩ := affineOn_breakpoints h hz
  have hs01 := lt_of_mem_adjacent pairwise_cornerPoints hs
  rw [List.pairwise_map]
  apply pairwise_of_pairs
  rintro ⟨t, t'⟩ htt'
  have hmem := mem_of_mem_pairs htt'
  refine (hlines t hmem.1).orderedOn (hlines t' hmem.2) hs01 hs0 hs1 rfl rfl ?_
  intro hsign
  -- the crossing is a breakpoint, or lies at an end of the universe
  have he := mem_crossings hs01 htt' (crossing_eq rfl rfl hsign)
  have hzin := mem_of_mem_adjacent hz
  generalize s.1 + _ / _ = e at he ⊢
  by_cases hin : lo < e ∧ e < hi
  · exact outside_of_mem_adjacent pairwise_breakpoints hz
      (mem_breakpoints.mpr (.inr ⟨⟨s, hs, he⟩, hin⟩))
  · rcases not_and_or.mp hin with hlo | hhi
    · exact .inl ((not_lt.mp hlo).trans (breakpoints_mem hzin.1).1)
    · exact .inr ((breakpoints_mem hzin.2).2.trans (not_lt.mp hhi))

/-- Between final breakpoints the aggregate of the active terms is a line. -/
theorem affineOn_aggregateAt (h : lo ≤ hi) {z : K × K}
    (hz : z ∈ adjacent (breakpoints active lo hi)) :
    AffineOn (aggregateAt active) z.1 z.2 := by
  obtain ⟨s, -, hs0, hs1, hlines⟩ := affineOn_breakpoints h hz
  have hpeak : AffineOn (fun u => peak ((active.map cut).map (· u))) z.1 z.2 :=
    affineOn_peak (List.forall_mem_map.mpr fun t ht => (hlines t ht).mono hs0 hs1)
      (orderedOn_breakpoints h hz)
  refine hpeak.congr ?_
  intro u _ _
  rw [List.map_map]
  rfl

end Crossings

/-! ### The sums -/

section Sums

variable {K : Type*} [Field K] [LinearOrder K] [IsStrictOrderedRing K]

/-- The moments of all pieces are sums over them, by induction on the pieces. -/
theorem foldl_add {active : List (Knots K × K)} {ss : List (K × K)} (h : ∀ s ∈ ss, s.1 < s.2)
    (m : Moments K) :
    ss.foldl (Moments.add active) m =
      ⟨m.area + (ss.map (pieceArea active)).sum, m.moment + (ss.map (pieceMoment active)).sum⟩ := by
  induction ss generalizing m with
  | nil => simp
  | cons s ss ih =>
    rw [List.forall_mem_cons] at h
    have hpos : ¬s.2 - s.1 ≤ 0 := by
      rw [not_le]
      linarith [h.1]
    rw [List.foldl_cons, ih h.2, Moments.add, if_neg hpos]
    simp only [List.map_cons, List.sum_cons, add_assoc]

/-- A clipped term is not negative. -/
theorem cut_nonneg {t : Knots K × K} (ht : 0 ≤ t.2) (u : K) : 0 ≤ cut t u :=
  le_min ht (plEval_nonneg t.1 u)

/-- No value of a clipped term is negative. -/
theorem mem_gAll_nonneg {terms : List (Knots K × K)} (h : ∀ t ∈ terms, 0 ≤ t.2) (u : K) :
    ∀ y ∈ gAll terms u, 0 ≤ y := by
  intro y hy
  obtain ⟨t, ht, rfl⟩ := List.mem_map.mp hy
  exact cut_nonneg (h t ht) u

/-- The aggregate is not negative. -/
theorem aggregateAt_nonneg {terms : List (Knots K × K)} (h : ∀ t ∈ terms, 0 ≤ t.2) (u : K) :
    0 ≤ aggregateAt terms u := by
  rw [aggregateAt, peak_eq_foldr (mem_gAll_nonneg h u)]
  induction gAll terms u with
  | nil => exact le_refl _
  | cons y ys ih => exact le_max_of_le_right ih

/-- Terms that are not active do not show in the aggregate. -/
theorem aggregateAt_filter {terms : List (Knots K × K)} (h : ∀ t ∈ terms, 0 ≤ t.2) (u : K) :
    aggregateAt (terms.filter fun t => 0 < t.2) u = aggregateAt terms u := by
  have hactive : ∀ t ∈ terms.filter (fun t => 0 < t.2), 0 ≤ t.2 :=
    fun t ht => h t (List.mem_of_mem_filter ht)
  rw [aggregateAt, aggregateAt, peak_eq_foldr (mem_gAll_nonneg hactive u),
    peak_eq_foldr (mem_gAll_nonneg h u)]
  clear hactive
  -- by induction on the terms; the maximum starts at 0, which a dropped term does not exceed
  induction terms with
  | nil => rfl
  | cons t terms ih =>
    rw [List.forall_mem_cons] at h
    have htail : 0 ≤ (gAll terms u).foldr max 0 := by
      rw [← peak_eq_foldr (mem_gAll_nonneg h.2 u)]
      exact aggregateAt_nonneg h.2 u
    by_cases ht : 0 < t.2
    · rw [List.filter_cons_of_pos (by simpa using ht)]
      simp only [gAll, List.map_cons, List.foldr_cons]
      exact congrArg _ (ih h.2)
    · -- the activation is 0, and so is the clipped degree
      have hzero : cut t u = 0 := by
        have hle : cut t u ≤ t.2 := min_le_left _ _
        exact le_antisymm (hle.trans (not_lt.mp ht)) (cut_nonneg h.1 u)
      rw [List.filter_cons_of_neg (by simpa using ht)]
      simp only [gAll, List.map_cons, List.foldr_cons, hzero]
      exact (ih h.2).trans (max_eq_right htail).symm

end Sums

section Checks

variable {K : Type*} [Field K] [LinearOrder K]

omit [Field K] in
/-- Knots that are all there are listed. -/
theorem knotsList_some (knots : List (Knots K)) : knotsList (knots.map some) = .ok knots := by
  induction knots with
  | nil => rfl
  | cons k knots ih =>
    unfold knotsList at ih ⊢
    rw [List.map_cons, List.mapM_cons, ih]
    rfl

/-- Lists of one length are zipped. -/
theorem zipStrict_eq {α β : Type*} {xs : List α} {ys : List β} (h : xs.length = ys.length) :
    zipStrict xs ys = .ok (xs.zip ys) := by
  unfold zipStrict
  rw [if_neg (by omega), if_neg (by omega)]

/-- With the knots of every term the centroid is that of the active ones. -/
theorem exactCentroid_some {knots : List (Knots K)} {betas : List K} (lo hi : K)
    (h : knots.length = betas.length) :
    exactCentroid (knots.map some) betas lo hi =
      .ok (activeCentroid ((knots.zip betas).filter fun t => 0 < t.2) lo hi) := by
  unfold exactCentroid
  rw [knotsList_some]
  show (zipStrict knots betas >>= _) = _
  rw [zipStrict_eq h]
  rfl

end Checks

end FuzzHelm
