import FuzzHelm.Fuzzy.Engine
import Mathlib.Algebra.BigOperators.Intervals

namespace FuzzHelm

/-!
# Mirrored inputs

A configuration is its own mirror image when the terms of `T`, `R` and `U` can be exchanged so
that each becomes the reflection of another, the ranges are symmetric, and every rule has its
mirror image among the rules.  The engine of such a configuration is an odd function of `T` and
`R`.

* `VariableSpec.Reflected` — the reflection of the terms of a variable;
* `MirrorClosed` — a configuration that is its own mirror image;
* `plainAggregate_mirror` — mirrored inputs mirror the aggregate;
* `centroid_mirror` — a mirrored aggregate has the opposite centroid, in every scheme;
* `inferU_mirror` — mirrored inputs have the opposite output.
-/

section Mirror

variable (x : Exponential)

/-- **The terms of a variable are reflected** by an exchange of names, over a symmetric range. -/
structure VariableSpec.Reflected (v : VariableSpec) (image : String → String) : Prop where
  range : v.lo = -v.hi
  any : image ANY_TERM = ANY_TERM
  degree : ∀ term, (term = ANY_TERM ∨ term ∈ v.termNames) → ∀ a,
    v.degree x (image term) (-a) = v.degree x term a

/-- **The mirror image of a rule**: the terms of `T`, `R` and the consequent exchanged, that of
    `V` and the weight the same. -/
structure Rule.MirrorOf (r' r : Rule) (imageT imageR imageU : String → String) : Prop where
  termT : r'.term "T" = imageT (r.term "T")
  termR : r'.term "R" = imageR (r.term "R")
  termV : r'.term "V" = r.term "V"
  consequent : r'.consequent = imageU r.consequent
  weight : r'.w = r.w

/-- **A configuration that is its own mirror image.** -/
def MirrorClosed (m : MembershipConfig) (rb : RuleBase) : Prop :=
  ∃ imageT imageR imageU, m.T.Reflected x imageT ∧ m.R.Reflected x imageR ∧
    m.U.Reflected x imageU ∧
      ∀ r ∈ rb.rules, ∃ r' ∈ rb.rules, r'.MirrorOf r imageT imageR imageU

variable {x}

/-! ### Reflected functions -/

/-- The trapezoid seen in a mirror. -/
def Trapezoidal.mirror (t : Trapezoidal) : Trapezoidal where
  a := -t.d
  b := -t.c
  c := -t.b
  d := -t.a
  a_le := neg_le_neg t.c_le
  b_le := neg_le_neg t.b_le
  c_le := neg_le_neg t.a_le
  support h := t.support (neg_injective h).symm

/-- A mirrored trapezoid at the mirrored place. -/
theorem Trapezoidal.scalar_mirror (t : Trapezoidal) (a : ℚ) :
    t.mirror.scalar (-a) = t.scalar a := by
  have hab := t.a_le
  have hbc := t.b_le
  have hcd := t.c_le
  unfold Trapezoidal.scalar Trapezoidal.mirror
  dsimp only
  -- outside the support stays outside
  have hout : (-a < -t.d ∨ -t.a < -a) ↔ (a < t.a ∨ t.d < a) := by
    rw [neg_lt_neg_iff, neg_lt_neg_iff, or_comm]
  by_cases ha : a < t.a ∨ t.d < a
  · rw [if_pos (hout.mpr ha), if_pos ha]
  · rw [if_neg (mt hout.mp ha), if_neg ha]
    by_cases hb : a < t.b
    · -- the rising edge is the falling one of the image
      have hfall : ¬-a < -t.c := by linarith
      have hflat : ¬-a ≤ -t.b := by linarith
      rw [if_neg hfall, if_neg hflat, if_pos hb]
      ring
    · rw [if_neg hb]
      -- the plateau is its own image, the falling edge that of the rising one
      by_cases hc : a ≤ t.c
      · have hrise : ¬-a < -t.c := by linarith
        have hflat : -a ≤ -t.b := by linarith
        rw [if_neg hrise, if_pos hflat, if_pos hc]
      · have hrise : -a < -t.c := by linarith
        rw [if_pos hrise, if_neg hc]
        ring

/-- The term seen in a mirror. -/
def MembershipSpec.mirror : MembershipSpec → MembershipSpec
  | .trapezoidal t => .trapezoidal t.mirror
  | .gaussian g => .gaussian { g with m := -g.m }

/-- A mirrored term at the mirrored place. -/
theorem MembershipSpec.scalar_mirror (s : MembershipSpec) (a : ℚ) :
    s.mirror.scalar x (-a) = s.scalar x a := by
  cases s with
  | trapezoidal t => exact t.scalar_mirror a
  | gaussian g =>
    refine congrArg x.exp ?_
    simp only [Gaussian.exponent]
    ring

/-- **The terms of a variable are reflected** when their functions are. -/
theorem VariableSpec.reflected {v : VariableSpec} {image : String → String} (hrange : v.lo = -v.hi)
    (hany : image ANY_TERM = ANY_TERM) (h : ∀ term s, v.terms.lookup term = some s →
      image term ≠ ANY_TERM ∧ v.terms.lookup (image term) = some s.mirror) :
    v.Reflected x image := by
  refine ⟨hrange, hany, ?_⟩
  rintro term (rfl | hterm) a
  · rw [hany, VariableSpec.degree, VariableSpec.degree, if_pos rfl, if_pos rfl]
  · obtain ⟨s, hs⟩ : ∃ s, v.terms.lookup term = some s := by
      have hlt := VariableSpec.idxOf_lt hterm
      rw [VariableSpec.termNames] at hlt
      rw [VariableSpec.lookup_eq hterm, List.getElem?_eq_getElem hlt]
      exact ⟨_, rfl⟩
    obtain ⟨hne, himage⟩ := h term s hs
    rw [VariableSpec.degree, VariableSpec.degree, if_neg hne, if_neg (VariableSpec.ne_any hterm),
      hs, himage, Option.map_some, Option.map_some, MembershipSpec.scalar_mirror]

/-! ### Terms and rules -/

/-- A function that clips to a symmetric range is odd. -/
theorem VariableSpec.clip_neg {v : VariableSpec} (h : v.lo = -v.hi) (a : ℚ) :
    v.clip (-a) = -v.clip a := by
  have hlt := v.lo_lt_hi
  unfold VariableSpec.clip
  rw [h]
  rw [h] at hlt
  split_ifs <;> linarith

variable {m : MembershipConfig} {rb : RuleBase} {r r' : Rule}
  {imageT imageR imageU : String → String}

/-- The mirror image of a rule is as strong at the mirrored inputs. -/
theorem plainStrength_mirror (hT : m.T.Reflected x imageT) (hR : m.R.Reflected x imageR)
    (hr : RuleOk m r) (h : r'.MirrorOf r imageT imageR imageU) (T R V : ℚ) :
    plainStrength x m (-T) (-R) V r' = plainStrength x m T R V r := by
  unfold plainStrength
  rw [h.weight, h.termT, h.termR, h.termV, VariableSpec.clip_neg hT.range,
    VariableSpec.clip_neg hR.range, hT.degree _ hr.termT.term, hR.degree _ hr.termR.term]

/-- Mirrored inputs do not raise the aggregate at the mirrored node. -/
theorem plainAggregate_mirror_le (h : MirrorClosed x m rb) (hok : ∀ r ∈ rb.rules, RuleOk m r)
    (T R V u : ℚ) :
    plainAggregate x m rb T R V u ≤ plainAggregate x m rb (-T) (-R) V (-u) := by
  obtain ⟨imageT, imageR, imageU, hT, hR, hU, hrules⟩ := h
  have hnonneg := plainAggregate_nonneg (x := x) hok (-T) (-R) V (-u)
  rw [plainAggregate, vecMax_le hnonneg]
  intro a ha
  obtain ⟨r, hr, rfl⟩ := List.mem_map.mp ha
  obtain ⟨r', hr', himage⟩ := hrules r hr
  have hdegree : m.U.degree x r'.consequent (-u) = m.U.degree x r.consequent u := by
    rw [himage.consequent]
    exact hU.degree _ (.inr (hok r hr).consequent) u
  rw [← plainStrength_mirror hT hR (hok r hr) himage, ← hdegree]
  have hbound := (vecMax_le hnonneg).mp (le_refl (plainAggregate x m rb (-T) (-R) V (-u)))
  exact hbound _ (List.mem_map.mpr ⟨r', hr', rfl⟩)

/-- **Mirrored inputs** mirror the aggregate. -/
theorem plainAggregate_mirror (h : MirrorClosed x m rb) (hok : ∀ r ∈ rb.rules, RuleOk m r)
    (T R V u : ℚ) :
    plainAggregate x m rb (-T) (-R) V u = plainAggregate x m rb T R V (-u) := by
  apply le_antisymm
  · have := plainAggregate_mirror_le h hok (-T) (-R) V u
    rwa [neg_neg, neg_neg] at this
  · have := plainAggregate_mirror_le h hok T R V (-u)
    rwa [neg_neg] at this

/-! ### The quadrature from the other end -/

/-- A scalar product over a range, as a sum. -/
theorem dot_map_range (f g : ℕ → ℚ) (n : ℕ) :
    dot ((List.range n).map f) ((List.range n).map g) = ∑ j ∈ Finset.range n, f j * g j := by
  rw [dot, List.zipWith_map, List.zipWith_self]
  induction n with
  | zero => rfl
  | succ n ih =>
    rw [List.range_succ, List.map_append, List.sum_append, ih, Finset.sum_range_succ]
    simp

/-- The weights of every scheme are the same from the other end. -/
theorem quadratureWeight_reflect {scheme : DefuzzScheme} {n j : ℕ} (hj : j ≤ n)
    (heven : scheme = .simpson → n % 2 = 0) (delta : ℚ) :
    quadratureWeight scheme n delta (n - j) = quadratureWeight scheme n delta j := by
  unfold quadratureWeight
  cases scheme with
  | rect => rfl
  | trapezoid =>
    have hends : n - j = 0 ∨ n - j = n ↔ j = 0 ∨ j = n := by omega
    simp only [hends]
  | simpson =>
    have hn := heven rfl
    have hends : n - j = 0 ∨ n - j = n ↔ j = 0 ∨ j = n := by omega
    have hparity : (n - j) % 2 = 1 ↔ j % 2 = 1 := by omega
    simp only [hends, hparity]

/-- Simpson's weights come with an even number of intervals. -/
theorem quadratureWeights_even {scheme : DefuzzScheme} {nodes : ℕ} {lo hi : ℚ} {w : List ℚ}
    (h : quadratureWeights nodes scheme lo hi = .ok w) :
    scheme = .simpson → (nodes - 1) % 2 = 0 := by
  unfold quadratureWeights at h
  split_ifs at h with hlt hodd
  intro hscheme
  by_contra hne
  exact hodd ⟨hscheme, by omega⟩

/-- The grid of a symmetric range is symmetric. -/
theorem gridNode_reflect {n j : ℕ} {lo hi : ℚ} (hn : 0 < n) (hj : j ≤ n) (h : lo = -hi) :
    gridNode n lo hi (n - j) = -gridNode n lo hi j := by
  have hne : (n : ℚ) ≠ 0 := by
    rw [Nat.cast_ne_zero]
    omega
  unfold gridNode
  rw [h, Nat.cast_sub hj]
  field_simp
  ring

/-- **A mirrored aggregate** has the opposite centroid. -/
theorem centroid_mirror {scheme : DefuzzScheme} {nodes : ℕ} {lo hi : ℚ} {grid w : List ℚ}
    (hgrid : makeGrid nodes lo hi = .ok grid) (hw : quadratureWeights nodes scheme lo hi = .ok w)
    (hrange : lo = -hi) (hlt : lo < hi) (mu : ℚ → ℚ) :
    centroidWeighted w (List.zipWith (· * ·) w grid) (grid.map fun u => mu (-u)) lo hi =
      -centroidWeighted w (List.zipWith (· * ·) w grid) (grid.map mu) lo hi := by
  have heven := quadratureWeights_even hw
  obtain ⟨hnodes, rfl⟩ := makeGrid_ok hgrid
  obtain ⟨-, rfl⟩ := quadratureWeights_ok hw
  obtain ⟨n, rfl⟩ : ∃ n, nodes = n + 1 := ⟨nodes - 1, by omega⟩
  rw [Nat.add_sub_cancel] at heven ⊢
  have hn : 0 < n := by omega
  generalize (hi - lo) / ((n : ℕ) : ℚ) = delta at *
  rw [List.zipWith_map, List.zipWith_self, List.map_map, List.map_map]
  -- both sums of the mirrored aggregate are sums of the aggregate from the other end
  have harea : ∑ j ∈ Finset.range (n + 1), quadratureWeight scheme n delta j *
        mu (-gridNode n lo hi j) =
      ∑ j ∈ Finset.range (n + 1), quadratureWeight scheme n delta j * mu (gridNode n lo hi j) := by
    rw [← Finset.sum_range_reflect]
    apply Finset.sum_congr rfl
    intro j hj
    have hj : j ≤ n := Nat.lt_succ_iff.mp (Finset.mem_range.mp hj)
    rw [Nat.add_sub_cancel, quadratureWeight_reflect hj heven, gridNode_reflect hn hj hrange,
      neg_neg]
  have hmoment : ∑ j ∈ Finset.range (n + 1), quadratureWeight scheme n delta j *
        gridNode n lo hi j * mu (-gridNode n lo hi j) =
      -∑ j ∈ Finset.range (n + 1), quadratureWeight scheme n delta j * gridNode n lo hi j *
        mu (gridNode n lo hi j) := by
    rw [← Finset.sum_range_reflect, ← Finset.sum_neg_distrib]
    apply Finset.sum_congr rfl
    intro j hj
    have hj : j ≤ n := Nat.lt_succ_iff.mp (Finset.mem_range.mp hj)
    rw [Nat.add_sub_cancel, quadratureWeight_reflect hj heven, gridNode_reflect hn hj hrange,
      neg_neg]
    ring
  unfold centroidWeighted
  simp only [dot_map_range, Function.comp_apply, harea, hmoment, neg_div]
  split_ifs <;> linarith

/-- **The engine is odd** in `T` and `R`. -/
theorem inferU_mirror {scheme : Option DefuzzScheme} {nodes : Option ℕ} {e : MamdaniEngine}
    (hnew : MamdaniEngine.new x m rb scheme nodes = .ok e) (h : MirrorClosed x m rb)
    (T R V : ℚ) : e.inferU (-T) (-R) V = -e.inferU T R V := by
  obtain ⟨hok, grid, w, hgrid, hw, rfl⟩ := MamdaniEngine.new_ok hnew
  have hrange : m.U.lo = -m.U.hi := by
    obtain ⟨_, _, _, _, _, hU, _⟩ := h
    exact hU.range
  have hpos := quadratureWeights_pos hw m.U.lo_lt_hi
  rw [MamdaniEngine.inferU_eq, MamdaniEngine.inferU_eq, MamdaniEngine.infer_uRaw_eq hpos,
    MamdaniEngine.infer_uRaw_eq hpos]
  have hmirror : grid.map (plainAggregate x m rb (-T) (-R) V) =
      grid.map fun u => plainAggregate x m rb T R V (-u) :=
    List.map_congr_left fun u _ => plainAggregate_mirror h hok T R V u
  rw [hmirror]
  exact centroid_mirror hgrid hw hrange m.U.lo_lt_hi _

end Mirror

end FuzzHelm
