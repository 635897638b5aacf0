import FuzzHelm.Fuzzy.Membership
import Mathlib.Algebra.BigOperators.Group.List.Basic
import Mathlib.Data.List.GetD
import Mathlib.Data.List.Sort
import Mathlib.Data.Prod.Lex
import Mathlib.Data.String.Basic

namespace FuzzHelm

/-!
# Mamdani inference

Rules of three antecedents clip the terms of the output; the result is the centroid of their
maximum on a grid.  The engine aggregates over the terms of the output and not over the rules:
the strength of a term is the largest activation of its rules.

* `MamdaniEngine.infer` — the inference with its trace, rule by rule;
* `MamdaniEngine.inferU` — the fast path, which takes the rules in groups of one term of `T`
  and skips the groups whose term has degree zero;
* `inferU_eq` — both give the same number.
-/

/-! ### Defuzzification -/

/-- The scalar product of two vectors. -/
def dot (w mu : List ℚ) : ℚ := (List.zipWith (· * ·) w mu).sum

/-- The largest element of a vector. -/
def vecMax (xs : List ℚ) : ℚ := xs.max?.getD 0

/-- `aggregate`: the maximum of the clipped terms at each of the nodes. -/
def aggregate (betas : List ℚ) (consequentMu : List (List ℚ)) (nodes : ℕ) : List ℚ :=
  (List.range nodes).map fun j =>
    vecMax (List.zipWith (fun b row => min b (row.getD j 0)) betas consequentMu)

/-- `centroid_weighted`: the quotient of both sums, or the middle of the universe. -/
def centroidWeighted (w wu mu : List ℚ) (lo hi : ℚ) : ℚ :=
  let den := dot w mu
  if ¬0 < den then 0
  else
    let u := dot wu mu / den
    if u < lo then lo else if hi < u then hi else u

/-! ### The engine -/

/-- A rule and the places of its terms; "any" has the place after the terms of its variable. -/
structure CompiledRule where
  id : String
  antecedent : List (String × String)
  consequent : String
  ti : ℕ
  ri : ℕ
  vi : ℕ
  ci : ℕ
  w : ℚ
  w_pos : 0 < w
  w_le : w ≤ 1

/-- A rule that fired. -/
structure FiredRule where
  ruleId : String
  alpha : ℚ
  consequent : String
  antecedent : List (String × String)

/-- The inference with its trace. -/
structure FuzzyResult where
  uRaw : ℚ
  inputs : List (String × ℚ)
  memberships : List (String × List (String × ℚ))
  fired : List FiredRule
  grid : List ℚ
  muAgg : List ℚ
  engine : String
  area : ℚ
  height : ℚ

/-- The engine: its variables, the terms of the output on the grid of the quadrature, and the
    rules, whose places all exist. -/
structure MamdaniEngine where
  varT : LinguisticVariable
  varR : LinguisticVariable
  varV : LinguisticVariable
  uNames : List String
  uLo : ℚ
  uHi : ℚ
  grid : List ℚ
  w : List ℚ
  muTerms : List (List ℚ)
  compiled : List CompiledRule
  places : ∀ r ∈ compiled, r.ti ≤ varT.terms.length ∧ r.ri ≤ varR.terms.length ∧
    r.vi ≤ varV.terms.length ∧ r.ci < uNames.length

/-- `beta[ci] = max(beta[ci], a)`. -/
def raiseTo (beta : List ℚ) (c : ℕ × ℚ) : List ℚ := beta.set c.1 (max (beta.getD c.1 0) c.2)

/-- The activation of a rule whose first antecedent has the degree `muT`. -/
def CompiledRule.alpha (r : CompiledRule) (muT : ℚ) (mr mv : List ℚ) : ℚ :=
  min (min muT (mr.getD r.ri 0)) (mv.getD r.vi 0) * r.w

namespace MamdaniEngine

variable (e : MamdaniEngine)

/-- `name`, as the records of a run have it. -/
def name : String := "mamdani"

/-- `_wu`: the weights times the nodes, computed once. -/
def wu : List ℚ := List.zipWith (· * ·) e.w e.grid

/-- `_by_t`: the rules whose first antecedent is the term in place `ti`. -/
def byT (ti : ℕ) : List CompiledRule := e.compiled.filter fun r => r.ti = ti

/-- Before any rule no term of the output has a strength. -/
def noStrengths : List ℚ := List.replicate e.uNames.length 0

/-- `_strengths`: the groups of the terms of `T`, without those of degree zero. -/
def strengths (mt mr mv : List ℚ) : List ℚ :=
  mt.zipIdx.foldl (fun beta t =>
    if t.1 ≤ 0 ∧ t.2 ≠ mt.length - 1 then beta
    else (e.byT t.2).foldl (fun beta r => raiseTo beta (r.ci, r.alpha t.1 mr mv)) beta)
    e.noStrengths

/-- `infer_u`: the output alone, without a trace. -/
def inferU (T R V : ℚ) : ℚ :=
  let beta := e.strengths (e.varT.degrees T) (e.varR.degrees R) (e.varV.degrees V)
  if vecMax beta ≤ 0 then 0
  else centroidWeighted e.w e.wu (aggregate beta e.muTerms e.grid.length) e.uLo e.uHi

/-- The loop of `infer` over the rules: the strengths and what has fired. -/
def fire (mt mr mv : List ℚ) : List CompiledRule → List ℚ × List FiredRule →
    List ℚ × List FiredRule
  | [], acc => acc
  | r :: rs, (beta, fired) =>
    let a := r.alpha (mt.getD r.ti 0) mr mv
    fire mt mr mv rs (raiseTo beta (r.ci, a),
      if 0 < a then fired ++ [⟨r.id, a, r.consequent, r.antecedent⟩] else fired)

/-- The order of the fired rules: the strongest first, then by name. -/
def firedBefore (f f' : FiredRule) : Prop :=
  f'.alpha < f.alpha ∨ (f.alpha = f'.alpha ∧ f.ruleId ≤ f'.ruleId)

/-- The order of the fired rules can be computed. -/
instance : DecidableRel firedBefore := fun f f' =>
  inferInstanceAs (Decidable (f'.alpha < f.alpha ∨ (f.alpha = f'.alpha ∧ f.ruleId ≤ f'.ruleId)))

/-- `infer`: the output with everything that led to it. -/
def infer (T R V : ℚ) : FuzzyResult :=
  let (beta, fired) := fire (e.varT.degrees T) (e.varR.degrees R) (e.varV.degrees V) e.compiled
    (e.noStrengths, [])
  let muAgg := aggregate beta e.muTerms e.grid.length
  { uRaw :=
      if vecMax beta ≤ 0 then 0 else centroidWeighted e.w e.wu muAgg e.uLo e.uHi
    inputs := [("T", T), ("R", R), ("V", V)]
    memberships := [(e.varT.name, e.varT.fuzzify T), (e.varR.name, e.varR.fuzzify R),
      (e.varV.name, e.varV.fuzzify V)]
    fired := fired.insertionSort firedBefore
    grid := e.grid
    muAgg := muAgg
    engine := name
    area := dot e.w muAgg
    height := vecMax muAgg }

end MamdaniEngine

/-! ### The strengths -/

section Strengths

variable {beta : List ℚ} {cs cs' : List (ℕ × ℚ)} {k : ℕ} {x : ℚ}

/-- Raising strengths keeps their number. -/
@[simp] theorem length_foldl_raiseTo : (cs.foldl raiseTo beta).length = beta.length := by
  induction cs generalizing beta with
  | nil => rfl
  | cons c cs ih => rw [List.foldl_cons, ih, raiseTo, List.length_set]

/-- A strength is at most `x` when it was so and every contribution to it is. -/
theorem foldl_raiseTo_le (hk : k < beta.length) :
    (cs.foldl raiseTo beta).getD k 0 ≤ x ↔
      beta.getD k 0 ≤ x ∧ ∀ c ∈ cs, c.1 = k → c.2 ≤ x := by
  induction cs generalizing beta with
  | nil => simp
  | cons c cs ih =>
    -- one contribution raises its own strength and no other
    have hget : (raiseTo beta c).getD k 0 =
        if c.1 = k then max (beta.getD k 0) c.2 else beta.getD k 0 := by
      rw [raiseTo, List.getD_eq_getElem?_getD, List.getElem?_set]
      by_cases hc : c.1 = k
      · subst hc
        simp [hk]
      · rw [if_neg hc, if_neg hc, List.getD_eq_getElem?_getD]
    have hlen : k < (raiseTo beta c).length := by
      rw [raiseTo, List.length_set]
      exact hk
    rw [List.foldl_cons, ih hlen, hget, List.forall_mem_cons]
    -- contributions to other terms put no condition on this one
    by_cases hc : c.1 = k
    · rw [if_pos hc, max_le_iff, and_assoc]
      simp only [hc, true_imp_iff]
    · rw [if_neg hc]
      simp only [hc, false_imp_iff, true_and]

/-- Contributions with the same upper bounds above zero give the same strengths. -/
theorem foldl_raiseTo_congr {n : ℕ}
    (h : ∀ k x, 0 ≤ x → ((∀ c ∈ cs, c.1 = k → c.2 ≤ x) ↔ ∀ c ∈ cs', c.1 = k → c.2 ≤ x)) :
    cs.foldl raiseTo (List.replicate n 0) = cs'.foldl raiseTo (List.replicate n 0) := by
  apply List.ext_getElem
  · rw [length_foldl_raiseTo, length_foldl_raiseTo]
  · intro k hk hk'
    have hn : k < (List.replicate n (0 : ℚ)).length := by
      rw [length_foldl_raiseTo] at hk
      exact hk
    have hzero : (List.replicate n (0 : ℚ)).getD k 0 = 0 := by
      rw [List.length_replicate] at hn
      simp [hn]
    rw [← List.getD_eq_getElem _ 0 hk, ← List.getD_eq_getElem _ 0 hk']
    apply eq_of_forall_ge_iff
    intro x
    rw [foldl_raiseTo_le hn, foldl_raiseTo_le hn, hzero]
    constructor
    · rintro ⟨h0, hle⟩
      exact ⟨h0, (h k x h0).mp hle⟩
    · rintro ⟨h0, hle⟩
      exact ⟨h0, (h k x h0).mpr hle⟩

end Strengths

namespace MamdaniEngine

variable (e : MamdaniEngine)

/-- What the rules of `infer` contribute. -/
def contributions (mt mr mv : List ℚ) : List (ℕ × ℚ) :=
  e.compiled.map fun r => (r.ci, r.alpha (mt.getD r.ti 0) mr mv)

/-- What the groups of `_strengths` contribute. -/
def groupContributions (mt mr mv : List ℚ) : List (ℕ × ℚ) :=
  mt.zipIdx.flatMap fun t =>
    if t.1 ≤ 0 ∧ t.2 ≠ mt.length - 1 then []
    else (e.byT t.2).map fun r => (r.ci, r.alpha t.1 mr mv)

/-- The strengths of the first component are raised rule by rule. -/
theorem fire_fst (mt mr mv : List ℚ) (rs : List CompiledRule)
    (acc : List ℚ × List FiredRule) :
    (fire mt mr mv rs acc).1 =
      (rs.map fun r => (r.ci, r.alpha (mt.getD r.ti 0) mr mv)).foldl raiseTo acc.1 := by
  induction rs generalizing acc with
  | nil => rfl
  | cons r rs ih => rw [fire, ih, List.map_cons, List.foldl_cons]

/-- The strengths are raised group by group. -/
theorem strengths_eq (mt mr mv : List ℚ) :
    e.strengths mt mr mv = (e.groupContributions mt mr mv).foldl raiseTo e.noStrengths := by
  rw [strengths, groupContributions, List.foldl_flatMap]
  congr 1
  funext beta t
  split
  · rfl
  · rw [List.foldl_map]

/-- A rule whose first antecedent has no degree is not activated. -/
theorem alpha_nonpos {r : CompiledRule} {muT : ℚ} {mr mv : List ℚ} (h : muT ≤ 0) :
    r.alpha muT mr mv ≤ 0 :=
  mul_nonpos_of_nonpos_of_nonneg (((min_le_left _ _).trans (min_le_left _ _)).trans h) r.w_pos.le

/-- **The groups that are skipped do not count**: the strengths of the fast path are those of
    the rules one by one. -/
theorem strengths_eq_fire (T R V : ℚ) :
    e.strengths (e.varT.degrees T) (e.varR.degrees R) (e.varV.degrees V) =
      (fire (e.varT.degrees T) (e.varR.degrees R) (e.varV.degrees V) e.compiled
        (e.noStrengths, [])).1 := by
  rw [strengths_eq, fire_fst]
  generalize hmt : e.varT.degrees T = mt
  generalize e.varR.degrees R = mr
  generalize e.varV.degrees V = mv
  have hlen : mt.length = e.varT.terms.length + 1 := by
    rw [← hmt]
    exact e.varT.length_degrees T
  apply foldl_raiseTo_congr
  intro k x hx
  constructor
  · intro hgroups c hc hk
    obtain ⟨r, hr, rfl⟩ := List.mem_map.mp hc
    have hci : r.ci = k := hk
    have hti : r.ti < mt.length := by
      have := (e.places r hr).1
      omega
    show r.alpha (mt.getD r.ti 0) mr mv ≤ x
    rw [List.getD_eq_getElem _ 0 hti]
    by_cases hskip : mt[r.ti] ≤ 0 ∧ r.ti ≠ mt.length - 1
    · exact (alpha_nonpos hskip.1).trans hx
    · have hterm : (mt[r.ti], r.ti) ∈ mt.zipIdx :=
        List.mk_mem_zipIdx_iff_getElem?.mpr (List.getElem?_eq_getElem hti)
      have hgroup : r ∈ e.byT r.ti := List.mem_filter.mpr ⟨hr, by simp⟩
      have hmem : (r.ci, r.alpha mt[r.ti] mr mv) ∈ e.groupContributions mt mr mv := by
        apply List.mem_flatMap.mpr
        refine ⟨(mt[r.ti], r.ti), hterm, ?_⟩
        rw [if_neg hskip]
        exact List.mem_map.mpr ⟨r, hgroup, rfl⟩
      exact hgroups _ hmem hci
  · intro hrules c hc hk
    obtain ⟨t, ht, hc⟩ := List.mem_flatMap.mp hc
    split at hc
    · cases hc
    · obtain ⟨r, hr, rfl⟩ := List.mem_map.mp hc
      obtain ⟨hr, hti⟩ := List.mem_filter.mp hr
      have hget : mt.getD r.ti 0 = t.1 := by
        rw [of_decide_eq_true hti, List.getD_eq_getElem?_getD,
          List.mk_mem_zipIdx_iff_getElem?.mp ht]
        rfl
      apply hrules _ _ hk
      apply List.mem_map.mpr
      exact ⟨r, hr, by rw [hget]⟩

/-- **The fast path** gives the number of the traced inference. -/
theorem inferU_eq (T R V : ℚ) : e.inferU T R V = (e.infer T R V).uRaw := by
  rw [inferU, infer, strengths_eq_fire]

end MamdaniEngine

end FuzzHelm
