import FuzzHelm.Decision.Core
import FuzzHelm.Lib.FloorMean
import Mathlib.Tactic.FieldSimp
import Mathlib.Tactic.Positivity

namespace FuzzHelm

open Lib

/-!
# The laws of the consensus

The consensus as an aggregation: the two groups are weighted means with a floor under their mass,
the evidence is a distribution, and the damping never turns the decision round.

* `groupConsensus` — the diagnosis of a group, computed again when it is asked for;
* `GroupSum.value_eq` — the value of a group is the `floorMean` of its detectors; the clip to
  [-1, 1] finds nothing to clip;
* `consensus_perm`, `consensus_mono` — the order does not matter, a stronger detector does not
  weaken its group;
* `agreement_sum` — the three shares are a distribution, also when the mass is below `eps`;
* `consensus_algebra` — the laws together, down to the final number.
-/

/-! ### The diagnosis of a group -/

/-- `GroupConsensus`: the value of one group and what it was made from. -/
structure GroupConsensus where
  group : DetectorGroup
  value : ℚ
  mass : ℚ
  names : List String
  omegas : List ℚ
  effective : List ℚ
  strengths : List ℚ
  eps : ℚ

/-- `group_consensus`: one group alone, by the same sums. -/
def groupConsensus (outputs : List DetectorOutput) (group : DetectorGroup) (eps : ℚ) :
    GroupConsensus :=
  let members := outputs.filter fun o => o.group = group
  let omegas := members.map DetectorOutput.weight
  let effective := List.zipWith (fun w o => w * o.c) omegas members
  let strengths := members.map DetectorOutput.s
  let sum := (List.zip effective strengths).foldl
    (fun (sum : GroupSum) p => ⟨sum.num + p.1 * p.2, sum.mass + p.1⟩) ⟨0, 0⟩
  { group := group
    value := clipUnit (sum.num / max eps sum.mass)
    mass := sum.mass
    names := members.map DetectorOutput.name
    omegas := omegas
    effective := effective
    strengths := strengths
    eps := eps }

/-- `Consensus.trend` and `Consensus.reversion` as values of one group. -/
def Consensus.trend (c : Consensus) : GroupConsensus := groupConsensus c.outputs .trend c.eps

/-- The reversion group as one value. -/
def Consensus.reversion (c : Consensus) : GroupConsensus :=
  groupConsensus c.outputs .reversion c.eps

/-! ### A group as a weighted mean -/

/-- The weight of a detector once its confidence counts. -/
def DetectorOutput.effective (o : DetectorOutput) : ℚ := o.weight * o.c

/-- The product of a weight and a confidence is not negative. -/
theorem DetectorOutput.effective_nonneg (o : DetectorOutput) : 0 ≤ o.effective :=
  mul_nonneg o.weight_nonneg o.c_mem.1

/-- The effective weights and the strengths of a group. -/
def votes (group : DetectorGroup) (outputs : List DetectorOutput) : List (ℚ × ℚ) :=
  (outputs.filter fun o => o.group = group).map fun o => (o.effective, o.s)

/-- No vote has a negative weight. -/
theorem votes_nonneg {group : DetectorGroup} {outputs : List DetectorOutput} :
    ∀ p ∈ votes group outputs, 0 ≤ p.1 := by
  intro p hp
  obtain ⟨o, -, rfl⟩ := List.mem_map.mp hp
  exact o.effective_nonneg

/-- A vote is the one of an output of its group. -/
theorem mem_votes {group : DetectorGroup} {outputs : List DetectorOutput} {p : ℚ × ℚ}
    (hp : p ∈ votes group outputs) :
    ∃ o ∈ outputs, o.group = group ∧ p = (o.effective, o.s) := by
  obtain ⟨o, ho, rfl⟩ := List.mem_map.mp hp
  obtain ⟨hmem, hgroup⟩ := List.mem_filter.mp ho
  exact ⟨o, hmem, by simpa using hgroup, rfl⟩

/-- The sums of a group are those of its own outputs, wherever the others stand. -/
theorem groupSum_foldl (group : DetectorGroup) (outputs : List DetectorOutput) (acc : GroupSum) :
    outputs.foldl (fun sum o =>
      if o.group = group then
        let e := o.weight * o.c
        (⟨sum.num + e * o.s, sum.mass + e⟩ : GroupSum)
      else sum) acc =
    ⟨acc.num + weightedSum (votes group outputs), acc.mass + mass (votes group outputs)⟩ := by
  induction outputs generalizing acc with
  | nil => simp [votes, weightedSum, mass]
  | cons o outputs ih =>
    rw [List.foldl_cons, ih]
    by_cases h : o.group = group
    · have hvotes : votes group (o :: outputs) = (o.effective, o.s) :: votes group outputs := by
        rw [votes, List.filter_cons_of_pos (by simpa using h), List.map_cons, votes]
      rw [if_pos h, hvotes]
      simp only [weightedSum, mass, List.map_cons, List.sum_cons, DetectorOutput.effective]
      rw [add_assoc, add_assoc]
    · have hvotes : votes group (o :: outputs) = votes group outputs := by
        rw [votes, List.filter_cons_of_neg (by simpa using h), votes]
      rw [if_neg h, hvotes]

/-- **The sums of a group** are the weighted sum and the mass of its votes. -/
theorem GroupSum.of_eq (group : DetectorGroup) (outputs : List DetectorOutput) :
    GroupSum.of group outputs =
      ⟨weightedSum (votes group outputs), Lib.mass (votes group outputs)⟩ := by
  rw [GroupSum.of, groupSum_foldl, zero_add, zero_add]

/-- The clip leaves alone what is in range. -/
theorem clipUnit_of_mem {x : ℚ} (h : -1 ≤ x ∧ x ≤ 1) : clipUnit x = x := by
  rw [clipUnit, if_neg (not_lt.mpr h.1), if_neg (not_lt.mpr h.2)]

/-- **The value of a group** is a mean of strengths, and needs no clipping. -/
theorem GroupSum.value_eq {eps : ℚ} (heps : 0 < eps) (group : DetectorGroup)
    (outputs : List DetectorOutput) :
    (GroupSum.of group outputs).value eps = floorMean eps (votes group outputs) := by
  rw [GroupSum.value, GroupSum.of_eq]
  apply clipUnit_of_mem
  constructor
  · apply le_floorMean heps votes_nonneg _ (.inl (by norm_num))
    intro p hp _
    obtain ⟨o, -, -, rfl⟩ := mem_votes hp
    exact o.s_mem.1
  · apply floorMean_le heps votes_nonneg _ (.inl (by norm_num))
    intro p hp _
    obtain ⟨o, -, -, rfl⟩ := mem_votes hp
    exact o.s_mem.2

/-- The loop of `group_consensus` over the members finds the sums of `consensus`. -/
theorem groupConsensus_sums (outputs : List DetectorOutput) (group : DetectorGroup) (eps : ℚ) :
    (groupConsensus outputs group eps).value = (GroupSum.of group outputs).value eps ∧
      (groupConsensus outputs group eps).mass = mass (votes group outputs) := by
  have hfold (members : List DetectorOutput) (acc : GroupSum) :
      (List.zip (List.zipWith (fun w o => w * o.c) (members.map DetectorOutput.weight) members)
        (members.map DetectorOutput.s)).foldl
        (fun (sum : GroupSum) p => ⟨sum.num + p.1 * p.2, sum.mass + p.1⟩) acc =
      ⟨acc.num + weightedSum (members.map fun o => (o.effective, o.s)),
        acc.mass + mass (members.map fun o => (o.effective, o.s))⟩ := by
    induction members generalizing acc with
    | nil => simp [weightedSum, mass]
    | cons o members ih =>
      simp only [List.map_cons, List.zipWith_cons_cons, List.zip_cons_cons, List.foldl_cons, ih,
        weightedSum, mass, List.sum_cons, DetectorOutput.effective]
      rw [add_assoc, add_assoc]
  have hsum := hfold (outputs.filter fun o => o.group = group) ⟨0, 0⟩
  rw [zero_add, zero_add] at hsum
  constructor
  · rw [GroupSum.value, GroupSum.of_eq]
    simp only [groupConsensus, hsum, votes]
  · simp only [groupConsensus, hsum, votes]

/-! ### The volatility -/

/-- What makes a detector a source of `V`. -/
def DetectorOutput.provides (o : DetectorOutput) : Bool :=
  o.group = .context ∧ (o.features.lookup "V").isSome

/-- The volatility only depends on the outputs that carry one. -/
theorem volatilityLoop_filter (outputs : List DetectorOutput) (provider : Option String)
    (found : Option ℚ) :
    volatilityLoop outputs provider found =
      volatilityLoop (outputs.filter DetectorOutput.provides) provider found := by
  induction outputs generalizing provider found with
  | nil => rfl
  | cons o os ih =>
    by_cases hgroup : o.group = .context
    · cases hv : o.features.lookup "V" with
      | none =>
        have hno : ¬o.provides = true := by simp [DetectorOutput.provides, hv]
        rw [List.filter_cons_of_neg hno, volatilityLoop, if_neg (not_not.mpr hgroup), hv]
        exact ih provider found
      | some raw =>
        have hyes : o.provides = true := by simp [DetectorOutput.provides, hv, hgroup]
        rw [List.filter_cons_of_pos hyes, volatilityLoop, volatilityLoop,
          if_neg (not_not.mpr hgroup), if_neg (not_not.mpr hgroup), hv]
        simp only [ih]
    · have hno : ¬o.provides = true := by simp [DetectorOutput.provides, hgroup]
      rw [List.filter_cons_of_neg hno, volatilityLoop, if_pos hgroup]
      exact ih provider found

/-- A second source of `V` is refused. -/
theorem volatilityLoop_two {outputs : List DetectorOutput} {r : Option String × Option ℚ}
    (h : volatilityLoop outputs none none = .ok r) :
    (outputs.filter DetectorOutput.provides).length ≤ 1 := by
  rw [volatilityLoop_filter] at h
  have hall : ∀ o ∈ outputs.filter DetectorOutput.provides, o.provides = true := by
    intro o ho
    exact (List.mem_filter.mp ho).2
  generalize outputs.filter DetectorOutput.provides = ps at h hall
  match ps with
  | [] => simp
  | [_] => simp
  -- a second provider is refused, whatever the first one told
  | o :: o' :: os =>
    exfalso
    have hrefused (found : Option ℚ) :
        ∀ r', volatilityLoop (o' :: os) (some o.name) found ≠ .ok r' := by
      intro r' hr'
      have ho' := hall o' (by simp)
      simp only [DetectorOutput.provides, decide_eq_true_eq] at ho'
      obtain ⟨raw, hraw⟩ := Option.isSome_iff_exists.mp ho'.2
      rw [volatilityLoop, if_neg (not_not.mpr ho'.1), hraw] at hr'
      cases hr'
    have ho := hall o (by simp)
    simp only [DetectorOutput.provides, decide_eq_true_eq] at ho
    obtain ⟨raw, hraw⟩ := Option.isSome_iff_exists.mp ho.2
    rw [volatilityLoop, if_neg (not_not.mpr ho.1), hraw] at h
    dsimp only at h
    cases raw with
    | none => exact hrefused _ _ h
    | some v =>
      dsimp only at h
      split_ifs at h
      · exact hrefused _ _ h
      · exact hrefused _ _ h

/-- The order of the detectors does not matter to `V`. -/
theorem volatility_perm {outputs outputs' : List DetectorOutput} {vDefault : ℚ} {r : ℚ × String}
    (hperm : outputs.Perm outputs') (h : volatility outputs vDefault = .ok r) :
    volatility outputs' vDefault = .ok r := by
  rw [volatility] at h ⊢
  obtain ⟨res, hloop, hres⟩ := bind_eq_ok.mp h
  have hone := volatilityLoop_two hloop
  have hfilter : outputs'.filter DetectorOutput.provides =
      outputs.filter DetectorOutput.provides := by
    have hp := (hperm.filter DetectorOutput.provides).symm
    generalize outputs.filter DetectorOutput.provides = ps at hone hp
    match ps with
    | [] => exact hp.eq_nil
    | [o] => exact List.perm_singleton.mp hp
    | _ :: _ :: _ => simp at hone
  rw [volatilityLoop_filter, hfilter, ← volatilityLoop_filter, hloop]
  exact hres

/-- The detector with another strength. -/
def DetectorOutput.SameButStrength (o o' : DetectorOutput) : Prop :=
  o.name = o'.name ∧ o.c = o'.c ∧ o.features = o'.features ∧ o.group = o'.group ∧
    o.weight = o'.weight

/-- The strengths do not matter to `V`. -/
theorem volatilityLoop_congr {outputs outputs' : List DetectorOutput}
    (h : List.Forall₂ DetectorOutput.SameButStrength outputs outputs')
    (provider : Option String) (found : Option ℚ) :
    volatilityLoop outputs provider found = volatilityLoop outputs' provider found := by
  induction h generalizing provider found with
  | nil => rfl
  | cons ho _ ih =>
    obtain ⟨hname, hc, hfeatures, hgroup, -⟩ := ho
    simp only [volatilityLoop, hname, hc, hfeatures, hgroup, ih]

/-! ### Order and monotonicity -/

variable {outputs outputs' : List DetectorOutput} {eps vDefault : ℚ} {cons : Consensus}

/-- A consensus is there just when a volatility is, and then its groups are the quotients of their
    sums. -/
theorem consensus_eq_ok : consensus outputs eps vDefault = .ok cons ↔
    ∃ r, volatility outputs vDefault = .ok r ∧ cons =
      ⟨(GroupSum.of .trend outputs).value eps, (GroupSum.of .reversion outputs).value eps, r.1,
        r.2, outputs, eps⟩ := by
  rw [consensus, bind_eq_ok]
  constructor
  · rintro ⟨r, hr, h⟩
    cases h
    exact ⟨r, hr, rfl⟩
  · rintro ⟨r, hr, rfl⟩
    exact ⟨r, hr, rfl⟩

/-- The votes of a group, in another order. -/
theorem votes_perm (h : outputs.Perm outputs') (group : DetectorGroup) :
    (votes group outputs).Perm (votes group outputs') := (h.filter _).map _

/-- **The order of the detectors** does not matter. -/
theorem consensus_perm (heps : 0 < eps) (h : consensus outputs eps vDefault = .ok cons)
    (hperm : outputs.Perm outputs') :
    ∃ cons', consensus outputs' eps vDefault = .ok cons' ∧
      cons'.T = cons.T ∧ cons'.R = cons.R ∧ cons'.V = cons.V := by
  obtain ⟨r, hr, rfl⟩ := consensus_eq_ok.mp h
  refine ⟨_, consensus_eq_ok.mpr ⟨r, volatility_perm hperm hr, rfl⟩, ?_, ?_, rfl⟩
  · show (GroupSum.of .trend outputs').value eps = (GroupSum.of .trend outputs).value eps
    rw [GroupSum.value_eq heps, GroupSum.value_eq heps, floorMean_perm (votes_perm hperm _)]
  · show (GroupSum.of .reversion outputs').value eps = (GroupSum.of .reversion outputs).value eps
    rw [GroupSum.value_eq heps, GroupSum.value_eq heps, floorMean_perm (votes_perm hperm _)]

/-- Stronger outputs make stronger votes of the same weights. -/
theorem votes_mono
    (h : List.Forall₂ (fun o o' => o.SameButStrength o' ∧ o.s ≤ o'.s) outputs outputs')
    (group : DetectorGroup) :
    List.Forall₂ (fun p q => p.1 = q.1 ∧ p.2 ≤ q.2) (votes group outputs)
      (votes group outputs') := by
  induction h with
  | nil => exact .nil
  | @cons o o' os os' ho _ ih =>
    obtain ⟨⟨-, hc, -, hgroup, hweight⟩, hs⟩ := ho
    by_cases hg : o.group = group
    · have hg' : o'.group = group := hgroup ▸ hg
      rw [votes, votes, List.filter_cons_of_pos (by simpa using hg),
        List.filter_cons_of_pos (by simpa using hg'), List.map_cons, List.map_cons]
      refine .cons ⟨?_, hs⟩ ih
      show o.weight * o.c = o'.weight * o'.c
      rw [hweight, hc]
    · have hg' : ¬o'.group = group := fun h => hg (hgroup.trans h)
      rw [votes, votes, List.filter_cons_of_neg (by simpa using hg),
        List.filter_cons_of_neg (by simpa using hg')]
      exact ih

/-- **Monotone**: stronger detectors do not lower a group. -/
theorem consensus_mono (heps : 0 < eps) (h : consensus outputs eps vDefault = .ok cons)
    (hle : List.Forall₂ (fun o o' => o.SameButStrength o' ∧ o.s ≤ o'.s) outputs outputs') :
    ∃ cons', consensus outputs' eps vDefault = .ok cons' ∧ cons.T ≤ cons'.T ∧ cons.R ≤ cons'.R := by
  obtain ⟨r, hr, rfl⟩ := consensus_eq_ok.mp h
  have hr' : volatility outputs' vDefault = .ok r := by
    rw [volatility, ← volatilityLoop_congr (hle.imp fun _ _ h => h.1)]
    exact hr
  refine ⟨_, consensus_eq_ok.mpr ⟨r, hr', rfl⟩, ?_, ?_⟩
  · show (GroupSum.of .trend outputs).value eps ≤ (GroupSum.of .trend outputs').value eps
    rw [GroupSum.value_eq heps, GroupSum.value_eq heps]
    exact floorMean_mono heps votes_nonneg (votes_mono hle _)
  · show (GroupSum.of .reversion outputs).value eps ≤ (GroupSum.of .reversion outputs').value eps
    rw [GroupSum.value_eq heps, GroupSum.value_eq heps]
    exact floorMean_mono heps votes_nonneg (votes_mono hle _)

/-- **The hull**: a group lies between bounds of its strengths with weight; where its mass is
    below `eps`, the bounds have zero between them. -/
theorem GroupSum.value_mem {group : DetectorGroup} {lo hi : ℚ} (heps : 0 < eps)
    (hs : ∀ o ∈ outputs, o.group = group → 0 < o.weight * o.c → lo ≤ o.s ∧ o.s ≤ hi)
    (h0 : (lo ≤ 0 ∧ 0 ≤ hi) ∨ eps ≤ Lib.mass (votes group outputs)) :
    lo ≤ (GroupSum.of group outputs).value eps ∧ (GroupSum.of group outputs).value eps ≤ hi := by
  rw [GroupSum.value_eq heps]
  constructor
  · apply le_floorMean heps votes_nonneg _ (h0.imp_left And.left)
    intro p hp hpos
    obtain ⟨o, ho, hgroup, rfl⟩ := mem_votes hp
    exact (hs o ho hgroup hpos).1
  · apply floorMean_le heps votes_nonneg _ (h0.imp_left And.right)
    intro p hp hpos
    obtain ⟨o, ho, hgroup, rfl⟩ := mem_votes hp
    exact (hs o ho hgroup hpos).2

/-! ### The evidence -/

/-- The evidence adds up to its mass, and none of it is negative. -/
structure Evidence.Splits (ev : Evidence) : Prop where
  sum : ev.nPlus + ev.nMinus + ev.nZero = ev.z
  plus : 0 ≤ ev.nPlus
  minus : 0 ≤ ev.nMinus
  zero : 0 ≤ ev.nZero

/-- One more output keeps the balance of the evidence. -/
theorem Evidence.Splits.add {ev : Evidence} (h : ev.Splits) (o : DetectorOutput) :
    (ev.add o).Splits := by
  obtain ⟨hsum, hplus, hminus, hzero⟩ := h
  have he := o.effective_nonneg
  have hlo := o.s_mem.1
  have hhi := o.s_mem.2
  rw [DetectorOutput.effective] at he
  unfold Evidence.add
  split_ifs with hcontext hpos hneg
  · exact ⟨hsum, hplus, hminus, hzero⟩
  · have hrise := mul_nonneg he hpos.le
    have hrest := mul_nonneg he (sub_nonneg.mpr hhi)
    exact ⟨by dsimp only; linarith, add_nonneg hplus hrise, hminus, add_nonneg hzero hrest⟩
  · have hfall := mul_nonneg he (neg_nonneg.mpr hneg.le)
    have hrest := mul_nonneg he (by linarith : 0 ≤ 1 + o.s)
    exact ⟨by dsimp only; linarith, hplus, add_nonneg hminus hfall, add_nonneg hzero hrest⟩
  · exact ⟨by dsimp only; linarith, hplus, hminus, add_nonneg hzero he⟩

/-- The evidence of all outputs is balanced. -/
theorem Evidence.Splits.all (outputs : List DetectorOutput) :
    (outputs.foldl Evidence.add ⟨0, 0, 0, 0⟩).Splits := by
  induction outputs using List.reverseRecOn with
  | nil => exact ⟨by simp, le_refl _, le_refl _, le_refl _⟩
  | append_singleton outputs o ih =>
    rw [List.foldl_append]
    exact ih.add o

/-- **The shares are a distribution**, with the prior for the mass that is missing. -/
theorem agreement_sum (math : MathFunctions) (outputs : List DetectorOutput)
    (kappaMin nu : ℚ) (heps : 0 < eps) :
    0 ≤ (agreement math outputs kappaMin nu eps).pPlus ∧
      0 ≤ (agreement math outputs kappaMin nu eps).pMinus ∧
      0 ≤ (agreement math outputs kappaMin nu eps).pZero ∧
      (agreement math outputs kappaMin nu eps).pPlus +
        (agreement math outputs kappaMin nu eps).pMinus +
        (agreement math outputs kappaMin nu eps).pZero = 1 := by
  simp only [agreement]
  -- the evidence splits the mass in three, by induction on the detectors
  have h := Evidence.Splits.all outputs
  generalize outputs.foldl Evidence.add ⟨0, 0, 0, 0⟩ = ev at h
  obtain ⟨hsum, hplus, hminus, hzero⟩ := h
  have hden : 0 < max eps ev.z := lt_of_lt_of_le heps (le_max_left _ _)
  unfold Evidence.withPrior
  by_cases hz : ev.z < eps
  · -- a third of what is missing for each share
    have hprior : 0 ≤ (eps - ev.z) / 3 := div_nonneg (sub_nonneg.mpr hz.le) (by norm_num)
    rw [if_pos hz]
    refine ⟨div_nonneg (add_nonneg hplus hprior) hden.le,
      div_nonneg (add_nonneg hminus hprior) hden.le,
      div_nonneg (add_nonneg hzero hprior) hden.le, ?_⟩
    rw [max_eq_left hz.le, ← add_div, ← add_div, div_eq_one_iff_eq heps.ne']
    linarith
  · rw [if_neg hz]
    refine ⟨div_nonneg hplus hden.le, div_nonneg hminus hden.le, div_nonneg hzero hden.le, ?_⟩
    rw [max_eq_right (not_lt.mp hz), ← add_div, ← add_div, hsum,
      div_self (lt_of_lt_of_le heps (not_lt.mp hz)).ne']

/-! ### The damping -/

/-- A power of a number between 0 and 1 lies between 0 and 1. -/
def MathFunctions.UnitPower (math : MathFunctions) : Prop :=
  ∀ a nu, 0 ≤ a → a ≤ 1 → 0 < nu → 0 ≤ math.pow a nu ∧ math.pow a nu ≤ 1

/-- The factor lies between its minimum and 1. -/
theorem kappa_mem {math : MathFunctions} (hpow : math.UnitPower) {kappaMin nu : ℚ}
    (hmin : 0 ≤ kappaMin ∧ kappaMin ≤ 1) (hnu : 0 < nu) (aG : ℚ) :
    kappaMin ≤ kappaFromAgreement math aG kappaMin nu ∧
      kappaFromAgreement math aG kappaMin nu ≤ 1 := by
  obtain ⟨hpos, hle⟩ := hpow (min 1 (max 0 aG)) nu (le_min zero_le_one (le_max_left _ _))
    (min_le_left _ _) hnu
  have hrest : 0 ≤ 1 - kappaMin := sub_nonneg.mpr hmin.2
  have hlow := mul_nonneg hrest hpos
  have hhigh := mul_le_mul_of_nonneg_left hle hrest
  rw [mul_one] at hhigh
  unfold kappaFromAgreement
  constructor
  · linarith
  · linarith

/-- Damping and clipping keep the side of zero. -/
theorem clipUnit_damped {kappa u : ℚ} (h0 : 0 ≤ kappa) (h1 : kappa ≤ 1) :
    |clipUnit (kappa * u)| ≤ |u| ∧ 0 ≤ u * clipUnit (kappa * u) ∧
      (0 < kappa → u ≠ 0 → 0 < u * clipUnit (kappa * u)) := by
  have habs : |kappa * u| ≤ |u| := by
    rw [abs_mul, abs_of_nonneg h0]
    exact mul_le_of_le_one_left (abs_nonneg u) h1
  unfold clipUnit
  split_ifs with hlow hhigh
  · have hu : u < 0 := by
      by_contra hu
      have := mul_nonneg h0 (not_lt.mp hu)
      linarith
    refine ⟨?_, by linarith, fun _ _ => by linarith⟩
    rw [abs_neg, abs_one]
    exact (by rw [lt_abs]; right; linarith : (1 : ℚ) < |kappa * u|).le.trans habs
  -- clipped from above: it is positive
  · have hu : 0 < u := by
      by_contra hu
      have := mul_nonpos_of_nonneg_of_nonpos h0 (not_lt.mp hu)
      linarith
    refine ⟨?_, by linarith, fun _ _ => by linarith⟩
    rw [abs_one]
    exact (by rw [lt_abs]; left; exact hhigh : (1 : ℚ) < |kappa * u|).le.trans habs
  -- not clipped: damping keeps the side
  · have hsq : u * (kappa * u) = kappa * (u * u) := by ring
    refine ⟨habs, ?_, fun hk hu => ?_⟩
    · rw [hsq]
      exact mul_nonneg h0 (mul_self_nonneg u)
    · rw [hsq]
      exact mul_pos hk (mul_self_pos.mpr hu)

/-! ### The laws together -/

/-- **The consensus is an aggregation**: convex, monotone and free of order; the lazy diagnosis
    finds the same numbers; the shares are a distribution; and the final number is no larger than
    the raw one, never on its other side, and on its side whenever the factor is positive, as it
    is when its minimum is. -/
theorem consensus_algebra {W : Type} (core : DecisionCore W) (hpow : core.math.UnitPower) :
    (∀ outputs cons, consensus outputs core.eps core.vDefault = .ok cons →
      (∀ lo hi, (∀ o ∈ outputs, o.group = .trend → 0 < o.weight * o.c → lo ≤ o.s ∧ o.s ≤ hi) →
        (lo ≤ 0 ∧ 0 ≤ hi) ∨ core.eps ≤ cons.trend.mass → lo ≤ cons.T ∧ cons.T ≤ hi) ∧
      (∀ lo hi, (∀ o ∈ outputs, o.group = .reversion → 0 < o.weight * o.c → lo ≤ o.s ∧ o.s ≤ hi) →
        (lo ≤ 0 ∧ 0 ≤ hi) ∨ core.eps ≤ cons.reversion.mass → lo ≤ cons.R ∧ cons.R ≤ hi) ∧
      (∀ outputs', List.Forall₂ (fun o o' => o.SameButStrength o' ∧ o.s ≤ o'.s) outputs outputs' →
        ∃ cons', consensus outputs' core.eps core.vDefault = .ok cons' ∧
          cons.T ≤ cons'.T ∧ cons.R ≤ cons'.R) ∧
      (∀ outputs', outputs.Perm outputs' →
        ∃ cons', consensus outputs' core.eps core.vDefault = .ok cons' ∧
          cons'.T = cons.T ∧ cons'.R = cons.R ∧ cons'.V = cons.V) ∧
      cons.trend.value = cons.T ∧ cons.reversion.value = cons.R) ∧
    (∀ outputs, 0 ≤ (agreement core.math outputs core.kappaMin core.nu core.eps).pPlus ∧
      0 ≤ (agreement core.math outputs core.kappaMin core.nu core.eps).pMinus ∧
      0 ≤ (agreement core.math outputs core.kappaMin core.nu core.eps).pZero ∧
      (agreement core.math outputs core.kappaMin core.nu core.eps).pPlus +
        (agreement core.math outputs core.kappaMin core.nu core.eps).pMinus +
        (agreement core.math outputs core.kappaMin core.nu core.eps).pZero = 1) ∧
    (∀ window u, core.intent window = .ok u →
      |u.uFinal| ≤ |u.uRaw| ∧ 0 ≤ u.uRaw * u.uFinal ∧
      (0 < u.kappa → u.uRaw ≠ 0 → 0 < u.uRaw * u.uFinal) ∧ (0 < core.kappaMin → 0 < u.kappa)) := by
  refine ⟨fun outputs cons h => ?_, fun outputs => agreement_sum _ _ _ _ core.eps_pos,
    fun window u h => ?_⟩
  -- the laws of the sums, once for each group
  · obtain ⟨r, -, rfl⟩ := consensus_eq_ok.mp h
    refine ⟨fun lo hi hs h0 => ?_, fun lo hi hs h0 => ?_,
      fun _ => consensus_mono core.eps_pos h, fun _ => consensus_perm core.eps_pos h,
      (groupConsensus_sums _ _ _).1, (groupConsensus_sums _ _ _).1⟩
    · rw [Consensus.trend, (groupConsensus_sums _ _ _).2] at h0
      exact GroupSum.value_mem core.eps_pos hs h0
    · rw [Consensus.reversion, (groupConsensus_sums _ _ _).2] at h0
      exact GroupSum.value_mem core.eps_pos hs h0
  -- the law of the final number, from the damping factor
  · rw [DecisionCore.intent] at h
    obtain ⟨outputs, -, h⟩ := bind_eq_ok.mp h
    obtain ⟨cons, -, h⟩ := bind_eq_ok.mp h
    cases h
    have hk := kappa_mem hpow core.kappaMin_mem core.nu_pos
      (agreement core.math outputs core.kappaMin core.nu core.eps).aG
    obtain ⟨habs, hsame, hpos⟩ := clipUnit_damped (u := core.engine.inferU cons.T cons.R cons.V)
      (core.kappaMin_mem.1.trans hk.1) hk.2
    exact ⟨habs, hsame, hpos, fun hmin => lt_of_lt_of_le hmin hk.1⟩

/-! ### A core without evidence -/

/-- A variable on [0, 1] with one term that holds everywhere. -/
def sampleVariable (name : String) : LinguisticVariable where
  name := name
  lo := 0
  hi := 1
  lo_lt_hi := by norm_num
  terms := [("ALL", ⟨fun _ => 1, fun _ => zero_le_one, fun _ => le_refl _⟩)]
  terms_ne := by simp

/-- One rule, on the grid 0, 1/2, 1. -/
def sampleEngine : MamdaniEngine where
  varT := sampleVariable "T"
  varR := sampleVariable "R"
  varV := sampleVariable "V"
  uNames := ["LONG"]
  uLo := 0
  uHi := 1
  grid := [0, 1 / 2, 1]
  w := [1 / 2, 1 / 2, 1 / 2]
  muTerms := [[1, 1, 1]]
  compiled := [⟨"R1", [("T", "ALL"), ("R", "ALL"), ("V", "ALL")], "LONG", 0, 0, 0, 0, 1,
    by norm_num, by norm_num⟩]
  places := by
    intro r hr
    rw [List.mem_singleton] at hr
    subst hr
    exact ⟨Nat.zero_le _, Nat.zero_le _, Nat.zero_le _, Nat.zero_lt_one⟩

/-- The logarithm as it is computed, at the numbers that the samples take it of, and the power with
    the exponent 1. -/
def sampleMath : MathFunctions where
  log x :=
    if x = 3 then 10986122886681098 / 10 ^ 16
    else if x = 1 / 2 then -6931471805599453 / 10 ^ 16
    else if x = 1 / 3 then -10986122886681098 / 10 ^ 16
    else if x = 1 / 4 then -13862943611198906 / 10 ^ 16
    else 0
  pow a _ := a

/-- No detector speaks, and the factor may fall to zero. -/
def silentCore (kappaMin : ℚ) (h : 0 ≤ kappaMin ∧ kappaMin ≤ 1) : DecisionCore Unit where
  detectors := []
  engine := sampleEngine
  math := sampleMath
  kappaMin := kappaMin
  nu := 1
  eps := 1 / 10 ^ 9
  vDefault := 1 / 2
  kappaMin_mem := h
  nu_pos := by norm_num
  eps_pos := by norm_num
  vDefault_mem := by norm_num

/-- Without evidence and without a minimum nothing is left of the raw number. -/
theorem damped_to_zero :
    ¬∀ (core : DecisionCore Unit) (u : Numbers), core.math.UnitPower → core.intent () = .ok u →
      (0 < u.uRaw ↔ 0 < u.uFinal) := by
  intro h
  have hcore := h (silentCore 0 (by norm_num)) ⟨1 / 2, 0, 0⟩ (fun a _ h0 h1 _ => ⟨h0, h1⟩)
    (by decide +kernel)
  exact absurd (hcore.mp (by norm_num)) (lt_irrefl _)

/-! ### A core whose detectors disagree -/

/-- A detector of a group that says `s` with the confidence `c`. -/
def vote (name : String) (group : DetectorGroup) (s c weight : ℚ) (hs : -1 ≤ s ∧ s ≤ 1)
    (hc : 0 ≤ c ∧ c ≤ 1) (hw : 0 ≤ weight) : DetectorOutput where
  name := name
  s := s
  c := c
  features := []
  group := group
  weight := weight
  s_mem := hs
  c_mem := hc
  weight_nonneg := hw

/-- Two detectors of the trend and two of the reversion, each against the other, and the one that
    gives the volatility. -/
def sampleVotes : List DetectorOutput :=
  [vote "donchian" .trend 1 (1 / 2) 1 (by norm_num) (by norm_num) (by norm_num),
    vote "ma_cross" .trend (-1) (1 / 4) 1 (by norm_num) (by norm_num) (by norm_num),
    vote "rsi" .reversion (1 / 2) (1 / 2) 1 (by norm_num) (by norm_num) (by norm_num),
    vote "bands" .reversion (-1 / 2) (1 / 2) (1 / 2) (by norm_num) (by norm_num) (by norm_num),
    { vote "atr" .context 0 1 1 (by norm_num) (by norm_num) (by norm_num) with
      features := [("V", some (3 / 4))] }]

/-- The core that hears them, with the usual minimum. -/
def votingCore : DecisionCore Unit :=
  { silentCore (7 / 20) (by norm_num) with
    detectors := sampleVotes.map fun o _ => .ok o }

/-- The detectors disagree in both groups: the inputs are their weighted means, within what they
    say and whatever their order; the shares make one; and what is left of the raw number is damped
    and on its side. -/
theorem consensus_algebra_sample :
    ∃ cons u, consensus sampleVotes votingCore.eps votingCore.vDefault = .ok cons ∧
      cons.T = 1 / 3 ∧ cons.R = 1 / 6 ∧ cons.V = 3 / 4 ∧ (-1 / 2 ≤ cons.R ∧ cons.R ≤ 1 / 2) ∧
      (∃ cons', consensus sampleVotes.reverse votingCore.eps votingCore.vDefault = .ok cons' ∧
        cons'.T = cons.T ∧ cons'.R = cons.R ∧ cons'.V = cons.V) ∧
      (agreement sampleMath sampleVotes votingCore.kappaMin 1 votingCore.eps).pPlus = 1 / 2 ∧
      votingCore.intent () = .ok u ∧ 0 < u.kappa ∧ |u.uFinal| ≤ |u.uRaw| ∧
      0 < u.uRaw * u.uFinal := by
  obtain ⟨hsum, -, hdamped⟩ := consensus_algebra votingCore (fun a _ h0 h1 _ => ⟨h0, h1⟩)
  -- both numbers are computed once; what follows from them is the theorem
  have hvotes : ((consensus sampleVotes votingCore.eps votingCore.vDefault).toOption.any fun cons =>
      decide (cons.T = 1 / 3 ∧ cons.R = 1 / 6 ∧ cons.V = 3 / 4)) = true := by
    decide +kernel
  have hintent : ((votingCore.intent ()).toOption.any fun u => decide (u.uRaw ≠ 0)) = true := by
    decide +kernel
  cases hcons : consensus sampleVotes votingCore.eps votingCore.vDefault with
  | error e =>
    rw [hcons] at hvotes
    cases hvotes
  | ok cons =>
    rw [hcons] at hvotes
    obtain ⟨hT, hR, hV⟩ := of_decide_eq_true hvotes
    obtain ⟨-, hreversion, -, horder, -⟩ := hsum sampleVotes cons hcons
    cases hu : votingCore.intent () with
    | error e =>
      rw [hu] at hintent
      cases hintent
    | ok u =>
      rw [hu] at hintent
      obtain ⟨habs, -, hside, hkappa⟩ := hdamped () u hu
      have hpos : 0 < u.kappa := hkappa (by decide +kernel)
      refine ⟨cons, u, rfl, hT, hR, hV, hreversion (-1 / 2) (1 / 2) ?_ (.inl (by norm_num)),
        horder _ sampleVotes.reverse_perm.symm, by decide +kernel, rfl, hpos, habs,
        hside hpos (of_decide_eq_true hintent)⟩
      decide +kernel

end FuzzHelm
