import FuzzHelm.Decision.ConsensusLaws
import FuzzHelm.Fuzzy.Mirror
import FuzzHelm.Lib.Literals
import Mathlib.Algebra.Order.Ring.Star
import Mathlib.Data.Rat.Star

namespace FuzzHelm

open Lib

/-!
# The core at mirrored evidence

Detectors of the trend and of the reversion that say the opposite, with the same confidence.

* `DetectorOutput.mirror` — the output with the opposite strength;
* `consensus_mirror`, `agreement_mirror` — the inputs of the engine change their signs, the
  evidence for a rise and for a fall change their places;
* `odd_symmetry` — the decision changes its sign.
-/

/-- A detector that votes says the opposite; the context is as it was. -/
def DetectorOutput.mirror (o : DetectorOutput) : DetectorOutput :=
  if o.group = .context then o
  else { o with
    s := -o.s
    s_mem := ⟨neg_le_neg o.s_mem.2, neg_le.mp o.s_mem.1⟩ }

/-- The inputs of the engine from the mirrored outputs. -/
def Consensus.mirror (c : Consensus) : Consensus :=
  { c with T := -c.T, R := -c.R, outputs := c.outputs.map DetectorOutput.mirror }

/-- The evidence for a rise and for a fall in each other's place. -/
def Agreement.mirror (a : Agreement) : Agreement := { a with pPlus := a.pMinus, pMinus := a.pPlus }

/-- The opposite decision. -/
def Numbers.mirror (n : Numbers) : Numbers := { n with uRaw := -n.uRaw, uFinal := -n.uFinal }

/-! ### Consensus -/

/-- The mirror changes the strength alone. -/
theorem DetectorOutput.mirror_same (o : DetectorOutput) : o.SameButStrength o.mirror := by
  unfold DetectorOutput.mirror
  split_ifs
  · exact ⟨rfl, rfl, rfl, rfl, rfl⟩
  · exact ⟨rfl, rfl, rfl, rfl, rfl⟩

/-- Outside the context group the mirror turns the strength round. -/
theorem DetectorOutput.mirror_s {o : DetectorOutput} (h : o.group ≠ .context) :
    o.mirror.s = -o.s := by
  rw [DetectorOutput.mirror, if_neg h]

variable {outputs : List DetectorOutput} {eps vDefault : ℚ}

/-- The mirror keeps the group. -/
@[simp] theorem DetectorOutput.mirror_group (o : DetectorOutput) : o.mirror.group = o.group :=
  o.mirror_same.2.2.2.1.symm

/-- The mirror keeps the weight of the vote. -/
theorem DetectorOutput.mirror_effective (o : DetectorOutput) :
    o.mirror.effective = o.effective := by
  obtain ⟨-, hc, -, -, hw⟩ := o.mirror_same
  rw [DetectorOutput.effective, DetectorOutput.effective, hc, hw]

/-- The votes of the mirrored outputs are the opposite ones. -/
theorem votes_mirror {group : DetectorGroup} (h : group ≠ .context)
    (outputs : List DetectorOutput) :
    votes group (outputs.map DetectorOutput.mirror) = opposite (votes group outputs) := by
  have hgroups : (outputs.map DetectorOutput.mirror).filter (fun o => o.group = group) =
      (outputs.filter fun o => o.group = group).map DetectorOutput.mirror := by
    rw [List.filter_map]
    simp only [Function.comp_def, DetectorOutput.mirror_group]
  rw [votes, votes, opposite, hgroups, List.map_map, List.map_map]
  apply List.map_congr_left
  intro o ho
  have hgroup : o.group = group := by simpa using (List.mem_filter.mp ho).2
  have hs := DetectorOutput.mirror_s (o := o) (hgroup ▸ h)
  simp only [Function.comp_apply, DetectorOutput.mirror_effective, hs]

/-- The value of a group that votes changes its sign. -/
theorem value_mirror (heps : 0 < eps) {group : DetectorGroup} (h : group ≠ .context)
    (outputs : List DetectorOutput) :
    (GroupSum.of group (outputs.map DetectorOutput.mirror)).value eps =
      -(GroupSum.of group outputs).value eps := by
  rw [GroupSum.value_eq heps, GroupSum.value_eq heps, votes_mirror h, floorMean_opposite]

/-- Volatility has no direction, so the mirror keeps it. -/
theorem volatility_mirror (outputs : List DetectorOutput) (vDefault : ℚ) :
    volatility (outputs.map DetectorOutput.mirror) vDefault = volatility outputs vDefault := by
  have hsame : List.Forall₂ DetectorOutput.SameButStrength outputs
      (outputs.map DetectorOutput.mirror) := by
    rw [List.forall₂_map_right_iff]
    exact List.forall₂_same.mpr fun o _ => o.mirror_same
  rw [volatility, volatility, volatilityLoop_congr hsame]

/-- **The inputs of the engine** change their signs, and `V` is as it was. -/
theorem consensus_mirror (heps : 0 < eps) (outputs : List DetectorOutput) (vDefault : ℚ) :
    consensus (outputs.map DetectorOutput.mirror) eps vDefault =
      Consensus.mirror <$> consensus outputs eps vDefault := by
  rw [consensus, consensus, volatility_mirror, value_mirror heps (by decide),
    value_mirror heps (by decide)]
  cases volatility outputs vDefault with
  | error e => rfl
  | ok r => rfl

/-! ### Agreement -/

/-- Evidence for a rise and for a fall in each other's place. -/
def Evidence.mirror (ev : Evidence) : Evidence :=
  { ev with nPlus := ev.nMinus, nMinus := ev.nPlus }

/-- The evidence of a mirrored output is the mirrored evidence. -/
theorem Evidence.add_mirror (ev : Evidence) (o : DetectorOutput) :
    ev.mirror.add o.mirror = (ev.add o).mirror := by
  unfold Evidence.add
  rw [DetectorOutput.mirror_group]
  by_cases hgroup : o.group = .context
  · rw [if_pos hgroup, if_pos hgroup]
  · obtain ⟨-, hc, -, -, hw⟩ := o.mirror_same
    rw [if_neg hgroup, if_neg hgroup, DetectorOutput.mirror_s hgroup, ← hc, ← hw]
    rcases lt_trichotomy o.s 0 with h | h | h
    · simp [h, not_lt.mpr h.le, Evidence.mirror]
    · simp [h, Evidence.mirror]
    · simp [h, not_lt.mpr h.le, Evidence.mirror, sub_eq_add_neg]

/-- The evidence of the mirrored outputs is the mirrored evidence, by induction on them. -/
theorem Evidence.all_mirror (outputs : List DetectorOutput) (ev : Evidence) :
    (outputs.map DetectorOutput.mirror).foldl Evidence.add ev.mirror =
      (outputs.foldl Evidence.add ev).mirror := by
  induction outputs generalizing ev with
  | nil => rfl
  | cons o outputs ih =>
    rw [List.map_cons, List.foldl_cons, Evidence.add_mirror, ih, List.foldl_cons]

/-- The prior is symmetric. -/
theorem Evidence.withPrior_mirror (ev : Evidence) (eps : ℚ) :
    ev.mirror.withPrior eps = (ev.withPrior eps).mirror := by
  unfold Evidence.withPrior
  show (if ev.z < eps then _ else _) = _
  split_ifs
  · rfl
  · rfl

/-- The entropy does not see the direction. -/
theorem normalizedEntropy_comm (math : MathFunctions) (p q z : ℚ) :
    normalizedEntropy math q p z = normalizedEntropy math p q z := by
  have hterms (h : ℚ) : (fun h p => if 0 < p then h - p * math.log p else h)
        ((fun h p => if 0 < p then h - p * math.log p else h) h q) p =
      (fun h p => if 0 < p then h - p * math.log p else h)
        ((fun h p => if 0 < p then h - p * math.log p else h) h p) q := by
    dsimp only
    split_ifs <;> ring
  unfold normalizedEntropy
  simp only [List.foldl_cons, hterms]

/-- **The agreement** is as it was. -/
theorem agreement_mirror (math : MathFunctions) (outputs : List DetectorOutput)
    (kappaMin nu eps : ℚ) :
    agreement math (outputs.map DetectorOutput.mirror) kappaMin nu eps =
      (agreement math outputs kappaMin nu eps).mirror := by
  have hmirror : (outputs.map DetectorOutput.mirror).foldl Evidence.add ⟨0, 0, 0, 0⟩ =
      (outputs.foldl Evidence.add ⟨0, 0, 0, 0⟩).mirror := Evidence.all_mirror outputs ⟨0, 0, 0, 0⟩
  unfold agreement
  rw [hmirror]
  dsimp only
  rw [Evidence.withPrior_mirror]
  simp only [Evidence.mirror, Agreement.mirror]
  rw [normalizedEntropy_comm math (_ / _)]

/-! ### The decision -/

/-- The clip is odd. -/
theorem clipUnit_neg (u : ℚ) : clipUnit (-u) = -clipUnit u := by
  unfold clipUnit
  split_ifs <;> linarith

/-- **Odd symmetry.**  With a base of rules that is closed under the mirror, the mirrored outputs
    give the opposite decision, down to the number that is acted upon. -/
theorem odd_symmetry {x : Exponential} {m : MembershipConfig} {rb : RuleBase}
    {scheme : Option DefuzzScheme} {nodes : Option ℕ} {W : Type} (core : DecisionCore W)
    (hnew : MamdaniEngine.new x m rb scheme nodes = .ok core.engine)
    (hclosed : MirrorClosed x m rb) :
    (∀ outputs, consensus (outputs.map DetectorOutput.mirror) core.eps core.vDefault =
      Consensus.mirror <$> consensus outputs core.eps core.vDefault) ∧
    (∀ outputs, agreement core.math (outputs.map DetectorOutput.mirror) core.kappaMin core.nu
        core.eps =
      (agreement core.math outputs core.kappaMin core.nu core.eps).mirror) ∧
    (∀ T R V, core.engine.inferU (-T) (-R) V = -core.engine.inferU T R V) ∧
    ∀ window window' outputs, core.outputs window = .ok outputs →
      core.outputs window' = .ok (outputs.map DetectorOutput.mirror) →
      core.intent window' = Numbers.mirror <$> core.intent window := by
  -- each part of the core is odd, or even where it measures
  have hinfer := inferU_mirror hnew hclosed
  have hcons := fun outputs => consensus_mirror core.eps_pos outputs core.vDefault
  have hagree := fun outputs => agreement_mirror core.math outputs core.kappaMin core.nu core.eps
  refine ⟨hcons, hagree, hinfer, ?_⟩
  intro window window' outputs hwindow hwindow'
  rw [DecisionCore.intent, DecisionCore.intent, hwindow, hwindow']
  show (consensus _ _ _ >>= _) = Numbers.mirror <$> (consensus _ _ _ >>= _)
  rw [hcons]
  cases consensus outputs core.eps core.vDefault with
  | error e => rfl
  | ok c =>
    refine congrArg Except.ok ?_
    simp only [Consensus.mirror, hinfer, hagree, Agreement.mirror, Numbers.mirror, mul_neg,
      clipUnit_neg]

/-! ### A configuration that is its own mirror image -/

/-- Follow the trend, whatever the reversion and the volatility say. -/
def trendRules : RuleBase :=
  ⟨[⟨"R01", [("T", "HIGH"), ("R", "any"), ("V", "any")], "HIGH", 1⟩,
    ⟨"R02", [("T", "LOW"), ("R", "any"), ("V", "any")], "LOW", 1⟩]⟩

/-- `LOW` and `HIGH` are each other's images. -/
def swapTerms (term : String) : String :=
  if term = "LOW" then "HIGH" else if term = "HIGH" then "LOW" else term

/-- The two terms are each other's mirror. -/
theorem crossingTerms_reflected : (crossingTerms (-1) 0 1 (by norm_num) (by norm_num)).Reflected
    rationalExponential swapTerms := by
  -- the terms at both ends are mirror images of each other
  have hlow : (tri (-1) (-1) 1 (le_refl _) (by norm_num) (by norm_num)).mirror =
      tri (-1) 1 1 (by norm_num) (le_refl _) (by norm_num) := by
    simp [Trapezoidal.mirror, tri]
  have hhigh : (tri (-1) 1 1 (by norm_num) (le_refl _) (by norm_num)).mirror =
      tri (-1) (-1) 1 (le_refl _) (by norm_num) (by norm_num) := by
    simp [Trapezoidal.mirror, tri]
  apply VariableSpec.reflected
  · rfl
  · decide
  · intro term s hs
    -- there are two terms only
    have hterm : term = "LOW" ∨ term = "HIGH" := by
      by_contra hneither
      rw [not_or] at hneither
      have hnone : (crossingTerms (-1) 0 1 (by norm_num) (by norm_num)).terms.lookup term =
          none := by
        apply List.lookup_eq_none_iff.mpr
        intro p hp
        rcases List.mem_cons.mp hp with rfl | hp
        · exact bne_iff_ne.mpr hneither.1
        · rw [List.mem_singleton.mp hp]
          exact bne_iff_ne.mpr hneither.2
      rw [hnone] at hs
      cases hs
    rcases hterm with rfl | rfl
    · cases hs
      exact ⟨by decide, by rw [MembershipSpec.mirror, hlow]; rfl⟩
    · cases hs
      exact ⟨by decide, by rw [MembershipSpec.mirror, hhigh]; rfl⟩

/-- The two rules of the trend are each other's mirror. -/
theorem trendRules_closed : MirrorClosed rationalExponential
    (crossingMembership (-1) 0 1 (by norm_num) (by norm_num)) trendRules := by
  refine ⟨swapTerms, swapTerms, swapTerms, crossingTerms_reflected, crossingTerms_reflected,
    crossingTerms_reflected, ?_⟩
  intro r hr
  rcases List.mem_cons.mp hr with rfl | hr
  · exact ⟨_, List.mem_cons_of_mem _ (List.mem_singleton_self _), rfl, rfl, rfl, rfl, rfl⟩
  · rw [List.mem_singleton.mp hr]
    exact ⟨_, List.mem_cons_self, rfl, rfl, rfl, rfl, rfl⟩

/-- The minimum of the damping that the configuration has by default. -/
theorem sevenTwentieths_mem_unit : (0 : ℚ) ≤ 7 / 20 ∧ (7 / 20 : ℚ) ≤ 1 := by norm_num

/-- A detector of the trend that says what it is asked to say. -/
def trendOutput (up : Bool) : DetectorOutput where
  name := "trend"
  s := if up then 1 / 2 else -1 / 2
  c := 1
  features := []
  group := .trend
  weight := 1
  s_mem := by split_ifs <;> norm_num
  c_mem := one_mem_unit_rat
  weight_nonneg := zero_le_one

/-- A core with the one detector of the trend. -/
def trendCore (e : MamdaniEngine) : DecisionCore Bool where
  detectors := [fun up => .ok (trendOutput up)]
  engine := e
  math := sampleMath
  kappaMin := 7 / 20
  nu := 1
  eps := 1 / 10 ^ 9
  vDefault := 1 / 2
  kappaMin_mem := sevenTwentieths_mem_unit
  nu_pos := one_pos_rat
  eps_pos := billionth_pos_rat
  vDefault_mem := half_mem_unit_rat

/-- Half a trend and minus half a trend give opposite values, with the logarithm of the real
    functions. -/
theorem odd_symmetry_trend : ∃ e, MamdaniEngine.new rationalExponential
      (crossingMembership (-1) 0 1 (by norm_num) (by norm_num)) trendRules none none = .ok e ∧
    e.inferU (-(1 / 2)) (-0) 0 = -e.inferU (1 / 2) 0 0 ∧
    (trendCore e).intent false = Numbers.mirror <$> (trendCore e).intent true := by
  obtain ⟨e, he⟩ := MamdaniEngine.exists_of_isOk (r := MamdaniEngine.new rationalExponential
    (crossingMembership (-1) 0 1 (by norm_num) (by norm_num)) trendRules none none)
    (by decide +kernel)
  obtain ⟨-, -, hinfer, hintent⟩ := odd_symmetry (trendCore e) he trendRules_closed
  have hwindow : (trendCore e).outputs true = .ok [trendOutput true] := rfl
  refine ⟨e, he, hinfer (1 / 2) 0 0, hintent true false _ hwindow ?_⟩
  have hmirror : (trendOutput true).mirror = trendOutput false := by
    simp [trendOutput, DetectorOutput.mirror, neg_div]
  rw [List.map_singleton, hmirror]
  rfl

end FuzzHelm
