import FuzzHelm.Core.Enums
import FuzzHelm.Core.Money
import Mathlib.Algebra.Order.Field.Rat

namespace FuzzHelm

/-!
# The consensus of the detectors

What the detectors say of a bar becomes the three inputs of the fuzzy engine, weighted by
confidence, and the factor by which disagreement damps its output.

* `consensus` — the inputs `T`, `R` and `V`;
* `agreement` — the entropy of the evidence and the factor `kappa`;
* `clipUnit_mem` — what is clipped lies between -1 and 1.
-/

/-! ### Detectors -/

/-- `DetectorGroup`: what a detector speaks of; the context group does not vote. -/
inductive DetectorGroup where
  | trend
  | reversion
  | context
  deriving DecidableEq, Repr

/-- The output of a detector: a strength, a confidence, a weight, and what is shown of it; a
    feature may have no value. -/
structure DetectorOutput where
  name : String
  s : ℚ
  c : ℚ
  features : List (String × Option ℚ)
  group : DetectorGroup
  weight : ℚ
  s_mem : -1 ≤ s ∧ s ≤ 1
  c_mem : 0 ≤ c ∧ c ≤ 1
  weight_nonneg : 0 ≤ weight

/-! ### Consensus -/

/-- `_clip_unit`: a value outside [-1, 1] counts as its nearer end. -/
def clipUnit (x : ℚ) : ℚ := if x < -1 then -1 else if 1 < x then 1 else x

/-- The clip puts every number into [-1, 1]. -/
theorem clipUnit_mem (x : ℚ) : -1 ≤ clipUnit x ∧ clipUnit x ≤ 1 := by
  unfold clipUnit
  split_ifs with h h'
  · exact ⟨le_refl _, by norm_num⟩
  · exact ⟨by norm_num, le_refl _⟩
  · exact ⟨not_lt.mp h, not_lt.mp h'⟩

/-- `GroupConsensus`, as far as the inputs depend on it: the weighted sum and the mass. -/
structure GroupSum where
  num : ℚ
  mass : ℚ

/-- `Consensus`: both group values, the volatility and where it comes from, and what was asked. -/
structure Consensus where
  T : ℚ
  R : ℚ
  V : ℚ
  vSource : String
  outputs : List DetectorOutput
  eps : ℚ

/-- The source of a volatility that no detector has given. -/
def V_SOURCE_DEFAULT : String := "default"

/-- The sums of one group in the loop of `consensus`. -/
def GroupSum.of (group : DetectorGroup) (outputs : List DetectorOutput) : GroupSum :=
  outputs.foldl (fun sum o =>
    if o.group = group then
      let e := o.weight * o.c
      ⟨sum.num + e * o.s, sum.mass + e⟩
    else sum) ⟨0, 0⟩

/-- The value of a group. -/
def GroupSum.value (sum : GroupSum) (eps : ℚ) : ℚ := clipUnit (sum.num / max eps sum.mass)

/-- The loop of `_volatility`: the detector that provides `V`, and the value once it is warm. -/
def volatilityLoop : List DetectorOutput → Option String → Option ℚ →
    Except PyError (Option String × Option ℚ)
  | [], provider, found => .ok (provider, found)
  | o :: os, provider, found =>
    if o.group ≠ .context then volatilityLoop os provider found
    else match o.features.lookup "V" with
      | none => volatilityLoop os provider found
      | some raw =>
        match provider with
        | some p =>
          .error (.valueError ("ambiguous V: both '" ++ p ++ "' and '" ++ o.name ++
            "' provide features['V']"))
        | none =>
          match raw with
          | none => volatilityLoop os (some o.name) found
          | some v =>
            if ¬0 < o.c then volatilityLoop os (some o.name) found
            else if ¬(0 ≤ v ∧ v ≤ 1) then
              .error (.valueError (o.name ++ ": V outside [0,1] (percentile rank expected)"))
            else volatilityLoop os (some o.name) (some v)

/-- `_volatility`: the one that the context group gives, or the default. -/
def volatility (outputs : List DetectorOutput) (vDefault : ℚ) : Except PyError (ℚ × String) := do
  let (provider, found) ← volatilityLoop outputs none none
  return match found, provider with
    | some v, some p => (v, p)
    | _, _ => (vDefault, V_SOURCE_DEFAULT)

/-- `consensus`, for a positive `eps`. -/
def consensus (outputs : List DetectorOutput) (eps vDefault : ℚ) : Except PyError Consensus := do
  let (v, vSource) ← volatility outputs vDefault
  return {
    T := (GroupSum.of .trend outputs).value eps
    R := (GroupSum.of .reversion outputs).value eps
    V := v
    vSource := vSource
    outputs := outputs
    eps := eps }

/-! ### Agreement -/

/-- `math.log` and `math.pow`, of which only laws are used. -/
structure MathFunctions where
  log : ℚ → ℚ
  pow : ℚ → ℚ → ℚ

/-- `Agreement`: how much the detectors agree. -/
structure Agreement where
  pPlus : ℚ
  pMinus : ℚ
  pZero : ℚ
  H : ℚ
  aG : ℚ
  kappa : ℚ
  mass : ℚ
  kappaMin : ℚ
  nu : ℚ
  eps : ℚ

/-- The evidence for a rise, for a fall, for neither, and its mass. -/
structure Evidence where
  z : ℚ
  nPlus : ℚ
  nMinus : ℚ
  nZero : ℚ

/-- One detector in the loop of `agreement`; the context does not vote. -/
def Evidence.add (ev : Evidence) (o : DetectorOutput) : Evidence :=
  if o.group = .context then ev
  else
    let e := o.weight * o.c
    let ev := { ev with z := ev.z + e }
    if 0 < o.s then { ev with nPlus := ev.nPlus + e * o.s, nZero := ev.nZero + e * (1 - o.s) }
    else if o.s < 0 then
      { ev with nMinus := ev.nMinus + e * -o.s, nZero := ev.nZero + e * (1 + o.s) }
    else { ev with nZero := ev.nZero + e }

/-- The mass that is missing up to `eps` is spread evenly. -/
def Evidence.withPrior (ev : Evidence) (eps : ℚ) : Evidence :=
  if ev.z < eps then
    let prior := (eps - ev.z) / 3
    { ev with
      nPlus := ev.nPlus + prior
      nMinus := ev.nMinus + prior
      nZero := ev.nZero + prior }
  else ev

variable (math : MathFunctions)

/-- `normalized_entropy`: 0 where all evidence is on one side, 1 where it is even. -/
def normalizedEntropy (pPlus pMinus pZero : ℚ) : ℚ :=
  let h := [pPlus, pMinus, pZero].foldl (fun h p => if 0 < p then h - p * math.log p else h) 0
  min 1 (max 0 (h / math.log 3))

/-- `kappa_from_agreement`: from the lower bound up to 1 as the agreement grows. -/
def kappaFromAgreement (aG kappaMin nu : ℚ) : ℚ :=
  kappaMin + (1 - kappaMin) * math.pow (min 1 (max 0 aG)) nu

/-- `agreement`, for parameters that pass their checks. -/
def agreement (outputs : List DetectorOutput) (kappaMin nu eps : ℚ) : Agreement :=
  let ev := outputs.foldl Evidence.add ⟨0, 0, 0, 0⟩
  let full := ev.withPrior eps
  let den := max eps ev.z
  let pPlus := full.nPlus / den
  let pMinus := full.nMinus / den
  let pZero := full.nZero / den
  let h := normalizedEntropy math pPlus pMinus pZero
  { pPlus := pPlus
    pMinus := pMinus
    pZero := pZero
    H := h
    aG := 1 - h
    kappa := kappaFromAgreement math (1 - h) kappaMin nu
    mass := ev.z
    kappaMin := kappaMin
    nu := nu
    eps := eps }

end FuzzHelm
