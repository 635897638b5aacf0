import FuzzHelm.Core.Enums
import FuzzHelm.Fuzzy.Membership
import FuzzHelm.Lib.Run
import Mathlib.Algebra.Order.Field.Basic
import Mathlib.Data.List.Sort
import Mathlib.Data.String.Basic
import Mathlib.Tactic.Linarith

namespace FuzzHelm

/-!
# Configuration of the fuzzy engine

The validated membership functions and the rule base.  What the loader of `membership.yaml`
rejects cannot be built; a rule base is checked against the membership functions when an engine
is made.

* `MembershipSpec.scalar`, `MembershipSpec.array` — the degree of one number and of an array;
  `array_eq` says that the masks of the second are the branches of the first;
* `validateRulebase` — the check, which names the first field that fails;
* `validateRulebase_ok` — the rules that pass it.
-/

/-! ### Membership functions -/

/-- `math.exp` and `np.exp` on the exponents of a Gaussian, which are not positive. -/
structure Exponential where
  exp : ℚ → ℚ
  nonneg : ∀ x ≤ 0, 0 ≤ exp x
  le_one : ∀ x ≤ 0, exp x ≤ 1

/-- `trap(a, b, c, d)`; an edge may be upright. -/
structure Trapezoidal where
  a : ℚ
  b : ℚ
  c : ℚ
  d : ℚ
  a_le : a ≤ b
  b_le : b ≤ c
  c_le : c ≤ d
  support : a ≠ d

/-- `Gaussian`: a mean and a positive deviation. -/
structure Gaussian where
  m : ℚ
  sigma : ℚ
  sigma_pos : 0 < sigma

namespace Trapezoidal

variable (t : Trapezoidal)

/-- `scalar`: the rising edge, the plateau and the falling edge, in this order. -/
def scalar (x : ℚ) : ℚ :=
  if x < t.a ∨ t.d < x then 0
  else if x < t.b then (x - t.a) / (t.b - t.a)
  else if x ≤ t.c then 1
  else (t.d - x) / (t.d - t.c)

/-- One element of `array`: the masks are applied one after the other. -/
def element (x : ℚ) : ℚ :=
  let mu := 0
  let mu := if t.a < t.b ∧ t.a ≤ x ∧ x < t.b then (x - t.a) / (t.b - t.a) else mu
  let mu := if t.b ≤ x ∧ x ≤ t.c then 1 else mu
  if t.c < t.d ∧ t.c < x ∧ x ≤ t.d then (t.d - x) / (t.d - t.c) else mu

/-- **The masks are the branches.** -/
theorem element_eq (x : ℚ) : t.element x = t.scalar x := by
  have hab := t.a_le
  have hbc := t.b_le
  have hcd := t.c_le
  unfold element scalar
  -- the scalar branches in the order the source tests them
  by_cases hout : x < t.a ∨ t.d < x
  · -- outside the support no mask holds
    have hrise : ¬(t.a < t.b ∧ t.a ≤ x ∧ x < t.b) := by
      rintro ⟨-, hax, hxb⟩
      rcases hout with h | h <;> linarith
    have hflat : ¬(t.b ≤ x ∧ x ≤ t.c) := by
      rintro ⟨hbx, hxc⟩
      rcases hout with h | h <;> linarith
    have hfall : ¬(t.c < t.d ∧ t.c < x ∧ x ≤ t.d) := by
      rintro ⟨-, hcx, hxd⟩
      rcases hout with h | h <;> linarith
    rw [if_pos hout, if_neg hfall, if_neg hflat, if_neg hrise]
  · rw [if_neg hout]
    rw [not_or, not_lt, not_lt] at hout
    obtain ⟨hax, hxd⟩ := hout
    -- on the rising edge
    by_cases hxb : x < t.b
    · have hrise : t.a < t.b ∧ t.a ≤ x ∧ x < t.b := ⟨lt_of_le_of_lt hax hxb, hax, hxb⟩
      have hflat : ¬(t.b ≤ x ∧ x ≤ t.c) := fun h => absurd hxb (not_lt.mpr h.1)
      have hfall : ¬(t.c < t.d ∧ t.c < x ∧ x ≤ t.d) := fun h => by linarith [h.2.1]
      rw [if_pos hxb, if_neg hfall, if_neg hflat, if_pos hrise]
    · rw [if_neg hxb]
      -- on the plateau, and then on the falling edge
      by_cases hxc : x ≤ t.c
      · have hflat : t.b ≤ x ∧ x ≤ t.c := ⟨not_lt.mp hxb, hxc⟩
        have hfall : ¬(t.c < t.d ∧ t.c < x ∧ x ≤ t.d) := fun h => absurd hxc (not_le.mpr h.2.1)
        rw [if_pos hxc, if_neg hfall, if_pos hflat]
      · have hcx := not_le.mp hxc
        have hfall : t.c < t.d ∧ t.c < x ∧ x ≤ t.d := ⟨lt_of_lt_of_le hcx hxd, hcx, hxd⟩
        rw [if_neg hxc, if_pos hfall]

/-- A trapezoid stays within [0, 1]. -/
theorem scalar_mem (x : ℚ) : 0 ≤ t.scalar x ∧ t.scalar x ≤ 1 := by
  unfold scalar
  split_ifs with hout hrise hflat
  · exact ⟨le_refl _, zero_le_one⟩
  · rw [not_or, not_lt, not_lt] at hout
    have hab : 0 < t.b - t.a := by linarith [hout.1]
    exact ⟨div_nonneg (by linarith [hout.1]) hab.le, (div_le_one hab).mpr (by linarith)⟩
  · exact ⟨zero_le_one, le_refl _⟩
  · rw [not_or, not_lt, not_lt] at hout
    have hcx := not_le.mp hflat
    have hcd : 0 < t.d - t.c := by linarith [hout.2]
    exact ⟨div_nonneg (by linarith [hout.2]) hcd.le, (div_le_one hcd).mpr (by linarith)⟩

end Trapezoidal

/-- `tri(a, b, c)`, which is `trap(a, b, b, c)`. -/
def tri (a b c : ℚ) (hab : a ≤ b) (hbc : b ≤ c) (hac : a ≠ c) : Trapezoidal :=
  ⟨a, b, b, c, hab, le_refl b, hbc, hac⟩

/-- The exponent of a Gaussian at `x`. -/
def Gaussian.exponent (g : Gaussian) (x : ℚ) : ℚ :=
  let z := (x - g.m) / g.sigma
  (-1 / 2) * z * z

/-- The exponent of a bell is never positive. -/
theorem Gaussian.exponent_nonpos (g : Gaussian) (x : ℚ) : g.exponent x ≤ 0 := by
  have hsq := mul_self_nonneg ((x - g.m) / g.sigma)
  unfold Gaussian.exponent
  dsimp only
  linarith

/-- The term of a variable in the configuration. -/
inductive MembershipSpec where
  | trapezoidal (t : Trapezoidal)
  | gaussian (g : Gaussian)

namespace MembershipSpec

variable (e : Exponential)

/-- `scalar`, of either kind of term. -/
def scalar : MembershipSpec → ℚ → ℚ
  | .trapezoidal t, x => t.scalar x
  | .gaussian g, x => e.exp (g.exponent x)

/-- `array`, of either kind of term. -/
def array : MembershipSpec → List ℚ → List ℚ
  | .trapezoidal t, xs => xs.map t.element
  | .gaussian g, xs => xs.map fun x => e.exp (g.exponent x)

/-- The two paths compute the same degrees. -/
theorem array_eq (s : MembershipSpec) (xs : List ℚ) : s.array e xs = xs.map (s.scalar e) := by
  cases s with
  | trapezoidal t =>
    apply List.map_congr_left
    intro x _
    exact t.element_eq x
  | gaussian g => rfl

/-- The function with its values between 0 and 1. -/
def function (s : MembershipSpec) : MembershipFunction where
  scalar := s.scalar e
  nonneg x := by
    cases s with
    | trapezoidal t => exact (t.scalar_mem x).1
    | gaussian g => exact e.nonneg _ (g.exponent_nonpos x)
  le_one x := by
    cases s with
    | trapezoidal t => exact (t.scalar_mem x).2
    | gaussian g => exact e.le_one _ (g.exponent_nonpos x)

end MembershipSpec

/-! ### Variables -/

/-- `ANY_TERM`: whatever the value, the degree is 1. -/
def ANY_TERM : String := "any"

/-- A variable of the configuration: its range, and its terms under different names. -/
structure VariableSpec where
  lo : ℚ
  hi : ℚ
  lo_lt_hi : lo < hi
  terms : List (String × MembershipSpec)
  terms_ne : terms ≠ []
  names_nodup : (terms.map Prod.fst).Nodup
  names_ok : ∀ name ∈ terms.map Prod.fst, name ≠ "" ∧ name ≠ ANY_TERM

namespace VariableSpec

variable (v : VariableSpec) (e : Exponential)

/-- The names of the terms, in the order of the file. -/
def termNames : List String := v.terms.map Prod.fst

/-- The variable as the engine evaluates it. -/
def linguistic (name : String) : LinguisticVariable where
  name := name
  lo := v.lo
  hi := v.hi
  lo_lt_hi := v.lo_lt_hi
  terms := v.terms.map fun t => (t.1, t.2.function e)
  terms_ne := by
    intro h
    exact v.terms_ne (List.map_eq_nil_iff.mp h)

/-- `evaluate`: a row of degrees for each term. -/
def evaluate (xs : List ℚ) : List (List ℚ) := v.terms.map fun t => t.2.array e xs

end VariableSpec

/-- How the centroid is integrated. -/
inductive DefuzzScheme where
  | rect
  | trapezoid
  | simpson
  deriving DecidableEq, Repr

/-- Simpson's rule needs an even number of intervals. -/
structure DefuzzConfig where
  scheme : DefuzzScheme
  gridNodes : ℕ
  three_le : 3 ≤ gridNodes
  even : scheme = .simpson → (gridNodes - 1) % 2 = 0

/-- The inputs, the output and how it is made a number. -/
structure MembershipConfig where
  T : VariableSpec
  R : VariableSpec
  V : VariableSpec
  U : VariableSpec
  defuzz : DefuzzConfig

/-- `membership[name]` for an input variable. -/
def MembershipConfig.input (m : MembershipConfig) (name : String) : Option VariableSpec :=
  if name = "T" then some m.T
  else if name = "R" then some m.R
  else if name = "V" then some m.V
  else none

/-! ### Rules -/

/-- A rule; the antecedent gives a term, or "any", to each input variable. -/
structure Rule where
  id : String
  antecedent : List (String × String)
  consequent : String
  w : ℚ

/-- `RuleBase`: the rules, in the order of the file. -/
structure RuleBase where
  rules : List Rule

/-- What the check remembers of the rules before. -/
structure RulesSeen where
  ids : List String
  covered : List (String × String × String)

/-- `sorted(set(rule.antecedent) - set(INPUT_VARIABLES))`, its first member. -/
def Rule.extraVariable (r : Rule) : Option String :=
  (((r.antecedent.map Prod.fst).filter fun v => v ≠ "T" ∧ v ≠ "R" ∧ v ≠ "V").insertionSort
    (· ≤ ·)).head?

/-- The terms that an antecedent stands for in one variable. -/
def expandTerm (i : ℕ) (r : Rule) (name : String) (v : VariableSpec) :
    Except PyError (List String) :=
  let path := "rules[" ++ toString i ++ "].if." ++ name
  match r.antecedent.lookup name with
  | none => .error (.validationError path)
  | some term =>
    if term = ANY_TERM then .ok v.termNames
    else if term ∈ v.termNames then .ok [term]
    else .error (.validationError path)

/-- `raise ConfigValidationError(…, path=path)` when the condition holds. -/
def refuseIf (p : Prop) [Decidable p] (path : String) : Except PyError Unit :=
  if p then .error (.validationError path) else .ok ()

/-- A refusal lets pass what it does not refuse. -/
@[simp] theorem refuseIf_eq_ok {p : Prop} [Decidable p] {path : String} {x : Unit} :
    refuseIf p path = .ok x ↔ ¬p := by
  unfold refuseIf
  split_ifs with hp <;> simp [hp]

/-- One rule of the loop of `validate_rulebase`. -/
def checkRule (m : MembershipConfig) (production : Bool) (i : ℕ) (r : Rule) (seen : RulesSeen) :
    Except PyError RulesSeen := do
  let rulePath := "rules[" ++ toString i ++ "]"
  refuseIf (r.id ∈ seen.ids) (rulePath ++ ".id")
  refuseIf (r.extraVariable ≠ none) (rulePath ++ ".if." ++ r.extraVariable.getD "")
  let ts ← expandTerm i r "T" m.T
  let rs ← expandTerm i r "R" m.R
  let vs ← expandTerm i r "V" m.V
  refuseIf (r.consequent ∉ m.U.termNames) (rulePath ++ ".then")
  refuseIf (¬(0 < r.w ∧ r.w ≤ 1)) (rulePath ++ ".w")
  refuseIf (production = true ∧ r.w ≠ 1) (rulePath ++ ".w")
  let combos := ts.flatMap fun t => rs.flatMap fun r => vs.map fun v => (t, r, v)
  refuseIf (∃ key ∈ combos, key ∈ seen.covered) (rulePath ++ ".if")
  return ⟨seen.ids ++ [r.id], seen.covered ++ combos⟩

/-- The rules one after another, with what the rules before have taken. -/
def checkRules (m : MembershipConfig) (production : Bool) :
    ℕ → List Rule → RulesSeen → Except PyError RulesSeen
  | _, [], seen => .ok seen
  | i, r :: rs, seen => checkRule m production i r seen >>= checkRules m production (i + 1) rs

/-- `validate_rulebase`. -/
def validateRulebase (rb : RuleBase) (m : MembershipConfig) (production requireComplete : Bool) :
    Except PyError Unit := do
  let _ ← checkRules m production 0 rb.rules ⟨[], []⟩
  refuseIf (requireComplete = true ∧
    rb.rules.length ≠ m.T.terms.length * m.R.terms.length * m.V.terms.length) "rules"

/-- The term of an input variable exists, or is "any". -/
def TermOk (r : Rule) (name : String) (v : VariableSpec) : Prop :=
  ∃ term, r.antecedent.lookup name = some term ∧ (term = ANY_TERM ∨ term ∈ v.termNames)

/-- What the check leaves to be said of a rule by itself. -/
structure RuleOk (m : MembershipConfig) (r : Rule) : Prop where
  termT : TermOk r "T" m.T
  termR : TermOk r "R" m.R
  termV : TermOk r "V" m.V
  consequent : r.consequent ∈ m.U.termNames
  w_pos : 0 < r.w
  w_le : r.w ≤ 1

/-- A term that expands names one of the variable, all of them, or some of them. -/
theorem expandTerm_ok {i : ℕ} {r : Rule} {name : String} {v : VariableSpec} {ts : List String}
    (h : expandTerm i r name v = .ok ts) : TermOk r name v := by
  unfold expandTerm at h
  cases hl : r.antecedent.lookup name with
  | none =>
    rw [hl] at h
    cases h
  | some term =>
    rw [hl] at h
    dsimp only at h
    split_ifs at h with hany hmem
    · exact ⟨term, hl, .inl hany⟩
    · exact ⟨term, hl, .inr hmem⟩

/-- A rule that passes names terms that its variables have. -/
theorem checkRule_ok {m : MembershipConfig} {production : Bool} {i : ℕ} {r : Rule}
    {seen seen' : RulesSeen} (h : checkRule m production i r seen = .ok seen') : RuleOk m r := by
  unfold checkRule at h
  obtain ⟨_, -, h⟩ := Lib.bind_eq_ok.mp h
  obtain ⟨_, -, h⟩ := Lib.bind_eq_ok.mp h
  obtain ⟨ts, hT, h⟩ := Lib.bind_eq_ok.mp h
  obtain ⟨rs, hR, h⟩ := Lib.bind_eq_ok.mp h
  obtain ⟨vs, hV, h⟩ := Lib.bind_eq_ok.mp h
  obtain ⟨_, hthen, h⟩ := Lib.bind_eq_ok.mp h
  obtain ⟨_, hw, -⟩ := Lib.bind_eq_ok.mp h
  rw [refuseIf_eq_ok, not_not] at hthen hw
  exact {
    termT := expandTerm_ok hT
    termR := expandTerm_ok hR
    termV := expandTerm_ok hV
    consequent := hthen
    w_pos := hw.1
    w_le := hw.2 }

/-- So does every rule of a list that passes, by induction on it. -/
theorem checkRules_ok {m : MembershipConfig} {production : Bool} {i : ℕ} {rs : List Rule}
    {seen seen' : RulesSeen} (h : checkRules m production i rs seen = .ok seen') :
    ∀ r ∈ rs, RuleOk m r := by
  induction rs generalizing i seen with
  | nil => simp
  | cons r rs ih =>
    obtain ⟨seen₁, hr, hrs⟩ := Lib.bind_eq_ok.mp h
    rw [List.forall_mem_cons]
    exact ⟨checkRule_ok hr, ih hrs⟩

/-- **What the check accepts**: the terms of every rule exist, and its weight is in (0; 1]. -/
theorem validateRulebase_ok {rb : RuleBase} {m : MembershipConfig}
    {production requireComplete : Bool}
    (h : validateRulebase rb m production requireComplete = .ok ()) :
    ∀ r ∈ rb.rules, RuleOk m r := by
  obtain ⟨seen, hrules, -⟩ := Lib.bind_eq_ok.mp h
  exact checkRules_ok hrules

end FuzzHelm
