import FuzzHelm.Risk.Verdict
import Mathlib.Algebra.BigOperators.Ring.List
import Mathlib.Algebra.GroupWithZero.Defs

namespace FuzzHelm

open Lib

/-!
# Verdicts form a commutative monoid with zero

`ALLOW` is the one, `VETO` the zero, and a chain is the product of its verdicts, so neither
order nor grouping matters.

* `composeChecked` — the chain with the checks of the constructor: they never raise;
* `compose_eq_prod` — a chain is a product in the monoid;
* `Grouping` — chains nested in chains, to any depth;
* `verdict_algebra` — the law.
-/

namespace Verdict

attribute [local ext] ext_factor

/-! ### The constructor never raises -/

/-- `__post_init__`: a factor outside the range of its kind raises. -/
def make (kind : VerdictKind) (factor : ℚ) : Except PyError Verdict :=
  if h : kind.Admits factor then .ok ⟨kind, factor, h⟩
  else .error (.valueError "factor out of the range of its kind")

/-- The loop of `compose` over a bare product, which the constructor checks at its end. -/
def checkedLoop : List Verdict → ℚ → Bool → Except PyError Verdict
  | [], product, shrunk => if shrunk then make .shrink product else .ok allow
  | v :: vs, product, shrunk =>
    match v.kind with
    | .veto => .ok veto
    | .shrink => checkedLoop vs (product * v.factor) true
    | .allow => checkedLoop vs product shrunk

/-- `compose`, with the checks of the constructor of its verdict. -/
def composeChecked (vs : List Verdict) : Except PyError Verdict := checkedLoop vs 1 false

/-- The running product of a chain stays in the range that the constructor admits. -/
theorem checkedLoop_eq (vs : List Verdict) (r : Running) :
    checkedLoop vs r.product r.shrunk = .ok (composeLoop vs r) := by
  induction vs generalizing r with
  | nil =>
    have hinv := r.inv
    show (if r.shrunk then make .shrink r.product else .ok allow) = .ok r.finish
    unfold Running.finish
    split
    · rename_i hs
      rw [if_pos hs] at hinv
      exact dif_pos (show VerdictKind.shrink.Admits r.product from hinv)
    · rfl
  | cons v vs ih =>
    obtain ⟨kind, f, hf⟩ := v
    cases kind with
    | allow => exact ih r
    | shrink => exact ih (r.mul f hf)
    | veto => rfl

/-- The checked composition returns for verdicts, and is the plain one. -/
theorem composeChecked_eq (vs : List Verdict) : composeChecked vs = .ok (compose vs) :=
  checkedLoop_eq vs Running.start

/-! ### The monoid -/

/-- The verdict that allows is the one of the product. -/
instance : One Verdict := ⟨allow⟩
/-- The veto is its zero. -/
instance : Zero Verdict := ⟨veto⟩
/-- The product of two verdicts is their composition. -/
instance : Mul Verdict := ⟨fun v w => compose [v, w]⟩

/-- The factor of the one. -/
@[simp] theorem one_factor : (1 : Verdict).factor = 1 := rfl
/-- The factor of the zero. -/
@[simp] theorem zero_factor : (0 : Verdict).factor = 0 := rfl

/-- The factor of a product. -/
@[simp] theorem mul_factor (v w : Verdict) : (v * w).factor = v.factor * w.factor := by
  show (compose [v, w]).factor = _
  simp [compose_factor]

/-- Associativity, commutativity and the two constants come from the factors, which are
    rational numbers. -/
instance : CommMonoidWithZero Verdict where
  mul_assoc u v w := by ext; simp [mul_assoc]
  mul_comm v w := by ext; simp [mul_comm]
  one_mul v := by ext; simp
  mul_one v := by ext; simp
  zero_mul v := by ext; simp
  mul_zero v := by ext; simp

/-- **A chain is the product of its verdicts.** -/
theorem compose_eq_prod (vs : List Verdict) : compose vs = vs.prod := by
  ext
  induction vs with
  | nil => rfl
  | cons v vs ih =>
    rw [List.prod_cons, mul_factor, ← ih]
    simp [compose_factor]

/-! ### Nested chains -/

/-- A verdict, or a chain of groupings. -/
inductive Grouping where
  | verdict (v : Verdict)
  | chain (gs : List Grouping)

namespace Grouping

mutual

/-- The verdict of a grouping: every chain in it is composed. -/
def eval : Grouping → Verdict
  | .verdict v => v
  | .chain gs => compose (evalAll gs)

/-- The verdicts of some groupings. -/
def evalAll : List Grouping → List Verdict
  | [] => []
  | g :: gs => g.eval :: evalAll gs

end

mutual

/-- The verdicts of a grouping, from left to right. -/
def leaves : Grouping → List Verdict
  | .verdict v => [v]
  | .chain gs => leavesAll gs

/-- The leaves of some groupings. -/
def leavesAll : List Grouping → List Verdict
  | [] => []
  | g :: gs => g.leaves ++ leavesAll gs

end

mutual

/-- **A grouping is the product of its leaves**, by induction on it. -/
theorem eval_eq_prod : ∀ g : Grouping, g.eval = g.leaves.prod
  | .verdict v => by simp [eval, leaves]
  | .chain gs => by rw [eval, leaves, compose_eq_prod, evalAll_prod gs]

/-- So are groupings together. -/
theorem evalAll_prod : ∀ gs : List Grouping, (evalAll gs).prod = (leavesAll gs).prod
  | [] => rfl
  | g :: gs => by
    rw [evalAll, leavesAll, List.prod_cons, List.prod_append, eval_eq_prod g, evalAll_prod gs]

end

end Grouping

/-! ### The law -/

/-- One verdict more leaves no more. -/
theorem compose_append_le (vs : List Verdict) (w : Verdict) {q : Decimal} (hq : 0 ≤ q) :
    (compose (vs ++ [w])).allowed q ≤ (compose vs).allowed q := by
  apply allowed_le_allowed hq
  rw [compose_eq_prod, List.prod_append, ← compose_eq_prod, mul_factor]
  exact mul_le_of_le_one_right (compose vs).factor_nonneg (factor_le_one _)

/-- **The verdict algebra.** Composing a chain never raises and gives a verdict in the range of
    its kind; a grouping of a permutation of the chain, to any depth, gives the same one;
    `ALLOW` is the neutral and `VETO` the absorbing element.  A non-negative request is cut to
    at most what each verdict of the chain leaves of it, rounding included, and a verdict
    appended to the chain never raises that. -/
theorem verdict_algebra (vs : List Verdict) :
    (composeChecked vs = .ok (compose vs) ∧ (compose vs).kind.Admits (compose vs).factor) ∧
    (∀ g : Grouping, g.leaves.Perm vs → g.eval = compose vs) ∧
    (∀ ws, ws.Perm vs → compose ws = compose vs) ∧
    (compose [] = allow ∧ ∀ ws us, vs = ws ++ us → compose (ws ++ allow :: us) = compose vs) ∧
    (veto ∈ vs → compose vs = veto) ∧
    ∀ q, 0 ≤ q → ∃ x, (compose vs).exposure q = .ok x ∧ x ≤ q ∧
      (∀ v ∈ vs, ∃ y, v.exposure q = .ok y ∧ x ≤ y ∧ y ≤ q) ∧
      ∀ w, ∃ z, (compose (vs ++ [w])).exposure q = .ok z ∧ z ≤ x := by
  refine ⟨⟨composeChecked_eq vs, (compose vs).admits⟩, ?_, ?_, ⟨rfl, ?_⟩, ?_, ?_⟩
  · intro g hg
    rw [g.eval_eq_prod, compose_eq_prod, hg.prod_eq]
  · intro ws hws
    rw [compose_eq_prod, compose_eq_prod, hws.prod_eq]
  · rintro ws us rfl
    have hone : (allow : Verdict) = 1 := rfl
    simp [compose_eq_prod, hone]
  -- one veto makes the product 0
  · intro hv
    have hzero : (veto : Verdict) = 0 := rfl
    rw [compose_eq_prod, hzero]
    exact List.prod_eq_zero (hzero ▸ hv)
  · intro q hq
    refine ⟨_, exposure_of_nonneg _ hq, allowed_le _ hq, ?_, ?_⟩
    · intro v hv
      exact ⟨_, exposure_of_nonneg v hq, allowed_compose_le vs hv hq, allowed_le v hq⟩
    · intro w
      exact ⟨_, exposure_of_nonneg _ hq, compose_append_le vs w hq⟩

/-- Two halvings around an `ALLOW`: nested the other way round they leave the same quarter. -/
theorem verdict_algebra_sample :
    let half : Verdict := ⟨.shrink, 1 / 2, by decide +kernel⟩
    Grouping.eval (.chain [.chain [.verdict half, .verdict half], .verdict allow]) =
        compose [half, allow, half] ∧
      ∃ x, (compose [half, allow, half]).exposure 10 = .ok x ∧
        x ≤ 10 ∧ ∃ y, half.exposure 10 = .ok y ∧ x ≤ y := by
  intro half
  have hlaw := verdict_algebra [half, allow, half]
  obtain ⟨x, hx, hle, hall, -⟩ := hlaw.2.2.2.2.2 10 (by norm_num)
  obtain ⟨y, hy, hxy, -⟩ := hall half (by simp)
  refine ⟨hlaw.2.1 _ ?_, x, hx, hle, y, hy, hxy⟩
  show [half, half, allow].Perm [half, allow, half]
  exact (List.Perm.swap ..).cons half

end Verdict

end FuzzHelm
