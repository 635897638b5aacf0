import FuzzHelm.Fuzzy.Defuzz
import FuzzHelm.Lib.Literals
import Mathlib.Algebra.Order.Ring.Star
import Mathlib.Data.Rat.Star

namespace FuzzHelm

/-!
# The engine and its configuration

The engine is made of validated membership functions and a rule base that passes the check.  Its
tables, its groups and its strengths for each term of the output are an optimisation: the number
is the centroid of the aggregate over the rules.

* `MamdaniEngine.new` — the engine, or the error of the check;
* `plainStrength`, `plainAggregate` — the rules read by the names of their terms;
* `aggregate_eq_plain` — the aggregate over the terms of the output is that over the rules;
* `inference_rule_by_rule` — every path gives the centroid of the second.
-/

section Engine

variable (x : Exponential)

/-! ### Places and names -/

namespace VariableSpec

variable (v : VariableSpec)

/-- `lo if x < lo else hi if x > hi else x`. -/
def clip (a : ℚ) : ℚ := if a < v.lo then v.lo else if v.hi < a then v.hi else a

/-- The place of a term; "any" comes after the terms. -/
def place (term : String) : ℕ :=
  if term = ANY_TERM then v.terms.length else v.termNames.idxOf term

/-- The degree of a number in a term, or in "any". -/
def degree (term : String) (a : ℚ) : ℚ :=
  if term = ANY_TERM then 1 else ((v.terms.lookup term).map fun s => s.scalar x a).getD 0

variable {v} {term : String}

/-- The place of a term is that of one of the terms, or the one after them. -/
theorem place_le (h : term = ANY_TERM ∨ term ∈ v.termNames) : v.place term ≤ v.terms.length := by
  unfold place
  split_ifs with hany
  · exact le_refl _
  · have := List.idxOf_lt_length_iff.mpr (h.resolve_left hany)
    rw [termNames, List.length_map] at this
    exact this.le

/-- A name of the variable has a place among its terms. -/
theorem idxOf_lt (h : term ∈ v.termNames) : v.termNames.idxOf term < v.terms.length := by
  have := List.idxOf_lt_length_iff.mpr h
  rwa [termNames, List.length_map] at this

/-- No term is called like the wildcard. -/
theorem ne_any (h : term ∈ v.termNames) : term ≠ ANY_TERM := (v.names_ok term h).2

/-- The entry of a name is the one in the place of the name. -/
theorem lookup_eq {terms : List (String × MembershipSpec)} (h : term ∈ terms.map Prod.fst) :
    terms.lookup term = (terms[(terms.map Prod.fst).idxOf term]?).map Prod.snd := by
  induction terms with
  | nil => cases h
  | cons t terms ih =>
    obtain ⟨name, s⟩ := t
    rw [List.lookup_cons, List.map_cons]
    by_cases hname : term = name
    · subst hname
      simp
    · have hmem : term ∈ terms.map Prod.fst := by
        rw [List.map_cons, List.mem_cons] at h
        exact h.resolve_left hname
      rw [List.idxOf_cons_ne _ (Ne.symm hname), List.getElem?_cons_succ, ← ih hmem]
      have : (term == name) = false := beq_eq_false_iff_ne.mpr hname
      rw [this]

/-- The degree in a term is the value of the function in its place. -/
theorem degree_eq (h : term ∈ v.termNames) (a : ℚ) :
    v.degree x term a =
      (v.terms.get ⟨v.termNames.idxOf term, idxOf_lt h⟩).2.scalar x a := by
  rw [degree, if_neg (ne_any h), lookup_eq h]
  have := idxOf_lt h
  rw [termNames] at this
  rw [List.getElem?_eq_getElem this]
  rfl

/-- A degree lies in [0, 1]. -/
theorem degree_mem (a : ℚ) : 0 ≤ v.degree x term a ∧ v.degree x term a ≤ 1 := by
  unfold degree
  split_ifs
  · exact ⟨zero_le_one, le_refl _⟩
  · cases v.terms.lookup term with
    | none => exact ⟨le_refl _, zero_le_one⟩
    | some s => exact ⟨(s.function x).nonneg a, (s.function x).le_one a⟩

/-- No row of degrees has a negative entry. -/
theorem evaluate_nonneg {xs row : List ℚ} (h : row ∈ v.evaluate x xs) (j : ℕ) :
    0 ≤ row.getD j 0 := by
  obtain ⟨t, -, rfl⟩ := List.mem_map.mp h
  rw [MembershipSpec.array_eq, List.getD_eq_getElem?_getD, List.getElem?_map]
  cases xs[j]? with
  | none => exact le_refl _
  | some a => exact (t.2.function x).nonneg a

/-- The degrees of an input are those of the terms, and then 1 for the wildcard. -/
theorem degrees_eq (name : String) (a : ℚ) :
    (v.linguistic x name).degrees a =
      (v.terms.map fun t => t.2.scalar x (v.clip a)) ++ [1] := by
  rw [LinguisticVariable.degrees, LinguisticVariable.fuzzify, linguistic, List.map_map,
    List.map_map]
  rfl

/-- **The slots of the engine**: the degree in the place of a term is the degree in the term. -/
theorem degrees_place (h : term = ANY_TERM ∨ term ∈ v.termNames) (name : String) (a : ℚ) :
    ((v.linguistic x name).degrees a).getD (v.place term) 0 = v.degree x term (v.clip a) := by
  have hlen : ((v.terms.map fun t => t.2.scalar x (v.clip a))).length = v.terms.length :=
    List.length_map _
  rw [degrees_eq, List.getD_eq_getElem?_getD]
  by_cases hany : term = ANY_TERM
  · rw [place, if_pos hany, degree, if_pos hany, ← hlen, List.getElem?_concat_length]
    rfl
  · have hmem := h.resolve_left hany
    rw [place, if_neg hany, degree_eq x hmem, List.getElem?_append_left (by
      rw [hlen]
      exact idxOf_lt hmem), List.getElem?_map, List.getElem?_eq_getElem (idxOf_lt hmem)]
    rfl

end VariableSpec

/-! ### Making an engine -/

/-- `rule.antecedent[name]`, or the wildcard where the rule does not name the input. -/
def Rule.term (r : Rule) (name : String) : String := (r.antecedent.lookup name).getD ""

/-- A legal rule names a term of the variable, or leaves it open. -/
theorem TermOk.term {r : Rule} {name : String} {v : VariableSpec} (h : TermOk r name v) :
    r.term name = ANY_TERM ∨ r.term name ∈ v.termNames := by
  obtain ⟨term, hterm, hok⟩ := h
  rw [Rule.term, hterm]
  exact hok

/-- A rule as the engine keeps it. -/
def compileRule (m : MembershipConfig) (r : Rule) (h : RuleOk m r) : CompiledRule where
  id := r.id
  antecedent := r.antecedent
  consequent := r.consequent
  ti := m.T.place (r.term "T")
  ri := m.R.place (r.term "R")
  vi := m.V.place (r.term "V")
  ci := m.U.termNames.idxOf r.consequent
  w := r.w
  w_pos := h.w_pos
  w_le := h.w_le

namespace MamdaniEngine

/-- The engine of checked rules on a grid. -/
def ofGrid (m : MembershipConfig) (rb : RuleBase) (hok : ∀ r ∈ rb.rules, RuleOk m r)
    (grid w : List ℚ) : MamdaniEngine where
  varT := m.T.linguistic x "T"
  varR := m.R.linguistic x "R"
  varV := m.V.linguistic x "V"
  uNames := m.U.termNames
  uLo := m.U.lo
  uHi := m.U.hi
  grid := grid
  w := w
  muTerms := m.U.evaluate x grid
  compiled := rb.rules.pmap (compileRule m) hok
  places r hr := by
    obtain ⟨rule, hrule, rfl⟩ := List.mem_pmap.mp hr
    have hr := hok rule hrule
    simp only [compileRule, VariableSpec.linguistic, List.length_map]
    exact ⟨VariableSpec.place_le hr.termT.term, VariableSpec.place_le hr.termR.term,
      VariableSpec.place_le hr.termV.term, List.idxOf_lt_length_iff.mpr hr.consequent⟩

/-- `MamdaniEngine(membership, rulebase, scheme, nodes)`. -/
def new (m : MembershipConfig) (rb : RuleBase) (scheme : Option DefuzzScheme)
    (nodes : Option ℕ) : Except PyError MamdaniEngine :=
  match h : validateRulebase rb m false false with
  | .error err => .error err
  | .ok () => do
    let scheme := scheme.getD m.defuzz.scheme
    let nodes := nodes.getD m.defuzz.gridNodes
    let grid ← makeGrid nodes m.U.lo m.U.hi
    let w ← quadratureWeights nodes scheme m.U.lo m.U.hi
    return ofGrid x m rb (validateRulebase_ok h) grid w

variable {x} {m : MembershipConfig} {rb : RuleBase} {scheme : Option DefuzzScheme}
  {nodes : Option ℕ} {e : MamdaniEngine}

/-- What an engine is made of. -/
theorem new_ok (h : new x m rb scheme nodes = .ok e) :
    ∃ hok grid w,
      makeGrid (nodes.getD m.defuzz.gridNodes) m.U.lo m.U.hi = .ok grid ∧
      quadratureWeights (nodes.getD m.defuzz.gridNodes) (scheme.getD m.defuzz.scheme)
        m.U.lo m.U.hi = .ok w ∧
      e = ofGrid x m rb hok grid w := by
  unfold new at h
  split at h
  · cases h
  · rename_i hvalid
    obtain ⟨grid, hgrid, h⟩ := Lib.bind_eq_ok.mp h
    obtain ⟨w, hw, h⟩ := Lib.bind_eq_ok.mp h
    cases h
    exact ⟨validateRulebase_ok hvalid, grid, w, hgrid, hw, rfl⟩

end MamdaniEngine

/-! ### Rule by rule -/

/-- `α_r = w_r · min(μ_A(T), μ_B(R), μ_C(V))`. -/
def plainStrength (m : MembershipConfig) (T R V : ℚ) (r : Rule) : ℚ :=
  r.w * min (min (m.T.degree x (r.term "T") (m.T.clip T)) (m.R.degree x (r.term "R") (m.R.clip R)))
    (m.V.degree x (r.term "V") (m.V.clip V))

/-- `μ_agg(u) = max_r min(α_r, μ_D(u))`, and 0 without rules. -/
def plainAggregate (m : MembershipConfig) (rb : RuleBase) (T R V u : ℚ) : ℚ :=
  vecMax (rb.rules.map fun r => min (plainStrength x m T R V r) (m.U.degree x r.consequent u))

variable {x} {m : MembershipConfig} {rb : RuleBase}

/-- The strength of a rule is not negative. -/
theorem plainStrength_nonneg {r : Rule} (h : RuleOk m r) (T R V : ℚ) :
    0 ≤ plainStrength x m T R V r :=
  mul_nonneg h.w_pos.le (le_min (le_min (VariableSpec.degree_mem x _).1
    (VariableSpec.degree_mem x _).1) (VariableSpec.degree_mem x _).1)

/-- The activation of a compiled rule is the strength of the rule. -/
theorem compileRule_alpha {r : Rule} (h : RuleOk m r) (T R V : ℚ) :
    (compileRule m r h).alpha
      (((m.T.linguistic x "T").degrees T).getD (compileRule m r h).ti 0)
      ((m.R.linguistic x "R").degrees R) ((m.V.linguistic x "V").degrees V) =
    plainStrength x m T R V r := by
  rw [CompiledRule.alpha, plainStrength, mul_comm]
  simp only [compileRule]
  rw [VariableSpec.degrees_place x h.termT.term, VariableSpec.degrees_place x h.termR.term,
    VariableSpec.degrees_place x h.termV.term]

/-- The aggregate is not negative. -/
theorem plainAggregate_nonneg (hok : ∀ r ∈ rb.rules, RuleOk m r) (T R V u : ℚ) :
    0 ≤ plainAggregate x m rb T R V u := by
  apply vecMax_nonneg
  intro a ha
  obtain ⟨r, hr, rfl⟩ := List.mem_map.mp ha
  exact le_min (plainStrength_nonneg (hok r hr) T R V) (VariableSpec.degree_mem x u).1

namespace MamdaniEngine

variable {hok : ∀ r ∈ rb.rules, RuleOk m r} {grid w : List ℚ} {T R V : ℚ}

/-- The strengths that `infer` has after its loop. -/
def firedStrengths (e : MamdaniEngine) (T R V : ℚ) : List ℚ :=
  (fire (e.varT.degrees T) (e.varR.degrees R) (e.varV.degrees V) e.compiled
    (e.noStrengths, [])).1

/-- There is one strength for each term of the output. -/
theorem length_firedStrengths (e : MamdaniEngine) (T R V : ℚ) :
    (e.firedStrengths T R V).length = e.uNames.length := by
  rw [firedStrengths, fire_fst, length_foldl_raiseTo, noStrengths, List.length_replicate]

/-- A strength is bounded just when the rules of its term are. -/
theorem firedStrengths_le {k : ℕ} {a : ℚ} (hk : k < m.U.termNames.length) (ha : 0 ≤ a) :
    ((ofGrid x m rb hok grid w).firedStrengths T R V).getD k 0 ≤ a ↔
      ∀ r ∈ rb.rules, m.U.termNames.idxOf r.consequent = k → plainStrength x m T R V r ≤ a := by
  have hlen : k < ((ofGrid x m rb hok grid w).noStrengths).length := by
    rw [noStrengths, List.length_replicate]
    exact hk
  have hzero : ((ofGrid x m rb hok grid w).noStrengths).getD k 0 = 0 := by
    rw [noStrengths, List.length_replicate] at hlen
    simp [noStrengths, hlen]
  rw [firedStrengths, fire_fst, foldl_raiseTo_le hlen, hzero]
  constructor
  · rintro ⟨-, h⟩ r hr hk
    have hrule := hok r hr
    rw [← compileRule_alpha hrule]
    refine h ((compileRule m r hrule).ci, _) ?_ hk
    apply List.mem_map.mpr
    exact ⟨compileRule m r hrule, List.mem_pmap.mpr ⟨r, hr, rfl⟩, rfl⟩
  · intro h
    refine ⟨ha, ?_⟩
    intro c hc hk
    obtain ⟨cr, hcr, rfl⟩ := List.mem_map.mp hc
    obtain ⟨r, hr, rfl⟩ := List.mem_pmap.mp hcr
    have := h r hr hk
    rw [← compileRule_alpha (hok r hr)] at this
    exact this

/-- No strength is negative. -/
theorem firedStrengths_nonneg (e : MamdaniEngine) (T R V : ℚ) :
    ∀ b ∈ e.firedStrengths T R V, 0 ≤ b := by
  intro b hb
  obtain ⟨k, hk, rfl⟩ := List.getElem_of_mem hb
  have hn : k < e.noStrengths.length := by
    rw [noStrengths, List.length_replicate, ← length_firedStrengths e T R V]
    exact hk
  have hle := le_refl ((e.firedStrengths T R V).getD k 0)
  rw [firedStrengths, fire_fst, foldl_raiseTo_le hn] at hle
  have hzero : e.noStrengths.getD k 0 = 0 := by
    rw [noStrengths, List.length_replicate] at hn
    simp [noStrengths, hn]
  have := hle.1
  rw [hzero, ← fire_fst, ← firedStrengths, List.getD_eq_getElem _ 0 hk] at this
  exact this

/-- **The aggregate over the terms of the output is that over the rules**: `max` over the rules
    of a term can be taken before the clipping. -/
theorem aggregate_eq_plain :
    aggregate ((ofGrid x m rb hok grid w).firedStrengths T R V) (m.U.evaluate x grid) grid.length =
      grid.map (plainAggregate x m rb T R V) := by
  apply List.ext_getElem
  · simp [aggregate]
  intro j hj hj'
  have hj : j < grid.length := by simpa using hj'
  simp only [aggregate, List.getElem_map, List.getElem_range]
  have hterms : (m.U.evaluate x grid).length = m.U.terms.length := List.length_map _
  have hlen : ((ofGrid x m rb hok grid w).firedStrengths T R V).length =
      (m.U.evaluate x grid).length := by
    rw [length_firedStrengths, hterms]
    exact List.length_map _
  -- the node of a row of the table is the function of its term
  have hrow : ∀ r ∈ rb.rules, ((m.U.evaluate x grid).getD
      (m.U.termNames.idxOf r.consequent) []).getD j 0 = m.U.degree x r.consequent grid[j] := by
    intro r hr
    have hmem := (hok r hr).consequent
    have hk := VariableSpec.idxOf_lt hmem
    rw [VariableSpec.degree_eq x hmem, List.getD_eq_getElem _ [] (by omega)]
    simp only [VariableSpec.evaluate, List.getElem_map, MembershipSpec.array_eq]
    rw [List.getD_eq_getElem _ 0 (by simpa using hj), List.getElem_map]
    rfl
  apply eq_of_same_bounds
  · apply vecMax_nonneg
    intro b hb
    obtain ⟨k, hk, rfl⟩ := List.getElem_of_mem hb
    rw [List.getElem_zipWith]
    exact le_min (firedStrengths_nonneg _ T R V _ (List.getElem_mem _))
      (VariableSpec.evaluate_nonneg x (List.getElem_mem _) j)
  · exact plainAggregate_nonneg hok T R V _
  intro a ha
  rw [aggregateNode_le hlen ha, plainAggregate, vecMax_le ha]
  constructor
  · intro h b hb
    obtain ⟨r, hr, rfl⟩ := List.mem_map.mp hb
    have hk := VariableSpec.idxOf_lt (hok r hr).consequent
    rw [min_le_iff]
    rcases h (m.U.termNames.idxOf r.consequent) (by omega) with hbeta | hmu
    · left
      rw [firedStrengths_le (List.idxOf_lt_length_iff.mpr (hok r hr).consequent) ha] at hbeta
      exact hbeta r hr rfl
    · right
      rwa [hrow r hr] at hmu
  · intro h k hk
    by_cases hmu : ((m.U.evaluate x grid).getD k []).getD j 0 ≤ a
    · exact .inr hmu
    · -- a term that is above the bound here bounds the rules that have it
      left
      rw [firedStrengths_le (by rw [VariableSpec.termNames, List.length_map]; omega) ha]
      intro r hr hkr
      have hmin := h _ (List.mem_map.mpr ⟨r, hr, rfl⟩)
      rw [← hrow r hr, hkr, min_le_iff] at hmin
      exact hmin.resolve_right hmu

/-- The neutral output of the empty activation is that of a centroid without an area. -/
theorem infer_uRaw_eq (hw : ∀ a ∈ w, 0 < a) :
    ((ofGrid x m rb hok grid w).infer T R V).uRaw =
      centroidWeighted w (List.zipWith (· * ·) w grid) (grid.map (plainAggregate x m rb T R V))
        m.U.lo m.U.hi := by
  -- the node values of the engine are those of the rule base
  have hplain : aggregate ((ofGrid x m rb hok grid w).firedStrengths T R V) (m.U.evaluate x grid)
      grid.length = grid.map (plainAggregate x m rb T R V) := aggregate_eq_plain
  rw [← hplain]
  show (if vecMax ((ofGrid x m rb hok grid w).firedStrengths T R V) ≤ 0 then 0 else
    centroidWeighted w (List.zipWith (· * ·) w grid) _ m.U.lo m.U.hi) = _
  -- no rule fired: every node is 0, and the weighted centroid answers 0 as well
  split_ifs with hempty
  · have hnone : ∀ b ∈ aggregate ((ofGrid x m rb hok grid w).firedStrengths T R V)
        (m.U.evaluate x grid) grid.length, b ≤ 0 := by
      intro b hb
      obtain ⟨j, -, rfl⟩ := List.mem_map.mp hb
      rw [vecMax_le (le_refl 0)] at hempty ⊢
      intro b hb
      obtain ⟨k, hk, rfl⟩ := List.getElem_of_mem hb
      rw [List.getElem_zipWith]
      exact (min_le_left _ _).trans (hempty _ (List.getElem_mem _))
    unfold centroidWeighted
    rw [if_pos (not_lt.mpr (dot_nonpos hw hnone))]
  · rfl

end MamdaniEngine

/-! ### The optimised inference -/

variable {scheme : Option DefuzzScheme} {nodes : Option ℕ} {e : MamdaniEngine}

/-- **The optimised inference.**  For every configuration that is accepted and every input,
    `infer_u` and `infer` agree, and both are the centroid of what the rules, taken one by one, give
    at each node of the grid. -/
theorem inference_rule_by_rule (h : MamdaniEngine.new x m rb scheme nodes = .ok e) (T R V : ℚ) :
    makeGrid (nodes.getD m.defuzz.gridNodes) m.U.lo m.U.hi = .ok e.grid ∧
    e.inferU T R V = (e.infer T R V).uRaw ∧
    (e.infer T R V).muAgg = e.grid.map (plainAggregate x m rb T R V) ∧
    centroid e.grid (e.grid.map (plainAggregate x m rb T R V)) (scheme.getD m.defuzz.scheme) =
      .ok (e.inferU T R V) := by
  obtain ⟨hok, grid, w, hgrid, hw, rfl⟩ := MamdaniEngine.new_ok h
  refine ⟨hgrid, MamdaniEngine.inferU_eq _ T R V, MamdaniEngine.aggregate_eq_plain, ?_⟩
  obtain ⟨hhead, hlast⟩ := makeGrid_ends hgrid
  have hweights : quadratureWeights grid.length (scheme.getD m.defuzz.scheme) m.U.lo m.U.hi =
      .ok w := by
    rw [length_makeGrid hgrid]
    exact hw
  rw [MamdaniEngine.inferU_eq, MamdaniEngine.infer_uRaw_eq (quadratureWeights_pos hw m.U.lo_lt_hi)]
  show centroid grid (grid.map _) _ = _
  unfold centroid
  rw [if_neg (by simp), hhead, hlast]
  simp only [Option.getD_some]
  rw [hweights]
  rfl

end Engine

/-! ### A configuration with two terms for each variable -/

/-- `1 / (1 - y)` is 1 at 0 and falls towards 0, as the exponential does. -/
def rationalExponential : Exponential where
  exp y := 1 / (1 - y)
  nonneg y hy := div_nonneg zero_le_one (by linarith)
  le_one y hy := (div_le_one (by linarith)).mpr (by linarith)

/-- Two terms that cross in the middle of the range. -/
def crossingTerms (lo mid hi : ℚ) (hlo : lo < mid) (hhi : mid < hi) : VariableSpec where
  lo := lo
  hi := hi
  lo_lt_hi := hlo.trans hhi
  terms := [("LOW", .trapezoidal (tri lo lo hi (le_refl lo) (by linarith) (by linarith))),
    ("HIGH", .trapezoidal (tri lo hi hi (by linarith) (le_refl hi) (by linarith)))]
  terms_ne := by simp
  names_nodup := by
    show ["LOW", "HIGH"].Nodup
    decide
  names_ok := by
    show ∀ name ∈ ["LOW", "HIGH"], name ≠ "" ∧ name ≠ ANY_TERM
    decide

/-- The inputs lie between -1 and 1, the output in the range that is given. -/
def crossingMembership (lo mid hi : ℚ) (hlo : lo < mid) (hhi : mid < hi) : MembershipConfig where
  T := crossingTerms (-1) 0 1 (by norm_num) Lib.one_pos_rat
  R := crossingTerms (-1) 0 1 (by norm_num) Lib.one_pos_rat
  V := crossingTerms (-1) 0 1 (by norm_num) Lib.one_pos_rat
  U := crossingTerms lo mid hi hlo hhi
  defuzz := ⟨.trapezoid, 3, by decide, by decide⟩

/-- A partial rule base with "any" and with a weight. -/
def partialRules : RuleBase :=
  ⟨[⟨"R01", [("T", "HIGH"), ("R", "any"), ("V", "any")], "HIGH", 1⟩,
    ⟨"R02", [("T", "LOW"), ("R", "HIGH"), ("V", "any")], "LOW", 1 / 2⟩]⟩

/-- A check that passes gives an engine. -/
theorem MamdaniEngine.exists_of_isOk {r : Except PyError MamdaniEngine} (h : r.isOk = true) :
    ∃ e, r = .ok e := by
  cases r with
  | error err => cases h
  | ok e => exact ⟨e, rfl⟩

/-- With rules for a part of the inputs alone, the inference still is the centroid rule by rule. -/
theorem inference_rule_by_rule_partial :
    ∃ e, MamdaniEngine.new rationalExponential
        (crossingMembership (-1) 0 1 (by norm_num) (by norm_num)) partialRules none none = .ok e ∧
      centroid e.grid (e.grid.map (plainAggregate rationalExponential
        (crossingMembership (-1) 0 1 (by norm_num) (by norm_num)) partialRules (1 / 2) 0 0))
        .trapezoid = .ok (e.inferU (1 / 2) 0 0) := by
  obtain ⟨e, he⟩ := MamdaniEngine.exists_of_isOk (r := MamdaniEngine.new rationalExponential
    (crossingMembership (-1) 0 1 (by norm_num) (by norm_num)) partialRules none none)
    (by decide +kernel)
  obtain ⟨-, -, -, hcentroid⟩ := inference_rule_by_rule he (1 / 2) 0 0
  exact ⟨e, he, hcentroid⟩

end FuzzHelm
