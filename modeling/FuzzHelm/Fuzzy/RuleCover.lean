import FuzzHelm.Fuzzy.Engine
import Mathlib.Data.List.Perm.Subperm
import Mathlib.Data.List.Nodup
import Mathlib.Algebra.BigOperators.Group.List.Basic

namespace FuzzHelm

/-!
# What a complete rule base covers

The check of a rule base expands "any", refuses what has been covered before and, where the base
must be complete, only counts the rules.

* `Rule.combos` — the combinations that a rule stands for;
* `checkRules_iff` — the loop accepts legal rules whose combinations do not meet;
* `rulebase_exact` — a base is accepted as complete just when its rules are legal, every
  combination is matched by one rule, and there is a rule for each combination.
-/

/-- A combination of terms of `T`, `R` and `V`. -/
abbrev Combo := String × String × String

/-- All combinations of the terms. -/
def MembershipConfig.combos (m : MembershipConfig) : List Combo :=
  m.T.termNames ×ˢ m.R.termNames ×ˢ m.V.termNames

/-- The terms that an antecedent stands for in one variable. -/
def Rule.expanded (r : Rule) (name : String) (v : VariableSpec) : List String :=
  if r.term name = ANY_TERM then v.termNames else [r.term name]

/-- The combinations that a rule stands for. -/
def Rule.combos (r : Rule) (m : MembershipConfig) : List Combo :=
  r.expanded "T" m.T ×ˢ r.expanded "R" m.R ×ˢ r.expanded "V" m.V

/-- A term of an antecedent matches a term. -/
def Rule.matchesTerm (r : Rule) (name term : String) : Bool :=
  r.term name = ANY_TERM ∨ r.term name = term

/-- **A rule matches a combination.** -/
def Rule.matches (r : Rule) (c : Combo) : Bool :=
  r.matchesTerm "T" c.1 && r.matchesTerm "R" c.2.1 && r.matchesTerm "V" c.2.2

/-- **A legal rule**: it speaks of the input variables only, its terms exist, and its weight is
    in (0; 1], in production 1. -/
structure Rule.Legal (r : Rule) (m : MembershipConfig) (production : Bool) : Prop where
  inputs : ∀ name ∈ r.antecedent.map Prod.fst, name = "T" ∨ name = "R" ∨ name = "V"
  ok : RuleOk m r
  unweighted : production = true → r.w = 1

section Expansion

variable {m : MembershipConfig} {production : Bool} {i : ℕ} {r : Rule} {name : String}
  {v : VariableSpec} {c : Combo}

/-- A rule has no extra variable when it names the three inputs alone. -/
theorem extraVariable_eq_none : r.extraVariable = none ↔
    ∀ name ∈ r.antecedent.map Prod.fst, name = "T" ∨ name = "R" ∨ name = "V" := by
  rw [Rule.extraVariable, List.head?_eq_none_iff, ← List.length_eq_zero_iff,
    List.length_insertionSort, List.length_eq_zero_iff, List.filter_eq_nil_iff]
  refine forall₂_congr fun name _ => ?_
  rw [decide_eq_true_iff]
  tauto

/-- A term expands just when it is legal, and then to the names that it stands for. -/
theorem expandTerm_iff {ts : List String} :
    expandTerm i r name v = .ok ts ↔ TermOk r name v ∧ ts = r.expanded name v := by
  unfold expandTerm TermOk Rule.expanded Rule.term
  cases r.antecedent.lookup name with
  | none => simp
  | some term =>
    dsimp only [Option.getD_some]
    split_ifs with hany hmem
    · simp [hany, eq_comm]
    · simp [hmem, eq_comm]
    · simp [hany, hmem]

/-- What a term stands for has no repetitions. -/
theorem expanded_nodup (r : Rule) (name : String) (v : VariableSpec) :
    (r.expanded name v).Nodup := by
  unfold Rule.expanded
  split_ifs
  · exact v.names_nodup
  · exact List.nodup_singleton _

/-- What a term stands for are names of the variable. -/
theorem expanded_subset (h : TermOk r name v) : r.expanded name v ⊆ v.termNames := by
  unfold Rule.expanded
  split_ifs with hany
  · exact fun _ h => h
  · intro term hterm
    rw [List.mem_singleton.mp hterm]
    exact h.term.resolve_left hany

/-- A term always stands for something. -/
theorem expanded_ne_nil (r : Rule) (name : String) (v : VariableSpec) : r.expanded name v ≠ [] := by
  unfold Rule.expanded
  split_ifs
  · intro h
    exact v.terms_ne (List.map_eq_nil_iff.mp h)
  · exact List.cons_ne_nil _ _

/-- A name is among those that a term stands for just when the term matches it. -/
theorem mem_expanded {term : String} (hterm : term ∈ v.termNames) :
    term ∈ r.expanded name v ↔ r.matchesTerm name term = true := by
  unfold Rule.expanded Rule.matchesTerm
  rw [decide_eq_true_iff]
  split_ifs with hany
  · exact ⟨fun _ => .inl hany, fun _ => hterm⟩
  · rw [List.mem_singleton]
    exact ⟨fun h => .inr h.symm, fun h => (h.resolve_left hany).symm⟩

/-- The combinations of a rule have no repetitions. -/
theorem Rule.combos_nodup (r : Rule) (m : MembershipConfig) : (r.combos m).Nodup :=
  (expanded_nodup r "T" m.T).product
    ((expanded_nodup r "R" m.R).product (expanded_nodup r "V" m.V))

/-- The combinations of a legal rule are among those of the variables. -/
theorem Rule.combos_subset (h : RuleOk m r) : r.combos m ⊆ m.combos := by
  rintro ⟨t, s, v⟩ hc
  simp only [Rule.combos, MembershipConfig.combos, List.mem_product] at hc ⊢
  exact ⟨expanded_subset h.termT hc.1, expanded_subset h.termR hc.2.1,
    expanded_subset h.termV hc.2.2⟩

/-- A rule has at least one combination. -/
theorem Rule.combos_length_pos (r : Rule) (m : MembershipConfig) : 0 < (r.combos m).length := by
  have hT := List.length_pos_iff.mpr (expanded_ne_nil r "T" m.T)
  have hR := List.length_pos_iff.mpr (expanded_ne_nil r "R" m.R)
  have hV := List.length_pos_iff.mpr (expanded_ne_nil r "V" m.V)
  rw [Rule.combos, List.length_product, List.length_product]
  exact Nat.mul_pos hT (Nat.mul_pos hR hV)

/-- A rule stands for the combinations that it matches. -/
theorem Rule.mem_combos (hc : c ∈ m.combos) : c ∈ r.combos m ↔ r.matches c = true := by
  obtain ⟨t, s, v⟩ := c
  simp only [Rule.combos, MembershipConfig.combos, List.mem_product] at hc ⊢
  rw [mem_expanded hc.1, mem_expanded hc.2.1, mem_expanded hc.2.2, Rule.matches,
    Bool.and_eq_true, Bool.and_eq_true, and_assoc]

/-- There is one combination for each choice of three terms. -/
theorem MembershipConfig.length_combos (m : MembershipConfig) :
    m.combos.length = m.T.terms.length * m.R.terms.length * m.V.terms.length := by
  simp only [MembershipConfig.combos, List.length_product, VariableSpec.termNames,
    List.length_map, Nat.mul_assoc]

end Expansion

/-! ### The loop -/

section Loop

variable {m : MembershipConfig} {production : Bool} {i : ℕ} {r : Rule} {rs : List Rule}
  {seen seen' : RulesSeen}

/-- A rule passes just when it is legal, has a new identifier and covers nothing twice; it then
    takes its identifier and its combinations. -/
theorem checkRule_iff : checkRule m production i r seen = .ok seen' ↔
    r.Legal m production ∧ r.id ∉ seen.ids ∧ (∀ c ∈ r.combos m, c ∉ seen.covered) ∧
      seen' = ⟨seen.ids ++ [r.id], seen.covered ++ r.combos m⟩ := by
  have hcombos : (r.expanded "T" m.T).flatMap (fun t => (r.expanded "R" m.R).flatMap fun s =>
      (r.expanded "V" m.V).map fun v => (t, s, v)) = r.combos m := by
    show _ = (r.expanded "T" m.T).flatMap fun t =>
      ((r.expanded "R" m.R).flatMap fun s => (r.expanded "V" m.V).map (Prod.mk s)).map (Prod.mk t)
    simp only [List.map_flatMap, List.map_map]
    rfl
  simp only [checkRule, Lib.bind_eq_ok, refuseIf_eq_ok, expandTerm_iff]
  constructor
  · rintro ⟨-, hid, -, hextra, _, ⟨hT, rfl⟩, _, ⟨hR, rfl⟩, _, ⟨hV, rfl⟩, -, hthen, -, hw, -, hprod,
      -, hdup, heq⟩
    rw [hcombos] at hdup heq
    rw [not_not] at hextra hthen hw
    cases heq
    refine ⟨⟨extraVariable_eq_none.mp hextra, ⟨hT, hR, hV, hthen, hw.1, hw.2⟩, ?_⟩, hid, ?_, rfl⟩
    · intro hproduction
      by_contra hne
      exact hprod ⟨hproduction, hne⟩
    · exact fun c hc hseen => hdup ⟨c, hc, hseen⟩
  -- a legal rule passes them, and so does a new id with new combinations
  · rintro ⟨hlegal, hid, hdup, rfl⟩
    refine ⟨(), hid, (), not_not.mpr (extraVariable_eq_none.mpr hlegal.inputs),
      _, ⟨hlegal.ok.termT, rfl⟩, _, ⟨hlegal.ok.termR, rfl⟩, _, ⟨hlegal.ok.termV, rfl⟩,
      (), not_not.mpr hlegal.ok.consequent, (), not_not.mpr ⟨hlegal.ok.w_pos, hlegal.ok.w_le⟩,
      (), fun h => h.2 (hlegal.unweighted h.1), (), ?_, ?_⟩
    · rw [hcombos]
      rintro ⟨c, hc, hseen⟩
      exact hdup c hc hseen
    · rw [hcombos]
      rfl

/-- **The loop** accepts legal rules under different names whose combinations do not meet. -/
theorem checkRules_iff {s : RulesSeen} (hids : s.ids.Nodup) (hcovered : s.covered.Nodup) :
    (∃ seen', checkRules m production i rs s = .ok seen') ↔
      (∀ r ∈ rs, r.Legal m production) ∧ (s.ids ++ rs.map Rule.id).Nodup ∧
        (s.covered ++ rs.flatMap fun r => r.combos m).Nodup := by
  -- by induction on the rules, for whatever ids and combinations are seen before
  induction rs generalizing i s with
  | nil => simp [checkRules, hids, hcovered]
  | cons r rs ih =>
    simp only [checkRules, Lib.bind_eq_ok, checkRule_iff, List.forall_mem_cons, List.map_cons,
      List.flatMap_cons]
    constructor
    -- what the first rule adds is free of repetitions, so the rest can be judged
    · rintro ⟨seen', _, ⟨hlegal, hid, hdup, rfl⟩, hrest⟩
      have hids' : (s.ids ++ [r.id]).Nodup := by
        rw [← List.concat_eq_append]
        exact hids.concat hid
      have hcovered' : (s.covered ++ r.combos m).Nodup :=
        hcovered.append (r.combos_nodup m) fun c hseen hc => hdup c hc hseen
      obtain ⟨hlegals, hnames, hcombos⟩ := (ih hids' hcovered').mp ⟨seen', hrest⟩
      rw [List.append_assoc] at hnames hcombos
      exact ⟨⟨hlegal, hlegals⟩, hnames, hcombos⟩
    -- no repetition in the whole list means none in the part seen so far
    · rintro ⟨⟨hlegal, hlegals⟩, hnames, hcombos⟩
      have hnames' : (s.ids ++ [r.id] ++ rs.map Rule.id).Nodup := by
        rw [List.append_assoc]
        exact hnames
      rw [← List.append_assoc] at hcombos
      have hids' := hnames'.of_append_left
      have hcovered' := hcombos.of_append_left
      obtain ⟨seen', hrest⟩ := (ih (i := i + 1)
        (s := ⟨s.ids ++ [r.id], s.covered ++ r.combos m⟩) hids' hcovered').mpr
        ⟨hlegals, hnames', hcombos⟩
      refine ⟨seen', _, ⟨hlegal, ?_, ?_, rfl⟩, hrest⟩
      · intro hid
        exact (List.nodup_append.mp hids').2.2 _ hid _ (List.mem_singleton_self _) rfl
      · intro c hc hseen
        exact (List.nodup_append.mp hcovered').2.2 _ hseen _ hc rfl

/-- How often a combination is covered: once for each rule that matches it. -/
theorem count_combos {c : Combo} (hc : c ∈ m.combos) (rs : List Rule) :
    (rs.flatMap fun r => r.combos m).count c = rs.countP fun r => r.matches c := by
  induction rs with
  | nil => rfl
  | cons r rs ih =>
    rw [List.flatMap_cons, List.count_append, ih, List.countP_cons]
    by_cases hmatch : r.matches c = true
    · have hmem := (Rule.mem_combos hc).mpr hmatch
      rw [if_pos hmatch, List.count_eq_one_of_mem (r.combos_nodup m) hmem]
      omega
    · rw [if_neg hmatch, List.count_eq_zero.mpr fun h => hmatch ((Rule.mem_combos hc).mp h)]
      omega

end Loop

/-! ### Complete bases -/

section Complete

variable {m : MembershipConfig} {production : Bool} {rb : RuleBase} {rs : List Rule}

/-- Legal rules stand for some of the combinations. -/
theorem flatMap_combos_subset (h : ∀ r ∈ rs, r.Legal m production) :
    (rs.flatMap fun r => r.combos m) ⊆ m.combos := by
  intro c hc
  obtain ⟨r, hr, hc⟩ := List.mem_flatMap.mp hc
  exact Rule.combos_subset (h r hr).ok hc

/-- There are no more rules than combinations that they cover. -/
theorem length_le_flatMap_combos (m : MembershipConfig) (rs : List Rule) :
    rs.length ≤ (rs.flatMap fun r => r.combos m).length := by
  induction rs with
  | nil => exact Nat.zero_le _
  | cons r rs ih =>
    have hpos := r.combos_length_pos m
    rw [List.length_cons, List.flatMap_cons, List.length_append]
    omega

/-- **The count decides.**  As many rules as combinations, none of which is covered twice, cover
    each of them once. -/
theorem covered_once (hlegal : ∀ r ∈ rs, r.Legal m production)
    (hlength : rs.length = m.combos.length) :
    (rs.flatMap fun r => r.combos m).Nodup ↔
      ∀ c ∈ m.combos, (rs.countP fun r => r.matches c) = 1 := by
  constructor
  · intro hnodup c hc
    have hsub := hnodup.subperm (flatMap_combos_subset hlegal)
    have hperm := hsub.perm_of_length_le (hlength ▸ length_le_flatMap_combos m rs)
    rw [← count_combos hc]
    exact List.count_eq_one_of_mem hnodup (hperm.mem_iff.mpr hc)
  · intro honce
    rw [List.nodup_iff_count_le_one]
    intro c
    by_cases hc : c ∈ m.combos
    · rw [count_combos hc, honce c hc]
    · rw [List.count_eq_zero.mpr fun h => hc (flatMap_combos_subset hlegal h)]
      exact Nat.zero_le 1

/-- **The rule base, exactly.**  In production a base passes just when each rule is legal, the
    identifiers differ, each combination is matched by exactly one rule, and there are as many rules
    as combinations. -/
theorem rulebase_exact : validateRulebase rb m production true = .ok () ↔
    ((∀ r ∈ rb.rules, r.Legal m production) ∧ (rb.rules.map Rule.id).Nodup) ∧
      (∀ c ∈ m.combos, (rb.rules.countP fun r => r.matches c) = 1) ∧
      rb.rules.length = m.combos.length := by
  have hloop : (∃ seen, checkRules m production 0 rb.rules ⟨[], []⟩ = .ok seen) ↔ _ :=
    checkRules_iff List.nodup_nil List.nodup_nil
  rw [List.nil_append, List.nil_append] at hloop
  rw [validateRulebase, Lib.bind_eq_ok, ← m.length_combos]
  constructor
  · rintro ⟨seen, hrules, hcount⟩
    obtain ⟨hlegal, hids, hcombos⟩ := hloop.mp ⟨seen, hrules⟩
    have hlength : rb.rules.length = m.combos.length := by
      rw [refuseIf_eq_ok, not_and_not_right] at hcount
      exact hcount rfl
    exact ⟨⟨hlegal, hids⟩, (covered_once hlegal hlength).mp hcombos, hlength⟩
  · rintro ⟨⟨hlegal, hids⟩, honce, hlength⟩
    obtain ⟨seen, hrules⟩ := hloop.mpr ⟨hlegal, hids, (covered_once hlegal hlength).mpr honce⟩
    refine ⟨seen, hrules, ?_⟩
    rw [refuseIf_eq_ok]
    exact fun h => h.2 hlength

end Complete

/-- A base of one rule that does not look at its inputs. -/
def anyRules : RuleBase := ⟨[⟨"R01", [("T", "any"), ("R", "any"), ("V", "any")], "HIGH", 1⟩]⟩

/-- **A base with "any" is refused**, although its rule is legal and alone in matching every
    combination. -/
theorem any_base_refused : ¬∀ (m : MembershipConfig) (rb : RuleBase),
    (∀ r ∈ rb.rules, r.Legal m true) → (rb.rules.map Rule.id).Nodup →
      (∀ c ∈ m.combos, (rb.rules.countP fun r => r.matches c) = 1) →
      validateRulebase rb m true true = .ok () := by
  intro h
  have hlegal : ∀ r ∈ anyRules.rules, r.Legal
      (crossingMembership (-1) 0 1 (by norm_num) (by norm_num)) true := by
    rintro r hr
    cases List.mem_singleton.mp hr
    exact {
      inputs := by decide
      ok := {
        termT := ⟨"any", rfl, .inl rfl⟩
        termR := ⟨"any", rfl, .inl rfl⟩
        termV := ⟨"any", rfl, .inl rfl⟩
        consequent := by decide
        w_pos := by norm_num
        w_le := le_refl _ }
      unweighted := fun _ => rfl }
  have haccepted := h _ anyRules hlegal (by decide) (by decide)
  have hrefused : (validateRulebase anyRules
      (crossingMembership (-1) 0 1 (by norm_num) (by norm_num)) true true).isOk = false := by
    decide +kernel
  rw [haccepted] at hrefused
  cases hrefused

end FuzzHelm
