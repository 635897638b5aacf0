import FuzzHelm.Risk.GuardBounds

namespace FuzzHelm

open Lib

/-!
# The cooldown policy only restricts

Two evaluations of one request by one guard, under `reduce_only` and under `scaled_entries`.
The policy is read by the gate of the mode alone, which comes last in the chain.

* `evaluate_under` — the rules of the user first, then the record of the gate;
* `gateVerdict_le` — the gate under `reduce_only` is at most as permissive;
* `conclude_le` — hence so is the increase, floored to the lot;
* `Restricts` / `cooldown_restriction` — the law.
-/

namespace RiskGuard

/-- The guard under another policy. -/
def under (g : RiskGuard) (policy : CooldownPolicy) : RiskGuard :=
  { g with cooldownPolicy := policy }

/-- The record that the gate adds to a chain, if the guard has one. -/
def gateRecords (g : RiskGuard) (k : Option KillSwitch) (policy : CooldownPolicy)
    (ctx : RiskContext) : Except PyError (List RuleVerdict) :=
  checkAll (if g.modeGate then [riskModeGate k policy] else []) ctx

/-- What an evaluation makes of the records of its chain. -/
def conclude (k : Option KillSwitch) (ctx : RiskContext) (records : List RuleVerdict) :
    Except PyError (GuardResult × Option KillSwitch) := do
  let verdict := Verdict.compose (records.map RuleVerdict.verdict)
  let approvedInc ← approvedIncrease verdict ctx
  let halt := records.any RuleVerdict.halt
  let killswitch' :=
    if halt then
      k.map (fun s => (s.trip none "max_drawdown_halt" (some ctx.tsNs)).2)
    else k
  let flatten := halt || isTripped killswitch' || decide (ctx.riskState = .halted)
  return ({
    verdict := verdict
    records := records
    approvedQty := if flatten then 0 else (ctx.baseQty + approvedInc) * ctx.targetSide
    requestedQty := ctx.targetQty
    currentQty := ctx.currentQty
    increaseRequested := ctx.increaseQty
    increaseApproved := if flatten then 0 else approvedInc
    flattenAll := flatten
    halt := halt }, killswitch')

/-- The rules of two parts are checked one part after the other; the first error stops both. -/
theorem checkAll_append (rs ss : List RiskRule) (ctx : RiskContext) :
    checkAll (rs ++ ss) ctx = do
      let common ← checkAll rs ctx
      let rest ← checkAll ss ctx
      return common ++ rest := by
  induction rs with
  | nil =>
    show checkAll ss ctx = (checkAll ss ctx >>= fun rest => pure ([] ++ rest))
    simp
  | cons r rs ih => simp [checkAll, ih]

end RiskGuard

/-! ### The record of the gate -/

section Gate

variable {k : Option KillSwitch} {ctx : RiskContext}

/-- The record of the gate. -/
def gateRecord (k : Option KillSwitch) (policy : CooldownPolicy) (ctx : RiskContext) :
    RuleVerdict :=
  let level := (modeState k ctx).severity
  let entryLimit :=
    if policy = .scaledEntries then RiskState.cooldown.severity else RiskState.warning.severity
  { rule := "risk_mode"
    verdict := vetoIncrease ctx (decide (modeLimit policy ctx < level))
    observed := some level
    limit := some (modeLimit policy ctx)
    payload := [("state", .str ctx.riskState.value),
      ("kill_switch", .bool (isTripped k)), ("cooldown_policy", .str policy.value),
      ("new_entry", .bool (newEntry ctx)),
      ("reduce_only", .bool (RiskState.warning.severity < level)),
      ("entries_allowed", .bool (level ≤ entryLimit)),
      ("flatten_all", .bool (modeState k ctx = .halted)),
      ("increase_qty", .dec ctx.increaseQty)]
    halt := false }

/-- A breach of a lower limit refuses whatever a breach of a higher one refuses. -/
theorem vetoIncrease_le {b b' : Bool} (h : b' = true → b = true) :
    (vetoIncrease ctx b).factor ≤ (vetoIncrease ctx b').factor := by
  unfold vetoIncrease
  split
  · exact Verdict.factor_nonneg _
  · rename_i hnot
    rw [if_neg fun hb' => hnot ⟨h hb'.1, hb'.2⟩]

/-- The limit of the gate is the higher one only under `scaled_entries`. -/
theorem modeLimit_le (ctx : RiskContext) :
    modeLimit .reduceOnly ctx ≤ modeLimit .scaledEntries ctx := by
  unfold modeLimit
  rw [if_neg (by simp)]
  split
  · show (1 : ℕ) ≤ 2
    omega
  · exact le_rfl

/-- **The gate restricts.** -/
theorem gateVerdict_le (k : Option KillSwitch) (ctx : RiskContext) :
    (gateRecord k .reduceOnly ctx).verdict.factor ≤
      (gateRecord k .scaledEntries ctx).verdict.factor := by
  apply vetoIncrease_le
  intro hb
  rw [decide_eq_true_iff] at hb ⊢
  exact (modeLimit_le ctx).trans_lt hb

/-- Outside `COOLDOWN`, and under a tripped switch, the policies refuse the same increases: the
    severity is not between their limits. -/
theorem gateVerdict_eq (h : ctx.riskState ≠ .cooldown ∨ isTripped k = true) :
    (gateRecord k .reduceOnly ctx).verdict = (gateRecord k .scaledEntries ctx).verdict := by
  have hseverity : (modeState k ctx).severity ≤ 1 ∨ (modeState k ctx).severity = 3 := by
    unfold modeState
    split
    · right
      rfl
    · rename_i htrip
      have hstate := h.resolve_right htrip
      cases hs : ctx.riskState with
      | normal => left; decide
      | warning => left; decide
      | cooldown => exact absurd hs hstate
      | halted => right; rfl
  -- the two policies differ by one step of severity at most
  have hlimits (policy : CooldownPolicy) :
      modeLimit policy ctx = 1 ∨ modeLimit policy ctx = 2 := by
    unfold modeLimit
    split
    · right; rfl
    · left; rfl
  have h₁ := hlimits .reduceOnly
  have h₂ := hlimits .scaledEntries
  show vetoIncrease ctx (decide _) = vetoIncrease ctx (decide _)
  congr 1
  rw [decide_eq_decide]
  omega

end Gate

/-! ### Two evaluations of one request -/

namespace RiskGuard

variable {g : RiskGuard} {k : Option KillSwitch} {ctx : RiskContext} {policy : CooldownPolicy}

/-- The gate of the mode leaves one record when it is on, and never raises. -/
theorem gateRecords_eq (g : RiskGuard) (k : Option KillSwitch) (policy : CooldownPolicy)
    (ctx : RiskContext) :
    g.gateRecords k policy ctx = .ok (if g.modeGate then [gateRecord k policy ctx] else []) := by
  unfold gateRecords
  split
  · rfl
  · rfl

/-- **The rules of the user come first**, and read no policy. -/
theorem evaluate_under (g : RiskGuard) (k : Option KillSwitch) (ctx : RiskContext)
    (policy : CooldownPolicy) :
    (g.under policy).evaluate k ctx =
      (checkAll g.rules ctx >>= fun common =>
        conclude k ctx (common ++ if g.modeGate then [gateRecord k policy ctx] else [])) := by
  show (checkAll (g.rules ++ if g.modeGate then [riskModeGate k policy] else []) ctx >>=
    conclude k ctx) = _
  have hgate := gateRecords_eq g k policy ctx
  rw [gateRecords] at hgate
  rw [checkAll_append, hgate]
  cases checkAll g.rules ctx with
  | error e => rfl
  | ok common => rfl

/-- The increase follows the factor of the verdict. -/
theorem approvedIncrease_mono {v w : Verdict} {x : Decimal} (hvw : v.factor ≤ w.factor)
    (hx : approvedIncrease v ctx = .ok x) : ∃ y, approvedIncrease w ctx = .ok y ∧ x ≤ y := by
  have hinc := ctx.increaseQty_nonneg
  have hle := Verdict.allowed_le_allowed hinc hvw
  rw [approvedIncrease, Verdict.exposure_of_nonneg v hinc] at hx
  rw [approvedIncrease, Verdict.exposure_of_nonneg w hinc]
  obtain ⟨a, ha, hx⟩ := bind_eq_ok.mp hx
  cases ha
  cases hs : ctx.stepSize with
  | none =>
    simp only [hs] at hx
    cases hx
    exact ⟨_, rfl, hle⟩
  | some step =>
    simp only [hs] at hx
    obtain ⟨hpos, rfl⟩ := quantizeStep_eq_ok.mp hx
    exact ⟨_, quantizeStep_eq_ok.mpr ⟨hpos, rfl⟩,
      quantize_down_mono hpos (Verdict.allowed_nonneg v hinc) hle⟩

/-- **What the records decide.** Two chains of records with the same halt signal, the first with
    the smaller factor: the switch after them is the same, and so is every field but the
    verdict, the records and the two approved sizes; the first approves the smaller increase. -/
theorem conclude_le {records records' : List RuleVerdict}
    (hfactor : (Verdict.compose (records.map RuleVerdict.verdict)).factor ≤
      (Verdict.compose (records'.map RuleVerdict.verdict)).factor)
    (hhalt : records.any RuleVerdict.halt = records'.any RuleVerdict.halt)
    {res : GuardResult} {k₁ : Option KillSwitch} (h : conclude k ctx records = .ok (res, k₁)) :
    ∃ res', conclude k ctx records' = .ok (res', k₁) ∧
      res.increaseApproved ≤ res'.increaseApproved ∧
      (res.verdict = res'.verdict → res = { res' with records := records }) := by
  obtain ⟨x, hx, h⟩ := bind_eq_ok.mp h
  obtain ⟨y, hy, hxy⟩ := approvedIncrease_mono hfactor hx
  cases h
  refine ⟨_, bind_eq_ok.mpr ⟨y, hy, by rw [← hhalt]; rfl⟩, ?_, ?_⟩
  · -- both approve nothing when the book is to be flat
    dsimp only
    split_ifs
    all_goals first | exact le_rfl | exact hxy
  · intro hv
    dsimp only at hv
    rw [hv, hy, Except.ok.injEq] at hx
    subst hx
    simp [hv]

/-- The conclusion keeps the records, and composes their verdicts. -/
theorem conclude_records {records : List RuleVerdict} {res : GuardResult}
    {k' : Option KillSwitch} (h : conclude k ctx records = .ok (res, k')) :
    res.records = records ∧ res.verdict = Verdict.compose (records.map RuleVerdict.verdict) := by
  obtain ⟨x, -, h⟩ := bind_eq_ok.mp h
  cases h
  exact ⟨rfl, rfl⟩

/-- Only the step of the lot can make an evaluation raise after its chain. -/
theorem approvedIncrease_error {v w : Verdict} {e : PyError}
    (h : approvedIncrease v ctx = .error e) : approvedIncrease w ctx = .error e := by
  have hinc := ctx.increaseQty_nonneg
  rw [approvedIncrease, Verdict.exposure_of_nonneg v hinc] at h
  rw [approvedIncrease, Verdict.exposure_of_nonneg w hinc]
  cases hs : ctx.stepSize with
  | none =>
    simp only [hs] at h
    cases h
  | some step =>
    simp only [hs] at h ⊢
    change quantizeStep _ step .down = .error e at h
    show quantizeStep _ step .down = .error e
    unfold quantizeStep at h ⊢
    split at h
    · rename_i hstep
      rwa [if_pos hstep]
    · cases h

/-- Whether the conclusion raises does not depend on the records. -/
theorem conclude_error {records records' : List RuleVerdict} {e : PyError}
    (h : conclude k ctx records = .error e) : conclude k ctx records' = .error e := by
  unfold conclude at h ⊢
  cases hinc : approvedIncrease (Verdict.compose (records.map RuleVerdict.verdict)) ctx with
  | error e' =>
    simp only [hinc] at h
    cases h
    simp only [approvedIncrease_error hinc]
    rfl
  | ok x =>
    simp only [hinc] at h
    cases h

/-! ### The law -/

/-- What the result under `reduce_only` is beside the result under `scaled_entries`. -/
structure Restricts (g : RiskGuard) (k : Option KillSwitch) (ctx : RiskContext)
    (strict scaled : GuardResult) : Prop where
  records : ∃ common, checkAll g.rules ctx = .ok common ∧
    strict.records = common ++ (if g.modeGate then [gateRecord k .reduceOnly ctx] else []) ∧
    scaled.records = common ++ (if g.modeGate then [gateRecord k .scaledEntries ctx] else [])
  increase : strict.increaseApproved ≤ scaled.increaseApproved
  outside : ctx.riskState ≠ .cooldown ∨ isTripped k = true →
    strict = { scaled with records := strict.records } ∧
      strict.records.map RuleVerdict.verdict = scaled.records.map RuleVerdict.verdict
  inside : g.modeGate = true → ctx.riskState = .cooldown → isTripped k = false →
    strict.increaseApproved = 0 ∧ (0 < scaled.increaseApproved → ctx.baseQty = 0)

/-- The factor of a chain with the gate at its end follows the gate. -/
theorem chain_factor_le (g : RiskGuard) (common : List RuleVerdict) {a b : RuleVerdict}
    (h : a.verdict.factor ≤ b.verdict.factor) :
    (Verdict.compose ((common ++ if g.modeGate then [a] else []).map
        RuleVerdict.verdict)).factor ≤
      (Verdict.compose ((common ++ if g.modeGate then [b] else []).map
        RuleVerdict.verdict)).factor := by
  split
  · have hnonneg := (Verdict.compose (common.map RuleVerdict.verdict)).factor_nonneg
    simp only [Verdict.compose_factor] at hnonneg
    simpa [Verdict.compose_factor] using mul_le_mul_of_nonneg_left h hnonneg
  · exact le_rfl

/-- What is approved of an increase is not negative. -/
theorem increaseApproved_nonneg {res : GuardResult} {k' : Option KillSwitch}
    (h : g.evaluate k ctx = .ok (res, k')) : 0 ≤ res.increaseApproved := by
  obtain ⟨inc, -, hinc, -, -, -, -, hval⟩ := evaluate_eq_ok h
  rw [hval]
  split
  · exact le_rfl
  · exact (approvedIncrease_bounds hinc).1

/-- In `COOLDOWN` with no trip the gate refuses every increase but a new entry under
    `scaled_entries`. -/
theorem increase_in_cooldown {res : GuardResult} {k' : Option KillSwitch}
    (h : (g.under policy).evaluate k ctx = .ok (res, k')) (hgate : g.modeGate = true)
    (hstate : ctx.riskState = .cooldown) (hinc : 0 < res.increaseApproved) :
    policy = .scaledEntries ∧ ctx.baseQty = 0 := by
  have hmem : riskModeGate k policy ∈ (g.under policy).chain k := by
    apply List.mem_append_right
    show riskModeGate k policy ∈ if g.modeGate then [riskModeGate k policy] else []
    rw [if_pos hgate]
    exact List.mem_singleton_self _
  obtain ⟨inc, hrec, -⟩ := evaluate_eq_ok h
  obtain ⟨rv, hrv, hcheck⟩ := exists_record hrec hmem
  have hle := (increase_le_exposure h hrv).2.trans (Verdict.allowed_le_mul _ _)
  have hpos : 0 < ctx.increaseQty := by
    by_contra hnot
    have hzero : ctx.increaseQty = 0 := le_antisymm (not_lt.mp hnot) ctx.increaseQty_nonneg
    rw [hzero, zero_mul] at hle
    exact absurd hinc (not_lt.mpr hle)
  have hfactor := (mul_pos_iff_of_pos_left hpos).mp (hinc.trans_le hle)
  have hallows := riskModeGate_sound hcheck hpos hfactor
  rw [ModeAllows, hstate] at hallows
  simpa using hallows.2

/-- **The cooldown policy is a pure restriction.** For any guard, switch and context the two
    evaluations raise the same error, or both return, leave the switch alike, and the result
    under `reduce_only` restricts the one under `scaled_entries`. -/
theorem cooldown_restriction (g : RiskGuard) (k : Option KillSwitch) (ctx : RiskContext) :
    (∃ e, (g.under .reduceOnly).evaluate k ctx = .error e ∧
      (g.under .scaledEntries).evaluate k ctx = .error e) ∨
    ∃ strict scaled k', (g.under .reduceOnly).evaluate k ctx = .ok (strict, k') ∧
      (g.under .scaledEntries).evaluate k ctx = .ok (scaled, k') ∧
      Restricts g k ctx strict scaled := by
  cases hcommon : checkAll g.rules ctx with
  | error e =>
    left
    refine ⟨e, ?_, ?_⟩
    · rw [evaluate_under, hcommon]
      rfl
    · rw [evaluate_under, hcommon]
      rfl
  | ok common =>
    -- under both policies the records are the common ones and the gate's
    have hrun (policy : CooldownPolicy) : (g.under policy).evaluate k ctx =
        conclude k ctx (common ++ if g.modeGate then [gateRecord k policy ctx] else []) := by
      rw [evaluate_under, hcommon]
      rfl
    have hhalt : (common ++ if g.modeGate then [gateRecord k .reduceOnly ctx] else []).any
          RuleVerdict.halt =
        (common ++ if g.modeGate then [gateRecord k .scaledEntries ctx] else []).any
          RuleVerdict.halt := by
      split
      · simp [gateRecord]
      · rfl
    cases hstrict : (g.under .reduceOnly).evaluate k ctx with
    | error e =>
      left
      refine ⟨e, rfl, ?_⟩
      rw [hrun] at hstrict ⊢
      exact conclude_error hstrict
    | ok r =>
      right
      obtain ⟨strict, k'⟩ := r
      have hstrict' := hstrict
      rw [hrun] at hstrict'
      obtain ⟨scaled, hscaled, hle, hsame⟩ :=
        conclude_le (chain_factor_le g common (gateVerdict_le k ctx)) hhalt hstrict'
      obtain ⟨hrecords, hverdict⟩ := conclude_records hstrict'
      obtain ⟨hrecords', hverdict'⟩ := conclude_records hscaled
      rw [← hrun] at hscaled
      refine ⟨strict, scaled, k', rfl, hscaled, ⟨common, hcommon, hrecords, hrecords'⟩, hle, ?_, ?_⟩
      -- outside the cooldown the gate says the same, so the verdicts are the same
      · intro hout
        have hlists : strict.records.map RuleVerdict.verdict =
            scaled.records.map RuleVerdict.verdict := by
          rw [hrecords, hrecords', List.map_append, List.map_append]
          split
          · simp [gateVerdict_eq hout]
          · rfl
        refine ⟨?_, hlists⟩
        rw [hrecords]
        apply hsame
        rw [hverdict, hverdict', ← hrecords, ← hrecords', hlists]
      · intro hgate hstate htrip
        constructor
        · by_contra hne
          have hpos := lt_of_le_of_ne (increaseApproved_nonneg hstrict) (Ne.symm hne)
          exact absurd (increase_in_cooldown hstrict hgate hstate hpos).1 (by decide)
        · intro hpos
          exact (increase_in_cooldown hscaled hgate hstate hpos).2

/-- The default guard on an entry in `COOLDOWN`: nothing under `reduce_only`, one lot under
    `scaled_entries`, and the same records but for the last. -/
theorem cooldown_restriction_sample :
    let g := fromConfig RiskConfig.default
    let ctx := { entryContext with riskState := .cooldown }
    ∃ strict scaled k', (g.under .reduceOnly).evaluate none ctx = .ok (strict, k') ∧
      (g.under .scaledEntries).evaluate none ctx = .ok (scaled, k') ∧
      strict.increaseApproved = 0 ∧ scaled.increaseApproved = 1 ∧ ctx.baseQty = 0 ∧
      strict.records.take 6 = scaled.records.take 6 := by
  intro g ctx
  -- a new entry is let through whole by the scaling policy
  have hone : ((g.under .scaledEntries).evaluate none ctx).map
      (fun r => r.1.increaseApproved) = .ok 1 := by
    decide +kernel
  have hsix : (checkAll g.rules ctx).map List.length = .ok 6 := by
    decide +kernel
  -- so the evaluation is not an error, and the law applies
  obtain ⟨e, -, he⟩ | ⟨strict, scaled, k', hstrict, hscaled, hlaw⟩ :=
    cooldown_restriction g none ctx
  · rw [he] at hone
    cases hone
  · rw [hscaled] at hone
    have hval : scaled.increaseApproved = 1 := Except.ok.inj hone
    obtain ⟨hzero, hbase⟩ := hlaw.inside rfl rfl rfl
    obtain ⟨common, hcommon, hrec, hrec'⟩ := hlaw.records
    rw [hcommon] at hsix
    have hlen : common.length = 6 := Except.ok.inj hsix
    refine ⟨strict, scaled, k', hstrict, hscaled, hzero, hval, ?_, ?_⟩
    · apply hbase
      rw [hval]
      exact one_pos
    · rw [hrec, hrec', ← hlen, List.take_left, List.take_left]

/-- On the same entry in `NORMAL` the two results are not equal as a whole: the record of the
    gate carries the policy's own limit. -/
theorem gate_limits_differ :
    let g := fromConfig RiskConfig.default
    entryContext.riskState = .normal ∧
      (g.under .reduceOnly).evaluate none entryContext ≠
        (g.under .scaledEntries).evaluate none entryContext := by
  refine ⟨rfl, fun heq => ?_⟩
  have hlimits := congrArg (Except.map fun r => r.1.records.map RuleVerdict.limit) heq
  exact absurd hlimits (by decide +kernel)

end RiskGuard

end FuzzHelm
