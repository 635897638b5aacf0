import FuzzHelm.Fuzzy.Engine
import FuzzHelm.Lib.Windows

namespace FuzzHelm

/-!
# Vectorised inference

`infer_batch` computes the activations of a chunk of inputs as arrays: a row for each rule, a
row for each term of the output, a number for each input.  Its last step clips every number to
the range of the output, the neutral one too.

* `MamdaniEngine.inferBatch` — the arrays, chunk by chunk;
* `inferBatch_eq` — they hold the strengths of `infer`, input by input;
* `batch_pointwise` — when the numbers are those of `infer_u`.
-/

section Batch

variable (x : Exponential)

/-- `np.clip`: the lower end first, and then the upper one. -/
def npClip (lo hi a : ℚ) : ℚ := min (max a lo) hi

/-- `np.vstack([var.evaluate(np.clip(a, lo, hi)), np.ones((1, n))])`. -/
def batchDegrees (v : VariableSpec) (xs : List ℚ) : List (List ℚ) :=
  v.evaluate x (xs.map (npClip v.lo v.hi)) ++ [xs.map fun _ => 1]

/-- The row of `alpha` of a rule. -/
def CompiledRule.alphaRow (r : CompiledRule) (mt mr mv : List (List ℚ)) : List ℚ :=
  (List.zipWith min (List.zipWith min (mt.getD r.ti []) (mr.getD r.ri []))
    (mv.getD r.vi [])).map (· * r.w)

namespace MamdaniEngine

/-- `_BATCH_CHUNK`: how many points are inferred together. -/
def BATCH_CHUNK : ℕ := 2048

variable (e : MamdaniEngine)

/-- The row of `beta` of a term, for `n` inputs. -/
def betaRow (mt mr mv : List (List ℚ)) (n k : ℕ) : List ℚ :=
  let sel := e.compiled.filter fun r => r.ci = k
  if sel.isEmpty then List.replicate n 0
  else (List.range n).map fun p => vecMax (sel.map fun r => (r.alphaRow mt mr mv).getD p 0)

/-- The number of an input whose strengths are known. -/
def batchNumber (beta : List ℚ) : ℚ :=
  let mu := aggregate beta e.muTerms e.grid.length
  let den := dot e.w mu
  let num := dot e.wu mu
  let u := if 0 < den then num / den else 0
  npClip e.uLo e.uHi u

/-- One turn of the loop of `infer_batch`. -/
def inferChunk (m : MembershipConfig) (pts : List (ℚ × ℚ × ℚ)) : List ℚ :=
  let mt := batchDegrees x m.T (pts.map fun t => t.1)
  let mr := batchDegrees x m.R (pts.map fun t => t.2.1)
  let mv := batchDegrees x m.V (pts.map fun t => t.2.2)
  let beta := (List.range e.uNames.length).map (e.betaRow mt mr mv pts.length)
  (List.range pts.length).map fun p => e.batchNumber (beta.map fun row => row.getD p 0)

/-- `infer_batch`: `for s in range(0, n, _BATCH_CHUNK)`. -/
def inferBatch (m : MembershipConfig) (pts : List (ℚ × ℚ × ℚ)) : List ℚ :=
  (List.range ((pts.length + (BATCH_CHUNK - 1)) / BATCH_CHUNK)).flatMap fun i =>
    e.inferChunk x m ((pts.drop (i * BATCH_CHUNK)).take BATCH_CHUNK)

end MamdaniEngine

/-! ### Rows and inputs -/

variable {x}

/-- The clip of the arrays is the clip of the variable. -/
theorem npClip_eq (v : VariableSpec) (a : ℚ) : npClip v.lo v.hi a = v.clip a := by
  have := v.lo_lt_hi
  unfold npClip VariableSpec.clip
  split_ifs with hlo hhi
  · rw [max_eq_right hlo.le, min_eq_left this.le]
  · rw [max_eq_left (not_lt.mp hlo), min_eq_right hhi.le]
  · rw [max_eq_left (not_lt.mp hlo), min_eq_left (not_lt.mp hhi)]

/-- A column of the array is what one input has. -/
theorem batchDegrees_getD {α : Type*} (v : VariableSpec) (name : String) {pts : List α}
    (f : α → ℚ) {i p : ℕ} (hi : i ≤ v.terms.length) (hp : p < pts.length) :
    ((batchDegrees x v (pts.map f)).getD i []).length = pts.length ∧
    ((batchDegrees x v (pts.map f)).getD i []).getD p 0 =
      ((v.linguistic x name).degrees (f pts[p])).getD i 0 := by
  have hterms : (v.evaluate x ((pts.map f).map (npClip v.lo v.hi))).length = v.terms.length :=
    List.length_map _
  rw [VariableSpec.degrees_eq, batchDegrees]
  -- a row of a term, or the row of ones for a variable left out
  rcases Nat.lt_or_eq_of_le hi with hlt | rfl
  · have hrow : (v.evaluate x ((pts.map f).map (npClip v.lo v.hi)) ++
        [(pts.map f).map fun _ => 1]).getD i [] =
        pts.map fun t => (v.terms[i].2.scalar x (v.clip (f t))) := by
      rw [List.getD_append _ _ _ _ (by omega), List.getD_eq_getElem _ [] (by omega)]
      simp [VariableSpec.evaluate, MembershipSpec.array_eq, npClip_eq]
    rw [hrow, List.getD_append _ _ _ _ (by simpa using hlt),
      List.getD_eq_getElem (v.terms.map _) 0 (by simpa using hlt)]
    simp [hp]
  · have hrow : (v.evaluate x ((pts.map f).map (npClip v.lo v.hi)) ++
        [(pts.map f).map fun _ => 1]).getD v.terms.length [] = pts.map fun _ => 1 := by
      rw [List.getD_append_right _ _ _ _ (by omega), hterms, Nat.sub_self, List.map_map]
      rfl
    rw [hrow]
    simp [hp]

/-- The entry of a rule for one input. -/
theorem alphaRow_getD {r : CompiledRule} {mt mr mv : List (List ℚ)} {n p : ℕ}
    (ht : (mt.getD r.ti []).length = n) (hr : (mr.getD r.ri []).length = n)
    (hv : (mv.getD r.vi []).length = n) (hp : p < n) :
    (r.alphaRow mt mr mv).getD p 0 =
      min (min ((mt.getD r.ti []).getD p 0) ((mr.getD r.ri []).getD p 0))
        ((mv.getD r.vi []).getD p 0) * r.w := by
  have hp' : p < (r.alphaRow mt mr mv).length := by
    rw [CompiledRule.alphaRow, List.length_map, List.length_zipWith, List.length_zipWith]
    omega
  rw [List.getD_eq_getElem _ 0 hp', List.getD_eq_getElem _ 0 (ht ▸ hp),
    List.getD_eq_getElem _ 0 (hr ▸ hp), List.getD_eq_getElem _ 0 (hv ▸ hp)]
  simp [CompiledRule.alphaRow]

namespace MamdaniEngine

variable {m : MembershipConfig} {rb : RuleBase} {hok : ∀ r ∈ rb.rules, RuleOk m r}
  {grid w : List ℚ} {pts : List (ℚ × ℚ × ℚ)}

/-- The entry of a term is the largest of its rules, or 0 without rules. -/
theorem betaRow_eq (e : MamdaniEngine) (mt mr mv : List (List ℚ)) {n k p : ℕ} (hp : p < n) :
    (e.betaRow mt mr mv n k).getD p 0 =
      vecMax ((e.compiled.filter fun r => r.ci = k).map fun r =>
        (r.alphaRow mt mr mv).getD p 0) := by
  unfold betaRow
  simp only [List.isEmpty_iff]
  split_ifs with hnone
  · rw [hnone]
    simp [hp, vecMax]
  · simp [hp]

/-- **The strengths of the arrays** are those of the loop over the rules. -/
theorem betaRow_getD {k p : ℕ} (hk : k < m.U.termNames.length) (hp : p < pts.length) :
    ((ofGrid x m rb hok grid w).betaRow (batchDegrees x m.T (pts.map fun t => t.1))
      (batchDegrees x m.R (pts.map fun t => t.2.1)) (batchDegrees x m.V (pts.map fun t => t.2.2))
      pts.length k).getD p 0 =
    ((ofGrid x m rb hok grid w).firedStrengths pts[p].1 pts[p].2.1 pts[p].2.2).getD k 0 := by
  -- what a rule has in its row for this input
  have halpha : ∀ r, (h : RuleOk m r) → ((compileRule m r h).alphaRow
      (batchDegrees x m.T (pts.map fun t => t.1)) (batchDegrees x m.R (pts.map fun t => t.2.1))
      (batchDegrees x m.V (pts.map fun t => t.2.2))).getD p 0 =
      plainStrength x m pts[p].1 pts[p].2.1 pts[p].2.2 r := by
    intro r h
    have hT := batchDegrees_getD (x := x) m.T "T" (fun t => t.1)
      (VariableSpec.place_le h.termT.term) hp
    have hR := batchDegrees_getD (x := x) m.R "R" (fun t => t.2.1)
      (VariableSpec.place_le h.termR.term) hp
    have hV := batchDegrees_getD (x := x) m.V "V" (fun t => t.2.2)
      (VariableSpec.place_le h.termV.term) hp
    rw [alphaRow_getD hT.1 hR.1 hV.1 hp, ← compileRule_alpha h, CompiledRule.alpha,
      compileRule, hT.2, hR.2, hV.2]
  have hk' : k < (ofGrid x m rb hok grid w).uNames.length := hk
  rw [betaRow_eq _ _ _ _ hp]
  apply eq_of_same_bounds
  · apply vecMax_nonneg
    intro a ha
    obtain ⟨cr, hcr, rfl⟩ := List.mem_map.mp ha
    obtain ⟨r, hr, rfl⟩ := List.mem_pmap.mp (List.mem_of_mem_filter hcr)
    rw [halpha r (hok r hr)]
    exact plainStrength_nonneg (hok r hr) _ _ _
  · rw [List.getD_eq_getElem _ 0 (by rwa [length_firedStrengths])]
    exact firedStrengths_nonneg _ _ _ _ _ (List.getElem_mem _)
  intro a ha
  rw [firedStrengths_le hk ha, vecMax_le ha]
  constructor
  · intro h r hr hkr
    rw [← halpha r (hok r hr)]
    apply h
    apply List.mem_map.mpr
    refine ⟨compileRule m r (hok r hr), List.mem_filter.mpr ⟨?_, decide_eq_true hkr⟩, rfl⟩
    exact List.mem_pmap.mpr ⟨r, hr, rfl⟩
  · intro h b hb
    obtain ⟨cr, hcr, rfl⟩ := List.mem_map.mp hb
    obtain ⟨hcr, hkr⟩ := List.mem_filter.mp hcr
    obtain ⟨r, hr, rfl⟩ := List.mem_pmap.mp hcr
    rw [halpha r (hok r hr)]
    exact h r hr (of_decide_eq_true hkr)

/-- A chunk answers point by point what the strengths of the point give. -/
theorem inferChunk_eq :
    (ofGrid x m rb hok grid w).inferChunk x m pts = pts.map fun t =>
      (ofGrid x m rb hok grid w).batchNumber
        ((ofGrid x m rb hok grid w).firedStrengths t.1 t.2.1 t.2.2) := by
  apply List.ext_getElem
  · simp [inferChunk]
  intro p hp hp'
  have hp : p < pts.length := by simpa using hp'
  rw [List.getElem_map]
  simp only [inferChunk, List.getElem_map, List.getElem_range]
  congr 1
  apply List.ext_getElem
  · simp [length_firedStrengths]
  intro k hk hk'
  rw [length_firedStrengths] at hk'
  simp only [List.getElem_map, List.getElem_range]
  rw [betaRow_getD hk' hp, List.getD_eq_getElem]

/-- **The chunks do not matter**: every input gets the number of its own strengths. -/
theorem inferBatch_eq :
    (ofGrid x m rb hok grid w).inferBatch x m pts = pts.map fun t =>
      (ofGrid x m rb hok grid w).batchNumber
        ((ofGrid x m rb hok grid w).firedStrengths t.1 t.2.1 t.2.2) := by
  have hcount : pts.length ≤ (pts.length + (BATCH_CHUNK - 1)) / BATCH_CHUNK * BATCH_CHUNK := by
    have : BATCH_CHUNK = 2048 := rfl
    rw [this]
    omega
  simp only [inferBatch, inferChunk_eq]
  rw [← List.map_flatMap, Lib.flatMap_slices, List.take_of_length_le hcount]

/-- The number of an input: the centroid, or the neutral number clipped. -/
theorem batchNumber_eq (T R V : ℚ) :
    (ofGrid x m rb hok grid w).batchNumber ((ofGrid x m rb hok grid w).firedStrengths T R V) =
      if 0 < dot w (grid.map (plainAggregate x m rb T R V)) then
        centroidWeighted w (List.zipWith (· * ·) w grid)
          (grid.map (plainAggregate x m rb T R V)) m.U.lo m.U.hi
      else m.U.clip 0 := by
  have hplain : aggregate ((ofGrid x m rb hok grid w).firedStrengths T R V) (m.U.evaluate x grid)
      grid.length = grid.map (plainAggregate x m rb T R V) := aggregate_eq_plain
  rw [← hplain]
  generalize hmu : aggregate ((ofGrid x m rb hok grid w).firedStrengths T R V)
    (m.U.evaluate x grid) grid.length = mu
  have hnumber : (ofGrid x m rb hok grid w).batchNumber
      ((ofGrid x m rb hok grid w).firedStrengths T R V) = npClip m.U.lo m.U.hi
        (if 0 < dot w mu then dot (List.zipWith (· * ·) w grid) mu / dot w mu else 0) := by
    rw [← hmu]
    rfl
  rw [hnumber, npClip_eq, centroidWeighted]
  by_cases hden : 0 < dot w mu
  · rw [if_pos hden, if_pos hden, if_neg (not_not.mpr hden)]
    rfl
  · rw [if_neg hden, if_neg hden]

end MamdaniEngine

/-! ### The two paths -/

/-- Some rule is activated and has an output that the grid can see. -/
def Activates (m : MembershipConfig) (rb : RuleBase) (grid : List ℚ) (t : ℚ × ℚ × ℚ) : Prop :=
  ∃ r ∈ rb.rules, 0 < plainStrength x m t.1 t.2.1 t.2.2 r ∧
    ∃ u ∈ grid, 0 < m.U.degree x r.consequent u

variable {m : MembershipConfig} {rb : RuleBase}

/-- An input has an area just when it activates a rule that the grid can see. -/
theorem area_pos_iff (hok : ∀ r ∈ rb.rules, RuleOk m r) {grid w : List ℚ}
    (hlen : w.length = grid.length) (hw : ∀ a ∈ w, 0 < a) (t : ℚ × ℚ × ℚ) :
    0 < dot w (grid.map (plainAggregate x m rb t.1 t.2.1 t.2.2)) ↔
      Activates (x := x) m rb grid t := by
  have hnonneg : ∀ a ∈ grid.map (plainAggregate x m rb t.1 t.2.1 t.2.2), 0 ≤ a := by
    intro a ha
    obtain ⟨u, -, rfl⟩ := List.mem_map.mp ha
    exact plainAggregate_nonneg hok _ _ _ u
  rw [dot_pos (by simpa using hlen) hw hnonneg]
  -- an area above 0 is a node above 0, since every weight is
  constructor
  · rintro ⟨a, ha, hpos⟩
    obtain ⟨u, hu, rfl⟩ := List.mem_map.mp ha
    -- were every rule at 0 there, the maximum would be 0
    by_contra hnone
    apply absurd hpos
    rw [not_lt, plainAggregate, vecMax_le (le_refl 0)]
    intro b hb
    obtain ⟨r, hr, rfl⟩ := List.mem_map.mp hb
    rw [min_le_iff]
    by_contra hmin
    push Not at hmin
    exact hnone ⟨r, hr, hmin.1, u, hu, hmin.2⟩
  · rintro ⟨r, hr, hstrength, u, hu, hdegree⟩
    refine ⟨_, List.mem_map.mpr ⟨u, hu, rfl⟩, ?_⟩
    by_contra hle
    rw [not_lt, plainAggregate, vecMax_le (le_refl 0)] at hle
    have := hle _ (List.mem_map.mpr ⟨r, hr, rfl⟩)
    rw [min_le_iff] at this
    rcases this with h | h <;> linarith

/-- Clipping keeps the neutral number just when the range has it. -/
theorem VariableSpec.clip_zero_iff (v : VariableSpec) : v.clip 0 = 0 ↔ v.lo ≤ 0 ∧ 0 ≤ v.hi := by
  have := v.lo_lt_hi
  unfold VariableSpec.clip
  split_ifs with hlo hhi
  · constructor
    · intro h
      linarith
    · rintro ⟨h, -⟩
      linarith
  · constructor
    · intro h
      linarith
    · rintro ⟨-, h⟩
      linarith
  · simp [not_lt.mp hlo, not_lt.mp hhi]

variable {scheme : Option DefuzzScheme} {nodes : Option ℕ} {e : MamdaniEngine}

/-- **The batch against the single points.**  Both agree at every point just when zero lies in the
    universe of the output, or when every point activates a rule: the neutral value of a point
    without one is clipped in the batch alone. -/
theorem batch_pointwise (h : MamdaniEngine.new x m rb scheme nodes = .ok e)
    (pts : List (ℚ × ℚ × ℚ)) :
    e.inferBatch x m pts = pts.map (fun t => e.inferU t.1 t.2.1 t.2.2) ↔
      (m.U.lo ≤ 0 ∧ 0 ≤ m.U.hi) ∨ ∀ t ∈ pts, Activates (x := x) m rb e.grid t := by
  obtain ⟨hok, grid, w, hgrid, hw, rfl⟩ := MamdaniEngine.new_ok h
  have hpos := quadratureWeights_pos hw m.U.lo_lt_hi
  have hlen : w.length = grid.length := by
    rw [length_quadratureWeights hw, length_makeGrid hgrid]
  -- the two paths differ only where nothing is activated and 0 is outside the range
  have hpoint : ∀ t : ℚ × ℚ × ℚ, (MamdaniEngine.ofGrid x m rb hok grid w).batchNumber
      ((MamdaniEngine.ofGrid x m rb hok grid w).firedStrengths t.1 t.2.1 t.2.2) =
      (MamdaniEngine.ofGrid x m rb hok grid w).inferU t.1 t.2.1 t.2.2 ↔
      (m.U.lo ≤ 0 ∧ 0 ≤ m.U.hi) ∨ Activates (x := x) m rb grid t := by
    intro t
    rw [MamdaniEngine.batchNumber_eq, MamdaniEngine.inferU_eq, MamdaniEngine.infer_uRaw_eq hpos,
      ← area_pos_iff hok hlen hpos, ← VariableSpec.clip_zero_iff]
    by_cases hden : 0 < dot w (grid.map (plainAggregate x m rb t.1 t.2.1 t.2.2))
    · rw [if_pos hden]
      simp [hden]
    · rw [if_neg hden, centroidWeighted, if_pos hden]
      simp [hden]
  rw [MamdaniEngine.inferBatch_eq, List.map_inj_left]
  simp only [hpoint]
  show (∀ t ∈ pts, _ ∨ Activates m rb grid t) ↔ _ ∨ ∀ t ∈ pts, Activates m rb grid t
  -- the condition on the range is the same for every point
  by_cases hzero : m.U.lo ≤ 0 ∧ 0 ≤ m.U.hi
  · simp [hzero]
  · simp only [hzero, false_or]

end Batch

/-- The output lies between 1/2 and 1. -/
def shiftedMembership : MembershipConfig :=
  crossingMembership (1 / 2) (3 / 4) 1 (by norm_num) (by norm_num)

/-- On a universe above zero the batch of a point without a rule answers the lower end. -/
theorem batch_pointwise_shifted :
    ∃ e, MamdaniEngine.new rationalExponential shiftedMembership partialRules none none = .ok e ∧
      (e.inferBatch rationalExponential shiftedMembership [(1, 0, 0)] = [e.inferU 1 0 0] ↔
        (shiftedMembership.U.lo ≤ 0 ∧ 0 ≤ shiftedMembership.U.hi) ∨
          ∀ t ∈ [((1 : ℚ), (0 : ℚ), (0 : ℚ))],
            Activates (x := rationalExponential) shiftedMembership partialRules e.grid t) := by
  obtain ⟨e, he⟩ := MamdaniEngine.exists_of_isOk (r := MamdaniEngine.new rationalExponential
    shiftedMembership partialRules none none) (by decide +kernel)
  exact ⟨e, he, batch_pointwise he [(1, 0, 0)]⟩

/-- No rule is activated at (-1, -1, 0), and the range has no 0. -/
theorem neutral_output_clipped :
    (MamdaniEngine.new rationalExponential shiftedMembership partialRules none none).map (fun e =>
      (e.inferU (-1) (-1) 0, e.inferBatch rationalExponential shiftedMembership [(-1, -1, 0)])) =
      .ok (0, [1 / 2]) := by
  decide +kernel

end FuzzHelm
