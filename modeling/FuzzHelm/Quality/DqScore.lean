import FuzzHelm.Lib.Grid
import Mathlib.Data.Finset.Union
import Mathlib.Data.List.Sort
import Mathlib.Data.Prod.Lex
import Mathlib.Order.Interval.Finset.Nat
import Mathlib.Data.Int.ConditionallyCompleteOrder
import Mathlib.Data.Int.Interval

namespace FuzzHelm

open Lib

/-!
# The score of the data quality

Four components between 0 and 1 and their weighted sum, for what has been counted in a window of
time.

* `completeness`, `validity`, `timeliness`, `continuity`, `dqScore` — the score;
* `DqScore.asRow` — the columns of the table;
* `mergedLengthNs` — the length of the union of gaps, and `mergedLengthNs_eq`, that it is that;
* `DqAccumulator` — what is counted in a window;
* `DqAccumulator.Alike` — two accumulators that give the same row.
-/

/-! ### The score -/

/-- `DqInputs`: what an hour is scored by. -/
structure DqInputs where
  expectedBuckets : ℤ
  observedBuckets : ℤ
  totalCount : ℤ
  invalidCount : ℤ
  gapSeconds : ℚ
  lagP95Ms : ℚ
  windowS : ℚ

/-- The weights and the scale of the lag, as `check_weights` and `timeliness` admit them; `exp` is
    the exponential of the platform. -/
structure Scoring where
  weights : Fin 4 → ℚ
  tau0Ms : ℚ
  exp : ℚ → ℚ
  weights_nonneg : ∀ k, 0 ≤ weights k
  weights_sum : |weights 0 + weights 1 + weights 2 + weights 3 - 1| ≤ 1 / 1000000
  tau0_pos : 0 < tau0Ms

/-- `DqScore`: the score with its parts. -/
structure DqScore where
  completeness : ℚ
  validity : ℚ
  timeliness : ℚ
  continuity : ℚ
  score : ℚ
  inputs : DqInputs

/-- The columns of the table `dq_score`. -/
structure DqRow where
  expectedBuckets : ℤ
  observedBuckets : ℤ
  invalidCount : ℤ
  gapSeconds : ℚ
  lagP95Ms : ℚ
  completeness : ℚ
  validity : ℚ
  timeliness : ℚ
  continuity : ℚ
  score : ℚ

/-- `round(x, digits)`, to the nearest, and to the even one of two. -/
def roundDigits (digits : ℕ) (x : ℚ) : ℚ := quantize .halfEven x (1 / 10 ^ digits)

/-- `as_row`: the score and its parts, rounded for the table. -/
def DqScore.asRow (s : DqScore) : DqRow where
  expectedBuckets := s.inputs.expectedBuckets
  observedBuckets := s.inputs.observedBuckets
  invalidCount := s.inputs.invalidCount
  gapSeconds := roundDigits 2 s.inputs.gapSeconds
  lagP95Ms := roundDigits 2 s.inputs.lagP95Ms
  completeness := roundDigits 4 s.completeness
  validity := roundDigits 4 s.validity
  timeliness := roundDigits 4 s.timeliness
  continuity := roundDigits 4 s.continuity
  score := roundDigits 4 s.score

/-- `_clip01`: a value outside [0, 1] counts as its nearer end. -/
def clip01 (x : ℚ) : ℚ := if x < 0 then 0 else if 1 < x then 1 else x

/-- `completeness`: the share of the minutes that are there. -/
def completeness (observed expected : ℤ) : ℚ :=
  if expected ≤ 0 then 1 else clip01 (observed / expected)

/-- `validity`: the share of the events that break no rule. -/
def validity (invalid total : ℤ) : ℚ := if total ≤ 0 then 1 else clip01 (1 - invalid / total)

/-- `timeliness`: full up to the one lag, nothing from the other on. -/
def timeliness (cfg : Scoring) (lagP95Ms : ℚ) : ℚ :=
  clip01 (cfg.exp (-max 0 lagP95Ms / cfg.tau0Ms))

/-- `continuity`: the share of the window that no gap covers. -/
def continuity (gapSeconds windowS : ℚ) : ℚ := clip01 (1 - max 0 gapSeconds / windowS)

/-- `dq_score`: the weighted sum of the four parts. -/
def dqScore (cfg : Scoring) (i : DqInputs) : DqScore :=
  let comp := completeness i.observedBuckets i.expectedBuckets
  let valid := validity i.invalidCount i.totalCount
  let timely := timeliness cfg i.lagP95Ms
  let cont := continuity i.gapSeconds i.windowS
  { completeness := comp
    validity := valid
    timeliness := timely
    continuity := cont
    score := clip01 (cfg.weights 0 * comp + cfg.weights 1 * valid + cfg.weights 2 * timely +
      cfg.weights 3 * cont)
    inputs := i }

/-- **The score** lies between 0 and 1. -/
theorem dqScore_unit (cfg : Scoring) (i : DqInputs) :
    0 ≤ (dqScore cfg i).score ∧ (dqScore cfg i).score ≤ 1 := by
  show 0 ≤ clip01 _ ∧ clip01 _ ≤ 1
  unfold clip01
  split_ifs with hneg hbig
  · exact ⟨le_refl 0, zero_le_one⟩
  · exact ⟨zero_le_one, le_refl 1⟩
  · exact ⟨not_lt.mp hneg, not_lt.mp hbig⟩

/-- Without invalid events the number of the events does not matter. -/
theorem validity_zero (total : ℤ) : validity 0 total = 1 := by
  unfold validity
  split
  · rfl
  · simp [clip01]

/-! ### Percentiles -/

/-- `p95`: the 95th percentile, between the two values that are next to it. -/
def p95 (values : List ℚ) : ℚ :=
  let sorted := values.insertionSort (· ≤ ·)
  let rank : ℚ := (values.length - 1 : ℕ) * (95 / 100)
  let lo := sorted.getD ⌊rank⌋.toNat 0
  let hi := sorted.getD (⌊rank⌋.toNat + 1) lo
  lo + (hi - lo) * (rank - ⌊rank⌋)

/-! ### The length of a union of intervals -/

/-- The loop of `merged_length_ns`, with the interval that it is in. -/
def mergeLoop : List (ℤ × ℤ) → ℤ → Option (ℤ × ℤ) → ℤ
  | [], total, none => total
  | [], total, some (curLo, curHi) => total + (curHi - curLo)
  | (lo, hi) :: rest, total, none => mergeLoop rest total (some (lo, hi))
  | (lo, hi) :: rest, total, some (curLo, curHi) =>
    if curHi < lo then mergeLoop rest (total + (curHi - curLo)) (some (lo, hi))
    else mergeLoop rest total (some (curLo, max curHi hi))

/-- The order of pairs. -/
def pairLe (a b : ℤ × ℤ) : Prop := toLex a ≤ toLex b

/-- The order of the intervals can be computed. -/
instance : DecidableRel pairLe := fun a b => inferInstanceAs (Decidable (toLex a ≤ toLex b))

/-- `merged_length_ns`: the length of the union, whatever overlaps. -/
def mergedLengthNs (intervals : List (ℤ × ℤ)) : ℤ :=
  mergeLoop ((intervals.filter fun p => decide (p.1 < p.2)).insertionSort pairLe) 0 none

/-- The instants of half-open intervals. -/
noncomputable def instants (intervals : List (ℤ × ℤ)) : Finset ℤ :=
  intervals.toFinset.biUnion fun p => Finset.Ico p.1 p.2

/-- An instant lies in some interval. -/
theorem mem_instants {intervals : List (ℤ × ℤ)} {t : ℤ} :
    t ∈ instants intervals ↔ ∃ p ∈ intervals, p.1 ≤ t ∧ t < p.2 := by
  simp [instants]

/-- **The loop** adds the length of what it is in and of what comes, if the beginnings ascend. -/
theorem mergeLoop_some (rest : List (ℤ × ℤ)) :
    ∀ (total curLo curHi : ℤ), curLo < curHi → (∀ p ∈ rest, p.1 < p.2 ∧ curLo ≤ p.1) →
      rest.Pairwise (fun p q => p.1 ≤ q.1) →
      mergeLoop rest total (some (curLo, curHi)) =
        total + (instants ((curLo, curHi) :: rest)).card := by
  induction rest with
  | nil =>
    intro total curLo curHi hlt _ _
    have hone : instants [(curLo, curHi)] = Finset.Ico curLo curHi := by
      ext t
      simp [mem_instants]
    rw [mergeLoop, hone, Int.card_Ico]
    omega
  | cons p rest ih =>
    obtain ⟨lo, hi⟩ := p
    intro total curLo curHi hlt hall hsorted
    obtain ⟨hhead, htail⟩ := List.pairwise_cons.mp hsorted
    obtain ⟨hp, hle⟩ := hall (lo, hi) List.mem_cons_self
    have hrest : ∀ q ∈ rest, q.1 < q.2 ∧ curLo ≤ q.1 := fun q hq =>
      hall q (List.mem_cons_of_mem _ hq)
    rw [mergeLoop]
    by_cases hgap : curHi < lo
    · -- what comes begins after the interval, so the two are disjoint
      rw [if_pos hgap, ih _ _ _ hp (fun q hq => ⟨(hrest q hq).1, hhead q hq⟩) htail]
      have hdisj : Disjoint (Finset.Ico curLo curHi) (instants ((lo, hi) :: rest)) := by
        rw [Finset.disjoint_left]
        intro t ht hin
        obtain ⟨q, hq, hqt, -⟩ := mem_instants.mp hin
        have hlo : lo ≤ q.1 := by
          rcases List.mem_cons.mp hq with rfl | hq
          · exact le_refl _
          · exact hhead q hq
        have hcur := (Finset.mem_Ico.mp ht).2
        omega
      have hsplit : instants ((curLo, curHi) :: (lo, hi) :: rest) =
          Finset.Ico curLo curHi ∪ instants ((lo, hi) :: rest) := by
        ext t
        simp [mem_instants]
      rw [hsplit, Finset.card_union_of_disjoint hdisj, Int.card_Ico]
      push_cast
      omega
    · -- the interval is widened
      rw [if_neg hgap, ih _ _ _ (by omega) hrest htail]
      have hsame : instants ((curLo, max curHi hi) :: rest) =
          instants ((curLo, curHi) :: (lo, hi) :: rest) := by
        ext t
        simp only [mem_instants, List.exists_mem_cons_iff]
        have hone : (curLo ≤ t ∧ t < max curHi hi) ↔
            (curLo ≤ t ∧ t < curHi) ∨ (lo ≤ t ∧ t < hi) := by omega
        rw [hone, or_assoc]
      rw [hsame]

/-- **The merged length** is that of the union: what overlaps is not counted twice. -/
theorem mergedLengthNs_eq (intervals : List (ℤ × ℤ)) :
    mergedLengthNs intervals = (instants intervals).card := by
  -- empty intervals are filtered out, and sorting keeps the instants
  have hpos : ∀ p ∈ (intervals.filter fun p => decide (p.1 < p.2)).insertionSort pairLe,
      p.1 < p.2 := by
    intro p hp
    rw [List.mem_insertionSort, List.mem_filter, decide_eq_true_iff] at hp
    exact hp.2
  have hsame : instants ((intervals.filter fun p => decide (p.1 < p.2)).insertionSort pairLe) =
      instants intervals := by
    ext t
    simp only [mem_instants, List.mem_insertionSort, List.mem_filter, decide_eq_true_iff]
    constructor
    · rintro ⟨p, ⟨hp, -⟩, ht⟩
      exact ⟨p, hp, ht⟩
    · rintro ⟨p, hp, ht⟩
      exact ⟨p, ⟨hp, by omega⟩, ht⟩
  -- sorted by the pair, hence by the left end
  have hsorted : ((intervals.filter fun p => decide (p.1 < p.2)).insertionSort pairLe).Pairwise
      fun p q => p.1 ≤ q.1 := by
    have htotal : Std.Total pairLe := ⟨fun a b => le_total (toLex a) (toLex b)⟩
    have htrans : IsTrans (ℤ × ℤ) pairLe := ⟨fun a b c hab hbc => le_trans hab hbc⟩
    refine (List.pairwise_insertionSort pairLe _).imp fun hle => ?_
    rcases Prod.Lex.le_iff.mp hle with hlt | ⟨heq, -⟩
    · exact le_of_lt hlt
    · exact le_of_eq heq
  rw [← hsame]
  unfold mergedLengthNs
  cases hlist : (intervals.filter fun p => decide (p.1 < p.2)).insertionSort pairLe with
  | nil => rfl
  | cons p rest =>
    rw [hlist] at hpos hsorted
    obtain ⟨hhead, htail⟩ := List.pairwise_cons.mp hsorted
    rw [mergeLoop, mergeLoop_some rest 0 p.1 p.2 (hpos p List.mem_cons_self)
      (fun q hq => ⟨hpos q (List.mem_cons_of_mem _ hq), hhead q hq⟩) htail, zero_add]

/-! ### The accumulator -/

/-- The length of an hour. -/
def hourNs : ℤ := 3600 * 1000000000

/-- What is counted in a window, usually an hour. -/
structure DqAccumulator where
  windowStartNs : ℤ
  windowNs : ℤ
  buckets : Finset ℤ
  total : ℤ
  invalid : ℤ
  lagsMs : List ℚ
  gaps : List (ℤ × ℤ)

namespace DqAccumulator

/-- `DqAccumulator(window_start_ns, window_ns)`: nothing was counted. -/
def new (windowStartNs windowNs : ℤ) : DqAccumulator := ⟨windowStartNs, windowNs, ∅, 0, 0, [], []⟩

variable (a : DqAccumulator)

/-- `add_bucket`: a minute counts once. -/
def addBucket (openTimeNs : ℤ) : DqAccumulator := { a with buckets := insert openTimeNs a.buckets }

/-- `add_checked`: one event more, and one that is refused more where it is. -/
def addChecked (invalid : Bool) : DqAccumulator :=
  { a with
    total := a.total + 1
    invalid := if invalid then a.invalid + 1 else a.invalid }

/-- `add_lag_ms`: one lag more, of those that came by the stream. -/
def addLagMs (lagMs : ℚ) : DqAccumulator := { a with lagsMs := a.lagsMs ++ [lagMs] }

/-- The part of an interval in the window. -/
def clipped (loNs hiNs : ℤ) : ℤ × ℤ :=
  (max loNs a.windowStartNs, min hiNs (a.windowStartNs + a.windowNs))

/-- `add_gap`: the part of the gap that lies in the window. -/
def addGap (loNs hiNs : ℤ) : DqAccumulator :=
  let p := a.clipped loNs hiNs
  if p.1 < p.2 then { a with gaps := a.gaps ++ [p] } else a

/-- `inputs`: what the hour is scored by. -/
def inputs (expectedBuckets : ℤ) : DqInputs where
  expectedBuckets := expectedBuckets
  observedBuckets := a.buckets.card
  totalCount := a.total
  invalidCount := a.invalid
  gapSeconds := mergedLengthNs a.gaps / 1000000000
  lagP95Ms := p95 a.lagsMs
  windowS := a.windowNs / 1000000000

/-- The row of the window. -/
def row (cfg : Scoring) (expectedBuckets : ℤ) : DqRow :=
  (dqScore cfg (a.inputs expectedBuckets)).asRow

/-! ### What a row depends on -/

/-- **Alike**: the two give the same row, whatever is expected. -/
def Alike (a a' : DqAccumulator) : Prop :=
  ∀ (cfg : Scoring) (expected : ℤ), a'.row cfg expected = a.row cfg expected

variable {a}

/-- The number of the events counts only against the invalid ones. -/
theorem addChecked_alike (h : a.invalid = 0) : Alike a (a.addChecked false) := by
  intro cfg expected
  simp only [row, dqScore, inputs, addChecked, h, Bool.false_eq_true, if_false, validity_zero,
    DqScore.asRow]

/-- A lag counts only by the percentile. -/
theorem addLagMs_alike {lagMs : ℚ} (h : p95 (a.lagsMs ++ [lagMs]) = p95 a.lagsMs) :
    Alike a (a.addLagMs lagMs) := by
  intro cfg expected
  simp only [row, dqScore, inputs, addLagMs, h]

/-- **Covered**: every instant of the interval in the window lies in a gap that is counted. -/
def Covered (a : DqAccumulator) (loNs hiNs : ℤ) : Prop :=
  ∀ t, (a.clipped loNs hiNs).1 ≤ t → t < (a.clipped loNs hiNs).2 →
    ∃ p ∈ a.gaps, p.1 ≤ t ∧ t < p.2

/-- A gap that is covered already does not count. -/
theorem addGap_alike {loNs hiNs : ℤ} (h : a.Covered loNs hiNs) :
    Alike a (a.addGap loNs hiNs) := by
  intro cfg expected
  unfold addGap
  dsimp only
  split
  · have hsame : instants (a.gaps ++ [a.clipped loNs hiNs]) = instants a.gaps := by
      ext t
      rw [mem_instants, mem_instants]
      constructor
      · rintro ⟨p, hp, ht⟩
        rcases List.mem_append.mp hp with hp | hp
        · exact ⟨p, hp, ht⟩
        · cases List.mem_singleton.mp hp
          exact h t ht.1 ht.2
      · rintro ⟨p, hp, ht⟩
        exact ⟨p, List.mem_append_left _ hp, ht⟩
    simp only [row, dqScore, inputs, mergedLengthNs_eq, hsame]
  · rfl

/-- It stays covered when gaps are added. -/
theorem Covered.addGap {loNs hiNs : ℤ} (h : a.Covered loNs hiNs) :
    (a.addGap loNs hiNs).Covered loNs hiNs := by
  have hsub : a.gaps ⊆ (a.addGap loNs hiNs).gaps := by
    unfold DqAccumulator.addGap
    dsimp only
    split
    · exact List.subset_append_left _ _
    · exact List.Subset.refl _
  have hclip : (a.addGap loNs hiNs).clipped loNs hiNs = a.clipped loNs hiNs := by
    unfold DqAccumulator.addGap
    dsimp only
    split
    · rfl
    · rfl
  intro t hlo hhi
  rw [hclip] at hlo hhi
  obtain ⟨p, hp, ht⟩ := h t hlo hhi
  exact ⟨p, hsub hp, ht⟩

end DqAccumulator

end FuzzHelm
