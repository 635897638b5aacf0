import FuzzHelm.Workers.OpenedGaps
import FuzzHelm.Workers.QualitySession
import Mathlib.Algebra.BigOperators.Field

namespace FuzzHelm

open Lib

/-!
# The seconds of the gaps

A gap that is reported as open is cut at the hours, and each of its parts joins those of its
hour.  The hours are a partition of the time, so nothing is counted twice and nothing is lost.

* `GapsHeld` — the accounts hold a set of instants, each in its own hour;
* `GapsHeld.note` — what a call of a sink adds to the set;
* `sum_gaps`, `gaps_le_hour` — the hours together and one of them;
* `Recorded` — the accounts are those of the calls that have been noted;
* `Later.kept` — so they are after every call of a session;
* `gap_seconds` — the seconds of the hours add up to the length of the union of the gaps.
-/

/-! ### What the gaps cover -/

/-- The interval of a gap. -/
def GapRecord.interval (tf : Timeframe) (g : GapRecord) : ℤ × ℤ := (g.tsLoNs, g.endNs tf)

/-- The gaps that are reported as open. -/
def openedGaps (calls : List SinkCall) : List GapRecord :=
  (reportedGaps calls).filter fun g => decide (g.status = .opened)

/-- The instants of some gaps. -/
noncomputable def gapInstants (tf : Timeframe) (gaps : List GapRecord) : Finset ℤ :=
  instants (gaps.map (GapRecord.interval tf))

/-- No gap has no instants. -/
@[simp] theorem instants_nil : instants [] = ∅ := rfl

/-- The instants of two parts. -/
theorem instants_append (l l' : List (ℤ × ℤ)) : instants (l ++ l') = instants l ∪ instants l' := by
  ext t
  simp only [mem_instants, Finset.mem_union, List.mem_append]
  constructor
  · rintro ⟨p, hp | hp, ht⟩
    · exact .inl ⟨p, hp, ht⟩
    · exact .inr ⟨p, hp, ht⟩
  · rintro (⟨p, hp, ht⟩ | ⟨p, hp, ht⟩)
    · exact ⟨p, .inl hp, ht⟩
    · exact ⟨p, .inr hp, ht⟩

/-- Two times share an hour just when the one lies in the hour of the other. -/
theorem mem_hour_iff (t h : ℤ) : hourOf t = hourOf h ↔ hourOf h ≤ t ∧ t < hourOf h + hourNs := by
  have hpos : (0 : ℤ) < hourNs := by decide
  unfold hourOf
  have ht := Int.emod_nonneg t hpos.ne'
  have ht' := Int.emod_lt_of_pos t hpos
  have hh := Int.emod_nonneg h hpos.ne'
  constructor
  · intro heq
    omega
  · rintro ⟨hle, hlt⟩
    -- both are multiples of an hour, less than an hour apart
    have hdvd : hourNs ∣ (t - t % hourNs) - (h - h % hourNs) :=
      dvd_sub Int.dvd_self_sub_emod Int.dvd_self_sub_emod
    have habs : |(t - t % hourNs) - (h - h % hourNs)| < hourNs := by
      rw [abs_lt]
      omega
    have := Int.eq_zero_of_abs_lt_dvd hdvd habs
    omega

/-- An hour begins before every time in it, and ends after it. -/
theorem hourOf_le (t : ℤ) : hourOf t ≤ t ∧ t < hourOf t + hourNs :=
  (mem_hour_iff t t).mp rfl

/-- **The hours that an interval touches** have all its instants. -/
theorem hourOf_mem_touched {lo hi t : ℤ} (hlo : lo ≤ t) (hhi : t < hi) :
    hourOf t ∈ touchedHours lo hi := by
  have hpos : (0 : ℤ) < hourNs := by decide
  -- two beginnings of hours are whole hours apart
  have hdvd : hourNs ∣ hourOf t - hourOf lo := dvd_sub (hourOf_dvd t) (hourOf_dvd lo)
  have ht := hourOf_le t
  have hl := hourOf_le lo
  unfold touchedHours
  rw [mem_minutes hpos]
  refine ⟨?_, ?_, hdvd⟩
  · -- an hour that begins before another one ends before it, or at its beginning
    by_contra hlt
    obtain ⟨k, hk⟩ := hdvd
    have hk0 : k < 0 := by
      by_contra hk0
      have := mul_nonneg hpos.le (not_lt.mp hk0)
      omega
    have : hourNs * k ≤ hourNs * (-1) := mul_le_mul_of_nonneg_left (by omega) hpos.le
    omega
  -- and the last touched hour is that of the last instant
  · set d := max lo (hi - 1) - hourOf lo with hd
    have hd0 : 0 ≤ d / hourNs := Int.ediv_nonneg (by omega) hpos.le
    have hlast : d < hourNs * (d / hourNs + 1) := by
      have h₁ := Int.emod_add_mul_ediv d hourNs
      have h₂ := Int.emod_lt_of_pos d hpos
      rw [mul_add, mul_one]
      omega
    rw [Int.toNat_of_nonneg (by omega), mul_comm]
    omega

/-! ### The instants of the accounts -/

/-- **The accounts hold the instants** of a set, each in its own hour. -/
structure GapsHeld (q : HourQuality) (s : Finset ℤ) : Prop where
  window : ∀ h a, q.dq.get? h = some a → a.windowStartNs = h ∧ a.windowNs = hourNs
  hours : ∀ h a, q.dq.get? h = some a → hourOf h = h
  instants : ∀ h a, q.dq.get? h = some a → ∀ t, t ∈ FuzzHelm.instants a.gaps ↔ t ∈ s ∧ hourOf t = h
  covered : ∀ t ∈ s, (q.dq.get? (hourOf t)).isSome

/-- The hour of an hour is itself. -/
theorem hourOf_hourOf (t : ℤ) : hourOf (hourOf t) = hourOf t := by
  rw [mem_hour_iff]
  have hpos : (0 : ℤ) < hourNs := by decide
  omega

namespace GapsHeld

variable {q : HourQuality} {s : Finset ℤ}

/-- New accounts hold no instants. -/
theorem new : GapsHeld .new ∅ where
  window h a ha := by cases ha
  hours h a ha := by cases ha
  instants h a ha := by cases ha
  covered t ht := by cases ht

/-- The account of an hour, new or not. -/
theorem acc (hq : GapsHeld q s) (t : ℤ) :
    (q.acc t).windowStartNs = hourOf t ∧ (q.acc t).windowNs = hourNs ∧
      ∀ u, u ∈ FuzzHelm.instants (q.acc t).gaps ↔ u ∈ s ∧ hourOf u = hourOf t := by
  unfold HourQuality.acc
  cases ha : q.dq.get? (hourOf t) with
  | some a => exact ⟨(hq.window _ a ha).1, (hq.window _ a ha).2, hq.instants _ a ha⟩
  | none =>
    refine ⟨rfl, rfl, fun u => ?_⟩
    constructor
    · intro hu
      cases hu
    · rintro ⟨hu, hut⟩
      have := hq.covered u hu
      rw [hut, ha] at this
      cases this

/-- An account changes by some instants of its hour. -/
theorem account (hq : GapsHeld q s) {s' : Finset ℤ} {t : ℤ} {f : DqAccumulator → DqAccumulator}
    (hwindow : (f (q.acc t)).windowStartNs = (q.acc t).windowStartNs ∧
      (f (q.acc t)).windowNs = (q.acc t).windowNs)
    (hgaps : ∀ u, u ∈ FuzzHelm.instants (f (q.acc t)).gaps ↔ u ∈ s' ∧ hourOf u = hourOf t)
    (hrest : ∀ u, hourOf u ≠ hourOf t → (u ∈ s' ↔ u ∈ s)) : GapsHeld (q.account t f) s' where
  window := by
    -- the accounts differ at the hour of `t` only
    intro h a ha
    rw [HourQuality.get?_account] at ha
    split_ifs at ha with hh
    · cases ha
      rw [hwindow.1, hwindow.2, (hq.acc t).1, (hq.acc t).2.1]
      exact ⟨hh, rfl⟩
    · exact hq.window h a ha
  hours := by
    intro h a ha
    rw [HourQuality.get?_account] at ha
    split_ifs at ha with hh
    · rw [← hh, hourOf_hourOf]
    · exact hq.hours h a ha
  instants := by
    intro h a ha u
    rw [HourQuality.get?_account] at ha
    split_ifs at ha with hh
    · cases ha
      rw [hgaps u, hh]
    · rw [hq.instants h a ha u]
      refine and_congr_left fun hu => ?_
      rw [hrest u (by rw [hu]; exact fun hc => hh hc.symm)]
  covered := by
    intro u hu
    rw [HourQuality.get?_account]
    split_ifs with hh
    · rfl
    · exact hq.covered u ((hrest u fun hc => hh hc.symm).mp hu)

/-- What is not a gap changes nothing. -/
theorem same (hq : GapsHeld q s) (t : ℤ) {f : DqAccumulator → DqAccumulator}
    (hf : (f (q.acc t)).windowStartNs = (q.acc t).windowStartNs ∧
      (f (q.acc t)).windowNs = (q.acc t).windowNs ∧ (f (q.acc t)).gaps = (q.acc t).gaps) :
    GapsHeld (q.account t f) s := by
  refine hq.account ⟨hf.1, hf.2.1⟩ ?_ fun u _ => Iff.rfl
  rw [hf.2.2]
  exact (hq.acc t).2.2

/-- **A gap in one hour** adds what lies in the hour. -/
theorem addGap (hq : GapsHeld q s) (h lo hi : ℤ) :
    GapsHeld (q.account h fun a => a.addGap lo hi)
      (s ∪ (Finset.Ico lo hi).filter fun t => hourOf t = hourOf h) := by
  obtain ⟨hstart, hlength, hheld⟩ := hq.acc h
  refine hq.account ?_ ?_ ?_
  · unfold DqAccumulator.addGap
    dsimp only
    split_ifs
    · exact ⟨rfl, rfl⟩
    · exact ⟨rfl, rfl⟩
  · intro u
    rw [Finset.mem_union, Finset.mem_filter, Finset.mem_Ico, mem_hour_iff u h]
    have hu := hheld u
    rw [mem_hour_iff u h] at hu
    unfold DqAccumulator.addGap DqAccumulator.clipped
    rw [hstart, hlength]
    dsimp only
    split_ifs with hne
    · rw [instants_append, Finset.mem_union, hu]
      have hpart : u ∈ FuzzHelm.instants [(max lo (hourOf h), min hi (hourOf h + hourNs))] ↔
          max lo (hourOf h) ≤ u ∧ u < min hi (hourOf h + hourNs) := by
        rw [mem_instants]
        simp
      rw [hpart, max_le_iff, lt_min_iff]
      constructor
      · rintro (⟨hin, hhour⟩ | ⟨⟨hlo, hstart⟩, hhi, hend⟩)
        · exact ⟨.inl hin, hhour⟩
        · exact ⟨.inr ⟨⟨hlo, hhi⟩, hstart, hend⟩, hstart, hend⟩
      · rintro ⟨hin | ⟨hgap, -⟩, hhour⟩
        · exact .inl ⟨hin, hhour⟩
        · exact .inr ⟨⟨hgap.1, hhour.1⟩, hgap.2, hhour.2⟩
    · -- no instant of the gap lies in the hour
      rw [hu]
      constructor
      · rintro ⟨hin, hhour⟩
        exact ⟨.inl hin, hhour⟩
      · rintro ⟨hin | ⟨⟨hlo, hhi⟩, -⟩, hhour⟩
        · exact ⟨hin, hhour⟩
        · omega
  -- other hours keep their instants
  · intro u hu
    rw [Finset.mem_union, Finset.mem_filter]
    simp only [hu, and_false, or_false]

/-- **A gap adds all its instants.** -/
theorem countGap (hq : GapsHeld q s) (lo hi : ℤ) :
    GapsHeld (q.countGap lo hi) (s ∪ Finset.Ico lo hi) := by
  -- hour by hour over any list of hours
  have key : ∀ (hs : List ℤ) (q : HourQuality) (s : Finset ℤ), GapsHeld q s →
      GapsHeld (hs.foldl (fun q h => q.account h fun a => a.addGap lo hi) q)
        (s ∪ (Finset.Ico lo hi).filter fun t => hourOf t ∈ hs.map hourOf) := by
    intro hs
    induction hs with
    | nil =>
      intro q s hq
      simpa using hq
    | cons h hs ih =>
      intro q s hq
      have hnext := ih _ _ (hq.addGap h lo hi)
      have hsplit : (s ∪ (Finset.Ico lo hi).filter fun t => hourOf t = hourOf h) ∪
          ((Finset.Ico lo hi).filter fun t => hourOf t ∈ hs.map hourOf) =
          s ∪ (Finset.Ico lo hi).filter fun t => hourOf t ∈ (h :: hs).map hourOf := by
        ext t
        simp only [Finset.mem_union, Finset.mem_filter, List.map_cons, List.mem_cons, and_or_left,
          or_assoc]
      rw [hsplit] at hnext
      exact hnext
  have hall := key (touchedHours lo hi) q s hq
  -- the touched hours hold the whole gap
  have htouched : ((Finset.Ico lo hi).filter fun t =>
      hourOf t ∈ (touchedHours lo hi).map hourOf) = Finset.Ico lo hi := by
    apply Finset.filter_true_of_mem
    intro t ht
    rw [Finset.mem_Ico] at ht
    exact List.mem_map.mpr ⟨hourOf t, hourOf_mem_touched ht.1 ht.2, hourOf_hourOf t⟩
  rw [htouched] at hall
  exact hall

variable {cfg : Scoring} {tf : Timeframe}

/-- An event is not a gap. -/
theorem countEvent (hq : GapsHeld q s) (ev : MarketEvent) (fromStream : Bool) :
    GapsHeld (q.countEvent ev fromStream) s := by
  have hchecked := hq.same ev.tsEventNs (f := fun a => a.addChecked false) ⟨rfl, rfl, rfl⟩
  unfold HourQuality.countEvent
  cases fromStream with
  | false => exact hchecked
  | true => exact hchecked.same ev.tsEventNs (f := fun a => a.addLagMs ev.lagMs) ⟨rfl, rfl, rfl⟩

/-- What does not touch the accounts. -/
theorem congr (hq : GapsHeld q s) {q' : HourQuality} (hdq : q'.dq = q.dq) : GapsHeld q' s :=
  ⟨hdq ▸ hq.window, hdq ▸ hq.hours, hdq ▸ hq.instants, hdq ▸ hq.covered⟩

/-- The first candle is not a gap. -/
theorem seeFirst (hq : GapsHeld q s) (ev : MarketEvent) : GapsHeld (q.seeFirst tf ev) s := by
  cases ev with
  | candle c =>
    unfold HourQuality.seeFirst
    dsimp only
    split_ifs
    · exact hq.congr rfl
    · exact hq
  | trade t => exact hq
  | book b => exact hq
  | mark m => exact hq

/-- Rows are not gaps. -/
theorem writeCompleteHours (hq : GapsHeld q s) (latestNs exchangeNs : Option ℤ) :
    GapsHeld (q.writeCompleteHours cfg tf latestNs exchangeNs) s := by
  cases latestNs with
  | none => exact hq
  | some latestNs => exact hq.congr rfl

/-- **A call of a sink** adds the gap that it reports as open. -/
theorem note (hq : GapsHeld q s) (n : Noted) :
    GapsHeld (q.note cfg tf n) (s ∪ gapInstants tf (openedGaps [n.call])) := by
  obtain ⟨call, fromStream, bucketNs, exchangeNs⟩ := n
  -- only a gap that was just opened adds instants
  have hnone : gapInstants tf [] = ∅ := rfl
  cases call with
  | event ev =>
    rw [show openedGaps [.event ev] = [] from rfl, hnone, Finset.union_empty]
    exact (hq.countEvent ev fromStream).seeFirst ev
  | candle c =>
    rw [show openedGaps [.candle c] = [] from rfl, hnone, Finset.union_empty]
    have hcount : GapsHeld (q.countCandle c) s :=
      hq.same c.openTimeNs (f := fun a => a.addBucket c.openTimeNs) ⟨rfl, rfl, rfl⟩
    exact hcount.writeCompleteHours (some c.closeTimeNs) exchangeNs
  | gap g =>
    show GapsHeld (if g.status = .opened then _ else _) _
    have hone : openedGaps [.gap g] = if g.status = .opened then [g] else [] := by
      by_cases hs : g.status = .opened <;> simp [openedGaps, reportedGaps, hs]
    rw [hone]
    split_ifs with hs
    · have hinterval : gapInstants tf [g] = Finset.Ico g.tsLoNs (g.endNs tf) := by
        ext t
        simp [gapInstants, mem_instants, GapRecord.interval]
      rw [hinterval]
      exact hq.countGap g.tsLoNs (g.endNs tf)
    · rw [hnone, Finset.union_empty]
      exact hq
  | trade t =>
    rw [show openedGaps [.trade t] = [] from rfl, hnone, Finset.union_empty]
    exact hq
  | invalid e =>
    rw [show openedGaps [.invalid e] = [] from rfl, hnone, Finset.union_empty]
    exact hq.same bucketNs (f := fun a => a.addChecked true) ⟨rfl, rfl, rfl⟩
  | disconnect conn =>
    rw [show openedGaps [.disconnect conn] = [] from rfl, hnone, Finset.union_empty]
    exact hq

/-- **The calls of a session**, by induction on them. -/
theorem noteAll (hq : GapsHeld q s) (notes : List Noted) :
    GapsHeld (notes.foldl (HourQuality.note cfg tf) q)
      (s ∪ gapInstants tf (openedGaps (notes.map Noted.call))) := by
  induction notes generalizing q s with
  | nil =>
    show GapsHeld q (s ∪ ∅)
    rw [Finset.union_empty]
    exact hq
  | cons n notes ih =>
    have hnext := ih (hq.note n : GapsHeld (q.note cfg tf n) _)
    have hsplit : openedGaps ((n :: notes).map Noted.call) =
        openedGaps [n.call] ++ openedGaps (notes.map Noted.call) := by
      rw [openedGaps, openedGaps, openedGaps, ← List.filter_append, reportedGaps, reportedGaps,
        reportedGaps, ← List.filterMap_append]
      rfl
    rw [hsplit, gapInstants, List.map_append, instants_append, ← Finset.union_assoc]
    exact hnext

/-! ### The hours together -/

/-- The merged length of an hour is the number of its instants. -/
theorem gaps_length (hq : GapsHeld q s) (h : ℤ) :
    mergedLengthNs (q.acc h).gaps = (s.filter fun t => hourOf t = hourOf h).card := by
  rw [mergedLengthNs_eq]
  congr 2
  ext t
  rw [(hq.acc h).2.2, Finset.mem_filter]

/-- **The hours together** have every instant once. -/
theorem sum_gaps (hq : GapsHeld q s) :
    ∑ h ∈ q.dq.keys.toFinset, mergedLengthNs (q.acc h).gaps = s.card := by
  have hkey : ∀ h ∈ q.dq.keys.toFinset, hourOf h = h := by
    intro h hh
    obtain ⟨⟨k, a⟩, hmem, rfl⟩ := List.mem_map.mp (List.mem_toFinset.mp hh)
    exact hq.hours k a ((q.dq.mem_entries_iff k a).mp hmem)
  have hmaps : ∀ t ∈ s, hourOf t ∈ q.dq.keys.toFinset := by
    intro t ht
    obtain ⟨a, ha⟩ := Option.isSome_iff_exists.mp (hq.covered t ht)
    rw [List.mem_toFinset]
    exact List.mem_map.mpr ⟨(hourOf t, a), (q.dq.mem_entries_iff _ a).mpr ha, rfl⟩
  rw [Finset.card_eq_sum_card_fiberwise hmaps, Nat.cast_sum]
  apply Finset.sum_congr rfl
  intro h hh
  rw [hq.gaps_length h, hkey h hh]

/-- **One hour** has at most its length. -/
theorem gaps_le_hour (hq : GapsHeld q s) (h : ℤ) : mergedLengthNs (q.acc h).gaps ≤ hourNs := by
  have hsub : (s.filter fun t => hourOf t = hourOf h) ⊆
      Finset.Ico (hourOf h) (hourOf h + hourNs) := by
    intro t ht
    rw [Finset.mem_Ico, ← mem_hour_iff]
    exact (Finset.mem_filter.mp ht).2
  have hcard := Finset.card_le_card hsub
  rw [Int.card_Ico] at hcard
  rw [hq.gaps_length h]
  have : (0 : ℤ) < hourNs := by decide
  omega

end GapsHeld

/-! ### The accounts of the pipeline -/

/-- **Later**: what the accounts have become is what the calls since then have made of them. -/
structure Later (cfg : Scoring) (m m' : MeasuredPipeline) : Prop where
  tf : m'.pipe.tf = m.pipe.tf
  notes : ∃ notes, m'.steps.map QualityStep.noted = m.steps.map QualityStep.noted ++ notes ∧
    m'.quality = notes.foldl (HourQuality.note cfg m.pipe.tf) m.quality

namespace Later

variable {world : Surroundings} {cfg : Scoring} {m m' m'' : MeasuredPipeline}

/-- Nothing was noted. -/
theorem refl (cfg : Scoring) (m : MeasuredPipeline) : Later cfg m m :=
  ⟨rfl, [], (List.append_nil _).symm, rfl⟩

/-- What two parts have noted. -/
theorem trans (h : Later cfg m m') (h' : Later cfg m' m'') : Later cfg m m'' := by
  obtain ⟨notes, hsteps, hquality⟩ := h.notes
  obtain ⟨notes', hsteps', hquality'⟩ := h'.notes
  refine ⟨h'.tf.trans h.tf, notes ++ notes', ?_, ?_⟩
  · rw [hsteps', hsteps, List.append_assoc]
  · rw [hquality', hquality, h.tf, List.foldl_append]

/-- Only the queue changes. -/
theorem requeued (m : MeasuredPipeline) (toFill : List ℕ) (filling : Bool) :
    Later cfg m { m with pipe := { m.pipe with toFill := toFill, filling := filling } } :=
  ⟨rfl, [], (List.append_nil _).symm, rfl⟩

/-- A part of the pipeline has run. -/
theorem moved (m : MeasuredPipeline) {p : IngestPipeline} (hp : p.tf = m.pipe.tf)
    (fromStream : Bool) (bucketNs : ℤ) : Later cfg m (m.moved cfg fromStream bucketNs p) := by
  obtain ⟨hsteps, hquality⟩ := MeasuredPipeline.noteAll_noted cfg { m with pipe := p }
    ((p.sunk.calls.drop m.pipe.sunk.calls.length).map fun call =>
      ⟨call, fromStream, bucketNs, p.detector.latestNs⟩)
  refine ⟨?_, _, hsteps, ?_⟩
  · rw [MeasuredPipeline.moved_pipe]
    exact hp
  · rw [← hp]
    exact hquality

/-- An event, up to the gaps that have changed. -/
theorem take {fromStream : Bool} {ev : MarketEvent} {o : Option (List GapRecord)}
    (h : m.take world cfg fromStream ev = .ok (o, m')) : Later cfg m m' := by
  unfold MeasuredPipeline.take at h
  cases htake : m.pipe.take world ev with
  | error e =>
    rw [htake] at h
    cases h
  | ok r =>
    rw [htake] at h
    cases h
    exact moved m (IngestPipeline.take_same htake).tf fromStream ev.tsEventNs

/-- The gaps that have changed are noted. -/
theorem enqueue (m : MeasuredPipeline) (changed : List GapRecord) :
    Later cfg m (m.movedOn cfg (m.pipe.enqueue changed)) :=
  moved m (p := m.pipe.enqueue changed) rfl false 0

variable (world cfg) in
/-- **The calls of a session** keep what is later than `m`. -/
theorem kept (m : MeasuredPipeline) :
    MeasuredPipeline.KeptBySession world cfg (Later cfg m) fun m' _ => Later cfg m m' where
  refused := fun h htake => h.trans (take htake)
  taken := fun h htake => h.trans (take htake)
  enqueued := fun h => h.trans (enqueue _ _)
  requeued := fun toFill filling h => h.trans (requeued _ toFill filling)
  skipped := fun h hskip => h.trans (moved _ (IngestPipeline.skipMissing_same hskip).tf false 0)
  begun := by
    intro m' gid now g detector results h hbegin
    exact h.trans (moved m' (p := (((m'.pipe.called detector).gapChanged g).answer results).1)
      rfl false 0)
  ended := fun h hend => h.trans (moved _ (IngestPipeline.endFill_same hend).tf false 0)
  invalid := fun e h => h.trans (moved _ (p := IngestPipeline.invalid _ e) rfl false _)
  disconnected := fun conn h => h.trans (moved _ (by rfl) false 0)
  flushed := fun now h => h.trans (moved _ (by rfl) false 0)
  released := fun h => h.trans (moved _ (by rfl) false 0)

/-- **`_on_gaps`** reports what it is given, and more while it fills the gaps. -/
theorem onGaps {changed : List GapRecord} (h : m.onGaps world cfg changed = .ok m') :
    Later cfg m m' ∧ ∀ g ∈ changed, .gap g ∈ m'.steps.map fun s => s.noted.call := by
  have hreported : ∀ g ∈ changed,
      .gap g ∈ (m.movedOn cfg (m.pipe.enqueue changed)).steps.map fun s => s.noted.call := by
    intro g hg
    obtain ⟨hsteps, -⟩ := MeasuredPipeline.noteAll_noted cfg
      { m with pipe := m.pipe.enqueue changed }
      (((m.pipe.enqueue changed).sunk.calls.drop m.pipe.sunk.calls.length).map fun call =>
        ⟨call, false, 0, (m.pipe.enqueue changed).detector.latestNs⟩)
    have hmap : (m.movedOn cfg (m.pipe.enqueue changed)).steps.map (fun s => s.noted.call) =
        ((m.movedOn cfg (m.pipe.enqueue changed)).steps.map QualityStep.noted).map Noted.call :=
      (List.map_map ..).symm
    rw [hmap]
    refine List.mem_map.mpr ⟨⟨.gap g, false, 0, m.pipe.detector.latestNs⟩, ?_, rfl⟩
    refine hsteps ▸ List.mem_append_right _ ?_
    simp only [IngestPipeline.enqueue, List.drop_left, List.map_map, List.mem_map]
    exact ⟨g, hg, rfl⟩
  unfold MeasuredPipeline.onGaps MeasuredPipeline.onGapsWith at h
  dsimp only at h
  -- a fill under way leaves the queue to it; else the loop goes on from here
  split_ifs at h
  · cases h
    exact ⟨enqueue m changed, hreported⟩
  · have hloop := (kept world cfg _).fillLoop (refl cfg _) h
    refine ⟨(enqueue m changed).trans hloop, fun g hg => ?_⟩
    obtain ⟨notes, hsteps, -⟩ := hloop.notes
    have hcalls := congrArg (List.map Noted.call) hsteps
    rw [List.map_append, List.map_map, List.map_map] at hcalls
    show _ ∈ m'.steps.map (Noted.call ∘ QualityStep.noted)
    rw [hcalls]
    exact List.mem_append_left _ (hreported g hg)

end Later

/-! ### The law -/

/-- The gap seconds of the hour of `h`, whatever is expected in it. -/
def HourQuality.gapSeconds (q : HourQuality) (h : ℤ) : ℚ := ((q.acc h).inputs 0).gapSeconds

/-- The lists of gaps are fed to `_on_gaps`, one after another. -/
def MeasuredPipeline.feed (world : Surroundings) (cfg : Scoring) (m : MeasuredPipeline)
    (changes : List (List GapRecord)) : Except PyError MeasuredPipeline :=
  changes.foldlM (MeasuredPipeline.onGaps world cfg) m

/-- **Run lemma**: whatever lists of gaps are fed, by induction on them. -/
theorem Later.feed {world : Surroundings} {cfg : Scoring} {changes : List (List GapRecord)} :
    ∀ {m m' : MeasuredPipeline}, m.feed world cfg changes = .ok m' →
      Later cfg m m' ∧ ∀ g ∈ changes.flatten, .gap g ∈ m'.steps.map fun s => s.noted.call := by
  -- by induction on the reports of the detector
  induction changes with
  | nil =>
    intro m m' h
    cases h
    exact ⟨.refl cfg m, fun g hg => by cases hg⟩
  | cons changed changes ih =>
    intro m m' h
    unfold MeasuredPipeline.feed at h
    rw [List.foldlM_cons] at h
    obtain ⟨m₁, hone, h⟩ := bind_eq_ok.mp h
    obtain ⟨hlater, hreported⟩ := Later.onGaps hone
    obtain ⟨hrest, hrested⟩ := ih h
    refine ⟨hlater.trans hrest, fun g hg => ?_⟩
    rw [List.flatten_cons, List.mem_append] at hg
    rcases hg with hg | hg
    · obtain ⟨notes, hsteps, -⟩ := hrest.notes
      have hcalls := congrArg (List.map Noted.call) hsteps
      rw [List.map_append, List.map_map, List.map_map] at hcalls
      show _ ∈ m'.steps.map (Noted.call ∘ QualityStep.noted)
      rw [hcalls]
      exact List.mem_append_left _ (hreported g hg)
    · exact hrested g hg

/-- The hours together have the length of the union of the gaps that are reported as open. -/
theorem sum_gapSeconds {cfg : Scoring} (tf : Timeframe) (notes : List Noted) :
    let q := notes.foldl (HourQuality.note cfg tf) .new
    ∑ h ∈ q.dq.keys.toFinset, q.gapSeconds h =
      (gapInstants tf (openedGaps (notes.map Noted.call))).card / 1000000000 := by
  have hheld : GapsHeld (notes.foldl (HourQuality.note cfg tf) .new) _ := GapsHeld.new.noteAll notes
  rw [Finset.empty_union] at hheld
  simp only [HourQuality.gapSeconds, DqAccumulator.inputs]
  rw [← Finset.sum_div]
  congr 1
  exact_mod_cast hheld.sum_gaps

/-- When every gap was reported as open, those that are reported as open are all of them. -/
theorem gapInstants_opened {tf : Timeframe} {calls : List SinkCall}
    (hopened : ∀ g ∈ reportedGaps calls, ∃ g' ∈ openedGaps calls,
      g'.interval tf = g.interval tf) :
    gapInstants tf (openedGaps calls) = gapInstants tf (reportedGaps calls) := by
  ext t
  simp only [gapInstants, mem_instants, List.mem_map]
  constructor
  · rintro ⟨_, ⟨g, hg, rfl⟩, ht⟩
    exact ⟨_, ⟨g, List.mem_of_mem_filter hg, rfl⟩, ht⟩
  · rintro ⟨_, ⟨g, hg, rfl⟩, ht⟩
    obtain ⟨g', hg', hsame⟩ := hopened g hg
    exact ⟨_, ⟨g', hg', rfl⟩, hsame ▸ ht⟩

/-- The bounds of a gap are its interval. -/
theorem SameGap.interval {g g' : GapRecord} (h : SameGap g g') (tf : Timeframe) :
    g.interval tf = g'.interval tf := by
  unfold GapRecord.interval GapRecord.endNs
  rw [h.tsLoNs, h.tsHiNs, h.stream]

/-- What has been told of a session: every gap was reported as open. -/
theorem Told.openedGaps {m : MeasuredPipeline} (h : Told m []) (tf : Timeframe) :
    ∀ g ∈ reportedGaps (m.steps.map fun s => s.noted.call),
      ∃ g' ∈ FuzzHelm.openedGaps (m.steps.map fun s => s.noted.call),
        g'.interval tf = g.interval tf := by
  have hopened := h.opened
  rw [List.append_nil, ← h.calls] at hopened
  intro g hg
  obtain ⟨g', hg', hopen, hsame⟩ := hopened.reported g hg
  exact ⟨g', List.mem_filter.mpr ⟨hg', decide_eq_true hopen⟩, hsame.interval tf⟩

/-- Writing the rows of the hours leaves the accounts as they are. -/
theorem HourQuality.gapSeconds_writeCompleteHours (q : HourQuality) (cfg : Scoring)
    (tf : Timeframe) (latestNs exchangeNs : Option ℤ) :
    (q.writeCompleteHours cfg tf latestNs exchangeNs).dq = q.dq ∧
      ∀ h, (q.writeCompleteHours cfg tf latestNs exchangeNs).gapSeconds h = q.gapSeconds h := by
  cases latestNs with
  | none => exact ⟨rfl, fun _ => rfl⟩
  | some latestNs => exact ⟨rfl, fun _ => rfl⟩

/-- **Gap seconds.**  The merged length of any intervals is that of their union.  In any sequence
    of calls the hours add up to the union of the gaps that are reported as open, which is that of
    all gaps when every gap is reported as open once; no hour has more than 3600 seconds.  What
    `_on_gaps` is fed, with whatever happens while it fills the gaps, is such a sequence.  In a
    session every gap that is reported was reported as open, so its hours add up to the union of
    all. -/
theorem gap_seconds (cfg : Scoring) :
    (∀ intervals, mergedLengthNs intervals = (instants intervals).card) ∧
    (∀ (tf : Timeframe) (notes : List Noted),
      let q := notes.foldl (HourQuality.note cfg tf) .new
      let calls := notes.map Noted.call
      ∑ h ∈ q.dq.keys.toFinset, q.gapSeconds h =
          (gapInstants tf (openedGaps calls)).card / 1000000000 ∧
        (∀ h, 0 ≤ q.gapSeconds h ∧ q.gapSeconds h ≤ 3600) ∧
        ((∀ g ∈ reportedGaps calls, ∃ g' ∈ openedGaps calls, g'.interval tf = g.interval tf) →
          gapInstants tf (openedGaps calls) = gapInstants tf (reportedGaps calls))) ∧
    (∀ (world : Surroundings) (p : IngestPipeline) (changes : List (List GapRecord))
      (m : MeasuredPipeline), (MeasuredPipeline.start p).feed world cfg changes = .ok m →
        m.quality = (m.steps.map QualityStep.noted).foldl (HourQuality.note cfg p.tf) .new ∧
          changes.flatten ⊆ reportedGaps (m.steps.map fun s => s.noted.call)) ∧
    ∀ (world : Surroundings) (i : IngestInstrument) (items : List IngestPipeline.Item)
      (m : MeasuredPipeline), (MeasuredPipeline.start i.pipe).session world cfg items = .ok m →
        let calls := m.steps.map fun s => s.noted.call
        (∀ g ∈ reportedGaps calls, ∃ g' ∈ openedGaps calls,
          g'.interval i.pipe.tf = g.interval i.pipe.tf) ∧
        ∑ h ∈ m.quality.dq.keys.toFinset, m.quality.gapSeconds h =
          (gapInstants i.pipe.tf (reportedGaps calls)).card / 1000000000 := by
  refine ⟨mergedLengthNs_eq, ?_, ?_, ?_⟩
  · intro tf notes
    dsimp only
    have hheld : GapsHeld (notes.foldl (HourQuality.note cfg tf) .new) _ :=
      GapsHeld.new.noteAll notes
    rw [Finset.empty_union] at hheld
    refine ⟨sum_gapSeconds tf notes, ?_, gapInstants_opened⟩
    · intro h
      have hle : (mergedLengthNs ((notes.foldl (HourQuality.note cfg tf) .new).acc h).gaps : ℚ) ≤
          3600 * 1000000000 := by
        exact_mod_cast hheld.gaps_le_hour h
      have hnonneg :
          (0 : ℚ) ≤ mergedLengthNs ((notes.foldl (HourQuality.note cfg tf) .new).acc h).gaps := by
        rw [hheld.gaps_length h]
        exact Nat.cast_nonneg _
      simp only [HourQuality.gapSeconds, DqAccumulator.inputs]
      constructor
      · exact div_nonneg hnonneg (by norm_num)
      · rw [div_le_iff₀ (by norm_num)]
        exact hle
  · intro world p changes m h
    obtain ⟨hlater, hreported⟩ := Later.feed h
    obtain ⟨notes, hsteps, hquality⟩ := hlater.notes
    constructor
    · rw [hquality, hsteps]
      rfl
    · intro g hg
      exact List.mem_filterMap.mpr ⟨.gap g, hreported g hg, rfl⟩
  · intro world i items m h
    have htold := Told.session rfl rfl h
    obtain ⟨m₁, hlater, -, hsteps, hquality⟩ :=
      (Later.kept world cfg (.start i.pipe)).session (.refl cfg _) h
    obtain ⟨notes, hnotes, hfold⟩ := hlater.notes
    have hcalls : (m.steps.map fun s => s.noted.call) = notes.map Noted.call := by
      rw [hsteps]
      exact (List.map_map ..).symm.trans (congrArg (List.map Noted.call) hnotes)
    have hwritten := m₁.quality.gapSeconds_writeCompleteHours cfg m₁.pipe.tf
      m₁.pipe.detector.latestNs m₁.pipe.detector.latestNs
    refine ⟨htold.openedGaps i.pipe.tf, ?_⟩
    rw [← gapInstants_opened (htold.openedGaps i.pipe.tf), hcalls, hquality, hwritten.1]
    simp only [hwritten.2]
    rw [hfold]
    exact sum_gapSeconds i.pipe.tf notes

/-- A gap of trades between two times. -/
def tradeGap (lo hi : ℤ) (status : GapStatus) : GapRecord :=
  ⟨1, "BTC-USDT-PERP", .trades, .seq, lo, hi, 1, status, 0, 0, some 1, some 1, none, 0, none, none⟩

/-- Two gaps that overlap across the end of an hour, and the first one again when it is full. -/
def straddlingGaps : List Noted :=
  [tradeGap (hourNs - 2) (hourNs + 3) .opened, tradeGap (hourNs + 1) (hourNs + 5) .opened,
    tradeGap (hourNs - 2) (hourNs + 3) .filled].map fun g => ⟨.gap g, false, 0, none⟩

/-- The hours of the sample have seven instants, two of them in the first hour. -/
theorem gap_seconds_straddling :
    let q := straddlingGaps.foldl (HourQuality.note IngestWorker.evenScoring .minute) .new
    ∑ h ∈ q.dq.keys.toFinset, q.gapSeconds h = 7 / 1000000000 ∧
      (q.gapSeconds 0 = 2 / 1000000000 ∧ q.gapSeconds hourNs = 5 / 1000000000) := by
  refine ⟨?_, by decide +kernel⟩
  rw [((gap_seconds IngestWorker.evenScoring).2.1 .minute straddlingGaps).1]
  have hcard :
      ((gapInstants .minute (openedGaps (straddlingGaps.map Noted.call))).card : ℤ) = 7 := by
    rw [gapInstants, ← (gap_seconds IngestWorker.evenScoring).1]
    decide +kernel
  have : ((gapInstants .minute (openedGaps (straddlingGaps.map Noted.call))).card : ℚ) = 7 := by
    exact_mod_cast hcard
  rw [this]

end FuzzHelm
