import FuzzHelm.Ingest.NeverRaises

namespace FuzzHelm

open Lib

/-!
# The parts of the pipeline and their calls

Whatever a part of the pipeline does between two others: it stays safe, it never moves the exchange
time back, and it releases no candle before the first one has been accepted.

* `Handing` — the calls of the sinks that a part makes; `Part` — what a part does;
* `Releasing` — candles are released without an event;
* `take_part` — an event, up to the gaps that have changed.
-/

/-! ### The parts of the pipeline -/

/-- Nothing has been offered to the aggregator. -/
def Idle (a : CandleAggregator) : Prop := a.next = none ∧ a.held = ∅

/-- **The calls of a part**: a candle of the timeframe is accepted and others are released, or no
    such candle is accepted, and none is released before the first one. -/
inductive Handing (p p' : IngestPipeline) : List SinkCall → Prop
  | opening {c : Candle} {released : List Candle} : c.tf = p.tf.name → p.tf.ns ∣ c.openTimeNs →
      Handing p p' (.event (.candle c) :: released.map .candle)
  | other {calls : List SinkCall} : (∀ c, .event (.candle c) ∈ calls → c.tf ≠ p.tf.name) →
      (Idle p.aggregator → Idle p'.aggregator ∧ ∀ c, .candle c ∉ calls) → Handing p p' calls

/-- What comes before the detector does not count. -/
theorem Handing.before {p p₁ p' : IngestPipeline} {calls : List SinkCall}
    (h : Handing p₁ p' calls) (htf : p₁.tf = p.tf) (hagg : p₁.aggregator = p.aggregator) :
    Handing p p' calls := by
  cases h with
  | opening hname hgrid => exact .opening (htf ▸ hname) (htf ▸ hgrid)
  | other hevent hnone =>
    rw [htf] at hevent
    rw [hagg] at hnone
    exact .other hevent hnone

/-- **A part of the pipeline** stays safe, moves the exchange time forward and hands its calls
    over. -/
structure Part (p p' : IngestPipeline) : Prop where
  safe : PipeSafe p'
  later : NotBefore p.detector.latestNs p'.detector.latestNs
  tf : p'.tf = p.tf
  aggTf : p'.aggregator.tf = p.aggregator.tf
  calls : ∃ calls, p'.sunk.calls = p.sunk.calls ++ calls ∧ Handing p p' calls

namespace Part

variable {world : Surroundings} {p p' : IngestPipeline} {ev : MarketEvent}

/-- The aggregator does not take part. -/
theorem quiet (hsafe : PipeSafe p')
    (hlater : NotBefore p.detector.latestNs p'.detector.latestNs) (htf : p'.tf = p.tf)
    (hagg : p'.aggregator = p.aggregator) {calls : List SinkCall}
    (hcalls : p'.sunk.calls = p.sunk.calls ++ calls)
    (hevent : ∀ c, .event (.candle c) ∈ calls → c.tf ≠ p.tf.name)
    (hnone : ∀ c, .candle c ∉ calls) : Part p p' where
  safe := hsafe
  later := hlater
  tf := htf
  aggTf := by rw [hagg]
  calls := ⟨calls, hcalls, .other hevent fun hidle => ⟨hagg ▸ hidle, hnone⟩⟩

/-- Gaps that have changed are reported. -/
theorem enqueue (h : PipeSafe p) {changed : List GapRecord}
    (hlisted : Listed p.detector changed) : Part p (p.enqueue changed) :=
  quiet (enqueue_safe h hlisted) (.refl _) rfl rfl rfl (fun c hc => by simp at hc) fun c hc => by
    simp at hc

end Part

/-- **Candles are released** without an event: none, before the first candle. -/
structure Releasing (p p' : IngestPipeline) : Prop where
  detector : p'.detector = p.detector
  tf : p'.tf = p.tf
  aggTf : p'.aggregator.tf = p.aggregator.tf
  calls : ∃ cs : List Candle, p'.sunk.calls = p.sunk.calls ++ cs.map .candle ∧
    (Idle p.aggregator → Idle p'.aggregator ∧ cs = [])

namespace Releasing

variable {p p' p'' : IngestPipeline}

/-- Nothing is released. -/
theorem refl (p : IngestPipeline) : Releasing p p :=
  ⟨rfl, rfl, rfl, [], (List.append_nil _).symm, fun h => ⟨h, rfl⟩⟩

/-- What two parts release. -/
theorem trans (h : Releasing p p') (h' : Releasing p' p'') : Releasing p p'' where
  detector := h'.detector.trans h.detector
  tf := h'.tf.trans h.tf
  aggTf := h'.aggTf.trans h.aggTf
  calls := by
    obtain ⟨cs, hcs, hidle⟩ := h.calls
    obtain ⟨cs', hcs', hidle'⟩ := h'.calls
    refine ⟨cs ++ cs', by rw [hcs', hcs, List.append_assoc, List.map_append], fun hp => ?_⟩
    obtain ⟨hp', hnil⟩ := hidle hp
    obtain ⟨hp'', hnil'⟩ := hidle' hp'
    exact ⟨hp'', by rw [hnil, hnil']; rfl⟩

/-- The aggregator gives up a minute. -/
theorem skip (p : IngestPipeline) (m : ℤ) : Releasing p (p.release (p.aggregator.skip m m)) where
  detector := rfl
  tf := rfl
  aggTf := (SameAggregator.skip _ _ _).tf
  calls := by
    refine ⟨_, rfl, fun hidle => ?_⟩
    have hgive (ms : List ℤ) (a : CandleAggregator) (ha : Idle a) :
        Idle (ms.foldl CandleAggregator.giveUp a) := by
      induction ms generalizing a with
      | nil => exact ha
      | cons m ms ih =>
        refine ih _ ?_
        unfold CandleAggregator.giveUp
        split
        · exact ha
        · exact ha
    have hgiven := hgive (minutes p.aggregator.tf.ns m ((m - m) / p.aggregator.tf.ns + 1).toNat)
      p.aggregator hidle
    show Idle (p.aggregator.skip m m).2 ∧ (p.aggregator.skip m m).1 = []
    unfold CandleAggregator.skip
    dsimp only
    split
    · rename_i hnext
      rw [hgiven.1] at hnext
      cases hnext
    · exact ⟨hgiven, rfl⟩
    · exact ⟨hgiven, rfl⟩

/-- What waits is flushed. -/
theorem flush (p : IngestPipeline) : Releasing p (p.release p.aggregator.flush) where
  detector := rfl
  tf := rfl
  aggTf := by
    show p.aggregator.flush.2.tf = p.aggregator.tf
    unfold CandleAggregator.flush
    split
    · rfl
    · rfl
  calls := by
    refine ⟨_, rfl, fun hidle => ?_⟩
    show Idle p.aggregator.flush.2 ∧ p.aggregator.flush.1 = []
    rw [AggBooks.flush_empty hidle.2]
    exact ⟨hidle, rfl⟩

/-- What a gap misses is given up. -/
theorem skipMissing {gid : ℕ} (h : p.skipMissing gid = .ok p') : Releasing p p' :=
  IngestPipeline.skipMissing_invariant (fun q m hq => hq.trans (skip q m)) (.refl p) h

/-- Candles are released after gaps have been reported. -/
theorem after (gaps : List GapRecord) {p₁ : IngestPipeline} (h : Releasing p₁ p')
    (hsafe : PipeSafe p') (hlater : NotBefore p.detector.latestNs p₁.detector.latestNs)
    (htf : p₁.tf = p.tf) (hagg : p₁.aggregator = p.aggregator)
    (hcalls : p₁.sunk.calls = p.sunk.calls ++ gaps.map .gap) : Part p p' where
  safe := hsafe
  later := by
    rw [h.detector]
    exact hlater
  tf := h.tf.trans htf
  aggTf := by rw [h.aggTf, hagg]
  calls := by
    obtain ⟨cs, hcs, hidle⟩ := h.calls
    refine ⟨gaps.map .gap ++ cs.map .candle, by rw [hcs, hcalls, List.append_assoc],
      .other (fun c hc => by simp at hc) fun hp => ?_⟩
    obtain ⟨hp', hnil⟩ := hidle (hagg ▸ hp)
    refine ⟨hp', fun c hc => ?_⟩
    rw [hnil] at hc
    simp at hc

end Releasing

/-! ### One event -/

section Event

variable {world : Surroundings} {p p' : IngestPipeline} {ev : MarketEvent}

/-- The detector never moves the exchange time back. -/
theorem dispatch_later (h : PipeSafe p) {outcome : DedupOutcome} {changed : List GapRecord}
    (hd : p.dispatch world ev outcome = .ok (changed, p')) :
    NotBefore p.detector.latestNs p'.detector.latestNs := by
  obtain ⟨candles, seen, haccounts⟩ := h.accounts
  -- every kind of event moves the exchange time forward or leaves it
  cases ev with
  | candle c =>
    change p.takeCandle world c = .ok (changed, p') at hd
    unfold IngestPipeline.takeCandle at hd
    obtain ⟨⟨_, detector⟩, hdetect, hd⟩ := bind_eq_ok.mp hd
    cases hd
    show NotBefore p.detector.latestNs detector.latestNs
    unfold IngestPipeline.detectCandle at hdetect
    split at hdetect
    · cases hdetect
      exact (haccounts.onTime _ _).forward.latestNs
    · obtain ⟨records, d', hcall, hm⟩ := haccounts.onKline (world.clock p.reads) c
      rw [hcall] at hdetect
      cases hdetect
      exact hm.forward.latestNs
  | trade t =>
    change p.takeTrade world t outcome = .ok (changed, p') at hd
    unfold IngestPipeline.takeTrade at hd
    obtain ⟨⟨_, detector⟩, hdetect, hd⟩ := bind_eq_ok.mp hd
    cases hd
    show NotBefore p.detector.latestNs detector.latestNs
    obtain ⟨records, d', hcall, hm⟩ := haccounts.onTrade (world.clock p.reads) t
    rw [hcall] at hdetect
    cases hdetect
    exact hm.forward.latestNs
  | book b =>
    cases hd
    exact (haccounts.onTime _ _).forward.latestNs
  | mark m =>
    cases hd
    exact (haccounts.onTime _ _).forward.latestNs

/-- **The calls of an accepted event.** -/
theorem dispatch_handing (haggTf : p.aggregator.tf = p.tf) (hvalid : p.violations ev = [])
    {outcome : DedupOutcome} {changed : List GapRecord}
    (hd : p.dispatch world ev outcome = .ok (changed, p')) :
    p'.aggregator.tf = p.aggregator.tf ∧ ∃ calls, p'.sunk.calls = p.sunk.calls ++ calls ∧
      Handing p p' (.event ev :: calls) := by
  -- what is handed on besides the event itself, kind by kind
  cases ev with
  | candle c =>
    change p.takeCandle world c = .ok (changed, p') at hd
    unfold IngestPipeline.takeCandle at hd
    obtain ⟨⟨_, detector⟩, -, hd⟩ := bind_eq_ok.mp hd
    cases hd
    refine ⟨(SameAggregator.offer p.aggregator c).tf, _, rfl, ?_⟩
    -- a candle of the interval lies on its grid, since it passed the checks
    by_cases htf : c.tf = p.tf.name
    · exact .opening htf (Int.dvd_of_emod_eq_zero (checkCandle_nil hvalid htf).1)
    · have hoffer : p.aggregator.offer c = ([], p.aggregator) := by
        refine AggBooks.offer_other ?_
        unfold CandleAggregator.accepts
        rw [haggTf, decide_eq_false htf, Bool.false_and]
      refine .other (fun c' hc' => ?_) fun hidle => ?_
      · rw [hoffer] at hc'
        cases List.mem_singleton.mp hc'
        exact htf
      · show Idle (p.aggregator.offer c).2 ∧ _
        rw [hoffer]
        exact ⟨hidle, fun c' hc' => by simp at hc'⟩
  | trade t =>
    change p.takeTrade world t outcome = .ok (changed, p') at hd
    unfold IngestPipeline.takeTrade IngestPipeline.handTrade at hd
    obtain ⟨⟨_, detector⟩, -, hd⟩ := bind_eq_ok.mp hd
    cases hd
    -- only a new trade is handed on
    split
    · exact ⟨rfl, [.trade t], rfl, .other (fun c hc => by simp at hc) fun hidle =>
        ⟨hidle, fun c hc => by simp at hc⟩⟩
    · exact ⟨rfl, [], (List.append_nil _).symm, .other (fun c hc => by simp at hc) fun hidle =>
        ⟨hidle, fun c hc => by simp at hc⟩⟩
  | book b =>
    cases hd
    exact ⟨rfl, [], (List.append_nil _).symm, .other (fun c hc => by simp at hc) fun hidle =>
      ⟨hidle, fun c hc => by simp at hc⟩⟩
  | mark m =>
    cases hd
    exact ⟨rfl, [], (List.append_nil _).symm, .other (fun c hc => by simp at hc) fun hidle =>
      ⟨hidle, fun c hc => by simp at hc⟩⟩

/-- Looking whether an event is stale touches no sink. -/
theorem stale_sunk (p : IngestPipeline) (ev : MarketEvent) : (p.stale ev).2.sunk = p.sunk := by
  unfold IngestPipeline.stale
  cases ev with
  | candle c => rfl
  | trade t => rfl
  | book b =>
    dsimp only
    split <;> rfl
  | mark m =>
    dsimp only
    split <;> rfl

/-- **One event** up to the gaps that have changed. -/
theorem take_part (h : PipeSafe p) (haggTf : p.aggregator.tf = p.tf)
    {o : Option (List GapRecord)} (htake : p.take world ev = .ok (o, p')) :
    Part p p' ∧ ∀ changed ∈ o, Listed p'.detector changed := by
  obtain ⟨o', p'', hsame, hstep, hlisted⟩ := take_safe world h ev
  rw [htake] at hsame
  cases hsame
  refine ⟨?_, hlisted⟩
  unfold IngestPipeline.take at htake
  -- rejected, duplicate or stale: the sink sees nothing of the stream; else it is dispatched
  cases hbad : p.violations ev with
  | cons code rest =>
    simp only [hbad] at htake
    cases htake
    exact .quiet hstep.safe (.refl _) rfl rfl rfl (fun c hc => by simp at hc) fun c hc => by
      simp at hc
  | nil =>
    simp only [hbad] at htake
    rcases hoffer : p.dedup.offer ⟨ev, world.digest p.dedup.offers ev⟩ with ⟨outcome, dedup⟩
    simp only [hoffer] at htake
    by_cases hdup : outcome = .duplicate
    · simp only [if_pos hdup] at htake
      cases htake
      exact .quiet hstep.safe (.refl _) rfl rfl (List.append_nil _).symm
        (fun c hc => by cases hc) fun c hc => by cases hc
    · simp only [if_neg hdup] at htake
      have hun := IngestPipeline.stale_untouched { p with dedup := dedup } ev
      have hsunk := stale_sunk { p with dedup := dedup } ev
      rcases hst : ({ p with dedup := dedup } : IngestPipeline).stale ev with ⟨old, p₂⟩
      rw [hst] at hun hsunk
      simp only [hst] at htake
      cases old with
      | true =>
        cases htake
        have hcalls : p'.sunk.calls = p.sunk.calls ++ [] := by rw [hsunk, List.append_nil]
        refine .quiet hstep.safe ?_ hun.tf hun.aggregator hcalls (fun c hc => by cases hc)
          fun c hc => by cases hc
        rw [hun.detector]
        exact .refl _
      | false =>
        cases hd : (p₂.handEvent ev).dispatch world ev outcome with
        | error e =>
          simp only [hd] at htake
          cases htake
        | ok r =>
          obtain ⟨changed, p₃⟩ := r
          simp only [hd] at htake
          cases htake
          have hsafe₂ : PipeSafe (p₂.handEvent ev) := h.congr hun.detector hun.toFill
          have hvalid : (p₂.handEvent ev).violations ev = [] := by
            rw [← hbad]
            show p₂.violations ev = p.violations ev
            unfold IngestPipeline.violations
            rw [hun.spec]
          have haggTf₂ : (p₂.handEvent ev).aggregator.tf = (p₂.handEvent ev).tf := by
            show p₂.aggregator.tf = p₂.tf
            rw [hun.aggregator, hun.tf]
            exact haggTf
          obtain ⟨haggTf', calls, hcalls, hhanding⟩ := dispatch_handing haggTf₂ hvalid hd
          refine ⟨hstep.safe, ?_, ?_, ?_, .event ev :: calls, ?_,
            hhanding.before hun.tf hun.aggregator⟩
          · have hlater := dispatch_later hsafe₂ hd
            change NotBefore p₂.detector.latestNs _ at hlater
            rw [hun.detector] at hlater
            exact hlater
          · exact (IngestPipeline.dispatch_same hd).tf.trans hun.tf
          · rw [haggTf']
            exact congrArg CandleAggregator.tf hun.aggregator
          · rw [hcalls]
            show p₂.sunk.calls ++ [.event ev] ++ calls = _
            rw [hsunk, List.append_assoc]
            rfl

end Event

end FuzzHelm
