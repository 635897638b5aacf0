import FuzzHelm.Ingest.GapReports
import FuzzHelm.Workers.MeasuredPipeline

namespace FuzzHelm

open Lib

/-!
# The gaps of a session are reported as open

The pipeline reports what the detector answers, in the order of the calls, and nothing else.  So
every gap that a session reports was reported as open, with the same bounds.

* `ReportsGaps` — what a part of the pipeline reports of the gaps that it leaves;
* `take_reports`, `skipMissing_reports`, `endFill_reports` — the parts;
* `Told` — the invariant of a measured pipeline; `Told.kept` — every call keeps it;
* `Told.session` — so does a session.
-/

/-- The gaps that are reported. -/
def reportedGaps (calls : List SinkCall) : List GapRecord :=
  calls.filterMap fun
    | .gap g => some g
    | .event _ | .candle _ | .trade _ | .invalid _ | .disconnect _ => none

/-- The gaps of two parts. -/
theorem reportedGaps_append (calls calls' : List SinkCall) :
    reportedGaps (calls ++ calls') = reportedGaps calls ++ reportedGaps calls' :=
  List.filterMap_append

/-- Gaps alone are all reported. -/
theorem reportedGaps_map_gap (gaps : List GapRecord) : reportedGaps (gaps.map .gap) = gaps := by
  induction gaps with
  | nil => rfl
  | cons g gaps ih => exact congrArg (g :: ·) ih

/-- Candles report no gap. -/
theorem reportedGaps_map_candle (cs : List Candle) : reportedGaps (cs.map .candle) = [] := by
  induction cs with
  | nil => rfl
  | cons c cs ih => exact ih

/-! ### The parts of the pipeline -/

/-- **What a part says**: the gaps that it reports, and those that are still to be reported, are
    what its calls of the detector tell. -/
structure ReportsGaps (p : IngestPipeline) (changed : List GapRecord) (p' : IngestPipeline) :
    Prop where
  calls : ∃ calls, p'.sunk.calls = p.sunk.calls ++ calls ∧
    Tells p.detector (reportedGaps calls ++ changed) p'.detector

namespace ReportsGaps

variable {p p' p'' : IngestPipeline} {changed : List GapRecord}

/-- A part that reports no gap. -/
theorem quiet (calls : List SinkCall) (hcalls : p'.sunk.calls = p.sunk.calls ++ calls)
    (hnone : reportedGaps calls = []) (htold : Tells p.detector changed p'.detector) :
    ReportsGaps p changed p' := by
  refine ⟨calls, hcalls, ?_⟩
  rw [hnone]
  exact htold

/-- A part that leaves the sinks and the detector alone. -/
theorem of_eq (hcalls : p'.sunk.calls = p.sunk.calls) (hdetector : p'.detector = p.detector) :
    ReportsGaps p [] p' := by
  refine quiet [] ?_ rfl (.of_eq ?_)
  · rw [hcalls, List.append_nil]
  · rw [hdetector]

/-- Two parts, one after the other. -/
theorem trans (h : ReportsGaps p [] p') (h' : ReportsGaps p' changed p'') :
    ReportsGaps p changed p'' := by
  obtain ⟨calls, hcalls, htold⟩ := h.calls
  obtain ⟨calls', hcalls', htold'⟩ := h'.calls
  refine ⟨calls ++ calls', ?_, ?_⟩
  · rw [hcalls', hcalls, List.append_assoc]
  · rw [reportedGaps_append, List.append_assoc]
    rw [List.append_nil] at htold
    exact htold.trans htold'

/-- Candles are released. -/
theorem release (p : IngestPipeline) (r : List Candle × CandleAggregator) :
    ReportsGaps p [] (p.release r) :=
  quiet _ rfl (reportedGaps_map_candle r.1) (.refl _)

/-- The detector answers one gap, and it is reported. -/
theorem gapChanged {d : GapDetector} {g : GapRecord} (htold : Tells p.detector [g] d) :
    ReportsGaps p [] ((p.called d).gapChanged g) := ⟨[.gap g], rfl, htold⟩

end ReportsGaps

section Parts

variable {world : Surroundings} {p p' : IngestPipeline}

/-- Looking whether an event is stale reports nothing. -/
theorem stale_reports (p : IngestPipeline) (ev : MarketEvent) :
    ReportsGaps p [] (p.stale ev).2 := by
  unfold IngestPipeline.stale
  cases ev with
  | candle c => exact .of_eq rfl rfl
  | trade t => exact .of_eq rfl rfl
  | book b =>
    dsimp only
    split <;> exact .of_eq rfl rfl
  | mark m =>
    dsimp only
    split <;> exact .of_eq rfl rfl

/-- What is answered is what the detector has answered. -/
theorem answered_ok {x : Except PyError (List GapRecord) × GapDetector} {changed : List GapRecord}
    {d : GapDetector} (h : answered x = .ok (changed, d)) : x = (.ok changed, d) := by
  obtain ⟨r, d'⟩ := x
  cases r with
  | error e => cases h
  | ok changed' =>
    cases h
    rfl

/-- **An event that is accepted**: what the detector answers is still to be reported. -/
theorem dispatch_reports {ev : MarketEvent} {outcome : DedupOutcome} {changed : List GapRecord}
    (h : p.dispatch world ev outcome = .ok (changed, p')) : ReportsGaps p changed p' := by
  -- the detector tells what it changed, whatever the kind of event
  cases ev with
  | candle c =>
    change p.takeCandle world c = .ok (changed, p') at h
    unfold IngestPipeline.takeCandle at h
    obtain ⟨⟨changed', detector⟩, hdetect, h⟩ := bind_eq_ok.mp h
    cases h
    refine .quiet _ rfl (reportedGaps_map_candle _) ?_
    show Tells p.detector changed detector
    unfold IngestPipeline.detectCandle at hdetect
    split_ifs at hdetect
    · -- the minute has been given up: only the time of the exchange moves
      cases hdetect
      exact onTime_tells _ _ _
    · exact onKline_tells (answered_ok hdetect)
  | trade t =>
    change p.takeTrade world t outcome = .ok (changed, p') at h
    unfold IngestPipeline.takeTrade at h
    obtain ⟨⟨changed', detector⟩, hdetect, h⟩ := bind_eq_ok.mp h
    cases h
    have htold : Tells p.detector changed detector := onTrade_tells (answered_ok hdetect)
    unfold IngestPipeline.handTrade
    split_ifs
    · exact .quiet [.trade t] rfl rfl htold
    · exact .quiet [] (List.append_nil _).symm rfl htold
  | book b =>
    cases h
    exact .quiet [] (List.append_nil _).symm rfl (onTime_tells _ _ _)
  | mark m =>
    cases h
    exact .quiet [] (List.append_nil _).symm rfl (onTime_tells _ _ _)

/-- **`_accept`** up to the gaps that have changed. -/
theorem take_reports {ev : MarketEvent} {o : Option (List GapRecord)}
    (h : p.take world ev = .ok (o, p')) : ReportsGaps p (o.getD []) p' := by
  unfold IngestPipeline.take at h
  split at h
  · -- a frame that breaks a rule is handed to the sink of those
    cases h
    exact .quiet [.invalid _] rfl rfl (.refl _)
  · rcases hoffer : p.dedup.offer ⟨ev, world.digest p.dedup.offers ev⟩ with ⟨outcome, dedup⟩
    rw [hoffer] at h
    dsimp only at h
    have hdedup : ReportsGaps p [] { p with dedup := dedup } := .of_eq rfl rfl
    have hstale := hdedup.trans (stale_reports { p with dedup := dedup } ev)
    -- a duplicate, an event behind what was handed on, or one that is dispatched
    split_ifs at h
    · cases h
      exact hdedup
    · split at h
      · rename_i p₂ hst
        cases h
        rw [hst] at hstale
        exact hstale
      · rename_i p₂ hst
        rw [hst] at hstale
        have hevent : ReportsGaps p₂ [] (p₂.handEvent ev) :=
          .quiet [.event ev] rfl rfl (.refl _)
        cases hd : (p₂.handEvent ev).dispatch world ev outcome with
        | error e =>
          rw [hd] at h
          cases h
        | ok r =>
          rw [hd] at h
          cases h
          exact hstale.trans (hevent.trans (dispatch_reports hd))

/-- What is given up reports candles alone. -/
theorem skipMissing_reports {gid : ℕ} (h : p.skipMissing gid = .ok p') : ReportsGaps p [] p' :=
  IngestPipeline.skipMissing_invariant (fun _ _ hp => hp.trans (.release _ _))
    (.of_eq rfl rfl) h

/-- The end of an attempt reports the gap again. -/
theorem endFill_reports {gid : ℕ} (h : p.endFill world gid = .ok p') : ReportsGaps p [] p' := by
  unfold IngestPipeline.endFill at h
  obtain ⟨⟨g, detector⟩, hresolve, h⟩ := bind_eq_ok.mp h
  have hreported : ReportsGaps p [] ((p.called detector).gapChanged g) :=
    .gapChanged (resolve_tells hresolve)
  by_cases hst : g.status ≠ .filled
  · simp only [if_pos hst] at h
    exact hreported.trans (skipMissing_reports h)
  · simp only [if_neg hst] at h
    cases h
    exact hreported

end Parts

/-! ### The invariant of a session -/

/-- **Told**: the accounts have noted every call, and every gap was opened before; `changed` is
    still to be reported. -/
structure Told (m : MeasuredPipeline) (changed : List GapRecord) : Prop where
  calls : m.steps.map (fun s => s.noted.call) = m.pipe.sunk.calls
  opened : OpenedFirst m.pipe.detector (reportedGaps m.pipe.sunk.calls ++ changed)

namespace Told

variable {world : Surroundings} {cfg : Scoring} {m m' : MeasuredPipeline}
  {changed : List GapRecord}

/-- A part has run, and the accounts have noted what it has handed to the sinks. -/
theorem noted (h : m.steps.map (fun s => s.noted.call) = m.pipe.sunk.calls) {p : IngestPipeline}
    {calls : List SinkCall} (hcalls : p.sunk.calls = m.pipe.sunk.calls ++ calls)
    (fromStream : Bool) (bucketNs : ℤ) :
    (m.moved cfg fromStream bucketNs p).steps.map (fun s => s.noted.call) = p.sunk.calls := by
  obtain ⟨hsteps, -⟩ := MeasuredPipeline.noteAll_noted cfg { m with pipe := p }
    (calls.map fun call => ⟨call, fromStream, bucketNs, p.detector.latestNs⟩)
  have hmap := congrArg (List.map Noted.call) hsteps
  rw [List.map_append, List.map_map, List.map_map, List.map_map] at hmap
  unfold MeasuredPipeline.moved
  rw [hcalls, List.drop_left]
  refine hmap.trans ?_
  have hnotes : calls.map (Noted.call ∘ fun call =>
      ⟨call, fromStream, bucketNs, p.detector.latestNs⟩) = calls := List.map_id calls
  rw [hnotes]
  exact congrArg (· ++ calls) h

variable (cfg) in
/-- **Step lemma**: a part of the pipeline has run. -/
theorem moved (h : Told m []) {p : IngestPipeline} (hreports : ReportsGaps m.pipe changed p)
    (fromStream : Bool) (bucketNs : ℤ) : Told (m.moved cfg fromStream bucketNs p) changed := by
  obtain ⟨calls, hcalls, htold⟩ := hreports.calls
  constructor
  · rw [MeasuredPipeline.moved_pipe]
    exact noted h.calls hcalls fromStream bucketNs
  · rw [MeasuredPipeline.moved_pipe, hcalls, reportedGaps_append, List.append_assoc]
    have hopened := h.opened
    rw [List.append_nil] at hopened
    exact hopened.tells htold

/-- What was still to be reported is reported. -/
theorem enqueued (h : Told m changed) : Told (m.movedOn cfg (m.pipe.enqueue changed)) [] := by
  have hcalls : (m.pipe.enqueue changed).sunk.calls = m.pipe.sunk.calls ++ changed.map .gap := rfl
  constructor
  · rw [MeasuredPipeline.movedOn_pipe]
    exact noted h.calls hcalls false 0
  · rw [MeasuredPipeline.movedOn_pipe, hcalls, reportedGaps_append, reportedGaps_map_gap,
      List.append_nil]
    exact h.opened

/-- The pipeline goes on from where a part of it has moved to. -/
theorem take {fromStream : Bool} {ev : MarketEvent} {o : Option (List GapRecord)} (h : Told m [])
    (htake : m.take world cfg fromStream ev = .ok (o, m')) : Told m' (o.getD []) := by
  unfold MeasuredPipeline.take at htake
  cases hpipe : m.pipe.take world ev with
  | error e =>
    rw [hpipe] at htake
    cases htake
  | ok r =>
    rw [hpipe] at htake
    cases htake
    exact h.moved cfg (take_reports hpipe) _ _

variable (world cfg) in
/-- **The calls of a session keep the invariant.** -/
theorem kept : MeasuredPipeline.KeptBySession world cfg (Told · []) Told where
  refused := fun h htake => h.take htake
  taken := fun h htake => h.take htake
  enqueued := fun h => h.enqueued
  requeued := fun _ _ h => ⟨h.calls, h.opened⟩
  skipped := fun h hskip => h.moved cfg (skipMissing_reports hskip) _ _
  begun := by
    intro m gid now g detector results h hbegin
    have hopened := ReportsGaps.gapChanged (p := m.pipe) (beginFill_tells hbegin)
    have hanswer : ReportsGaps ((m.pipe.called detector).gapChanged g) []
        (((m.pipe.called detector).gapChanged g).answer results).1 := .of_eq rfl rfl
    exact h.moved cfg (hopened.trans hanswer) _ _
  ended := fun h hend => h.moved cfg (endFill_reports hend) _ _
  invalid := by
    intro m e h
    have hreports : ReportsGaps m.pipe [] (m.pipe.invalid e) :=
      .quiet [.invalid e] rfl rfl (.refl _)
    exact h.moved cfg hreports _ _
  disconnected := by
    intro m conn h
    have hreports : ReportsGaps m.pipe [] { m.pipe with sunk := { m.pipe.sunk with
        disconnects := m.pipe.sunk.disconnects ++ [conn]
        calls := m.pipe.sunk.calls ++ [.disconnect conn] } } :=
      .quiet [.disconnect conn] rfl rfl (.refl _)
    exact h.moved cfg hreports _ _
  flushed := by
    -- the candidates that are confirmed are still to be reported
    intro m now h
    have hreports : ReportsGaps m.pipe (m.pipe.detector.flush now).1
        (m.pipe.called (m.pipe.detector.flush now).2) :=
      .quiet [] (List.append_nil _).symm rfl (flush_tells _ _)
    exact h.moved cfg hreports _ _
  released := fun h => h.moved cfg (.release _ _) _ _

/-- **A session**, from a pipeline that has neither gaps nor calls behind it. -/
theorem session {p : IngestPipeline} {items : List IngestPipeline.Item}
    (hcalls : p.sunk.calls = []) (hgaps : p.detector.gaps = ∅)
    (h : (MeasuredPipeline.start p).session world cfg items = .ok m) : Told m [] := by
  have hstart : Told (MeasuredPipeline.start p) [] := by
    constructor
    · exact hcalls.symm
    · show OpenedFirst p.detector (reportedGaps p.sunk.calls ++ [])
      rw [hcalls]
      constructor
      · intro gid g hg
        rw [hgaps] at hg
        cases hg
      · exact fun g hg => by cases hg
  obtain ⟨m₁, hm₁, hpipe, hsteps, -⟩ := (kept world cfg).session hstart h
  constructor
  · rw [hsteps, hpipe]
    exact hm₁.calls
  · rw [hpipe]
    exact hm₁.opened

end Told

end FuzzHelm
