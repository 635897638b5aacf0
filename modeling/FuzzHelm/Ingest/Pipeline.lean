import FuzzHelm.Ingest.Aggregator
import Mathlib.Data.Finset.Sort

namespace FuzzHelm

open Lib

/-!
# The ingest pipeline

Every event of the exchange passes the checks and the deduplication, is handed to the sinks, and
moves the gap detector and the aggregator of candles.  A gap that is opened is filled from the
REST interface by events that take the same way.

* `Deduplicator` — which events are new;
* `IngestPipeline` — the state, with what the sinks have been given and in what order;
* `take`, `acceptWith` — one event;
* `fillGap`, `fillLoop` — the gaps in the queue;
* `process`, `finish`, `run` — the calls.

What the pipeline only counts (its health and the score of the data quality) is left out.
-/

/-! ### Deduplication -/

/-- `DedupOutcome`: a new identifier, a copy, or a better copy. -/
inductive DedupOutcome where
  | new
  | duplicate
  | replaced
  deriving DecidableEq, Repr

/-- A copy of an event as it came: the event by its values, and the digest of its canonical bytes.
    Decimals of one value that are written with different numbers of zeros make copies that are
    equal and have different digests. -/
structure EventCopy where
  event : MarketEvent
  digest : String
  deriving DecidableEq

/-- The identifier of a copy is that of its event. -/
def EventCopy.eventUid (ev : EventCopy) : String := ev.event.eventUid

/-- The events that are held under their identifiers, the oldest first, and how often each outcome
    was answered. -/
structure Deduplicator where
  maxSize : Option {n : ℕ // 0 < n}
  events : Dict String EventCopy
  stats : DedupOutcome → ℕ

/-- `precedence`; tuples are compared like lists. -/
def precedence : MarketEvent → List ℤ
  | .candle c => [if c.isClosed then 1 else 0, -c.src, c.tsEventNs, -c.tsIngestNs]
  | .trade t => [1, 0, t.tsEventNs, -t.tsIngestNs]
  | .book b => [1, 0, b.tsEventNs, -b.tsIngestNs]
  | .mark m => [1, 0, m.tsEventNs, -m.tsIngestNs]

/-- `_outranks`: the digest decides between copies of the same time. -/
def outranks (new old : EventCopy) : Bool :=
  if precedence new.event ≠ precedence old.event then
    decide (precedence old.event < precedence new.event)
  else decide (old.digest < new.digest)

namespace Deduplicator

/-- `Deduplicator(max_size)`: nothing is held, and nothing was counted. -/
def new (maxSize : Option {n : ℕ // 0 < n}) : Deduplicator := ⟨maxSize, ∅, fun _ => 0⟩

/-- The outcome is counted. -/
def count (d : Deduplicator) (outcome : DedupOutcome) : Deduplicator :=
  { d with stats := fun x => if x = outcome then d.stats x + 1 else d.stats x }

/-- How many copies have been offered. -/
def offers (d : Deduplicator) : ℕ := d.stats .new + d.stats .duplicate + d.stats .replaced

/-- `offer`: a new identifier enters, and a copy of a higher rank takes the place of the one that is
    held. -/
def offer (d : Deduplicator) (ev : EventCopy) : DedupOutcome × Deduplicator :=
  match d.events.get? ev.eventUid with
  | none =>
    let events := d.events.insert ev.eventUid ev
    let full := d.maxSize.any fun n => decide (n.1 < events.entries.length)
    (.new, { d with events := if full then events.drop 1 else events }.count .new)
  | some old =>
    if outranks ev old then
      (.replaced, { d with events := d.events.insert ev.eventUid ev }.count .replaced)
    else (.duplicate, d.count .duplicate)

end Deduplicator

/-! ### The state -/

/-- What the hook of the backfill answers for one gap; a hook that raises answers no events and
    its error. -/
structure FillResult where
  events : List MarketEvent
  requests : ℤ
  error : Option String

/-- `InvalidEvent`: a frame that is no event, or an event that breaks a rule. -/
structure InvalidEvent where
  tsIngestNs : ℤ
  stream : String
  code : String
  detail : String

/-- A call of a sink. -/
inductive SinkCall where
  | event (ev : MarketEvent)
  | candle (c : Candle)
  | trade (t : Trade)
  | gap (g : GapRecord)
  | invalid (e : InvalidEvent)
  | disconnect (conn : String)

/-- What the sinks have been given: each of them, and all of them in the order of the calls. -/
structure Sunk where
  events : List MarketEvent
  candles : List Candle
  trades : List Trade
  gaps : List GapRecord
  invalid : List InvalidEvent
  disconnects : List String
  calls : List SinkCall

/-- What the pipeline is given from outside: the digest of the `n`-th copy that is offered, and the
    readings of the clock, one for each call of the gap detector. -/
structure Surroundings where
  digest : ℕ → MarketEvent → String
  clock : ℕ → ℤ

/-- `backfill` holds the answers of the hook that are still to come (then it answers nothing), or
    there is no hook. -/
structure IngestPipeline where
  canon : String
  tf : Timeframe
  spec : Option InstrumentSpec
  backfill : Option (List FillResult)
  dedup : Deduplicator
  detector : GapDetector
  aggregator : CandleAggregator
  reads : ℕ
  toFill : List ℕ
  filling : Bool
  lastBookU : Option ℤ
  lastMarkNs : Option ℤ
  tradesEmitted : ℕ
  backfillRequests : ℤ
  backfillErrors : List String
  sunk : Sunk

/-- `event_kind`: the text by which the accounts name an event. -/
def eventKind : MarketEvent → String
  | .candle _ => "candle"
  | .trade _ => "trade"
  | .book _ => "book"
  | .mark _ => "mark"

/-- `PUBLIC_CONN`, the connection that carries no trades. -/
def publicConn : String := "public"

/-- The result of a call of the detector, when it does not raise. -/
def answered (x : Except PyError (List GapRecord) × GapDetector) :
    Except PyError (List GapRecord × GapDetector) := x.1.map fun changed => (changed, x.2)

namespace IngestPipeline

/-- `IngestPipeline(instrument, backfill=…, tf=…, grace_ms=…, max_reorder_ids=…,
    dedup_window=…)`. -/
def new (canon : String) (tf : Timeframe) (spec : Option InstrumentSpec)
    (backfill : Option (List FillResult)) (graceMs maxReorderIds : ℤ)
    (dedupWindow : Option {n : ℕ // 0 < n}) : IngestPipeline where
  canon := canon
  tf := tf
  spec := spec
  backfill := backfill
  dedup := .new dedupWindow
  detector := .new canon tf graceMs maxReorderIds
  aggregator := .new tf (some canon) true none 100000
  reads := 0
  toFill := []
  filling := false
  lastBookU := none
  lastMarkNs := none
  tradesEmitted := 0
  backfillRequests := 0
  backfillErrors := []
  sunk := ⟨[], [], [], [], [], [], []⟩

variable (world : Surroundings) (p : IngestPipeline)

/-- The detector has been called with a reading of the clock. -/
def called (detector : GapDetector) : IngestPipeline :=
  { p with detector := detector, reads := p.reads + 1 }

/-- `_release`, for the candles that the aggregator releases together. -/
def release (r : List Candle × CandleAggregator) : IngestPipeline :=
  { p with
    aggregator := r.2
    sunk := { p.sunk with
      candles := p.sunk.candles ++ r.1
      calls := p.sunk.calls ++ r.1.map .candle } }

/-- `_gap_changed`: the sink of the gaps is given one record. -/
def gapChanged (g : GapRecord) : IngestPipeline :=
  { p with sunk := { p.sunk with
      gaps := p.sunk.gaps ++ [g]
      calls := p.sunk.calls ++ [.gap g] } }

/-- `_invalid`: the sink of what is refused is given its code. -/
def invalid (e : InvalidEvent) : IngestPipeline :=
  { p with sunk := { p.sunk with
      invalid := p.sunk.invalid ++ [e]
      calls := p.sunk.calls ++ [.invalid e] } }

/-! ### One event -/

/-- `_violations`: the rules that an event breaks; a mark price has none. -/
def violations : MarketEvent → List String
  | .candle c => checkCandle c p.spec
  | .trade t => checkTrade t p.spec
  | .book b => checkBook b p.spec
  | .mark _ => []

/-- `_stale`: a book or a mark price that is older than the last one. -/
def stale : MarketEvent → Bool × IngestPipeline
  | .book b =>
    if p.lastBookU.any fun u => decide (b.lastUpdateId < u) then (true, p)
    else (false, { p with lastBookU := some b.lastUpdateId })
  | .mark m =>
    if p.lastMarkNs.any fun ts => decide (m.tsEventNs < ts) then (true, p)
    else (false, { p with lastMarkNs := some m.tsEventNs })
  | .candle _ => (false, p)
  | .trade _ => (false, p)

/-- The detector is given a candle, but for a minute that has been given up: that is not
    delivered any more. -/
def detectCandle (c : Candle) : Except PyError (List GapRecord × GapDetector) :=
  if c.isClosed ∧ c.tf = p.tf.name ∧ p.aggregator.isSkipped c.openTimeNs then
    .ok (p.detector.onTime (world.clock p.reads) c.tsEventNs)
  else answered (p.detector.onKline (world.clock p.reads) c)

/-- A candle goes to the detector, and then to the aggregator. -/
def takeCandle (c : Candle) : Except PyError (List GapRecord × IngestPipeline) := do
  let (changed, detector) ← p.detectCandle world c
  return (changed, (p.called detector).release (p.aggregator.offer c))

/-- A trade is handed over when its id is new. -/
def handTrade (t : Trade) (outcome : DedupOutcome) : IngestPipeline :=
  if outcome = .new then
    { p with
      tradesEmitted := p.tradesEmitted + 1
      sunk := { p.sunk with
        trades := p.sunk.trades ++ [t]
        calls := p.sunk.calls ++ [.trade t] } }
  else p

/-- A trade goes to the detector, and is handed over when it is new. -/
def takeTrade (t : Trade) (outcome : DedupOutcome) :
    Except PyError (List GapRecord × IngestPipeline) := do
  let (changed, detector) ← answered (p.detector.onTrade (world.clock p.reads) t)
  return (changed, (p.handTrade t outcome).called detector)

/-- Another event only moves the exchange time. -/
def takeOther (tsEventNs : ℤ) : List GapRecord × IngestPipeline :=
  let r := p.detector.onTime (world.clock p.reads) tsEventNs
  (r.1, p.called r.2)

/-- An event that is accepted is handed over. -/
def handEvent (ev : MarketEvent) : IngestPipeline :=
  { p with sunk := { p.sunk with
      events := p.sunk.events ++ [ev]
      calls := p.sunk.calls ++ [.event ev] } }

/-- An event that is accepted, by its kind. -/
def dispatch (ev : MarketEvent) (outcome : DedupOutcome) :
    Except PyError (List GapRecord × IngestPipeline) :=
  match ev with
  | .candle c => p.takeCandle world c
  | .trade t => p.takeTrade world t outcome
  | .book b => .ok (p.takeOther world b.tsEventNs)
  | .mark m => .ok (p.takeOther world m.tsEventNs)

/-- `_accept` up to the gaps that have changed, if the event comes that far. -/
def take (ev : MarketEvent) : Except PyError (Option (List GapRecord) × IngestPipeline) :=
  match p.violations ev with
  | code :: rest =>
    .ok (none, p.invalid ⟨ev.tsIngestNs, eventKind ev, code, String.intercalate "," (code :: rest)⟩)
  | [] =>
    let (outcome, dedup) := p.dedup.offer ⟨ev, world.digest p.dedup.offers ev⟩
    let p₁ : IngestPipeline := { p with dedup := dedup }
    if outcome = .duplicate then .ok (none, p₁)
    else
      match p₁.stale ev with
      | (true, p₂) => .ok (none, p₂)
      | (false, p₂) => ((p₂.handEvent ev).dispatch world ev outcome).map fun r => (some r.1, r.2)

/-! ### Gaps -/

/-- The gaps that have changed are reported, and those that are open wait to be filled. -/
def enqueue (changed : List GapRecord) : IngestPipeline :=
  { p with
    sunk := { p.sunk with
      gaps := p.sunk.gaps ++ changed
      calls := p.sunk.calls ++ changed.map .gap }
    toFill := p.toFill ++
      (changed.filter fun g => decide (g.status = .opened)).map GapRecord.gapId }

/-- `_on_gaps`, with the loop that fills the gaps in the queue. -/
def onGapsWith (loop : IngestPipeline → Except PyError IngestPipeline)
    (changed : List GapRecord) : Except PyError IngestPipeline :=
  if p.filling then .ok (p.enqueue changed) else loop (p.enqueue changed)

/-- `_accept`, with the loop that fills the gaps in the queue. -/
def acceptWith (loop : IngestPipeline → Except PyError IngestPipeline) (ev : MarketEvent) :
    Except PyError IngestPipeline := do
  match ← p.take world ev with
  | (none, p₁) => .ok p₁
  | (some changed, p₁) => p₁.onGapsWith loop changed

/-- `_skip_missing`: the aggregator gives up what a gap of candles misses. -/
def skipMissing (gid : ℕ) : Except PyError IngestPipeline := do
  let (g, miss) ← p.detector.gapOf gid
  if g.stream ≠ .klines then return p
  else return (miss.sort (· ≤ ·)).foldl (fun p m => p.release (p.aggregator.skip m m)) p

/-- The answer of the hook for one gap. -/
def answer (results : List FillResult) : IngestPipeline × FillResult :=
  let res := results.headD ⟨[], 0, none⟩
  ({ p with
    backfill := some results.tail
    backfillRequests := p.backfillRequests + res.requests
    backfillErrors := p.backfillErrors ++ res.error.toList.filter fun e => decide (e ≠ "") }, res)

/-- The end of an attempt: what is missing still is given up. -/
def endFill (gid : ℕ) : Except PyError IngestPipeline := do
  let (g, detector) ← p.detector.resolve (world.clock p.reads) gid
  let p₁ := (p.called detector).gapChanged g
  if g.status ≠ .filled then p₁.skipMissing gid else return p₁

/-- One gap of the queue, in the loop of `_fill_loop`. -/
def fillGap (gid : ℕ) : Except PyError IngestPipeline :=
  match p.detector.gaps.get? gid with
  | none => .error (.keyError "gap")
  | some g =>
    if g.status = .filled then .ok p
    else
      match p.backfill with
      | none => p.skipMissing gid
      | some results => do
        let (g', detector) ← p.detector.beginFill (world.clock p.reads) gid
        let (p₁, res) := ((p.called detector).gapChanged g').answer results
        -- the loop runs already, so the events of the hook only add to its queue
        let p₂ ← res.events.foldlM (fun p ev => p.acceptWith world .ok ev) p₁
        p₂.endFill world gid

end IngestPipeline

/-! ### The loop ends

Every gap of the queue either takes an answer of the hook or leaves the rest of the queue as it
is. -/

/-- What one event leaves alone. -/
structure SameTask (p p' : IngestPipeline) : Prop where
  canon : p'.canon = p.canon
  tf : p'.tf = p.tf
  spec : p'.spec = p.spec
  backfill : p'.backfill = p.backfill
  toFill : p'.toFill = p.toFill
  filling : p'.filling = p.filling

namespace SameTask

variable {p p' p'' : IngestPipeline}

/-- Nothing has changed. -/
theorem refl (p : IngestPipeline) : SameTask p p := ⟨rfl, rfl, rfl, rfl, rfl, rfl⟩

/-- What two parts leave alone. -/
theorem trans (h : SameTask p p') (h' : SameTask p' p'') : SameTask p p'' :=
  ⟨h'.canon.trans h.canon, h'.tf.trans h.tf, h'.spec.trans h.spec, h'.backfill.trans h.backfill,
    h'.toFill.trans h.toFill, h'.filling.trans h.filling⟩

end SameTask

namespace IngestPipeline

variable {world : Surroundings} {p p' : IngestPipeline} {ev : MarketEvent}

/-- Handing a trade over leaves the task alone. -/
theorem handTrade_same (p : IngestPipeline) (t : Trade) (outcome : DedupOutcome) :
    SameTask p (p.handTrade t outcome) := by
  unfold handTrade
  split <;> exact ⟨rfl, rfl, rfl, rfl, rfl, rfl⟩

/-- An event that is accepted leaves the task alone. -/
theorem dispatch_same {outcome : DedupOutcome} {changed : List GapRecord}
    (h : p.dispatch world ev outcome = .ok (changed, p')) : SameTask p p' := by
  cases ev with
  | candle c =>
    change p.takeCandle world c = .ok (changed, p') at h
    unfold takeCandle at h
    obtain ⟨⟨_, detector⟩, -, h⟩ := bind_eq_ok.mp h
    cases h
    exact ⟨rfl, rfl, rfl, rfl, rfl, rfl⟩
  | trade t =>
    change p.takeTrade world t outcome = .ok (changed, p') at h
    unfold takeTrade at h
    obtain ⟨⟨_, detector⟩, -, h⟩ := bind_eq_ok.mp h
    cases h
    exact (p.handTrade_same t outcome).trans ⟨rfl, rfl, rfl, rfl, rfl, rfl⟩
  | book b =>
    cases h
    exact ⟨rfl, rfl, rfl, rfl, rfl, rfl⟩
  | mark m =>
    cases h
    exact ⟨rfl, rfl, rfl, rfl, rfl, rfl⟩

/-- What the parts of the pipeline before the detector leave alone. -/
structure Untouched (p p' : IngestPipeline) : Prop extends SameTask p p' where
  detector : p'.detector = p.detector
  aggregator : p'.aggregator = p.aggregator
  candles : p'.sunk.candles = p.sunk.candles

/-- Looking whether an event is stale touches neither the detector nor the aggregator. -/
theorem stale_untouched (p : IngestPipeline) (ev : MarketEvent) : Untouched p (p.stale ev).2 := by
  unfold stale
  cases ev with
  | candle c => exact ⟨.refl p, rfl, rfl, rfl⟩
  | trade t => exact ⟨.refl p, rfl, rfl, rfl⟩
  | book b =>
    dsimp only
    split <;> exact ⟨⟨rfl, rfl, rfl, rfl, rfl, rfl⟩, rfl, rfl, rfl⟩
  | mark m =>
    dsimp only
    split <;> exact ⟨⟨rfl, rfl, rfl, rfl, rfl, rfl⟩, rfl, rfl, rfl⟩

/-- **The way of an event**: it is refused, or it reaches the detector as it is. -/
theorem take_cases (world : Surroundings) (p : IngestPipeline) (ev : MarketEvent) :
    (∃ p', p.take world ev = .ok (none, p') ∧ Untouched p p') ∨
    ∃ p₁ outcome, p.violations ev = [] ∧ Untouched p p₁ ∧
      p.take world ev = (p₁.dispatch world ev outcome).map fun r => (some r.1, r.2) := by
  unfold take
  -- refused, known already, behind what was handed on, or dispatched
  cases hbad : p.violations ev with
  | cons code rest => exact .inl ⟨_, rfl, ⟨rfl, rfl, rfl, rfl, rfl, rfl⟩, rfl, rfl, rfl⟩
  | nil =>
    rcases hoffer : p.dedup.offer ⟨ev, world.digest p.dedup.offers ev⟩ with ⟨outcome, dedup⟩
    by_cases hdup : outcome = .duplicate
    · simp only [if_pos hdup]
      exact .inl ⟨_, rfl, ⟨rfl, rfl, rfl, rfl, rfl, rfl⟩, rfl, rfl, rfl⟩
    · simp only [if_neg hdup]
      have hdedup : Untouched p { p with dedup := dedup } :=
        ⟨⟨rfl, rfl, rfl, rfl, rfl, rfl⟩, rfl, rfl, rfl⟩
      have hstale := stale_untouched { p with dedup := dedup } ev
      rcases hst : ({ p with dedup := dedup } : IngestPipeline).stale ev with ⟨old, p₂⟩
      rw [hst] at hstale
      have hall : Untouched p p₂ := ⟨hdedup.toSameTask.trans hstale.toSameTask, hstale.detector,
        hstale.aggregator, hstale.candles⟩
      cases old with
      | true => exact .inl ⟨_, rfl, hall⟩
      | false =>
        refine .inr ⟨p₂.handEvent ev, outcome, trivial, ⟨hall.toSameTask.trans ?_, hall.detector,
          hall.aggregator, hall.candles⟩, rfl⟩
        exact ⟨rfl, rfl, rfl, rfl, rfl, rfl⟩

/-- The answers of the hook that are still to come. -/
def left (p : IngestPipeline) : ℕ := p.backfill.elim 0 List.length

/-- The answers that are left depend on the hook alone. -/
theorem left_of_backfill (h : p'.backfill = p.backfill) : p'.left = p.left := by
  unfold left
  rw [h]

/-- An event leaves the task alone. -/
theorem take_same {o : Option (List GapRecord)} (h : p.take world ev = .ok (o, p')) :
    SameTask p p' := by
  rcases take_cases world p ev with ⟨p₁, htake, hun⟩ | ⟨p₁, outcome, -, hun, htake⟩
  · rw [htake] at h
    cases h
    exact hun.toSameTask
  · rw [htake] at h
    cases hd : p₁.dispatch world ev outcome with
    | error e =>
      rw [hd] at h
      cases h
    | ok r =>
      rw [hd] at h
      cases h
      exact hun.toSameTask.trans (dispatch_same hd)

/-- An event of the hook takes no answer of it. -/
theorem acceptWith_backfill (h : p.acceptWith world .ok ev = .ok p') :
    p'.backfill = p.backfill := by
  unfold acceptWith at h
  obtain ⟨⟨o, p₁⟩, htake, h⟩ := bind_eq_ok.mp h
  have hsame := take_same htake
  cases o with
  | none =>
    cases h
    exact hsame.backfill
  | some changed =>
    change p₁.onGapsWith .ok changed = .ok p' at h
    unfold onGapsWith at h
    split at h
    · cases h
      exact hsame.backfill
    · cases h
      exact hsame.backfill

/-- The events of the hook take no answer of it, by induction on them. -/
theorem acceptAll_backfill {evs : List MarketEvent} :
    ∀ {p p' : IngestPipeline}, evs.foldlM (fun p ev => p.acceptWith world .ok ev) p = .ok p' →
      p'.backfill = p.backfill := by
  induction evs with
  | nil =>
    intro p p' h
    cases h
    rfl
  | cons ev evs ih =>
    intro p p' h
    rw [List.foldlM_cons] at h
    obtain ⟨p₁, hacc, h⟩ := bind_eq_ok.mp h
    rw [ih h, acceptWith_backfill hacc]

/-- **What is given up one candle at a time**: a property that one release keeps is kept by all. -/
theorem skipMissing_invariant {I : IngestPipeline → Prop}
    (hone : ∀ p m, I p → I (p.release (p.aggregator.skip m m))) {gid : ℕ} (hp : I p)
    (h : p.skipMissing gid = .ok p') : I p' := by
  have hfold (ms : List ℤ) : ∀ p, I p →
      I (ms.foldl (fun p m => p.release (p.aggregator.skip m m)) p) := by
    induction ms with
    | nil => exact fun p h => h
    | cons m ms ih => exact fun p h => ih _ (hone p m h)
  unfold skipMissing at h
  obtain ⟨⟨g, miss⟩, -, h⟩ := bind_eq_ok.mp h
  by_cases hs : g.stream ≠ .klines
  · simp only [if_pos hs] at h
    cases h
    exact hp
  · simp only [if_neg hs] at h
    cases h
    exact hfold _ p hp

/-- A gap that the detector knows can be given up. -/
theorem skipMissing_returns {gid : ℕ} {x : GapRecord × Finset ℤ}
    (h : p.detector.gapOf gid = .ok x) : ∃ p', p.skipMissing gid = .ok p' := by
  unfold skipMissing
  rw [h]
  by_cases hs : x.1.stream ≠ .klines
  · exact ⟨p, by simp only [bind, Except.bind, if_pos hs]; rfl⟩
  · exact ⟨_, by simp only [bind, Except.bind, if_neg hs]; rfl⟩

/-- Giving candles up leaves the task alone. -/
theorem skipMissing_same {gid : ℕ} (h : p.skipMissing gid = .ok p') : SameTask p p' :=
  skipMissing_invariant (fun _ _ hp => hp.trans ⟨rfl, rfl, rfl, rfl, rfl, rfl⟩) (.refl p) h

/-- The end of an attempt leaves the task alone. -/
theorem endFill_same {gid : ℕ} (h : p.endFill world gid = .ok p') : SameTask p p' := by
  unfold endFill at h
  obtain ⟨⟨g, detector⟩, -, h⟩ := bind_eq_ok.mp h
  have hcalled : SameTask p ((p.called detector).gapChanged g) := ⟨rfl, rfl, rfl, rfl, rfl, rfl⟩
  by_cases hst : g.status ≠ .filled
  · simp only [if_pos hst] at h
    exact hcalled.trans (skipMissing_same h)
  · simp only [if_neg hst] at h
    cases h
    exact hcalled

/-- **A gap of the queue** takes an answer of the hook, or it leaves the hook and the rest of the
    queue as they are. -/
theorem fillGap_progress {gid : ℕ} (h : p.fillGap world gid = .ok p') :
    p'.left < p.left ∨ (p'.left = p.left ∧ p'.toFill = p.toFill) := by
  unfold fillGap at h
  split at h
  · cases h
  · split at h
    · cases h
      exact .inr ⟨rfl, rfl⟩
    · split at h
      · have hsame := skipMissing_same h
        exact .inr ⟨left_of_backfill hsame.backfill, hsame.toFill⟩
      · rename_i results hback
        obtain ⟨⟨g', detector⟩, -, h⟩ := bind_eq_ok.mp h
        obtain ⟨p₂, hall, h⟩ := bind_eq_ok.mp h
        have hend := endFill_same h
        cases results with
        | nil =>
          -- the hook answers no events, so nothing joins the queue
          cases hall
          refine .inr ⟨left_of_backfill (hend.backfill.trans hback.symm), hend.toFill⟩
        | cons res results =>
          have hrest : p'.backfill = some results :=
            hend.backfill.trans (acceptAll_backfill hall)
          left
          unfold left
          rw [hrest, hback]
          exact Nat.lt_succ_self _

/-- `_fill_loop`: gap after gap of the queue, with those that are opened meanwhile. -/
def fillLoop (world : Surroundings) (p : IngestPipeline) : Except PyError IngestPipeline :=
  match _hqueue : p.toFill with
  | [] => .ok { p with filling := false }
  | gid :: rest =>
    match _hfill : fillGap world { p with toFill := rest, filling := true } gid with
    | .error e => .error e
    | .ok p' => fillLoop world p'
termination_by (p.left, p.toFill.length)
decreasing_by
  rcases fillGap_progress _hfill with hleft | ⟨hleft, hrest⟩
  · exact Prod.Lex.left _ _ hleft
  · rw [hleft, hrest, _hqueue]
    exact Prod.Lex.right _ (Nat.lt_succ_self _)

/-- Nothing waits to be filled. -/
theorem fillLoop_nil {world : Surroundings} {p : IngestPipeline} (h : p.toFill = []) :
    p.fillLoop world = .ok { p with filling := false } := by
  rw [fillLoop]
  split
  · rfl
  · rename_i hcons
    rw [h] at hcons
    cases hcons

/-- One gap of the queue, and the loop from there on. -/
theorem fillLoop_step {world : Surroundings} {p : IngestPipeline} {gid : ℕ} {rest : List ℕ}
    (hqueue : p.toFill = gid :: rest) :
    p.fillLoop world = fillGap world { p with toFill := rest, filling := true } gid >>=
      fun p' => p'.fillLoop world := by
  rw [fillLoop]
  split
  · rename_i hnil
    rw [hqueue] at hnil
    cases hnil
  · rename_i hcons
    rw [hqueue] at hcons
    cases hcons
    split <;> rename_i hfill <;> rw [hfill] <;> rfl

/-- A gap of the queue is filled, and the loop goes on. -/
theorem fillLoop_cons {world : Surroundings} {p p' : IngestPipeline} {gid : ℕ} {rest : List ℕ}
    (hqueue : p.toFill = gid :: rest)
    (hfill : fillGap world { p with toFill := rest, filling := true } gid = .ok p') :
    p.fillLoop world = p'.fillLoop world := by
  rw [fillLoop_step hqueue, hfill]
  rfl

/-- A gap of the queue raises. -/
theorem fillLoop_error {world : Surroundings} {p : IngestPipeline} {gid : ℕ} {rest : List ℕ}
    {e : PyError} (hqueue : p.toFill = gid :: rest)
    (hfill : fillGap world { p with toFill := rest, filling := true } gid = .error e) :
    p.fillLoop world = .error e := by
  rw [fillLoop_step hqueue, hfill]
  rfl

/-! ### The calls -/

variable (world : Surroundings) (p : IngestPipeline)

/-- `_on_gaps`: the gaps are reported, and filled unless that is going on. -/
def onGaps (changed : List GapRecord) : Except PyError IngestPipeline :=
  p.onGapsWith (fillLoop world) changed

/-- `_accept`: one event on its whole way. -/
def accept (ev : MarketEvent) : Except PyError IngestPipeline :=
  p.acceptWith world (fillLoop world) ev

/-- The candidates for gaps are confirmed. -/
def flushHoles : Except PyError IngestPipeline :=
  let r := p.detector.flush (world.clock p.reads)
  (p.called r.2).onGaps world r.1

/-- `_disconnect`: trades come over the other connection, so the end of the public one confirms
    nothing. -/
def disconnect (conn : String) : Except PyError IngestPipeline :=
  let p₁ : IngestPipeline :=
    { p with sunk := { p.sunk with
        disconnects := p.sunk.disconnects ++ [conn]
        calls := p.sunk.calls ++ [.disconnect conn] } }
  if conn ≠ publicConn then p₁.flushHoles world else .ok p₁

/-- What the pipeline is given, one after another: an event, a frame that is not one, or the end of
    a connection. -/
inductive Item where
  | event (ev : MarketEvent)
  | malformed (e : InvalidEvent)
  | disconnected (conn : String)

/-- `process`: an event, a frame that is none, or the end of a connection. -/
def process (p : IngestPipeline) : Item → Except PyError IngestPipeline
  | .event ev => p.accept world ev
  | .malformed e => .ok (p.invalid e)
  | .disconnected conn => p.disconnect world conn

/-- `finish`: the candidates are confirmed, and the candles that wait are released. -/
def finish : Except PyError IngestPipeline := do
  let p₁ ← p.flushHoles world
  return p₁.release p₁.aggregator.flush

/-- `run`: all items, and the end. -/
def run (items : List Item) : Except PyError IngestPipeline := do
  let p₁ ← items.foldlM (process world) p
  p₁.finish world

end IngestPipeline

end FuzzHelm
