import FuzzHelm.Core.Dto

namespace FuzzHelm

/-!
# Market events

What the exchange delivers, as the ingest sees it after normalisation, and the checks that
every event passes before anything else looks at it.

* `Timeframe` — a listed timeframe; `Candle`, `Trade`, `BookSnapshot`, `MarkPrice`,
  `MarketEvent` — the events;
* `checkCandle`, `checkTrade`, `checkBook` — the violations of an event;
* `checkCandle_nil` — a valid candle lies on the grid of its timeframe.
-/

/-! ### Enumerations and timeframes -/

/-- `Stream`: the two streams whose gaps are followed. -/
inductive Stream where
  | klines
  | trades
  | depth
  | mark
  deriving DecidableEq, Repr

/-- `GapDetectorKind`: what a gap was found by. -/
inductive GapDetectorKind where
  | seq
  | bucketCount
  | time
  deriving DecidableEq, Repr

/-- `GapStatus`: where the filling of a gap is. -/
inductive GapStatus where
  | opened
  | filling
  | filled
  | part
  | unfillable
  deriving DecidableEq, Repr

/-- The nanoseconds of a millisecond. -/
def nsPerMs : ℤ := 1000000

/-- `TF_MS`: the timeframes and their lengths. -/
def tfMs : List (String × ℤ) :=
  [("1m", 60000), ("3m", 180000), ("5m", 300000), ("15m", 900000), ("30m", 1800000),
    ("1h", 3600000), ("2h", 7200000), ("4h", 14400000), ("6h", 21600000), ("8h", 28800000),
    ("12h", 43200000), ("1d", 86400000)]

/-- A timeframe of the table: `tf_ms` raises for every other name. -/
structure Timeframe where
  name : String
  ms : ℤ
  listed : (name, ms) ∈ tfMs

namespace Timeframe

/-- The length of a bar in nanoseconds. -/
def ns (tf : Timeframe) : ℤ := tf.ms * nsPerMs

/-- A timeframe has a length. -/
theorem ns_pos (tf : Timeframe) : 0 < tf.ns := by
  have hpos : ∀ e ∈ tfMs, (0 : ℤ) < e.2 := by decide
  exact mul_pos (hpos _ tf.listed) (by decide)

/-- The names of the table are distinct. -/
theorem lookup (tf : Timeframe) : tfMs.lookup tf.name = some tf.ms := by
  have hall : ∀ e ∈ tfMs, tfMs.lookup e.1 = some e.2 := by decide
  exact hall _ tf.listed

/-- The timeframe of the workers. -/
def minute : Timeframe := ⟨"1m", 60000, by decide⟩

end Timeframe

/-! ### Events -/

/-- `CandleEvent`: a candle as it came, open or closed. -/
structure Candle where
  instrument : String
  venue : String
  tf : String
  openTimeNs : ℤ
  closeTimeNs : ℤ
  o : Decimal
  h : Decimal
  l : Decimal
  c : Decimal
  volume : Decimal
  quoteVolume : Decimal
  tradesCount : ℤ
  vwap : Option Decimal
  isClosed : Bool
  isSynthetic : Bool
  src : ℕ
  tsEventNs : ℤ
  tsIngestNs : ℤ
  eventUid : String
  deriving DecidableEq

/-- `TradeEvent`: an aggregate trade; its price and quantity are positive. -/
structure Trade where
  instrument : String
  venue : String
  aggId : ℤ
  firstTradeId : Option ℤ
  lastTradeId : Option ℤ
  price : Decimal
  qty : Decimal
  isBuyerMaker : Bool
  tsEventNs : ℤ
  tsIngestNs : ℤ
  eventUid : String
  deriving DecidableEq

/-- A price with its quantity. -/
structure BookLevel where
  price : Decimal
  qty : Decimal
  deriving DecidableEq

/-- `BookSnapshotEvent`: the best levels of both sides. -/
structure BookSnapshot where
  instrument : String
  venue : String
  bids : List BookLevel
  asks : List BookLevel
  lastUpdateId : ℤ
  tsEventNs : ℤ
  tsIngestNs : ℤ
  eventUid : String
  deriving DecidableEq

/-- `MarkPriceEvent`: the mark price and the next moment of the funding. -/
structure MarkPrice where
  instrument : String
  venue : String
  markPrice : Decimal
  indexPrice : Option Decimal
  fundingRate : Decimal
  nextFundingTimeNs : ℤ
  tsEventNs : ℤ
  tsIngestNs : ℤ
  eventUid : String
  deriving DecidableEq

/-- `MarketEvent`: the events of the exchange. -/
inductive MarketEvent where
  | candle (c : Candle)
  | trade (t : Trade)
  | book (b : BookSnapshot)
  | mark (m : MarkPrice)
  deriving DecidableEq

namespace MarketEvent

/-- The time of the exchange. -/
def tsEventNs : MarketEvent → ℤ
  | candle c => c.tsEventNs
  | trade t => t.tsEventNs
  | book b => b.tsEventNs
  | mark m => m.tsEventNs

/-- The time of the arrival. -/
def tsIngestNs : MarketEvent → ℤ
  | candle c => c.tsIngestNs
  | trade t => t.tsIngestNs
  | book b => b.tsIngestNs
  | mark m => m.tsIngestNs

/-- The identifier of an event. -/
def eventUid : MarketEvent → String
  | candle c => c.eventUid
  | trade t => t.eventUid
  | book b => b.eventUid
  | mark m => m.eventUid

end MarketEvent

/-! ### The checks -/

/-- The steps and bounds of an instrument. -/
structure InstrumentSpec where
  tickSize : PosDec
  stepSize : Option PosDec

/-- `_on_grid`: a multiple of the step, to the last digit. -/
def onGrid (x : Decimal) (step : PosDec) : Bool := decide ((x / step.1).den = 1)

/-- One violation, when the condition holds. -/
def violation (p : Prop) [Decidable p] (code : String) : List String := if p then [code] else []

/-- The price `px` of the field `name` off the tick. -/
def offTick (spec : InstrumentSpec) (name : String) (px : Decimal) : List String :=
  violation (0 < px ∧ onGrid px spec.tickSize = false) ("PRICE_OFF_TICK:" ++ name)

/-- The quantity `qty` of the field `name` off the step. -/
def offStep (spec : InstrumentSpec) (name : String) (p : Prop) [Decidable p] (qty : Decimal) :
    List String :=
  spec.stepSize.elim [] fun step =>
    violation (p ∧ onGrid qty step = false) ("QTY_OFF_STEP:" ++ name)

/-- The times of a candle against its timeframe, if that is a listed one. -/
def timeViolations (c : Candle) : List String :=
  (tfMs.lookup c.tf).elim [] fun ms =>
    violation (c.openTimeNs % (ms * nsPerMs) ≠ 0) "OPEN_TIME_UNALIGNED" ++
    violation (c.closeTimeNs ≠ c.openTimeNs + ms * nsPerMs - nsPerMs) "CLOSE_TIME_MISMATCH"

/-- `check_candle`: the rules that a candle breaks, by their codes. -/
def checkCandle (c : Candle) (spec : Option InstrumentSpec) : List String :=
  violation (min (min c.o c.h) (min c.l c.c) ≤ 0) "NONPOSITIVE_PRICE" ++
  violation (c.h < c.l) "HIGH_BELOW_LOW" ++
  violation (c.h < max c.o c.c) "HIGH_BELOW_MAX_OC" ++
  violation (min c.o c.c < c.l) "LOW_ABOVE_MIN_OC" ++
  violation (c.volume < 0) "NEGATIVE_VOLUME" ++
  violation (c.quoteVolume < 0) "NEGATIVE_QUOTE_VOLUME" ++
  violation (0 < c.quoteVolume ∧ 0 ≤ c.volume ∧
    ¬(c.volume * c.l ≤ c.quoteVolume ∧ c.quoteVolume ≤ c.volume * c.h))
    "QUOTE_VOLUME_OUT_OF_RANGE" ++
  violation (c.tradesCount < 0) "NEGATIVE_TRADES_COUNT" ++
  violation (c.vwap.any fun v => decide ¬(c.l ≤ v ∧ v ≤ c.h)) "VWAP_OUT_OF_RANGE" ++
  timeViolations c ++
  spec.elim [] fun spec =>
    offTick spec "o" c.o ++ offTick spec "h" c.h ++ offTick spec "l" c.l ++
    offTick spec "c" c.c ++ offStep spec "volume" (0 ≤ c.volume) c.volume

/-- `check_trade`: the rules that a trade breaks, by their codes. -/
def checkTrade (t : Trade) (spec : Option InstrumentSpec) : List String :=
  violation (t.price ≤ 0) "NONPOSITIVE_PRICE" ++
  violation (t.qty ≤ 0) "NONPOSITIVE_QTY" ++
  spec.elim [] fun spec =>
    offTick spec "price" t.price ++ offStep spec "qty" (0 < t.qty) t.qty

/-- The prices of a book are not strictly sorted, or one side meets the other. -/
def checkBook (b : BookSnapshot) (spec : Option InstrumentSpec) : List String :=
  let bids := b.bids.map BookLevel.price
  let asks := b.asks.map BookLevel.price
  violation ((bids.zip bids.tail).any (fun p => decide (p.1 ≤ p.2)) ||
    (asks.zip asks.tail).any fun p => decide (p.2 ≤ p.1)) "BOOK_UNSORTED" ++
  violation ((bids.head?.bind fun bid => asks.head?.map fun ask => decide (ask ≤ bid)) = some true)
    "BOOK_CROSSED" ++
  spec.elim [] fun spec =>
    violation ((bids ++ asks).any fun p => !onGrid p spec.tickSize) "PRICE_OFF_TICK:book"

/-- A check reports nothing when what it forbids is not the case. -/
@[simp] theorem violation_eq_nil {p : Prop} [Decidable p] {code : String} :
    violation p code = [] ↔ ¬p := by
  unfold violation
  split <;> simp [*]

/-- **A valid candle lies on the grid** of its timeframe, and closes a millisecond before the
    next one opens. -/
theorem checkCandle_nil {c : Candle} {spec : Option InstrumentSpec} (h : checkCandle c spec = [])
    {tf : Timeframe} (htf : c.tf = tf.name) :
    c.openTimeNs % tf.ns = 0 ∧ c.closeTimeNs = c.openTimeNs + tf.ns - nsPerMs := by
  have htime : timeViolations c = [] := by
    unfold checkCandle at h
    simp only [List.append_eq_nil_iff] at h
    exact h.1.2
  rw [timeViolations, htf, tf.lookup, Option.elim_some, List.append_eq_nil_iff, violation_eq_nil,
    violation_eq_nil, not_not, not_not] at htime
  exact htime

end FuzzHelm
