import FuzzHelm.Backtest.Loop
import FuzzHelm.Features.Pipeline
import FuzzHelm.Ingest.Events

namespace FuzzHelm

open Lib

/-!
# Datasets

The closed bars of an instrument with the funding rates that the exchange recorded.  A slice is
a dataset of some of the bars, with the rates of a window of time around them.

* `Dataset` — bars in the order of time, checked, and rates;
* `Dataset.slice` — some of the bars;
* `Dataset.feed` — the bars as a run is given them;
* `slice_feed`, `slice_series` — what a slice keeps.
-/

/-- The timeframes of a dataset. -/
inductive DatasetTf where
  | m1
  | m5
  | m15
  | h1
  deriving DecidableEq, Repr

/-- `TF_NS`: the length of a bar. -/
def DatasetTf.ns : DatasetTf → ℤ
  | .m1 => nsPerMin
  | .m5 => 5 * nsPerMin
  | .m15 => 15 * nsPerMin
  | .h1 => 60 * nsPerMin

/-- `Dataset`: what has passed the checks of its columns. -/
structure Dataset where
  instrument : Instrument
  tf : DatasetTf
  bars : List (Bar ℚ)
  funding : Option (List (ℤ × ℚ))
  increasing : bars.Pairwise fun a b => a.tNs < b.tNs
  priced : ∀ b ∈ bars, 0 < b.o ∧ 0 < b.l
  ordered : ∀ b ∈ bars, max b.o b.c ≤ b.h ∧ b.l ≤ min b.o b.c
  volumes : ∀ b ∈ bars, 0 ≤ b.v ∧ 0 ≤ b.qv
  funding_increasing : ∀ rates ∈ funding, rates.Pairwise fun x y => x.1 < y.1

/-- `price_to_decimal`: a float price on the grid of the ticks. -/
def priceToDecimal (x : ℚ) (tick : PosDec) : Decimal := quantize .halfEven x tick

/-- `dec_bar_of`: the prices of a bar on the grid of the instrument. -/
def decBarOf (bar : Bar ℚ) (instrument : Instrument) : DecBar where
  instrument := instrument.symbolCanon
  openTimeNs := bar.tNs
  o := priceToDecimal bar.o instrument.tickSize
  h := priceToDecimal bar.h instrument.tickSize
  l := priceToDecimal bar.l instrument.tickSize
  c := priceToDecimal bar.c instrument.tickSize
  volume := bar.v

/-- One bar of a feed: in numbers, in decimals, and the time of its close. -/
structure FeedItem where
  bar : Bar ℚ
  decBar : DecBar
  closeNs : ℤ

/-- **The window of the rates**, `[t₀ − 1 day, t_last + 1 min]`. -/
def keepsFunding (bars : List (Bar ℚ)) (tNs : ℤ) : Bool :=
  bars.head?.any (fun b => decide (b.tNs - 86400 * nsPerSec ≤ tNs)) &&
    bars.getLast?.any fun b => decide (tNs ≤ b.tNs + nsPerMin)

namespace Dataset

variable (ds : Dataset)

/-- `slice(start, stop)`: the bars in between, with the records of the funding that they may need.
    -/
def slice (start stop : ℤ) : Except PyError Dataset :=
  if 0 ≤ start ∧ start < stop ∧ stop ≤ ds.bars.length then
    let bars := (ds.bars.take stop.toNat).drop start.toNat
    have hsub : bars.Sublist ds.bars :=
      (List.drop_sublist _ _).trans (List.take_sublist _ _)
    .ok {
      instrument := ds.instrument
      tf := ds.tf
      bars := bars
      funding := ds.funding.map (List.filter fun e => keepsFunding bars e.1)
      increasing := ds.increasing.sublist hsub
      priced := fun b hb => ds.priced b (hsub.subset hb)
      ordered := fun b hb => ds.ordered b (hsub.subset hb)
      volumes := fun b hb => ds.volumes b (hsub.subset hb)
      funding_increasing := by
        intro rates hrates
        obtain ⟨all, hall, rfl⟩ := Option.map_eq_some_iff.mp hrates
        exact (ds.funding_increasing all hall).filter _ }
  else .error (.valueError "slice outside the dataset")

/-- `close_time_ns` of a bar. -/
def closeTimeNs (bar : Bar ℚ) : ℤ := bar.tNs + ds.tf.ns - nsPerMs

/-- `feed`: the bars one after the other. -/
def feed : List FeedItem :=
  ds.bars.map fun bar => ⟨bar, decBarOf bar ds.instrument, ds.closeTimeNs bar⟩

/-- The rates that the loop is given; without a series there are none. -/
def series : List (ℤ × Decimal) := ds.funding.getD []

/-! ### Slices -/

variable {ds} {part : Dataset} {start stop : ℤ}

/-- A slice has some of the bars. -/
theorem slice_eq_ok (h : ds.slice start stop = .ok part) :
    0 ≤ start ∧ start < stop ∧ stop ≤ ds.bars.length ∧
      part.instrument = ds.instrument ∧ part.tf = ds.tf ∧
      part.bars = (ds.bars.take stop.toNat).drop start.toNat ∧
      part.funding = ds.funding.map (List.filter fun e => keepsFunding part.bars e.1) := by
  unfold slice at h
  split at h
  · rename_i hrange
    cases h
    exact ⟨hrange.1, hrange.2.1, hrange.2.2, rfl, rfl, rfl, rfl⟩
  · cases h

/-- The feed of a slice is that of its bars. -/
theorem slice_feed (h : ds.slice start stop = .ok part) :
    part.feed = (ds.feed.take stop.toNat).drop start.toNat := by
  obtain ⟨-, -, -, hinst, htf, hbars, -⟩ := slice_eq_ok h
  simp only [feed, closeTimeNs, hinst, htf, hbars, List.map_drop, List.map_take]

/-- The rates of a slice are those of its window. -/
theorem slice_series (h : ds.slice start stop = .ok part) :
    part.series = ds.series.filter fun e => keepsFunding part.bars e.1 := by
  obtain ⟨-, -, -, -, -, -, hfunding⟩ := slice_eq_ok h
  rw [series, series, hfunding]
  cases ds.funding <;> rfl

/-- The series of the rates is in the order of time. -/
theorem series_increasing (ds : Dataset) : ds.series.Pairwise fun x y => x.1 < y.1 := by
  rw [series]
  cases hfunding : ds.funding with
  | none => exact .nil
  | some rates => exact ds.funding_increasing rates hfunding

/-! ### Windows in windows -/

section Window

variable {bars bars' : List (Bar ℚ)} {a b : Bar ℚ} {tNs : ℤ}

/-- The first bar is the earliest. -/
theorem head_le (h : bars.Pairwise fun a b => a.tNs < b.tNs) (ha : bars.head? = some a)
    (hb : b ∈ bars) : a.tNs ≤ b.tNs := by
  cases bars with
  | nil => cases ha
  | cons x bars =>
    cases ha
    rcases List.mem_cons.mp hb with rfl | hb
    · exact le_rfl
    · exact (List.rel_of_pairwise_cons h hb).le

/-- The last bar is the latest. -/
theorem le_getLast (h : bars.Pairwise fun a b => a.tNs < b.tNs) (ha : bars.getLast? = some a)
    (hb : b ∈ bars) : b.tNs ≤ a.tNs := by
  obtain ⟨front, rfl⟩ := List.getLast?_eq_some_iff.mp ha
  rcases List.mem_append.mp hb with hb | hb
  · exact ((List.pairwise_append.mp h).2.2 b hb a (List.mem_singleton_self a)).le
  · exact (congrArg Bar.tNs (List.mem_singleton.mp hb)).le

/-- A rate is kept from a day before the first bar to a minute after the last one. -/
theorem keepsFunding_iff : keepsFunding bars tNs = true ↔
    ∃ a z, bars.head? = some a ∧ bars.getLast? = some z ∧
      a.tNs - 86400 * nsPerSec ≤ tNs ∧ tNs ≤ z.tNs + nsPerMin := by
  simp only [keepsFunding, Bool.and_eq_true, Option.any_eq_true, decide_eq_true_iff]
  constructor
  · rintro ⟨⟨a, ha, hlo⟩, z, hz, hhi⟩
    exact ⟨a, z, ha, hz, hlo, hhi⟩
  · rintro ⟨a, z, ha, hz, hlo, hhi⟩
    exact ⟨⟨a, ha, hlo⟩, z, hz, hhi⟩

end Window

end Dataset

end FuzzHelm
