import FuzzHelm.Ingest.AggTrades
import FuzzHelm.Lib.Characters

namespace FuzzHelm

open Lib

/-!
# Candles over REST

A row of `klines` is an array of twelve values whose numbers are texts.  The normaliser reads
it, checks it against the timeframe and builds the candle; whatever it refuses, it names the
field.

* `readRestKline` — the values of a row;
* `normalizeRestKline`, `normalizeRestKlines` — the candle of a row, the candles of an answer;
* `IsBar` — a row of the exchange's own: on the grid of its timeframe, and accepted whenever it
  is read (`IsBar.normalize`);
* `normalizeRestKlines_bars` — an answer of such rows is accepted as a whole.
-/

/-! ### Rows -/

/-- A value in a row: an integer, a text, or something else that JSON has. -/
inductive KlineField where
  | int (n : ℤ)
  | text (s : String)
  | other (json : String)
  deriving DecidableEq

/-- A row as it was answered. -/
inductive RestRow where
  | array (fields : List KlineField)
  | other (json : String)
  deriving DecidableEq

/-- The time under which a row stands in a page. -/
def RestRow.openMs : RestRow → ℤ
  | array (.int n :: _) => n
  | _ => 0

/-- `\d+`, the digits of any script, and the number that they are. -/
def digits (cs : List Char) : Option ℕ :=
  if cs ≠ [] ∧ cs.all isDecimal then some (Nat.ofDigitChars 10 (cs.map asciiDigit) 0) else none

/-- A decimal without its sign. -/
def unsignedDec (cs : List Char) : Option Decimal :=
  match cs.span fun c => c != '.' with
  | (whole, []) => (digits whole).map fun n => (n : Decimal)
  | (whole, _ :: frac) => do
    let w ← digits whole
    let f ← digits frac
    return w + f / 10 ^ frac.length

/-- A decimal as the exchange writes it: digits, and a fraction if there is one; no exponent. -/
def decText (s : String) : Option Decimal :=
  match s.toList with
  | '-' :: cs => (unsignedDec cs).map fun x => -x
  | cs => unsignedDec cs

namespace KlineField

/-- `_int`: a truth value is not a whole number. -/
def toInt (name : String) : KlineField → Except PyError ℤ
  | int n => .ok n
  | _ => .error (.validationError name)

/-- `_dec`: a decimal is written as a text. -/
def toDec (name : String) : KlineField → Except PyError Decimal
  | text s => (decText s).elim (.error (.validationError name)) .ok
  | _ => .error (.validationError name)

end KlineField

/-- The values of a row that make a candle. -/
structure RestKline where
  openMs : ℤ
  closeMs : ℤ
  o : Decimal
  h : Decimal
  l : Decimal
  c : Decimal
  volume : Decimal
  quoteVolume : Decimal
  tradesCount : ℤ
  deriving DecidableEq

/-- The reading part of `normalize_rest_kline`, its checks in the order of the source. -/
def readRestKline (tf : Timeframe) : RestRow → Except PyError RestKline
  | .array [t, o, h, l, c, v, T, q, n, buyBase, buyQuote, ignored] => do
    let openMs ← t.toInt "row[0]"
    let closeMs ← T.toInt "row[6]"
    if closeMs ≠ openMs + tf.ms - 1 then .error (.validationError "row[6]")
    else do
      -- these three are read only to be checked
      let _ ← buyBase.toDec "row[9]"
      let _ ← buyQuote.toDec "row[10]"
      let _ ← ignored.toDec "row[11]"
      let o ← o.toDec "row[1]"
      let h ← h.toDec "row[2]"
      let l ← l.toDec "row[3]"
      let c ← c.toDec "row[4]"
      let volume ← v.toDec "row[5]"
      let quoteVolume ← q.toDec "row[7]"
      let tradesCount ← n.toInt "row[8]"
      return ⟨openMs, closeMs, o, h, l, c, volume, quoteVolume, tradesCount⟩
  | .array fields => .error (.validationError ("row[" ++ toString (min fields.length 12) ++ "]"))
  | .other _ => .error (.validationError "row")

/-! ### The candle of a row -/

/-- An instrument whose candles are named: `klineUid` is the digest of a timeframe and an opening
    time. -/
structure KlineInstrument extends InstrumentLike where
  klineUid : String → ℤ → String
  named : symbolCanon ≠ ""

/-- The candle of a row that was read at `tsIngestNs`; with the time of the exchange it is known
    whether the bar has ended. -/
def RestKline.candle (k : RestKline) (instrument : KlineInstrument) (tsIngestNs : ℤ)
    (tf : Timeframe) (serverTimeMs : Option ℤ) : Candle :=
  let isClosed := decide (k.closeMs < serverTimeMs.getD (tsIngestNs / nsPerMs))
  { instrument := instrument.symbolCanon
    venue := instrument.venue
    tf := tf.name
    openTimeNs := k.openMs * nsPerMs
    closeTimeNs := k.closeMs * nsPerMs
    o := k.o
    h := k.h
    l := k.l
    c := k.c
    volume := k.volume
    quoteVolume := k.quoteVolume
    tradesCount := k.tradesCount
    vwap := none
    isClosed := isClosed
    isSynthetic := false
    src := 2
    tsEventNs := if isClosed then k.closeMs * nsPerMs
      else serverTimeMs.elim (k.closeMs * nsPerMs) fun now => now * nsPerMs
    tsIngestNs := tsIngestNs
    eventUid := instrument.klineUid tf.name (k.openMs * nsPerMs) }

/-- The fields of a candle that the model refuses, in the order of their declaration. -/
def candleFaults (c : Candle) : List String :=
  violation (c.openTimeNs < 0) "open_time_ns" ++ violation (c.closeTimeNs < 0) "close_time_ns" ++
  violation (c.o ≤ 0) "o" ++ violation (c.h ≤ 0) "h" ++ violation (c.l ≤ 0) "l" ++
  violation (c.c ≤ 0) "c" ++ violation (c.volume < 0) "volume" ++
  violation (c.quoteVolume < 0) "quote_volume" ++
  violation (c.tradesCount < 0) "trades_count" ++
  violation (c.tsEventNs < 0) "ts_event_ns" ++ violation (c.tsIngestNs < 0) "ts_ingest_ns"

/-- `_ohlc_consistent`, which is asked only when every field is accepted. -/
def ohlcConsistent (c : Candle) : Prop :=
  (c.l ≤ c.h ∧ max c.o c.c ≤ c.h ∧ c.l ≤ min c.o c.c) ∧ (∀ v ∈ c.vwap, c.l ≤ v ∧ v ≤ c.h) ∧
    c.openTimeNs ≤ c.closeTimeNs

/-- Whether the prices of a candle agree can be computed. -/
instance (c : Candle) : Decidable (ohlcConsistent c) := by
  unfold ohlcConsistent
  infer_instance

/-- `_build`: the first fault is named. -/
def buildCandle (c : Candle) : Except PyError Candle :=
  match candleFaults c with
  | name :: _ => .error (.validationError name)
  | [] => if ohlcConsistent c then .ok c else .error (.validationError "__root__")

/-- `normalize_rest_kline`: a row of the REST interface as a closed candle. -/
def normalizeRestKline (row : RestRow) (instrument : KlineInstrument) (tsIngestNs : ℤ)
    (tf : Timeframe) (serverTimeMs : Option ℤ) : Except PyError Candle :=
  if tsIngestNs < 0 then .error (.validationError "ts_ingest_ns")
  else do
    let k ← readRestKline tf row
    buildCandle (k.candle instrument tsIngestNs tf serverTimeMs)

/-- An error in the row `i` of an answer. -/
def PyError.inRow (i : ℕ) : PyError → PyError
  | .validationError name => .validationError ("[" ++ toString i ++ "]." ++ name)
  | e => e

/-- The candles of the rows from the row `i` of an answer on. -/
def normalizeRowsFrom (instrument : KlineInstrument) (tsIngestNs : ℤ) (tf : Timeframe)
    (serverTimeMs : Option ℤ) : ℕ → List RestRow → Except PyError (List Candle)
  | _, [] => .ok []
  | i, row :: rows => do
    let c ← (normalizeRestKline row instrument tsIngestNs tf serverTimeMs).mapError
      (PyError.inRow i)
    let cs ← normalizeRowsFrom instrument tsIngestNs tf serverTimeMs (i + 1) rows
    return c :: cs

/-- `normalize_rest_klines`: all rows, or the first error. -/
def normalizeRestKlines (rows : List RestRow) (instrument : KlineInstrument) (tsIngestNs : ℤ)
    (tf : Timeframe) (serverTimeMs : Option ℤ) : Except PyError (List Candle) :=
  normalizeRowsFrom instrument tsIngestNs tf serverTimeMs 0 rows

/-! ### The rows of the exchange -/

/-- The row is a bar of the timeframe `tf`, whose values are `k`: it opens on the grid, and its
    prices and volumes are those of a candle. -/
structure IsBar (tf : Timeframe) (row : RestRow) (k : RestKline) : Prop where
  read : readRestKline tf row = .ok k
  opens : tf.ms ∣ k.openMs
  start : 0 ≤ k.openMs
  low : 0 < k.l
  ordered : max k.o k.c ≤ k.h ∧ k.l ≤ min k.o k.c
  volumes : 0 ≤ k.volume ∧ 0 ≤ k.quoteVolume ∧ 0 ≤ k.tradesCount

/-- A timeframe has a length in milliseconds. -/
theorem Timeframe.ms_pos (tf : Timeframe) : 0 < tf.ms := by
  have hpos : ∀ e ∈ tfMs, (0 : ℤ) < e.2 := by decide
  exact hpos _ tf.listed

/-- Only a whole number is read as one. -/
theorem KlineField.toInt_eq_ok {name : String} {x : KlineField} {n : ℤ}
    (h : x.toInt name = .ok n) : x = .int n := by
  cases x with
  | int m =>
    cases h
    rfl
  | text s => cases h
  | other json => cases h

/-- A row that can be read closes a millisecond before the next one opens, and stands in a page
    under its opening time. -/
theorem readRestKline_times {tf : Timeframe} {row : RestRow} {k : RestKline}
    (h : readRestKline tf row = .ok k) :
    k.closeMs = k.openMs + tf.ms - 1 ∧ ∃ fields, row = .array (.int k.openMs :: fields) := by
  unfold readRestKline at h
  split at h
  · rw [bind_eq_ok] at h
    obtain ⟨openMs, hopen, h⟩ := h
    rw [bind_eq_ok] at h
    obtain ⟨closeMs, -, h⟩ := h
    split at h
    · cases h
    · rename_i hclose
      simp only [bind_eq_ok] at h
      obtain ⟨_, -, _, -, _, -, _, -, _, -, _, -, _, -, _, -, _, -, _, -, h⟩ := h
      cases h
      refine ⟨not_not.mp hclose, ?_⟩
      rw [KlineField.toInt_eq_ok hopen]
      exact ⟨_, rfl⟩
  · cases h
  · cases h

namespace IsBar

variable {tf : Timeframe} {row : RestRow} {k : RestKline}

/-- A bar closes a millisecond before the next one opens. -/
theorem closeMs_eq (h : IsBar tf row k) : k.closeMs = k.openMs + tf.ms - 1 :=
  (readRestKline_times h.read).1

/-- A bar opens at the time of its row. -/
theorem openMs_eq (h : IsBar tf row k) : row.openMs = k.openMs := by
  obtain ⟨fields, rfl⟩ := (readRestKline_times h.read).2
  rfl

/-- **A bar is accepted** whenever it is read, and its candle tells whether it has ended. -/
theorem normalize (h : IsBar tf row k) (instrument : KlineInstrument) {tsIngestNs now : ℤ}
    (hts : 0 ≤ tsIngestNs) (hnow : 0 ≤ now) :
    normalizeRestKline row instrument tsIngestNs tf (some now) =
      .ok (k.candle instrument tsIngestNs tf (some now)) := by
  have hpos := tf.ms_pos
  have hclose := h.closeMs_eq
  have hstart := h.start
  have hns : 0 < nsPerMs := by decide
  -- the signs of the times
  have hopenNs : 0 ≤ k.openMs * nsPerMs := mul_nonneg hstart hns.le
  have hcloseNs : k.openMs * nsPerMs ≤ k.closeMs * nsPerMs :=
    mul_le_mul_of_nonneg_right (by omega) hns.le
  have heventNs : 0 ≤ (k.candle instrument tsIngestNs tf (some now)).tsEventNs := by
    simp only [RestKline.candle, Option.elim_some]
    split
    · exact hopenNs.trans hcloseNs
    · exact mul_nonneg hnow hns.le
  obtain ⟨hhigh, hlow⟩ := h.ordered
  obtain ⟨hv, hq, hn⟩ := h.volumes
  have ho : 0 < k.o := h.low.trans_le (hlow.trans (min_le_left ..))
  have hc : 0 < k.c := h.low.trans_le (hlow.trans (min_le_right ..))
  have hh : k.o ≤ k.h := (le_max_left ..).trans hhigh
  have hl : k.l ≤ k.o := hlow.trans (min_le_left ..)
  -- so no field check fails, and the prices agree with each other
  have hfaults : candleFaults (k.candle instrument tsIngestNs tf (some now)) = [] := by
    simp only [candleFaults, List.append_eq_nil_iff, violation_eq_nil, not_le, not_lt]
    exact ⟨⟨⟨⟨⟨⟨⟨⟨⟨⟨hopenNs, hopenNs.trans hcloseNs⟩, ho⟩, ho.trans_le hh⟩, h.low⟩, hc⟩, hv⟩, hq⟩,
      hn⟩, heventNs⟩, hts⟩
  have hohlc : ohlcConsistent (k.candle instrument tsIngestNs tf (some now)) :=
    ⟨⟨hl.trans hh, hhigh, hlow⟩, (fun v hv => by cases hv), hcloseNs⟩
  have hbuild : buildCandle (k.candle instrument tsIngestNs tf (some now)) =
      .ok (k.candle instrument tsIngestNs tf (some now)) := by
    rw [buildCandle, hfaults]
    exact if_pos hohlc
  rw [normalizeRestKline, if_neg (not_lt.mpr hts)]
  exact bind_eq_ok.mpr ⟨k, h.read, hbuild⟩

/-- The candle of a bar is closed once the bar has ended. -/
theorem isClosed_iff (h : IsBar tf row k) (instrument : KlineInstrument) (tsIngestNs now : ℤ) :
    (k.candle instrument tsIngestNs tf (some now)).isClosed = true ↔ k.openMs + tf.ms ≤ now := by
  have hclose := h.closeMs_eq
  show decide (k.closeMs < now) = true ↔ _
  rw [decide_eq_true_eq]
  omega

end IsBar

/-- **An answer of bars is accepted** as a whole, row by row. -/
theorem normalizeRestKlines_bars {tf : Timeframe} (instrument : KlineInstrument)
    {tsIngestNs now : ℤ} (hts : 0 ≤ tsIngestNs) (hnow : 0 ≤ now) {rows : List RestRow}
    {ks : List RestKline} (h : List.Forall₂ (IsBar tf) rows ks) :
    normalizeRestKlines rows instrument tsIngestNs tf (some now) =
      .ok (ks.map fun k => k.candle instrument tsIngestNs tf (some now)) := by
  unfold normalizeRestKlines
  generalize 0 = i
  induction h generalizing i with
  | nil => rfl
  | cons hrow _ ih =>
    rw [normalizeRowsFrom, hrow.normalize instrument hts hnow]
    show (normalizeRowsFrom .. >>= _) = _
    rw [ih]
    rfl

end FuzzHelm
