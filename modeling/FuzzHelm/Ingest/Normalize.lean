import FuzzHelm.Ingest.Identity
import FuzzHelm.Ingest.Klines
import FuzzHelm.Lib.JsonText

namespace FuzzHelm

open Lib

/-!
# From the wire to events

The payloads of the exchange, as JSON values, and the events they are turned into: the frames
of the four streams and the answers over REST.

* `Datum.toInt` .. `checkFields` — the strict reading of fields; an error names its field;
* `parseStream` — the name of a stream;
* `Wire.normalizeBinance` — the event of a frame;
* `Wire.normalizeRestKline`, `Wire.normalizeRestAggTrade`, `Wire.normalizePremiumIndex` — the
  events of the answers over REST.
-/

/-! ### Fields -/

/-- The members of an object of JSON. -/
abbrev Members := List (String × Datum)

/-- `d[name]`, once the field is known to be there. -/
def Members.get (d : Members) (name : String) : Datum := (d.lookup name).getD .null

/-- `name in d`, for the names of an object. -/
def Members.has (d : Members) (name : String) : Bool := (d.lookup name).isSome

namespace Wire

/-- `_int`: a truth value is not a whole number. -/
def toInt (field : String) : Datum → Except PyError ℤ
  | .int n => .ok n
  | _ => .error (.validationError field)

/-- `_dec`: a decimal is written as a text. -/
def toDec (field : String) : Datum → Except PyError Decimal
  | .str s => (decText s).elim (.error (.validationError field)) .ok
  | _ => .error (.validationError field)

/-- `_bool`: a truth value, and nothing that counts as one. -/
def toBool (field : String) : Datum → Except PyError Bool
  | .bool b => .ok b
  | _ => .error (.validationError field)

/-- `_str`: a text, and nothing that can be written as one. -/
def toStr (field : String) : Datum → Except PyError String
  | .str s => .ok s
  | _ => .error (.validationError field)

/-- `_mapping`: an object of JSON. -/
def toMapping (field : String) : Datum → Except PyError Members
  | .obj d => .ok d
  | _ => .error (.validationError field)

/-- The error of a check that fails. -/
def expect (p : Prop) [Decidable p] (field : String) : Except PyError Unit :=
  if p then .ok () else .error (.validationError field)

/-- An optional field is read only to be checked. -/
def optional {α : Type} (d : Members) (name : String)
    (read : String → Datum → Except PyError α) : Except PyError Unit :=
  match d.lookup name with
  | none => .ok ()
  | some v => (read name v).map fun _ => ()

/-- `sorted(names)[0]`: the name that an error is about. -/
def firstName (names : List String) : Option String := (names.insertionSort (· ≤ ·)).head?

/-- `_check_fields`: the first unknown field is named, then the first missing one. -/
def checkFields (d : Members) (allowed required : List String) (pre : String) :
    Except PyError Unit :=
  match firstName ((d.map Prod.fst).filter fun name => name ∉ allowed) with
  | some name => .error (.validationError (pre ++ name))
  | none =>
    match firstName (required.filter fun name => !d.has name) with
    | some name => .error (.validationError (pre ++ name))
    | none => .ok ()

end Wire

/-- `_WS_KLINE_FIELDS`, the names of the frame around a candle. -/
def wsKlineFields : List String := ["e", "E", "s", "k"]

/-- `_WS_KLINE_K_FIELDS`, the names of the candle itself. -/
def wsKlineKFields : List String :=
  ["t", "T", "s", "i", "f", "L", "o", "c", "h", "l", "v", "n", "x", "q", "V", "Q", "B"]

/-- `_WS_AGG_TRADE_FIELDS`, two of which may be missing. -/
def wsAggTradeFields : List String :=
  ["e", "E", "a", "s", "p", "q", "nq", "f", "l", "T", "m", "st"]

/-- The fields that a trade of the stream must have. -/
def wsAggTradeRequired : List String := wsAggTradeFields.filter fun name => name ∉ ["nq", "st"]

/-- `_WS_MARK_FIELDS`, two of which may be missing. -/
def wsMarkFields : List String := ["e", "E", "s", "p", "ap", "P", "i", "r", "T", "st"]

/-- The fields that a mark price of the stream must have. -/
def wsMarkRequired : List String := wsMarkFields.filter fun name => name ∉ ["ap", "st"]

/-- `_WS_DEPTH_FIELDS`, two of which may be missing. -/
def wsDepthFields : List String := ["e", "E", "T", "s", "U", "u", "pu", "b", "a", "ps", "st"]

/-- The fields that a depth of the stream must have. -/
def wsDepthRequired : List String := wsDepthFields.filter fun name => name ∉ ["ps", "st"]

/-- `_PREMIUM_INDEX_FIELDS`, the names of a row of the REST interface. -/
def premiumIndexFields : List String :=
  ["symbol", "markPrice", "indexPrice", "estimatedSettlePrice", "lastFundingRate", "interestRate",
    "nextFundingTime", "time"]

/-- `_REST_AGG_TRADE_FIELDS`, one of which may be missing. -/
def restAggTradeFields : List String := ["a", "p", "q", "f", "l", "T", "m", "nq"]

/-- The fields that a trade of the REST interface must have. -/
def restAggTradeRequired : List String := restAggTradeFields.filter fun name => name ∉ ["nq"]

/-! ### Names of streams -/

/-- `StreamKind`: what a stream carries. -/
inductive StreamKind where
  | kline
  | aggTrade
  | markPrice
  | depth
  deriving DecidableEq, Repr

/-- A name of a stream in its parts; the symbol is in capitals. -/
structure StreamName where
  symbol : String
  kind : StreamKind
  interval : Option String := none
  levels : Option ℕ := none
  speed : Option String := none
  deriving DecidableEq, Repr

/-- What may follow the symbol, apart from the candles. -/
def plainKinds : List (String × (String → StreamName)) :=
  [("aggTrade", fun sym => ⟨sym, .aggTrade, none, none, none⟩),
    ("markPrice", fun sym => ⟨sym, .markPrice, none, none, some "3s"⟩),
    ("markPrice@1s", fun sym => ⟨sym, .markPrice, none, none, some "1s"⟩),
    ("markPrice@3s", fun sym => ⟨sym, .markPrice, none, none, some "3s"⟩)] ++
  [("5", 5), ("10", 10), ("20", 20)].flatMap fun (lv : String × ℕ) =>
    [("", "250ms"), ("@100ms", "100ms"), ("@250ms", "250ms"), ("@500ms", "500ms")].map
      fun (spd : String × String) =>
        ("depth" ++ lv.1 ++ spd.1, fun sym => ⟨sym, .depth, none, some lv.2, some spd.2⟩)

/-- `[0-9]+[mhdwM]`: digits, and then a unit. -/
def isInterval (cs : List Char) : Bool :=
  !cs.dropLast.isEmpty && cs.dropLast.all Char.isDigit &&
    cs.getLast?.any fun c => c ∈ ['m', 'h', 'd', 'w', 'M']

/-- What follows the symbol: a candle with its interval, or one of the plain kinds. -/
def parseKind (sym : String) (rest : List Char) : Option StreamName :=
  let interval := rest.drop "kline_".length
  if "kline_".toList.isPrefixOf rest && isInterval interval then
    some ⟨sym, .kline, some (String.ofList interval), none, none⟩
  else (plainKinds.lookup (String.ofList rest)).map fun named => named sym

/-- `[a-z0-9]`, the characters of a symbol in a stream. -/
def isSymbolChar (c : Char) : Bool := c.isLower || c.isDigit

/-- `parse_stream`: the symbol and the kind of a stream, or an error. -/
def parseStream (stream : String) : Except PyError StreamName :=
  let sym := stream.toList.takeWhile isSymbolChar
  match sym.isEmpty, stream.toList.drop sym.length with
  | false, '@' :: rest =>
    (parseKind (String.ofList sym).toUpper rest).elim (.error (.validationError "stream")) .ok
  | _, _ => .error (.validationError "stream")

/-- The characters beyond ASCII whose capitals are ASCII. -/
def asciiCapitals : List (Char × String) :=
  [('ı', "I"), ('ſ', "S"), ('ß', "SS"), ('ﬀ', "FF"), ('ﬁ', "FI"), ('ﬂ', "FL"), ('ﬃ', "FFI"),
    ('ﬄ', "FFL"), ('ﬅ', "ST"), ('ﬆ', "ST")]

/-- `str.upper`, as far as the result is compared with ASCII text: a character whose capital is
    not ASCII stays as it is. -/
def upper (s : String) : String :=
  String.ofList (s.toList.flatMap fun c =>
    (asciiCapitals.lookup c).elim [c.toUpper] String.toList)

/-! ### Events -/

/-- What normalisation raises: a field is refused, or the key of the event has no digest. -/
inductive NormalizeError where
  | refused (e : PyError)
  | noDigest (e : TypeError)
  deriving DecidableEq, Repr

/-- The identity of an instrument, as much of it as normalisation reads. -/
structure SymbolRef where
  venue : VenueName
  symbolVenue : String
  symbolCanon : String
  deriving DecidableEq, Repr

/-- `_build` of a trade: the first field out of its range is named. -/
def buildTrade (t : Trade) : Except PyError Trade :=
  if t.price ≤ 0 then .error (.validationError "price")
  else if t.qty ≤ 0 then .error (.validationError "qty")
  else if t.tsEventNs < 0 then .error (.validationError "ts_event_ns")
  else if t.tsIngestNs < 0 then .error (.validationError "ts_ingest_ns")
  else .ok t

/-- `_build` of a mark price. -/
def buildMark (m : MarkPrice) : Except PyError MarkPrice :=
  if m.markPrice ≤ 0 then .error (.validationError "mark_price")
  else if m.nextFundingTimeNs < 0 then .error (.validationError "next_funding_time_ns")
  else if m.tsEventNs < 0 then .error (.validationError "ts_event_ns")
  else if m.tsIngestNs < 0 then .error (.validationError "ts_ingest_ns")
  else .ok m

/-- `_build` of a snapshot, whose levels have been checked before. -/
def buildBook (b : BookSnapshot) : Except PyError BookSnapshot :=
  if b.tsEventNs < 0 then .error (.validationError "ts_event_ns")
  else if b.tsIngestNs < 0 then .error (.validationError "ts_ingest_ns")
  else .ok b

/-- The candle of the values `k`: a frame and a row build it alike. -/
def RestKline.build (k : RestKline) (inst : SymbolRef) (tf : String) (isClosed : Bool) (src : ℕ)
    (tsEventNs tsIngestNs : ℤ) (uid : String) : Candle where
  instrument := inst.symbolCanon
  venue := inst.venue.value
  tf := tf
  openTimeNs := k.openMs * nsPerMs
  closeTimeNs := k.closeMs * nsPerMs
  o := k.o
  h := k.h
  l := k.l
  c := k.c
  volume := k.volume
  quoteVolume := k.quoteVolume
  tradesCount := k.tradesCount
  vwap := none
  isClosed := isClosed
  isSynthetic := false
  src := src
  tsEventNs := tsEventNs
  tsIngestNs := tsIngestNs
  eventUid := uid

/-- The trade of the values `row`. -/
def RestAggTrade.build (row : RestAggTrade) (inst : SymbolRef) (tsIngestNs : ℤ) (uid : String) :
    Trade :=
  row.trade ⟨inst.symbolCanon, inst.venue.value, fun _ => uid⟩ tsIngestNs

namespace Wire

/-! ### Frames -/

section Frames

variable (inst : SymbolRef)

/-- `_check_event`: the type of a frame must be that of its stream. -/
def checkEvent (d : Members) (expected : String) : Except PyError Unit := do
  let e ← toStr "e" (d.get "e")
  expect (e = expected) "e"
  let s ← toStr "s" (d.get "s")
  expect (s = inst.symbolVenue) "s"

/-- What a frame says of a candle. -/
structure WsKline where
  tf : String
  kline : RestKline
  isClosed : Bool
  eventMs : ℤ
  deriving DecidableEq

/-- The reading part of `_ws_kline`. -/
def readWsKline (sn : StreamName) (d : Members) : Except PyError WsKline := do
  checkFields d wsKlineFields wsKlineFields ""
  checkEvent inst d "kline"
  let k ← toMapping "k" (d.get "k")
  checkFields k wsKlineKFields wsKlineKFields "k."
  let s ← toStr "k.s" (k.get "s")
  expect (s = inst.symbolVenue) "k.s"
  let tf ← toStr "k.i" (k.get "i")
  expect (some tf = sn.interval) "k.i"
  let stepMs ← (tfMs.lookup tf).elim (.error (.validationError "k.i")) .ok
  let openMs ← toInt "k.t" (k.get "t")
  let closeMs ← toInt "k.T" (k.get "T")
  expect (closeMs = openMs + stepMs - 1) "k.T"
  -- the first and the last trade and the volumes of the takers are read only to be checked
  let _ ← toInt "k.f" (k.get "f")
  let _ ← toInt "k.L" (k.get "L")
  let _ ← toDec "k.V" (k.get "V")
  let _ ← toDec "k.Q" (k.get "Q")
  let _ ← toDec "k.B" (k.get "B")
  let o ← toDec "k.o" (k.get "o")
  let h ← toDec "k.h" (k.get "h")
  let l ← toDec "k.l" (k.get "l")
  let c ← toDec "k.c" (k.get "c")
  let volume ← toDec "k.v" (k.get "v")
  let quoteVolume ← toDec "k.q" (k.get "q")
  let tradesCount ← toInt "k.n" (k.get "n")
  let isClosed ← toBool "k.x" (k.get "x")
  let eventMs ← toInt "E" (d.get "E")
  return ⟨tf, ⟨openMs, closeMs, o, h, l, c, volume, quoteVolume, tradesCount⟩, isClosed, eventMs⟩

/-- The reading part of `_ws_agg_trade`. -/
def readWsAggTrade (d : Members) : Except PyError RestAggTrade := do
  checkFields d wsAggTradeFields wsAggTradeRequired ""
  checkEvent inst d "aggTrade"
  let _ ← toInt "E" (d.get "E")
  optional d "nq" toDec
  optional d "st" toInt
  let a ← toInt "a" (d.get "a")
  let f ← toInt "f" (d.get "f")
  let l ← toInt "l" (d.get "l")
  let p ← toDec "p" (d.get "p")
  let q ← toDec "q" (d.get "q")
  let m ← toBool "m" (d.get "m")
  let T ← toInt "T" (d.get "T")
  return ⟨a, p, q, f, l, T, m⟩

variable (blake2b : Blake2b)

/-- `_ws_kline`: the names, the instrument and the interval are checked before the values. -/
def wsKline (sn : StreamName) (d : Members) (tsIngestNs : ℤ) (src : ℕ) :
    Except NormalizeError Candle := do
  let w ← (readWsKline inst sn d).mapError .refused
  let uid ← (klineUid blake2b inst.venue.value inst.symbolCanon w.tf
    (w.kline.openMs * nsPerMs)).mapError .noDigest
  (buildCandle (w.kline.build inst w.tf w.isClosed src (w.eventMs * nsPerMs) tsIngestNs
    uid)).mapError .refused

/-- A trade whose values have been read. -/
def aggTrade (row : RestAggTrade) (tsIngestNs : ℤ) : Except NormalizeError Trade := do
  let uid ← (tradeUid blake2b inst.venue.value inst.symbolCanon row.a).mapError .noDigest
  (buildTrade (row.build inst tsIngestNs uid)).mapError .refused

/-- `_ws_agg_trade`: a trade of the stream, with the names it must have. -/
def wsAggTrade (d : Members) (tsIngestNs : ℤ) : Except NormalizeError Trade := do
  let row ← (readWsAggTrade inst d).mapError .refused
  aggTrade inst blake2b row tsIngestNs

/-- What a frame or an answer says of the mark price. -/
structure MarkFields where
  markPrice : Decimal
  indexPrice : Decimal
  fundingRate : Decimal
  nextFundingMs : ℤ
  eventMs : ℤ
  deriving DecidableEq

/-- The reading part of `_ws_mark`. -/
def readWsMark (d : Members) : Except PyError MarkFields := do
  checkFields d wsMarkFields wsMarkRequired ""
  checkEvent inst d "markPriceUpdate"
  let _ ← toDec "P" (d.get "P")
  optional d "ap" toDec
  optional d "st" toInt
  let eventMs ← toInt "E" (d.get "E")
  let markPrice ← toDec "p" (d.get "p")
  let indexPrice ← toDec "i" (d.get "i")
  let fundingRate ← toDec "r" (d.get "r")
  let nextFundingMs ← toInt "T" (d.get "T")
  return ⟨markPrice, indexPrice, fundingRate, nextFundingMs, eventMs⟩

/-- A mark price whose values have been read. -/
def markPrice (m : MarkFields) (tsIngestNs : ℤ) : Except NormalizeError MarkPrice := do
  let uid ← (markUid blake2b inst.venue.value inst.symbolCanon
    (m.eventMs * nsPerMs)).mapError .noDigest
  (buildMark
    { instrument := inst.symbolCanon
      venue := inst.venue.value
      markPrice := m.markPrice
      indexPrice := some m.indexPrice
      fundingRate := m.fundingRate
      nextFundingTimeNs := m.nextFundingMs * nsPerMs
      tsEventNs := m.eventMs * nsPerMs
      tsIngestNs := tsIngestNs
      eventUid := uid }).mapError .refused

/-- `_ws_mark`: a mark price of the stream, with the names it must have. -/
def wsMark (d : Members) (tsIngestNs : ℤ) : Except NormalizeError MarkPrice := do
  let m ← (readWsMark inst d).mapError .refused
  markPrice inst blake2b m tsIngestNs

/-- The levels from the `i`-th on; `prev` is the price of the level before. -/
def levelsFrom (field : String) (descending : Bool) : ℕ → Option Decimal → List Datum →
    Except PyError (List BookLevel)
  | _, _, [] => .ok []
  | i, prev, lv :: lvs => do
    let f := field ++ "[" ++ toString i ++ "]"
    match lv with
    | .arr [p, q] =>
      let price ← toDec (f ++ "[0]") p
      let qty ← toDec (f ++ "[1]") q
      expect (¬(price ≤ 0 ∨ qty < 0)) f
      expect (∀ x ∈ prev, if descending then price < x else x < price) f
      let rest ← levelsFrom field descending (i + 1) (some price) lvs
      return ⟨price, qty⟩ :: rest
    | _ => .error (.validationError f)

/-- `_levels`: the levels of one side, sorted, and at most so many of them. -/
def levels (raw : Datum) (field : String) (maxLevels : ℕ) (descending : Bool) :
    Except PyError (List BookLevel) :=
  match raw with
  | .arr lvs =>
    if maxLevels < lvs.length then .error (.validationError field)
    else levelsFrom field descending 0 none lvs
  | _ => .error (.validationError field)

/-- What a frame says of the book. -/
structure DepthFields where
  bids : List BookLevel
  asks : List BookLevel
  lastUpdateId : ℤ
  eventMs : ℤ
  deriving DecidableEq

/-- The reading part of `_ws_depth`. -/
def readWsDepth (sn : StreamName) (d : Members) : Except PyError DepthFields := do
  checkFields d wsDepthFields wsDepthRequired ""
  checkEvent inst d "depthUpdate"
  let _ ← toInt "E" (d.get "E")
  let _ ← toInt "U" (d.get "U")
  let _ ← toInt "pu" (d.get "pu")
  optional d "ps" toStr
  optional d "st" toInt
  let u ← toInt "u" (d.get "u")
  let bids ← levels (d.get "b") "b" (sn.levels.getD 20) true
  let asks ← levels (d.get "a") "a" (sn.levels.getD 20) false
  let T ← toInt "T" (d.get "T")
  return ⟨bids, asks, u, T⟩

/-- `_ws_depth`: both sides of the book, sorted by price. -/
def wsDepth (sn : StreamName) (d : Members) (tsIngestNs : ℤ) :
    Except NormalizeError BookSnapshot := do
  let b ← (readWsDepth inst sn d).mapError .refused
  let uid ← (depthUid blake2b inst.venue.value inst.symbolCanon b.lastUpdateId).mapError .noDigest
  (buildBook
    { instrument := inst.symbolCanon
      venue := inst.venue.value
      bids := b.bids
      asks := b.asks
      lastUpdateId := b.lastUpdateId
      tsEventNs := b.eventMs * nsPerMs
      tsIngestNs := tsIngestNs
      eventUid := uid }).mapError .refused

/-- The checks of `normalize_binance` before the payload is looked at. -/
def openFrame (stream : String) (data : Datum) (tsIngestNs : ℤ) :
    Except PyError (StreamName × Members) := do
  let sn ← parseStream stream
  expect (sn.symbol = upper inst.symbolVenue) "stream"
  expect (0 ≤ tsIngestNs) "ts_ingest_ns"
  let d ← toMapping "$" data
  return (sn, d)

/-- `normalize_binance`: the stream says how its frame is read. -/
def normalizeBinance (stream : String) (data : Datum) (tsIngestNs : ℤ) (src : ℕ) :
    Except NormalizeError MarketEvent := do
  let (sn, d) ← (openFrame inst stream data tsIngestNs).mapError .refused
  match sn.kind with
  | .kline => return .candle (← wsKline inst blake2b sn d tsIngestNs src)
  | .aggTrade => return .trade (← wsAggTrade inst blake2b d tsIngestNs)
  | .markPrice => return .mark (← wsMark inst blake2b d tsIngestNs)
  | .depth => return .book (← wsDepth inst blake2b sn d tsIngestNs)

/-! ### Answers -/

/-- A value in a row. -/
def klineField : Datum → KlineField
  | .int n => .int n
  | .str s => .text s
  | v => .other (String.ofList v.dumps)

/-- A row of `klines`. -/
def restRow : Datum → RestRow
  | .arr fields => .array (fields.map klineField)
  | v => .other (String.ofList v.dumps)

/-- `normalize_rest_kline`: without the time of the exchange the time of the ingestion tells
    whether the bar has ended, and nothing else. -/
def normalizeRestKline (row : Datum) (tsIngestNs : ℤ) (tf : Timeframe) (serverTimeMs : Option ℤ)
    (src : ℕ) : Except NormalizeError Candle := do
  (expect (0 ≤ tsIngestNs) "ts_ingest_ns").mapError .refused
  let k ← (readRestKline tf (restRow row)).mapError .refused
  let isClosed := decide (k.closeMs < serverTimeMs.getD (tsIngestNs / nsPerMs))
  let tsEventNs := if isClosed then k.closeMs * nsPerMs
    else serverTimeMs.elim (k.closeMs * nsPerMs) fun now => now * nsPerMs
  let uid ← (klineUid blake2b inst.venue.value inst.symbolCanon tf.name
    (k.openMs * nsPerMs)).mapError .noDigest
  (buildCandle (k.build inst tf.name isClosed src tsEventNs tsIngestNs uid)).mapError .refused

/-- The reading part of `normalize_rest_agg_trade`. -/
def readRestAggTrade (row : Datum) : Except PyError RestAggTrade := do
  let d ← toMapping "$" row
  checkFields d restAggTradeFields restAggTradeRequired ""
  optional d "nq" toDec
  let a ← toInt "a" (d.get "a")
  let f ← toInt "f" (d.get "f")
  let l ← toInt "l" (d.get "l")
  let p ← toDec "p" (d.get "p")
  let q ← toDec "q" (d.get "q")
  let m ← toBool "m" (d.get "m")
  let T ← toInt "T" (d.get "T")
  return ⟨a, p, q, f, l, T, m⟩

/-- `normalize_rest_agg_trade`: a row of the REST interface as a trade. -/
def normalizeRestAggTrade (row : Datum) (tsIngestNs : ℤ) : Except NormalizeError Trade := do
  let r ← (readRestAggTrade row).mapError .refused
  aggTrade inst blake2b r tsIngestNs

/-- The reading part of `normalize_premium_index`. -/
def readPremiumIndex (data : Datum) : Except PyError MarkFields := do
  let d ← toMapping "$" data
  checkFields d premiumIndexFields premiumIndexFields ""
  let s ← toStr "symbol" (d.get "symbol")
  expect (s = inst.symbolVenue) "symbol"
  let _ ← toDec "estimatedSettlePrice" (d.get "estimatedSettlePrice")
  let _ ← toDec "interestRate" (d.get "interestRate")
  let eventMs ← toInt "time" (d.get "time")
  let markPrice ← toDec "markPrice" (d.get "markPrice")
  let indexPrice ← toDec "indexPrice" (d.get "indexPrice")
  let fundingRate ← toDec "lastFundingRate" (d.get "lastFundingRate")
  let nextFundingMs ← toInt "nextFundingTime" (d.get "nextFundingTime")
  return ⟨markPrice, indexPrice, fundingRate, nextFundingMs, eventMs⟩

/-- `normalize_premium_index`: a row of the REST interface as a mark price. -/
def normalizePremiumIndex (data : Datum) (tsIngestNs : ℤ) : Except NormalizeError MarkPrice := do
  (expect (0 ≤ tsIngestNs) "ts_ingest_ns").mapError .refused
  let m ← (readPremiumIndex inst data).mapError .refused
  markPrice inst blake2b m tsIngestNs

end Frames

end Wire

end FuzzHelm
