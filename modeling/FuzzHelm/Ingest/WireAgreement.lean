import FuzzHelm.Ingest.Normalize

namespace FuzzHelm

open Lib

/-!
# One event in two formats

A candle and a trade reach the program as a frame of a stream and as a row of an answer.  Both
ways lead to the same event, up to the fields that tell when and how it came.

* `SameValue` — what two places of the formats have in common;
* `readWsKline_iff`, `readRestKline_iff`, `readWsAggTrade_iff`, `readRestAggTrade_iff` — what is
  read from each format;
* `KlinePair.agree`, `TradePair.agree` — both formats are accepted or refused together;
* `Normalised` — an event of any of the normalisers; `Normalised.uid` — its identity is the
  digest of its natural key;
* `wire_agreement` — the law.
-/

namespace Wire

/-! ### What is read -/

section Reading

variable {field : String} {v : Datum}

/-- Only a whole number is read as one. -/
@[simp] theorem toInt_eq_ok {n : ℤ} : toInt field v = .ok n ↔ v = .int n := by
  cases v <;> simp [toInt]

/-- A decimal is read from a text that is one. -/
@[simp] theorem toDec_eq_ok {x : Decimal} :
    toDec field v = .ok x ↔ ∃ s, v = .str s ∧ decText s = some x := by
  cases v with
  | str s => cases hs : decText s <;> simp [toDec, hs]
  | _ => simp [toDec]

/-- Only a truth value is read as one. -/
@[simp] theorem toBool_eq_ok {b : Bool} : toBool field v = .ok b ↔ v = .bool b := by
  cases v <;> simp [toBool]

/-- Only a text is read as one. -/
@[simp] theorem toStr_eq_ok {s : String} : toStr field v = .ok s ↔ v = .str s := by
  cases v <;> simp [toStr]

/-- Only an object is read as one. -/
@[simp] theorem toMapping_eq_ok {d : Members} : toMapping field v = .ok d ↔ v = .obj d := by
  cases v <;> simp [toMapping]

/-- What is expected must be the case. -/
@[simp] theorem expect_eq_ok {p : Prop} [Decidable p] {u : Unit} :
    expect p field = .ok u ↔ p := by
  unfold expect
  split_ifs with h <;> simp [h]

/-- Another error leaves the value. -/
theorem mapError_eq_ok {ε ε' α : Type} {f : ε → ε'} {x : Except ε α} {a : α} :
    x.mapError f = .ok a ↔ x = .ok a := by
  cases x <;> simp [Except.mapError]

/-- The value of a result that is one. -/
theorem toOption_eq_some {ε α : Type} {x : Except ε α} {a : α} :
    x.toOption = some a ↔ x = .ok a := by
  cases x <;> simp [Except.toOption]

/-- A row is read by the same rules as a frame. -/
theorem klineField_toInt : (klineField v).toInt field = toInt field v := by
  cases v <;> rfl

/-- A decimal of a row is read like that of a frame. -/
theorem klineField_toDec : (klineField v).toDec field = toDec field v := by
  cases v <;> rfl

end Reading

/-- Two places hold the same: one value, or texts of one decimal. -/
inductive SameValue : Datum → Datum → Prop
  | refl (v : Datum) : SameValue v v
  | text {s s' : String} (h : decText s = decText s') : SameValue (.str s) (.str s')

namespace SameValue

variable {x y : Datum}

/-- Equal values are the same whole number. -/
theorem int_iff (h : SameValue x y) {n : ℤ} : x = .int n ↔ y = .int n := by
  cases h <;> simp

/-- Equal values are the same truth value. -/
theorem bool_iff (h : SameValue x y) {b : Bool} : x = .bool b ↔ y = .bool b := by
  cases h <;> simp

/-- Equal values are the same decimal, though their texts may differ. -/
theorem dec_iff (h : SameValue x y) {q : Decimal} :
    (∃ s, x = .str s ∧ decText s = some q) ↔ ∃ s, y = .str s ∧ decText s = some q := by
  cases h with
  | refl v => rfl
  | text h => simp [h]

end SameValue

/-- The nine places of a candle hold the values `k`. -/
structure HoldsKline (t o h l c v T q n : Datum) (k : RestKline) : Prop where
  openMs : t = .int k.openMs
  closeMs : T = .int k.closeMs
  o : ∃ s, o = .str s ∧ decText s = some k.o
  h : ∃ s, h = .str s ∧ decText s = some k.h
  l : ∃ s, l = .str s ∧ decText s = some k.l
  c : ∃ s, c = .str s ∧ decText s = some k.c
  volume : ∃ s, v = .str s ∧ decText s = some k.volume
  quoteVolume : ∃ s, q = .str s ∧ decText s = some k.quoteVolume
  tradesCount : n = .int k.tradesCount

/-- A place is an integer that is read only to be checked. -/
def IsInt (v : Datum) : Prop := ∃ n, v = .int n

/-- A place is a decimal that is read only to be checked. -/
def IsDec (v : Datum) : Prop := ∃ x s, v = .str s ∧ decText s = some x

/-! ### Frames -/

section Frame

variable {inst : SymbolRef} {blake2b : Blake2b} {stream : String} {sn : StreamName} {data : Datum}
  {d : Members} {ts : ℤ} {src : ℕ} {e : MarketEvent}

/-- A frame opens just when its stream can be parsed, is of the instrument, and carries an object.
    -/
theorem openFrame_eq_ok :
    openFrame inst stream data ts = .ok (sn, d) ↔
      parseStream stream = .ok sn ∧ sn.symbol = upper inst.symbolVenue ∧ 0 ≤ ts ∧
        data = .obj d := by
  simp only [openFrame, bind_eq_ok, expect_eq_ok, toMapping_eq_ok, pure, Except.pure,
    Except.ok.injEq, Prod.mk.injEq]
  constructor
  · rintro ⟨sn', hname, _, hsym, _, hts, d', hdata, rfl, rfl⟩
    exact ⟨hname, hsym, hts, hdata⟩
  · rintro ⟨hname, hsym, hts, hdata⟩
    exact ⟨sn, hname, (), hsym, (), hts, d, hdata, rfl, rfl⟩

/-- **A frame is normalised** as an event of its stream. -/
theorem normalizeBinance_eq_ok :
    normalizeBinance inst blake2b stream data ts src = .ok e ↔
      ∃ sn d, openFrame inst stream data ts = .ok (sn, d) ∧
        ((sn.kind = .kline ∧ ∃ c, wsKline inst blake2b sn d ts src = .ok c ∧ .candle c = e) ∨
          (sn.kind = .aggTrade ∧ ∃ t, wsAggTrade inst blake2b d ts = .ok t ∧ .trade t = e) ∨
          (sn.kind = .markPrice ∧ ∃ m, wsMark inst blake2b d ts = .ok m ∧ .mark m = e) ∨
          (sn.kind = .depth ∧ ∃ b, wsDepth inst blake2b sn d ts = .ok b ∧ .book b = e)) := by
  rw [normalizeBinance, bind_eq_ok]
  simp only [mapError_eq_ok, Prod.exists]
  refine exists_congr fun sn => exists_congr fun d => and_congr_right fun _ => ?_
  cases hkind : sn.kind <;> simp [bind_eq_ok, pure, Except.pure]

/-- A frame whose stream is known. -/
theorem normalizeBinance_named (hname : parseStream stream = .ok sn)
    (hsym : sn.symbol = upper inst.symbolVenue) (hts : 0 ≤ ts) :
    openFrame inst stream (.obj d) ts = .ok (sn, d) ∧
      ∀ sn' d', openFrame inst stream (.obj d) ts = .ok (sn', d') → sn' = sn ∧ d' = d := by
  have hopen : openFrame inst stream (.obj d) ts = .ok (sn, d) :=
    openFrame_eq_ok.mpr ⟨hname, hsym, hts, rfl⟩
  refine ⟨hopen, fun sn' d' h => ?_⟩
  rw [hopen, Except.ok.injEq, Prod.mk.injEq] at h
  exact ⟨h.1.symm, h.2.symm⟩

/-- A frame of the stream of candles is normalised as one. -/
theorem normalizeBinance_kline (hname : parseStream stream = .ok sn) (hkind : sn.kind = .kline)
    (hsym : sn.symbol = upper inst.symbolVenue) (hts : 0 ≤ ts) :
    normalizeBinance inst blake2b stream (.obj d) ts src = .ok e ↔
      ∃ c, wsKline inst blake2b sn d ts src = .ok c ∧ MarketEvent.candle c = e := by
  obtain ⟨hopen, honly⟩ := normalizeBinance_named (d := d) hname hsym hts
  rw [normalizeBinance_eq_ok]
  constructor
  · rintro ⟨sn', d', h, hcases⟩
    obtain ⟨rfl, rfl⟩ := honly sn' d' h
    simpa [hkind] using hcases
  · rintro ⟨c, hc, rfl⟩
    exact ⟨sn, d, hopen, .inl ⟨hkind, c, hc, rfl⟩⟩

/-- A frame of the stream of trades is normalised as one. -/
theorem normalizeBinance_trade (hname : parseStream stream = .ok sn) (hkind : sn.kind = .aggTrade)
    (hsym : sn.symbol = upper inst.symbolVenue) (hts : 0 ≤ ts) :
    normalizeBinance inst blake2b stream (.obj d) ts src = .ok e ↔
      ∃ t, wsAggTrade inst blake2b d ts = .ok t ∧ MarketEvent.trade t = e := by
  obtain ⟨hopen, honly⟩ := normalizeBinance_named (d := d) hname hsym hts
  rw [normalizeBinance_eq_ok]
  constructor
  · rintro ⟨sn', d', h, hcases⟩
    obtain ⟨rfl, rfl⟩ := honly sn' d' h
    simpa [hkind] using hcases
  · rintro ⟨t, ht, rfl⟩
    exact ⟨sn, d, hopen, .inr (.inl ⟨hkind, t, ht, rfl⟩)⟩

end Frame

/-! ### Candles in frames -/

section Kline

variable {inst : SymbolRef}

/-- The frame names its event and its symbol. -/
theorem checkEvent_eq_ok {d : Members} {expected : String} {u : Unit} :
    checkEvent inst d expected = .ok u ↔
      d.get "e" = .str expected ∧ d.get "s" = .str inst.symbolVenue := by
  simp [checkEvent, bind_eq_ok]

/-- What a frame of candles has beside the values: its fields, its names, and what is read only
    to be checked. -/
structure KlineForm (inst : SymbolRef) (tf : String) (d k : Members) : Prop where
  fields : checkFields d wsKlineFields wsKlineFields "" = .ok ()
  event : d.get "e" = .str "kline" ∧ d.get "s" = .str inst.symbolVenue
  payload : d.get "k" = .obj k
  kFields : checkFields k wsKlineKFields wsKlineKFields "k." = .ok ()
  symbol : k.get "s" = .str inst.symbolVenue
  interval : k.get "i" = .str tf
  first : IsInt (k.get "f")
  last : IsInt (k.get "L")
  takers : IsDec (k.get "V") ∧ IsDec (k.get "Q") ∧ IsDec (k.get "B")

/-- **A frame of candles is read** just when it has the form and its values are there. -/
theorem readWsKline_iff {sn : StreamName} {d : Members} {w : WsKline} :
    readWsKline inst sn d = .ok w ↔
      ∃ k ms, KlineForm inst w.tf d k ∧ sn.interval = some w.tf ∧ tfMs.lookup w.tf = some ms ∧
        HoldsKline (k.get "t") (k.get "o") (k.get "h") (k.get "l") (k.get "c") (k.get "v")
          (k.get "T") (k.get "q") (k.get "n") w.kline ∧
        w.kline.closeMs = w.kline.openMs + ms - 1 ∧ k.get "x" = .bool w.isClosed ∧
        d.get "E" = .int w.eventMs := by
  -- the text of the interval is looked up
  have hlookup {tf : String} {ms : ℤ} :
      (tfMs.lookup tf).elim (.error (.validationError "k.i")) .ok =
        (.ok ms : Except PyError ℤ) ↔ tfMs.lookup tf = some ms := by
    cases tfMs.lookup tf <;> simp
  simp only [readWsKline, bind_eq_ok, checkEvent_eq_ok, toInt_eq_ok, toDec_eq_ok, toBool_eq_ok,
    toStr_eq_ok, toMapping_eq_ok, expect_eq_ok, hlookup, pure, Except.pure, Except.ok.injEq]
  constructor
  · rintro ⟨_, hfields, _, hevent, k, hk, _, hkFields, s, hs, _, hsym, tf, htf, _, hint, hrest⟩
    obtain ⟨ms, hms, openMs, ht, closeMs, hT, _, hclose, f, hf, L, hL, V, hV, Q, hQ, hrest⟩ := hrest
    obtain ⟨B, hB, o, ho, h, hh, l, hl, c, hc, v, hv, q, hq, n, hn, x, hx, E, hE, rfl⟩ := hrest
    refine ⟨k, ms, ⟨hfields, hevent, hk, hkFields, hsym ▸ hs, htf, ⟨f, hf⟩, ⟨L, hL⟩, ⟨V, hV⟩,
      ⟨Q, hQ⟩, B, hB⟩, hint.symm, hms, ⟨ht, hT, ho, hh, hl, hc, hv, hq, hn⟩, hclose, hx, hE⟩
  · rintro ⟨k, ms, ⟨hfields, hevent, hk, hkFields, hs, htf, ⟨f, hf⟩, ⟨L, hL⟩, ⟨V, hV⟩, ⟨Q, hQ⟩,
      B, hB⟩, hint, hms, ⟨ht, hT, ho, hh, hl, hc, hv, hq, hn⟩, hclose, hx, hE⟩
    exact ⟨(), hfields, (), hevent, k, hk, (), hkFields, _, hs, (), rfl, _, htf, (), hint.symm, ms,
      hms, _, ht, _, hT, (), hclose, f, hf, L, hL, V, hV, Q, hQ, B, hB, _, ho, _, hh, _, hl, _, hc,
      _, hv, _, hq, _, hn, _, hx, _, hE, rfl⟩

/-! ### Candles in rows -/

/-- A row of `klines` by its places. -/
structure KlineRow where
  openTime : Datum
  o : Datum
  h : Datum
  l : Datum
  c : Datum
  v : Datum
  closeTime : Datum
  q : Datum
  n : Datum
  takerBase : Datum
  takerQuote : Datum
  ignored : Datum

/-- The row as it is answered. -/
def KlineRow.datum (r : KlineRow) : Datum :=
  .arr [r.openTime, r.o, r.h, r.l, r.c, r.v, r.closeTime, r.q, r.n, r.takerBase, r.takerQuote,
    r.ignored]

/-- **A row of candles is read** just when its values are there and the others can be read. -/
theorem readRestKline_iff {tf : Timeframe} {r : KlineRow} {k : RestKline} :
    readRestKline tf (restRow r.datum) = .ok k ↔
      (IsDec r.takerBase ∧ IsDec r.takerQuote ∧ IsDec r.ignored) ∧
        HoldsKline r.openTime r.o r.h r.l r.c r.v r.closeTime r.q r.n k ∧
        k.closeMs = k.openMs + tf.ms - 1 := by
  simp only [KlineRow.datum, restRow, List.map_cons, List.map_nil, readRestKline,
    klineField_toInt, klineField_toDec, bind_eq_ok, toInt_eq_ok]
  constructor
  · rintro ⟨openMs, ht, closeMs, hT, h⟩
    split_ifs at h with hclose
    simp only [bind_eq_ok, toInt_eq_ok, toDec_eq_ok, pure, Except.pure, Except.ok.injEq] at h
    obtain ⟨bb, hbb, bq, hbq, ig, hig, o, ho, h, hh, l, hl, c, hc, v, hv, q, hq, n, hn, rfl⟩ := h
    exact ⟨⟨⟨bb, hbb⟩, ⟨bq, hbq⟩, ig, hig⟩, ⟨ht, hT, ho, hh, hl, hc, hv, hq, hn⟩,
      not_not.mp hclose⟩
  · rintro ⟨⟨⟨bb, hbb⟩, ⟨bq, hbq⟩, ig, hig⟩, ⟨ht, hT, ho, hh, hl, hc, hv, hq, hn⟩, hclose⟩
    refine ⟨_, ht, _, hT, ?_⟩
    rw [if_neg (not_not.mpr hclose)]
    simp only [bind_eq_ok, toInt_eq_ok, toDec_eq_ok, pure, Except.pure, Except.ok.injEq]
    exact ⟨bb, hbb, bq, hbq, ig, hig, _, ho, _, hh, _, hl, _, hc, _, hv, _, hq, _, hn, rfl⟩

end Kline

/-! ### Candles in both formats -/

/-- **A closed candle in both formats**: the frame `d` with its part `k`, and the row `r`.  The
    values are the same, and either format has its own form. -/
structure KlinePair (inst : SymbolRef) (tf : Timeframe) (stream : String) (d k : Members)
    (r : KlineRow) : Prop where
  stream : parseStream stream =
    .ok ⟨upper inst.symbolVenue, .kline, some tf.name, none, none⟩
  form : KlineForm inst tf.name d k
  closed : k.get "x" = .bool true
  eventMs : ∃ n, 0 ≤ n ∧ d.get "E" = .int n
  checked : IsDec r.takerBase ∧ IsDec r.takerQuote ∧ IsDec r.ignored
  openTime : SameValue (k.get "t") r.openTime
  closeTime : SameValue (k.get "T") r.closeTime
  o : SameValue (k.get "o") r.o
  h : SameValue (k.get "h") r.h
  l : SameValue (k.get "l") r.l
  c : SameValue (k.get "c") r.c
  v : SameValue (k.get "v") r.v
  q : SameValue (k.get "q") r.q
  n : SameValue (k.get "n") r.n

/-- An event without what tells how and when it came. -/
def content : MarketEvent → MarketEvent
  | .candle c => .candle { c with src := 0, tsEventNs := 0, tsIngestNs := 0 }
  | .trade t => .trade { t with tsIngestNs := 0 }
  | .book b => .book { b with tsIngestNs := 0 }
  | .mark m => .mark { m with tsIngestNs := 0 }

/-- A candle that is built has no faults, and is the one it was built from. -/
theorem buildCandle_eq_ok {c c' : Candle} :
    buildCandle c = .ok c' ↔ candleFaults c = [] ∧ ohlcConsistent c ∧ c = c' := by
  unfold buildCandle
  split
  · rename_i h
    simp [h]
  · rename_i h
    split_ifs with ho <;> simp [h, ho]

section Kline

variable {inst : SymbolRef} {blake2b : Blake2b} {tf : Timeframe} {k : RestKline}

/-- A frame of candles is normalised just when it is read, its key has a digest and its candle
    is accepted. -/
theorem wsKline_eq_ok {sn : StreamName} {d : Members} {ts : ℤ} {src : ℕ} {c : Candle} :
    wsKline inst blake2b sn d ts src = .ok c ↔
      ∃ w uid, readWsKline inst sn d = .ok w ∧
        klineUid blake2b inst.venue.value inst.symbolCanon w.tf (w.kline.openMs * nsPerMs) =
          .ok uid ∧
        buildCandle (w.kline.build inst w.tf w.isClosed src (w.eventMs * nsPerMs) ts uid) =
          .ok c := by
  simp [wsKline, bind_eq_ok, mapError_eq_ok]

/-- A row that is normalised is read, its key has a digest and its candle is accepted. -/
theorem normalizeRestKline_eq_ok {row : Datum} {ts : ℤ} {server : Option ℤ} {src : ℕ} {c : Candle} :
    normalizeRestKline inst blake2b row ts tf server src = .ok c ↔
      0 ≤ ts ∧ ∃ k uid, readRestKline tf (restRow row) = .ok k ∧
        klineUid blake2b inst.venue.value inst.symbolCanon tf.name (k.openMs * nsPerMs) = .ok uid ∧
        buildCandle (k.build inst tf.name (decide (k.closeMs < server.getD (ts / nsPerMs))) src
          (if decide (k.closeMs < server.getD (ts / nsPerMs)) then k.closeMs * nsPerMs
            else server.elim (k.closeMs * nsPerMs) fun now => now * nsPerMs) ts uid) = .ok c := by
  simp [normalizeRestKline, bind_eq_ok, mapError_eq_ok]

/-- Whether a candle is accepted does not depend on how and when it came. -/
theorem build_accepted {b : Bool} {name : String} {src : ℕ} (src' : ℕ) {ev ev' ts ts' : ℤ}
    {uid : String} (hts' : 0 ≤ ts') (hev' : 0 ≤ k.closeMs * nsPerMs → 0 ≤ ev')
    (h : candleFaults (k.build inst name b src ev ts uid) = [] ∧
      ohlcConsistent (k.build inst name b src ev ts uid)) :
    candleFaults (k.build inst name b src' ev' ts' uid) = [] ∧
      ohlcConsistent (k.build inst name b src' ev' ts' uid) := by
  refine ⟨?_, h.2⟩
  have hfaults := h.1
  simp only [candleFaults, List.append_eq_nil_iff, violation_eq_nil, not_lt] at hfaults ⊢
  obtain ⟨⟨hall, -⟩, -⟩ := hfaults
  exact ⟨⟨hall, hev' hall.1.1.1.1.1.1.1.2⟩, hts'⟩

namespace KlinePair

variable {stream : String} {d m : Members} {r : KlineRow} {server : Option ℤ} {src src' : ℕ}
  {tsWs tsRest : ℤ} {e : MarketEvent} {c : Candle} {uid : String}

/-- The values of the candle, its digest, and that it is accepted however it came. -/
structure Accepts (inst : SymbolRef) (blake2b : Blake2b) (tf : Timeframe) (m : Members)
    (k : RestKline) (uid : String) : Prop where
  holds : HoldsKline (m.get "t") (m.get "o") (m.get "h") (m.get "l") (m.get "c") (m.get "v")
    (m.get "T") (m.get "q") (m.get "n") k
  closeMs : k.closeMs = k.openMs + tf.ms - 1
  digest : klineUid blake2b inst.venue.value inst.symbolCanon tf.name (k.openMs * nsPerMs) = .ok uid
  accepted : candleFaults (k.build inst tf.name true 0 0 0 uid) = [] ∧
    ohlcConsistent (k.build inst tf.name true 0 0 0 uid)

/-- The row holds the values that the frame holds. -/
theorem holds_iff (p : KlinePair inst tf stream d m r) :
    HoldsKline (m.get "t") (m.get "o") (m.get "h") (m.get "l") (m.get "c") (m.get "v")
      (m.get "T") (m.get "q") (m.get "n") k ↔
    HoldsKline r.openTime r.o r.h r.l r.c r.v r.closeTime r.q r.n k := by
  constructor
  · rintro ⟨ht, hT, ho, hh, hl, hc, hv, hq, hn⟩
    exact ⟨p.openTime.int_iff.mp ht, p.closeTime.int_iff.mp hT, p.o.dec_iff.mp ho,
      p.h.dec_iff.mp hh, p.l.dec_iff.mp hl, p.c.dec_iff.mp hc, p.v.dec_iff.mp hv,
      p.q.dec_iff.mp hq, p.n.int_iff.mp hn⟩
  · rintro ⟨ht, hT, ho, hh, hl, hc, hv, hq, hn⟩
    exact ⟨p.openTime.int_iff.mpr ht, p.closeTime.int_iff.mpr hT, p.o.dec_iff.mpr ho,
      p.h.dec_iff.mpr hh, p.l.dec_iff.mpr hl, p.c.dec_iff.mpr hc, p.v.dec_iff.mpr hv,
      p.q.dec_iff.mpr hq, p.n.int_iff.mpr hn⟩

/-- The frame is read as the values it holds. -/
theorem read_iff (p : KlinePair inst tf stream d m r) {E : ℤ} (hE : d.get "E" = .int E)
    {w : WsKline} :
    readWsKline inst ⟨upper inst.symbolVenue, .kline, some tf.name, none, none⟩ d = .ok w ↔
      w.tf = tf.name ∧ w.isClosed = true ∧ w.eventMs = E ∧
      HoldsKline (m.get "t") (m.get "o") (m.get "h") (m.get "l") (m.get "c") (m.get "v")
        (m.get "T") (m.get "q") (m.get "n") w.kline ∧
      w.kline.closeMs = w.kline.openMs + tf.ms - 1 := by
  rw [readWsKline_iff]
  constructor
  · rintro ⟨m', ms, hform, hint, hms, hholds, hclose, hx, hE'⟩
    have hm : m' = m := by simpa using hform.payload.symm.trans p.form.payload
    subst hm
    have htf : tf.name = w.tf := by simpa using hint
    have hms' : tf.ms = ms := by simpa [← htf, tf.lookup] using hms
    have hclosed : true = w.isClosed := by simpa using p.closed.symm.trans hx
    have hevent : E = w.eventMs := by simpa using hE.symm.trans hE'
    exact ⟨htf.symm, hclosed.symm, hevent.symm, hholds, by rw [hms']; exact hclose⟩
  · rintro ⟨htf, hclosed, hevent, hholds, hclose⟩
    exact ⟨m, tf.ms, by rw [htf]; exact p.form, by rw [htf], by rw [htf]; exact tf.lookup, hholds,
      hclose, by rw [hclosed]; exact p.closed, by rw [hevent]; exact hE⟩

/-- The event of the frame. -/
theorem ws_iff (p : KlinePair inst tf stream d m r) (hts : 0 ≤ tsWs) {E : ℤ}
    (hE : d.get "E" = .int E) (hE0 : 0 ≤ E) :
    normalizeBinance inst blake2b stream (.obj d) tsWs src = .ok e ↔
      ∃ k uid, Accepts inst blake2b tf m k uid ∧
        e = .candle (k.build inst tf.name true src (E * nsPerMs) tsWs uid) := by
  have hevent : 0 ≤ E * nsPerMs := mul_nonneg hE0 (by decide)
  rw [normalizeBinance_kline p.stream rfl rfl hts]
  simp only [wsKline_eq_ok, p.read_iff hE, buildCandle_eq_ok]
  constructor
  · rintro ⟨c, ⟨⟨name, k, b, E'⟩, uid, ⟨hname, hb, hE', hholds, hclose⟩, huid, hfaults, hohlc,
      rfl⟩, rfl⟩
    dsimp only at hname hb hE' hholds hclose huid hfaults hohlc
    subst hname hb hE'
    exact ⟨k, uid, ⟨hholds, hclose, huid,
      build_accepted 0 le_rfl (fun _ => le_rfl) ⟨hfaults, hohlc⟩⟩, rfl⟩
  · rintro ⟨k, uid, ha, rfl⟩
    obtain ⟨hfaults, hohlc⟩ := build_accepted src hts (fun _ => hevent) ha.accepted
    exact ⟨_, ⟨⟨tf.name, k, true, E⟩, uid, ⟨rfl, rfl, rfl, ha.holds, ha.closeMs⟩, ha.digest,
      hfaults, hohlc, rfl⟩, rfl⟩

/-- The candle of the row, which is read after the candle has ended. -/
theorem rest_iff (p : KlinePair inst tf stream d m r) (hts : 0 ≤ tsRest)
    (hend : ∀ n, r.closeTime = .int n → n < server.getD (tsRest / nsPerMs)) :
    normalizeRestKline inst blake2b r.datum tsRest tf server src = .ok c ↔
      ∃ k uid, Accepts inst blake2b tf m k uid ∧
        c = k.build inst tf.name true src (k.closeMs * nsPerMs) tsRest uid := by
  simp only [normalizeRestKline_eq_ok, readRestKline_iff, buildCandle_eq_ok]
  constructor
  · rintro ⟨-, k, uid, ⟨-, hholds, hclose⟩, huid, hfaults, hohlc, rfl⟩
    have hclosed : decide (k.closeMs < server.getD (tsRest / nsPerMs)) = true :=
      decide_eq_true (hend _ hholds.closeMs)
    rw [hclosed, if_pos rfl] at hfaults hohlc ⊢
    exact ⟨k, uid, ⟨p.holds_iff.mpr hholds, hclose, huid,
      build_accepted 0 le_rfl (fun _ => le_rfl) ⟨hfaults, hohlc⟩⟩, rfl⟩
  · rintro ⟨k, uid, ha, rfl⟩
    have hholds := p.holds_iff.mp ha.holds
    have hclosed : decide (k.closeMs < server.getD (tsRest / nsPerMs)) = true :=
      decide_eq_true (hend _ hholds.closeMs)
    obtain ⟨hfaults, hohlc⟩ := build_accepted src hts id ha.accepted
    refine ⟨hts, k, uid, ⟨p.checked, hholds, ha.closeMs⟩, ha.digest, ?_⟩
    rw [hclosed, if_pos rfl]
    exact ⟨hfaults, hohlc, rfl⟩

/-- **Both formats of a closed candle** are accepted together, as one event. -/
theorem agree (p : KlinePair inst tf stream d m r) (htsWs : 0 ≤ tsWs) (htsRest : 0 ≤ tsRest)
    (hend : ∀ n, r.closeTime = .int n → n < server.getD (tsRest / nsPerMs)) :
    (normalizeBinance inst blake2b stream (.obj d) tsWs src).toOption.map content =
      (normalizeRestKline inst blake2b r.datum tsRest tf server src').toOption.map
        fun c => content (.candle c) := by
  obtain ⟨E, hE0, hE⟩ := p.eventMs
  ext e
  simp only [Option.map_eq_some_iff, toOption_eq_some, p.ws_iff htsWs hE hE0,
    p.rest_iff htsRest hend]
  constructor
  · rintro ⟨-, ⟨k, uid, ha, rfl⟩, rfl⟩
    exact ⟨_, ⟨k, uid, ha, rfl⟩, rfl⟩
  · rintro ⟨-, ⟨k, uid, ha, rfl⟩, rfl⟩
    exact ⟨_, ⟨k, uid, ha, rfl⟩, rfl⟩

end KlinePair

end Kline

/-! ### Trades in both formats -/

/-- The seven places of a trade hold the values `row`. -/
structure HoldsTrade (a p q f l T m : Datum) (row : RestAggTrade) : Prop where
  a : a = .int row.a
  p : ∃ s, p = .str s ∧ decText s = some row.p
  q : ∃ s, q = .str s ∧ decText s = some row.q
  f : f = .int row.f
  l : l = .int row.l
  T : T = .int row.T
  m : m = .bool row.m

/-- What a frame of trades has beside the values. -/
structure AggTradeForm (inst : SymbolRef) (d : Members) : Prop where
  fields : checkFields d wsAggTradeFields wsAggTradeRequired "" = .ok ()
  event : d.get "e" = .str "aggTrade" ∧ d.get "s" = .str inst.symbolVenue
  eventMs : IsInt (d.get "E")
  nq : optional d "nq" toDec = .ok ()
  st : optional d "st" toInt = .ok ()

/-- What a row of trades has beside the values. -/
structure RestTradeForm (d : Members) : Prop where
  fields : checkFields d restAggTradeFields restAggTradeRequired "" = .ok ()
  nq : optional d "nq" toDec = .ok ()

section Trade

variable {inst : SymbolRef} {blake2b : Blake2b} {d : Members} {row : RestAggTrade}

/-- **A frame of trades is read** just when it has the form and its values are there. -/
theorem readWsAggTrade_iff :
    readWsAggTrade inst d = .ok row ↔ AggTradeForm inst d ∧
      HoldsTrade (d.get "a") (d.get "p") (d.get "q") (d.get "f") (d.get "l") (d.get "T")
        (d.get "m") row := by
  simp only [readWsAggTrade, bind_eq_ok, checkEvent_eq_ok, toInt_eq_ok, toDec_eq_ok, toBool_eq_ok,
    pure, Except.pure, Except.ok.injEq]
  constructor
  · rintro ⟨_, hfields, _, hevent, E, hE, _, hnq, _, hst, a, ha, f, hf, l, hl, p, hp, q, hq, m, hm,
      T, hT, rfl⟩
    exact ⟨⟨hfields, hevent, ⟨E, hE⟩, hnq, hst⟩, ha, hp, hq, hf, hl, hT, hm⟩
  · rintro ⟨⟨hfields, hevent, ⟨E, hE⟩, hnq, hst⟩, ha, hp, hq, hf, hl, hT, hm⟩
    exact ⟨(), hfields, (), hevent, E, hE, (), hnq, (), hst, _, ha, _, hf, _, hl, _, hp, _, hq, _,
      hm, _, hT, rfl⟩

/-- **A row of trades is read** just when it has the form and its values are there. -/
theorem readRestAggTrade_iff :
    readRestAggTrade (.obj d) = .ok row ↔ RestTradeForm d ∧
      HoldsTrade (d.get "a") (d.get "p") (d.get "q") (d.get "f") (d.get "l") (d.get "T")
        (d.get "m") row := by
  simp only [readRestAggTrade, bind_eq_ok, toMapping_eq_ok, Datum.obj.injEq, toInt_eq_ok,
    toDec_eq_ok, toBool_eq_ok, pure, Except.pure, Except.ok.injEq]
  constructor
  · rintro ⟨_, rfl, _, hfields, _, hnq, a, ha, f, hf, l, hl, p, hp, q, hq, m, hm, T, hT, rfl⟩
    exact ⟨⟨hfields, hnq⟩, ha, hp, hq, hf, hl, hT, hm⟩
  · rintro ⟨⟨hfields, hnq⟩, ha, hp, hq, hf, hl, hT, hm⟩
    exact ⟨_, rfl, (), hfields, (), hnq, _, ha, _, hf, _, hl, _, hp, _, hq, _, hm, _, hT, rfl⟩

/-- **A trade in both formats**: the frame `d` and the row `r` hold the same values, and either
    has its own form. -/
structure TradePair (inst : SymbolRef) (stream : String) (d r : Members) : Prop where
  stream : parseStream stream = .ok ⟨upper inst.symbolVenue, .aggTrade, none, none, none⟩
  form : AggTradeForm inst d
  restForm : RestTradeForm r
  a : SameValue (d.get "a") (r.get "a")
  p : SameValue (d.get "p") (r.get "p")
  q : SameValue (d.get "q") (r.get "q")
  f : SameValue (d.get "f") (r.get "f")
  l : SameValue (d.get "l") (r.get "l")
  T : SameValue (d.get "T") (r.get "T")
  m : SameValue (d.get "m") (r.get "m")

namespace TradePair

variable {stream : String} {r : Members}

/-- Both formats are read as the same trade. -/
theorem read_iff (p : TradePair inst stream d r) :
    readWsAggTrade inst d = .ok row ↔ readRestAggTrade (.obj r) = .ok row := by
  rw [readWsAggTrade_iff, readRestAggTrade_iff]
  constructor
  · rintro ⟨-, ha, hp, hq, hf, hl, hT, hm⟩
    exact ⟨p.restForm, p.a.int_iff.mp ha, p.p.dec_iff.mp hp, p.q.dec_iff.mp hq, p.f.int_iff.mp hf,
      p.l.int_iff.mp hl, p.T.int_iff.mp hT, p.m.bool_iff.mp hm⟩
  · rintro ⟨-, ha, hp, hq, hf, hl, hT, hm⟩
    exact ⟨p.form, p.a.int_iff.mpr ha, p.p.dec_iff.mpr hp, p.q.dec_iff.mpr hq, p.f.int_iff.mpr hf,
      p.l.int_iff.mpr hl, p.T.int_iff.mpr hT, p.m.bool_iff.mpr hm⟩

end TradePair

/-- A trade is accepted just when its prices and times are in range. -/
theorem buildTrade_eq_ok {t t' : Trade} :
    buildTrade t = .ok t' ↔
      (0 < t.price ∧ 0 < t.qty ∧ 0 ≤ t.tsEventNs ∧ 0 ≤ t.tsIngestNs) ∧ t = t' := by
  unfold buildTrade
  split_ifs with hp hq he hi
  · simp [hp]
  · simp [hq]
  · simp [he]
  · simp [hi]
  · simp [not_le.mp hp, not_le.mp hq, not_lt.mp he, not_lt.mp hi]

/-- A trade that was read has a digest and is accepted; only its times come from outside. -/
theorem aggTrade_eq_ok {ts : ℤ} {t : Trade} :
    aggTrade inst blake2b row ts = .ok t ↔
      ∃ uid, tradeUid blake2b inst.venue.value inst.symbolCanon row.a = .ok uid ∧
        (0 < row.p ∧ 0 < row.q ∧ 0 ≤ row.T * nsPerMs ∧ 0 ≤ ts) ∧ row.build inst ts uid = t := by
  simp only [aggTrade, bind_eq_ok, mapError_eq_ok, buildTrade_eq_ok]
  rfl

/-- A frame of trades is normalised just when it is read and its trade is accepted. -/
theorem wsAggTrade_eq_ok {ts : ℤ} {t : Trade} :
    wsAggTrade inst blake2b d ts = .ok t ↔
      ∃ row, readWsAggTrade inst d = .ok row ∧ aggTrade inst blake2b row ts = .ok t := by
  simp [wsAggTrade, bind_eq_ok, mapError_eq_ok]

/-- A row of trades that is normalised. -/
theorem normalizeRestAggTrade_eq_ok {r : Datum} {ts : ℤ} {t : Trade} :
    normalizeRestAggTrade inst blake2b r ts = .ok t ↔
      ∃ row, readRestAggTrade r = .ok row ∧ aggTrade inst blake2b row ts = .ok t := by
  simp [normalizeRestAggTrade, bind_eq_ok, mapError_eq_ok]

/-- **Both formats of a trade** are accepted together, as one event. -/
theorem TradePair.agree {stream : String} {r : Members} {tsWs tsRest : ℤ} {src : ℕ}
    (p : TradePair inst stream d r) (htsWs : 0 ≤ tsWs) (htsRest : 0 ≤ tsRest) :
    (normalizeBinance inst blake2b stream (.obj d) tsWs src).toOption.map content =
      (normalizeRestAggTrade inst blake2b (.obj r) tsRest).toOption.map
        fun t => content (.trade t) := by
  ext e
  simp only [Option.map_eq_some_iff, toOption_eq_some,
    normalizeBinance_trade p.stream rfl rfl htsWs, wsAggTrade_eq_ok, normalizeRestAggTrade_eq_ok,
    p.read_iff, aggTrade_eq_ok]
  constructor
  · rintro ⟨-, ⟨-, ⟨row, hrow, uid, huid, ⟨hp, hq, hT, -⟩, rfl⟩, rfl⟩, rfl⟩
    exact ⟨_, ⟨row, hrow, uid, huid, ⟨hp, hq, hT, htsRest⟩, rfl⟩, rfl⟩
  · rintro ⟨-, ⟨row, hrow, uid, huid, ⟨hp, hq, hT, -⟩, rfl⟩, rfl⟩
    exact ⟨_, ⟨_, ⟨row, hrow, uid, huid, ⟨hp, hq, hT, htsWs⟩, rfl⟩, rfl⟩, rfl⟩

end Trade

/-! ### Identities -/

/-- An event of any of the normalisers. -/
inductive Normalised (blake2b : Blake2b) : MarketEvent → Prop
  | frame {inst : SymbolRef} {stream : String} {data : Datum} {ts : ℤ} {src : ℕ} {e : MarketEvent}
      (h : normalizeBinance inst blake2b stream data ts src = .ok e) : Normalised blake2b e
  | restKline {inst : SymbolRef} {row : Datum} {ts : ℤ} {tf : Timeframe} {server : Option ℤ}
      {src : ℕ} {c : Candle} (h : normalizeRestKline inst blake2b row ts tf server src = .ok c) :
      Normalised blake2b (.candle c)
  | restTrade {inst : SymbolRef} {row : Datum} {ts : ℤ} {t : Trade}
      (h : normalizeRestAggTrade inst blake2b row ts = .ok t) : Normalised blake2b (.trade t)
  | premiumIndex {inst : SymbolRef} {data : Datum} {ts : ℤ} {m : MarkPrice}
      (h : normalizePremiumIndex inst blake2b data ts = .ok m) : Normalised blake2b (.mark m)

section Identity

variable {inst : SymbolRef} {blake2b : Blake2b} {ts : ℤ}

/-- A mark price that is built is the one it was built from. -/
theorem buildMark_eq_ok {m m' : MarkPrice} (h : buildMark m = .ok m') : m = m' := by
  unfold buildMark at h
  split_ifs at h
  exact Except.ok.inj h

/-- A depth that is built is the one it was built from. -/
theorem buildBook_eq_ok {b b' : BookSnapshot} (h : buildBook b = .ok b') : b = b' := by
  unfold buildBook at h
  split_ifs at h
  exact Except.ok.inj h

/-- A trade is named by its id, and happened when the exchange says. -/
theorem aggTrade_spec {row : RestAggTrade} {t : Trade}
    (h : aggTrade inst blake2b row ts = .ok t) :
    (MarketEvent.trade t).naturalKey.uid blake2b = .ok t.eventUid ∧
      t.tsEventNs = row.T * nsPerMs := by
  obtain ⟨uid, huid, -, rfl⟩ := aggTrade_eq_ok.mp h
  exact ⟨huid, rfl⟩

/-- A mark price is named by its time. -/
theorem markPrice_spec {f : MarkFields} {m : MarkPrice}
    (h : markPrice inst blake2b f ts = .ok m) :
    (MarketEvent.mark m).naturalKey.uid blake2b = .ok m.eventUid ∧
      m.tsEventNs = f.eventMs * nsPerMs := by
  simp only [markPrice, bind_eq_ok, mapError_eq_ok] at h
  obtain ⟨uid, huid, hm⟩ := h
  rw [← buildMark_eq_ok hm]
  exact ⟨huid, rfl⟩

/-- A candle of a frame is named by its timeframe and its opening. -/
theorem wsKline_spec {sn : StreamName} {d : Members} {src : ℕ} {c : Candle}
    (h : wsKline inst blake2b sn d ts src = .ok c) :
    (MarketEvent.candle c).naturalKey.uid blake2b = .ok c.eventUid ∧
      ∃ w, readWsKline inst sn d = .ok w ∧ c.tsEventNs = w.eventMs * nsPerMs := by
  obtain ⟨w, uid, hw, huid, hc⟩ := wsKline_eq_ok.mp h
  obtain ⟨-, -, rfl⟩ := buildCandle_eq_ok.mp hc
  exact ⟨huid, w, hw, rfl⟩

/-- A snapshot is named by its last update. -/
theorem wsDepth_spec {sn : StreamName} {d : Members} {b : BookSnapshot}
    (h : wsDepth inst blake2b sn d ts = .ok b) :
    (MarketEvent.book b).naturalKey.uid blake2b = .ok b.eventUid ∧
      ∃ f, readWsDepth inst sn d = .ok f ∧ b.tsEventNs = f.eventMs * nsPerMs := by
  simp only [wsDepth, bind_eq_ok, mapError_eq_ok] at h
  obtain ⟨f, hf, uid, huid, hb⟩ := h
  rw [← buildBook_eq_ok hb]
  exact ⟨huid, f, hf, rfl⟩

/-- A candle of a row is named by its timeframe and its opening; its time is the end of the bar,
    or the time of the exchange when the bar has not ended. -/
theorem normalizeRestKline_spec {row : Datum} {tf : Timeframe} {server : Option ℤ} {src : ℕ}
    {c : Candle} (h : normalizeRestKline inst blake2b row ts tf server src = .ok c) :
    (MarketEvent.candle c).naturalKey.uid blake2b = .ok c.eventUid ∧
      (c.isClosed = true → c.tsEventNs = c.closeTimeNs) ∧
      ∃ k, readRestKline tf (restRow row) = .ok k ∧
        c.tsEventNs = server.elim (k.closeMs * nsPerMs) fun now =>
          if k.closeMs < now then k.closeMs * nsPerMs else now * nsPerMs := by
  obtain ⟨-, k, uid, hk, huid, hc⟩ := normalizeRestKline_eq_ok.mp h
  obtain ⟨-, -, rfl⟩ := buildCandle_eq_ok.mp hc
  refine ⟨huid, fun hclosed => if_pos hclosed, k, hk, ?_⟩
  cases server with
  | none => exact ite_self _
  | some now => simp [RestKline.build]

/-- **Every event is named by its natural key.** -/
theorem Normalised.uid {e : MarketEvent} (h : Normalised blake2b e) :
    e.naturalKey.uid blake2b = .ok e.eventUid := by
  cases h with
  | frame h =>
    obtain ⟨sn, d, -, hkind⟩ := normalizeBinance_eq_ok.mp h
    rcases hkind with ⟨-, c, hc, rfl⟩ | ⟨-, t, ht, rfl⟩ | ⟨-, m, hm, rfl⟩ | ⟨-, b, hb, rfl⟩
    · exact (wsKline_spec hc).1
    · obtain ⟨row, -, ht⟩ := wsAggTrade_eq_ok.mp ht
      exact (aggTrade_spec ht).1
    · simp only [wsMark, bind_eq_ok, mapError_eq_ok] at hm
      obtain ⟨f, -, hm⟩ := hm
      exact (markPrice_spec hm).1
    · exact (wsDepth_spec hb).1
  | restKline h => exact (normalizeRestKline_spec h).1
  | restTrade h =>
    obtain ⟨row, -, ht⟩ := normalizeRestAggTrade_eq_ok.mp h
    exact (aggTrade_spec ht).1
  | premiumIndex h =>
    simp only [normalizePremiumIndex, bind_eq_ok, mapError_eq_ok] at h
    obtain ⟨-, -, f, -, hm⟩ := h
    exact (markPrice_spec hm).1

/-- **Identities tell events apart** just as their natural keys do. -/
theorem Normalised.uid_eq_iff (hinj : Function.Injective blake2b) {e e' : MarketEvent}
    (h : Normalised blake2b e) (h' : Normalised blake2b e') :
    e.eventUid = e'.eventUid ↔ e.naturalKey = e'.naturalKey := by
  constructor
  · intro hu
    exact NaturalKey.uid_inj hinj h.uid (by rw [hu]; exact h'.uid)
  · intro hk
    have hsame := h.uid
    rw [hk, h'.uid] at hsame
    exact (Except.ok.inj hsame).symm

/-! ### The time of an event -/

/-- The time of a frame's event does not depend on when it came. -/
theorem normalizeBinance_time {stream : String} {data : Datum} {ts' : ℤ} {src src' : ℕ}
    {e e' : MarketEvent} (h : normalizeBinance inst blake2b stream data ts src = .ok e)
    (h' : normalizeBinance inst blake2b stream data ts' src' = .ok e') :
    e'.tsEventNs = e.tsEventNs := by
  obtain ⟨sn, d, hopen, hkind⟩ := normalizeBinance_eq_ok.mp h
  obtain ⟨sn', d', hopen', hkind'⟩ := normalizeBinance_eq_ok.mp h'
  obtain ⟨hname, -, -, hdata⟩ := openFrame_eq_ok.mp hopen
  obtain ⟨hname', -, -, hdata'⟩ := openFrame_eq_ok.mp hopen'
  obtain rfl : sn = sn' := Except.ok.inj (hname.symm.trans hname')
  obtain rfl : d = d' := Datum.obj.inj (hdata.symm.trans hdata')
  -- both come from one stream, and read the same fields
  rcases hkind with ⟨hk, c, hc, rfl⟩ | ⟨hk, t, ht, rfl⟩ | ⟨hk, m, hm, rfl⟩ | ⟨hk, b, hb, rfl⟩
  · simp only [hk, true_and, reduceCtorEq, false_and, or_false] at hkind'
    obtain ⟨c', hc', rfl⟩ := hkind'
    obtain ⟨-, w, hw, hevent⟩ := wsKline_spec hc
    obtain ⟨-, w', hw', hevent'⟩ := wsKline_spec hc'
    obtain rfl : w = w' := Except.ok.inj (hw.symm.trans hw')
    exact hevent'.trans hevent.symm
  · simp only [hk, true_and, reduceCtorEq, false_and, or_false, false_or] at hkind'
    obtain ⟨t', ht', rfl⟩ := hkind'
    obtain ⟨row, hrow, ht⟩ := wsAggTrade_eq_ok.mp ht
    obtain ⟨row', hrow', ht'⟩ := wsAggTrade_eq_ok.mp ht'
    obtain rfl : row = row' := Except.ok.inj (hrow.symm.trans hrow')
    exact (aggTrade_spec ht').2.trans (aggTrade_spec ht).2.symm
  · simp only [hk, true_and, reduceCtorEq, false_and, or_false, false_or] at hkind'
    obtain ⟨m', hm', rfl⟩ := hkind'
    simp only [wsMark, bind_eq_ok, mapError_eq_ok] at hm hm'
    obtain ⟨f, hf, hm⟩ := hm
    obtain ⟨f', hf', hm'⟩ := hm'
    obtain rfl : f = f' := Except.ok.inj (hf.symm.trans hf')
    exact (markPrice_spec hm').2.trans (markPrice_spec hm).2.symm
  · simp only [hk, true_and, reduceCtorEq, false_and, false_or] at hkind'
    obtain ⟨b', hb', rfl⟩ := hkind'
    obtain ⟨-, f, hf, hevent⟩ := wsDepth_spec hb
    obtain ⟨-, f', hf', hevent'⟩ := wsDepth_spec hb'
    obtain rfl : f = f' := Except.ok.inj (hf.symm.trans hf')
    exact hevent'.trans hevent.symm

/-- The time of a row's candle does not depend on when it came, not even while the bar runs. -/
theorem normalizeRestKline_time {row : Datum} {ts' : ℤ} {tf : Timeframe} {server : Option ℤ}
    {src src' : ℕ} {c c' : Candle}
    (h : normalizeRestKline inst blake2b row ts tf server src = .ok c)
    (h' : normalizeRestKline inst blake2b row ts' tf server src' = .ok c') :
    c'.tsEventNs = c.tsEventNs := by
  obtain ⟨-, -, k, hk, hevent⟩ := normalizeRestKline_spec h
  obtain ⟨-, -, k', hk', hevent'⟩ := normalizeRestKline_spec h'
  obtain rfl : k = k' := Except.ok.inj (hk.symm.trans hk')
  rw [hevent, hevent']

/-- The time of a row's trade does not depend on when it came. -/
theorem normalizeRestAggTrade_time {row : Datum} {ts' : ℤ} {t t' : Trade}
    (h : normalizeRestAggTrade inst blake2b row ts = .ok t)
    (h' : normalizeRestAggTrade inst blake2b row ts' = .ok t') : t'.tsEventNs = t.tsEventNs := by
  obtain ⟨f, hf, ht⟩ := normalizeRestAggTrade_eq_ok.mp h
  obtain ⟨f', hf', ht'⟩ := normalizeRestAggTrade_eq_ok.mp h'
  obtain rfl : f = f' := Except.ok.inj (hf.symm.trans hf')
  exact (aggTrade_spec ht').2.trans (aggTrade_spec ht).2.symm

end Identity

/-! ### The rows of the backfill -/

/-! ### The law -/

/-- **Frames and rows agree.**  A closed candle, and a trade, is accepted from both formats or
    from neither, with one identity and the same values; the identities of events tell their
    natural keys; and when an event happened does not depend on when it came. -/
theorem wire_agreement (blake2b : Blake2b) :
    (∀ (inst : SymbolRef) (tf : Timeframe) (stream : String) (d k : Members) (r : KlineRow)
      (server : Option ℤ) (src src' : ℕ) (tsWs tsRest : ℤ),
      KlinePair inst tf stream d k r → 0 ≤ tsWs → 0 ≤ tsRest →
      (∀ n, r.closeTime = .int n → n < server.getD (tsRest / nsPerMs)) →
      (normalizeBinance inst blake2b stream (.obj d) tsWs src).toOption.map content =
        (normalizeRestKline inst blake2b r.datum tsRest tf server src').toOption.map
          fun c => content (.candle c)) ∧
    (∀ (inst : SymbolRef) (stream : String) (d r : Members) (src : ℕ) (tsWs tsRest : ℤ),
      TradePair inst stream d r → 0 ≤ tsWs → 0 ≤ tsRest →
      (normalizeBinance inst blake2b stream (.obj d) tsWs src).toOption.map content =
        (normalizeRestAggTrade inst blake2b (.obj r) tsRest).toOption.map
          fun t => content (.trade t)) ∧
    (Function.Injective blake2b → ∀ e e', Normalised blake2b e → Normalised blake2b e' →
      (e.eventUid = e'.eventUid ↔ e.naturalKey = e'.naturalKey)) ∧
    (∀ (inst : SymbolRef) (ts ts' : ℤ),
      (∀ stream data src src' e e', normalizeBinance inst blake2b stream data ts src = .ok e →
        normalizeBinance inst blake2b stream data ts' src' = .ok e' → e'.tsEventNs = e.tsEventNs) ∧
      (∀ row tf server src src' c c',
        normalizeRestKline inst blake2b row ts tf server src = .ok c →
        normalizeRestKline inst blake2b row ts' tf server src' = .ok c' →
        c'.tsEventNs = c.tsEventNs ∧ (c.isClosed = true → c.tsEventNs = c.closeTimeNs)) ∧
      (∀ row t t', normalizeRestAggTrade inst blake2b row ts = .ok t →
        normalizeRestAggTrade inst blake2b row ts' = .ok t' → t'.tsEventNs = t.tsEventNs)) := by
  refine ⟨?_, ?_, fun hinj e e' => Normalised.uid_eq_iff hinj, fun inst ts ts' => ⟨?_, ?_, ?_⟩⟩
  · intro inst tf stream d k r server src src' tsWs tsRest p
    exact p.agree
  · intro inst stream d r src tsWs tsRest p
    exact p.agree
  · intro stream data src src' e e'
    exact normalizeBinance_time
  · intro row tf server src src' c c' h h'
    exact ⟨normalizeRestKline_time h h', (normalizeRestKline_spec h).2.1⟩
  · intro row t t'
    exact normalizeRestAggTrade_time

/-! ### A candle and a trade -/

/-- The bytes as characters, which keeps them apart. -/
def letters (bytes : List UInt8) : List Char := bytes.map fun b => Char.ofNat b.toNat

/-- Bytes can be read back from their letters. -/
theorem letters_injective : Function.Injective letters := by
  apply List.map_injective_iff.mpr
  intro a b h
  have hchar : Char.ofNat a.toNat = Char.ofNat b.toNat := h
  have hvalid : ∀ n < 256, (Char.ofNat n).toNat = n := by decide +kernel
  rw [← UInt8.toNat_inj, ← hvalid _ a.toNat_lt, hchar, hvalid _ b.toNat_lt]

/-- The keys of the candle and of the trade below. -/
def minuteKey : List UInt8 :=
  utf8 "[\"BINANCE_USDM\",\"klines\",\"BTC-USDT-PERP\",\"1m\",1700000040000000000]".toList

/-- The natural key of the trade of the samples. -/
def tradeKey : List UInt8 := utf8 "[\"BINANCE_USDM\",\"trades\",\"BTC-USDT-PERP\",7]".toList

/-- BLAKE2b-128 on the two keys; what else there is to be hashed is spelled out. -/
def blake2b128Sample : Blake2b := fun bytes =>
  if bytes = minuteKey then "1beda024ace7e4d55c6eb72bb158a70c"
  else if bytes = tradeKey then "00cb301004c8535c457290c0963e2639"
  else spell (letters bytes)

/-- The digests of the sample tell all keys apart. -/
theorem blake2b128Sample_injective : Function.Injective blake2b128Sample := by
  have hspell : Function.Injective fun bytes => spell (letters bytes) :=
    spell_injective.comp letters_injective
  refine injective_replaced (injective_replaced hspell fun _ => spell_ne (by decide) _) ?_
  intro bytes
  split_ifs
  · decide
  · exact spell_ne (by decide) _

/-- The instrument of the samples. -/
def btcUsdtPerp : SymbolRef := ⟨.binanceUsdm, "BTCUSDT", "BTC-USDT-PERP"⟩

/-- The part `k` of a frame of a closed minute. -/
def minuteKline : Members :=
  [("t", .int 1700000040000), ("T", .int 1700000099999), ("s", .str "BTCUSDT"), ("i", .str "1m"),
    ("f", .int 100), ("L", .int 200), ("o", .str "35000.10"), ("c", .str "35010.5"),
    ("h", .str "35020.00"), ("l", .str "34990.00"), ("v", .str "12.345"), ("n", .int 101),
    ("x", .bool true), ("q", .str "432000.5"), ("V", .str "6.1"), ("Q", .str "213000"),
    ("B", .str "0")]

/-- A frame with the candle of a minute. -/
def minuteFrame : Members :=
  [("e", .str "kline"), ("E", .int 1700000100035), ("s", .str "BTCUSDT"), ("k", .obj minuteKline)]

/-- The row of the same minute; its prices have other scales. -/
def minuteRow : KlineRow where
  openTime := .int 1700000040000
  o := .str "35000.1"
  h := .str "35020"
  l := .str "34990"
  c := .str "35010.50"
  v := .str "12.345"
  closeTime := .int 1700000099999
  q := .str "432000.5"
  n := .int 101
  takerBase := .str "6.1"
  takerQuote := .str "213000"
  ignored := .str "0"

/-- A frame with a trade. -/
def tradeFrame : Members :=
  [("e", .str "aggTrade"), ("E", .int 1700000050010), ("a", .int 7), ("s", .str "BTCUSDT"),
    ("p", .str "35001.5"), ("q", .str "0.010"), ("nq", .str "0.010"), ("f", .int 100),
    ("l", .int 101), ("T", .int 1700000050000), ("m", .bool false)]

/-- The same trade as a row. -/
def tradeRow : Members :=
  [("a", .int 7), ("p", .str "35001.50"), ("q", .str "0.010"), ("f", .int 100), ("l", .int 101),
    ("T", .int 1700000050000), ("m", .bool false)]

/-- The candle of the frame and that of the row. -/
theorem minutePair :
    KlinePair btcUsdtPerp .minute "btcusdt@kline_1m" minuteFrame minuteKline minuteRow where
  stream := by decide +kernel
  form :=
    { fields := by decide +kernel
      event := ⟨rfl, rfl⟩
      payload := rfl
      kFields := by decide +kernel
      symbol := rfl
      interval := rfl
      first := ⟨_, rfl⟩
      last := ⟨_, rfl⟩
      takers := ⟨⟨61 / 10, _, rfl, by decide +kernel⟩, ⟨213000, _, rfl, by decide +kernel⟩, 0, _,
        rfl, by decide +kernel⟩ }
  closed := rfl
  eventMs := ⟨1700000100035, by decide, rfl⟩
  checked := ⟨⟨61 / 10, _, rfl, by decide +kernel⟩, ⟨213000, _, rfl, by decide +kernel⟩, 0, _,
    rfl, by decide +kernel⟩
  openTime := .refl _
  closeTime := .refl _
  o := .text (by decide +kernel)
  h := .text (by decide +kernel)
  l := .text (by decide +kernel)
  c := .text (by decide +kernel)
  v := .refl _
  q := .refl _
  n := .refl _

/-- The trade of the frame and that of the row. -/
theorem tradePair :
    TradePair btcUsdtPerp "btcusdt@aggTrade" tradeFrame tradeRow where
  stream := by decide +kernel
  form := ⟨by decide +kernel, ⟨rfl, rfl⟩, ⟨_, rfl⟩, by decide +kernel, by decide +kernel⟩
  restForm := ⟨by decide +kernel, by decide +kernel⟩
  a := .refl _
  p := .text (by decide +kernel)
  q := .refl _
  f := .refl _
  l := .refl _
  T := .refl _
  m := .refl _

/-- Both formats of the minute and of the trade are accepted, as one event each, under the digests
    of their keys. -/
theorem wire_agreement_minute :
    (∃ c t, normalizeRestKline btcUsdtPerp blake2b128Sample minuteRow.datum 1700000101000000000
        .minute (some 1700000101000) 2 = .ok c ∧
      normalizeRestAggTrade btcUsdtPerp blake2b128Sample (.obj tradeRow) 1700000101000000000 =
        .ok t ∧
      (normalizeBinance btcUsdtPerp blake2b128Sample "btcusdt@kline_1m" (.obj minuteFrame)
        1700000100040000000 1).toOption.map content = some (content (.candle c)) ∧
      (normalizeBinance btcUsdtPerp blake2b128Sample "btcusdt@aggTrade" (.obj tradeFrame)
        1700000050020000000 1).toOption.map content = some (content (.trade t)) ∧
      c.eventUid = "1beda024ace7e4d55c6eb72bb158a70c" ∧
      t.eventUid = "00cb301004c8535c457290c0963e2639" ∧ c.eventUid ≠ t.eventUid ∧
      c.tsEventNs = c.closeTimeNs) := by
  obtain ⟨hkline, htrade, hident, htime⟩ := wire_agreement blake2b128Sample
  -- the digests of the two natural keys
  have hminute : (normalizeRestKline btcUsdtPerp blake2b128Sample minuteRow.datum
      1700000101000000000 .minute (some 1700000101000) 2).toOption.map Candle.eventUid =
      some "1beda024ace7e4d55c6eb72bb158a70c" := by
    decide +kernel
  have hdeal : (normalizeRestAggTrade btcUsdtPerp blake2b128Sample (.obj tradeRow)
      1700000101000000000).toOption.map Trade.eventUid =
      some "00cb301004c8535c457290c0963e2639" := by
    decide +kernel
  obtain ⟨c, hc, hcuid⟩ := Option.map_eq_some_iff.mp hminute
  obtain ⟨t, ht, htuid⟩ := Option.map_eq_some_iff.mp hdeal
  rw [toOption_eq_some] at hc ht
  refine ⟨c, t, hc, ht, ?_, ?_, hcuid, htuid, ?_, ?_⟩
  -- the agreement turns the frame into the row
  · rw [hkline btcUsdtPerp .minute _ _ _ _ (some 1700000101000) 1 2 1700000100040000000
      1700000101000000000 minutePair (by decide) (by decide) (fun n hn => by cases hn; decide), hc]
    rfl
  · rw [htrade btcUsdtPerp _ _ _ 1 1700000050020000000 1700000101000000000 tradePair (by decide)
      (by decide), ht]
    rfl
  · intro h
    have hkeys := (hident blake2b128Sample_injective _ _ (.restKline hc) (.restTrade ht)).mp h
    exact absurd (congrArg NaturalKey.key hkeys) (by simp [MarketEvent.naturalKey])
  · have hclosed : c.isClosed = true := by
      obtain ⟨-, k, uid, hk, -, hbuild⟩ := normalizeRestKline_eq_ok.mp hc
      obtain ⟨-, -, rfl⟩ := buildCandle_eq_ok.mp hbuild
      have hclose := (readRestKline_iff.mp hk).2.1.closeMs
      have hms : k.closeMs = 1700000099999 := (Datum.int.inj hclose).symm
      exact decide_eq_true (by rw [hms]; decide)
    exact ((htime btcUsdtPerp _ _).2.1 _ _ _ _ _ _ _ hc hc).2 hclosed

end Wire

end FuzzHelm
