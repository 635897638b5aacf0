import FuzzHelm.Core.Digest
import FuzzHelm.Ingest.Events

namespace FuzzHelm

open Lib

/-!
# The identity of an event

An event is named by the digest of its natural key: the venue, the stream, the instrument and
what counts the events of that stream.

* `eventUid` — the digest of a key, `klineUid`, `tradeUid`, `depthUid`, `markUid` — those of the
  four streams;
* `NaturalKey`, `MarketEvent.naturalKey` — the key of an event;
* `NaturalKey.uid_inj` — keys with one digest are equal when the hash tells their bytes apart.
-/

/-! ### Names -/

/-- `Venue`: the exchanges by name. -/
inductive VenueName where
  | binanceUsdm
  | binanceTestnet
  | kraken
  | paper
  deriving DecidableEq, Repr

/-- The text of a venue. -/
def VenueName.value : VenueName → String
  | .binanceUsdm => "BINANCE_USDM"
  | .binanceTestnet => "BINANCE_TESTNET"
  | .kraken => "KRAKEN"
  | .paper => "PAPER"

/-- The text of a stream. -/
def Stream.value : Stream → String
  | .klines => "klines"
  | .trades => "trades"
  | .depth => "depth"
  | .mark => "mark"

/-- The texts of the streams are all different. -/
theorem Stream.value_injective : Function.Injective Stream.value := by
  intro a b
  cases a <;> cases b <;> decide

/-! ### Digests -/

/-- `hexdigest` of the 128-bit digest of some bytes. -/
abbrev Blake2b := List UInt8 → String

section Uid

variable (blake2b : Blake2b)

/-- `event_uid`: the digest of the canonical bytes of a key. -/
def eventUid (naturalKey : List Obj) : Except TypeError String := do
  let bytes ← canonicalJson (.list naturalKey)
  return blake2b bytes

/-- `kline_uid`: venue, instrument, timeframe and minute. -/
def klineUid (venue symbolCanon tf : String) (openTimeNs : ℤ) : Except TypeError String :=
  eventUid blake2b
    [.str venue, .str Stream.klines.value, .str symbolCanon, .str tf, .int openTimeNs]

/-- `trade_uid`: venue, instrument and the number of the trade. -/
def tradeUid (venue symbolCanon : String) (aggId : ℤ) : Except TypeError String :=
  eventUid blake2b [.str venue, .str Stream.trades.value, .str symbolCanon, .int aggId]

/-- `depth_uid`: venue, instrument and the number of the update. -/
def depthUid (venue symbolCanon : String) (lastUpdateId : ℤ) : Except TypeError String :=
  eventUid blake2b [.str venue, .str Stream.depth.value, .str symbolCanon, .int lastUpdateId]

/-- `mark_uid`: venue, instrument and the time. -/
def markUid (venue symbolCanon : String) (tsEventNs : ℤ) : Except TypeError String :=
  eventUid blake2b [.str venue, .str Stream.mark.value, .str symbolCanon, .int tsEventNs]

end Uid

/-! ### Natural keys -/

/-- What counts the events of a stream. -/
inductive StreamKey where
  | klines (tf : String) (openTimeNs : ℤ)
  | trades (aggId : ℤ)
  | depth (lastUpdateId : ℤ)
  | mark (tsEventNs : ℤ)
  deriving DecidableEq, Repr

/-- The natural key of an event: its venue, its instrument, and its stream with the key there. -/
structure NaturalKey where
  venue : String
  symbolCanon : String
  key : StreamKey
  deriving DecidableEq, Repr

namespace StreamKey

/-- The stream of a natural key. -/
def stream : StreamKey → Stream
  | klines _ _ => .klines
  | trades _ => .trades
  | depth _ => .depth
  | mark _ => .mark

/-- The part of a key that comes after the instrument. -/
def parts : StreamKey → List Obj
  | klines tf openTimeNs => [.str tf, .int openTimeNs]
  | trades n | depth n | mark n => [.int n]

/-- The same, as it is serialised. -/
def texts : StreamKey → List Json
  | klines tf openTimeNs => [.str tf, .int openTimeNs]
  | trades n | depth n | mark n => [.int n]

end StreamKey

namespace NaturalKey

variable (blake2b : Blake2b)

/-- The digest of a natural key. -/
def uid (k : NaturalKey) : Except TypeError String :=
  eventUid blake2b
    ([.str k.venue, .str k.key.stream.value, .str k.symbolCanon] ++ k.key.parts)

/-- The identities of the four streams are digests of natural keys. -/
theorem klineUid_eq (venue canon tf : String) (n : ℤ) :
    klineUid blake2b venue canon tf n = uid blake2b ⟨venue, canon, .klines tf n⟩ := rfl

/-- The identifier of a trade is that of its natural key. -/
theorem tradeUid_eq (venue canon : String) (n : ℤ) :
    tradeUid blake2b venue canon n = uid blake2b ⟨venue, canon, .trades n⟩ := rfl

/-- The identifier of a depth is that of its natural key. -/
theorem depthUid_eq (venue canon : String) (n : ℤ) :
    depthUid blake2b venue canon n = uid blake2b ⟨venue, canon, .depth n⟩ := rfl

/-- The identifier of a mark price is that of its natural key. -/
theorem markUid_eq (venue canon : String) (n : ℤ) :
    markUid blake2b venue canon n = uid blake2b ⟨venue, canon, .mark n⟩ := rfl

/-- The tree of a natural key. -/
def tree (k : NaturalKey) : Json :=
  .arr ([.str k.venue, .str k.key.stream.value, .str k.symbolCanon] ++ k.key.texts)

/-- The natural key is canonical as it stands. -/
theorem canonicalTree_eq (k : NaturalKey) :
    canonicalTree (.list ([.str k.venue, .str k.key.stream.value, .str k.symbolCanon] ++
      k.key.parts)) = .ok k.tree := by
  obtain ⟨venue, canon, key⟩ := k
  cases key with
  | klines tf n => rfl
  | trades n => rfl
  | depth n => rfl
  | mark n => rfl

/-- The tree tells the key: the stream says how many parts follow the instrument. -/
theorem tree_injective : Function.Injective tree := by
  rintro ⟨venue, canon, key⟩ ⟨venue', canon', key'⟩ h
  simp only [tree, Json.arr.injEq, List.cons_append, List.nil_append, List.cons.injEq,
    Json.str.injEq] at h
  obtain ⟨rfl, hstream, rfl, htexts⟩ := h
  have hsame := Stream.value_injective hstream
  -- keys of two streams differ in the second text
  cases key <;> cases key' <;> simp_all [StreamKey.stream, StreamKey.texts]

/-- The digest of a key is the hash of the bytes of its tree. -/
theorem uid_eq_ok {k : NaturalKey} {u : String} :
    uid blake2b k = .ok u ↔ ∃ bytes, serialize k.tree = .ok bytes ∧ blake2b bytes = u := by
  rw [uid, eventUid, canonicalJson_eq, canonicalTree_eq, bind_eq_ok]
  simp only [pure, Except.pure, Except.ok.injEq]
  rfl

variable {blake2b}

/-- **Identity.** Keys with one digest are equal, when the hash tells their bytes apart. -/
theorem uid_inj (hinj : Function.Injective blake2b) {k k' : NaturalKey} {u : String}
    (h : uid blake2b k = .ok u) (h' : uid blake2b k' = .ok u) : k = k' := by
  obtain ⟨bytes, hbytes, hu⟩ := (uid_eq_ok blake2b).mp h
  obtain ⟨bytes', hbytes', hu'⟩ := (uid_eq_ok blake2b).mp h'
  rw [← hinj (hu.trans hu'.symm)] at hbytes'
  exact tree_injective (serialize_inj hbytes hbytes')

end NaturalKey

/-- The natural key of an event, read off its fields. -/
def MarketEvent.naturalKey : MarketEvent → NaturalKey
  | candle c => ⟨c.venue, c.instrument, .klines c.tf c.openTimeNs⟩
  | trade t => ⟨t.venue, t.instrument, .trades t.aggId⟩
  | book b => ⟨b.venue, b.instrument, .depth b.lastUpdateId⟩
  | mark m => ⟨m.venue, m.instrument, .mark m.tsEventNs⟩

end FuzzHelm
