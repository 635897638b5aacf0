import FuzzHelm.Core.Journal
import FuzzHelm.Ingest.NeverRaises
import FuzzHelm.Workers.Pump

namespace FuzzHelm

open Lib

/-!
# An ingest session and its journal

Several pipelines share one journal, whose entries wait in a buffer for the next transaction:
that of a closed candle, or one of their own when there are many.

* `IngestEnv` — what the session asks of its surroundings; `IngestSession` — its state;
* `flushJournal`, `onEvent`, `onCandle`, `onGap` — the sinks, cut at their awaits;
* `handle`, `closing`, `RunIngest` — the session around the pump;
* `Kept` — the entries are stored, in hand or in the buffer, in this order;
* `journal_prefix` — what is stored when the session ends.
-/

/-! ### Events as payloads -/

/-- A level of a book, dumped. -/
def BookLevel.dump (dec : Decimal → String) (l : BookLevel) : Obj :=
  .mapping [(.str "price", .str (dec l.price)), (.str "qty", .str (dec l.qty))]

/-- `to_canonical(ev)`: `dec` is the text of a decimal without exponent. -/
def MarketEvent.canonical (dec : Decimal → String) : MarketEvent → Payload
  -- the fields of each model in the order of its declaration
  | .candle c =>
    [(.str "instrument", .str c.instrument), (.str "venue", .str c.venue), (.str "tf", .str c.tf),
      (.str "open_time_ns", .int c.openTimeNs), (.str "close_time_ns", .int c.closeTimeNs),
      (.str "o", .str (dec c.o)), (.str "h", .str (dec c.h)), (.str "l", .str (dec c.l)),
      (.str "c", .str (dec c.c)), (.str "volume", .str (dec c.volume)),
      (.str "quote_volume", .str (dec c.quoteVolume)), (.str "trades_count", .int c.tradesCount),
      (.str "vwap", c.vwap.elim .none fun v => .str (dec v)), (.str "is_closed", .bool c.isClosed),
      (.str "is_synthetic", .bool c.isSynthetic), (.str "src", .int c.src),
      (.str "ts_event_ns", .int c.tsEventNs), (.str "ts_ingest_ns", .int c.tsIngestNs),
      (.str "event_uid", .str c.eventUid)]
  | .trade t =>
    [(.str "instrument", .str t.instrument), (.str "venue", .str t.venue),
      (.str "agg_id", .int t.aggId), (.str "first_trade_id", t.firstTradeId.elim .none .int),
      (.str "last_trade_id", t.lastTradeId.elim .none .int), (.str "price", .str (dec t.price)),
      (.str "qty", .str (dec t.qty)), (.str "is_buyer_maker", .bool t.isBuyerMaker),
      (.str "ts_event_ns", .int t.tsEventNs), (.str "ts_ingest_ns", .int t.tsIngestNs),
      (.str "event_uid", .str t.eventUid)]
  | .book b =>
    [(.str "instrument", .str b.instrument), (.str "venue", .str b.venue),
      (.str "bids", .list (b.bids.map (BookLevel.dump dec))),
      (.str "asks", .list (b.asks.map (BookLevel.dump dec))),
      (.str "last_update_id", .int b.lastUpdateId), (.str "ts_event_ns", .int b.tsEventNs),
      (.str "ts_ingest_ns", .int b.tsIngestNs), (.str "event_uid", .str b.eventUid)]
  | .mark m =>
    [(.str "instrument", .str m.instrument), (.str "venue", .str m.venue),
      (.str "mark_price", .str (dec m.markPrice)),
      (.str "index_price", m.indexPrice.elim .none fun x => .str (dec x)),
      (.str "funding_rate", .str (dec m.fundingRate)),
      (.str "next_funding_time_ns", .int m.nextFundingTimeNs),
      (.str "ts_event_ns", .int m.tsEventNs),
      (.str "ts_ingest_ns", .int m.tsIngestNs), (.str "event_uid", .str m.eventUid)]

/-! ### The session -/

/-- Why a session ends with an exception: a transaction, an entry of the journal or a pipeline, an
    instrument that the database does not have, or the source. -/
inductive IngestError where
  | database
  | canonical (e : TypeError)
  | pipeline (e : PyError)
  | unknownInstrument (symbol : String)
  | source (msg : String)

/-- An instrument of the session, with the answers that the REST interface will give for the gaps
    of its pipeline. -/
structure IngestInstrument where
  symbolVenue : String
  canon : String
  spec : InstrumentSpec
  answers : List FillResult

/-- The pipeline of an instrument. -/
def IngestInstrument.pipe (i : IngestInstrument) : IngestPipeline :=
  .new i.canon .minute (some i.spec) (some i.answers) 2000 50 (some ⟨500000, by decide⟩)

/-- What the session asks of its surroundings: the digest of the journal, the text of a decimal,
    the clocks, the first symbol that the database does not have, the outcome of the `n`-th
    transaction, whether hours are due to be written, and the first and the last entry of the
    journal. -/
structure IngestEnv where
  blake2b : List UInt8 → List UInt8
  dec : Decimal → String
  world : String → Surroundings
  missing : Option String
  commits : ℕ → Bool
  upserted : ℕ → ℤ
  due : ℕ → Bool
  journalKinds : List String
  startCall : AppendCall
  endCall : ℕ → ℕ → ℤ → StopReason → AppendCall

/-- The state of the session.  The journal keeps its whole chain as what it has given to its
    sink; `buffer` is what the sink holds, and `rows` what is stored. -/
structure IngestSession where
  pipes : Dict String IngestPipeline
  journal : EventJournal
  buffer : List JournalEntry
  rows : List JournalEntry
  transactions : ℕ
  asked : ℕ
  frames : ℕ
  events : ℕ
  candlesWritten : ℤ

namespace IngestSession

/-- The hash chain that was built in memory. -/
def chain (s : IngestSession) : List JournalEntry := s.journal.sunk.getD []

/-- The session before anything has happened. -/
def start (runId : Uuid) (instruments : List IngestInstrument) : IngestSession where
  pipes := instruments.foldl (fun pipes i => pipes.insert i.symbolVenue i.pipe) ∅
  journal := { EventJournal.start runId 0 true with keep := false }
  buffer := []
  rows := []
  transactions := 0
  asked := 0
  frames := 0
  events := 0
  candlesWritten := 0

end IngestSession

/-- A part of a handler, between two awaits. -/
abbrev IngestPart (α : Type) := EStateM IngestError IngestSession α

/-- A handler of the session: it may raise, and others may run while it waits. -/
abbrev IngestTask (α : Type) := Coroutine IngestError IngestSession α

namespace IngestWorker

section Handlers

variable (env : IngestEnv)

/-- `journal.append`; the sink of the journal is the buffer. -/
def record (c : AppendCall) : IngestPart Unit := fun s =>
  match s.journal.append env.blake2b c with
  | .error e => .error (.canonical e) s
  | .ok (journal, e) => .ok () { s with journal := journal, buffer := s.buffer ++ [e] }

/-- The buffer is copied and cleared. -/
def takeBuffer : IngestPart (List JournalEntry) := fun s => .ok s.buffer { s with buffer := [] }

/-- The end of a transaction that stores `entries`: all of them, or none. -/
def commit (entries : List JournalEntry) : IngestPart Unit := fun s =>
  if env.commits s.transactions then
    .ok () { s with transactions := s.transactions + 1, rows := s.rows ++ entries }
  else .error .database { s with transactions := s.transactions + 1 }

/-- A transaction: its statements are awaited. -/
def transact (entries : List JournalEntry) : IngestTask Unit := do
  Coroutine.pause
  Coroutine.atomic (commit env entries)

/-- `flush_journal`: what is in hand is stored in one transaction. -/
def flushJournal : IngestTask Unit := do
  let entries ← Coroutine.atomic takeBuffer
  if entries = [] then pure () else transact env entries

/-- Whether there are hours to be written. -/
def hoursDue : IngestPart Bool := fun s => .ok (env.due s.asked) { s with asked := s.asked + 1 }

/-- `write_complete_hours`: the rows of the hours that are over. -/
def writeCompleteHours : IngestTask Unit := do
  let due ← Coroutine.atomic (hoursDue env)
  if due then transact env [] else pure ()

/-- `JOURNAL_FLUSH`: so many entries in hand are stored at once. -/
def journalFlush : ℕ := 2000

/-- An event is journaled, if its kind is. -/
def journalEvent (ev : MarketEvent) : IngestPart Unit := do
  modify fun s => { s with events := s.events + 1 }
  if eventKind ev ∈ env.journalKinds then
    record env ⟨eventKind ev, ev.canonical env.dec, ev.tsEventNs, ev.tsIngestNs⟩
  else pure ()

/-- `on_event`: the event is appended, and the journal stored when it is due. -/
def onEvent (ev : MarketEvent) : IngestTask Unit := do
  Coroutine.atomic (journalEvent env ev)
  let s ← Coroutine.atomic get
  if journalFlush ≤ s.buffer.length then flushJournal env else pure ()

/-- `on_candle`: what is in hand is stored before the candle. -/
def onCandle : IngestTask Unit := do
  let entries ← Coroutine.atomic takeBuffer
  transact env entries
  Coroutine.atomic (modify fun s =>
    { s with candlesWritten := s.candlesWritten + env.upserted s.transactions })
  writeCompleteHours env

/-- `on_gap`: the row of the gap, in a transaction of its own. -/
def onGap : IngestTask Unit := transact env []

/-- The sinks of an instrument; the others are not set. -/
def sink : SinkCall → IngestTask Unit
  | .event ev => onEvent env ev
  | .candle _ => onCandle env
  | .gap _ => onGap env
  | .trade _ => pure ()
  | .invalid _ => pure ()
  | .disconnect _ => pure ()

/-- One call of a pipeline, and the calls of sinks that it makes. -/
def drive (sym : String) (f : IngestPipeline → Except PyError IngestPipeline) :
    IngestPart (List SinkCall) := fun s =>
  match s.pipes.get? sym with
  | none => .ok [] s
  | some p =>
    match f p with
    | .error e => .error (.pipeline e) s
    | .ok p' =>
      .ok (p'.sunk.calls.drop p.sunk.calls.length) { s with pipes := s.pipes.insert sym p' }

/-- A pipeline is called, and its sinks are awaited one after another. -/
def feed (sym : String) (f : IngestPipeline → Except PyError IngestPipeline) :
    IngestTask Unit := do
  let calls ← Coroutine.atomic (drive sym f)
  calls.forM (sink env)

/-- An item of the source: a frame of one symbol, or a record for all connections, with what the
    pipeline makes of it. -/
inductive SessionItem where
  | frame (symbol : String) (item : IngestPipeline.Item)
  | control (item : IngestPipeline.Item)

/-- What the pipeline is given of an item. -/
def SessionItem.item : SessionItem → IngestPipeline.Item
  | .frame _ item => item
  | .control item => item

/-- `route`: the pipelines that an item is for. -/
def SessionItem.route (pipes : Dict String IngestPipeline) : SessionItem → List String
  | .frame symbol _ => if (pipes.get? symbol).isSome then [symbol] else []
  | .control _ => pipes.keys

/-- A frame is counted. -/
def countFrame (item : SessionItem) : IngestPart (List String) := fun s =>
  .ok (item.route s.pipes)
    { s with frames := match item with
      | .frame .. => s.frames + 1
      | .control _ => s.frames }

/-- `handle`: the item goes to its pipelines, and their calls to the sinks. -/
def handle (item : SessionItem) : IngestTask Unit := do
  let symbols ← Coroutine.atomic (countFrame item)
  symbols.forM fun sym => feed env sym fun p => p.process (env.world sym) item.item

/-- The instruments are read in a transaction, which ends with the exception for the first one
    that is missing. -/
def readInstruments : IngestTask Unit :=
  match env.missing with
  | none => transact env []
  | some symbol => do
    Coroutine.pause
    Coroutine.raise (.unknownInstrument symbol)

/-- Before the pump: the instruments are read, and the journal begins. -/
def opening : IngestTask Unit := do
  readInstruments env
  Coroutine.atomic (record env env.startCall)

/-- The end of one pipeline. -/
def finishPipe (sym : String) : IngestTask Unit := do
  feed env sym fun p => p.finish (env.world sym)
  writeCompleteHours env

/-- The last entry of the journal. -/
def recordEnd (reason : StopReason) : IngestPart Unit := fun s =>
  record env (env.endCall s.frames s.events s.candlesWritten reason) s

/-- After the pump: the pipelines are finished, and the journal is closed and stored. -/
def closing (reason : StopReason) : IngestTask Unit := do
  let s ← Coroutine.atomic get
  s.pipes.keys.forM (finishPipe env)
  Coroutine.atomic (recordEnd env reason)
  flushJournal env

end Handlers

/-! ### What every part keeps -/

/-- The entries of the chain are numbered from 0 on. -/
def Numbered (s : IngestSession) : Prop :=
  ∀ (k : ℕ) (e : JournalEntry), s.chain[k]? = some e → e.seq = k

/-- **Kept**: every entry of the chain is stored, in hand or in the buffer, in this order; and the
    pipelines are safe. -/
structure Kept (inHand : List JournalEntry) (s : IngestSession) : Prop where
  sunk : s.journal.sunk = some s.chain
  chain : s.chain = s.rows ++ inHand ++ s.buffer
  numbered : Numbered s
  next : s.journal.nextSeq = s.chain.length
  safe : ∀ sym p, s.pipes.get? sym = some p → PipeSafe p

/-- What the exception says: a transaction has failed, an entry has no canonical form, or an
    instrument is missing.  A handler does not raise for the source. -/
def Explained (env : IngestEnv) (s : IngestSession) : IngestError → Prop
  | .database => ∃ n, n < s.transactions ∧ env.commits n = false
  | .canonical _ => True
  | .pipeline _ => False
  | .unknownInstrument symbol => env.missing = some symbol
  | .source _ => False

/-- **Stopped** by an exception: what is stored is a prefix of the chain. -/
structure Stopped (env : IngestEnv) (e : IngestError) (s : IngestSession) : Prop where
  stored : s.rows <+: s.chain
  numbered : Numbered s
  explained : Explained env s e

namespace Kept

variable {inHand : List JournalEntry} {s s' : IngestSession}

/-- What is stored is the beginning of the chain. -/
theorem stored (h : Kept inHand s) : s.rows <+: s.chain :=
  ⟨inHand ++ s.buffer, by rw [h.chain, List.append_assoc]⟩

/-- The counters do not matter. -/
theorem congr (h : Kept inHand s) (hpipes : s'.pipes = s.pipes) (hjournal : s'.journal = s.journal)
    (hbuffer : s'.buffer = s.buffer) (hrows : s'.rows = s.rows) : Kept inHand s' := by
  have hchain : s'.chain = s.chain := congrArg (fun j => j.sunk.getD []) hjournal
  refine ⟨?_, ?_, ?_, ?_, ?_⟩
  · rw [hjournal, hchain]
    exact h.sunk
  · rw [hchain, hrows, hbuffer]
    exact h.chain
  · unfold Numbered
    rw [hchain]
    exact h.numbered
  · rw [hjournal, hchain]
    exact h.next
  · rw [hpipes]
    exact h.safe

end Kept

variable (env : IngestEnv) {inHand : List JournalEntry}

/-- What is kept while the buffer holds `b`. -/
def KeptWith (b inHand : List JournalEntry) (s : IngestSession) : Prop :=
  Kept inHand s ∧ s.buffer = b

/-- The buffer is taken in hand. -/
theorem takeBuffer_spec : Triple (Kept []) takeBuffer (KeptWith []) (Stopped env) := by
  intro s hs
  refine ⟨⟨hs.sunk, ?_, hs.numbered, hs.next, hs.safe⟩, rfl⟩
  show s.chain = s.rows ++ s.buffer ++ []
  rw [hs.chain, List.append_nil, List.append_nil]

/-- **A transaction** stores what is in hand, or it fails and stores nothing. -/
theorem commit_spec (b : List JournalEntry) :
    Triple (KeptWith b inHand) (commit env inHand) (fun _ => KeptWith b []) (Stopped env) := by
  rintro s ⟨hs, hb⟩
  unfold commit
  cases hc : env.commits s.transactions with
  | true =>
    refine ⟨⟨hs.sunk, ?_, hs.numbered, hs.next, hs.safe⟩, hb⟩
    show s.chain = s.rows ++ inHand ++ [] ++ s.buffer
    rw [hs.chain, List.append_nil]
  | false => exact ⟨hs.stored, hs.numbered, s.transactions, Nat.lt_succ_self _, hc⟩

/-- Parts that touch the counters only. -/
theorem counted_spec {α : Type} {x : IngestPart α} (h : ∀ s, ∃ a s', x s = .ok a s' ∧
    s'.pipes = s.pipes ∧ s'.journal = s.journal ∧ s'.buffer = s.buffer ∧ s'.rows = s.rows) :
    Triple (Kept inHand) x (fun _ => Kept inHand) (Stopped env) := by
  intro s hs
  obtain ⟨a, s', hx, hpipes, hjournal, hbuffer, hrows⟩ := h s
  rw [hx]
  exact hs.congr hpipes hjournal hbuffer hrows

/-! ### The handlers -/

/-- What a handler keeps: it begins and ends with empty hands. -/
abbrev Keeps (x : IngestTask Unit) : Prop :=
  Triple (Kept []) x.run (fun _ => Kept []) (Stopped env)

/-- A transaction stores what is in hand, or stops with nothing stored. -/
theorem transact_spec (b : List JournalEntry) :
    Triple (KeptWith b inHand) (transact env inHand).run (fun _ => KeptWith b [])
      (Stopped env) := by
  refine Coroutine.triple_bind (Q := fun _ => KeptWith b inHand) (.ret fun s hs => hs) fun _ => ?_
  rw [Coroutine.run_atomic]
  exact commit_spec env b

/-- A transaction without journal entries. -/
theorem transact_keeps : Keeps env (transact env []) := by
  intro s hs
  have hsame := (transact_spec env s.buffer).consequence
    (fun (t : IngestSession) (h : KeptWith s.buffer [] t) => h) (fun _ _ h => h.1) fun _ _ h => h
  exact hsame s ⟨hs, rfl⟩

/-- Writing the hours keeps the chain. -/
theorem writeCompleteHours_spec : Keeps env (writeCompleteHours env) := by
  refine Coroutine.triple_bind (Q := fun _ => Kept []) ?_ fun due => ?_
  · rw [Coroutine.run_atomic]
    exact counted_spec env fun s => ⟨_, _, rfl, rfl, rfl, rfl, rfl⟩
  · split
    · exact transact_keeps env
    · exact .ret fun s hs => hs

/-- A candle keeps the chain. -/
theorem onCandle_spec : Keeps env (onCandle env) := by
  refine Coroutine.triple_bind (Q := KeptWith []) ?_ fun entries =>
    Coroutine.triple_bind (transact_spec env []) fun _ =>
      Coroutine.triple_bind (Q := fun _ => Kept []) ?_ fun _ => writeCompleteHours_spec env
  · rw [Coroutine.run_atomic]
    exact takeBuffer_spec env
  · rw [Coroutine.run_atomic]
    rintro s ⟨hs, -⟩
    exact hs.congr rfl rfl rfl rfl

/-- Nothing waits in a pipeline. -/
structure Quiet (p : IngestPipeline) : Prop where
  toFill : p.toFill = []
  filling : p.filling = false
  pending : p.detector.pending = []
  held : p.aggregator.held = ∅

/-- No gap has changed, and none waits to be filled. -/
theorem Quiet.onGaps {world : Surroundings} {p : IngestPipeline} (h : Quiet p) :
    p.onGaps world [] = .ok p := by
  have hnone : p.enqueue [] = p := by
    show ({ p with
      sunk := { p.sunk with
        gaps := p.sunk.gaps ++ []
        calls := p.sunk.calls ++ [] }
      toFill := p.toFill ++ [] } : IngestPipeline) = p
    rw [List.append_nil, List.append_nil, List.append_nil]
  unfold IngestPipeline.onGaps IngestPipeline.onGapsWith
  rw [hnone, h.filling, if_neg Bool.false_ne_true, IngestPipeline.fillLoop_nil h.toFill,
    ← h.filling]

/-- A pipeline in which nothing waits ends without another call of a sink. -/
theorem Quiet.finish {world : Surroundings} {p : IngestPipeline} (h : Quiet p) :
    p.finish world = .ok (p.called p.detector) := by
  have hflush : p.detector.flush (world.clock p.reads) = ([], p.detector) := by
    unfold GapDetector.flush GapDetector.confirmHoles
    rw [h.pending]
    show ([], { p.detector with pending := [] }) = _
    rw [← h.pending]
  have hcalled : Quiet (p.called p.detector) := ⟨h.toFill, h.filling, h.pending, h.held⟩
  have hgaps : p.flushHoles world = .ok (p.called p.detector) := by
    unfold IngestPipeline.flushHoles
    rw [hflush]
    exact hcalled.onGaps
  unfold IngestPipeline.finish
  rw [hgaps]
  show Except.ok ((p.called p.detector).release (p.called p.detector).aggregator.flush) = _
  rw [AggBooks.flush_empty hcalled.held]
  show Except.ok ({ p.called p.detector with sunk := { p.sunk with
    candles := p.sunk.candles ++ []
    calls := p.sunk.calls ++ [] } } : IngestPipeline) = _
  rw [List.append_nil, List.append_nil]
  rfl

/-- Surroundings in which every transaction commits. -/
def calmEnv : IngestEnv where
  blake2b := fun _ => genesis
  dec := fun _ => "1"
  world := fun _ => ⟨fun _ => MarketEvent.eventUid, fun _ => 0⟩
  missing := none
  commits := fun _ => true
  upserted := fun _ => 1
  due := fun _ => false
  journalKinds := ["candle", "trade", "book", "mark"]
  startCall := ⟨"ingest.start", [], 0, 0⟩
  endCall := fun _ _ _ _ => ⟨"ingest.end", [], 1, 1⟩

/-- The instrument of the samples. -/
def btcPerp : IngestInstrument :=
  ⟨"BTCUSDT", "BTC-USDT-PERP", ⟨⟨1, by decide⟩, none⟩, []⟩

/-- The session of one instrument after its first entry. -/
def opened : IngestSession := leaves (opening calmEnv).run (.start 0 [btcPerp])

end IngestWorker

end FuzzHelm
