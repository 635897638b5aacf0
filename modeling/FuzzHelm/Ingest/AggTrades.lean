import FuzzHelm.Ingest.Events
import FuzzHelm.Lib.Paging
import FuzzHelm.Lib.Run
import Mathlib.Tactic.Linarith

namespace FuzzHelm

open Lib

/-!
# Trades over REST

The backfill of a hole in the sequence of trades: pages of `aggTrades` by `fromId`.

* `normalizeRestAggTrade` — one row of an answer;
* `fetchLoop` / `fetchAggTrades` — the loop over pages; every page that goes on moves the cursor;
* `fetchLoop_congr` — whatever the server answers, so many requests are made at most;
* `fetchLoop_complete` — the step of the loop: what is still to come is what the store has from
  the cursor on;
* `trade_backfill` — the law.
-/

/-! ### Rows -/

/-- A row of `aggTrades` once its fields have been read. -/
structure RestAggTrade where
  a : ℤ
  p : Decimal
  q : Decimal
  f : ℤ
  l : ℤ
  T : ℤ
  m : Bool
  deriving DecidableEq

/-- What the ingest knows of an instrument; `tradeUid` is the digest of a trade's id. -/
structure InstrumentLike where
  symbolCanon : String
  venue : String
  tradeUid : ℤ → String

/-- The trade of a row. -/
def RestAggTrade.trade (row : RestAggTrade) (instrument : InstrumentLike) (tsIngestNs : ℤ) :
    Trade where
  instrument := instrument.symbolCanon
  venue := instrument.venue
  aggId := row.a
  firstTradeId := some row.f
  lastTradeId := some row.l
  price := row.p
  qty := row.q
  isBuyerMaker := row.m
  tsEventNs := row.T * nsPerMs
  tsIngestNs := tsIngestNs
  eventUid := instrument.tradeUid row.a

/-- `normalize_rest_agg_trade`: the first field out of its range is named. -/
def normalizeRestAggTrade (row : RestAggTrade) (instrument : InstrumentLike) (tsIngestNs : ℤ) :
    Except PyError Trade :=
  if row.p ≤ 0 then .error (.validationError "price")
  else if row.q ≤ 0 then .error (.validationError "qty")
  else if row.T < 0 then .error (.validationError "ts_event_ns")
  else if tsIngestNs < 0 then .error (.validationError "ts_ingest_ns")
  else .ok (row.trade instrument tsIngestNs)

/-! ### The loop -/

/-- The other side of the loop: the answer to the n-th request, which may be anything, and the
    clock when it has come. -/
structure AggTradeClient where
  aggTrades : ℕ → ℤ → ℤ → Except PyError (List RestAggTrade)
  nowNs : ℕ → ℤ

/-- The greatest page that the exchange answers. -/
def aggTradesMaxLimit : ℤ := 1000

section Fetch

variable (client : AggTradeClient) (instrument : InstrumentLike) (fromId toId limit : ℤ)

/-- One request and its rows. -/
def fetchPage (requests : ℕ) (cursor want : ℤ) : Except PyError (List Trade) := do
  let rows ← client.aggTrades requests cursor want
  rows.mapM fun row => normalizeRestAggTrade row instrument (client.nowNs requests)

/-- The loop over the pages. -/
def fetchLoop (cursor : ℤ) (requests : ℕ) (out : List Trade) : Except PyError (List Trade × ℕ) :=
  if cursor ≤ toId then
    let want := min limit (toId - cursor + 1)
    match fetchPage client instrument requests cursor want with
    | .error e => .error e
    | .ok page =>
      let out' := out ++ page.filter fun t => decide (fromId ≤ t.aggId ∧ t.aggId ≤ toId)
      match page.getLast? with
      | none => .ok (out', requests + 1)
      | some last =>
        -- an answer before the cursor, or one that is not full, is the last one
        if last.aggId < cursor ∨ (page.length : ℤ) < want then .ok (out', requests + 1)
        else fetchLoop (last.aggId + 1) (requests + 1) out'
  else .ok (out, requests)
termination_by (toId + 1 - cursor).toNat
decreasing_by omega

/-- `fetch_agg_trades`: the trades and the number of requests. -/
def fetchAggTrades : Except PyError (List Trade × ℕ) :=
  if ¬ (1 ≤ limit ∧ limit ≤ aggTradesMaxLimit) then
    .error (.valueError "limit must be in [1, 1000]")
  else fetchLoop client instrument fromId toId limit fromId 0 []

end Fetch

section Loop

variable {client client' : AggTradeClient} {instrument : InstrumentLike}
  {fromId toId limit cursor : ℤ} {requests : ℕ} {out : List Trade}

/-- A cursor behind the last identifier ends the loop. -/
theorem fetchLoop_beyond (h : toId < cursor) :
    fetchLoop client instrument fromId toId limit cursor requests out = .ok (out, requests) := by
  rw [fetchLoop, if_neg (not_le.mpr h)]

/-! ### Any server -/

/-- **Every server lets the loop end**: the cursor moves with every request but the last, so the
    answers to the first `toId + 1 - cursor` requests decide everything. -/
theorem fetchLoop_congr (n : ℕ) :
    ∀ cursor requests out, (toId + 1 - cursor).toNat ≤ n →
      (∀ i, requests ≤ i → i < requests + n →
        client'.aggTrades i = client.aggTrades i ∧ client'.nowNs i = client.nowNs i) →
      fetchLoop client' instrument fromId toId limit cursor requests out =
        fetchLoop client instrument fromId toId limit cursor requests out := by
  -- by induction on how far the cursor is from the end: no ids are left, or one more request
  induction n with
  | zero =>
    intro cursor requests out hn _
    rw [fetchLoop_beyond (by omega), fetchLoop_beyond (by omega)]
  | succ n ih =>
    intro cursor requests out hn hsame
    by_cases hcur : cursor ≤ toId
    · have hpage (want : ℤ) : fetchPage client' instrument requests cursor want =
          fetchPage client instrument requests cursor want := by
        obtain ⟨hrows, hnow⟩ := hsame requests le_rfl (by omega)
        rw [fetchPage, fetchPage, hrows, hnow]
      rw [fetchLoop, fetchLoop, if_pos hcur, if_pos hcur]
      simp only [hpage]
      -- an error, an empty page or the last page ends both loops alike
      split
      · rfl
      · split
        · rfl
        · split
          · rfl
          · apply ih
            · omega
            · intro i hi hi'
              exact hsame i (by omega) (by omega)
    · rw [fetchLoop_beyond (by omega), fetchLoop_beyond (by omega)]

/-- The number of requests that the loop reports. -/
theorem fetchLoop_requests (n : ℕ) :
    ∀ cursor requests out res, (toId + 1 - cursor).toNat ≤ n →
      fetchLoop client instrument fromId toId limit cursor requests out = .ok res →
      res.2 ≤ requests + n := by
  -- by induction on the ids still ahead: a page that goes on moves the cursor by at least one
  induction n with
  | zero =>
    intro cursor requests out res hn h
    rw [fetchLoop_beyond (by omega)] at h
    cases h
    exact le_rfl
  | succ n ih =>
    intro cursor requests out res hn h
    rw [fetchLoop] at h
    split at h
    · simp only at h
      split at h
      · cases h
      · split at h
        · cases h
          show requests + 1 ≤ _
          omega
        · split at h
          · cases h
            show requests + 1 ≤ _
            omega
          · have hle := ih _ _ _ _ (by omega) h
            omega
    -- the cursor is past the end, and no request is made
    · cases h
      show requests ≤ _
      omega

/-! ### A server that keeps the trades -/

/-- The server answers with the beginning of what it has stored from `fromId` on: rows with
    ascending ids (there may be holes) that the normaliser accepts. -/
structure ServesTrades (client : AggTradeClient) (stored : List RestAggTrade) : Prop where
  ascending : Ascending RestAggTrade.a stored
  valid : ∀ row ∈ stored, 0 < row.p ∧ 0 < row.q ∧ 0 ≤ row.T
  clock : ∀ n, 0 ≤ client.nowNs n
  answers : ∀ n fromId limit,
    client.aggTrades n fromId limit = .ok (page RestAggTrade.a fromId limit.toNat stored)

variable {stored : List RestAggTrade}

/-- The page of a cursor is the part of the store from there on. -/
theorem ServesTrades.fetchPage_eq (h : ServesTrades client stored) (requests : ℕ)
    (cursor want : ℤ) : fetchPage client instrument requests cursor want =
      .ok ((page RestAggTrade.a cursor want.toNat stored).map
        (·.trade instrument (client.nowNs requests))) := by
  rw [fetchPage, h.answers]
  have hall : ∀ rows : List RestAggTrade, (∀ row ∈ rows, row ∈ stored) →
      rows.mapM (fun row => normalizeRestAggTrade row instrument (client.nowNs requests)) =
        .ok (rows.map (·.trade instrument (client.nowNs requests))) := by
    intro rows
    induction rows with
    | nil => intro _; rfl
    | cons row rows ih =>
      intro hrows
      obtain ⟨hp, hq, hT⟩ := h.valid row (hrows row (List.mem_cons_self ..))
      have hrow : normalizeRestAggTrade row instrument (client.nowNs requests) =
          .ok (row.trade instrument (client.nowNs requests)) := by
        rw [normalizeRestAggTrade, if_neg (not_le.mpr hp), if_neg (not_le.mpr hq),
          if_neg (not_lt.mpr hT), if_neg (not_lt.mpr (h.clock requests))]
      rw [List.mapM_cons, hrow, ih fun r hr => hrows r (List.mem_cons_of_mem _ hr)]
      rfl
  exact hall _ fun row hrow => (mem_page hrow).1

/-- `t` is the trade of the row `row`, read at some moment of the clock. -/
def IsTradeOf (client : AggTradeClient) (instrument : InstrumentLike) (row : RestAggTrade)
    (t : Trade) : Prop := ∃ n, t = row.trade instrument (client.nowNs n)

/-- The trades of a page that lie in the range are those of its rows that do. -/
theorem forall₂_filter_page (toId : ℤ) (rows : List RestAggTrade) (requests : ℕ)
    (hfrom : ∀ row ∈ rows, fromId ≤ row.a) :
    List.Forall₂ (IsTradeOf client instrument) (rows.filter fun row => decide (row.a ≤ toId))
      ((rows.map (·.trade instrument (client.nowNs requests))).filter
        fun t => decide (fromId ≤ t.aggId ∧ t.aggId ≤ toId)) := by
  induction rows with
  | nil => exact .nil
  | cons row rows ih =>
    have hrow := hfrom row (List.mem_cons_self ..)
    have hrest := ih fun r hr => hfrom r (List.mem_cons_of_mem _ hr)
    by_cases hto : row.a ≤ toId
    · rw [List.filter_cons_of_pos (by simpa using hto), List.map_cons,
        List.filter_cons_of_pos (by simp [RestAggTrade.trade, hrow, hto])]
      exact .cons ⟨requests, rfl⟩ hrest
    · rw [List.filter_cons_of_neg (by simpa using hto), List.map_cons,
        List.filter_cons_of_neg (by simp [RestAggTrade.trade, hto])]
      exact hrest

/-- **The step of the loop.** What the loop adds from a cursor on is what the store has there, up
    to the end of the range. -/
theorem fetchLoop_complete (h : ServesTrades client stored) (instrument : InstrumentLike)
    (toId : ℤ) (hlimit : 1 ≤ limit) (n : ℕ) :
    ∀ cursor requests out, (toId + 1 - cursor).toNat ≤ n → fromId ≤ cursor →
      ∃ more m, fetchLoop client instrument fromId toId limit cursor requests out =
          .ok (out ++ more, m) ∧
        List.Forall₂ (IsTradeOf client instrument)
          ((since RestAggTrade.a cursor stored).filter fun row => decide (row.a ≤ toId)) more := by
  have hbeyond {cursor : ℤ} (hcur : toId < cursor) :
      (since RestAggTrade.a cursor stored).filter (fun row => decide (row.a ≤ toId)) = [] := by
    rw [List.filter_eq_nil_iff]
    intro row hrow
    have hle := (mem_since.mp hrow).2
    simp only [decide_eq_true_eq]
    omega
  induction n with
  | zero =>
    intro cursor requests out hn _
    refine ⟨[], requests, ?_, ?_⟩
    · rw [fetchLoop_beyond (by omega), List.append_nil]
    · rw [hbeyond (by omega)]
      exact .nil
  | succ n ih =>
    intro cursor requests out hn hfrom
    by_cases hcur : cursor ≤ toId
    · rw [fetchLoop, if_pos hcur]
      simp only [h.fetchPage_eq]
      generalize hwant : min limit (toId - cursor + 1) = want
      have hpos : 1 ≤ want := by omega
      have hrows : ∀ row ∈ page RestAggTrade.a cursor want.toNat stored, fromId ≤ row.a := by
        intro row hrow
        exact hfrom.trans (mem_page hrow).2
      have hfilter : List.Forall₂ (IsTradeOf client instrument) _ _ :=
        forall₂_filter_page toId _ requests hrows
      generalize List.filter _ (List.map _ _) = picked at hfilter ⊢
      rw [List.getLast?_map]
      cases hlast : (page RestAggTrade.a cursor want.toNat stored).getLast? with
      | none =>
        -- nothing from the cursor on
        have hnil := List.getLast?_eq_none_iff.mp hlast
        have hall : page RestAggTrade.a cursor want.toNat stored =
              since RestAggTrade.a cursor stored := by
          apply page_of_short
          rw [hnil, List.length_nil]
          omega
        refine ⟨_, _, rfl, ?_⟩
        rw [← hall]
        exact hfilter
      | some last =>
        have hmem := mem_page (List.mem_of_getLast? hlast)
        simp only [Option.map_some, List.length_map]
        split
        · -- the page is not full
          rename_i hstop
          have hall : page RestAggTrade.a cursor want.toNat stored =
              since RestAggTrade.a cursor stored := by
            apply page_of_short
            have hle : cursor ≤ last.a := hmem.2
            change last.a < cursor ∨ _ at hstop
            omega
          refine ⟨_, _, rfl, ?_⟩
          rw [← hall]
          exact hfilter
        · -- the page, and then what comes after its last trade
          have hle : cursor ≤ last.a := hmem.2
          obtain ⟨more, m, hrun, hmore⟩ :=
            ih (last.a + 1) (requests + 1) (out ++ picked) (by omega) (by omega)
          refine ⟨picked ++ more, m, ?_, ?_⟩
          · rw [← List.append_assoc]
            exact hrun
          · rw [since_eq_page_append h.ascending hlast, List.filter_append,
              after_eq_since]
            exact List.rel_append hfilter hmore
    · refine ⟨[], requests, ?_, ?_⟩
      · rw [fetchLoop_beyond (by omega), List.append_nil]
      · rw [hbeyond (by omega)]
        exact .nil

/-! ### The law -/

/-- The identifiers of the trades are those of the rows. -/
theorem ids_of_trades {rows : List RestAggTrade} {out : List Trade}
    (h : List.Forall₂ (IsTradeOf client instrument) rows out) :
    out.map Trade.aggId = rows.map RestAggTrade.a := by
  induction h with
  | nil => rfl
  | cons hrow _ ih =>
    obtain ⟨n, rfl⟩ := hrow
    rw [List.map_cons, List.map_cons, ih]
    rfl

end Loop

/-- **The backfill of trades is complete.** Whatever the server answers, the loop ends: it looks
    at no more than `toId + 1 - fromId` answers, and reports no more requests.  With any page
    limit from 1 to 1000, a server that answers with the beginning of its store gets every
    stored trade of the range back, once and in order; another limit is refused. -/
theorem trade_backfill (client : AggTradeClient) (instrument : InstrumentLike)
    (fromId toId limit : ℤ) :
    (∀ client', (∀ i < (toId + 1 - fromId).toNat,
        client'.aggTrades i = client.aggTrades i ∧ client'.nowNs i = client.nowNs i) →
      fetchAggTrades client' instrument fromId toId limit =
        fetchAggTrades client instrument fromId toId limit) ∧
    (∀ out n, fetchAggTrades client instrument fromId toId limit = .ok (out, n) →
      n ≤ (toId + 1 - fromId).toNat) ∧
    (1 ≤ limit → limit ≤ aggTradesMaxLimit → ∀ stored, ServesTrades client stored →
      ∃ out n, fetchAggTrades client instrument fromId toId limit = .ok (out, n) ∧
        List.Forall₂ (IsTradeOf client instrument)
          (stored.filter fun row => decide (fromId ≤ row.a ∧ row.a ≤ toId)) out ∧
        Ascending Trade.aggId out) ∧
    (¬ (1 ≤ limit ∧ limit ≤ aggTradesMaxLimit) →
      fetchAggTrades client instrument fromId toId limit =
        .error (.valueError "limit must be in [1, 1000]")) := by
  refine ⟨?_, ?_, ?_, fun h => if_pos h⟩
  · intro client' hsame
    unfold fetchAggTrades
    split
    · rfl
    · apply fetchLoop_congr _ fromId 0 [] le_rfl
      intro i _ hi
      exact hsame i (by omega)
  · intro out n h
    unfold fetchAggTrades at h
    split at h
    · cases h
    · have hle := fetchLoop_requests _ fromId 0 [] _ le_rfl h
      rwa [Nat.zero_add] at hle
  · intro h1 hmax stored hserves
    obtain ⟨out, n, hrun, hall⟩ :=
      fetchLoop_complete hserves instrument toId h1 _ fromId 0 [] le_rfl le_rfl
    have hrange : (since RestAggTrade.a fromId stored).filter (fun row => decide (row.a ≤ toId)) =
        stored.filter fun row => decide (fromId ≤ row.a ∧ row.a ≤ toId) := by
      rw [since, List.filter_filter]
      simp only [Bool.decide_and, Bool.and_comm]
    rw [hrange] at hall
    refine ⟨out, n, ?_, hall, ?_⟩
    · rw [fetchAggTrades, if_neg (not_not.mpr ⟨h1, hmax⟩)]
      exact hrun
    · have hids := hserves.ascending.filter fun row => decide (fromId ≤ row.a ∧ row.a ≤ toId)
      rw [Ascending, ← List.pairwise_map, ids_of_trades hall]
      exact List.pairwise_map.mpr hids

/-- A store with holes, and a client that serves it. -/
def sampleTradeStore : List RestAggTrade :=
  [5, 7, 8, 12].map fun a => ⟨a, 100, 1, a, a, 0, false⟩

/-- The client of the samples. -/
def sampleTradeClient : AggTradeClient where
  aggTrades := fun _ fromId limit => .ok (page RestAggTrade.a fromId limit.toNat sampleTradeStore)
  nowNs := fun _ => 0

/-- The client of the samples answers what it has stored. -/
theorem serves_sample : ServesTrades sampleTradeClient sampleTradeStore where
  ascending := by
    show List.Pairwise _ _
    decide
  valid := by decide +kernel
  clock := fun _ => le_rfl
  answers := fun _ _ _ => rfl

/-- Pages of two trades: the hole before 12 does not stop the loop. -/
theorem trade_backfill_sample :
    ∃ out n, fetchAggTrades sampleTradeClient ⟨"BTC/USDT", "BINANCE_USDM", toString⟩ 6 12 2 =
      .ok (out, n) ∧ out.map Trade.aggId = [7, 8, 12] := by
  obtain ⟨out, n, hrun, hall, -⟩ :=
    (trade_backfill sampleTradeClient ⟨"BTC/USDT", "BINANCE_USDM", toString⟩ 6 12 2).2.2.1
      (by decide) (by decide) _ serves_sample
  refine ⟨out, n, hrun, ?_⟩
  rw [ids_of_trades hall]
  decide

/-- A page limit above the maximum is refused, though the server has what is asked for. -/
theorem trade_limit_refused :
    ServesTrades sampleTradeClient sampleTradeStore ∧
      ¬ ∃ out n, fetchAggTrades sampleTradeClient ⟨"BTC/USDT", "BINANCE_USDM", toString⟩ 6 12
        1001 = .ok (out, n) := by
  refine ⟨serves_sample, ?_⟩
  rintro ⟨out, n, h⟩
  rw [fetchAggTrades, if_pos (by decide)] at h
  cases h

end FuzzHelm
