import FuzzHelm.Ingest.Backfill

namespace FuzzHelm

open Lib

/-!
# The backfill of candles is complete

* `klineLoop_congr` — whatever the server answers, the first answer bounds how many of them can
  matter;
* `takePage_bars` — a page of bars adds those that are wanted, in order;
* `fetchKlinePage_serves` — against a server that keeps its rows, every seam is right;
* `klineLoop_serves` — the loop adds what the store has from the cursor on;
* `kline_backfill` — the law.
-/

section Loop

variable {client client' : KlineClient} {instrument : KlineInstrument}
  {onPage : Option (List Candle → Except PyError Unit)} {r : KlineRange} {limit : ℤ}

/-! ### Any server -/

/-- Two clients that answer the request `n` alike, at the same time. -/
def SameAnswer (client client' : KlineClient) (n : ℕ) : Prop :=
  client'.klines n = client.klines n ∧ client'.nowNs n = client.nowNs n

/-- Clients that answer alike fetch alike. -/
theorem SameAnswer.fetch {n : ℕ} (h : SameAnswer client client' n)
    (prevLast : Option (ℤ × RestRow)) (cursor : ℤ) (st : KlinePages) :
    fetchKlinePage client' instrument onPage r limit prevLast cursor n st =
      fetchKlinePage client instrument onPage r limit prevLast cursor n st := by
  obtain ⟨hrows, hnow⟩ := h
  rw [fetchKlinePage, fetchKlinePage, hrows, hnow]

/-- From a page on that has been followed by another, every further one brings the last bar
    forward, and none goes beyond the last one that is expected. -/
theorem klineLoop_congr (n : ℕ) :
    ∀ prev cursor requests st, prev.1 < r.lastExpected → (r.lastExpected - prev.1).toNat ≤ n →
      (∀ i, requests ≤ i → i < requests + n → SameAnswer client client' i) →
      klineLoop client' instrument onPage r limit (some prev) cursor requests st =
        klineLoop client instrument onPage r limit (some prev) cursor requests st := by
  -- by induction on the distance to the last bar; each page that goes on shortens it
  induction n with
  | zero =>
    intro prev cursor requests st hlt hn _
    omega
  | succ n ih =>
    intro prev cursor requests st hlt hn hsame
    rw [klineLoop_eq, klineLoop_eq, (hsame requests le_rfl (by omega)).fetch]
    split
    · rfl
    · split
      · rfl
      · split
        · rfl
        -- a page that goes on: its last row is nearer to the end
        · rename_i hgo
          simp only [lastPage, not_or, not_le, not_exists, not_and] at hgo
          obtain ⟨-, hbound, hforward⟩ := hgo
          have hprev := hforward prev rfl
          apply ih
          · exact hbound
          · omega
          · intro i hi hi'
            exact hsame i (by omega) (by omega)

/-- The number of requests that the loop reports from there on. -/
theorem klineLoop_requests (n : ℕ) :
    ∀ prev cursor requests st res, prev.1 < r.lastExpected →
      (r.lastExpected - prev.1).toNat ≤ n →
      klineLoop client instrument onPage r limit (some prev) cursor requests st = .ok res →
      res.2 ≤ requests + n := by
  -- by the same induction: a request for each step towards the last bar
  induction n with
  | zero =>
    intro prev cursor requests st res hlt hn _
    omega
  | succ n ih =>
    intro prev cursor requests st res hlt hn h
    rw [klineLoop_eq] at h
    split at h
    · cases h
    · split at h
      · cases h
        show requests + 1 ≤ _
        omega
      · split at h
        · cases h
          show requests + 1 ≤ _
          omega
        · rename_i hgo
          simp only [lastPage, not_or, not_le, not_exists, not_and] at hgo
          obtain ⟨-, hbound, hforward⟩ := hgo
          have hprev := hforward prev rfl
          have hle := ih _ _ _ _ _ hbound (by omega) h
          omega

variable (instrument onPage) in
/-- **Every server lets the loop end**: no answer but the first `reach` ones matters. -/
theorem klineLoop_any (st : KlinePages)
    (hsame : ∀ i < client.reach r limit r.startMs 0, SameAnswer client client' i) :
    klineLoop client' instrument onPage r limit none r.startMs 0 st =
      klineLoop client instrument onPage r limit none r.startMs 0 st := by
  -- the first request is always within the reach
  have hpos : 0 < client.reach r limit r.startMs 0 := by
    unfold KlineClient.reach
    split
    · omega
    · omega
  rw [klineLoop_eq, klineLoop_eq, (hsame 0 hpos).fetch]
  split
  · rfl
  · rename_i page st' hfetch
    split
    · rfl
    · rename_i last hlast
      split
      · rfl
      -- what remains is bounded by the last row of the first page
      · rename_i hgo
        simp only [lastPage, not_or, not_le] at hgo
        have hreach := reach_of_last hfetch hlast
        apply klineLoop_congr _ last last.1 _ _ hgo.2.1 le_rfl
        intro i _ hi
        exact hsame i (by omega)

/-- **The number of requests** that a backfill reports. -/
theorem klineLoop_any_requests {st : KlinePages} {res : KlinePages × ℕ}
    (h : klineLoop client instrument onPage r limit none r.startMs 0 st = .ok res) :
    res.2 ≤ client.reach r limit r.startMs 0 := by
  rw [klineLoop_eq] at h
  split at h
  · cases h
  -- after the first page the bound of the loop takes over
  · rename_i page st' hfetch
    split at h
    · cases h
      show 0 + 1 ≤ _
      unfold KlineClient.reach
      split
      · omega
      · omega
    · rename_i last hlast
      have hreach := reach_of_last hfetch hlast
      split at h
      · cases h
        show 0 + 1 ≤ _
        omega
      · rename_i hgo
        simp only [lastPage, not_or, not_le] at hgo
        have hle := klineLoop_requests _ last last.1 _ _ _ hgo.2.1 le_rfl h
        omega

/-! ### A server that keeps the candles -/

/-- The server answers with the beginning of what it has stored from `start` to `stop`: bars of
    the timeframe, with ascending opening times (there may be holes). -/
structure ServesKlines (client : KlineClient) (tf : Timeframe) (stored : List RestRow) : Prop where
  ascending : Ascending RestRow.openMs stored
  bars : ∀ row ∈ stored, ∃ k, IsBar tf row k
  clock : ∀ n, 0 ≤ client.nowNs n
  answers : ∀ n start stop limit, client.klines n start stop limit =
    .ok (page RestRow.openMs start limit.toNat (stored.filter fun row => row.openMs ≤ stop))

/-- The row belongs to a bar that is wanted: from the first one that is expected on, and over. -/
def KlineRange.Wanted (r : KlineRange) (row : RestRow) : Prop :=
  r.firstExpected ≤ row.openMs ∧ row.openMs + r.tf.ms ≤ r.nowMs

/-- Whether a row is wanted can be computed. -/
instance (row : RestRow) : Decidable (r.Wanted row) := by
  unfold KlineRange.Wanted
  infer_instance

/-- `c` is the candle of the row `row`, read at some moment of the clock. -/
def IsCandleOf (client : KlineClient) (instrument : KlineInstrument) (r : KlineRange)
    (row : RestRow) (c : Candle) : Prop :=
  ∃ k n, IsBar r.tf row k ∧ c = k.candle instrument (client.nowNs n) r.tf (some r.nowMs)

/-- The candle of a row opens at the time of the row. -/
theorem IsCandleOf.openTimeNs {row : RestRow} {c : Candle}
    (h : IsCandleOf client instrument r row c) : c.openTimeNs = row.openMs * nsPerMs := by
  obtain ⟨k, n, hbar, rfl⟩ := h
  rw [hbar.openMs_eq]
  rfl

/-- The candles of some rows open at their times. -/
theorem openTimes_of_candles {rows : List RestRow} {candles : List Candle}
    (h : List.Forall₂ (IsCandleOf client instrument r) rows candles) :
    candles.map Candle.openTimeNs = rows.map fun row => row.openMs * nsPerMs := by
  induction h with
  | nil => rfl
  | cons hrow _ ih => rw [List.map_cons, List.map_cons, hrow.openTimeNs, ih]

/-- The order of milliseconds is that of nanoseconds. -/
theorem ns_lt {a b : ℤ} (h : a < b) : a * nsPerMs < b * nsPerMs :=
  mul_lt_mul_of_pos_right h (by decide)

/-- The first candle is fresh when it is closed and not before the range. -/
theorem KlineRange.fresh_cons (c : Candle) (cs : List Candle) : r.fresh (c :: cs) =
    if c.isClosed = true ∧ r.firstExpected * nsPerMs ≤ c.openTimeNs then c :: r.fresh cs
    else r.fresh cs := by
  simp [KlineRange.fresh, List.filter_cons]

variable (client instrument) in
/-- The rows of an answer that are wanted are the fresh candles of it. -/
theorem fresh_of_bars {rows : List RestRow} {ks : List RestKline}
    (h : List.Forall₂ (IsBar r.tf) rows ks) (n : ℕ) :
    List.Forall₂ (IsCandleOf client instrument r) (rows.filter fun row => decide (r.Wanted row))
      (r.fresh (ks.map fun k => k.candle instrument (client.nowNs n) r.tf (some r.nowMs))) := by
  induction h with
  | nil => exact .nil
  | @cons row k rows ks hrow _ ih =>
    have hcandle : IsCandleOf client instrument r row
        (k.candle instrument (client.nowNs n) r.tf (some r.nowMs)) := ⟨k, n, hrow, rfl⟩
    have hwanted : r.Wanted row ↔
        (k.candle instrument (client.nowNs n) r.tf (some r.nowMs)).isClosed = true ∧
          r.firstExpected * nsPerMs ≤
            (k.candle instrument (client.nowNs n) r.tf (some r.nowMs)).openTimeNs := by
      rw [hrow.isClosed_iff, hcandle.openTimeNs, mul_le_mul_iff_left₀ (by decide : 0 < nsPerMs),
        KlineRange.Wanted, hrow.openMs_eq, and_comm]
    rw [List.map_cons, KlineRange.fresh_cons]
    by_cases hw : r.Wanted row
    · rw [List.filter_cons_of_pos (by simpa using hw), if_pos (hwanted.mp hw)]
      exact .cons hcandle ih
    · rw [List.filter_cons_of_neg (by simpa using hw), if_neg fun hc => hw (hwanted.mpr hc)]
      exact ih

/-- Rows that are bars have values. -/
theorem exists_values {rows : List RestRow} (hbars : ∀ row ∈ rows, ∃ k, IsBar r.tf row k) :
    ∃ ks, List.Forall₂ (IsBar r.tf) rows ks := by
  induction rows with
  | nil => exact ⟨[], .nil⟩
  | cons row rows ih =>
    obtain ⟨k, hk⟩ := hbars row (by simp)
    obtain ⟨ks, hks⟩ := ih fun row hrow => hbars row (by simp [hrow])
    exact ⟨k :: ks, .cons hk hks⟩

/-- The callback takes every page. -/
def Accepts (onPage : Option (List Candle → Except PyError Unit)) : Prop :=
  ∀ call ∈ onPage, ∀ fresh, call fresh = .ok ()

/-- An accepting hook returns. -/
theorem callPage_ok (h : Accepts onPage) (fresh : List Candle) :
    callPage onPage fresh = .ok () := by
  unfold callPage
  split
  · cases onPage with
    | none => rfl
    | some call => exact h call rfl fresh
  · rfl

variable (limit) in
/-- The candles of later bars go to the end of what has been gathered, in their order. -/
theorem KlinePages.add_entries {st : KlinePages} {new : List RestRow} {fresh : List Candle}
    (h : List.Forall₂ (IsCandleOf client instrument r) new fresh)
    (hasc : Ascending RestRow.openMs new)
    (hbeyond : ∀ o ∈ st.byOpen.keys, ∀ row ∈ new, o < row.openMs * nsPerMs)
    (prevLast : Option (ℤ × RestRow)) (cursor : ℤ) (page : List (ℤ × RestRow)) :
    (st.add limit prevLast cursor page fresh).byOpen.entries =
      st.byOpen.entries ++ fresh.map fun c => (c.openTimeNs, c) := by
  apply Dict.entries_insertAll Candle.openTimeNs fresh
  rw [openTimes_of_candles h]
  apply List.nodup_append.mpr
  refine ⟨st.byOpen.nodup, ?_, ?_⟩
  · apply List.pairwise_map.mpr
    exact hasc.imp fun hlt => (ns_lt hlt).ne
  · intro o ho o' ho'
    obtain ⟨row, hrow, rfl⟩ := List.mem_map.mp ho'
    exact (hbeyond o ho row hrow).ne

/-! ### The pages of such a server -/

/-- The rows that the server may answer with. -/
def KlineRange.served (r : KlineRange) (stored : List RestRow) : List RestRow :=
  stored.filter fun row => row.openMs ≤ r.endMs

/-- A row with its opening time. -/
def opened (row : RestRow) : ℤ × RestRow := (row.openMs, row)

/-- The loop stands at the beginning of the range, or at the last row of a page. -/
inductive StandsAt (r : KlineRange) (stored : List RestRow) : Option (ℤ × RestRow) → ℤ → Prop
  | start : StandsAt r stored none r.startMs
  | seam {row : RestRow} (mem : row ∈ r.served stored) :
    StandsAt r stored (some (opened row)) row.openMs

/-- The rows that are still to come. -/
def KlineRange.rest (r : KlineRange) (stored : List RestRow) :
    Option (ℤ × RestRow) → List RestRow
  | none => since RestRow.openMs r.startMs (r.served stored)
  | some prev => after RestRow.openMs prev.1 (r.served stored)

variable {stored : List RestRow} {prevLast : Option (ℤ × RestRow)} {cursor : ℤ}

/-- What is served is in the order of time. -/
theorem ServesKlines.served_ascending (h : ServesKlines client r.tf stored) :
    Ascending RestRow.openMs (r.served stored) := h.ascending.filter _

/-- The rows of the next page. -/
def KlineRange.nextPage (r : KlineRange) (stored : List RestRow) (cursor limit : ℤ) :
    List RestRow := page RestRow.openMs cursor limit.toNat (r.served stored)

/-- A page from a row on begins with the row. -/
theorem nextPage_from (h : ServesKlines client r.tf stored) (hlimit : 2 ≤ limit) {row : RestRow}
    (hrow : row ∈ r.served stored) : r.nextPage stored row.openMs limit =
      row :: (after RestRow.openMs row.openMs (r.served stored)).take (limit.toNat - 1) := by
  obtain ⟨n, hn⟩ : ∃ n, limit.toNat = n + 1 := ⟨limit.toNat - 1, by omega⟩
  rw [KlineRange.nextPage, page, since_last h.served_ascending hrow, hn]
  rfl

/-- What a page brings: the beginning `new` of what is still to come, and all of it when the page
    is not full. -/
structure Brings (r : KlineRange) (stored : List RestRow) (prevLast : Option (ℤ × RestRow))
    (limit : ℤ) (rows new : List RestRow) : Prop where
  begins : new <+: r.rest stored prevLast
  last : ∀ last, rows.getLast? = some last →
    r.rest stored prevLast = new ++ after RestRow.openMs last.openMs (r.served stored)
  short : (rows.length : ℤ) < limit → r.rest stored prevLast = new

/-- **Every seam is right**: a page repeats the last row of the one before, and then brings what
    is still to come. -/
theorem newRows_served (h : ServesKlines client r.tf stored) (hlimit : 2 ≤ limit)
    (hat : StandsAt r stored prevLast cursor) :
    (∀ s ∈ seamOf prevLast ((r.nextPage stored cursor limit).map opened), s = .ok) ∧
      ∃ new, newRows prevLast ((r.nextPage stored cursor limit).map opened) = new.map opened ∧
        Brings r stored prevLast limit (r.nextPage stored cursor limit) new := by
  -- the first page has no seam, any later one begins with the last row of the page before
  cases hat with
  | start =>
    refine ⟨fun s hs => (by cases hs), r.nextPage stored r.startMs limit, rfl, ?_, ?_, ?_⟩
    · exact List.take_prefix ..
    · intro last hlast
      exact since_eq_page_append h.served_ascending hlast
    · intro hshort
      apply (page_of_short _).symm
      show (r.nextPage stored r.startMs limit).length < _
      omega
  | @seam row mem =>
    have hpage := nextPage_from h hlimit mem
    -- the repeated row is the same row, so the seam is sound
    have hseam (rows : List RestRow) :
        seamOf (some (opened row)) ((row :: rows).map opened) = some .ok := by
      simp [seamOf]
    rw [hpage]
    refine ⟨fun s hs => ?_, (after RestRow.openMs row.openMs (r.served stored)).take
      (limit.toNat - 1), ?_, ?_, ?_, ?_⟩
    · rw [hseam] at hs
      cases hs
      rfl
    · rw [newRows, hseam, if_pos rfl]
      rfl
    · exact List.take_prefix ..
    · intro last hlast
      rw [← hpage] at hlast
      have hsplit := since_eq_page_append h.served_ascending hlast
      rw [since_last h.served_ascending mem] at hsplit
      rw [KlineRange.nextPage] at hpage
      rw [hpage, List.cons_append, List.cons.injEq] at hsplit
      exact hsplit.2
    -- a short page is the last of what is stored
    · intro hshort
      rw [List.length_cons, List.length_take] at hshort
      show after _ _ _ = _
      apply (List.take_of_length_le _).symm
      show (after RestRow.openMs row.openMs (r.served stored)).length ≤ _
      omega

/-- The opening times of bars can be read. -/
theorem readOpens_bars {rows : List RestRow} (hbars : ∀ row ∈ rows, ∃ k, IsBar r.tf row k) :
    ∀ i, readOpens i rows = .ok (rows.map opened) := by
  induction rows with
  | nil => exact fun i => rfl
  | cons row rows ih =>
    intro i
    obtain ⟨k, hk⟩ := hbars row (by simp)
    obtain ⟨fields, rfl⟩ := (readRestKline_times hk.read).2
    rw [readOpens, ih fun row hrow => hbars row (by simp [hrow])]
    rfl

/-- Pages that agree at their seam have no mismatch. -/
theorem mismatchOf_ok {page : List (ℤ × RestRow)} (h : ∀ s ∈ seamOf prevLast page, s = .ok)
    (segment : ℕ) : mismatchOf segment prevLast page = [] := by
  unfold mismatchOf
  split
  · apply if_neg
    intro hs
    cases h _ hs
  · rfl

/-- The bars that have been gathered are before all those still to come. -/
def Behind (r : KlineRange) (stored : List RestRow) (prevLast : Option (ℤ × RestRow))
    (st : KlinePages) : Prop :=
  ∀ o ∈ st.byOpen.keys, ∀ row ∈ r.rest stored prevLast, o < row.openMs * nsPerMs

/-- What is still to come is in the order of time. -/
theorem rest_ascending (h : ServesKlines client r.tf stored) :
    ∀ prevLast, Ascending RestRow.openMs (r.rest stored prevLast)
  | none => h.served_ascending.since
  | some _ => h.served_ascending.filter _

/-- What is still to come is among what is served. -/
theorem mem_served_of_rest {row : RestRow} (hrow : row ∈ r.rest stored prevLast) :
    row ∈ r.served stored := by
  cases prevLast with
  | none => exact (mem_since.mp hrow).1
  | some prev => exact (mem_after.mp hrow).1

/-- What the loop leaves behind: the candles of `rows` at the end of what was there, and no seam
    that is wrong. -/
structure Gathered (client : KlineClient) (instrument : KlineInstrument) (r : KlineRange)
    (rows : List RestRow) (st st' : KlinePages) : Prop where
  candles : ∃ fresh, List.Forall₂ (IsCandleOf client instrument r) rows fresh ∧
    st'.byOpen.entries = st.byOpen.entries ++ fresh.map fun c => (c.openTimeNs, c)
  mismatches : st'.mismatches = st.mismatches
  seams : ∃ more, st'.segments = st.segments ++ more ∧
    ∀ s ∈ more, s.seam = none ∨ s.seam = some .ok

/-- What two parts of the loop have gathered. -/
theorem Gathered.trans {rows rows' : List RestRow} {st st' st'' : KlinePages}
    (h : Gathered client instrument r rows st st')
    (h' : Gathered client instrument r rows' st' st'') :
    Gathered client instrument r (rows ++ rows') st st'' := by
  obtain ⟨⟨fresh, hfresh, hentries⟩, hmis, more, hmore, hseams⟩ := h
  obtain ⟨⟨fresh', hfresh', hentries'⟩, hmis', more', hmore', hseams'⟩ := h'
  refine ⟨⟨fresh ++ fresh', List.rel_append hfresh hfresh', ?_⟩, hmis'.trans hmis, more ++ more',
    ?_, ?_⟩
  · rw [hentries', hentries, List.map_append, List.append_assoc]
  · rw [hmore', hmore, List.append_assoc]
  · intro s hs
    exact (List.mem_append.mp hs).elim (hseams s) (hseams' s)

/-- The state after a page is behind what comes after its last row. -/
theorem behind_next (h : ServesKlines client r.tf stored) {new : List RestRow} {last : RestRow}
    {fresh : List Candle} {st st' : KlinePages}
    (hbrings : Brings r stored prevLast limit (r.nextPage stored cursor limit) new)
    (hlast : (r.nextPage stored cursor limit).getLast? = some last)
    (hfresh : List.Forall₂ (IsCandleOf client instrument r)
      (new.filter fun row => decide (r.Wanted row)) fresh)
    (hentries : st'.byOpen.entries = st.byOpen.entries ++ fresh.map fun c => (c.openTimeNs, c))
    (hbehind : Behind r stored prevLast st) : Behind r stored (some (opened last)) st' := by
  have hsplit := hbrings.last last hlast
  have hasc := rest_ascending h prevLast
  rw [hsplit] at hasc
  intro o ho row hrow
  have hkeys : st'.byOpen.keys = st.byOpen.keys ++ fresh.map Candle.openTimeNs := by
    rw [Dict.keys, hentries]
    simp [Dict.keys]
  rw [hkeys, openTimes_of_candles hfresh] at ho
  -- a time put in by the earlier pages
  rcases List.mem_append.mp ho with ho | ho
  · apply hbehind o ho row
    rw [hsplit]
    exact List.mem_append_right _ hrow
  -- a time of this page: what is left comes after its last row
  · obtain ⟨row', hrow', rfl⟩ := List.mem_map.mp ho
    exact ns_lt ((List.pairwise_append.mp hasc).2.2 row' (List.mem_of_mem_filter hrow') row hrow)

/-- **A request** to such a server adds what is wanted of what it brings. -/
theorem fetchKlinePage_serves (h : ServesKlines client r.tf stored) (haccepts : Accepts onPage)
    (hnow : 0 ≤ r.nowMs) (hlimit : 2 ≤ limit) (hat : StandsAt r stored prevLast cursor)
    (requests : ℕ) {st : KlinePages} (hbehind : Behind r stored prevLast st) :
    ∃ st' new, fetchKlinePage client instrument onPage r limit prevLast cursor requests st =
        .ok ((r.nextPage stored cursor limit).map opened, st') ∧
      Brings r stored prevLast limit (r.nextPage stored cursor limit) new ∧
      Gathered client instrument r (new.filter fun row => decide (r.Wanted row)) st st' ∧
      ∀ last, (r.nextPage stored cursor limit).getLast? = some last →
        Behind r stored (some (opened last)) st' := by
  obtain ⟨hseam, new, hnew, hbrings⟩ := newRows_served h hlimit hat
  have hbars {rows : List RestRow} (hrows : ∀ row ∈ rows, row ∈ r.served stored) :
      ∀ row ∈ rows, ∃ k, IsBar r.tf row k :=
    fun row hrow => h.bars row (List.mem_of_mem_filter (hrows row hrow))
  have hmem : ∀ row ∈ new, row ∈ r.rest stored prevLast := hbrings.begins.subset
  obtain ⟨ks, hks⟩ := exists_values (hbars fun row hrow => mem_served_of_rest (hmem row hrow))
  have hfresh := fresh_of_bars client instrument hks requests
  have hread : readOpens 0 (r.nextPage stored cursor limit) =
      .ok ((r.nextPage stored cursor limit).map opened) :=
    readOpens_bars (hbars fun row hrow => (mem_page hrow).1) 0
  -- only wanted rows are kept, and they keep their order
  have hasc : Ascending RestRow.openMs (new.filter fun row => decide (r.Wanted row)) :=
    ((rest_ascending h prevLast).sublist hbrings.begins.sublist).filter _
  have hentries := KlinePages.add_entries limit hfresh hasc
    (fun o ho row hrow => hbehind o ho row (hmem row (List.mem_of_mem_filter hrow)))
    prevLast cursor ((r.nextPage stored cursor limit).map opened)
  refine ⟨_, new, ?_, hbrings, ⟨⟨_, hfresh, hentries⟩, ?_, _, rfl, ?_⟩, fun last hlast =>
    behind_next h hbrings hlast hfresh hentries hbehind⟩
  · rw [fetchKlinePage, h.answers]
    show (readOpens 0 (r.nextPage stored cursor limit) >>= _) = _
    rw [hread]
    show (takePage .. >>= _) = _
    rw [takePage, hnew, List.map_map, show Prod.snd ∘ opened = id from rfl, List.map_id,
      normalizeRestKlines_bars instrument (h.clock requests) hnow hks]
    show ((callPage onPage _ >>= _) >>= _) = _
    rw [callPage_ok haccepts]
    rfl
  · show st.mismatches ++ mismatchOf _ _ _ = _
    rw [mismatchOf_ok hseam, List.append_nil]
  · intro s hs
    rw [List.mem_singleton.mp hs]
    show seamOf _ _ = none ∨ seamOf _ _ = some .ok
    cases hstatus : seamOf prevLast ((r.nextPage stored cursor limit).map opened) with
    | none => exact .inl rfl
    | some status => exact .inr (by rw [hseam status hstatus])

/-- The last opening time is that of the last row. -/
theorem getLast?_opened {rows : List RestRow} {last : ℤ × RestRow}
    (h : (rows.map opened).getLast? = some last) :
    ∃ row, rows.getLast? = some row ∧ opened row = last := by
  rwa [List.getLast?_map, Option.map_eq_some_iff] at h

/-! ### The loop and such a server -/

/-- A multiple below a number is below its floor. -/
theorem le_floorTo {x y step : ℤ} (hstep : 0 < step) (hdvd : step ∣ x) (hle : x ≤ y) :
    x ≤ floorTo y step := by
  obtain ⟨q, rfl⟩ := hdvd
  have hq : q ≤ y / step := (Int.le_ediv_iff_mul_le hstep).mpr (by rwa [mul_comm])
  rw [floorTo, mul_comm]
  exact mul_le_mul_of_nonneg_right hq hstep.le

/-- The floor of a number is not above it. -/
theorem floorTo_le {step : ℤ} (hstep : 0 < step) (y : ℤ) : floorTo y step ≤ y :=
  Int.ediv_mul_le y hstep.ne'

/-- The ceiling of a number is not below it. -/
theorem le_ceilTo {step : ℤ} (hstep : 0 < step) (x : ℤ) : x ≤ ceilTo x step := by
  have hle := floorTo_le hstep (-x)
  unfold floorTo at hle
  unfold ceilTo
  rw [neg_mul]
  omega

/-- A row of the server is wanted exactly when its bar is expected. -/
theorem wanted_iff {row : RestRow} {k : RestKline} (hbar : IsBar r.tf row k)
    (hend : row.openMs ≤ r.endMs) :
    r.Wanted row ↔ r.firstExpected ≤ row.openMs ∧ row.openMs ≤ r.lastExpected := by
  have hpos := r.tf.ms_pos
  have hdvd : r.tf.ms ∣ row.openMs := by
    rw [hbar.openMs_eq]
    exact hbar.opens
  refine and_congr_right fun _ => ⟨fun hover => ?_, fun hlast => ?_⟩
  · have hfloor := le_floorTo hpos hdvd hend
    have hfloor' := le_floorTo hpos (dvd_add hdvd (dvd_refl r.tf.ms)) hover
    exact le_min hfloor (by omega)
  · have hle := hlast.trans (min_le_right ..)
    have hfloor := floorTo_le hpos r.nowMs
    omega

/-- Beyond the last bar that is expected nothing is wanted. -/
theorem none_wanted (h : ServesKlines client r.tf stored) {o : ℤ} (ho : r.lastExpected ≤ o) :
    (after RestRow.openMs o (r.served stored)).filter (fun row => decide (r.Wanted row)) = [] := by
  rw [List.filter_eq_nil_iff]
  intro row hrow
  obtain ⟨hserved, hlt⟩ := mem_after.mp hrow
  obtain ⟨hstored, hend⟩ := List.mem_filter.mp hserved
  obtain ⟨k, hbar⟩ := h.bars row hstored
  rw [decide_eq_true_eq, wanted_iff hbar (by simpa using hend)]
  omega

/-- The last page brings everything that is still wanted. -/
theorem wanted_of_lastPage (h : ServesKlines client r.tf stored) (hlimit : 2 ≤ limit)
    (hat : StandsAt r stored prevLast cursor) {new : List RestRow} {last : RestRow}
    (hbrings : Brings r stored prevLast limit (r.nextPage stored cursor limit) new)
    (hlast : (r.nextPage stored cursor limit).getLast? = some last)
    (hstop : lastPage r limit prevLast ((r.nextPage stored cursor limit).map opened)
      (opened last)) :
    (r.rest stored prevLast).filter (fun row => decide (r.Wanted row)) =
      new.filter fun row => decide (r.Wanted row) := by
  rcases hstop with hshort | hbound | ⟨prev, hprev, hback⟩
  · rw [List.length_map] at hshort
    rw [hbrings.short hshort]
  · have hnone := none_wanted h (show r.lastExpected ≤ last.openMs from hbound)
    rw [hbrings.last last hlast, List.filter_append, hnone, List.append_nil]
  · cases hat with
    | start => cases hprev
    | @seam row mem =>
      cases hprev
      -- a page that does not go beyond its first row has no other row
      have hpage := nextPage_from h hlimit mem
      cases hnew : (after RestRow.openMs row.openMs (r.served stored)).take (limit.toNat - 1) with
      | nil =>
        rw [hbrings.short]
        rw [hpage, hnew, List.length_singleton]
        omega
      | cons first more =>
        rw [hpage, hnew, List.getLast?_cons_cons] at hlast
        have hmem := List.mem_of_getLast? hlast
        rw [← hnew] at hmem
        have hlt := (mem_after.mp (List.mem_of_mem_take hmem)).2
        exact absurd hlt (not_lt.mpr hback)

variable (instrument) in
/-- **The loop** adds what is still to come and wanted. -/
theorem klineLoop_serves (h : ServesKlines client r.tf stored) (haccepts : Accepts onPage)
    (hnow : 0 ≤ r.nowMs) (hlimit : 2 ≤ limit) (prevLast : Option (ℤ × RestRow)) (cursor : ℤ)
    (requests : ℕ) (st : KlinePages) :
    StandsAt r stored prevLast cursor → Behind r stored prevLast st →
      ∃ st' m, klineLoop client instrument onPage r limit prevLast cursor requests st =
          .ok (st', m) ∧
        Gathered client instrument r
          ((r.rest stored prevLast).filter fun row => decide (r.Wanted row)) st st' := by
  induction prevLast, cursor, requests, st using
    klineLoop.induct client instrument onPage r limit with
  | case1 prevLast cursor requests st e hfetch =>
    intro hat hbehind
    obtain ⟨st', new, hok, -⟩ := fetchKlinePage_serves h haccepts hnow hlimit hat requests hbehind
    rw [hfetch] at hok
    cases hok
  | case2 prevLast cursor requests st page st' hfetch hlast =>
    intro hat hbehind
    obtain ⟨st'', new, hok, hbrings, hadds, -⟩ :=
      fetchKlinePage_serves h haccepts hnow hlimit hat requests hbehind
    rw [hfetch] at hok
    cases hok
    -- an empty page is not full
    have hempty : r.nextPage stored cursor limit = [] := by
      simpa [List.getLast?_eq_none_iff] using hlast
    refine ⟨st', requests + 1, ?_, ?_⟩
    · rw [klineLoop_eq, hfetch]
      simp only [hlast]
    · rw [hbrings.short (by rw [hempty, List.length_nil]; omega)]
      exact hadds
  | case3 prevLast cursor requests st page st' hfetch last hlast hstop =>
    intro hat hbehind
    obtain ⟨st'', new, hok, hbrings, hadds, -⟩ :=
      fetchKlinePage_serves h haccepts hnow hlimit hat requests hbehind
    rw [hfetch] at hok
    cases hok
    refine ⟨st', requests + 1, ?_, ?_⟩
    · rw [klineLoop_eq, hfetch]
      simp only [hlast, if_pos hstop]
    · obtain ⟨row, hrow, rfl⟩ := getLast?_opened hlast
      rw [wanted_of_lastPage h hlimit hat hbrings hrow hstop]
      exact hadds
  | case4 prevLast cursor requests st page st' hfetch last hlast hgo ih =>
    intro hat hbehind
    obtain ⟨st'', new, hok, hbrings, hadds, hnext⟩ :=
      fetchKlinePage_serves h haccepts hnow hlimit hat requests hbehind
    rw [hfetch] at hok
    cases hok
    obtain ⟨row, hrow, rfl⟩ := getLast?_opened hlast
    obtain ⟨st'', m, hrun, hgathered⟩ :=
      ih (.seam (mem_page (List.mem_of_getLast? hrow)).1) (hnext row hrow)
    refine ⟨st'', m, ?_, ?_⟩
    · rw [klineLoop_eq, hfetch]
      simp only [hlast, if_neg hgo]
      exact hrun
    · rw [hbrings.last row hrow, List.filter_append]
      exact hadds.trans hgathered

/-! ### The result -/

/-- The rows of the bars that are expected. -/
def KlineRange.expected (r : KlineRange) (stored : List RestRow) : List RestRow :=
  stored.filter fun row => decide (r.firstExpected ≤ row.openMs ∧ row.openMs ≤ r.lastExpected)

/-- What is wanted from the start of the range on are the bars that are expected. -/
theorem wanted_eq_expected (h : ServesKlines client r.tf stored) :
    (r.rest stored none).filter (fun row => decide (r.Wanted row)) = r.expected stored := by
  show ((stored.filter _).filter _).filter _ = stored.filter _
  rw [List.filter_filter, List.filter_filter]
  apply List.filter_congr
  intro row hrow
  obtain ⟨k, hbar⟩ := h.bars row hrow
  have hstart := le_ceilTo r.tf.ms_pos r.startMs
  have hfloor := floorTo_le r.tf.ms_pos r.endMs
  have hlast : r.lastExpected ≤ floorTo r.endMs r.tf.ms := min_le_left ..
  have hfirst : ceilTo r.startMs r.tf.ms = r.firstExpected := rfl
  by_cases hend : row.openMs ≤ r.endMs
  · have hiff := wanted_iff hbar hend
    by_cases hw : r.Wanted row
    · have hle : r.startMs ≤ row.openMs := by
        have hlo := (hiff.mp hw).1
        omega
      simp [hw, hiff.mp hw, hle, hend]
    · have hnot := hiff.not.mp hw
      simp [hw, hnot]
  -- a row past the end is in neither
  · have hnot : ¬(r.firstExpected ≤ row.openMs ∧ row.openMs ≤ r.lastExpected) := by omega
    rw [decide_eq_false hnot]
    simp [hend]

/-- Entries that stand in order are the series as they are. -/
theorem KlinePages.series_eq {st : KlinePages} {fresh : List Candle}
    (hentries : st.byOpen.entries = fresh.map fun c => (c.openTimeNs, c))
    (hasc : Ascending Candle.openTimeNs fresh) : st.series = fresh := by
  have hsorted : (st.byOpen.entries.insertionSort fun a b => a.1 ≤ b.1) = st.byOpen.entries := by
    apply List.Pairwise.insertionSort_eq
    rw [hentries, List.pairwise_map]
    exact hasc.imp le_of_lt
  rw [KlinePages.series, hsorted, hentries, List.map_map]
  exact List.map_id _

/-- Candles of rows in order are in order. -/
theorem candles_ascending {rows : List RestRow} {candles : List Candle}
    (h : List.Forall₂ (IsCandleOf client instrument r) rows candles)
    (hasc : Ascending RestRow.openMs rows) : Ascending Candle.openTimeNs candles := by
  rw [Ascending, ← List.pairwise_map, openTimes_of_candles h]
  exact List.pairwise_map.mpr (hasc.imp ns_lt)

/-- The candles have the timeframe of the range. -/
theorem candles_tf {rows : List RestRow} {candles : List Candle}
    (h : List.Forall₂ (IsCandleOf client instrument r) rows candles) :
    ∀ c ∈ candles, c.tf = r.tf.name := by
  induction h with
  | nil => simp
  | cons hrow _ ih =>
    intro c hc
    rcases List.mem_cons.mp hc with rfl | hc
    · obtain ⟨k, n, -, rfl⟩ := hrow
      rfl
    · exact ih c hc

/-- A ceiling is a multiple of its step. -/
theorem dvd_ceilTo (x step : ℤ) : step ∣ ceilTo x step := dvd_mul_left ..

/-- A floor is a multiple of its step. -/
theorem dvd_floorTo (x step : ℤ) : step ∣ floorTo x step := dvd_mul_left ..

/-- The last minute that is expected lies on the grid. -/
theorem dvd_lastExpected (r : KlineRange) : r.tf.ms ∣ r.lastExpected := by
  rcases min_choice (floorTo r.endMs r.tf.ms) (floorTo r.nowMs r.tf.ms - r.tf.ms) with h | h
  · rw [KlineRange.lastExpected, h]
    exact dvd_floorTo ..
  · rw [KlineRange.lastExpected, h]
    exact dvd_sub (dvd_floorTo ..) (dvd_refl _)

/-- The bars that are expected and stored lie on the grid. -/
theorem expected_onGrid (h : ServesKlines client r.tf stored)
    (hle : r.firstExpected ≤ r.lastExpected) :
    OnGrid r.tf.ns (r.firstExpected * nsPerMs) (r.lastExpected * nsPerMs)
      ((r.expected stored).map fun row => row.openMs * nsPerMs) := by
  have hns : 0 ≤ nsPerMs := by decide
  have hgrid {a b : ℤ} (ha : r.tf.ms ∣ a) (hb : r.tf.ms ∣ b) :
      r.tf.ns ∣ a * nsPerMs - b * nsPerMs := by
    rw [← sub_mul]
    exact mul_dvd_mul_right (dvd_sub ha hb) _
  have hfirst : r.tf.ms ∣ r.firstExpected := dvd_ceilTo ..
  apply OnGrid.of_pairwise r.tf.ns_pos (hgrid (dvd_lastExpected r) hfirst)
    (mul_le_mul_of_nonneg_right hle hns)
  -- the stored rows are ascending
  · exact List.pairwise_map.mpr ((h.ascending.filter _).imp ns_lt)
  · intro x hx
    obtain ⟨row, hrow, rfl⟩ := List.mem_map.mp hx
    obtain ⟨hstored, hexp⟩ := List.mem_filter.mp hrow
    obtain ⟨k, hbar⟩ := h.bars row hstored
    rw [decide_eq_true_eq] at hexp
    refine ⟨mul_le_mul_of_nonneg_right hexp.1 hns, mul_le_mul_of_nonneg_right hexp.2 hns, ?_⟩
    apply hgrid _ hfirst
    rw [hbar.openMs_eq]
    exact hbar.opens

/-- The gaps between the bars that are expected and stored. -/
def KlineRange.gaps (r : KlineRange) (name : String) (stored : List RestRow) : List Gap :=
  if r.firstExpected ≤ r.lastExpected then
    (gridHoles r.tf.ns (r.firstExpected * nsPerMs) (r.lastExpected * nsPerMs)
      ((r.expected stored).map fun row => row.openMs * nsPerMs)).map
      fun g => .new name r.tf g.1 g.2
  else []

/-- Candles of the bars that are expected, and the gaps between them, partition the grid. -/
theorem partitions_expected (h : ServesKlines client r.tf stored) (name : String)
    {candles : List Candle}
    (hall : List.Forall₂ (IsCandleOf client instrument r) (r.expected stored) candles) :
    Partitions r.tf (r.firstExpected * nsPerMs) (r.lastExpected * nsPerMs) candles
      (r.gaps name stored) := by
  by_cases hle : r.firstExpected ≤ r.lastExpected
  · have hgrid := expected_onGrid h hle
    rw [← openTimes_of_candles hall] at hgrid
    rw [KlineRange.gaps, if_pos hle, ← openTimes_of_candles hall]
    exact partitions_onGrid name (candles_ascending hall (h.ascending.filter _)) hgrid
  · -- nothing is expected
    have hnone : r.expected stored = [] := by
      apply List.filter_eq_nil_iff.mpr
      intro row _ hexp
      rw [decide_eq_true_eq] at hexp
      omega
    rw [hnone] at hall
    cases hall
    rw [KlineRange.gaps, if_neg hle]
    have hlt := ns_lt (not_le.mp hle)
    exact ⟨.nil, by simp, by simp, .nil, by simp, fun m hlo hhi _ => by omega⟩

/-- Two series that differ at most in the moments at which their rows were read. -/
def SameCandles (candles candles' : List Candle) : Prop :=
  (candles.map fun c => { c with tsIngestNs := 0 }) =
    candles'.map fun c => { c with tsIngestNs := 0 }

/-- A row has one candle, but for the moment at which it is read. -/
theorem sameCandles_of_rows {rows : List RestRow} {candles candles' : List Candle}
    (h : List.Forall₂ (IsCandleOf client instrument r) rows candles)
    (h' : List.Forall₂ (IsCandleOf client instrument r) rows candles') :
    SameCandles candles candles' := by
  induction h generalizing candles' with
  | nil =>
    cases h'
    rfl
  | cons hrow _ ih =>
    cases h' with
    | cons hrow' hrest' =>
      obtain ⟨k, n, hbar, rfl⟩ := hrow
      obtain ⟨k', n', hbar', rfl⟩ := hrow'
      have hk : k = k' := Except.ok.inj (hbar.read.symm.trans hbar'.read)
      subst hk
      show _ :: _ = _ :: _
      rw [show (_ : List Candle) = _ from ih hrest']
      rfl

variable (instrument limit) in
/-- **What a backfill brings back** from a server that keeps its candles. -/
theorem backfillKlines_serves {tf : Timeframe} {startMs endMs : ℤ} {nowMs : Option ℤ}
    {clockGuardMs : ℤ} (hr : r = client.range tf startMs endMs nowMs clockGuardMs)
    (h : ServesKlines client tf stored) (haccepts : Accepts onPage) (hrange : startMs ≤ endMs)
    (hlimit : 2 ≤ limit ∧ limit ≤ maxLimit) (hguard : 0 ≤ clockGuardMs) (hnow : 0 ≤ r.nowMs) :
    ∃ res, backfillKlines client instrument onPage tf startMs endMs limit nowMs clockGuardMs =
        .ok res ∧
      List.Forall₂ (IsCandleOf client instrument r) (r.expected stored) res.candles ∧
      res.gaps = r.gaps instrument.symbolCanon stored ∧ res.overlapMismatches = [] ∧
      res.ok = res.gaps.isEmpty := by
  have htf : r.tf = tf := by rw [hr]; rfl
  have hstart : r.startMs = startMs := by rw [hr]; rfl
  subst htf hstart
  have hempty : Behind r stored none ⟨∅, [], []⟩ := by
    intro o ho
    cases ho
  obtain ⟨st, m, hrun, ⟨⟨fresh, hall, hentries⟩, hmis, segs, hsegs, hseams⟩⟩ :=
    klineLoop_serves instrument h haccepts hnow hlimit.1 none r.startMs 0 _ .start
      hempty
  rw [wanted_eq_expected h] at hall
  have hseries : st.series = fresh := by
    apply KlinePages.series_eq hentries
    exact candles_ascending hall (h.ascending.filter _)
  have hgaps : r.gapsOf instrument.symbolCanon st.series =
      .ok (r.gaps instrument.symbolCanon stored) := by
    unfold KlineRange.gapsOf KlineRange.gaps
    split
    · rename_i hle
      have hgrid := expected_onGrid h hle
      rw [← openTimes_of_candles hall] at hgrid ⊢
      rw [hseries]
      exact detectGaps_onGrid instrument.named (candles_tf hall)
        (candles_ascending hall (h.ascending.filter _)) hgrid
    · rfl
  refine ⟨⟨st.series, r.gaps instrument.symbolCanon stored, st.segments, st.mismatches, m⟩, ?_,
    ?_, rfl, hmis, ?_⟩
  · rw [backfillKlines, if_neg (not_lt.mpr hrange), if_neg (not_not.mpr hlimit),
      if_neg (not_lt.mpr hguard), ← hr]
    show (klineLoop .. >>= _) = _
    rw [hrun]
    show (r.gapsOf .. >>= _) = _
    rw [hgaps]
    rfl
  · show List.Forall₂ _ _ st.series
    rw [hseries]
    exact hall
  -- every seam was sound, so `ok` hangs on the gaps only
  · have hsound : (st.segments.all fun s => s.seam = none || s.seam = some .ok) = true := by
      rw [hsegs]
      simpa using hseams
    show (_ && st.mismatches.isEmpty && _) = _
    rw [hmis, hsound]
    simp

end Loop

/-- **The backfill of candles is complete.** Whatever the server answers, the loop ends: it looks
    at no more answers than the first one allows for, and reports no more requests.  Against a
    server that answers with the beginning of its store, the candles are those of the stored bars
    that are expected, and the candles and the gaps partition the grid from the first bar that is
    expected to the last; with another page limit the gaps are the same, and the candles but for
    the moments at which they were read. -/
theorem kline_backfill (client : KlineClient) (instrument : KlineInstrument)
    (onPage : Option (List Candle → Except PyError Unit)) (tf : Timeframe)
    (startMs endMs limit : ℤ) (nowMs : Option ℤ) (clockGuardMs : ℤ) (r : KlineRange)
    (hr : r = client.range tf startMs endMs nowMs clockGuardMs) :
    (∀ client', client'.startNs = client.startNs →
      (∀ i < client.reach r limit r.startMs 0, SameAnswer client client' i) →
      backfillKlines client' instrument onPage tf startMs endMs limit nowMs clockGuardMs =
        backfillKlines client instrument onPage tf startMs endMs limit nowMs clockGuardMs) ∧
    (∀ res, backfillKlines client instrument onPage tf startMs endMs limit nowMs clockGuardMs =
      .ok res → res.requests ≤ client.reach r limit r.startMs 0) ∧
    (Accepts onPage → startMs ≤ endMs → 2 ≤ limit → limit ≤ maxLimit → 0 ≤ clockGuardMs →
      0 ≤ r.nowMs → ∀ stored, ServesKlines client tf stored →
      ∃ res, backfillKlines client instrument onPage tf startMs endMs limit nowMs clockGuardMs =
          .ok res ∧
        Partitions tf (r.firstExpected * nsPerMs) (r.lastExpected * nsPerMs) res.candles
          res.gaps ∧
        List.Forall₂ (IsCandleOf client instrument r)
          (stored.filter fun row =>
            decide (r.firstExpected ≤ row.openMs ∧ row.openMs ≤ r.lastExpected)) res.candles ∧
        ∀ limit', 2 ≤ limit' → limit' ≤ maxLimit →
          ∃ res', backfillKlines client instrument onPage tf startMs endMs limit' nowMs
              clockGuardMs = .ok res' ∧
            SameCandles res'.candles res.candles ∧ res'.gaps = res.gaps ∧
            res'.overlapMismatches = res.overlapMismatches ∧ res'.ok = res.ok) := by
  refine ⟨?_, ?_, ?_⟩
  · intro client' hstart hsame
    have hrange : client'.range tf startMs endMs nowMs clockGuardMs = r := by
      rw [hr, KlineClient.range, KlineClient.range, hstart]
    have hbegin : r.startMs = startMs := by rw [hr]; rfl
    unfold backfillKlines
    rw [hrange, ← hr]
    have hloop := klineLoop_any instrument onPage ⟨∅, [], []⟩ hsame
    rw [hbegin] at hloop
    simp only [hloop]
  · intro res h
    have hbegin : r.startMs = startMs := by rw [hr]; rfl
    unfold backfillKlines at h
    split at h
    · cases h
    · split at h
      · cases h
      · split at h
        · cases h
        · simp only [← hr] at h
          rw [bind_eq_ok] at h
          obtain ⟨⟨st, m⟩, hloop, h⟩ := h
          simp only at h
          rw [bind_eq_ok] at h
          obtain ⟨gaps, -, h⟩ := h
          cases h
          rw [← hbegin] at hloop
          exact klineLoop_any_requests hloop
  · intro haccepts hrange hlo hhi hguard hnow stored hserves
    obtain ⟨res, hrun, hall, hgaps, hmis, hok⟩ := backfillKlines_serves instrument
      limit hr hserves haccepts hrange ⟨hlo, hhi⟩ hguard hnow
    have htf : r.tf = tf := by rw [hr]; rfl
    subst htf
    refine ⟨res, hrun, ?_, hall, ?_⟩
    · rw [hgaps]
      exact partitions_expected hserves _ hall
    · intro limit' hlo' hhi'
      obtain ⟨res', hrun', hall', hgaps', hmis', hok'⟩ := backfillKlines_serves
        instrument limit' hr hserves haccepts hrange ⟨hlo', hhi'⟩ hguard hnow
      have hsame : res'.gaps = res.gaps := hgaps'.trans hgaps.symm
      refine ⟨res', hrun', sameCandles_of_rows hall' hall, hsame, hmis'.trans hmis.symm, ?_⟩
      rw [hok', hok, hsame]

/-- The bar of the minute `m`. -/
def sampleBar (m : ℤ) : RestRow :=
  .array [.int (m * 60000), .text "100", .text "101.5", .text "99", .text "100", .text "1",
    .int (m * 60000 + 59999), .text "100", .int 5, .text "0.5", .text "50", .text "0"]

/-- A store in which the third minute is missing, and a client that serves it. -/
def sampleKlineStore : List RestRow := [1, 2, 4].map sampleBar

/-- The client of the samples. -/
def sampleKlineClient : KlineClient where
  klines := fun _ start stop limit => .ok (page RestRow.openMs start limit.toNat
    (sampleKlineStore.filter fun row => row.openMs ≤ stop))
  nowNs := fun n => n
  startNs := 0

/-- The instrument of the samples. -/
def sampleKlineInstrument : KlineInstrument where
  symbolCanon := "BTC-USDT-PERP"
  venue := "BINANCE_USDM"
  tradeUid := toString
  klineUid := fun tf o => tf ++ toString o
  named := by decide

/-- The rows of the samples are bars. -/
theorem isBar_sample {m : ℤ} (hm : 0 ≤ m) : IsBar .minute (sampleBar m)
    ⟨m * 60000, m * 60000 + 59999, 100, 203 / 2, 99, 100, 1, 100, 5⟩ where
  read := by
    have hclose : m * 60000 + 59999 = m * 60000 + Timeframe.minute.ms - 1 := by
      show _ = m * 60000 + 60000 - 1
      omega
    -- the texts of the sample read as these numbers
    have hdecs : decText "100" = some 100 ∧ decText "101.5" = some (203 / 2) ∧
        decText "99" = some 99 ∧ decText "1" = some 1 ∧ decText "0.5" = some (1 / 2) ∧
        decText "50" = some 50 ∧ decText "0" = some 0 := by decide +kernel
    obtain ⟨h100, hhigh, h99, h1, hbase, hquote, h0⟩ := hdecs
    simp [readRestKline, sampleBar, KlineField.toInt, KlineField.toDec, bind, Except.bind, hclose,
      h100, hhigh, h99, h1, hbase, hquote, h0]
    rfl
  opens := ⟨m, mul_comm ..⟩
  start := by
    show 0 ≤ m * 60000
    omega
  low := by
    show (0 : Decimal) < 99
    decide +kernel
  ordered := by
    show max (100 : Decimal) 100 ≤ 203 / 2 ∧ (99 : Decimal) ≤ min 100 100
    decide +kernel
  volumes := by
    show (0 : Decimal) ≤ 1 ∧ (0 : Decimal) ≤ 100 ∧ (0 : ℤ) ≤ 5
    decide +kernel

/-- The client of the samples serves its store. -/
theorem servesKlines_sample : ServesKlines sampleKlineClient .minute sampleKlineStore where
  ascending := by
    show List.Pairwise _ _
    decide
  bars := by
    intro row hrow
    obtain ⟨m, hm, rfl⟩ := List.mem_map.mp hrow
    have hnonneg : ∀ m ∈ ([1, 2, 4] : List ℤ), 0 ≤ m := by decide
    exact ⟨_, isBar_sample (hnonneg m hm)⟩
  clock := fun n => Int.natCast_nonneg n
  answers := fun _ _ _ _ => rfl

/-- A backfill of the sample returns, whatever the size of the pages. -/
theorem sample_returns (limit : ℤ) (hlimit : 2 ≤ limit ∧ limit ≤ maxLimit) :
    ∃ res, backfillKlines sampleKlineClient sampleKlineInstrument none .minute 30000 299999 limit
      (some 301000) 0 = .ok res := by
  refine (backfillKlines_serves sampleKlineInstrument limit rfl servesKlines_sample ?_ (by decide)
    hlimit le_rfl ?_).imp fun _ h => h.1
  · intro call hcall
    cases hcall
  · show (0 : ℤ) ≤ 301000
    decide

/-- Pages of two bars: the third minute is the only one that is missing. -/
theorem kline_backfill_sample :
    ∃ res, backfillKlines sampleKlineClient sampleKlineInstrument none .minute 30000 299999 2
        (some 301000) 0 = .ok res ∧
      res.candles.map Candle.openTimeNs = [60000000000, 120000000000, 240000000000] ∧
      ∃! g, g ∈ res.gaps ∧ g.Covers .minute 180000000000 := by
  obtain ⟨res, hrun, hpart, hall, -⟩ := (kline_backfill sampleKlineClient sampleKlineInstrument
    none .minute 30000 299999 2 (some 301000) 0 _ rfl).2.2 (fun call hcall => by cases hcall)
    (by decide) (by decide) (by decide) (by decide) (by decide) _ servesKlines_sample
  have hopens : res.candles.map Candle.openTimeNs =
      [60000000000, 120000000000, 240000000000] := by
    rw [openTimes_of_candles hall]
    decide
  refine ⟨res, hrun, hopens, ?_⟩
  rcases hpart.once 180000000000 (by decide) (by decide) (by decide) with ⟨hin, -⟩ | ⟨hgap, -⟩
  · obtain ⟨c, ⟨hc, hopen⟩, -⟩ := hin
    have hmem := List.mem_map_of_mem (f := Candle.openTimeNs) hc
    rw [hopen, hopens] at hmem
    exact absurd hmem (by decide)
  · exact hgap

/-- Pages of another size are read at other moments: with pages of two bars the last candle of the
    sample is stamped later, and the number of requests is another one. -/
theorem kline_limit_shows :
    ServesKlines sampleKlineClient .minute sampleKlineStore ∧
      ∃ res res', backfillKlines sampleKlineClient sampleKlineInstrument none .minute 30000 299999
          2 (some 301000) 0 = .ok res ∧
        backfillKlines sampleKlineClient sampleKlineInstrument none .minute 30000 299999 1500
          (some 301000) 0 = .ok res' ∧
        res.candles ≠ res'.candles ∧ res.requests ≠ res'.requests := by
  -- with pages of two bars the time of ingest and the requests are others
  have hdiffer : (backfillKlines sampleKlineClient sampleKlineInstrument none .minute 30000 299999
        2 (some 301000) 0).toOption.map (·.candles) ≠
      (backfillKlines sampleKlineClient sampleKlineInstrument none .minute 30000 299999 1500
        (some 301000) 0).toOption.map (·.candles) := by decide +kernel
  have hrequests : (backfillKlines sampleKlineClient sampleKlineInstrument none .minute 30000 299999
        2 (some 301000) 0).toOption.map (·.requests) ≠
      (backfillKlines sampleKlineClient sampleKlineInstrument none .minute 30000 299999 1500
        (some 301000) 0).toOption.map (·.requests) := by decide +kernel
  obtain ⟨res, hrun⟩ := sample_returns 2 (by decide)
  obtain ⟨res', hrun'⟩ := sample_returns 1500 (by decide)
  rw [hrun, hrun'] at hdiffer hrequests
  refine ⟨servesKlines_sample, res, res', hrun, hrun', ?_, ?_⟩
  · intro heq
    exact hdiffer (congrArg some heq)
  · intro heq
    exact hrequests (congrArg some heq)

end FuzzHelm
