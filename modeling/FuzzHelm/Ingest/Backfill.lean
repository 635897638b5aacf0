import FuzzHelm.Ingest.Klines
import FuzzHelm.Lib.Dict
import FuzzHelm.Lib.Holes

namespace FuzzHelm

open Lib

/-!
# Candles of the past

The backfill asks for the candles of a range page by page.  Every page but the first one begins
at the last bar of the one before, so that bar is answered twice, and the two answers are
compared.

* `detectGaps` — the bars that no candle of a series covers;
* `seamOf`, `takePage` — where two pages meet, and what a page adds;
* `klineLoop` / `backfillKlines` — the loop over the pages, which every server lets end;
* `Partitions` — candles and gaps that share a grid between them;
* `partitions_onGrid` — the gaps of a series on the grid are such a part.
-/

/-! ### Gaps -/

/-- A row of `ingest_gap`: the first and the last bar that are missing. -/
structure Gap where
  instrument : String
  tf : String
  tsLoNs : ℤ
  tsHiNs : ℤ
  expectedCount : ℤ
  stream : Stream
  detector : GapDetectorKind
  status : GapStatus
  filledRows : ℕ
  attempts : ℕ
  deriving DecidableEq

/-- The gap `[lo, hi]`, with the defaults of the source. -/
def Gap.new (name : String) (tf : Timeframe) (lo hi : ℤ) : Gap where
  instrument := name
  tf := tf.name
  tsLoNs := lo
  tsHiNs := hi
  expectedCount := (hi - lo) / tf.ns + 1
  stream := .klines
  detector := .time
  status := .opened
  filledRows := 0
  attempts := 0

/-- The loop of `detect_gaps`: the gaps before each bar, and the last bar. -/
def gapLoop (name : String) (tf : Timeframe) : Option ℤ → List ℤ →
    Except PyError (List Gap × Option ℤ)
  | prev, [] => .ok ([], prev)
  | none, o :: opens => gapLoop name tf (some o) opens
  | some prev, o :: opens =>
    if (o - prev) % tf.ns ≠ 0 then
      .error (.valueError
        ("open_time " ++ toString o ++ " is not aligned to " ++ tf.name ++ " grid"))
    else do
      let rest ← gapLoop name tf (some o) opens
      let before := if tf.ns < o - prev then [.new name tf (prev + tf.ns) (o - tf.ns)] else []
      return (before ++ rest.1, rest.2)

/-- The end of `detect_gaps`: the gap behind the last bar. -/
def gapsBehind (name : String) (tf : Timeframe) (prev expectedFromNs expectedToNs : Option ℤ) :
    List Gap :=
  match expectedToNs, prev, expectedFromNs with
  | none, _, _ => []
  | some hi, some prev, _ => if prev < hi then [.new name tf (prev + tf.ns) hi] else []
  | some hi, none, some lo => if lo ≤ hi then [.new name tf lo hi] else []
  | some _, none, none => []

/-- `sorted(set(...))`: ascending, and nothing twice. -/
def sortedSet (xs : List ℤ) : List ℤ := xs.dedup.insertionSort (· ≤ ·)

/-- `detect_gaps`: the holes between the candles that there are. -/
def detectGaps (candles : List Candle) (tf : Timeframe) (instrument : String)
    (expectedFromNs expectedToNs : Option ℤ) : Except PyError (List Gap) :=
  let name := if instrument ≠ "" then instrument else (candles.head?.map (·.instrument)).getD ""
  if name = "" then .error (.valueError "instrument is required when candles are empty")
  else do
    let opens := sortedSet ((candles.filter fun c => c.tf = tf.name).map Candle.openTimeNs)
    let (gaps, last) ← gapLoop name tf (expectedFromNs.map fun lo => lo - tf.ns) opens
    return gaps ++ gapsBehind name tf last expectedFromNs expectedToNs

/-! ### Pages -/

/-- What the seam of two pages is like. -/
inductive SeamStatus where
  | ok
  | mismatch
  | missing
  deriving DecidableEq, Repr

/-- `Segment`: one page of rows, as it was fetched. -/
structure Segment where
  index : ℕ
  startMs : ℤ
  limit : ℤ
  rows : ℕ
  firstOpenMs : Option ℤ
  lastOpenMs : Option ℤ
  seam : Option SeamStatus
  deriving DecidableEq

/-- `OverlapMismatch`: the row that both pages have, in two versions. -/
structure OverlapMismatch where
  openTimeMs : ℤ
  segment : ℕ
  previous : RestRow
  current : RestRow
  deriving DecidableEq

/-- The other side of the loop: the answer to the n-th request, which may be anything, and the
    clock when it has come; `startNs` is the clock before the first one. -/
structure KlineClient where
  klines : ℕ → ℤ → ℤ → ℤ → Except PyError (List RestRow)
  nowNs : ℕ → ℤ
  startNs : ℤ

/-- `_row_open`: the time of a row, which must be a whole number. -/
def rowOpen (i : ℕ) : RestRow → Except PyError ℤ
  | .array (.int n :: _) => .ok n
  | _ => .error (.validationError ("[" ++ toString i ++ "][0]"))

/-- The rows of an answer with their opening times, from the row `i` on. -/
def readOpens : ℕ → List RestRow → Except PyError (List (ℤ × RestRow))
  | _, [] => .ok []
  | i, row :: rows => do
    let o ← rowOpen i row
    let rest ← readOpens (i + 1) rows
    return (o, row) :: rest

/-- `_ceil_to`: the next place of the grid. -/
def ceilTo (x step : ℤ) : ℤ := -(-x / step) * step

/-- `_floor_to`: the place of the grid before. -/
def floorTo (x step : ℤ) : ℤ := x / step * step

/-- The range that is asked for, and the time of the exchange. -/
structure KlineRange where
  tf : Timeframe
  startMs : ℤ
  endMs : ℤ
  nowMs : ℤ

namespace KlineRange

/-- The first bar that is expected. -/
def firstExpected (r : KlineRange) : ℤ := ceilTo r.startMs r.tf.ms

/-- The last bar that is expected: the last one of the range that has ended. -/
def lastExpected (r : KlineRange) : ℤ :=
  min (floorTo r.endMs r.tf.ms) (floorTo r.nowMs r.tf.ms - r.tf.ms)

end KlineRange

/-- What the loop has gathered. -/
structure KlinePages where
  byOpen : Dict ℤ Candle
  segments : List Segment
  mismatches : List OverlapMismatch

/-- Where a page meets the last row of the one before. -/
def seamOf (prevLast : Option (ℤ × RestRow)) (page : List (ℤ × RestRow)) : Option SeamStatus :=
  prevLast.map fun prev =>
    match page.head? with
    | some first =>
      if first.1 = prev.1 then if first.2 = prev.2 then .ok else .mismatch else .missing
    | none => .missing

/-- The mismatch that a page shows. -/
def mismatchOf (segment : ℕ) (prevLast : Option (ℤ × RestRow)) (page : List (ℤ × RestRow)) :
    List OverlapMismatch :=
  match prevLast, page.head? with
  | some prev, some first =>
    if seamOf prevLast page = some .mismatch then [⟨first.1, segment, prev.2, first.2⟩] else []
  | _, _ => []

/-- The rows of a page that are new: where it does not repeat the last row as it was, the repeated
    one stays, and replaces the older version. -/
def newRows (prevLast : Option (ℤ × RestRow)) (page : List (ℤ × RestRow)) :
    List (ℤ × RestRow) :=
  if seamOf prevLast page = some .ok then page.tail else page

/-- The candles that are over, from the first bar that is expected on. -/
def KlineRange.fresh (r : KlineRange) (candles : List Candle) : List Candle :=
  candles.filter fun c => c.isClosed && decide (r.firstExpected * nsPerMs ≤ c.openTimeNs)

/-- The callback, which is told of a page that brings something. -/
def callPage (onPage : Option (List Candle → Except PyError Unit)) (fresh : List Candle) :
    Except PyError Unit :=
  if fresh ≠ [] then onPage.elim (.ok ()) fun call => call fresh else .ok ()

/-- What has been gathered with one more page. -/
def KlinePages.add (st : KlinePages) (limit : ℤ) (prevLast : Option (ℤ × RestRow)) (cursor : ℤ)
    (page : List (ℤ × RestRow)) (fresh : List Candle) : KlinePages where
  byOpen := fresh.foldl (fun d c => d.insert c.openTimeNs c) st.byOpen
  segments := st.segments ++ [⟨st.segments.length, cursor, limit, page.length,
    page.head?.map Prod.fst, page.getLast?.map Prod.fst, seamOf prevLast page⟩]
  mismatches := st.mismatches ++ mismatchOf st.segments.length prevLast page

section Loop

variable (client : KlineClient) (instrument : KlineInstrument)
  (onPage : Option (List Candle → Except PyError Unit)) (r : KlineRange) (limit : ℤ)

/-- What a page adds to the pages before. -/
def takePage (prevLast : Option (ℤ × RestRow)) (cursor tsIngestNs : ℤ)
    (page : List (ℤ × RestRow)) (st : KlinePages) : Except PyError KlinePages := do
  let candles ← normalizeRestKlines ((newRows prevLast page).map Prod.snd) instrument tsIngestNs
    r.tf (some r.nowMs)
  callPage onPage (r.fresh candles)
  return st.add limit prevLast cursor page (r.fresh candles)

/-- One request and its page. -/
def fetchKlinePage (prevLast : Option (ℤ × RestRow)) (cursor : ℤ) (requests : ℕ)
    (st : KlinePages) : Except PyError (List (ℤ × RestRow) × KlinePages) := do
  let rows ← client.klines requests cursor r.endMs limit
  let page ← readOpens 0 rows
  let st' ← takePage instrument onPage r limit prevLast cursor (client.nowNs requests) page st
  return (page, st')

/-- The page that ends with the row `last` is the last one. -/
def lastPage (prevLast : Option (ℤ × RestRow)) (page : List (ℤ × RestRow))
    (last : ℤ × RestRow) : Prop :=
  (page.length : ℤ) < limit ∨ r.lastExpected ≤ last.1 ∨ ∃ prev ∈ prevLast, last.1 ≤ prev.1

/-- Whether a page is the last one can be computed. -/
instance (prevLast : Option (ℤ × RestRow)) (page : List (ℤ × RestRow)) (last : ℤ × RestRow) :
    Decidable (lastPage r limit prevLast page last) :=
  inferInstanceAs (Decidable (_ ∨ _ ∨ _))

end Loop

/-- How many answers can matter from a request on, by the last row of the answer to it. -/
def KlineClient.reach (client : KlineClient) (r : KlineRange) (limit cursor : ℤ)
    (requests : ℕ) : ℕ :=
  match (client.klines requests cursor r.endMs limit).toOption.bind List.getLast? with
  | some row => (r.lastExpected - row.openMs).toNat + 1
  | none => 1

section Loop

variable {client : KlineClient} {instrument : KlineInstrument}
  {onPage : Option (List Candle → Except PyError Unit)} {r : KlineRange} {limit cursor : ℤ}
  {prevLast : Option (ℤ × RestRow)} {requests : ℕ} {st st' : KlinePages}
  {page : List (ℤ × RestRow)} {last : ℤ × RestRow}

/-- The opening times of a page are those of its rows. -/
theorem readOpens_eq {rows : List RestRow} : ∀ {i : ℕ} {page : List (ℤ × RestRow)},
    readOpens i rows = .ok page → page = rows.map fun row => (row.openMs, row) := by
  induction rows with
  | nil =>
    intro i page h
    cases h
    rfl
  | cons row rows ih =>
    intro i page h
    rw [readOpens, bind_eq_ok] at h
    obtain ⟨o, ho, h⟩ := h
    rw [bind_eq_ok] at h
    obtain ⟨rest, hrest, h⟩ := h
    cases h
    have hopen : o = row.openMs := by
      unfold rowOpen at ho
      split at ho
      · cases ho
        rfl
      · cases ho
    rw [List.map_cons, ← ih hrest, hopen]

/-- A page ends where its answer ends. -/
theorem reach_of_last
    (h : fetchKlinePage client instrument onPage r limit prevLast cursor requests st =
      .ok (page, st'))
    (hlast : page.getLast? = some last) :
    client.reach r limit cursor requests = (r.lastExpected - last.1).toNat + 1 := by
  rw [fetchKlinePage, bind_eq_ok] at h
  obtain ⟨rows, hrows, h⟩ := h
  rw [bind_eq_ok] at h
  obtain ⟨page', hpage, h⟩ := h
  rw [bind_eq_ok] at h
  obtain ⟨st'', -, h⟩ := h
  cases h
  rw [readOpens_eq hpage, List.getLast?_map, Option.map_eq_some_iff] at hlast
  obtain ⟨row, hrow, rfl⟩ := hlast
  rw [KlineClient.reach, hrows]
  show (match rows.getLast? with | some row => _ | none => 1) = _
  rw [hrow]

variable (client instrument onPage r limit)

/-- The loop over the pages: a page that goes on has brought the last bar forward. -/
def klineLoop (prevLast : Option (ℤ × RestRow)) (cursor : ℤ) (requests : ℕ) (st : KlinePages) :
    Except PyError (KlinePages × ℕ) :=
  match _hfetch : fetchKlinePage client instrument onPage r limit prevLast cursor requests st with
  | .error e => .error e
  | .ok (page, st') =>
    match hlast : page.getLast? with
    | none => .ok (st', requests + 1)
    | some last =>
      if lastPage r limit prevLast page last then .ok (st', requests + 1)
      else klineLoop (some last) last.1 (requests + 1) st'
termination_by prevLast.elim (client.reach r limit cursor requests) fun prev =>
  (r.lastExpected - prev.1).toNat
decreasing_by
  rename_i hgo
  simp only [lastPage, not_or, not_le, not_exists, not_and] at hgo
  show (r.lastExpected - last.1).toNat < _
  cases prevLast with
  | none =>
    show _ < client.reach r limit cursor requests
    rw [reach_of_last _hfetch hlast]
    omega
  | some prev =>
    have hforward := hgo.2.2 prev rfl
    show _ < (r.lastExpected - prev.1).toNat
    omega

/-- One turn of the loop: the page, and from there on. -/
theorem klineLoop_eq (prevLast : Option (ℤ × RestRow)) (cursor : ℤ) (requests : ℕ)
    (st : KlinePages) : klineLoop client instrument onPage r limit prevLast cursor requests st =
      match fetchKlinePage client instrument onPage r limit prevLast cursor requests st with
      | .error e => .error e
      | .ok (page, st') =>
        match page.getLast? with
        | none => .ok (st', requests + 1)
        | some last =>
          if lastPage r limit prevLast page last then .ok (st', requests + 1)
          else
            klineLoop client instrument onPage r limit (some last) last.1 (requests + 1) st' := by
  rw [klineLoop]
  -- the definition with its proof arguments left out
  split
  · rename_i hfetch
    rw [hfetch]
  · rename_i page st' hfetch
    rw [hfetch]
    split
    · rename_i hlast
      simp only [hlast]
    · rename_i last hlast
      simp only [hlast]

end Loop

/-- `BackfillResult`: the candles, the pages they came in, and what is still missing. -/
structure BackfillResult where
  candles : List Candle
  gaps : List Gap
  segments : List Segment
  overlapMismatches : List OverlapMismatch
  requests : ℕ

/-- `BackfillResult.ok`: nothing is missing, and no two pages contradict each other. -/
def BackfillResult.ok (res : BackfillResult) : Bool :=
  res.gaps.isEmpty && res.overlapMismatches.isEmpty &&
    res.segments.all fun s => s.seam = none || s.seam = some .ok

/-- The candles of the loop in the order of their opening times. -/
def KlinePages.series (st : KlinePages) : List Candle :=
  (st.byOpen.entries.insertionSort fun a b => a.1 ≤ b.1).map Prod.snd

/-- The gaps of a series in the range; where nothing is expected there is none. -/
def KlineRange.gapsOf (r : KlineRange) (name : String) (series : List Candle) :
    Except PyError (List Gap) :=
  if r.firstExpected ≤ r.lastExpected then
    detectGaps series r.tf name (some (r.firstExpected * nsPerMs))
      (some (r.lastExpected * nsPerMs))
  else .ok []

/-- The greatest page that the exchange answers. -/
def maxLimit : ℤ := 1500

/-- The range of a backfill; without `nowMs` the time of the exchange is that of the local clock,
    less a guard. -/
def KlineClient.range (client : KlineClient) (tf : Timeframe) (startMs endMs : ℤ)
    (nowMs : Option ℤ) (clockGuardMs : ℤ) : KlineRange :=
  ⟨tf, startMs, endMs, nowMs.getD (client.startNs / nsPerMs - clockGuardMs)⟩

/-- `backfill_klines`: the range is widened to the grid, fetched page by page, and searched for
    gaps. -/
def backfillKlines (client : KlineClient) (instrument : KlineInstrument)
    (onPage : Option (List Candle → Except PyError Unit)) (tf : Timeframe)
    (startMs endMs limit : ℤ) (nowMs : Option ℤ) (clockGuardMs : ℤ) :
    Except PyError BackfillResult :=
  if endMs < startMs then .error (.valueError "end_ms < start_ms")
  else if ¬ (2 ≤ limit ∧ limit ≤ maxLimit) then
    .error (.valueError "limit must be in [2, 1500] (one bar of every page is the overlap)")
  else if clockGuardMs < 0 then .error (.valueError "clock_guard_ms must be >= 0")
  else do
    let r := client.range tf startMs endMs nowMs clockGuardMs
    let (st, requests) ← klineLoop client instrument onPage r limit none startMs 0 ⟨∅, [], []⟩
    let gaps ← r.gapsOf instrument.symbolCanon st.series
    return ⟨st.series, gaps, st.segments, st.mismatches, requests⟩

/-! ### The gaps of a series -/

/-- The minute `m` lies in the gap. -/
def Gap.Covers (tf : Timeframe) (g : Gap) (m : ℤ) : Prop :=
  g.tsLoNs ≤ m ∧ m ≤ g.tsHiNs ∧ tf.ns ∣ m - g.tsLoNs

/-- **The candles and the gaps partition the grid** of the bars from `lo` to `hi`: every one of
    them is in one candle or in one gap.  Between two gaps there is a candle, and a gap reaches
    from one candle or end of the grid to the next. -/
structure Partitions (tf : Timeframe) (lo hi : ℤ) (candles : List Candle) (gaps : List Gap) :
    Prop where
  ascending : Ascending Candle.openTimeNs candles
  onGrid : ∀ c ∈ candles, lo ≤ c.openTimeNs ∧ c.openTimeNs ≤ hi ∧ tf.ns ∣ c.openTimeNs - lo
  within : ∀ g ∈ gaps, lo ≤ g.tsLoNs ∧ g.tsLoNs ≤ g.tsHiNs ∧ g.tsHiNs ≤ hi ∧
    tf.ns ∣ g.tsLoNs - lo ∧ g.tsHiNs = g.tsLoNs + (g.expectedCount - 1) * tf.ns
  separated : gaps.Pairwise fun g g' =>
    ∃ c ∈ candles, g.tsHiNs < c.openTimeNs ∧ c.openTimeNs < g'.tsLoNs
  maximal : ∀ g ∈ gaps, (g.tsLoNs = lo ∨ ∃ c ∈ candles, c.openTimeNs + tf.ns = g.tsLoNs) ∧
    (g.tsHiNs = hi ∨ ∃ c ∈ candles, c.openTimeNs = g.tsHiNs + tf.ns)
  once : ∀ m, lo ≤ m → m ≤ hi → tf.ns ∣ m - lo →
    ((∃! c, c ∈ candles ∧ c.openTimeNs = m) ∧ ∀ g ∈ gaps, ¬g.Covers tf m) ∨
      ((∃! g, g ∈ gaps ∧ g.Covers tf m) ∧ ∀ c ∈ candles, c.openTimeNs ≠ m)

section Gaps

variable {tf : Timeframe} {name : String} {lo hi : ℤ} {candles : List Candle}

/-- The loop over rising times finds the holes between them. -/
theorem gapLoop_rising {prev : ℤ} {opens : List ℤ} (h : Rising tf.ns prev opens) :
    gapLoop name tf (some prev) opens =
      .ok ((holes tf.ns prev opens).map fun g => .new name tf g.1 g.2,
        some (opens.getLastD prev)) := by
  induction h with
  | nil => rfl
  | @cons prev x xs lt dvd _ ih =>
    rw [gapLoop, if_neg (not_not.mpr (Int.emod_eq_zero_of_dvd dvd)), ih]
    show Except.ok _ = _
    rw [holes, List.map_append, List.getLastD_cons]
    split
    · rfl
    · rfl

/-- Times that ascend are sorted already. -/
theorem sortedSet_of_ascending {xs : List ℤ} (h : xs.Pairwise (· < ·)) : sortedSet xs = xs := by
  unfold sortedSet
  rw [List.dedup_eq_self.mpr (h.imp ne_of_lt)]
  exact (h.imp le_of_lt).insertionSort_eq

/-- In an ascending series an opening time stands for one candle. -/
theorem candle_of_open (hasc : Ascending Candle.openTimeNs candles) {c c' : Candle}
    (hc : c ∈ candles) (hc' : c' ∈ candles) (heq : c.openTimeNs = c'.openTimeNs) : c = c' := by
  have hnodup : (candles.map Candle.openTimeNs).Nodup :=
    List.pairwise_map.mpr (hasc.imp ne_of_lt)
  exact List.inj_on_of_nodup_map hnodup hc hc' heq

/-- With both ends given, the gaps are the holes of the grid. -/
theorem detectGaps_onGrid (hname : name ≠ "") (htf : ∀ c ∈ candles, c.tf = tf.name)
    (hasc : Ascending Candle.openTimeNs candles)
    (h : OnGrid tf.ns lo hi (candles.map Candle.openTimeNs)) :
    detectGaps candles tf name (some lo) (some hi) =
      .ok ((gridHoles tf.ns lo hi (candles.map Candle.openTimeNs)).map
        fun g => .new name tf g.1 g.2) := by
  have hopens : sortedSet ((candles.filter fun c => c.tf = tf.name).map Candle.openTimeNs) =
      candles.map Candle.openTimeNs := by
    rw [List.filter_eq_self.mpr (by simpa using htf)]
    exact sortedSet_of_ascending (List.pairwise_map.mpr hasc)
  have hwide (prev : ℤ) : tf.ns < hi + tf.ns - prev ↔ prev < hi := by omega
  unfold detectGaps
  simp only [if_pos hname, if_neg hname, hopens, Option.map_some]
  rw [gapLoop_rising (Rising.init h), gridHoles, holes_concat]
  show Except.ok _ = _
  rw [List.map_append]
  congr 2
  simp only [gapsBehind, hwide, add_sub_cancel_right]
  split
  · rfl
  · rfl

/-- **The gaps of a series** partition the grid with its candles. -/
theorem partitions_onGrid (name : String) (hasc : Ascending Candle.openTimeNs candles)
    (h : OnGrid tf.ns lo hi (candles.map Candle.openTimeNs)) :
    Partitions tf lo hi candles
      ((gridHoles tf.ns lo hi (candles.map Candle.openTimeNs)).map
        fun g => .new name tf g.1 g.2) := by
  have hpos := tf.ns_pos
  constructor
  case ascending => exact hasc
  case onGrid =>
    intro c hc
    exact h.elem _ (List.mem_map_of_mem hc)
  case within =>
    intro g hg
    obtain ⟨⟨a, b⟩, hab, rfl⟩ := List.mem_map.mp hg
    obtain ⟨hlo, hle, hhi, hdvd, hwidth⟩ := h.within hpos hab
    refine ⟨hlo, hle, hhi, hdvd, ?_⟩
    show b = a + ((b - a) / tf.ns + 1 - 1) * tf.ns
    rw [add_sub_cancel_right, Int.ediv_mul_cancel hwidth]
    ring
  case separated =>
    apply List.pairwise_map.mpr
    apply (h.apart hpos).imp
    rintro g g' ⟨x, hx, hlt⟩
    obtain ⟨c, hc, rfl⟩ := List.mem_map.mp hx
    exact ⟨c, hc, hlt⟩
  case maximal =>
    intro g hg
    obtain ⟨⟨a, b⟩, hab, rfl⟩ := List.mem_map.mp hg
    obtain ⟨hleft, hright⟩ := h.ends hpos hab
    refine ⟨hleft.imp id fun hx => ?_, hright.imp id fun hx => List.mem_map.mp hx⟩
    obtain ⟨c, hc, hopen⟩ := List.mem_map.mp hx
    refine ⟨c, hc, ?_⟩
    rw [hopen]
    exact sub_add_cancel ..
  case once =>
    intro m hlo hhi hdvd
    -- a gap covers the minute exactly when its hole contains it
    have hcovers {g : ℤ × ℤ} (hg : g ∈ gridHoles tf.ns lo hi (candles.map Candle.openTimeNs)) :
        Gap.Covers tf (.new name tf g.1 g.2) m ↔ g.1 ≤ m ∧ m ≤ g.2 :=
      ⟨fun hc => ⟨hc.1, hc.2.1⟩,
        fun hc => ⟨hc.1, hc.2, dvd_sub_back (h.within hpos hg).2.2.2.1 hdvd⟩⟩
    rcases h.once hpos hlo hhi hdvd with ⟨hin, havoid⟩ | ⟨hout, g, hg, hin, huniq⟩
    · left
      obtain ⟨c, hc, hopen⟩ := List.mem_map.mp hin
      refine ⟨⟨c, ⟨hc, hopen⟩, ?_⟩, ?_⟩
      · rintro c' ⟨hc', hopen'⟩
        exact candle_of_open hasc hc' hc (hopen'.trans hopen.symm)
      · intro g hg hcov
        obtain ⟨g, hg', rfl⟩ := List.mem_map.mp hg
        exact havoid g hg' ((hcovers hg').mp hcov)
    · right
      refine ⟨⟨.new name tf g.1 g.2, ⟨List.mem_map_of_mem hg, (hcovers hg).mpr hin⟩, ?_⟩, ?_⟩
      · rintro g' ⟨hg', hcov⟩
        obtain ⟨g', hmem, rfl⟩ := List.mem_map.mp hg'
        rw [huniq g' hmem ((hcovers hmem).mp hcov)]
      · intro c hc hopen
        exact hout (List.mem_map.mpr ⟨c, hc, hopen⟩)

end Gaps

end FuzzHelm
