import FuzzHelm.Ingest.CandleGaps
import FuzzHelm.Ingest.TradeGaps
import FuzzHelm.Lib.Run

namespace FuzzHelm

open Lib

/-!
# What the gap detector accounts for

The books of the gaps, of the candles and of the trades hold together: each detector leaves the
gaps of the other alone, and a status never changes what a gap misses.  So they hold after any
sequence of calls.

* `GapAccounts` — the three books; `GapAccounts.call` — a call keeps them;
* `TradeAccounting`, `trade_accounting` — the ids of the trades;
* `CandleAccounting`, `candle_accounting` — the minutes of the candles.
-/

/-! ### What the calls deliver -/

/-- The candles of the instrument and the timeframe that a call delivers. -/
def DetectorCall.candles (instrument : String) (tf : Timeframe) : DetectorCall → List Candle
  | .onKline _ c => if c.tf ≠ tf.name ∨ c.instrument ≠ instrument then [] else [c]
  | .onTime .. | .onTrade .. | .flush .. | .beginFill .. | .resolve .. => []

/-- The ids of the trades of the instrument that a call delivers. -/
def DetectorCall.tradeIds (instrument : String) : DetectorCall → List ℤ
  | .onTrade _ t => if t.instrument ≠ instrument then [] else [t.aggId]
  | .onTime .. | .onKline .. | .flush .. | .beginFill .. | .resolve .. => []

/-! ### The books together -/

/-- **The books of the detector**, with the gaps that are new from the id `old` on. -/
structure GapAccounts (candles : List Candle) (seen : List ℤ) (old : ℕ) (d : GapDetector) :
    Prop where
  books : Books d
  candles : CandleLedger candles old d
  trades : TradeBooks seen d

/-- What every call leaves alone or moves forward. -/
structure Forward (d d' : GapDetector) : Prop where
  instrument : d'.instrument = d.instrument
  tf : d'.tf = d.tf
  graceNs : d'.graceNs = d.graceNs
  kLo : NotBefore d.kLo d'.kLo
  latestNs : NotBefore d.latestNs d'.latestNs

/-- Nothing has moved. -/
theorem Forward.refl (d : GapDetector) : Forward d d := ⟨rfl, rfl, rfl, .refl _, .refl _⟩

/-- One movement after another. -/
theorem Forward.trans {d d' d'' : GapDetector} (h : Forward d d') (h' : Forward d' d'') :
    Forward d d'' :=
  ⟨h'.instrument.trans h.instrument, h'.tf.trans h.tf, h'.graceNs.trans h.graceNs,
    h.kLo.trans h'.kLo, h.latestNs.trans h'.latestNs⟩

/-- What touches the trades alone moves forward. -/
theorem TradesOnly.forward {d d' : GapDetector} (h : TradesOnly d d') : Forward d d' where
  instrument := h.instrument
  tf := h.tf
  graceNs := h.graceNs
  kLo := h.kLo ▸ .refl _
  latestNs := h.latestNs ▸ .refl _

/-- What touches the candles alone moves forward. -/
theorem KlinesOnly.forward {d d' : GapDetector} (h : KlinesOnly d d')
    (hlo : NotBefore d.kLo d'.kLo) : Forward d d' where
  instrument := h.instrument
  tf := h.tf
  graceNs := h.graceNs
  kLo := hlo
  latestNs := h.latestNs ▸ .refl _

namespace GapAccounts

variable {candles : List Candle} {seen : List ℤ} {old : ℕ} {d d' : GapDetector} (now : ℤ)

/-- Before the first call. -/
theorem init (instrument : String) (tf : Timeframe) (graceMs maxReorderIds : ℤ) (old : ℕ) :
    GapAccounts [] [] old (.new instrument tf graceMs maxReorderIds) where
  books := by
    refine ⟨fun s k gid => ?_, fun gid => rfl, Nat.one_pos, fun gid => ?_, fun gid g hg => ?_⟩
    · exact iff_of_false (by rintro ⟨⟩) (Finset.notMem_empty k)
    · show false = true ↔ 0 < gid ∧ gid < 1
      simp
      omega
    · cases hg
  candles := by
    refine ⟨fun _ => ⟨rfl, rfl, fun m => rfl, fun gid g hg => ?_⟩, fun c hc => ?_⟩
    · cases hg
    · cases hc
  trades := by
    refine ⟨iff_of_true rfl rfl, fun top ht => ?_, fun x => ?_, List.Pairwise.nil, fun x hx => rfl⟩
    · cases ht
    · refine iff_of_false ?_ undelivered_none
      rintro (ho | ⟨_, hin, _⟩)
      · cases ho
      · cases hin

/-- The gaps of this call are old gaps to the next one. -/
theorem relax (h : GapAccounts candles seen old d) {old' : ℕ} (hold : old ≤ old') :
    GapAccounts candles seen old' d where
  books := h.books
  candles := ⟨h.candles.none, fun c hc =>
    (h.candles.some c hc).imp fun _ hbooks => hbooks.relax hold⟩
  trades := h.trades

/-- **What a call does**: it answers `records` and leaves the books in the state `d'`. -/
structure Moved (candles : List Candle) (seen : List ℤ) (old : ℕ) (d : GapDetector)
    (records : List GapRecord) (d' : GapDetector) : Prop where
  accounts : GapAccounts candles seen old d'
  forward : Forward d d'
  filling : KeepsFilling d d'
  nextId : d.nextId ≤ d'.nextId
  listed : Listed d' records

/-- Two parts of one call. -/
theorem Moved.trans {d₁ : GapDetector} {records records' : List GapRecord}
    {candles' : List Candle} {seen' : List ℤ} (h : Moved candles seen old d records d₁)
    (h' : Moved candles' seen' old d₁ records' d') :
    Moved candles' seen' old d (records ++ records') d' where
  accounts := h'.accounts
  forward := h.forward.trans h'.forward
  filling := h.filling.trans h'.filling
  nextId := h.nextId.trans h'.nextId
  listed := (h.listed.mono h'.nextId).append h'.listed

/-- The sweep keeps the accounts. -/
theorem sweep (h : GapAccounts candles seen old d) :
    Moved candles seen old d (d.sweepKlines now).1 (d.sweepKlines now).2 := by
  obtain ⟨hb, hc, honly, hlo, hnext, hlisted⟩ := sweepKlines_books now h.books h.candles
  exact ⟨⟨hb, hc, h.trades.congr honly.tMax honly.pending honly.trades.owner⟩,
    honly.forward hlo, honly.filling, hnext, hlisted⟩

/-- Confirming the candidates keeps the accounts. -/
theorem confirm (h : GapAccounts candles seen old d) (force : Bool) :
    Moved candles seen old d (d.confirmHoles now force).1 (d.confirmHoles now force).2 := by
  obtain ⟨hb, ht, honly, hnext, hlisted⟩ := confirmHoles_books now force h.books h.trades
  exact ⟨⟨hb, h.candles.congr honly.tf honly.kLo honly.kClosed honly.klines, ht⟩, honly.forward,
    honly.filling, hnext, hlisted⟩

/-- What follows a candle keeps the accounts. -/
theorem afterKline (h : GapAccounts candles seen old d) :
    Moved candles seen old d (d.afterKline now).1 (d.afterKline now).2 :=
  have hswept := h.sweep now
  hswept.trans (hswept.accounts.confirm now false)

/-- What follows a trade keeps the accounts. -/
theorem afterTrade (h : GapAccounts candles seen old d) :
    Moved candles seen old d (d.afterTrade now).1 (d.afterTrade now).2 :=
  have hconfirmed := h.confirm now false
  hconfirmed.trans (hconfirmed.accounts.sweep now)

/-- The time of the exchange never moves back. -/
theorem advance (h : GapAccounts candles seen old d) (ts : ℤ) :
    Moved candles seen old d [] (d.advance ts) ∧
      ∃ latest, (d.advance ts).latestNs = some latest ∧ ts ≤ latest := by
  have hb := h.books
  -- the exchange time does not go back
  have hlatest : ∃ latest, (d.advance ts).latestNs = some latest ∧ ts ≤ latest ∧
      ∀ x ∈ d.latestNs, x ≤ latest := by
    unfold GapDetector.advance
    cases d.latestNs with
    | none => exact ⟨ts, rfl, le_refl ts, fun x hx => by cases hx⟩
    | some old =>
      dsimp only
      by_cases hlt : old < ts
      · rw [if_pos hlt]
        exact ⟨ts, rfl, le_refl ts, fun x hx => by cases hx; exact hlt.le⟩
      · rw [if_neg hlt]
        exact ⟨old, rfl, not_lt.mp hlt, fun x hx => by cases hx; exact le_refl _⟩
  obtain ⟨latest, hsome, hts, hold⟩ := hlatest
  refine ⟨⟨⟨⟨hb.owner, hb.paired, hb.start, hb.fresh, hb.filled⟩,
    h.candles.congr rfl rfl rfl (.of_eq rfl rfl), h.trades.congr rfl rfl fun _ => rfl⟩,
    ⟨rfl, rfl, rfl, .refl _, fun x hx => ⟨latest, hsome, hold x hx⟩⟩, .of_eq rfl, le_refl _,
    .nil _⟩,
    latest, hsome, hts⟩

/-- A candle of another instrument or timeframe is not looked at. -/
theorem onKline_other {c : Candle} (hother : c.tf ≠ d.tf.name ∨ c.instrument ≠ d.instrument) :
    d.onKline now c = (.ok [], d) := by
  unfold GapDetector.onKline
  rw [if_pos hother]

/-- **A candle is given**: it is answered, never raised; the sweep begins in a state `d₁` that knows
    the candle and its time. -/
theorem onKline_steps (h : GapAccounts candles seen d.nextId d) {c : Candle}
    (hmatch : ¬(c.tf ≠ d.tf.name ∨ c.instrument ≠ d.instrument)) :
    ∃ changed d₁ latest, d.onKline now c =
        (.ok (changed ++ (d₁.afterKline now).1), (d₁.afterKline now).2) ∧
      Moved (candles ++ [c]) seen d.nextId d changed d₁ ∧ d₁.latestNs = some latest ∧
      c.tsEventNs ≤ latest ∧ d₁.graceNs = d.graceNs := by
  obtain ⟨hadv, latest, hlatest, hts⟩ := h.advance c.tsEventNs
  obtain ⟨changed, d₁, htake, htaken, hfilled⟩ :=
    takeKline_books now hadv.accounts.books hadv.accounts.candles c
  have honly := htaken.only
  unfold GapDetector.onKline
  rw [if_neg hmatch, htake]
  refine ⟨changed, d₁, latest, rfl, ⟨⟨htaken.books, htaken.ledger, hadv.accounts.trades.congr
    honly.tMax honly.pending honly.trades.owner⟩, hadv.forward.trans (honly.forward htaken.bound),
    hadv.filling.trans honly.filling, htaken.nextId.symm.le, .of_filled hfilled⟩,
    honly.latestNs.trans hlatest, hts, honly.graceNs⟩

/-- **A candle** returns and keeps the accounts. -/
theorem onKline (h : GapAccounts candles seen d.nextId d) (c : Candle) :
    ∃ records d', d.onKline now c = (.ok records, d') ∧
      Moved (candles ++ DetectorCall.candles d.instrument d.tf (.onKline now c)) seen d.nextId d
        records d' := by
  rw [DetectorCall.candles]
  by_cases hother : c.tf ≠ d.tf.name ∨ c.instrument ≠ d.instrument
  · rw [if_pos hother, List.append_nil]
    exact ⟨_, _, onKline_other now hother, h, .refl d, .refl d, le_refl _, .nil d⟩
  · obtain ⟨changed, d₁, _, hcall, hmoved, -, -, -⟩ := h.onKline_steps now hother
    rw [if_neg hother]
    exact ⟨_, _, hcall, hmoved.trans (hmoved.accounts.afterKline now)⟩

/-- **The sweep reaches** a minute that begins the grace before the time of the candle. -/
theorem onKline_reach (h : GapAccounts candles seen d.nextId d) {c : Candle}
    (hmatch : ¬(c.tf ≠ d.tf.name ∨ c.instrument ≠ d.instrument)) {o : ℤ}
    (hgrid : ∀ c₀ ∈ (candles ++ [c]).head?, d.tf.ns ∣ o - c₀.openTimeNs)
    (hle : o + d.graceNs ≤ c.tsEventNs) : ∃ lo ∈ (d.onKline now c).2.kLo, o ≤ lo := by
  obtain ⟨changed, d₁, latest, hcall, hmoved, hlatest, hts, hgrace⟩ := h.onKline_steps now hmatch
  rw [hcall]
  cases hhead : (candles ++ [c]).head? with
  | none => simp at hhead
  | some c₀ =>
    obtain ⟨lo, hc⟩ := hmoved.accounts.candles.some c₀ hhead
    have hdvd := hgrid c₀ hhead
    rw [← hmoved.forward.tf] at hdvd
    obtain ⟨lo₁, hlo₁, hle₁⟩ := sweepKlines_reach now hmoved.accounts.books hc hlatest hdvd
      (by rw [hgrace]; exact hle.trans hts)
    -- the confirmation of the candidates for gaps leaves the bound alone
    have hconfirmed := (hmoved.accounts.sweep now).accounts.confirm now false
    obtain ⟨lo₂, hlo₂, hle₂⟩ := hconfirmed.forward.kLo lo₁ hlo₁
    exact ⟨lo₂, hlo₂, hle₁.trans hle₂⟩

/-- **A trade is given**: it is answered, never raised. -/
theorem onTrade (h : GapAccounts candles seen d.nextId d) (t : Trade) :
    ∃ records d', d.onTrade now t = (.ok records, d') ∧
      Moved candles (seen ++ DetectorCall.tradeIds d.instrument (.onTrade now t)) d.nextId d
        records d' := by
  rw [DetectorCall.tradeIds]
  unfold GapDetector.onTrade
  by_cases hother : t.instrument ≠ d.instrument
  · rw [if_pos hother, if_pos hother, List.append_nil]
    exact ⟨_, _, rfl, h, .refl d, .refl d, le_refl _, .nil d⟩
  · obtain ⟨hadv, -⟩ := h.advance t.tsEventNs
    obtain ⟨changed, d₁, htake, htaken, hfilled⟩ :=
      takeTrade_books now hadv.accounts.books hadv.accounts.trades t
    have honly := htaken.only
    have hmoved : Moved candles (seen ++ [t.aggId]) d.nextId d changed d₁ :=
      ⟨⟨htaken.books, hadv.accounts.candles.congr honly.tf honly.kLo honly.kClosed honly.klines,
        htaken.trades⟩, hadv.forward.trans honly.forward, hadv.filling.trans honly.filling,
        htaken.nextId.symm.le,
        .of_filled hfilled⟩
    rw [if_neg hother, if_neg hother, htake]
    exact ⟨_, _, rfl, hmoved.trans (hmoved.accounts.afterTrade now)⟩

/-- The time alone keeps the accounts. -/
theorem onTime (h : GapAccounts candles seen old d) (ts : ℤ) :
    Moved candles seen old d (d.onTime now ts).1 (d.onTime now ts).2 := by
  obtain ⟨hadv, -⟩ := h.advance ts
  exact hadv.trans (hadv.accounts.afterKline now)

/-- A status changes. -/
theorem restated (h : GapAccounts candles seen old d) (hr : Restated d d') :
    GapAccounts candles seen old d' ∧ Forward d d' ∧ d.nextId ≤ d'.nextId := by
  have hst := hr.streams
  refine ⟨⟨hr.books, h.candles.congr hst.tf hst.kLo hst.kClosed (hr.others _),
    h.trades.congr hst.tMax hst.pending fun x => by rw [hr.owner]⟩, ?_, hr.nextId.symm.le⟩
  exact ⟨hst.instrument, hst.tf, hst.graceNs, hst.kLo ▸ .refl _, hst.latestNs ▸ .refl _⟩

/-- **Every call keeps the books**, and the exchange time and the settled bound never move
    back. -/
theorem call (h : GapAccounts candles seen d.nextId d) (c : DetectorCall) :
    GapAccounts (candles ++ c.candles d.instrument d.tf) (seen ++ c.tradeIds d.instrument) d.nextId
        (d.call c).2 ∧
      Forward d (d.call c).2 ∧ d.nextId ≤ (d.call c).2.nextId := by
  -- one case for each call; a refused fill or resolution leaves the detector as it is
  cases c with
  | onTime now ts =>
    simp only [DetectorCall.candles, DetectorCall.tradeIds, List.append_nil]
    have hmoved := h.onTime now ts
    exact ⟨hmoved.accounts, hmoved.forward, hmoved.nextId⟩
  | onKline now c =>
    obtain ⟨records, d', hcall, hmoved⟩ := h.onKline now c
    simp only [GapDetector.call, hcall, DetectorCall.tradeIds, List.append_nil]
    exact ⟨hmoved.accounts, hmoved.forward, hmoved.nextId⟩
  | onTrade now t =>
    obtain ⟨records, d', hcall, hmoved⟩ := h.onTrade now t
    simp only [GapDetector.call, hcall, DetectorCall.candles, List.append_nil]
    exact ⟨hmoved.accounts, hmoved.forward, hmoved.nextId⟩
  | flush now =>
    simp only [DetectorCall.candles, DetectorCall.tradeIds, List.append_nil]
    have hmoved := h.confirm now true
    exact ⟨hmoved.accounts, hmoved.forward, hmoved.nextId⟩
  | beginFill now gid =>
    simp only [GapDetector.call, DetectorCall.candles, DetectorCall.tradeIds, List.append_nil]
    cases hb : d.beginFill now gid with
    | error e => exact ⟨h, .refl d, le_refl _⟩
    | ok r =>
      obtain ⟨g', d'⟩ := r
      exact h.restated (h.books.beginFill hb).1
  | resolve now gid =>
    simp only [GapDetector.call, DetectorCall.candles, DetectorCall.tradeIds, List.append_nil]
    cases hb : d.resolve now gid with
    | error e => exact ⟨h, .refl d, le_refl _⟩
    | ok r =>
      obtain ⟨g', d'⟩ := r
      exact h.restated (h.books.resolve hb).1

end GapAccounts

/-! ### Sequences of calls -/

/-- The candles and the trades that are delivered by calls. -/
def candlesOf (instrument : String) (tf : Timeframe) (calls : List DetectorCall) : List Candle :=
  calls.flatMap (DetectorCall.candles instrument tf)

/-- The identifiers of the trades among some calls. -/
def tradeIdsOf (instrument : String) (calls : List DetectorCall) : List ℤ :=
  calls.flatMap (DetectorCall.tradeIds instrument)

/-- **Run lemma**: the books hold after any sequence of calls. -/
theorem accounts_of_run {instrument : String} {tf : Timeframe} {graceMs maxReorderIds : ℤ}
    {d : GapDetector} {log : DetectorLog}
    (h : Run DetectorStep (.new instrument tf graceMs maxReorderIds) d log) :
    d.instrument = instrument ∧ d.tf = tf ∧
      GapAccounts (candlesOf instrument tf (log.map Entry.call))
        (tradeIdsOf instrument (log.map Entry.call)) d.nextId d := by
  refine Run.invariant (fun d log => d.instrument = instrument ∧ d.tf = tf ∧
    GapAccounts (candlesOf instrument tf (log.map Entry.call))
      (tradeIdsOf instrument (log.map Entry.call)) d.nextId d)
    ⟨rfl, rfl, .init ..⟩ ?_ h
  rintro d log c answer d' ⟨rfl, rfl, hd⟩ hstep
  obtain ⟨hkept, hfwd, hnext⟩ := hd.call c
  have hd' : (d.call c).2 = d' := congrArg Prod.snd hstep
  rw [hd'] at hkept hfwd hnext
  refine ⟨hfwd.instrument, hfwd.tf, ?_⟩
  unfold candlesOf tradeIdsOf at hkept ⊢
  rw [List.map_append, List.map_singleton, List.flatMap_append, List.flatMap_append,
    List.flatMap_singleton, List.flatMap_singleton]
  exact hkept.relax hnext

/-- **The ids of the trades are accounted for**: those between the first one and the highest that
    have not been delivered are exactly those that a candidate or a gap misses, and each is missed
    by one of them. -/
structure TradeAccounting (delivered : List ℤ) (d : GapDetector) : Prop where
  start : d.tMax = none ↔ delivered = []
  top : ∀ top ∈ d.tMax, top ∈ delivered ∧ ∀ x ∈ delivered, x ≤ top
  accounted : ∀ x, Undelivered delivered d.tMax x ↔
    (∃ h ∈ d.pending, x ∈ h.missing) ∨ ∃ gid, x ∈ d.missingIn .trades gid
  holes_apart : d.pending.Pairwise fun h h' => Disjoint h.missing h'.missing
  gaps_apart : ∀ gid gid', gid ≠ gid' →
    Disjoint (d.missingIn .trades gid) (d.missingIn .trades gid')
  holes_gaps_apart : ∀ h ∈ d.pending, ∀ gid, Disjoint h.missing (d.missingIn .trades gid)
  /-- The map from the ids back to their gaps agrees. -/
  owner : ∀ x gid, d.owner .trades x = some gid ↔ x ∈ d.missingIn .trades gid

/-- **Trade accounting**, after any sequence of calls. -/
theorem trade_accounting (instrument : String) (tf : Timeframe) (graceMs maxReorderIds : ℤ)
    (calls : List DetectorCall) :
    TradeAccounting (tradeIdsOf instrument calls)
      (exec GapDetector.call (.new instrument tf graceMs maxReorderIds) calls).1 := by
  have hrun := Run.exec GapDetector.call (.new instrument tf graceMs maxReorderIds) calls
  obtain ⟨-, -, haccounts⟩ := accounts_of_run hrun
  rw [calls_exec] at haccounts
  have hb := haccounts.books
  have ht := haccounts.trades
  exact {
    start := ht.start
    top := ht.top
    accounted := by
      intro x
      rw [← ht.ledger, hb.owned_iff]
      exact or_comm
    holes_apart := ht.apart
    gaps_apart := fun gid gid' hne => hb.disjoint hne
    holes_gaps_apart := by
      intro h hh gid
      rw [Finset.disjoint_left]
      intro x hx hmissing
      rw [← hb.owner, ht.free x ⟨h, hh, hx⟩] at hmissing
      cases hmissing
    owner := fun x gid => hb.owner _ x gid }

/-- **The minutes of the candles are accounted for.** -/
structure CandleAccounting (tf : Timeframe) (candles : List Candle) (d : GapDetector) : Prop where
  /-- A minute from the first candle up to the settled bound has been delivered closed, or it is
      missed by exactly one gap. -/
  accounted : ∀ c ∈ candles.head?, ∀ lo ∈ d.kLo, ∀ m, Slot tf.ns c.openTimeNs lo m →
    (¬Delivered candles m ↔ ∃! gid, m ∈ d.missingIn .klines gid)
  /-- A gap covers a run of minutes, each missed still or delivered. -/
  covers : ∀ gid g, d.gaps.get? gid = some g → g.stream = .klines →
    tf.ns ∣ g.tsHiNs - g.tsLoNs ∧ g.tsLoNs ≤ g.tsHiNs ∧
      g.expectedCount = (g.tsHiNs - g.tsLoNs) / tf.ns + 1 ∧
      (∀ m, Covers tf.ns g m → m ∈ d.missingIn .klines gid ∨ Delivered candles m) ∧
      ∀ m ∈ d.missingIn .klines gid, Covers tf.ns g m

/-- **One call**: the settled bound and the exchange time do not move back, and a gap of candles
    that is opened misses every minute that it covers. -/
structure CandleCall (tf : Timeframe) (e : DetectorEntry) : Prop where
  kLo : NotBefore e.before.kLo e.after.kLo
  latestNs : NotBefore e.before.latestNs e.after.latestNs
  opened : ∀ gid g, e.before.gaps.get? gid = none → e.after.gaps.get? gid = some g →
    g.stream = .klines → ∀ m, m ∈ e.after.missingIn .klines gid ↔ Covers tf.ns g m

namespace GapAccounts

variable {candles : List Candle} {seen : List ℤ} {old : ℕ} {d : GapDetector}

/-- The books of the candles, once there is a gap. -/
theorem candleBooks (h : GapAccounts candles seen old d) {gid : ℕ} {g : GapRecord}
    (hg : d.gaps.get? gid = some g) (hs : g.stream = .klines) : ∃ first lo,
      CandleBooks (Delivered candles) first lo [] old d := by
  cases hcandles : candles with
  | nil => exact absurd hs ((h.candles.none hcandles).gaps gid g hg)
  | cons c cs =>
    obtain ⟨lo, hc⟩ := h.candles.some c (by rw [hcandles]; exact rfl)
    exact ⟨_, lo, hcandles ▸ hc⟩

/-- The accounts give the accounting of the candles. -/
theorem candleAccounting (h : GapAccounts candles seen old d) :
    CandleAccounting d.tf candles d where
  accounted := by
    intro c hc lo hlo m hslot
    obtain ⟨lo', hbooks⟩ := h.candles.some c hc
    rw [hbooks.kLo] at hlo
    cases hlo
    have hsettled := hbooks.settled m hslot
    simp only [List.not_mem_nil, or_false] at hsettled
    rw [← hsettled, h.books.owned_iff]
    constructor
    · rintro ⟨gid, hm⟩
      exact ⟨gid, hm, fun gid' hm' => h.books.unique hm' hm⟩
    · rintro ⟨gid, hm, -⟩
      exact ⟨gid, hm⟩
  covers := by
    intro gid g hg hs
    obtain ⟨first, lo, hbooks⟩ := h.candleBooks hg hs
    have hgap := hbooks.gaps gid g hg hs
    obtain ⟨n, hhi, hcount⟩ := hgap.span
    have hpos := d.tf.ns_pos
    have hlength : g.tsHiNs - g.tsLoNs = n * d.tf.ns := by
      rw [hhi]
      ring
    have hnonneg : 0 ≤ n * d.tf.ns := mul_nonneg (Int.natCast_nonneg n) hpos.le
    refine ⟨⟨n, by rw [hlength, mul_comm]⟩, by omega, ?_, fun m hm => ?_, fun m hm => ?_⟩
    · rw [hlength, Int.mul_ediv_cancel _ hpos.ne', hcount]
    · exact (hgap.covered m hm).imp (h.books.owner _ _ _).mp fun hold => hold.1
    · exact hgap.owned m ((h.books.owner _ _ _).mpr hm)

/-- **Step lemma**: a call, for the candles. -/
theorem candleCall (h : GapAccounts candles seen d.nextId d) (c : DetectorCall) :
    CandleCall d.tf ⟨d, c, (d.call c).1, (d.call c).2⟩ := by
  obtain ⟨hkept, hfwd, -⟩ := h.call c
  refine ⟨hfwd.kLo, hfwd.latestNs, fun gid g hnone hg hs m => ?_⟩
  obtain ⟨first, lo, hbooks⟩ := hkept.candleBooks hg hs
  have hgap := hbooks.gaps gid g hg hs
  rw [← hfwd.tf, ← hkept.books.owner]
  refine ⟨hgap.owned m, fun hm => (hgap.covered m hm).resolve_right fun hold => ?_⟩
  -- the gaps from before the call are there in the state before it
  have hsome : (d.gaps.get? gid).isSome := by
    rw [h.books.fresh]
    refine ⟨?_, hold.2⟩
    have hafter : ((d.call c).2.gaps.get? gid).isSome := by
      change (d.call c).2.gaps.get? gid = some g at hg
      rw [hg]
      rfl
    exact ((hkept.books.fresh gid).mp hafter).1
  change d.gaps.get? gid = none at hnone
  rw [hnone] at hsome
  cases hsome

end GapAccounts

/-- **Candle accounting**, after any sequence of calls and of every call in it. -/
theorem candle_accounting (instrument : String) (tf : Timeframe) (graceMs maxReorderIds : ℤ)
    (calls : List DetectorCall) :
    CandleAccounting tf (candlesOf instrument tf calls)
        (exec GapDetector.call (.new instrument tf graceMs maxReorderIds) calls).1 ∧
      ∀ e ∈ (exec GapDetector.call (.new instrument tf graceMs maxReorderIds) calls).2,
        CandleCall tf e := by
  have hrun := Run.exec GapDetector.call (.new instrument tf graceMs maxReorderIds) calls
  constructor
  · obtain ⟨-, htf, haccounts⟩ := accounts_of_run hrun
    rw [calls_exec] at haccounts
    have hfinal := haccounts.candleAccounting
    rw [htf] at hfinal
    exact hfinal
  -- the accounts of the run before an entry give what the entry did
  · intro e he
    obtain ⟨pre, post, hlog⟩ := List.append_of_mem he
    obtain ⟨hbefore, hcall⟩ := hrun.before_entry hlog
    obtain ⟨-, htf, haccounts⟩ := accounts_of_run hbefore
    obtain ⟨before, c, answer, after⟩ := e
    have hone := haccounts.candleCall c
    change before.call c = (answer, after) at hcall
    rw [hcall] at hone
    exact htf ▸ hone

end FuzzHelm
