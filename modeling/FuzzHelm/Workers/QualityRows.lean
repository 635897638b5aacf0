import FuzzHelm.Ingest.Pipeline
import FuzzHelm.Quality.DqScore

namespace FuzzHelm

open Lib

/-!
# The quality rows of the hours

The pipeline counts what its sinks are given by hours, and the worker stores the row of an hour
once, when a candle closes past its end.

* `Noted` — a call of a sink, with what the accounts of the hours read at it;
* `HourQuality` — the accounts and the rows; `note` — what a call does to them;
* `Calm` — when a call leaves the rows that are stored alone;
* `FinalRows` — the stored rows are those of the accounts; `FinalRows.note` — a calm call keeps
  that.
-/

/-- A call of a sink: whether it comes from the stream, the time that an invalid event is counted
    at, and the exchange time. -/
structure Noted where
  call : SinkCall
  fromStream : Bool
  bucketNs : ℤ
  exchangeNs : Option ℤ

/-- The accounts of the hours, the open time of the first candle, the hours that have been written,
    and their rows in the table. -/
structure HourQuality where
  dq : Dict ℤ DqAccumulator
  firstOpenNs : Option ℤ
  written : Finset ℤ
  rows : Dict ℤ DqRow

/-- The score of an hour. -/
structure HourDq where
  hourStartNs : ℤ
  score : DqScore

/-- `_hour`: the hour that a time lies in, by its start. -/
def hourOf (tNs : ℤ) : ℤ := tNs - tNs % hourNs

/-- The hours that an interval touches. -/
def touchedHours (loNs hiNs : ℤ) : List ℤ :=
  minutes hourNs (hourOf loNs) ((max loNs (hiNs - 1) - hourOf loNs) / hourNs + 1).toNat

/-- The end of a gap: that of candles ends with its last one. -/
def GapRecord.endNs (tf : Timeframe) (g : GapRecord) : ℤ :=
  g.tsHiNs + if g.stream = .klines then tf.ns else 0

/-- The lag of an event. -/
def MarketEvent.lagMs (ev : MarketEvent) : ℚ := (ev.tsIngestNs - ev.tsEventNs : ℤ) / 1000000

namespace HourQuality

/-- Before the session nothing was counted. -/
def new : HourQuality := ⟨∅, none, ∅, ∅⟩

variable (cfg : Scoring) (tf : Timeframe) (q : HourQuality)

/-! ### The accounts -/

/-- `_acc`: the account of an hour, new or not. -/
def acc (tNs : ℤ) : DqAccumulator := (q.dq.get? (hourOf tNs)).getD (.new (hourOf tNs) hourNs)

/-- The account of the hour of `tNs` is changed by `f`. -/
def account (tNs : ℤ) (f : DqAccumulator → DqAccumulator) : HourQuality :=
  { q with dq := q.dq.insert (hourOf tNs) (f (q.acc tNs)) }

/-- The number of candles that are expected in an hour, when the exchange time is `exchangeNs`. -/
def expected (exchangeNs : Option ℤ) (h : ℤ) : ℤ :=
  match q.firstOpenNs, exchangeNs with
  | some first, some latest =>
    let lo := max h first
    let hi := min (h + hourNs) (latest - tf.ns + 1)
    if lo < hi then (hi - lo + tf.ns - 1) / tf.ns else 0
  | none, _ => 0
  | some _, none => 0

/-- `dq_scores`: the scores of all hours, in the order of time. -/
def dqScores (exchangeNs : Option ℤ) : List HourDq :=
  (q.dq.keys.insertionSort (· ≤ ·)).filterMap fun h =>
    (q.dq.get? h).map fun a => ⟨h, dqScore cfg (a.inputs (q.expected tf exchangeNs h))⟩

/-- The hours that `write_complete_hours` writes. -/
def dueHours (latestNs : ℤ) (exchangeNs : Option ℤ) : List HourDq :=
  (q.dqScores cfg tf exchangeNs).filter fun x =>
    decide (x.hourStartNs + hourNs ≤ latestNs ∧ x.hourStartNs ∉ q.written)

/-- The rows of some hours are stored, each over the one before. -/
def store (hours : List HourDq) : HourQuality :=
  { q with
    written := q.written ∪ (hours.map HourDq.hourStartNs).toFinset
    rows := hours.foldl (fun rows x => rows.insert x.hourStartNs x.score.asRow) q.rows }

/-- `write_complete_hours`: the hours that are over by the exchange, once each. -/
def writeCompleteHours (latestNs exchangeNs : Option ℤ) : HourQuality :=
  match latestNs with
  | none => q
  | some latestNs => q.store (q.dueHours cfg tf latestNs exchangeNs)

/-! ### A call of a sink -/

/-- An event is counted, with its lag if it comes from the stream. -/
def countEvent (ev : MarketEvent) (fromStream : Bool) : HourQuality :=
  let q₁ := q.account ev.tsEventNs fun a => a.addChecked false
  if fromStream then q₁.account ev.tsEventNs fun a => a.addLagMs ev.lagMs else q₁

/-- The first candle of the timeframe. -/
def seeFirst : MarketEvent → HourQuality
  | .candle c =>
    if q.firstOpenNs = none ∧ c.tf = tf.name then { q with firstOpenNs := some c.openTimeNs } else q
  | .trade _ => q
  | .book _ => q
  | .mark _ => q

/-- A candle is counted. -/
def countCandle (c : Candle) : HourQuality :=
  q.account c.openTimeNs fun a => a.addBucket c.openTimeNs

/-- A gap is counted in every hour that it touches. -/
def countGap (loNs hiNs : ℤ) : HourQuality :=
  (touchedHours loNs hiNs).foldl (fun q h => q.account h fun a => a.addGap loNs hiNs) q

/-- What a call of a sink does: the detector reports every gap once as open, when it opens it. -/
def note (n : Noted) : HourQuality :=
  match n.call with
  | .event ev => (q.countEvent ev n.fromStream).seeFirst tf ev
  | .candle c => (q.countCandle c).writeCompleteHours cfg tf (some c.closeTimeNs) n.exchangeNs
  | .gap g => if g.status = .opened then q.countGap g.tsLoNs (g.endNs tf) else q
  | .invalid _ => q.account n.bucketNs fun a => a.addChecked true
  | .trade _ => q
  | .disconnect _ => q

/-! ### Calm calls -/

/-- No candle of the hour is expected any more: it is over, or it lies before the first candle. -/
def Over (exchangeNs : Option ℤ) (h : ℤ) : Prop :=
  (∃ t ∈ exchangeNs, h + hourNs ≤ t) ∨ ∃ first ∈ q.firstOpenNs, h + hourNs ≤ first

/-- **Calm**: the call does not change what is counted for an hour that has been written, and
    writes no hour too early. -/
def Calm (n : Noted) : Prop :=
  match n.call with
  | .event ev => hourOf ev.tsEventNs ∈ q.written → (q.acc ev.tsEventNs).invalid = 0 ∧
      (n.fromStream = true → p95 ((q.acc ev.tsEventNs).lagsMs ++ [ev.lagMs]) =
        p95 (q.acc ev.tsEventNs).lagsMs)
  | .candle c => hourOf c.openTimeNs ∉ q.written ∧
      ∀ h, ((q.countCandle c).dq.get? h).isSome → h ∉ q.written → h + hourNs ≤ c.closeTimeNs →
        q.Over n.exchangeNs h
  | .gap g => g.status = .opened → ∀ h ∈ touchedHours g.tsLoNs (g.endNs tf),
      hourOf h ∈ q.written → (q.acc h).Covered g.tsLoNs (g.endNs tf)
  | .invalid _ => hourOf n.bucketNs ∉ q.written
  | .trade _ => True
  | .disconnect _ => True

end HourQuality

/-! ### Small facts -/

/-- An hour begins on the grid of the hours. -/
theorem hourOf_dvd (t : ℤ) : hourNs ∣ hourOf t := Int.dvd_self_sub_emod

namespace HourQuality

variable {cfg : Scoring} {tf : Timeframe} {q : HourQuality} {exchangeNs exchangeNs' : Option ℤ}

/-- The account of one hour changes. -/
theorem get?_account (t : ℤ) (f : DqAccumulator → DqAccumulator) (h : ℤ) :
    (q.account t f).dq.get? h = if hourOf t = h then some (f (q.acc t)) else q.dq.get? h :=
  Dict.get?_insert ..

/-- The account of one hour, seen from another. -/
theorem acc_account (t s : ℤ) (f : DqAccumulator → DqAccumulator) :
    (q.account t f).acc s = if hourOf t = hourOf s then f (q.acc t) else q.acc s := by
  unfold acc
  rw [get?_account]
  split
  · rfl
  · rfl

/-- The account that has changed. -/
@[simp] theorem acc_account_self (t : ℤ) (f : DqAccumulator → DqAccumulator) :
    (q.account t f).acc t = f (q.acc t) := by
  rw [acc_account, if_pos rfl]

/-- An account that is there. -/
theorem acc_of_get? {t : ℤ} {a : DqAccumulator} (h : q.dq.get? (hourOf t) = some a) :
    q.acc t = a := by
  unfold acc
  rw [h]
  rfl

/-- A score is that of an account. -/
theorem mem_dqScores {x : HourDq} : x ∈ q.dqScores cfg tf exchangeNs ↔
    ∃ a, q.dq.get? x.hourStartNs = some a ∧
      x.score = dqScore cfg (a.inputs (q.expected tf exchangeNs x.hourStartNs)) := by
  obtain ⟨h, score⟩ := x
  simp only [dqScores, List.mem_filterMap, List.mem_insertionSort, Option.map_eq_some_iff,
    HourDq.mk.injEq]
  constructor
  · rintro ⟨k, -, a, ha, rfl, rfl⟩
    exact ⟨a, ha, rfl⟩
  · rintro ⟨a, ha, rfl⟩
    exact ⟨h, List.mem_map.mpr ⟨(h, a), (q.dq.mem_entries_iff h a).mpr ha, rfl⟩, a, ha, rfl, rfl⟩

/-- **What is stored** afterwards was stored before, or it is a row that has been due. -/
theorem get?_store {hours : List HourDq} {h : ℤ} {row : DqRow}
    (hrow : (q.store hours).rows.get? h = some row) :
    q.rows.get? h = some row ∨ ∃ x ∈ hours, x.hourStartNs = h ∧ row = x.score.asRow := by
  have key : ∀ (hours : List HourDq) (rows : Dict ℤ DqRow),
      (hours.foldl (fun rows x => rows.insert x.hourStartNs x.score.asRow) rows).get? h =
        some row →
      rows.get? h = some row ∨ ∃ x ∈ hours, x.hourStartNs = h ∧ row = x.score.asRow := by
    intro hours
    induction hours with
    | nil => exact fun rows hget => .inl hget
    | cons x hours ih =>
      intro rows hget
      rcases ih _ hget with hone | ⟨y, hy, hstart, heq⟩
      · rw [Dict.get?_insert] at hone
        split at hone
        · rename_i hstart
          cases hone
          exact .inr ⟨x, List.mem_cons_self, hstart, rfl⟩
        · exact .inl hone
      · exact .inr ⟨y, List.mem_cons_of_mem _ hy, hstart, heq⟩
  exact key hours q.rows hrow

/-- What is over stays so. -/
theorem Over.later {h : ℤ} (hover : q.Over exchangeNs h)
    (hlater : NotBefore exchangeNs exchangeNs') : q.Over exchangeNs' h := by
  rcases hover with ⟨t, ht, hle⟩ | hfirst
  · obtain ⟨t', ht', hle'⟩ := hlater t ht
    exact .inl ⟨t', ht', hle.trans hle'⟩
  · exact .inr hfirst

/-- The number of candles that are expected in an hour that is over. -/
def fullCount (tf : Timeframe) (first h : ℤ) : ℤ :=
  if max h first < h + hourNs then (h + hourNs - max h first) / tf.ns else 0

/-- **An hour that is over** expects no further candle. -/
theorem expected_over {first h : ℤ} (hfirst : q.firstOpenNs = some first)
    (htf : tf.ns ∣ hourNs) (hgrid : tf.ns ∣ first) (hhour : hourNs ∣ h)
    (hover : q.Over exchangeNs h) : q.expected tf exchangeNs h = fullCount tf first h := by
  have hpos := tf.ns_pos
  unfold expected fullCount
  rw [hfirst]
  -- without an exchange time the hour is over because the first bar came after it
  cases exchangeNs with
  | none =>
    rcases hover with ⟨t, ht, -⟩ | ⟨f, hf, hle⟩
    · cases ht
    · rw [hfirst] at hf
      cases hf
      rw [if_neg (by omega)]
  | some latest =>
    dsimp only
    -- over by the time of the exchange
    rcases hover with ⟨t, ht, hle⟩ | ⟨f, hf, hle⟩
    · cases ht
      by_cases hin : max h first < h + hourNs
      · -- the candles of the hour are a whole number of bars
        obtain ⟨k, hk⟩ : tf.ns ∣ h + hourNs - max h first := by
          refine dvd_sub (dvd_add (htf.trans hhour) htf) ?_
          rcases max_choice h first with hmax | hmax <;> rw [hmax]
          · exact htf.trans hhour
          · exact hgrid
        have hbar : tf.ns ≤ h + hourNs - max h first := Int.le_of_dvd (by omega) ⟨k, hk⟩
        have hcomm : k * tf.ns = tf.ns * k := mul_comm _ _
        rw [if_pos hin, if_pos (by omega), hk, Int.mul_ediv_cancel_left _ hpos.ne',
          Int.ediv_eq_iff_of_pos hpos]
        constructor <;> omega
      · rw [if_neg hin, if_neg (by omega)]
    · rw [hfirst] at hf
      cases hf
      rw [if_neg (by omega), if_neg (by omega)]

end HourQuality

/-! ### The first candle -/

namespace HourQuality

variable {cfg : Scoring} {tf : Timeframe} {q : HourQuality}

/-- A gap does not move the first candle. -/
theorem countGap_first (q : HourQuality) (loNs hiNs : ℤ) :
    (q.countGap loNs hiNs).firstOpenNs = q.firstOpenNs := by
  unfold countGap
  generalize touchedHours loNs hiNs = hs
  induction hs generalizing q with
  | nil => rfl
  | cons h hs ih => exact ih _

/-- An event does not move the first candle. -/
theorem countEvent_first (q : HourQuality) (ev : MarketEvent) (fromStream : Bool) :
    (q.countEvent ev fromStream).firstOpenNs = q.firstOpenNs := by
  cases fromStream with
  | false => rfl
  | true => rfl

/-- The first candle stays the first one. -/
theorem note_first (hfirst : q.firstOpenNs.isSome) (n : Noted) :
    (q.note cfg tf n).firstOpenNs.isSome := by
  obtain ⟨call, fromStream, bucketNs, exchangeNs⟩ := n
  -- only the first candle sets the first time, and nothing unsets it
  cases call with
  | event ev =>
    show ((q.countEvent ev fromStream).seeFirst tf ev).firstOpenNs.isSome
    have hcount := (q.countEvent_first ev fromStream).symm ▸ hfirst
    cases ev with
    | candle c =>
      unfold seeFirst
      dsimp only
      split
      · rfl
      · exact hcount
    | trade t => exact hcount
    | book b => exact hcount
    | mark m => exact hcount
  | candle c => exact hfirst
  | gap g =>
    show (if _ then _ else _ : HourQuality).firstOpenNs.isSome
    split
    · rw [countGap_first]
      exact hfirst
    · exact hfirst
  | trade t => exact hfirst
  | invalid e => exact hfirst
  | disconnect conn => exact hfirst

/-- A candle of the timeframe is accepted. -/
theorem note_opening {n : Noted} {c : Candle} (hn : n.call = .event (.candle c))
    (htf : c.tf = tf.name) : (q.note cfg tf n).firstOpenNs.isSome := by
  unfold note
  rw [hn]
  show ((q.countEvent (.candle c) n.fromStream).seeFirst tf (.candle c)).firstOpenNs.isSome
  unfold seeFirst
  dsimp only
  split
  · rfl
  · rename_i hnot
    rw [not_and_or] at hnot
    exact Option.isSome_iff_ne_none.mpr (hnot.resolve_right (not_not_intro htf))

end HourQuality

/-! ### The rows that are stored -/

/-- **Final**: the row that is stored for an hour is that of its account, with all the candles that
    the hour ever expects. -/
structure FinalRows (cfg : Scoring) (tf : Timeframe) (q : HourQuality) (exchangeNs : Option ℤ) :
    Prop where
  grid : ∀ first ∈ q.firstOpenNs, tf.ns ∣ first
  hours : ∀ h a, q.dq.get? h = some a → hourNs ∣ h
  final : ∀ h row, q.rows.get? h = some row → h ∈ q.written ∧ ∃ first ∈ q.firstOpenNs,
    q.Over exchangeNs h ∧ ∃ a, q.dq.get? h = some a ∧
      row = a.row cfg (HourQuality.fullCount tf first h)

namespace FinalRows

variable {cfg : Scoring} {tf : Timeframe} {q : HourQuality} {exchangeNs exchangeNs' : Option ℤ}

/-- New accounts have no rows. -/
theorem new : FinalRows cfg tf .new exchangeNs where
  grid := fun first hfirst => by cases hfirst
  hours := fun h a ha => by cases ha
  final := fun h row hrow => by cases hrow

/-- The exchange time moves on. -/
theorem later (hq : FinalRows cfg tf q exchangeNs) (hlater : NotBefore exchangeNs exchangeNs') :
    FinalRows cfg tf q exchangeNs' where
  grid := hq.grid
  hours := hq.hours
  final := by
    intro h row hrow
    obtain ⟨hwritten, first, hfirst, hover, hacc⟩ := hq.final h row hrow
    exact ⟨hwritten, first, hfirst, hover.later hlater, hacc⟩

/-- **An account changes**: that of an hour that has been written only in what no row shows. -/
theorem account (hq : FinalRows cfg tf q exchangeNs) {t : ℤ} {f : DqAccumulator → DqAccumulator}
    (hf : hourOf t ∈ q.written → (q.acc t).Alike (f (q.acc t))) :
    FinalRows cfg tf (q.account t f) exchangeNs where
  grid := hq.grid
  -- an account appears at the hour of `t` only
  hours := by
    intro h a ha
    rw [HourQuality.get?_account] at ha
    split at ha
    · rename_i hh
      exact hh ▸ hourOf_dvd t
    · exact hq.hours h a ha
  final := by
    intro h row hrow
    obtain ⟨hwritten, first, hfirst, hover, a, ha, heq⟩ := hq.final h row hrow
    refine ⟨hwritten, first, hfirst, hover, ?_⟩
    rw [HourQuality.get?_account]
    split
    · rename_i hh
      subst hh
      rw [HourQuality.acc_of_get? ha] at hf ⊢
      exact ⟨_, rfl, heq.trans (hf hwritten cfg _).symm⟩
    · exact ⟨a, ha, heq⟩

/-- A calm event leaves the rows final. -/
theorem countEvent (hq : FinalRows cfg tf q exchangeNs) {ev : MarketEvent} {fromStream : Bool}
    (hcalm : hourOf ev.tsEventNs ∈ q.written → (q.acc ev.tsEventNs).invalid = 0 ∧
      (fromStream = true → p95 ((q.acc ev.tsEventNs).lagsMs ++ [ev.lagMs]) =
        p95 (q.acc ev.tsEventNs).lagsMs)) :
    FinalRows cfg tf (q.countEvent ev fromStream) exchangeNs := by
  have hchecked := hq.account (f := fun a => a.addChecked false) fun hwritten =>
    DqAccumulator.addChecked_alike (hcalm hwritten).1
  unfold HourQuality.countEvent
  cases fromStream with
  | false => exact hchecked
  | true =>
    refine hchecked.account (f := fun a => a.addLagMs ev.lagMs) fun hwritten =>
      DqAccumulator.addLagMs_alike ?_
    rw [HourQuality.acc_account_self]
    exact (hcalm hwritten).2 rfl

/-- The first candle is seen before any row is stored. -/
theorem seeFirst (hq : FinalRows cfg tf q exchangeNs) {ev : MarketEvent}
    (hgrid : ∀ c, ev = .candle c → c.tf = tf.name → tf.ns ∣ c.openTimeNs) :
    FinalRows cfg tf (q.seeFirst tf ev) exchangeNs := by
  cases ev with
  | candle c =>
    show FinalRows cfg tf (if _ then _ else _) exchangeNs
    split
    · rename_i hnone
      refine ⟨fun first hfirst => ?_, hq.hours, fun h row hrow => ?_⟩
      · cases hfirst
        exact hgrid c rfl hnone.2
      · obtain ⟨-, first, hfirst, -⟩ := hq.final h row hrow
        rw [hnone.1] at hfirst
        cases hfirst
    · exact hq
  | trade t => exact hq
  | book b => exact hq
  | mark m => exact hq

/-- **A gap** is counted in one touched hour after the other. -/
theorem countGap (hq : FinalRows cfg tf q exchangeNs) {loNs hiNs : ℤ}
    (hcalm : ∀ h ∈ touchedHours loNs hiNs, hourOf h ∈ q.written → (q.acc h).Covered loNs hiNs) :
    FinalRows cfg tf (q.countGap loNs hiNs) exchangeNs := by
  unfold HourQuality.countGap
  generalize touchedHours loNs hiNs = hs at hcalm ⊢
  induction hs generalizing q with
  | nil => exact hq
  | cons h hs ih =>
    have hhead := hcalm h List.mem_cons_self
    refine ih (hq.account fun hwritten => DqAccumulator.addGap_alike (hhead hwritten)) ?_
    intro k hk hwritten
    rw [HourQuality.acc_account]
    split
    · rename_i hsame
      rw [← hsame] at hwritten
      exact (hhead hwritten).addGap
    · exact hcalm k (List.mem_cons_of_mem _ hk) hwritten

/-- **Hours are written** that are over. -/
theorem write (hq : FinalRows cfg tf q exchangeNs) (htf : tf.ns ∣ hourNs) {latestNs : ℤ}
    (hfirst : q.firstOpenNs.isSome) (hover : ∀ h, (q.dq.get? h).isSome → h ∉ q.written →
      h + hourNs ≤ latestNs → q.Over exchangeNs h) :
    FinalRows cfg tf (q.writeCompleteHours cfg tf (some latestNs) exchangeNs) exchangeNs where
  grid := hq.grid
  hours := hq.hours
  final := by
    intro h row hrow
    rcases HourQuality.get?_store hrow with hold | ⟨x, hx, rfl, rfl⟩
    · obtain ⟨hwritten, hrest⟩ := hq.final h row hold
      exact ⟨Finset.mem_union_left _ hwritten, hrest⟩
    · obtain ⟨hmem, hdue⟩ := List.mem_filter.mp hx
      obtain ⟨a, ha, hscore⟩ := HourQuality.mem_dqScores.mp hmem
      obtain ⟨first, hfirst⟩ := Option.isSome_iff_exists.mp hfirst
      rw [decide_eq_true_iff] at hdue
      have hend := hover x.hourStartNs (by rw [ha]; rfl) hdue.2 hdue.1
      refine ⟨?_, first, hfirst, hend, a, ha, ?_⟩
      · exact Finset.mem_union_right _ (List.mem_toFinset.mpr (List.mem_map_of_mem hx))
      · rw [hscore, HourQuality.expected_over hfirst htf (hq.grid first hfirst)
          (hq.hours _ _ ha) hend]
        rfl

/-- **A calm call** leaves the stored rows final.  A candle is only released when the first one has
    been seen, and the candles of the timeframe lie on its grid. -/
theorem note (hq : FinalRows cfg tf q exchangeNs) (htf : tf.ns ∣ hourNs) {n : Noted}
    (hcalm : q.Calm tf n) (hexchange : n.exchangeNs = exchangeNs)
    (hfirst : ∀ c, n.call = .candle c → q.firstOpenNs.isSome)
    (hgrid : ∀ c, n.call = .event (.candle c) → c.tf = tf.name → tf.ns ∣ c.openTimeNs) :
    FinalRows cfg tf (q.note cfg tf n) exchangeNs := by
  obtain ⟨call, fromStream, bucketNs, exchangeNs⟩ := n
  subst hexchange
  -- one case for each kind of note; calm notes touch no written hour
  cases call with
  | event ev => exact (hq.countEvent hcalm).seeFirst fun c hc => hgrid c (by rw [hc])
  | candle c =>
    obtain ⟨hnew, hover⟩ := hcalm
    exact (hq.account fun hwritten => absurd hwritten hnew).write htf (hfirst c rfl) hover
  | gap g =>
    show FinalRows cfg tf (if _ then _ else _) exchangeNs
    split
    · rename_i hopen
      exact hq.countGap (hcalm hopen)
    · exact hq
  | trade t => exact hq
  | invalid e =>
    exact hq.account (t := bucketNs) (f := fun a => a.addChecked true) fun hwritten =>
      absurd hwritten hcalm
  | disconnect conn => exact hq

/-- **At the end** every stored row is the one of `dq_scores`, whether it was stored before or by
    the last call. -/
theorem atEnd (hq : FinalRows cfg tf q exchangeNs) (htf : tf.ns ∣ hourNs) {h : ℤ} {row : DqRow}
    (hrow : (q.writeCompleteHours cfg tf exchangeNs exchangeNs).rows.get? h = some row) :
    ∃ x ∈ (q.writeCompleteHours cfg tf exchangeNs exchangeNs).dqScores cfg tf exchangeNs,
      x.hourStartNs = h ∧ row = x.score.asRow := by
  -- writing rows changes no account, so the scores are those of before
  have hdq : (q.writeCompleteHours cfg tf exchangeNs exchangeNs).dqScores cfg tf exchangeNs =
      q.dqScores cfg tf exchangeNs := by
    unfold HourQuality.writeCompleteHours
    split
    · rfl
    · rfl
  rw [hdq]
  -- a row written earlier has the score of now
  have hold (hrow : q.rows.get? h = some row) :
      ∃ x ∈ q.dqScores cfg tf exchangeNs, x.hourStartNs = h ∧ row = x.score.asRow := by
    obtain ⟨-, first, hfirst, hover, a, ha, heq⟩ := hq.final h row hrow
    refine ⟨⟨h, dqScore cfg (a.inputs (q.expected tf exchangeNs h))⟩,
      HourQuality.mem_dqScores.mpr ⟨a, ha, rfl⟩, rfl, ?_⟩
    rw [heq, HourQuality.expected_over hfirst htf (hq.grid first hfirst) (hq.hours h a ha) hover]
    rfl
  unfold HourQuality.writeCompleteHours at hrow
  split at hrow
  · exact hold hrow
  · rcases HourQuality.get?_store hrow with hrow | ⟨x, hx, hstart, heq⟩
    · exact hold hrow
    · exact ⟨x, (List.mem_filter.mp hx).1, hstart, heq⟩

end FinalRows

end FuzzHelm
