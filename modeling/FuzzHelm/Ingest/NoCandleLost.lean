import FuzzHelm.Ingest.NeverRaises

namespace FuzzHelm

open Lib

/-!
# No candle is lost silently

The gap detector settles the minutes, the aggregator releases the candles in order, and the
backfill delivers late candles to both.  A closed candle that reaches the detector is handed over
in the end, and a minute that never reaches it stays in the gap that misses it.

* `AggLedger` — the aggregator against the candles that the detector has been given;
* `PipeBooks` — the invariant of the pipeline, between two of its steps;
* `takes`, `fills`, `fillLoop_ok` — one event, one gap, the loop;
* `NoCandleLost`, `no_silent_loss` — what holds after the end of the stream.
-/

/-- A closed candle is not stamped before its close time. -/
def Stamped : MarketEvent → Prop
  | .candle c => c.isClosed = true → c.closeTimeNs ≤ c.tsEventNs
  | .trade _ => True
  | .book _ => True
  | .mark _ => True

/-! ### The aggregator and the candles of the detector -/

/-- **The aggregator** has handed over or keeps the closed candles that the detector has been
    given, from the first one on. -/
structure AggLedger (candles : List Candle) (kLo : Option ℤ) (handed : List Candle)
    (a : CandleAggregator) : Prop where
  before : candles = [] → NotStarted a ∧ handed = []
  started : ∀ c ∈ candles.head?, ∀ lo ∈ kLo, ∃ nxt,
    AggBooks (Delivered candles) c.openTimeNs lo nxt handed a

namespace AggLedger

variable {candles : List Candle} {kLo kLo' : Option ℤ} {handed : List Candle}
  {a : CandleAggregator} {c : Candle}

/-- The ledger holds for every earlier start. -/
theorem mono (h : AggLedger candles kLo handed a) (hlo : NotBefore kLo kLo')
    (hsome : candles ≠ [] → ∃ lo, kLo = some lo) : AggLedger candles kLo' handed a where
  before := h.before
  started := by
    intro c hc lo' hlo'
    obtain ⟨lo, hlo₀⟩ := hsome (by rintro rfl; cases hc)
    obtain ⟨lo₁, hlo₁, hle⟩ := hlo lo hlo₀
    rw [Option.mem_def.mp hlo'] at hlo₁
    cases hlo₁
    obtain ⟨nxt, hbooks⟩ := h.started c hc lo hlo₀
    exact ⟨nxt, hbooks.mono hle⟩

/-- **A candle is given to both.** -/
theorem offer (h : AggLedger candles kLo handed a) (hlo : NotBefore kLo kLo')
    (hsome : candles ≠ [] → ∃ lo, kLo = some lo) (hacc : a.accepts c = true)
    (hgrid : ∀ c' ∈ candles ++ [c], a.tf.ns ∣ c'.openTimeNs)
    (hskip : c.isClosed = true → a.isSkipped c.openTimeNs = false) :
    AggLedger (candles ++ [c]) kLo' (handed ++ (a.offer c).1) (a.offer c).2 := by
  refine ⟨fun hnil => by simp at hnil, fun c₀ hc₀ lo' hlo' => ?_⟩
  -- the first candle starts the books of both sides
  by_cases hcandles : candles = []
  · obtain ⟨hstart, hhanded⟩ := h.before hcandles
    rw [hcandles] at hc₀ ⊢
    cases hc₀
    rw [hhanded]
    obtain ⟨nxt, hbooks⟩ := AggBooks.offer_first hstart hacc lo'
    exact ⟨nxt, hbooks.same fun m => by simp [Delivered]⟩
  · rw [List.head?_append_of_ne_nil _ hcandles] at hc₀
    obtain ⟨nxt, hbooks⟩ := (h.mono hlo hsome).started c₀ hc₀ lo' hlo'
    -- a closed candle is delivered, an update leaves what is delivered as it is
    by_cases hclosed : c.isClosed = true
    · have hnot : c.openTimeNs ∉ a.skipped := by
        rw [← hbooks.isSkipped_iff, hskip hclosed]
        exact Bool.false_ne_true
      -- it lies on the grid of the first candle
      have hdvd : a.tf.ns ∣ c.openTimeNs - c₀.openTimeNs :=
        dvd_sub (hgrid c (by simp))
          (hgrid c₀ (List.mem_append_left _ (List.mem_of_mem_head? hc₀)))
      exact hbooks.offer_closed hacc hclosed hnot hdvd fun m => by
        rw [delivered_concat, and_iff_right hclosed]
    · have hd : ∀ m, Delivered (candles ++ [c]) m ↔ Delivered candles m := fun m => by
        rw [delivered_concat, or_iff_left fun hbad => hclosed hbad.1]
      obtain ⟨hout, hoffered⟩ := hbooks.offer_open (Bool.not_eq_true _ ▸ hclosed)
      rw [hout, List.append_nil]
      exact ⟨nxt, hoffered.same hd⟩

end AggLedger

/-! ### The invariant of the pipeline -/

/-- **The books of the pipeline**: the three machines agree on the candles that have been given to
    the detector, and the queue holds gaps of the detector. -/
structure PipeBooks (graceNs : ℤ) (candles : List Candle) (seen : List ℤ) (p : IngestPipeline) :
    Prop where
  accounts : GapAccounts candles seen p.detector.nextId p.detector
  instrument : p.detector.instrument = p.canon
  tf : p.detector.tf = p.tf
  graceNs : p.detector.graceNs = graceNs
  aggTf : p.aggregator.tf = p.tf
  aggInstrument : p.aggregator.instrument = some p.canon
  grid : ∀ c ∈ candles, p.tf.ns ∣ c.openTimeNs
  /-- A closed candle moves the settled bound up to its minute. -/
  settled : ∀ m, Delivered candles m → ∃ lo ∈ p.detector.kLo, m ≤ lo
  ledger : AggLedger candles p.detector.kLo p.sunk.candles p.aggregator
  queue : ∀ gid ∈ p.toFill, 0 < gid ∧ gid < p.detector.nextId
  hook : ∀ results ∈ p.backfill, ∀ r ∈ results, ∀ ev ∈ r.events, Stamped ev

/-- The invariant, for some candles and trades that the detector has been given. -/
def PipeOk (graceNs : ℤ) (p : IngestPipeline) : Prop :=
  ∃ candles seen, PipeBooks graceNs candles seen p

/-- After a candle the detector has its first minute. -/
theorem GapAccounts.kLo_some {candles : List Candle} {seen : List ℤ} {old : ℕ} {d : GapDetector}
    (h : GapAccounts candles seen old d) (hne : candles ≠ []) : ∃ lo, d.kLo = some lo := by
  obtain ⟨c, cs, rfl⟩ := List.exists_cons_of_ne_nil hne
  obtain ⟨lo, hc⟩ := h.candles.some c rfl
  exact ⟨lo, hc.kLo⟩

namespace PipeBooks

variable {graceNs : ℤ} {candles : List Candle} {seen : List ℤ} {p p' : IngestPipeline}

/-- What the pipeline does before the detector. -/
theorem untouched (h : PipeBooks graceNs candles seen p) (hun : IngestPipeline.Untouched p p') :
    PipeBooks graceNs candles seen p' where
  accounts := by
    rw [hun.detector]
    exact h.accounts
  instrument := by
    rw [hun.detector, hun.canon]
    exact h.instrument
  tf := by
    rw [hun.detector, hun.tf]
    exact h.tf
  graceNs := by
    rw [hun.detector]
    exact h.graceNs
  aggTf := by
    rw [hun.aggregator, hun.tf]
    exact h.aggTf
  aggInstrument := by
    rw [hun.aggregator, hun.canon]
    exact h.aggInstrument
  grid := by
    rw [hun.tf]
    exact h.grid
  settled := by
    rw [hun.detector]
    exact h.settled
  ledger := by
    rw [hun.detector, hun.aggregator, hun.candles]
    exact h.ledger
  queue := by
    rw [hun.detector, hun.toFill]
    exact h.queue
  hook := by
    rw [hun.backfill]
    exact h.hook

/-- The detector moves without a new candle. -/
theorem moves (h : PipeBooks graceNs candles seen p) {seen' : List ℤ} {d' : GapDetector}
    (haccounts : GapAccounts candles seen' d'.nextId d') (hfwd : Forward p.detector d')
    (hnext : p.detector.nextId ≤ d'.nextId) : PipeBooks graceNs candles seen' (p.called d') where
  accounts := haccounts
  instrument := hfwd.instrument.trans h.instrument
  tf := hfwd.tf.trans h.tf
  graceNs := hfwd.graceNs.trans h.graceNs
  aggTf := h.aggTf
  aggInstrument := h.aggInstrument
  grid := h.grid
  settled := by
    intro m hm
    obtain ⟨lo, hlo, hle⟩ := h.settled m hm
    obtain ⟨lo', hlo', hle'⟩ := hfwd.kLo lo hlo
    exact ⟨lo', hlo', hle.trans hle'⟩
  ledger := h.ledger.mono hfwd.kLo h.accounts.kLo_some
  queue := fun gid hgid => ⟨(h.queue gid hgid).1, (h.queue gid hgid).2.trans_le hnext⟩
  hook := h.hook

/-- What moves the detector within its accounts keeps the books. -/
theorem moved (h : PipeBooks graceNs candles seen p) {seen' : List ℤ} {d' : GapDetector}
    {records : List GapRecord}
    (hm : GapAccounts.Moved candles seen' p.detector.nextId p.detector records d') :
    PipeBooks graceNs candles seen' (p.called d') :=
  h.moves (hm.accounts.relax hm.nextId) hm.forward hm.nextId

/-- The aggregator moves. -/
theorem released (h : PipeBooks graceNs candles seen p) {r : List Candle × CandleAggregator}
    (hsame : SameAggregator p.aggregator r.2)
    (hledger : AggLedger candles p.detector.kLo (p.sunk.candles ++ r.1) r.2) :
    PipeBooks graceNs candles seen (p.release r) :=
  { h with
    aggTf := hsame.tf.trans h.aggTf
    aggInstrument := hsame.instrument.trans h.aggInstrument
    ledger := hledger }

/-- The books of the detector and of the aggregator, from the first candle on. -/
theorem aggBooks (h : PipeBooks graceNs candles seen p) (hne : candles ≠ []) :
    ∃ first lo nxt, p.tf.ns ∣ first ∧
      CandleBooks (Delivered candles) first lo [] p.detector.nextId p.detector ∧
      AggBooks (Delivered candles) first lo nxt p.sunk.candles p.aggregator := by
  obtain ⟨c, cs, rfl⟩ := List.exists_cons_of_ne_nil hne
  obtain ⟨lo, hc⟩ := h.accounts.candles.some c rfl
  obtain ⟨nxt, hbooks⟩ := h.ledger.started c rfl lo hc.kLo
  exact ⟨_, lo, nxt, h.grid c List.mem_cons_self, hc, hbooks⟩

/-- The aggregator and the detector take the same candles. -/
theorem accepts_iff (h : PipeBooks graceNs candles seen p) (c : Candle) :
    p.aggregator.accepts c = true ↔
      ¬(c.tf ≠ p.detector.tf.name ∨ c.instrument ≠ p.detector.instrument) := by
  unfold CandleAggregator.accepts
  rw [h.aggTf, h.aggInstrument, h.tf, h.instrument]
  simp [not_or]

end PipeBooks

/-! ### One event -/

/-- **What a step of the pipeline keeps**: the invariant, and the gaps that are being filled. -/
structure StepOk (graceNs : ℤ) (p p' : IngestPipeline) : Prop where
  ok : PipeOk graceNs p'
  filling : KeepsFilling p.detector p'.detector

section Steps

variable {graceNs : ℤ} {candles : List Candle} {seen : List ℤ} {p p' : IngestPipeline}
  (world : Surroundings)

/-- A candle of another instrument or timeframe moves nothing but the exchange time. -/
theorem takeCandle_other (h : PipeBooks graceNs candles seen p) {c : Candle}
    (hother : c.tf ≠ p.detector.tf.name ∨ c.instrument ≠ p.detector.instrument) :
    ∃ changed p', p.takeCandle world c = .ok (changed, p') ∧ StepOk graceNs p p' ∧
      Listed p'.detector changed := by
  -- the aggregator ignores a candle of another stream
  have hoffer : p.aggregator.offer c = ([], p.aggregator) := by
    refine AggBooks.offer_other ?_
    rw [← Bool.not_eq_true, h.accepts_iff]
    exact not_not_intro hother
  have hrelease : ∀ d, (p.called d).release (p.aggregator.offer c) = p.called d := by
    intro d
    rw [hoffer]
    show ({ p.called d with sunk := { p.sunk with
      candles := p.sunk.candles ++ []
      calls := p.sunk.calls ++ [] } } : IngestPipeline) = p.called d
    rw [List.append_nil, List.append_nil]
    rfl
  -- and so does the detector, unless it reads the time only
  have hdetect : ∃ changed d', p.detectCandle world c = .ok (changed, d') ∧
      GapAccounts.Moved candles seen p.detector.nextId p.detector changed d' := by
    unfold IngestPipeline.detectCandle
    split
    · exact ⟨_, _, rfl, h.accounts.onTime (world.clock p.reads) c.tsEventNs⟩
    · rw [GapAccounts.onKline_other _ hother]
      exact ⟨_, _, rfl, h.accounts, .refl _, .refl _, le_refl _, .nil _⟩
  obtain ⟨changed, d', hcall, hm⟩ := hdetect
  unfold IngestPipeline.takeCandle
  rw [hcall]
  refine ⟨changed, _, rfl, ⟨⟨candles, seen, ?_⟩, hm.filling⟩, hm.listed⟩
  rw [hrelease]
  exact h.moved hm

/-- A closed candle of a minute that has been given up: only the exchange time moves. -/
theorem takeCandle_skipped (h : PipeBooks graceNs candles seen p) {c : Candle}
    (hclosed : c.isClosed = true) (htf : c.tf = p.tf.name)
    (hskip : p.aggregator.isSkipped c.openTimeNs = true) :
    ∃ changed p', p.takeCandle world c = .ok (changed, p') ∧ StepOk graceNs p p' ∧
      Listed p'.detector changed := by
  have hmem : c.openTimeNs ∈ p.aggregator.skipped := (of_decide_eq_true hskip).1
  -- a minute has been given up, so candles have been delivered
  have hne : candles ≠ [] := by
    intro hnil
    rw [(h.ledger.before hnil).1.skipped] at hmem
    exact absurd hmem (Finset.notMem_empty _)
  have hm := h.accounts.onTime (world.clock p.reads) c.tsEventNs
  rcases hcall : p.detector.onTime (world.clock p.reads) c.tsEventNs with ⟨changed, d'⟩
  rw [hcall] at hm
  have hcalled := h.moved hm
  -- the aggregator drops the candle of a minute that was given up
  have hledger : AggLedger candles d'.kLo
      (p.sunk.candles ++ (p.aggregator.offer c).1) (p.aggregator.offer c).2 := by
    refine ⟨fun hnil => absurd hnil hne, fun c₀ hc₀ lo hlo => ?_⟩
    obtain ⟨nxt, hbooks⟩ := hcalled.ledger.started c₀ hc₀ lo hlo
    change AggBooks _ _ _ _ p.sunk.candles p.aggregator at hbooks
    obtain ⟨hout, hoffered⟩ := hbooks.offer_skipped hmem hclosed
    rw [hout, List.append_nil]
    exact ⟨nxt, hoffered⟩
  have hreleased := hcalled.released (SameAggregator.offer p.aggregator c) hledger
  unfold IngestPipeline.takeCandle IngestPipeline.detectCandle
  rw [if_pos ⟨hclosed, htf, hskip⟩, hcall]
  exact ⟨changed, _, rfl, ⟨⟨candles, seen, hreleased⟩, hm.filling⟩, hm.listed⟩

/-- **A candle is delivered** to the detector and to the aggregator. -/
theorem takeCandle_given (h : PipeBooks graceNs candles seen p)
    (hgrace : graceNs < p.tf.ns - nsPerMs) {c : Candle}
    (hvalid : checkCandle c p.spec = []) (hstamp : Stamped (.candle c))
    (hmatch : ¬(c.tf ≠ p.detector.tf.name ∨ c.instrument ≠ p.detector.instrument))
    (hskip : c.isClosed = true → p.aggregator.isSkipped c.openTimeNs = false) :
    ∃ changed p', p.takeCandle world c = .ok (changed, p') ∧ StepOk graceNs p p' ∧
      Listed p'.detector changed := by
  have htf : c.tf = p.tf.name := by
    rw [not_or, not_not, not_not, h.tf] at hmatch
    exact hmatch.1
  obtain ⟨haligned, hclose⟩ := checkCandle_nil hvalid htf
  have hgrid : ∀ c' ∈ candles ++ [c], p.tf.ns ∣ c'.openTimeNs := by
    intro c' hc'
    rcases List.mem_append.mp hc' with hc' | hc'
    · exact h.grid c' hc'
    · rw [List.mem_singleton.mp hc']
      exact Int.dvd_of_emod_eq_zero haligned
  -- so the detector is given the candle
  have hnot : ¬(c.isClosed = true ∧ c.tf = p.tf.name ∧
      p.aggregator.isSkipped c.openTimeNs = true) := by
    rintro ⟨hclosed, -, hbad⟩
    rw [hskip hclosed] at hbad
    cases hbad
  obtain ⟨changed, d', hcall, hm⟩ := h.accounts.onKline (world.clock p.reads) c
  rw [DetectorCall.candles, if_neg hmatch] at hm
  unfold IngestPipeline.takeCandle IngestPipeline.detectCandle
  rw [if_neg hnot, hcall]
  refine ⟨changed, _, rfl, ⟨⟨candles ++ [c], seen, ?_⟩, hm.filling⟩, hm.listed⟩
  exact {
    accounts := hm.accounts.relax hm.nextId
    instrument := hm.forward.instrument.trans h.instrument
    tf := hm.forward.tf.trans h.tf
    graceNs := hm.forward.graceNs.trans h.graceNs
    aggTf := (SameAggregator.offer _ c).tf.trans h.aggTf
    aggInstrument := (SameAggregator.offer _ c).instrument.trans h.aggInstrument
    grid := hgrid
    settled := by
      intro m hd
      rcases delivered_concat.mp hd with hd | ⟨hclosed, rfl⟩
      · obtain ⟨lo, hlo, hle⟩ := h.settled m hd
        obtain ⟨lo', hlo', hle'⟩ := hm.forward.kLo lo hlo
        exact ⟨lo', hlo', hle.trans hle'⟩
      · -- the candle is stamped after its close, so its minute begins the grace before that
        have hts : c.closeTimeNs ≤ c.tsEventNs := hstamp hclosed
        have hreach := h.accounts.onKline_reach (world.clock p.reads) hmatch
          (fun c₀ hc₀ => by
            rw [h.tf]
            exact dvd_sub (hgrid c (by simp)) (hgrid c₀ (List.mem_of_mem_head? hc₀)))
          (show c.openTimeNs + p.detector.graceNs ≤ c.tsEventNs by
            rw [h.graceNs]
            omega)
        rw [hcall] at hreach
        exact hreach
    ledger := h.ledger.offer hm.forward.kLo h.accounts.kLo_some ((h.accepts_iff c).mpr hmatch)
      (by
        rw [h.aggTf]
        exact hgrid) hskip
    queue := fun gid hgid => ⟨(h.queue gid hgid).1, (h.queue gid hgid).2.trans_le hm.nextId⟩
    hook := h.hook }

/-- **An accepted event**, by its kind. -/
theorem dispatch_ok (h : PipeBooks graceNs candles seen p) (hgrace : graceNs < p.tf.ns - nsPerMs)
    {ev : MarketEvent} (hvalid : p.violations ev = []) (hstamp : Stamped ev)
    (outcome : DedupOutcome) : ∃ changed p', p.dispatch world ev outcome = .ok (changed, p') ∧
      StepOk graceNs p p' ∧ Listed p'.detector changed := by
  have hother : ∀ ts, ∃ changed p', (.ok (p.takeOther world ts) :
      Except PyError (List GapRecord × IngestPipeline)) = .ok (changed, p') ∧
      StepOk graceNs p p' ∧ Listed p'.detector changed := by
    intro ts
    have hm := h.accounts.onTime (world.clock p.reads) ts
    exact ⟨_, _, rfl, ⟨⟨_, _, h.moved hm⟩, hm.filling⟩, hm.listed⟩
  -- a candle of another stream, of a minute given up, or one for both sides
  cases ev with
  | candle c =>
    show ∃ changed p', p.takeCandle world c = .ok (changed, p') ∧ _
    by_cases hforeign : c.tf ≠ p.detector.tf.name ∨ c.instrument ≠ p.detector.instrument
    · exact takeCandle_other world h hforeign
    · have htf : c.tf = p.tf.name := by
        rw [not_or, not_not, not_not, h.tf] at hforeign
        exact hforeign.1
      by_cases hskip : c.isClosed = true ∧ p.aggregator.isSkipped c.openTimeNs = true
      · exact takeCandle_skipped world h hskip.1 htf hskip.2
      · rw [not_and, Bool.not_eq_true] at hskip
        exact takeCandle_given world h hgrace hvalid hstamp hforeign hskip
  | trade t =>
    show ∃ changed p', p.takeTrade world t outcome = .ok (changed, p') ∧ _
    obtain ⟨changed, d', hcall, hm⟩ := h.accounts.onTrade (world.clock p.reads) t
    -- handing the trade on does not touch the books
    have hhand : IngestPipeline.Untouched p (p.handTrade t outcome) := by
      refine ⟨p.handTrade_same t outcome, ?_, ?_, ?_⟩ <;>
        (unfold IngestPipeline.handTrade; split <;> rfl)
    unfold IngestPipeline.takeTrade
    rw [hcall]
    have hmoved := (h.untouched hhand).moved (hhand.detector.symm ▸ hm)
    exact ⟨_, _, rfl, ⟨⟨_, _, hmoved⟩, hm.filling⟩, hm.listed⟩
  | book b => exact hother b.tsEventNs
  | mark m => exact hother m.tsEventNs

/-- **One event** up to the gaps that have changed. -/
theorem take_ok (h : PipeOk graceNs p) (hgrace : graceNs < p.tf.ns - nsPerMs) {ev : MarketEvent}
    (hstamp : Stamped ev) : ∃ o p', p.take world ev = .ok (o, p') ∧ StepOk graceNs p p' ∧
      ∀ changed ∈ o, Listed p'.detector changed := by
  obtain ⟨candles, seen, hbooks⟩ := h
  rcases IngestPipeline.take_cases world p ev with ⟨p', htake, hun⟩ |
    ⟨p₁, outcome, hvalid, hun, htake⟩
  · refine ⟨none, p', htake, ⟨⟨_, _, hbooks.untouched hun⟩, .of_eq (by rw [hun.detector])⟩,
      fun changed hc => ?_⟩
    cases hc
  · have hvalid' : p₁.violations ev = [] := by
      unfold IngestPipeline.violations at hvalid ⊢
      rw [hun.spec]
      exact hvalid
    obtain ⟨changed, p', hdispatch, hstep, hlisted⟩ := dispatch_ok world (hbooks.untouched hun)
      (by rw [hun.tf]; exact hgrace) hvalid' hstamp outcome
    refine ⟨some changed, p', ?_, ⟨hstep.ok, hun.detector ▸ hstep.filling⟩, fun c hc => ?_⟩
    · rw [htake, hdispatch]
      rfl
    · cases hc
      exact hlisted

/-! ### One gap -/

/-- The gaps that have changed join the queue. -/
theorem enqueue_ok (h : PipeOk graceNs p) {changed : List GapRecord}
    (hlisted : Listed p.detector changed) : PipeOk graceNs (p.enqueue changed) := by
  obtain ⟨candles, seen, hbooks⟩ := h
  refine ⟨candles, seen, { hbooks with queue := fun gid hgid => ?_ }⟩
  rcases List.mem_append.mp hgid with hgid | hgid
  · exact hbooks.queue gid hgid
  · obtain ⟨g, hg, rfl⟩ := List.mem_map.mp hgid
    rw [List.mem_filter, decide_eq_true_iff] at hg
    exact hlisted g hg.1 hg.2

/-- **An event of the hook**, while a gap is being filled. -/
theorem acceptWith_ok (h : PipeOk graceNs p) (hgrace : graceNs < p.tf.ns - nsPerMs)
    {ev : MarketEvent} (hstamp : Stamped ev) : ∃ p', p.acceptWith world .ok ev = .ok p' ∧
      StepOk graceNs p p' ∧ p'.tf = p.tf := by
  obtain ⟨o, p₁, htake, hstep, hlisted⟩ := take_ok world h hgrace hstamp
  have htf := (IngestPipeline.take_same htake).tf
  unfold IngestPipeline.acceptWith
  rw [htake]
  cases o with
  | none => exact ⟨p₁, rfl, hstep, htf⟩
  | some changed =>
    have henqueued := enqueue_ok hstep.ok (hlisted changed rfl)
    refine ⟨p₁.enqueue changed, ?_, ⟨henqueued, hstep.filling⟩, htf⟩
    show p₁.onGapsWith .ok changed = _
    unfold IngestPipeline.onGapsWith
    split <;> rfl

/-- The events of the hook keep the books, by induction on them. -/
theorem acceptAll_ok {evs : List MarketEvent} (hstamp : ∀ ev ∈ evs, Stamped ev) :
    ∀ {p : IngestPipeline}, PipeOk graceNs p → graceNs < p.tf.ns - nsPerMs →
      ∃ p', evs.foldlM (fun p ev => p.acceptWith world .ok ev) p = .ok p' ∧
        StepOk graceNs p p' ∧ p'.tf = p.tf := by
  induction evs with
  | nil => exact fun {p} h _ => ⟨p, rfl, ⟨h, .refl _⟩, rfl⟩
  | cons ev evs ih =>
    intro p h hgrace
    obtain ⟨p₁, hacc, hstep, htf⟩ :=
      acceptWith_ok world h hgrace (hstamp ev List.mem_cons_self)
    obtain ⟨p₂, hall, hstep₂, htf₂⟩ := ih (fun ev' hev' => hstamp ev' (List.mem_cons_of_mem _ hev'))
      hstep.ok (by rw [htf]; exact hgrace)
    refine ⟨p₂, ?_, ⟨hstep₂.ok, hstep.filling.trans hstep₂.filling⟩, htf₂.trans htf⟩
    rw [List.foldlM_cons, hacc]
    exact hall

/-- A missing minute is given up. -/
theorem skip_books (h : PipeBooks graceNs candles seen p) {m : ℤ}
    (hmissing : (p.detector.owner .klines m).isSome) :
    PipeBooks graceNs candles seen (p.release (p.aggregator.skip m m)) := by
  have hne : candles ≠ [] := by
    rintro rfl
    rw [(h.accounts.candles.none rfl).owner] at hmissing
    cases hmissing
  refine h.released (.skip _ m m) ⟨fun hnil => absurd hnil hne, fun c hc lo hlo => ?_⟩
  obtain ⟨nxt, hagg⟩ := h.ledger.started c hc lo hlo
  obtain ⟨lo', hcandles⟩ := h.accounts.candles.some c hc
  rw [hcandles.kLo] at hlo
  cases hlo
  have hslot := (hcandles.owned m hmissing).1
  rw [h.tf, ← h.aggTf] at hslot
  refine hagg.skip hslot ?_
  rw [← hcandles.settled m (hcandles.owned m hmissing).1]
  exact .inl hmissing

/-- **What a gap misses is given up.** -/
theorem skipMissing_ok (h : PipeOk graceNs p) {gid : ℕ}
    (hgid : 0 < gid ∧ gid < p.detector.nextId) :
    ∃ p', p.skipMissing gid = .ok p' ∧ PipeOk graceNs p' := by
  obtain ⟨candles, seen, hbooks⟩ := h
  obtain ⟨g, miss, hg, hm, hgap⟩ := hbooks.accounts.gapOf_ok hgid
  have hfold : ∀ (ms : List ℤ) (p : IngestPipeline), PipeBooks graceNs candles seen p →
      (∀ m ∈ ms, (p.detector.owner .klines m).isSome) →
      PipeBooks graceNs candles seen
        (ms.foldl (fun p m => p.release (p.aggregator.skip m m)) p) := by
    intro ms
    induction ms with
    | nil => exact fun p h _ => h
    | cons m ms ih =>
      intro p h howned
      exact ih _ (skip_books h (howned m List.mem_cons_self)) fun m' hm' =>
        howned m' (List.mem_cons_of_mem _ hm')
  unfold IngestPipeline.skipMissing
  rw [hgap]
  -- a gap in the trades has no minutes to give up
  by_cases hs : g.stream ≠ .klines
  · exact ⟨p, by simp only [bind, Except.bind, if_pos hs]; rfl, candles, seen, hbooks⟩
  · refine ⟨_, by simp only [bind, Except.bind, if_neg hs]; rfl, candles, seen,
      hfold _ p hbooks fun m hmem => ?_⟩
    rw [Finset.mem_sort] at hmem
    rw [hbooks.accounts.books.owned_iff]
    rw [not_not] at hs
    exact ⟨gid, GapDetector.mem_missingIn.mpr ⟨g, miss, hg, hm, hs, hmem⟩⟩

/-- The status of one gap changes. -/
theorem restated_books (h : PipeBooks graceNs candles seen p) {d' : GapDetector}
    (hr : Restated p.detector d') (g : GapRecord) :
    PipeBooks graceNs candles seen ((p.called d').gapChanged g) := by
  obtain ⟨haccounts, hfwd, hnext⟩ := h.accounts.restated hr
  have hcalled := h.moves (haccounts.relax hnext) hfwd hnext
  exact { hcalled with }

/-- **The end of an attempt** to fill a gap. -/
theorem endFill_ok (h : PipeOk graceNs p) {gid : ℕ} {g : GapRecord}
    (hg : p.detector.gaps.get? gid = some g) (hs : g.status = .filling) :
    ∃ p', p.endFill world gid = .ok p' ∧ PipeOk graceNs p' := by
  obtain ⟨candles, seen, hbooks⟩ := h
  -- a gap of the table has an identifier below the next one
  have hgid : 0 < gid ∧ gid < p.detector.nextId := by
    rw [← hbooks.accounts.books.fresh, hg]
    rfl
  obtain ⟨g', d', hres⟩ := hbooks.accounts.resolve_ok (world.clock p.reads) hg hs
  obtain ⟨hr, -⟩ := hbooks.accounts.books.resolve hres
  have hnext := restated_books hbooks hr g'
  unfold IngestPipeline.endFill
  rw [hres]
  -- what the backfill did not bring is given up
  by_cases hfull : g'.status ≠ .filled
  · have hgid' : 0 < gid ∧ gid < ((p.called d').gapChanged g').detector.nextId := by
      refine ⟨hgid.1, ?_⟩
      show gid < d'.nextId
      rw [hr.nextId]
      exact hgid.2
    obtain ⟨p', hskip, hok⟩ := skipMissing_ok ⟨candles, seen, hnext⟩ hgid'
    refine ⟨p', ?_, hok⟩
    simp only [bind, Except.bind, if_pos hfull]
    exact hskip
  · refine ⟨_, ?_, candles, seen, hnext⟩
    simp only [bind, Except.bind, if_neg hfull]
    rfl

/-- **One gap of the queue.** -/
theorem fillGap_ok (h : PipeOk graceNs p) (hgrace : graceNs < p.tf.ns - nsPerMs) {gid : ℕ}
    (hgid : 0 < gid ∧ gid < p.detector.nextId) :
    ∃ p', p.fillGap world gid = .ok p' ∧ PipeOk graceNs p' ∧ p'.tf = p.tf := by
  obtain ⟨candles, seen, hbooks⟩ := h
  obtain ⟨g, miss, hg, hm, -⟩ := hbooks.accounts.gapOf_ok hgid
  unfold IngestPipeline.fillGap
  rw [hg]
  dsimp only
  -- a gap filled meanwhile needs nothing
  by_cases hfilled : g.status = .filled
  · rw [if_pos hfilled]
    exact ⟨p, rfl, ⟨candles, seen, hbooks⟩, rfl⟩
  · rw [if_neg hfilled]
    cases hback : p.backfill with
    | none =>
      obtain ⟨p', hskip, hok⟩ := skipMissing_ok ⟨candles, seen, hbooks⟩ hgid
      exact ⟨p', hskip, hok, (IngestPipeline.skipMissing_same hskip).tf⟩
    | some results =>
      obtain ⟨g', d', hbegin, hget⟩ :=
        GapAccounts.beginFill_ok (world.clock p.reads) hg hfilled
      obtain ⟨hr, hst⟩ := hbooks.accounts.books.beginFill hbegin
      have hbegun := restated_books hbooks hr g'
      have hstamp : ∀ ev ∈ (results.headD ⟨[], 0, none⟩).events, Stamped ev := by
        intro ev hev
        cases results with
        | nil => cases hev
        | cons r rs => exact hbooks.hook _ hback r List.mem_cons_self ev hev
      have hanswered : PipeOk graceNs (((p.called d').gapChanged g').answer results).1 := by
        refine ⟨candles, seen, { hbegun with hook := fun rs hrs r hmem ev hev => ?_ }⟩
        cases hrs
        exact hbooks.hook _ hback r (List.mem_of_mem_tail hmem) ev hev
      obtain ⟨p₂, hall, hstep, htf⟩ := acceptAll_ok world hstamp hanswered hgrace
      obtain ⟨g₂, hg₂, hst₂⟩ := hstep.filling gid g' hget hst
      obtain ⟨p', hend, hok⟩ := endFill_ok world hstep.ok hg₂ hst₂
      refine ⟨p', ?_, hok, (IngestPipeline.endFill_same hend).tf.trans htf⟩
      exact bind_eq_ok.mpr ⟨(g', d'), hbegin, bind_eq_ok.mpr ⟨p₂, hall, hend⟩⟩

/-! ### The loop and the calls -/

/-- **The loop over the queue**, by induction on the answers of the hook and the queue. -/
theorem fillLoop_ok (h : PipeOk graceNs p) (hgrace : graceNs < p.tf.ns - nsPerMs) :
    ∃ p', p.fillLoop world = .ok p' ∧ PipeOk graceNs p' ∧ p'.tf = p.tf := by
  -- by the recursion of the loop; its second case, an error, cannot arise
  fun_induction IngestPipeline.fillLoop world p with
  | case1 p hqueue =>
    obtain ⟨candles, seen, hbooks⟩ := h
    exact ⟨_, rfl, ⟨candles, seen, { hbooks with }⟩, rfl⟩
  | case2 p gid rest hqueue e hfill =>
    obtain ⟨candles, seen, hbooks⟩ := h
    have hgid := hbooks.queue gid (by rw [hqueue]; exact List.mem_cons_self)
    have hpopped : PipeOk graceNs { p with toFill := rest, filling := true } :=
      ⟨candles, seen, { hbooks with
        queue := fun x hx => hbooks.queue x (by rw [hqueue]; exact List.mem_cons_of_mem _ hx) }⟩
    obtain ⟨p', hok, -⟩ := fillGap_ok world hpopped hgrace hgid
    rw [hfill] at hok
    cases hok
  | case3 p gid rest hqueue p₁ hfill ih =>
    obtain ⟨candles, seen, hbooks⟩ := h
    have hgid := hbooks.queue gid (by rw [hqueue]; exact List.mem_cons_self)
    have hpopped : PipeOk graceNs { p with toFill := rest, filling := true } :=
      ⟨candles, seen, { hbooks with
        queue := fun x hx => hbooks.queue x (by rw [hqueue]; exact List.mem_cons_of_mem _ hx) }⟩
    obtain ⟨p', hok, hkept, htf⟩ := fillGap_ok world hpopped hgrace hgid
    rw [hfill] at hok
    cases hok
    obtain ⟨p', hloop, hend, htf'⟩ := ih hkept (by rw [htf]; exact hgrace)
    exact ⟨p', hloop, hend, htf'.trans htf⟩

/-- `_on_gaps` returns, and keeps the books. -/
theorem onGaps_ok (h : PipeOk graceNs p) (hgrace : graceNs < p.tf.ns - nsPerMs)
    {changed : List GapRecord} (hlisted : Listed p.detector changed) :
    ∃ p', p.onGaps world changed = .ok p' ∧ PipeOk graceNs p' ∧ p'.tf = p.tf := by
  have henqueued := enqueue_ok h hlisted
  unfold IngestPipeline.onGaps IngestPipeline.onGapsWith
  split
  · exact ⟨_, rfl, henqueued, rfl⟩
  · exact fillLoop_ok world henqueued hgrace

/-- Confirming the candidates returns, and keeps the books. -/
theorem flushHoles_ok (h : PipeOk graceNs p) (hgrace : graceNs < p.tf.ns - nsPerMs) :
    ∃ p', p.flushHoles world = .ok p' ∧ PipeOk graceNs p' ∧ p'.tf = p.tf := by
  obtain ⟨candles, seen, hbooks⟩ := h
  have hm := hbooks.accounts.confirm (world.clock p.reads) true
  exact onGaps_ok world ⟨_, _, hbooks.moved hm⟩ hgrace hm.listed

/-- What an item of the session brings. -/
def IngestPipeline.Item.Stamped : IngestPipeline.Item → Prop
  | .event ev => FuzzHelm.Stamped ev
  | .malformed _ => True
  | .disconnected _ => True

/-- **One item of the session** keeps the invariant. -/
theorem process_ok (h : PipeOk graceNs p) (hgrace : graceNs < p.tf.ns - nsPerMs)
    {item : IngestPipeline.Item} (hstamp : item.Stamped) :
    ∃ p', p.process world item = .ok p' ∧ PipeOk graceNs p' ∧ p'.tf = p.tf := by
  -- an event, a refused frame, or a break
  cases item with
  | event ev =>
    obtain ⟨o, p₁, htake, hstep, hlisted⟩ := take_ok world h hgrace hstamp
    have htf := (IngestPipeline.take_same htake).tf
    show ∃ p', p.accept world ev = .ok p' ∧ _
    unfold IngestPipeline.accept IngestPipeline.acceptWith
    rw [htake]
    cases o with
    | none => exact ⟨p₁, rfl, hstep.ok, htf⟩
    | some changed =>
      obtain ⟨p', hgaps, hok, htf'⟩ :=
        onGaps_ok world hstep.ok (by rw [htf]; exact hgrace) (hlisted changed rfl)
      exact ⟨p', hgaps, hok, htf'.trans htf⟩
  | malformed e =>
    obtain ⟨candles, seen, hbooks⟩ := h
    exact ⟨p.invalid e, rfl, ⟨candles, seen, { hbooks with }⟩, rfl⟩
  | disconnected conn =>
    -- the break itself is noted outside the books
    have hnoted : PipeOk graceNs { p with
        sunk := { p.sunk with
          disconnects := p.sunk.disconnects ++ [conn]
          calls := p.sunk.calls ++ [.disconnect conn] } } := by
      obtain ⟨candles, seen, hbooks⟩ := h
      exact ⟨candles, seen, { hbooks with }⟩
    show ∃ p', p.disconnect world conn = .ok p' ∧ _
    unfold IngestPipeline.disconnect
    dsimp only
    split
    · exact flushHoles_ok world hnoted hgrace
    · exact ⟨_, rfl, hnoted, rfl⟩

/-- **Run lemma**: the invariant holds after every session. -/
theorem processAll_ok {items : List IngestPipeline.Item} (hstamp : ∀ item ∈ items, item.Stamped) :
    ∀ {p : IngestPipeline}, PipeOk graceNs p → graceNs < p.tf.ns - nsPerMs →
      ∃ p', items.foldlM (IngestPipeline.process world) p = .ok p' ∧ PipeOk graceNs p' ∧
        p'.tf = p.tf := by
  induction items with
  | nil => exact fun {p} h _ => ⟨p, rfl, h, rfl⟩
  | cons item items ih =>
    intro p h hgrace
    obtain ⟨p₁, hone, hok, htf⟩ := process_ok world h hgrace (hstamp item List.mem_cons_self)
    obtain ⟨p₂, hall, hok₂, htf₂⟩ := ih (fun i hi => hstamp i (List.mem_cons_of_mem _ hi)) hok
      (by rw [htf]; exact hgrace)
    refine ⟨p₂, ?_, hok₂, htf₂.trans htf⟩
    rw [List.foldlM_cons, hone]
    exact hall

end Steps

/-! ### The end of the stream -/

/-- How often the minute `m` has been handed to `on_candle`. -/
def timesHanded (p : IngestPipeline) (m : ℤ) : ℕ :=
  (p.sunk.candles.map Candle.openTimeNs).count m

/-- **No candle is lost silently.** -/
structure NoCandleLost (tf : Timeframe) (p : IngestPipeline) : Prop where
  /-- A minute between the first and the last candle that have been handed over has been handed
      over once, or a gap that is not full misses it. -/
  between : ∀ first ∈ p.sunk.candles.head?, ∀ last ∈ p.sunk.candles.getLast?, ∀ m,
    first.openTimeNs ≤ m → m ≤ last.openTimeNs → m % tf.ns = 0 →
    timesHanded p m = 1 ∨ ∃ gid g, p.detector.gaps.get? gid = some g ∧ g.stream = .klines ∧
      g.status ≠ .filled ∧ m ∈ p.detector.missingIn .klines gid
  /-- Every minute of a full gap has been handed over once. -/
  filled : ∀ gid g, p.detector.gaps.get? gid = some g → g.stream = .klines →
    g.status = .filled → ∀ m, Covers tf.ns g m → timesHanded p m = 1
  /-- No minute is handed over twice. -/
  once : ∀ m, timesHanded p m ≤ 1

section Finish

variable {graceNs : ℤ} {candles : List Candle} {seen : List ℤ} {p : IngestPipeline}

/-- A minute that was handed over was handed over once. -/
theorem AllHanded.count_eq {tf : Timeframe} {delivered : ℤ → Prop} {first : ℤ}
    (h : AggBooks.AllHanded tf delivered first p.sunk.candles) :
    (∀ m, timesHanded p m ≤ 1) ∧ ∀ m, Handed p.sunk.candles m → timesHanded p m = 1 := by
  have hnodup : (p.sunk.candles.map Candle.openTimeNs).Nodup := by
    rw [List.Nodup, List.pairwise_map]
    exact h.ascending.imp fun hlt => hlt.ne
  refine ⟨fun m => List.nodup_iff_count_le_one.mp hnodup m, fun m hm => ?_⟩
  obtain ⟨c, hc, rfl⟩ := hm
  exact List.count_eq_one_of_mem hnodup (List.mem_map_of_mem hc)

/-- The first and the last of the candles that have been handed over. -/
theorem AllHanded.mem_ends {tf : Timeframe} {delivered : ℤ → Prop} {first : ℤ}
    (h : AggBooks.AllHanded tf delivered first p.sunk.candles) {c : Candle}
    (hc : c ∈ p.sunk.candles) : first ≤ c.openTimeNs ∧ delivered c.openTimeNs :=
  ⟨(h.given c hc).1, (h.given c hc).2.2⟩

/-- **The flush of the aggregator** ends the stream. -/
theorem noCandleLost_of_flush (h : PipeBooks graceNs candles seen p) :
    NoCandleLost p.tf (p.release p.aggregator.flush) := by
  by_cases hcandles : candles = []
  · obtain ⟨hstart, hhanded⟩ := h.ledger.before hcandles
    have hout : (p.release p.aggregator.flush).sunk.candles = [] := by
      show p.sunk.candles ++ p.aggregator.flush.1 = []
      rw [hhanded, AggBooks.flush_empty hstart.held]
      rfl
    refine ⟨fun first hfirst => ?_, fun gid g hg hs => ?_, fun m => ?_⟩
    · rw [hout] at hfirst
      cases hfirst
    · exact absurd hs ((h.accounts.candles.none hcandles).gaps gid g hg)
    · unfold timesHanded
      rw [hout]
      exact Nat.zero_le _
  · obtain ⟨first, lo, nxt, hfirst, hbooks, hagg⟩ := h.aggBooks hcandles
    have hall : AggBooks.AllHanded p.tf (Delivered candles) first
        (p.release p.aggregator.flush).sunk.candles := h.aggTf ▸ hagg.flush
    obtain ⟨honce, hcount⟩ := AllHanded.count_eq hall
    have hb := h.accounts.books
    refine ⟨fun c hc c' hc' m hle hle' haligned => ?_, fun gid g hg hs hst m hm => ?_, honce⟩
    · by_cases hm : Handed (p.release p.aggregator.flush).sunk.candles m
      · exact .inl (hcount m hm)
      · right
        obtain ⟨hfirst', -⟩ := AllHanded.mem_ends hall (List.mem_of_mem_head? hc)
        obtain ⟨-, hlast⟩ := AllHanded.mem_ends hall (List.mem_of_mem_getLast? hc')
        obtain ⟨lo', hlo', hreach⟩ := h.settled _ hlast
        rw [hbooks.kLo] at hlo'
        cases hlo'
        -- a minute that has not been handed over is not the last one, so it has been settled
        have hne : m ≠ c'.openTimeNs := by
          rintro rfl
          exact hm ⟨c', List.mem_of_mem_getLast? hc', rfl⟩
        have hslot : Slot p.detector.tf.ns first lo m := by
          rw [h.tf]
          exact ⟨hfirst'.trans hle, (lt_of_le_of_ne hle' hne).trans_le hreach,
            dvd_sub (Int.dvd_of_emod_eq_zero haligned) hfirst⟩
        have hnot : ¬Delivered candles m := fun hd => hm (hall.kept m hd hslot.1)
        have hmissing := (hbooks.settled m hslot).mpr hnot
        simp only [List.not_mem_nil, or_false] at hmissing
        obtain ⟨gid, hin⟩ := hb.owned_iff.mp hmissing
        obtain ⟨g, miss, hg, hmiss, hs, hmem⟩ := GapDetector.mem_missingIn.mp hin
        refine ⟨gid, g, hg, hs, fun hst => ?_, hin⟩
        have hempty := hb.filled gid g hg hst
        rw [hmiss] at hempty
        cases hempty
        exact absurd hmem (Finset.notMem_empty m)
    · -- a full gap misses nothing, so its minutes have been delivered
      have hgap := hbooks.gaps gid g hg hs
      rw [← h.tf] at hm
      have hd : Delivered candles m := by
        rcases hgap.covered m hm with ho | hold
        · obtain ⟨g', miss, -, hmiss, -, hmem⟩ := hb.of_owner ho
          have hempty := hb.filled gid g hg hst
          rw [hmiss] at hempty
          cases hempty
          exact absurd hmem (Finset.notMem_empty m)
        · exact hold.1
      exact hcount m (hall.kept m hd (hgap.slots m hm).1)

end Finish

/-- Before the first item. -/
theorem new_ok (canon : String) (tf : Timeframe) (spec : Option InstrumentSpec)
    {backfill : Option (List FillResult)} (graceMs maxReorderIds : ℤ)
    (dedupWindow : Option {n : ℕ // 0 < n})
    (hhook : ∀ results ∈ backfill, ∀ r ∈ results, ∀ ev ∈ r.events, Stamped ev) :
    PipeOk (graceMs * nsPerMs)
      (.new canon tf spec backfill graceMs maxReorderIds dedupWindow) := by
  refine ⟨[], [], .init .., rfl, rfl, rfl, rfl, rfl, fun c hc => ?_, fun m hm => ?_,
    ⟨fun _ => ⟨⟨rfl, rfl, rfl, rfl, rfl⟩, rfl⟩, fun c hc => ?_⟩, fun gid hgid => ?_, hhook⟩
  · cases hc
  · obtain ⟨c, hc, -⟩ := hm
    cases hc
  · cases hc
  · cases hgid

/-- **No silent candle loss**: a session is processed to its end, whatever its items and the answers
    of the hook, and no candle is lost silently. -/
theorem no_silent_loss (world : Surroundings) (canon : String) (tf : Timeframe)
    (spec : Option InstrumentSpec) (backfill : Option (List FillResult))
    (graceMs maxReorderIds : ℤ) (dedupWindow : Option {n : ℕ // 0 < n})
    (hgrace : graceMs < tf.ms - 1) (items : List IngestPipeline.Item)
    (hitems : ∀ item ∈ items, item.Stamped)
    (hhook : ∀ results ∈ backfill, ∀ r ∈ results, ∀ ev ∈ r.events, Stamped ev) :
    ∃ p, (IngestPipeline.new canon tf spec backfill graceMs maxReorderIds dedupWindow).run world
        items = .ok p ∧ NoCandleLost tf p := by
  have hnew := new_ok canon tf spec graceMs maxReorderIds dedupWindow hhook
  have hns : graceMs * nsPerMs < tf.ns - nsPerMs := by
    unfold Timeframe.ns nsPerMs
    omega
  obtain ⟨p₁, hall, hok₁, htf₁⟩ := processAll_ok world hitems hnew hns
  obtain ⟨p₂, hflush, ⟨candles, seen, hbooks⟩, htf₂⟩ :=
    flushHoles_ok world hok₁ (by rw [htf₁]; exact hns)
  have htf : p₂.tf = tf := htf₂.trans htf₁
  refine ⟨p₂.release p₂.aggregator.flush, ?_, htf ▸ noCandleLost_of_flush hbooks⟩
  exact bind_eq_ok.mpr ⟨p₁, hall, bind_eq_ok.mpr ⟨p₂, hflush, rfl⟩⟩

/-! ### A session -/

/-- The closed candle of the minute `i`, stamped `late` milliseconds after its close. -/
def sampleCandle (i late : ℤ) (uid : String) : Candle where
  instrument := "BTC/USDT:PERP"
  venue := "binance"
  tf := "1m"
  openTimeNs := i * 60000000000
  closeTimeNs := i * 60000000000 + 59999000000
  o := 100
  h := 101
  l := 99
  c := 100
  volume := 2
  quoteVolume := 200
  tradesCount := 3
  vwap := none
  isClosed := true
  isSynthetic := false
  src := 1
  tsEventNs := i * 60000000000 + 59999000000 + late * nsPerMs
  tsIngestNs := i * 60000000000 + 60000000000
  eventUid := uid

/-- The stream brings the minutes 0, 1, 3 and 5, and minute 2 late; the hook has minute 4. -/
theorem no_silent_loss_sample :
    ∃ p, (IngestPipeline.new "BTC/USDT:PERP" .minute none
      (some [⟨[.candle (sampleCandle 4 15 "k4")], 1, none⟩]) 2000 50 none).run
        ⟨fun _ => MarketEvent.eventUid, fun _ => 0⟩
        [.event (.candle (sampleCandle 0 10 "k0")), .event (.candle (sampleCandle 1 12 "k1")),
          .event (.candle (sampleCandle 3 9 "k3")), .event (.candle (sampleCandle 5 11 "k5")),
          .event (.candle (sampleCandle 2 200000 "k2"))] = .ok p ∧
      NoCandleLost .minute p := by
  -- the sample candles come after their close
  have hstamped : ∀ (i late : ℤ) (uid : String), 0 ≤ late →
      Stamped (.candle (sampleCandle i late uid)) := by
    intro i late uid hlate _
    simp only [sampleCandle, nsPerMs]
    omega
  refine no_silent_loss _ _ _ _ _ _ _ _ (by decide) _ ?_ ?_
  · simp only [List.forall_mem_cons, List.not_mem_nil, false_implies, implies_true, and_true]
    exact ⟨hstamped 0 10 _ (by decide), hstamped 1 12 _ (by decide), hstamped 3 9 _ (by decide),
      hstamped 5 11 _ (by decide), hstamped 2 200000 _ (by decide)⟩
  · intro results hresults r hr ev hev
    cases hresults
    cases List.mem_singleton.mp hr
    cases List.mem_singleton.mp hev
    exact hstamped 4 15 _ (by decide)

end FuzzHelm
