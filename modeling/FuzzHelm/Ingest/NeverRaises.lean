import FuzzHelm.Ingest.GapAccounts
import FuzzHelm.Ingest.Pipeline

namespace FuzzHelm

open Lib

/-!
# The pipeline never raises

The detector raises for a gap that it does not know and for a change of status that is not
allowed.  The pipeline asks for neither, whatever it is given.

* `GapAccounts.beginFill_ok`, `GapAccounts.resolve_ok` — an attempt to fill a known gap;
* `PipeSafe` — the detector keeps its books, and the queue holds gaps that it knows;
* `process_safe`, `finish_safe` — every call of the pipeline returns and keeps that.
-/

section Detector

variable {candles : List Candle} {seen : List ℤ} {d : GapDetector} {old : ℕ} {gid : ℕ}

/-- The record and the missing keys of a gap of the detector. -/
theorem GapAccounts.gapOf_ok (h : GapAccounts candles seen old d)
    (hgid : 0 < gid ∧ gid < d.nextId) : ∃ g miss, d.gaps.get? gid = some g ∧
      d.missing.get? gid = some miss ∧ d.gapOf gid = .ok (g, miss) := by
  have hsome := (h.books.fresh gid).mpr hgid
  have hmiss := (h.books.paired gid).symm.trans hsome
  obtain ⟨g, hg⟩ := Option.isSome_iff_exists.mp hsome
  obtain ⟨miss, hm⟩ := Option.isSome_iff_exists.mp hmiss
  refine ⟨g, miss, hg, hm, ?_⟩
  unfold GapDetector.gapOf
  rw [hg, hm]

/-- A gap that is not full may be filled. -/
theorem GapAccounts.beginFill_ok (now : ℤ) {g : GapRecord} (hg : d.gaps.get? gid = some g)
    (hfilled : g.status ≠ .filled) : ∃ g' d', d.beginFill now gid = .ok (g', d') ∧
      d'.gaps.get? gid = some g' := by
  have hallowed : ¬(GapStatus.filling ≠ g.status ∧ GapStatus.filling ∉ transitions g.status) := by
    rintro ⟨hne, hbad⟩
    cases hst : g.status <;> rw [hst] at hne hbad hfilled <;> simp [transitions] at *
  unfold GapDetector.beginFill
  rw [hg]
  simp only [bind, Except.bind, transition, if_neg hallowed]
  exact ⟨_, _, rfl, Dict.get?_insert_self _ _ _⟩

/-- An attempt may end in any of the three ways. -/
theorem GapAccounts.resolve_ok (h : GapAccounts candles seen old d) (now : ℤ) {g : GapRecord}
    (hg : d.gaps.get? gid = some g) (hs : g.status = .filling) :
    ∃ g' d', d.resolve now gid = .ok (g', d') := by
  have hgid : 0 < gid ∧ gid < d.nextId := by
    rw [← h.books.fresh, hg]
    rfl
  obtain ⟨g₀, miss, hg₀, hm, hgap⟩ := h.gapOf_ok hgid
  rw [hg] at hg₀
  cases hg₀
  have hallowed : ∀ filled, ¬(GapDetector.statusAfter miss filled ≠ g.status ∧
      GapDetector.statusAfter miss filled ∉ transitions g.status) := by
    intro filled hbad
    rw [hs] at hbad
    unfold GapDetector.statusAfter at hbad
    split at hbad
    · exact hbad.2 (by decide)
    · split at hbad <;> exact hbad.2 (by decide)
  unfold GapDetector.resolve
  rw [hgap]
  simp only [bind, Except.bind, transition, if_neg (hallowed _)]
  exact ⟨_, _, rfl⟩

end Detector

/-! ### The invariant -/

/-- **Safe**: the detector keeps its books, and the queue holds gaps that it knows. -/
structure PipeSafe (p : IngestPipeline) : Prop where
  accounts : ∃ candles seen, GapAccounts candles seen p.detector.nextId p.detector
  queue : ∀ gid ∈ p.toFill, 0 < gid ∧ gid < p.detector.nextId

/-- What a step of the pipeline keeps: it stays safe, and the gaps that are being filled are. -/
structure StepSafe (p p' : IngestPipeline) : Prop where
  safe : PipeSafe p'
  filling : KeepsFilling p.detector p'.detector

namespace PipeSafe

variable {p p' : IngestPipeline}

/-- Only the detector and the queue count. -/
theorem congr (h : PipeSafe p) (hd : p'.detector = p.detector) (hq : p'.toFill = p.toFill) :
    PipeSafe p' := by
  refine ⟨?_, ?_⟩
  · rw [hd]
    exact h.accounts
  · rw [hd, hq]
    exact h.queue

/-- What does not touch the detector and the sinks is safe. -/
theorem untouched (h : PipeSafe p) (hun : IngestPipeline.Untouched p p') : PipeSafe p' :=
  h.congr hun.detector hun.toFill

/-- The detector is called. -/
theorem moves (h : PipeSafe p) {d' : GapDetector}
    (haccounts : ∃ candles seen, GapAccounts candles seen d'.nextId d')
    (hnext : p.detector.nextId ≤ d'.nextId) : PipeSafe (p.called d') :=
  ⟨haccounts, fun gid hgid => ⟨(h.queue gid hgid).1, (h.queue gid hgid).2.trans_le hnext⟩⟩

/-- What moves the detector within its accounts is safe. -/
theorem moved (h : PipeSafe p) {candles : List Candle} {seen : List ℤ} {d' : GapDetector}
    {records : List GapRecord}
    (hm : GapAccounts.Moved candles seen p.detector.nextId p.detector records d') :
    StepSafe p (p.called d') :=
  ⟨h.moves ⟨candles, seen, hm.accounts.relax hm.nextId⟩ hm.nextId, hm.filling⟩

/-- The status of one gap changes. -/
theorem restated (h : PipeSafe p) {d' : GapDetector} (hr : Restated p.detector d')
    (g : GapRecord) : PipeSafe ((p.called d').gapChanged g) := by
  obtain ⟨candles, seen, haccounts⟩ := h.accounts
  obtain ⟨hkept, -, hnext⟩ := haccounts.restated hr
  exact (h.moves ⟨candles, seen, hkept.relax hnext⟩ hnext).congr rfl rfl

/-- A new pipeline is safe. -/
theorem new (canon : String) (tf : Timeframe) (spec : Option InstrumentSpec)
    (backfill : Option (List FillResult)) (graceMs maxReorderIds : ℤ)
    (dedupWindow : Option {n : ℕ // 0 < n}) :
    PipeSafe (.new canon tf spec backfill graceMs maxReorderIds dedupWindow) :=
  ⟨⟨[], [], .init canon tf graceMs maxReorderIds _⟩, fun gid hgid => by cases hgid⟩

end PipeSafe

/-! ### One event -/

section Steps

variable {p p' : IngestPipeline} (world : Surroundings)

/-- **An accepted event**, by its kind. -/
theorem dispatch_safe (h : PipeSafe p) (ev : MarketEvent) (outcome : DedupOutcome) :
    ∃ changed p', p.dispatch world ev outcome = .ok (changed, p') ∧ StepSafe p p' ∧
      Listed p'.detector changed := by
  obtain ⟨candles, seen, haccounts⟩ := h.accounts
  -- books and marks are one call of `on_time`
  have hother : ∀ ts, ∃ changed p', (.ok (p.takeOther world ts) :
      Except PyError (List GapRecord × IngestPipeline)) = .ok (changed, p') ∧ StepSafe p p' ∧
      Listed p'.detector changed := by
    intro ts
    have hm := haccounts.onTime (world.clock p.reads) ts
    exact ⟨_, _, rfl, h.moved hm, hm.listed⟩
  cases ev with
  | candle c =>
    -- a minute given up moves the exchange time only
    have hdetect : ∃ changed d' candles', p.detectCandle world c = .ok (changed, d') ∧
        GapAccounts.Moved candles' seen p.detector.nextId p.detector changed d' := by
      unfold IngestPipeline.detectCandle
      split
      · exact ⟨_, _, _, rfl, haccounts.onTime (world.clock p.reads) c.tsEventNs⟩
      · obtain ⟨changed, d', hcall, hm⟩ := haccounts.onKline (world.clock p.reads) c
        rw [hcall]
        exact ⟨_, _, _, rfl, hm⟩
    obtain ⟨changed, d', candles', hcall, hm⟩ := hdetect
    show ∃ changed p', p.takeCandle world c = .ok (changed, p') ∧ _
    unfold IngestPipeline.takeCandle
    rw [hcall]
    have hstep := h.moved hm
    exact ⟨changed, _, rfl, ⟨hstep.safe.congr rfl rfl, hstep.filling⟩, hm.listed⟩
  | trade t =>
    obtain ⟨changed, d', hcall, hm⟩ := haccounts.onTrade (world.clock p.reads) t
    have hhand : (p.handTrade t outcome).detector = p.detector := by
      unfold IngestPipeline.handTrade
      split <;> rfl
    have hsame := h.congr hhand (p.handTrade_same t outcome).toFill
    have hstep := hsame.moved (hhand.symm ▸ hm)
    show ∃ changed p', p.takeTrade world t outcome = .ok (changed, p') ∧ _
    unfold IngestPipeline.takeTrade
    rw [hcall]
    exact ⟨changed, _, rfl, ⟨hstep.safe, hm.filling⟩, hm.listed⟩
  | book b => exact hother b.tsEventNs
  | mark m => exact hother m.tsEventNs

/-- **One event** up to the gaps that have changed. -/
theorem take_safe (h : PipeSafe p) (ev : MarketEvent) :
    ∃ o p', p.take world ev = .ok (o, p') ∧ StepSafe p p' ∧
      ∀ changed ∈ o, Listed p'.detector changed := by
  rcases IngestPipeline.take_cases world p ev with ⟨p', htake, hun⟩ |
    ⟨p₁, outcome, -, hun, htake⟩
  · refine ⟨none, p', htake, ⟨h.untouched hun, .of_eq (by rw [hun.detector])⟩, fun c hc => ?_⟩
    cases hc
  · obtain ⟨changed, p', hdispatch, hstep, hlisted⟩ :=
      dispatch_safe world (h.untouched hun) ev outcome
    refine ⟨some changed, p', ?_, ⟨hstep.safe, hun.detector ▸ hstep.filling⟩, fun c hc => ?_⟩
    · rw [htake, hdispatch]
      rfl
    · cases hc
      exact hlisted

/-- The gaps that have changed join the queue. -/
theorem enqueue_safe (h : PipeSafe p) {changed : List GapRecord}
    (hlisted : Listed p.detector changed) : PipeSafe (p.enqueue changed) := by
  refine ⟨h.accounts, fun gid hgid => ?_⟩
  rcases List.mem_append.mp hgid with hgid | hgid
  · exact h.queue gid hgid
  · obtain ⟨g, hg, rfl⟩ := List.mem_map.mp hgid
    rw [List.mem_filter, decide_eq_true_iff] at hg
    exact hlisted g hg.1 hg.2

/-- **An event of the hook**, while a gap is being filled. -/
theorem acceptWith_safe (h : PipeSafe p) (ev : MarketEvent) :
    ∃ p', p.acceptWith world .ok ev = .ok p' ∧ StepSafe p p' := by
  obtain ⟨o, p₁, htake, hstep, hlisted⟩ := take_safe world h ev
  unfold IngestPipeline.acceptWith
  rw [htake]
  cases o with
  | none => exact ⟨p₁, rfl, hstep⟩
  | some changed =>
    refine ⟨p₁.enqueue changed, ?_, enqueue_safe hstep.safe (hlisted changed rfl), hstep.filling⟩
    show p₁.onGapsWith .ok changed = _
    unfold IngestPipeline.onGapsWith
    split <;> rfl

/-- The events of the hook are safe, by induction on them. -/
theorem acceptAll_safe (evs : List MarketEvent) : ∀ {p : IngestPipeline}, PipeSafe p →
    ∃ p', evs.foldlM (fun p ev => p.acceptWith world .ok ev) p = .ok p' ∧ StepSafe p p' := by
  induction evs with
  | nil => exact fun {p} h => ⟨p, rfl, h, .refl _⟩
  | cons ev evs ih =>
    intro p h
    obtain ⟨p₁, hacc, hstep⟩ := acceptWith_safe world h ev
    obtain ⟨p₂, hall, hstep₂⟩ := ih hstep.safe
    refine ⟨p₂, ?_, hstep₂.safe, hstep.filling.trans hstep₂.filling⟩
    rw [List.foldlM_cons, hacc]
    exact hall

/-! ### One gap -/

/-- What a gap misses is given up. -/
theorem skipMissing_safe (h : PipeSafe p) {gid : ℕ} (hgid : 0 < gid ∧ gid < p.detector.nextId) :
    ∃ p', p.skipMissing gid = .ok p' ∧ PipeSafe p' := by
  obtain ⟨candles, seen, haccounts⟩ := h.accounts
  obtain ⟨g, miss, -, -, hgap⟩ := haccounts.gapOf_ok hgid
  obtain ⟨p', hp'⟩ := IngestPipeline.skipMissing_returns hgap
  exact ⟨p', hp', IngestPipeline.skipMissing_invariant (fun _ _ hq => hq.congr rfl rfl) h hp'⟩

/-- The end of an attempt to fill a gap. -/
theorem endFill_safe (h : PipeSafe p) {gid : ℕ} {g : GapRecord}
    (hg : p.detector.gaps.get? gid = some g) (hs : g.status = .filling) :
    ∃ p', p.endFill world gid = .ok p' ∧ PipeSafe p' := by
  obtain ⟨candles, seen, haccounts⟩ := h.accounts
  obtain ⟨g', d', hres⟩ := haccounts.resolve_ok (world.clock p.reads) hg hs
  obtain ⟨hr, -⟩ := haccounts.books.resolve hres
  have hnext := h.restated hr g'
  unfold IngestPipeline.endFill
  rw [hres]
  by_cases hfull : g'.status ≠ .filled
  · have hgid : 0 < gid ∧ gid < d'.nextId := by
      rw [hr.nextId, ← haccounts.books.fresh, hg]
      rfl
    obtain ⟨p', hskip, hsafe⟩ := skipMissing_safe hnext hgid
    refine ⟨p', ?_, hsafe⟩
    simp only [bind, Except.bind, if_pos hfull]
    exact hskip
  · refine ⟨_, ?_, hnext⟩
    simp only [bind, Except.bind, if_neg hfull]
    rfl

/-- **One gap of the queue.** -/
theorem fillGap_safe (h : PipeSafe p) {gid : ℕ} (hgid : 0 < gid ∧ gid < p.detector.nextId) :
    ∃ p', p.fillGap world gid = .ok p' ∧ PipeSafe p' := by
  obtain ⟨candles, seen, haccounts⟩ := h.accounts
  obtain ⟨g, miss, hg, -, -⟩ := haccounts.gapOf_ok hgid
  unfold IngestPipeline.fillGap
  rw [hg]
  dsimp only
  -- a gap filled meanwhile needs nothing
  by_cases hfilled : g.status = .filled
  · rw [if_pos hfilled]
    exact ⟨p, rfl, h⟩
  · rw [if_neg hfilled]
    -- without a backfill its minutes are given up
    cases hback : p.backfill with
    | none => exact skipMissing_safe h hgid
    | some results =>
      obtain ⟨g', d', hbegin, hget⟩ :=
        GapAccounts.beginFill_ok (world.clock p.reads) hg hfilled
      obtain ⟨hr, hst⟩ := haccounts.books.beginFill hbegin
      have hanswered : PipeSafe (((p.called d').gapChanged g').answer results).1 :=
        (h.restated hr g').congr rfl rfl
      obtain ⟨p₂, hall, hstep⟩ :=
        acceptAll_safe world (((p.called d').gapChanged g').answer results).2.events hanswered
      obtain ⟨g₂, hg₂, hst₂⟩ := hstep.filling gid g' hget hst
      obtain ⟨p', hend, hsafe⟩ := endFill_safe world hstep.safe hg₂ hst₂
      exact ⟨p', bind_eq_ok.mpr ⟨(g', d'), hbegin, bind_eq_ok.mpr ⟨p₂, hall, hend⟩⟩, hsafe⟩

/-! ### The loop and the calls -/

/-- **The loop over the queue**, by induction on the answers of the hook and the queue. -/
theorem fillLoop_safe (h : PipeSafe p) : ∃ p', p.fillLoop world = .ok p' ∧ PipeSafe p' := by
  -- the gap taken from the queue is one of the detector
  have hpopped {p : IngestPipeline} {gid : ℕ} {rest : List ℕ} (h : PipeSafe p)
      (hqueue : p.toFill = gid :: rest) :
      PipeSafe { p with toFill := rest, filling := true } ∧
        0 < gid ∧ gid < p.detector.nextId := by
    refine ⟨⟨h.accounts, fun x hx => h.queue x ?_⟩, h.queue gid ?_⟩
    · rw [hqueue]
      exact List.mem_cons_of_mem _ hx
    · rw [hqueue]
      exact List.mem_cons_self
  -- by the recursion of the loop; its second case, an error, cannot arise
  fun_induction IngestPipeline.fillLoop world p with
  | case1 p hqueue => exact ⟨_, rfl, h.congr rfl rfl⟩
  | case2 p gid rest hqueue e hfill =>
    obtain ⟨hsafe, hgid⟩ := hpopped h hqueue
    obtain ⟨p', hok, -⟩ := fillGap_safe world hsafe hgid
    rw [hfill] at hok
    cases hok
  | case3 p gid rest hqueue p₁ hfill ih =>
    obtain ⟨hsafe, hgid⟩ := hpopped h hqueue
    obtain ⟨p', hok, hkept⟩ := fillGap_safe world hsafe hgid
    rw [hfill] at hok
    cases hok
    exact ih hkept

/-- `_on_gaps` returns, and is safe. -/
theorem onGaps_safe (h : PipeSafe p) {changed : List GapRecord}
    (hlisted : Listed p.detector changed) :
    ∃ p', p.onGaps world changed = .ok p' ∧ PipeSafe p' := by
  have henqueued := enqueue_safe h hlisted
  unfold IngestPipeline.onGaps IngestPipeline.onGapsWith
  split
  · exact ⟨_, rfl, henqueued⟩
  · exact fillLoop_safe world henqueued

/-- Confirming the candidates returns, and is safe. -/
theorem flushHoles_safe (h : PipeSafe p) :
    ∃ p', p.flushHoles world = .ok p' ∧ PipeSafe p' := by
  obtain ⟨candles, seen, haccounts⟩ := h.accounts
  have hm := haccounts.confirm (world.clock p.reads) true
  exact onGaps_safe world (h.moved hm).safe hm.listed

/-- **One item** of a session. -/
theorem process_safe (h : PipeSafe p) (item : IngestPipeline.Item) :
    ∃ p', p.process world item = .ok p' ∧ PipeSafe p' := by
  cases item with
  | event ev =>
    obtain ⟨o, p₁, htake, hstep, hlisted⟩ := take_safe world h ev
    show ∃ p', p.accept world ev = .ok p' ∧ _
    unfold IngestPipeline.accept IngestPipeline.acceptWith
    rw [htake]
    cases o with
    | none => exact ⟨p₁, rfl, hstep.safe⟩
    | some changed => exact onGaps_safe world hstep.safe (hlisted changed rfl)
  | malformed e => exact ⟨p.invalid e, rfl, h.congr rfl rfl⟩
  | disconnected conn =>
    show ∃ p', p.disconnect world conn = .ok p' ∧ _
    unfold IngestPipeline.disconnect
    dsimp only
    split
    · exact flushHoles_safe world (h.congr rfl rfl)
    · exact ⟨_, rfl, h.congr rfl rfl⟩

end Steps

end FuzzHelm
