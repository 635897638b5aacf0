import FuzzHelm.Ingest.NoCandleLost
import FuzzHelm.Ingest.Parts
import FuzzHelm.Workers.IngestWorker
import FuzzHelm.Workers.MeasuredPipeline

namespace FuzzHelm

open Lib

/-!
# The quality rows of a session

The exchange time never moves back, and no candle is released before the first one has been seen.
So a session whose calls are all calm stores rows that stay those of the accounts.

* `Watched` — the invariant of a measured pipeline; `Watched.moved` — a part keeps it;
* `process_watched`, `closePipe_watched` — so do the calls;
* `hour_rows_final` — the rows at the end of a session;
* `stored_row_stale` — a late event, and a row that is not final.
-/

/-! ### The invariant -/

/-- Every call so far has been calm. -/
def MeasuredPipeline.CalmSoFar (m : MeasuredPipeline) : Prop :=
  ∀ s ∈ m.steps, s.before.Calm m.pipe.tf s.noted

/-- As long as all calls are calm, the stored rows are final. -/
def RowsSettled (cfg : Scoring) (m : MeasuredPipeline) (exchangeNs : Option ℤ) : Prop :=
  m.CalmSoFar → FinalRows cfg m.pipe.tf m.quality exchangeNs

/-- **The invariant** of a measured pipeline. -/
structure Watched (cfg : Scoring) (m : MeasuredPipeline) : Prop where
  safe : PipeSafe m.pipe
  aggTf : m.pipe.aggregator.tf = m.pipe.tf
  hour : m.pipe.tf.ns ∣ hourNs
  idle : m.quality.firstOpenNs = none → Idle m.pipe.aggregator
  settled : RowsSettled cfg m m.pipe.detector.latestNs

section Notes

variable {cfg : Scoring} {m : MeasuredPipeline} {exchangeNs : Option ℤ}

/-- **A call is noted.** -/
theorem RowsSettled.note (h : RowsSettled cfg m exchangeNs) (hhour : m.pipe.tf.ns ∣ hourNs)
    {n : Noted}
    (hexchange : n.exchangeNs = exchangeNs)
    (hfirst : ∀ c, n.call = .candle c → m.quality.firstOpenNs.isSome)
    (hgrid : ∀ c, n.call = .event (.candle c) → c.tf = m.pipe.tf.name →
      m.pipe.tf.ns ∣ c.openTimeNs) : RowsSettled cfg (m.note cfg n) exchangeNs := by
  intro hcalm
  have hlast : m.quality.Calm m.pipe.tf n := hcalm ⟨m.quality, n⟩ (by
    show _ ∈ m.steps ++ [_]
    exact List.mem_append_right _ List.mem_cons_self)
  have hbefore : m.CalmSoFar := fun s hs => hcalm s (List.mem_append_left _ hs)
  exact (h hbefore).note hhour hlast hexchange hfirst hgrid

/-- **Calls are noted** one after another: candles are released when the first one has been
    seen. -/
theorem RowsSettled.noteAll (notes : List Noted) : ∀ {m : MeasuredPipeline},
    RowsSettled cfg m exchangeNs → m.pipe.tf.ns ∣ hourNs →
    (∀ n ∈ notes, n.exchangeNs = exchangeNs) →
    (∀ n ∈ notes, ∀ c, n.call = .candle c → m.quality.firstOpenNs.isSome) →
    (∀ n ∈ notes, ∀ c, n.call = .event (.candle c) → c.tf = m.pipe.tf.name →
      m.pipe.tf.ns ∣ c.openTimeNs) →
    RowsSettled cfg (.noteAll cfg m notes) exchangeNs ∧ (m.quality.firstOpenNs.isSome →
      (MeasuredPipeline.noteAll cfg m notes).quality.firstOpenNs.isSome) := by
  induction notes with
  | nil => exact fun {m} h _ _ _ _ => ⟨h, fun hfirst => hfirst⟩
  | cons n notes ih =>
    intro m h hhour hexchange hfirst hgrid
    have hnext := h.note hhour (hexchange n List.mem_cons_self) (hfirst n List.mem_cons_self)
      (hgrid n List.mem_cons_self)
    have hseen (hm : m.quality.firstOpenNs.isSome) : (m.note cfg n).quality.firstOpenNs.isSome :=
      HourQuality.note_first hm n
    obtain ⟨hall, hkept⟩ := ih hnext hhour (fun x hx => hexchange x (List.mem_cons_of_mem _ hx))
      (fun x hx c hc => hseen (hfirst x (List.mem_cons_of_mem _ hx) c hc))
      (fun x hx => hgrid x (List.mem_cons_of_mem _ hx))
    exact ⟨hall, fun hm => hkept (hseen hm)⟩

end Notes

section Calls

variable (world : Surroundings) {cfg : Scoring} {m m' : MeasuredPipeline}

/-- **A part of the pipeline keeps the invariant.** -/
theorem Watched.moved (h : Watched cfg m) {p : IngestPipeline} (hpart : Part m.pipe p)
    (fromStream : Bool) (bucketNs : ℤ) : Watched cfg (m.moved cfg fromStream bucketNs p) := by
  obtain ⟨calls, hcalls, hhanding⟩ := hpart.calls
  have hhour : p.tf.ns ∣ hourNs := by
    rw [hpart.tf]
    exact h.hour
  have hrest : RowsSettled cfg (m.moved cfg fromStream bucketNs p) p.detector.latestNs ∧
      ((m.moved cfg fromStream bucketNs p).quality.firstOpenNs = none → Idle p.aggregator) := by
    have hstart : RowsSettled cfg { m with pipe := p } p.detector.latestNs := by
      intro hcalm
      have hsame : m.CalmSoFar := fun s hs => hpart.tf ▸ hcalm s hs
      show FinalRows cfg p.tf m.quality p.detector.latestNs
      rw [hpart.tf]
      exact (h.settled hsame).later hpart.later
    unfold MeasuredPipeline.moved
    rw [hcalls, List.drop_left]
    cases hhanding with
    | @opening c released htf hgrid =>
      -- the candle is seen before any other is released
      set n : Noted := ⟨.event (.candle c), fromStream, bucketNs, p.detector.latestNs⟩ with hn
      have hone := hstart.note hhour (n := n) rfl (fun c' hc' => by cases hc') fun c' hc' _ => by
        cases hc'
        show p.tf.ns ∣ c.openTimeNs
        rw [hpart.tf]
        exact hgrid
      have hseen :
          ((MeasuredPipeline.note cfg { m with pipe := p } n).quality.firstOpenNs).isSome :=
        HourQuality.note_opening rfl (by
          show c.tf = p.tf.name
          rw [hpart.tf]
          exact htf)
      obtain ⟨hall, hkept⟩ := hone.noteAll ((released.map SinkCall.candle).map fun call =>
          ⟨call, fromStream, bucketNs, p.detector.latestNs⟩) hhour (by simp) (fun _ _ _ _ => hseen)
        (by simp)
      refine ⟨hall, fun hnone => ?_⟩
      have hsome := hkept hseen
      change ((MeasuredPipeline.noteAll cfg (MeasuredPipeline.note cfg { m with pipe := p } n)
        _).quality.firstOpenNs) = none at hnone
      rw [hnone] at hsome
      cases hsome
    | other hevent hnone =>
      obtain ⟨hall, hkept⟩ := hstart.noteAll (calls.map fun call =>
          ⟨call, fromStream, bucketNs, p.detector.latestNs⟩) hhour (by simp)
        (by
          intro n hn c hc
          obtain ⟨call, hcall, rfl⟩ := List.mem_map.mp hn
          rw [Option.isSome_iff_ne_none]
          intro hidle
          exact (hnone (h.idle hidle)).2 c (hc ▸ hcall))
        (by
          intro n hn c hc htf
          obtain ⟨call, hcall, rfl⟩ := List.mem_map.mp hn
          have hne := hevent c (hc ▸ hcall)
          rw [← hpart.tf] at hne
          exact absurd htf hne)
      refine ⟨hall, fun hend => (hnone (h.idle ?_)).1⟩
      by_contra hsome
      have hbad := hkept (Option.isSome_iff_ne_none.mpr hsome)
      rw [hend] at hbad
      cases hbad
  refine ⟨?_, ?_, ?_, ?_, ?_⟩
  · rw [MeasuredPipeline.moved_pipe]
    exact hpart.safe
  · rw [MeasuredPipeline.moved_pipe, hpart.aggTf, hpart.tf]
    exact h.aggTf
  · rw [MeasuredPipeline.moved_pipe]
    exact hhour
  · rw [MeasuredPipeline.moved_pipe]
    exact hrest.2
  · rw [MeasuredPipeline.moved_pipe]
    exact hrest.1

/-- Only the queue changes. -/
theorem Watched.requeued (h : Watched cfg m) {toFill : List ℕ} {filling : Bool}
    (hqueue : ∀ gid ∈ toFill, 0 < gid ∧ gid < m.pipe.detector.nextId) :
    Watched cfg { m with pipe := { m.pipe with toFill := toFill, filling := filling } } :=
  ⟨⟨h.safe.accounts, hqueue⟩, h.aggTf, h.hour, h.idle, h.settled⟩

/-- **An event** up to the gaps that have changed. -/
theorem take_watched (h : Watched cfg m) (fromStream : Bool) (ev : MarketEvent) :
    ∃ o m', m.take world cfg fromStream ev = .ok (o, m') ∧ Watched cfg m' ∧
      KeepsFilling m.pipe.detector m'.pipe.detector ∧
      ∀ changed ∈ o, Listed m'.pipe.detector changed := by
  obtain ⟨o, p', htake, hstep, -⟩ := take_safe world h.safe ev
  obtain ⟨hpart, hlisted⟩ := take_part h.safe h.aggTf htake
  refine ⟨o, m.moved cfg fromStream ev.tsEventNs p', ?_, h.moved hpart _ _, ?_, ?_⟩
  · unfold MeasuredPipeline.take
    rw [htake]
    rfl
  · rw [MeasuredPipeline.moved_pipe]
    exact hstep.filling
  · rw [MeasuredPipeline.moved_pipe]
    exact hlisted

/-- Gaps that have changed are reported. -/
theorem enqueue_watched (h : Watched cfg m) {changed : List GapRecord}
    (hlisted : Listed m.pipe.detector changed) :
    Watched cfg (m.movedOn cfg (m.pipe.enqueue changed)) :=
  h.moved (.enqueue h.safe hlisted) false 0

/-- **An event of the hook**, while a gap is being filled. -/
theorem acceptWith_watched (h : Watched cfg m) (ev : MarketEvent) :
    ∃ m', m.acceptWith world cfg .ok false ev = .ok m' ∧ Watched cfg m' ∧
      KeepsFilling m.pipe.detector m'.pipe.detector := by
  obtain ⟨o, m₁, htake, hm₁, hfilling, hlisted⟩ := take_watched world h false ev
  unfold MeasuredPipeline.acceptWith
  rw [htake]
  cases o with
  | none => exact ⟨m₁, rfl, hm₁, hfilling⟩
  | some changed =>
    refine ⟨m₁.movedOn cfg (m₁.pipe.enqueue changed), ?_,
      enqueue_watched hm₁ (hlisted changed rfl), ?_⟩
    · show m₁.onGapsWith cfg .ok changed = _
      unfold MeasuredPipeline.onGapsWith
      split <;> rfl
    · rw [MeasuredPipeline.movedOn_pipe]
      exact hfilling

/-- The events of the hook, by induction on them. -/
theorem acceptAll_watched (evs : List MarketEvent) : ∀ {m : MeasuredPipeline}, Watched cfg m →
    ∃ m', evs.foldlM (fun m ev => m.acceptWith world cfg .ok false ev) m = .ok m' ∧
      Watched cfg m' ∧ KeepsFilling m.pipe.detector m'.pipe.detector := by
  induction evs with
  | nil => exact fun {m} h => ⟨m, rfl, h, .refl _⟩
  | cons ev evs ih =>
    intro m h
    obtain ⟨m₁, hacc, hm₁, hfilling⟩ := acceptWith_watched world h ev
    obtain ⟨m₂, hall, hm₂, hfilling₂⟩ := ih hm₁
    refine ⟨m₂, ?_, hm₂, hfilling.trans hfilling₂⟩
    rw [List.foldlM_cons, hacc]
    exact hall

/-- The end of an attempt to fill a gap. -/
theorem endFill_watched (h : Watched cfg m) {gid : ℕ} {g : GapRecord}
    (hg : m.pipe.detector.gaps.get? gid = some g) (hs : g.status = .filling) :
    ∃ m', m.movedOn cfg <$> m.pipe.endFill world gid = .ok m' ∧ Watched cfg m' := by
  obtain ⟨p', hend, hsafe⟩ := endFill_safe world h.safe hg hs
  obtain ⟨candles, seen, haccounts⟩ := h.safe.accounts
  rw [hend]
  refine ⟨_, rfl, h.moved ?_ _ _⟩
  unfold IngestPipeline.endFill at hend
  obtain ⟨⟨g', d'⟩, hres, hend⟩ := bind_eq_ok.mp hend
  have hfwd := (haccounts.restated (haccounts.books.resolve hres).1).2.1
  have hreleasing : Releasing ((m.pipe.called d').gapChanged g') p' := by
    by_cases hfull : g'.status ≠ .filled
    · simp only [if_pos hfull] at hend
      exact .skipMissing hend
    · simp only [if_neg hfull] at hend
      cases hend
      exact .refl _
  exact hreleasing.after [g'] hsafe hfwd.latestNs rfl rfl rfl

/-- **One gap of the queue.** -/
theorem fillGap_watched (h : Watched cfg m) {gid : ℕ}
    (hgid : 0 < gid ∧ gid < m.pipe.detector.nextId) :
    ∃ m', m.fillGap world cfg gid = .ok m' ∧ Watched cfg m' := by
  obtain ⟨candles, seen, haccounts⟩ := h.safe.accounts
  obtain ⟨g, miss, hg, -, -⟩ := haccounts.gapOf_ok hgid
  unfold MeasuredPipeline.fillGap
  rw [hg]
  dsimp only
  -- a gap filled meanwhile needs nothing
  by_cases hfilled : g.status = .filled
  · rw [if_pos hfilled]
    exact ⟨m, rfl, h⟩
  · rw [if_neg hfilled]
    -- without a backfill its minutes are given up
    cases hback : m.pipe.backfill with
    | none =>
      obtain ⟨p', hskip, hsafe⟩ := skipMissing_safe h.safe hgid
      dsimp only
      rw [hskip]
      have hpart := (Releasing.skipMissing hskip).after [] hsafe (.refl _) rfl rfl
        (List.append_nil _).symm
      exact ⟨_, rfl, h.moved hpart _ _⟩
    | some results =>
      obtain ⟨g', d', hbegin, hget⟩ :=
        GapAccounts.beginFill_ok (world.clock m.pipe.reads) hg hfilled
      obtain ⟨hr, hst⟩ := haccounts.books.beginFill hbegin
      have hsafe : PipeSafe (((m.pipe.called d').gapChanged g').answer results).1 :=
        (h.safe.restated hr g').congr rfl rfl
      have hpart : Part m.pipe (((m.pipe.called d').gapChanged g').answer results).1 :=
        .quiet hsafe (haccounts.restated hr).2.1.latestNs rfl rfl rfl
          (fun c hc => by simp at hc) fun c hc => by simp at hc
      obtain ⟨m₂, hall, hm₂, hfilling⟩ := acceptAll_watched world
        (((m.pipe.called d').gapChanged g').answer results).2.events (h.moved hpart false 0)
      rw [MeasuredPipeline.moved_pipe] at hfilling
      obtain ⟨g₂, hg₂, hst₂⟩ := hfilling gid g' hget hst
      obtain ⟨m', hend, hm'⟩ := endFill_watched world hm₂ hg₂ hst₂
      exact ⟨m', bind_eq_ok.mpr ⟨(g', d'), hbegin, bind_eq_ok.mpr ⟨m₂, hall, hend⟩⟩, hm'⟩

/-- **The loop over the queue**, by induction on the answers of the hook and the queue. -/
theorem fillLoop_watched (h : Watched cfg m) :
    ∃ m', m.fillLoop world cfg = .ok m' ∧ Watched cfg m' := by
  -- the gap taken from the queue is one of the detector
  have hpopped {m : MeasuredPipeline} {gid : ℕ} {rest : List ℕ} (h : Watched cfg m)
      (hqueue : m.pipe.toFill = gid :: rest) :
      Watched cfg (m.popped rest) ∧ 0 < gid ∧ gid < m.pipe.detector.nextId := by
    refine ⟨h.requeued fun x hx => h.safe.queue x ?_, h.safe.queue gid ?_⟩
    · rw [hqueue]
      exact List.mem_cons_of_mem _ hx
    · rw [hqueue]
      exact List.mem_cons_self
  -- by the recursion of the loop; its second case, an error, cannot arise
  fun_induction MeasuredPipeline.fillLoop world cfg m with
  | case1 m hqueue => exact ⟨_, rfl, h.requeued h.safe.queue⟩
  | case2 m gid rest hqueue e hfill =>
    obtain ⟨hm, hgid⟩ := hpopped h hqueue
    obtain ⟨m', hok, -⟩ := fillGap_watched world hm hgid
    rw [hfill] at hok
    cases hok
  | case3 m gid rest hqueue m₁ hfill ih =>
    obtain ⟨hm, hgid⟩ := hpopped h hqueue
    obtain ⟨m', hok, hkept⟩ := fillGap_watched world hm hgid
    rw [hfill] at hok
    cases hok
    exact ih hkept

/-- `_on_gaps` returns, and keeps the invariant. -/
theorem onGaps_watched (h : Watched cfg m) {changed : List GapRecord}
    (hlisted : Listed m.pipe.detector changed) :
    ∃ m', m.onGaps world cfg changed = .ok m' ∧ Watched cfg m' := by
  have henqueued := enqueue_watched h hlisted
  unfold MeasuredPipeline.onGaps MeasuredPipeline.onGapsWith
  dsimp only
  split
  · exact ⟨_, rfl, henqueued⟩
  · exact fillLoop_watched world henqueued

/-- Confirming the candidates returns, and keeps the invariant. -/
theorem flushHoles_watched (h : Watched cfg m) :
    ∃ m', m.flushHoles world cfg = .ok m' ∧ Watched cfg m' := by
  obtain ⟨candles, seen, haccounts⟩ := h.safe.accounts
  have hm := haccounts.confirm (world.clock m.pipe.reads) true
  have hpart : Part m.pipe (m.pipe.called (m.pipe.detector.confirmHoles
      (world.clock m.pipe.reads) true).2) :=
    .quiet (h.safe.moved hm).safe hm.forward.latestNs rfl rfl (List.append_nil _).symm
      (fun c hc => by cases hc) fun c hc => by cases hc
  refine onGaps_watched world (h.moved hpart false 0) ?_
  rw [MeasuredPipeline.moved_pipe]
  exact hm.listed

/-- **One item** of a session. -/
theorem process_watched (h : Watched cfg m) (item : IngestPipeline.Item) :
    ∃ m', m.process world cfg item = .ok m' ∧ Watched cfg m' := by
  -- an event, a refused frame, or a break
  cases item with
  | event ev =>
    obtain ⟨o, m₁, htake, hm₁, -, hlisted⟩ := take_watched world h true ev
    show ∃ m', m.acceptWith world cfg (MeasuredPipeline.fillLoop world cfg) true ev = .ok m' ∧ _
    unfold MeasuredPipeline.acceptWith
    rw [htake]
    cases o with
    | none => exact ⟨m₁, rfl, hm₁⟩
    | some changed => exact onGaps_watched world hm₁ (hlisted changed rfl)
  | malformed e =>
    have hpart : Part m.pipe (m.pipe.invalid e) :=
      .quiet (h.safe.congr rfl rfl) (.refl _) rfl rfl rfl (fun c hc => by simp at hc)
        fun c hc => by simp at hc
    exact ⟨_, rfl, h.moved hpart _ _⟩
  | disconnected conn =>
    have hpart : Part m.pipe { m.pipe with
        sunk := { m.pipe.sunk with
          disconnects := m.pipe.sunk.disconnects ++ [conn]
          calls := m.pipe.sunk.calls ++ [.disconnect conn] } } :=
      .quiet (h.safe.congr rfl rfl) (.refl _) rfl rfl rfl (fun c hc => by simp at hc)
        fun c hc => by simp at hc
    have hnoted := h.moved hpart false 0
    show ∃ m', m.disconnect world cfg conn = .ok m' ∧ _
    unfold MeasuredPipeline.disconnect
    dsimp only
    split
    · exact flushHoles_watched world hnoted
    · exact ⟨_, rfl, hnoted⟩

/-- **Run lemma**: the invariant holds after every sequence of items. -/
theorem processAll_watched (items : List IngestPipeline.Item) :
    ∀ {m : MeasuredPipeline}, Watched cfg m →
      ∃ m', items.foldlM (MeasuredPipeline.process world cfg) m = .ok m' ∧ Watched cfg m' := by
  induction items with
  | nil => exact fun {m} h => ⟨m, rfl, h⟩
  | cons item items ih =>
    intro m h
    obtain ⟨m₁, hone, hm₁⟩ := process_watched world h item
    obtain ⟨m₂, hall, hm₂⟩ := ih hm₁
    refine ⟨m₂, ?_, hm₂⟩
    rw [List.foldlM_cons, hone]
    exact hall

/-- The end of a session returns, and keeps the invariant. -/
theorem finish_watched (h : Watched cfg m) :
    ∃ m', m.finish world cfg = .ok m' ∧ Watched cfg m' := by
  obtain ⟨m₁, hflush, hm₁⟩ := flushHoles_watched world h
  have hpart := (Releasing.flush m₁.pipe).after [] (hm₁.safe.congr rfl rfl) (.refl _)
    rfl rfl (List.append_nil _).symm
  exact ⟨_, bind_eq_ok.mpr ⟨m₁, hflush, rfl⟩, hm₁.moved hpart _ _⟩

/-- Before the session. -/
theorem start_watched (cfg : Scoring) (i : IngestInstrument) : Watched cfg (.start i.pipe) where
  safe := .new ..
  aggTf := rfl
  hour := by
    show Timeframe.minute.ns ∣ hourNs
    decide
  idle := fun _ => ⟨rfl, rfl⟩
  settled := fun _ => .new

end Calls

/-- The rows that are stored are those of `dq_scores`. -/
def RowsFinal (cfg : Scoring) (m : MeasuredPipeline) : Prop :=
  ∀ h row, m.quality.rows.get? h = some row →
    ∃ x ∈ m.quality.dqScores cfg m.pipe.tf m.pipe.detector.latestNs,
      x.hourStartNs = h ∧ row = x.score.asRow

/-- **The stored row of an hour is final** in a session whose calls are all calm, whatever its items
    and the answers of the hook are. -/
theorem hour_rows_final (world : Surroundings) (cfg : Scoring) (i : IngestInstrument)
    (items : List IngestPipeline.Item) :
    ∃ m, (MeasuredPipeline.start i.pipe).session world cfg items = .ok m ∧
      i.pipe.run world items = .ok m.pipe ∧ (m.CalmSoFar → RowsFinal cfg m) := by
  obtain ⟨m₁, hall, hm₁⟩ := processAll_watched world items (start_watched cfg i)
  obtain ⟨m₂, hfinish, hm₂⟩ := finish_watched world hm₁
  have hsession : (MeasuredPipeline.start i.pipe).session world cfg items = .ok
      { m₂ with quality := (m₂.quality.writeCompleteHours cfg m₂.pipe.tf
          m₂.pipe.detector.latestNs m₂.pipe.detector.latestNs) } :=
    bind_eq_ok.mpr ⟨m₁, hall, bind_eq_ok.mpr ⟨m₂, hfinish, rfl⟩⟩
  refine ⟨_, hsession, ?_, fun hcalm h row hrow => ?_⟩
  · have hpipe := MeasuredPipeline.session_pipe world cfg (.start i.pipe) items
    rw [hsession] at hpipe
    exact hpipe
  · exact (hm₂.settled hcalm).atEnd hm₂.hour hrow

/-! ### A late event -/

namespace MeasuredPipeline

variable {world : Surroundings} {cfg : Scoring} {m m₁ : MeasuredPipeline}

/-- A part that moves nothing notes nothing. -/
theorem movedOn_self (m : MeasuredPipeline) : m.movedOn cfg m.pipe = m := by
  unfold movedOn moved
  rw [List.drop_length]
  rfl

/-- No gap has changed, and none waits to be filled. -/
theorem onGaps_quiet (hqueue : m.pipe.toFill = []) (hfilling : m.pipe.filling = false) :
    m.onGaps world cfg [] = .ok m := by
  have hnone : m.pipe.enqueue [] = m.pipe := by
    show ({ m.pipe with
      sunk := { m.pipe.sunk with
        gaps := m.pipe.sunk.gaps ++ []
        calls := m.pipe.sunk.calls ++ [] }
      toFill := m.pipe.toFill ++ [] } : IngestPipeline) = m.pipe
    rw [List.append_nil, List.append_nil, List.append_nil]
  unfold onGaps onGapsWith
  dsimp only
  rw [hnone, movedOn_self, hfilling, if_neg Bool.false_ne_true, fillLoop]
  split
  · show Except.ok { m with pipe := { m.pipe with filling := false } } = _
    rw [← hfilling]
  · rename_i hcons
    rw [hqueue] at hcons
    cases hcons

/-- An event that changes no gap. -/
theorem process_quiet {ev : MarketEvent} (htake : m.take world cfg true ev = .ok (some [], m₁))
    (hqueue : m₁.pipe.toFill = []) (hfilling : m₁.pipe.filling = false) :
    m.process world cfg (.event ev) = .ok m₁ := by
  show m.acceptWith world cfg (fillLoop world cfg) true ev = _
  unfold acceptWith
  rw [htake]
  exact onGaps_quiet hqueue hfilling

/-- The end of a session in which nothing waits. -/
theorem closePipe_quiet (hqueue : m.pipe.toFill = []) (hfilling : m.pipe.filling = false)
    (hpending : m.pipe.detector.pending = []) (hheld : m.pipe.aggregator.held = ∅) :
    m.closePipe world cfg = .ok { m with
      pipe := m.pipe.called m.pipe.detector
      quality := m.quality.writeCompleteHours cfg m.pipe.tf m.pipe.detector.latestNs
        m.pipe.detector.latestNs } := by
  -- no holes are pending, so the flush finds nothing
  have hflush : m.pipe.detector.flush (world.clock m.pipe.reads) = ([], m.pipe.detector) := by
    unfold GapDetector.flush GapDetector.confirmHoles
    rw [hpending]
    show ([], { m.pipe.detector with pending := [] }) = _
    rw [← hpending]
  -- no call is handed on, so nothing is noted
  have hcalled : m.movedOn cfg (m.pipe.called m.pipe.detector) =
      { m with pipe := m.pipe.called m.pipe.detector } := by
    unfold movedOn moved
    rw [show (m.pipe.called m.pipe.detector).sunk.calls = m.pipe.sunk.calls from rfl,
      List.drop_length]
    rfl
  have hreleased (p : IngestPipeline) (hp : p.aggregator.held = ∅) :
      p.release p.aggregator.flush = p := by
    rw [AggBooks.flush_empty hp]
    show ({ p with sunk := { p.sunk with
      candles := p.sunk.candles ++ []
      calls := p.sunk.calls ++ [] } } : IngestPipeline) = p
    rw [List.append_nil, List.append_nil]
  -- so the end of the stream changes the accounts in nothing but their rows
  have hgaps : m.flushHoles world cfg = .ok { m with pipe := m.pipe.called m.pipe.detector } := by
    unfold flushHoles
    dsimp only
    rw [hflush, hcalled]
    exact onGaps_quiet (m := { m with pipe := m.pipe.called m.pipe.detector }) hqueue hfilling
  have hfinish : m.finish world cfg = .ok { m with pipe := m.pipe.called m.pipe.detector } := by
    unfold finish
    rw [hgaps]
    show Except.ok (movedOn cfg { m with pipe := m.pipe.called m.pipe.detector }
      ((m.pipe.called m.pipe.detector).release m.pipe.aggregator.flush)) = _
    have hsame := hreleased (m.pipe.called m.pipe.detector) hheld
    change (m.pipe.called m.pipe.detector).release m.pipe.aggregator.flush = _ at hsame
    rw [hsame]
    exact congrArg Except.ok (movedOn_self { m with pipe := m.pipe.called m.pipe.detector })
  unfold closePipe
  rw [hfinish]
  rfl

end MeasuredPipeline

namespace IngestWorker

/-- Equal weights, and an exponential that is only asked for the lag 0. -/
def evenScoring : Scoring where
  weights := fun _ => 1 / 4
  tau0Ms := 1000
  exp := fun _ => 1
  weights_nonneg := fun _ => by norm_num
  weights_sum := by norm_num
  tau0_pos := by norm_num

/-- The surroundings of the samples. -/
def quietWorld : Surroundings := ⟨fun _ => MarketEvent.eventUid, fun _ => 0⟩

/-- A frame of the first hour that is not an event. -/
def brokenFrame : InvalidEvent := ⟨1000, "btcusdt@aggTrade", "NORMALIZATION:p", "p: missing"⟩

/-- The first candle of the second hour. -/
def hourCandle : Candle :=
  { sampleCandle 60 0 "k60" with
    instrument := "BTC-USDT-PERP"
    tsIngestNs := 3659999000000 }

/-- A trade of the first hour whose price, 100.5, is not on the tick of the instrument. -/
def lateTrade : Trade :=
  ⟨"BTC-USDT-PERP", "binance", 7, none, none, 201 / 2, 1, false, 2000, 3660000000000, "t7"⟩

/-- A session of two items: the first hour is written when the candle is released. -/
def twoItems : List IngestPipeline.Item := [.malformed brokenFrame, .event (.candle hourCandle)]

/-- After the frame. -/
def afterFrame : MeasuredPipeline :=
  (MeasuredPipeline.start btcPerp.pipe).moved evenScoring false brokenFrame.tsIngestNs
    (btcPerp.pipe.invalid brokenFrame)

/-- The candle is released at once. -/
theorem hourCandle_offer : ∃ a, btcPerp.pipe.aggregator.offer hourCandle = ([hourCandle], a) ∧
    a.held = ∅ := by
  set a₀ : CandleAggregator :=
    ({ btcPerp.pipe.aggregator with next := some hourCandle.openTimeNs }.trackCurrent
      hourCandle).hold hourCandle with ha₀
  have hdrain : CandleAggregator.drainFrom a₀.tf a₀.skipped hourCandle.openTimeNs a₀.held =
      ([hourCandle], hourCandle.openTimeNs + a₀.tf.ns, ∅) := by
    have hget : a₀.held.get? hourCandle.openTimeNs = some hourCandle := Dict.get?_insert_self _ _ _
    have hnext : (a₀.held.erase hourCandle.openTimeNs).get? (hourCandle.openTimeNs + a₀.tf.ns) =
        none := rfl
    have hskip : hourCandle.openTimeNs + a₀.tf.ns ∉ a₀.skipped := Finset.notMem_empty _
    rw [CandleAggregator.drainFrom_some hget, CandleAggregator.drainFrom_none hnext hskip]
    rfl
  have hoffer : btcPerp.pipe.aggregator.offer hourCandle = a₀.drain hourCandle.openTimeNs := rfl
  rw [hoffer]
  unfold CandleAggregator.drain
  rw [hdrain]
  exact ⟨_, rfl, rfl⟩

/-- The calls of the sinks: the frame, the candle, and its release. -/
def frameNote : Noted := ⟨.invalid brokenFrame, false, 1000, none⟩

/-- The candle as it is noted. -/
def candleNote : Noted :=
  ⟨.event (.candle hourCandle), true, hourCandle.tsEventNs, some hourCandle.tsEventNs⟩

/-- Its release as it is noted. -/
def releaseNote : Noted :=
  ⟨.candle hourCandle, true, hourCandle.tsEventNs, some hourCandle.tsEventNs⟩

/-- The accounts before the candle, after it and after its release. -/
def frameAccounts : HourQuality := HourQuality.new.note evenScoring .minute frameNote

/-- The accounts after the candle. -/
def candleAccounts : HourQuality := frameAccounts.note evenScoring .minute candleNote

/-- The accounts after its release. -/
def releaseAccounts : HourQuality := candleAccounts.note evenScoring .minute releaseNote

/-- Nothing waits in the pipeline, whose last event is the candle. -/
structure AfterCandle (p : IngestPipeline) : Prop where
  latest : p.detector.latestNs = some hourCandle.tsEventNs
  pending : p.detector.pending = []
  tf : p.tf = .minute
  spec : p.spec = some btcPerp.spec
  toFill : p.toFill = []
  filling : p.filling = false
  held : p.aggregator.held = ∅

/-- The pipeline takes the candle. -/
theorem hourCandle_take : ∃ p, afterFrame.pipe.take quietWorld (.candle hourCandle) =
      .ok (some [], p) ∧
    p.sunk.calls = afterFrame.pipe.sunk.calls ++ [.event (.candle hourCandle), .candle hourCandle] ∧
    AfterCandle p := by
  obtain ⟨a, hoffer, hheld⟩ := hourCandle_offer
  have hvalid : afterFrame.pipe.violations (.candle hourCandle) = [] := by decide +kernel
  obtain ⟨p, d, htake, hcalls, hlatest, hpending, htf, hspec, hqueue, hfilling⟩ :
      ∃ (p : IngestPipeline) (d : GapDetector),
        afterFrame.pipe.take quietWorld (.candle hourCandle) =
          .ok (some [], (p.called d).release (btcPerp.pipe.aggregator.offer hourCandle)) ∧
        p.sunk.calls = afterFrame.pipe.sunk.calls ++ [.event (.candle hourCandle)] ∧
        d.latestNs = some hourCandle.tsEventNs ∧ d.pending = [] ∧ p.tf = .minute ∧
        p.spec = some btcPerp.spec ∧ p.toFill = [] ∧ p.filling = false := by
    unfold IngestPipeline.take
    rw [hvalid]
    refine ⟨_, _, rfl, ?_, ?_, ?_, ?_, ?_, ?_, ?_⟩ <;> rfl
  rw [hoffer] at htake
  refine ⟨_, htake, ?_, hlatest, hpending, htf, hspec, hqueue, hfilling, hheld⟩
  show p.sunk.calls ++ [.candle hourCandle] = _
  rw [hcalls, List.append_assoc]
  rfl

/-- After the two items the row of the first hour has been stored. -/
theorem twoItems_process : ∃ m : MeasuredPipeline, twoItems.foldlM
      (MeasuredPipeline.process quietWorld evenScoring) (.start btcPerp.pipe) = .ok m ∧
    m.quality = releaseAccounts ∧
    m.steps = [⟨.new, frameNote⟩, ⟨frameAccounts, candleNote⟩, ⟨candleAccounts, releaseNote⟩] ∧
    AfterCandle m.pipe := by
  obtain ⟨p, htake, hcalls, hp⟩ := hourCandle_take
  set m : MeasuredPipeline := afterFrame.moved evenScoring true hourCandle.tsEventNs p with hm
  have hpipe : m.pipe = p := MeasuredPipeline.moved_pipe ..
  -- the candle hands on two calls, which are noted in their order
  have hmoved :
      m = .noteAll evenScoring { afterFrame with pipe := p } [candleNote, releaseNote] := by
    rw [hm]
    unfold MeasuredPipeline.moved
    rw [hcalls, List.drop_left, hp.latest]
    rfl
  have hone : afterFrame.take quietWorld evenScoring true (.candle hourCandle) =
      .ok (some [], m) := by
    unfold MeasuredPipeline.take
    rw [htake]
    rfl
  have hprocess := MeasuredPipeline.process_quiet hone (by rw [hpipe]; exact hp.toFill)
    (by rw [hpipe]; exact hp.filling)
  -- the broken frame before it is noted as well
  have hframe : (MeasuredPipeline.start btcPerp.pipe).process quietWorld evenScoring
      (.malformed brokenFrame) = .ok afterFrame := rfl
  refine ⟨m, ?_, ?_, ?_, hpipe ▸ hp⟩
  · unfold twoItems
    rw [List.foldlM_cons, hframe]
    show [.event (.candle hourCandle)].foldlM (MeasuredPipeline.process quietWorld evenScoring)
      afterFrame = _
    rw [List.foldlM_cons, hprocess]
    rfl
  · rw [hmoved]
    show ((frameAccounts.note evenScoring p.tf candleNote).note evenScoring p.tf releaseNote) = _
    rw [hp.tf]
    rfl
  · rw [hmoved]
    show ([⟨.new, frameNote⟩, ⟨frameAccounts, candleNote⟩,
      ⟨frameAccounts.note evenScoring p.tf candleNote, releaseNote⟩] : List QualityStep) = _
    rw [hp.tf]
    rfl

/-- The end of a session after the candle. -/
theorem afterCandle_close {m : MeasuredPipeline} (h : AfterCandle m.pipe) :
    m.closePipe quietWorld evenScoring = .ok { m with
      pipe := m.pipe.called m.pipe.detector
      quality := m.quality.writeCompleteHours evenScoring .minute (some hourCandle.tsEventNs)
        (some hourCandle.tsEventNs) } := by
  rw [MeasuredPipeline.closePipe_quiet h.toFill h.filling h.pending h.held, h.tf, h.latest]

/-- The two items are a session whose calls are all calm: it stores the row of the first hour,
    which has one invalid event and is final. -/
theorem hour_rows_final_calm : ∃ m, (MeasuredPipeline.start btcPerp.pipe).session quietWorld
      evenScoring twoItems = .ok m ∧ m.CalmSoFar ∧ RowsFinal evenScoring m ∧
    (m.quality.rows.get? 0).map DqRow.invalidCount = some 1 := by
  obtain ⟨m, hsession, -, hfinal⟩ := hour_rows_final quietWorld evenScoring btcPerp twoItems
  obtain ⟨m₁, hall, hquality, hsteps, hm₁⟩ := twoItems_process
  -- the session is the two items and the end of the stream
  have hrun : (MeasuredPipeline.start btcPerp.pipe).session quietWorld evenScoring twoItems =
      m₁.closePipe quietWorld evenScoring := by
    unfold MeasuredPipeline.session
    rw [hall]
    rfl
  have hcopy := hsession
  rw [hrun, afterCandle_close hm₁, hquality] at hcopy
  cases hcopy
  -- every note is of an hour that has not been written
  have hcalm : ∀ s ∈ m₁.steps, s.before.Calm m₁.pipe.tf s.noted := by
    rw [hsteps, hm₁.tf]
    simp only [List.forall_mem_cons, List.not_mem_nil, false_implies, implies_true, and_true]
    refine ⟨?_, ?_, ?_, ?_⟩
    · show hourOf 1000 ∉ (∅ : Finset ℤ)
      decide
    · intro hbad
      exact absurd hbad (by decide)
    · show hourOf hourCandle.openTimeNs ∉ (∅ : Finset ℤ)
      decide
    · intro h _ _ hle
      exact .inl ⟨_, rfl, hle⟩
  refine ⟨_, hsession, hcalm, hfinal hcalm, ?_⟩
  show ((releaseAccounts.writeCompleteHours evenScoring .minute (some hourCandle.tsEventNs)
    (some hourCandle.tsEventNs)).rows.get? 0).map DqRow.invalidCount = some 1
  decide +kernel

/-- The three items are a session: the trade is counted in the first hour, whose row has been
    stored. -/
theorem lateTrade_session : ∃ m, (MeasuredPipeline.start btcPerp.pipe).session quietWorld
      evenScoring (twoItems ++ [.event (.trade lateTrade)]) = .ok m ∧
    (m.quality.rows.get? 0).map DqRow.invalidCount = some 1 ∧
    (m.quality.dq.get? 0).map DqAccumulator.invalid = some 2 := by
  obtain ⟨m₁, htwo, hquality, -, hm₁⟩ := twoItems_process
  -- the price is off the tick
  obtain ⟨p, e, htake, hcalls, hp⟩ : ∃ p e, m₁.pipe.take quietWorld (.trade lateTrade) =
      .ok (none, p) ∧ p.sunk.calls = m₁.pipe.sunk.calls ++ [.invalid e] ∧ AfterCandle p := by
    have hbad : m₁.pipe.violations (.trade lateTrade) = ["PRICE_OFF_TICK:price"] := by
      show checkTrade lateTrade m₁.pipe.spec = _
      rw [hm₁.spec]
      decide +kernel
    unfold IngestPipeline.take
    rw [hbad]
    exact ⟨_, _, rfl, rfl, hm₁.latest, hm₁.pending, hm₁.tf, hm₁.spec, hm₁.toFill, hm₁.filling,
      hm₁.held⟩
  set m₂ : MeasuredPipeline := m₁.moved evenScoring true lateTrade.tsEventNs p with hm₂
  have hpipe : m₂.pipe = p := MeasuredPipeline.moved_pipe ..
  have hlate : m₂.quality = releaseAccounts.account lateTrade.tsEventNs fun a =>
      a.addChecked true := by
    rw [hm₂]
    unfold MeasuredPipeline.moved
    rw [hcalls, List.drop_left, ← hquality]
    rfl
  have hone : m₁.process quietWorld evenScoring (.event (.trade lateTrade)) = .ok m₂ := by
    show m₁.acceptWith quietWorld evenScoring _ true (.trade lateTrade) = _
    unfold MeasuredPipeline.acceptWith MeasuredPipeline.take
    rw [htake]
    rfl
  have hrun : (MeasuredPipeline.start btcPerp.pipe).session quietWorld evenScoring
      (twoItems ++ [.event (.trade lateTrade)]) = m₂.closePipe quietWorld evenScoring := by
    unfold MeasuredPipeline.session
    rw [List.foldlM_append, htwo]
    show ([IngestPipeline.Item.event (.trade lateTrade)].foldlM
      (MeasuredPipeline.process quietWorld evenScoring) m₁ >>= _) = _
    rw [List.foldlM_cons, hone]
    rfl
  rw [hrun, afterCandle_close (hpipe ▸ hp), hlate]
  refine ⟨_, rfl, ?_, ?_⟩
  · show (((releaseAccounts.account lateTrade.tsEventNs fun a =>
      a.addChecked true).writeCompleteHours evenScoring .minute (some hourCandle.tsEventNs)
      (some hourCandle.tsEventNs)).rows.get? 0).map DqRow.invalidCount = some 1
    decide +kernel
  · show (((releaseAccounts.account lateTrade.tsEventNs fun a =>
      a.addChecked true).writeCompleteHours evenScoring .minute (some hourCandle.tsEventNs)
      (some hourCandle.tsEventNs)).dq.get? 0).map DqAccumulator.invalid = some 2
    decide +kernel

/-- A late event of an hour that has been written is counted, but the row is not stored again. -/
theorem stored_row_stale : ¬∀ (world : Surroundings) (cfg : Scoring) (i : IngestInstrument)
    (items : List IngestPipeline.Item) (m : MeasuredPipeline),
    (MeasuredPipeline.start i.pipe).session world cfg items = .ok m → RowsFinal cfg m := by
  intro hall
  obtain ⟨m, hsession, hrow, hinvalid⟩ := lateTrade_session
  obtain ⟨row, hget, hone⟩ := Option.map_eq_some_iff.mp hrow
  obtain ⟨x, hx, hstart, rfl⟩ := hall _ _ _ _ m hsession 0 row hget
  obtain ⟨a, ha, hscore⟩ := HourQuality.mem_dqScores.mp hx
  rw [hstart] at ha
  rw [ha] at hinvalid
  have htwo : a.invalid = 2 := Option.some.inj hinvalid
  rw [hscore] at hone
  have hone' : a.invalid = 1 := hone
  omega

end IngestWorker

end FuzzHelm
