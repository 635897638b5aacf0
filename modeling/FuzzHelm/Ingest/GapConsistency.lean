import FuzzHelm.Ingest.GapRows
import FuzzHelm.Ingest.NeverRaises

namespace FuzzHelm

open Lib

/-!
# The records of the gaps

What a record of a gap says about its keys, in every state of the detector that the pipeline can
reach.  A key that arrives at a gap which is not being filled, and which misses others too, leaves
its counter behind; nothing else does.

* `Issued`, `IssuedStep` — the calls that the pipeline makes; `GapAccounts.issued_ok` — they do not
  raise;
* `Consistent` — what a record says is so;
* `issued_consistent` — without strays every state is consistent;
* `Issues` — what the pipeline does to the detector is a run of such calls;
* `gap_consistency` — the law, and `late_fill_uncounted`, where it fails.
-/

/-! ### The calls of the pipeline -/

/-- The pipeline begins to fill a gap that is not full, and ends an attempt that it has begun. -/
def Issued (d : GapDetector) : DetectorCall → Prop
  | .beginFill _ gid => ∃ g, d.gaps.get? gid = some g ∧ g.status ≠ .filled
  | .resolve _ gid => ∃ g, d.gaps.get? gid = some g ∧ g.status = .filling
  | .onTime .. | .onKline .. | .onTrade .. | .flush .. => True

/-- A step whose call refers to a gap that was issued. -/
def IssuedStep (d : GapDetector) (c : DetectorCall) (a : Except PyError (List GapRecord))
    (d' : GapDetector) : Prop := Issued d c ∧ DetectorStep d c a d'

/-- **No such call raises**; in particular none attempts a change of status that is not allowed. -/
theorem GapAccounts.issued_ok {candles : List Candle} {seen : List ℤ} {d : GapDetector}
    (h : GapAccounts candles seen d.nextId d) {c : DetectorCall} (hc : Issued d c) :
    ∃ records, (d.call c).1 = .ok records := by
  cases c with
  | onTime now ts => exact ⟨_, rfl⟩
  | onKline now c =>
    obtain ⟨records, d', hcall, -⟩ := h.onKline now c
    exact ⟨records, congrArg Prod.fst hcall⟩
  | onTrade now t =>
    obtain ⟨records, d', hcall, -⟩ := h.onTrade now t
    exact ⟨records, congrArg Prod.fst hcall⟩
  | flush now => exact ⟨_, rfl⟩
  | beginFill now gid =>
    obtain ⟨g, hg, hs⟩ := hc
    obtain ⟨g', d', hbegin, -⟩ := GapAccounts.beginFill_ok now hg hs
    exact ⟨[g'], congrArg (fun x => (orSame d x).1) hbegin⟩
  | resolve now gid =>
    obtain ⟨g, hg, hs⟩ := hc
    obtain ⟨g', d', hres⟩ := h.resolve_ok now hg hs
    exact ⟨[g'], congrArg (fun x => (orSame d x).1) hres⟩

/-! ### Consistency -/

/-- **What the records say is so.** -/
structure Consistent (d : GapDetector) : Prop where
  rules : ∀ gid r, d.row gid = some r → RowRules r
  counted : ∀ gid r, d.row gid = some r → Counted r

section Runs

variable {instrument : String} {tf : Timeframe} {graceMs maxReorderIds : ℤ} {d : GapDetector}
  {log : DetectorLog}

/-- **Run lemma**: the accounts of the detector after any calls of issued gaps. -/
theorem issued_accounts
    (h : Run IssuedStep (.new instrument tf graceMs maxReorderIds) d log) :
    ∃ candles seen, GapAccounts candles seen d.nextId d := by
  obtain ⟨-, -, haccounts⟩ := accounts_of_run (h.mono fun _ _ _ _ hs => hs.2)
  exact ⟨_, _, haccounts⟩

/-- A new detector has no gaps. -/
theorem new_consistent : Consistent (.new instrument tf graceMs maxReorderIds) where
  rules := by
    intro gid r hr
    cases hr
  counted := by
    intro gid r hr
    cases hr

/-- **The status rules hold in every state**, strays or not. -/
theorem issued_rules (h : Run IssuedStep (.new instrument tf graceMs maxReorderIds) d log) :
    ∀ gid r, d.row gid = some r → RowRules r := by
  induction h with
  | nil =>
    intro gid r hr
    cases hr
  | @snoc d log c a d' hrun hs ih =>
    obtain ⟨candles, seen, haccounts⟩ := issued_accounts hrun
    have hrows := haccounts.call_rows c
    rw [show d.call c = (a, d') from hs.2] at hrows
    intro gid
    exact (hrows.any gid).forall_mem (fun _ hopen => hopen.rules) (fun _ _ hm => hm.rules) (ih gid)

/-- **Without strays every counter is up to date**, by induction on the calls. -/
theorem issued_counted (h : Run IssuedStep (.new instrument tf graceMs maxReorderIds) d log)
    (hcalm : ∀ e ∈ log, ¬StrayFill e.before e.call) :
    ∀ gid r, d.row gid = some r → Counted r := by
  induction h with
  | nil =>
    intro gid r hr
    cases hr
  | @snoc d log c a d' hrun hs ih =>
    obtain ⟨candles, seen, haccounts⟩ := issued_accounts hrun
    have hrows := haccounts.call_rows c
    rw [show d.call c = (a, d') from hs.2] at hrows
    have hnot : ¬StrayFill d c := hcalm ⟨d, c, a, d'⟩ (by simp)
    have hcounted := ih fun e he => hcalm e (List.mem_append_left _ he)
    intro gid
    exact (hrows.prompt hnot gid).forall_mem (fun _ hopen => hopen.counted)
      (fun _ _ hm => hm.counted) (hcounted gid)

/-- **A stray leaves a counter behind.** -/
theorem stray_uncounted (h : Run IssuedStep (.new instrument tf graceMs maxReorderIds) d log)
    {c : DetectorCall} (hstray : StrayFill d c) (hd : Consistent d) :
    ¬Consistent (d.call c).2 := by
  obtain ⟨candles, seen, haccounts⟩ := issued_accounts h
  obtain ⟨gid, r, r', key, hr, hr', hmove⟩ := (haccounts.call_rows c).late hstray
  exact fun hbad => hmove.not_counted (hd.counted gid r hr) (hbad.counted gid r' hr')

/-- **The states of a run are consistent exactly when it delivers no stray.** -/
theorem issued_consistent (h : Run IssuedStep (.new instrument tf graceMs maxReorderIds) d log) :
    (∀ e ∈ log, Consistent e.after) ↔ ∀ e ∈ log, ¬StrayFill e.before e.call := by
  constructor
  · rintro hall ⟨before, c, answer, after⟩ he hstray
    obtain ⟨pre, post, hlog⟩ := List.append_of_mem he
    obtain ⟨hrun, -, hcall⟩ := h.before_entry hlog
    change Run IssuedStep _ before pre at hrun
    change before.call c = (answer, after) at hcall
    -- the state before is the first one, or the one that an earlier call has left
    have hbefore : Consistent before := by
      cases hrun with
      | nil => exact new_consistent
      | @snoc s pre i o _ _ hs =>
        refine hall ⟨s, i, o, before⟩ ?_
        rw [hlog]
        simp
    refine stray_uncounted hrun hstray hbefore ?_
    rw [hcall]
    exact hall _ he
  · intro hcalm e he
    obtain ⟨pre, post, hlog⟩ := List.append_of_mem he
    obtain ⟨hrun, hcall⟩ := h.before_entry hlog
    have hafter := hrun.snoc hcall
    refine ⟨issued_rules hafter, issued_counted hafter fun e' he' => hcalm e' ?_⟩
    rw [hlog]
    rcases List.mem_append.mp he' with he' | he'
    · exact List.mem_append_left _ he'
    · rw [List.mem_singleton.mp he']
      simp

end Runs

/-! ### What the pipeline does to the detector -/

/-- The detector of the pipeline is in a state of a run of such calls. -/
def Issues (d₀ : GapDetector) (p : IngestPipeline) : Prop :=
  ∃ log, Run IssuedStep d₀ p.detector log

namespace Issues

variable {d₀ : GapDetector} {p p' : IngestPipeline} {world : Surroundings}

/-- What was issued depends on the detector alone. -/
theorem congr (h : Issues d₀ p) (hd : p'.detector = p.detector) : Issues d₀ p' := by
  unfold Issues
  rw [hd]
  exact h

/-- The detector is called. -/
theorem call (h : Issues d₀ p) {c : DetectorCall} (hc : Issued p.detector c)
    (hd : p'.detector = (p.detector.call c).2) : Issues d₀ p' := by
  obtain ⟨log, hrun⟩ := h
  refine ⟨log ++ [⟨p.detector, c, (p.detector.call c).1, p'.detector⟩], hrun.snoc ⟨hc, ?_⟩⟩
  rw [hd]
  rfl

/-- What is answered leaves the detector of the call. -/
theorem answered_ok {x : Except PyError (List GapRecord) × GapDetector} {changed : List GapRecord}
    {d : GapDetector} (h : answered x = .ok (changed, d)) : d = x.2 := by
  unfold answered at h
  cases hx : x.1 with
  | error e =>
    rw [hx] at h
    cases h
  | ok records =>
    rw [hx] at h
    cases h
    rfl

/-- An event that is accepted only refers to gaps that were issued. -/
theorem dispatch (h : Issues d₀ p) {ev : MarketEvent} {outcome : DedupOutcome}
    {changed : List GapRecord} (hp : p.dispatch world ev outcome = .ok (changed, p')) :
    Issues d₀ p' := by
  -- each kind of event makes one call of the detector, at the clock reading of this event
  cases ev with
  | candle c =>
    change p.takeCandle world c = .ok (changed, p') at hp
    unfold IngestPipeline.takeCandle at hp
    obtain ⟨⟨_, detector⟩, hdetect, hp⟩ := bind_eq_ok.mp hp
    cases hp
    unfold IngestPipeline.detectCandle at hdetect
    split at hdetect
    · -- a minute that has been given up only moves the exchange time
      cases hdetect
      exact h.call (c := .onTime (world.clock p.reads) c.tsEventNs) trivial rfl
    · exact h.call (c := .onKline (world.clock p.reads) c) trivial (answered_ok hdetect)
  | trade t =>
    change p.takeTrade world t outcome = .ok (changed, p') at hp
    unfold IngestPipeline.takeTrade at hp
    obtain ⟨⟨_, detector⟩, hdetect, hp⟩ := bind_eq_ok.mp hp
    cases hp
    exact h.call (c := .onTrade (world.clock p.reads) t) trivial (answered_ok hdetect)
  -- books and marks only move the exchange time
  | book b =>
    cases hp
    exact h.call (c := .onTime (world.clock p.reads) b.tsEventNs) trivial rfl
  | mark m =>
    cases hp
    exact h.call (c := .onTime (world.clock p.reads) m.tsEventNs) trivial rfl

/-- So does an event on its whole way. -/
theorem take (h : Issues d₀ p) {ev : MarketEvent} {o : Option (List GapRecord)}
    (hp : p.take world ev = .ok (o, p')) : Issues d₀ p' := by
  rcases IngestPipeline.take_cases world p ev with ⟨p₁, htake, hun⟩ | ⟨p₁, outcome, -, hun, htake⟩
  · rw [htake] at hp
    cases hp
    exact h.congr hun.detector
  · rw [htake] at hp
    cases hd : p₁.dispatch world ev outcome with
    | error e =>
      rw [hd] at hp
      cases hp
    | ok r =>
      rw [hd] at hp
      cases hp
      exact (h.congr hun.detector).dispatch hd

/-- The events of the hook, while a gap is being filled. -/
theorem acceptAll {evs : List MarketEvent} : ∀ {p p' : IngestPipeline}, Issues d₀ p →
    evs.foldlM (fun p ev => p.acceptWith world .ok ev) p = .ok p' → Issues d₀ p' := by
  -- by induction on the events; the detector is called while an event is taken, not after
  induction evs with
  | nil =>
    intro p p' h hp
    cases hp
    exact h
  | cons ev evs ih =>
    intro p p' h hp
    rw [List.foldlM_cons] at hp
    obtain ⟨p₁, hacc, hp⟩ := bind_eq_ok.mp hp
    refine ih ?_ hp
    unfold IngestPipeline.acceptWith at hacc
    obtain ⟨⟨o, p₂⟩, htake, hacc⟩ := bind_eq_ok.mp hacc
    have htaken := h.take htake
    cases o with
    | none =>
      cases hacc
      exact htaken
    | some changed =>
      change p₂.onGapsWith .ok changed = .ok p₁ at hacc
      unfold IngestPipeline.onGapsWith at hacc
      split at hacc <;> cases hacc <;> exact htaken.congr rfl

/-- Giving up what a gap misses does not call the detector. -/
theorem skipMissing (h : Issues d₀ p) {gid : ℕ} (hp : p.skipMissing gid = .ok p') :
    Issues d₀ p' :=
  IngestPipeline.skipMissing_invariant (fun _ _ hq => hq.congr rfl) h hp

/-- **A gap of the queue**: it is not full when the attempt begins, and it is being filled when the
    attempt ends. -/
theorem fillGap (h : Issues d₀ p) (hsafe : PipeSafe p) {gid : ℕ}
    (hp : p.fillGap world gid = .ok p') : Issues d₀ p' := by
  unfold IngestPipeline.fillGap at hp
  split at hp
  · cases hp
  · rename_i g hg
    by_cases hfilled : g.status = .filled
    · rw [if_pos hfilled] at hp
      cases hp
      exact h
    · rw [if_neg hfilled] at hp
      split at hp
      · exact h.skipMissing hp
      · rename_i results hback
        obtain ⟨⟨g', detector⟩, hbegin, hp⟩ := bind_eq_ok.mp hp
        obtain ⟨p₂, hall, hp⟩ := bind_eq_ok.mp hp
        have hbegun : Issues d₀ (((p.called detector).gapChanged g').answer results).1 := by
          refine h.call (c := .beginFill (world.clock p.reads) gid) ⟨g, hg, hfilled⟩ ?_
          show detector = (orSame p.detector (p.detector.beginFill _ gid)).2
          rw [hbegin]
          rfl
        have htaken := hbegun.acceptAll hall
        -- the events of the hook leave the gap in the state of an attempt
        obtain ⟨candles, seen, haccounts⟩ := hsafe.accounts
        obtain ⟨hr, hst⟩ := haccounts.books.beginFill hbegin
        have hget : detector.gaps.get? gid = some g' := by
          obtain ⟨g₁, d₁, hbegin', hget⟩ :=
            GapAccounts.beginFill_ok (world.clock p.reads) hg hfilled
          rw [hbegin] at hbegin'
          cases hbegin'
          exact hget
        have hanswered : PipeSafe (((p.called detector).gapChanged g').answer results).1 :=
          (hsafe.restated hr g').congr rfl rfl
        obtain ⟨p₃, hall', hstep⟩ := acceptAll_safe world
          (((p.called detector).gapChanged g').answer results).2.events hanswered
        have heq : p₃ = p₂ := by
          have hboth := hall'.symm.trans hall
          cases hboth
          rfl
        subst heq
        obtain ⟨g₂, hg₂, hst₂⟩ := hstep.filling gid g' hget hst
        change p₃.endFill world gid = .ok p' at hp
        unfold IngestPipeline.endFill at hp
        obtain ⟨⟨g₃, d₃⟩, hres, hp⟩ := bind_eq_ok.mp hp
        have hended : Issues d₀ ((p₃.called d₃).gapChanged g₃) := by
          refine htaken.call (c := .resolve (world.clock p₃.reads) gid) ⟨g₂, hg₂, hst₂⟩ ?_
          show d₃ = (orSame p₃.detector (p₃.detector.resolve _ gid)).2
          rw [hres]
          rfl
        by_cases hfull : g₃.status ≠ .filled
        · simp only [if_pos hfull] at hp
          exact hended.skipMissing hp
        · simp only [if_neg hfull] at hp
          cases hp
          exact hended

/-- **The loop over the queue.** -/
theorem fillLoop (h : Issues d₀ p) (hsafe : PipeSafe p) (hp : p.fillLoop world = .ok p') :
    Issues d₀ p' := by
  fun_induction IngestPipeline.fillLoop world p with
  | case1 p hqueue =>
    cases hp
    exact h.congr rfl
  | case2 p gid rest hqueue e hfill => cases hp
  | case3 p gid rest hqueue p₁ hfill ih =>
    have hpopped : PipeSafe { p with toFill := rest, filling := true } := by
      refine ⟨hsafe.accounts, fun x hx => hsafe.queue x ?_⟩
      rw [hqueue]
      exact List.mem_cons_of_mem _ hx
    have hgid : 0 < gid ∧ gid < p.detector.nextId := hsafe.queue gid (by simp [hqueue])
    obtain ⟨p₂, hok, hkept⟩ := fillGap_safe world hpopped hgid
    rw [hfill] at hok
    cases hok
    have hstart : Issues d₀ { p with toFill := rest, filling := true } := h.congr rfl
    exact ih (hstart.fillGap hpopped hfill) hkept hp

/-- So does `_on_gaps`, with all it fills. -/
theorem onGaps (h : Issues d₀ p) (hsafe : PipeSafe p) {changed : List GapRecord}
    (hlisted : Listed p.detector changed) (hp : p.onGaps world changed = .ok p') :
    Issues d₀ p' := by
  have hqueued : Issues d₀ (p.enqueue changed) := h.congr rfl
  unfold IngestPipeline.onGaps IngestPipeline.onGapsWith at hp
  split at hp
  · cases hp
    exact hqueued
  · exact hqueued.fillLoop (enqueue_safe hsafe hlisted) hp

/-- So does confirming the candidates. -/
theorem flushHoles (h : Issues d₀ p) (hsafe : PipeSafe p) (hp : p.flushHoles world = .ok p') :
    Issues d₀ p' := by
  obtain ⟨candles, seen, haccounts⟩ := hsafe.accounts
  have hm := haccounts.confirm (world.clock p.reads) true
  have hflushed : Issues d₀ (p.called (p.detector.flush (world.clock p.reads)).2) :=
    h.call (c := .flush (world.clock p.reads)) trivial rfl
  exact hflushed.onGaps (hsafe.moved hm).safe hm.listed hp

/-- **One item** of a session. -/
theorem process (h : Issues d₀ p) (hsafe : PipeSafe p) {item : IngestPipeline.Item}
    (hp : p.process world item = .ok p') : Issues d₀ p' := by
  -- an event, a refused frame, or a break
  cases item with
  | event ev =>
    change p.accept world ev = .ok p' at hp
    unfold IngestPipeline.accept IngestPipeline.acceptWith at hp
    obtain ⟨o, p₁, htake, hstep, hlisted⟩ := take_safe world hsafe ev
    rw [htake] at hp
    have htaken := h.take htake
    cases o with
    | none =>
      cases hp
      exact htaken
    | some changed => exact htaken.onGaps hstep.safe (hlisted changed rfl) hp
  | malformed e =>
    cases hp
    exact h.congr rfl
  | disconnected conn =>
    change p.disconnect world conn = .ok p' at hp
    unfold IngestPipeline.disconnect at hp
    dsimp only at hp
    -- the last connection is lost: the holes are confirmed at once
    split at hp
    · refine flushHoles ?_ ?_ hp
      · exact h.congr rfl
      · exact hsafe.congr rfl rfl
    · cases hp
      exact h.congr rfl

/-- **The items** of a session, by induction on them. -/
theorem processAll (world : Surroundings) (items : List IngestPipeline.Item) :
    ∀ {p : IngestPipeline}, Issues d₀ p → PipeSafe p →
      ∃ p', items.foldlM (IngestPipeline.process world) p = .ok p' ∧ Issues d₀ p' ∧
        PipeSafe p' := by
  induction items with
  | nil => exact fun {p} h hsafe => ⟨p, rfl, h, hsafe⟩
  | cons item items ih =>
    intro p h hsafe
    obtain ⟨p₁, hproc, hsafe₁⟩ := process_safe world hsafe item
    obtain ⟨p₂, hall, h₂, hsafe₂⟩ := ih (h.process hsafe hproc) hsafe₁
    refine ⟨p₂, ?_, h₂, hsafe₂⟩
    rw [List.foldlM_cons, hproc]
    exact hall

/-- So does the end of a session, which returns. -/
theorem finish (h : Issues d₀ p) (hsafe : PipeSafe p) :
    ∃ p', p.finish world = .ok p' ∧ Issues d₀ p' := by
  obtain ⟨p₁, hflush, -⟩ := flushHoles_safe world hsafe
  refine ⟨_, bind_eq_ok.mpr ⟨p₁, hflush, rfl⟩, ?_⟩
  exact (h.flushHoles hsafe hflush).congr rfl

end Issues

/-! ### The law -/

/-- **The records of the gaps are consistent** as long as no stray arrives.  In every run of calls
    that the pipeline makes the status rules hold and no call raises; and every state of the run is
    consistent exactly when no call delivers a key to a gap that is not being filled and misses
    another key too.  What a session does to its detector, up to any item and at its end, is such a
    run. -/
theorem gap_consistency (instrument : String) (tf : Timeframe) (graceMs maxReorderIds : ℤ) :
    (∀ d log, Run IssuedStep (.new instrument tf graceMs maxReorderIds) d log →
      (∀ gid r, d.row gid = some r → RowRules r) ∧
      (∀ e ∈ log, ∃ records, e.answer = .ok records) ∧
      ((∀ e ∈ log, Consistent e.after) ↔ ∀ e ∈ log, ¬StrayFill e.before e.call)) ∧
    ∀ (world : Surroundings) (spec : Option InstrumentSpec)
      (backfill : Option (List FillResult)) (dedupWindow : Option {n : ℕ // 0 < n})
      (items : List IngestPipeline.Item), ∃ p p' : IngestPipeline,
      items.foldlM (IngestPipeline.process world)
        (.new instrument tf spec backfill graceMs maxReorderIds dedupWindow) = .ok p ∧
      p.finish world = .ok p' ∧
      Issues (.new instrument tf graceMs maxReorderIds) p ∧
      Issues (.new instrument tf graceMs maxReorderIds) p' := by
  constructor
  -- of any run of calls that a pipeline can make
  · intro d log h
    refine ⟨issued_rules h, fun e he => ?_, issued_consistent h⟩
    obtain ⟨pre, post, hlog⟩ := List.append_of_mem he
    obtain ⟨hrun, hissued, hcall⟩ := h.before_entry hlog
    obtain ⟨candles, seen, haccounts⟩ := issued_accounts hrun
    obtain ⟨records, hok⟩ := haccounts.issued_ok hissued
    exact ⟨records, (congrArg Prod.fst hcall).symm.trans hok⟩
  -- and of every session: it makes only such calls
  · intro world spec backfill dedupWindow items
    have hnew : Issues (.new instrument tf graceMs maxReorderIds)
        (.new instrument tf spec backfill graceMs maxReorderIds dedupWindow) := ⟨[], .nil⟩
    obtain ⟨p, hall, h, hsafe⟩ := Issues.processAll world items hnew (.new ..)
    obtain ⟨p', hfinish, h'⟩ := h.finish hsafe
    exact ⟨p, p', hall, hfinish, h, h'⟩

/-- A trade with the id `a` at the time `ts`. -/
def tradeAt (a ts : ℤ) : Trade where
  instrument := "BTC/USDT:PERP"
  venue := "binance"
  aggId := a
  firstTradeId := none
  lastTradeId := none
  price := 100
  qty := 1
  isBuyerMaker := false
  tsEventNs := ts
  tsIngestNs := ts
  eventUid := "t"

/-- The trades 2 and 3 are missing when the grace is over; then 2 arrives. -/
def lateTradeCalls : List DetectorCall :=
  [.onTrade 0 (tradeAt 1 0), .onTrade 1 (tradeAt 4 1), .onTime 2 3000000000,
    .onTrade 3 (tradeAt 2 2)]

/-- The gap misses one of two trades, and its record counts none as arrived. -/
theorem late_fill_uncounted :
    ∃ d log, Run IssuedStep (.new "BTC/USDT:PERP" .minute 2000 50) d log ∧
      (d.row 1).map (fun r => (r.record.status, r.record.filledRows, r.record.expectedCount,
        r.missing.card)) = some (.opened, 0, 2, 1) ∧
      ¬∀ gid r, d.row gid = some r → Counted r := by
  let r := exec GapDetector.call (.new "BTC/USDT:PERP" .minute 2000 50) lateTradeCalls
  have hrun : Run IssuedStep (.new "BTC/USDT:PERP" .minute 2000 50) r.1 r.2 :=
    (((Run.nil.snoc ⟨trivial, rfl⟩).snoc ⟨trivial, rfl⟩).snoc ⟨trivial, rfl⟩).snoc ⟨trivial, rfl⟩
  have hrow : (r.1.row 1).map (fun r => (r.record.status, r.record.filledRows,
      r.record.expectedCount, r.missing.card)) = some (.opened, 0, 2, 1) := by decide +kernel
  refine ⟨_, _, hrun, hrow, fun hall => ?_⟩
  obtain ⟨row, hget, hval⟩ := Option.map_eq_some_iff.mp hrow
  have hcounted := hall 1 row hget
  simp only [Prod.mk.injEq] at hval
  rw [Counted, hval.2.1, hval.2.2.1, hval.2.2.2] at hcounted
  exact absurd hcounted (by decide)

/-- The trade 2 arrives while the gap is being filled, and the attempt ends with a part of it. -/
def filledTradeCalls : List DetectorCall :=
  [.onTrade 0 (tradeAt 1 0), .onTrade 1 (tradeAt 4 1), .onTime 2 3000000000, .beginFill 3 1,
    .onTrade 4 (tradeAt 2 2), .resolve 5 1]

/-- The record counts the one that has arrived. -/
theorem gap_consistency_sample :
    let r := exec GapDetector.call (.new "BTC/USDT:PERP" .minute 2000 50) filledTradeCalls
    (r.1.row 1).map (fun r => (r.record.status, r.record.filledRows, r.record.expectedCount,
      r.missing.card)) = some (.part, 1, 2, 1) ∧
    (∀ gid row, r.1.row gid = some row → RowRules row) ∧
    (∀ e ∈ r.2, ∃ records, e.answer = .ok records) ∧
    ((∀ e ∈ r.2, Consistent e.after) ↔ ∀ e ∈ r.2, ¬StrayFill e.before e.call) := by
  refine ⟨by decide +kernel, (gap_consistency "BTC/USDT:PERP" .minute 2000 50).1 _ _ ?_⟩
  refine Run.snoc (Run.snoc (((Run.nil.snoc ⟨trivial, rfl⟩).snoc ⟨trivial, rfl⟩).snoc
    ⟨trivial, rfl⟩ |>.snoc ⟨?_, rfl⟩) ⟨trivial, rfl⟩) ⟨?_, rfl⟩
  · -- the gap is open, and then the attempt has begun
    exact ⟨_, rfl, by decide +kernel⟩
  · exact ⟨_, rfl, by decide +kernel⟩

end FuzzHelm
