import FuzzHelm.Ingest.Aggregator

namespace FuzzHelm

open Lib

/-!
# The emission of candles in order

The aggregator in ordered mode under calls in any order: candles that arrive early, late or twice,
minutes that are given up before or after the candles around them, and flushes in between.

* `AggCall`, `AggStep`, `emitted`, `Skips` — a run of the aggregator, and what its log says;
* `Released` — what has been emitted before the last flush and since;
* `Released.offer`, `.skip`, `.flush` — the operations;
* `EmissionInv` — the invariant of a run;
* `ordered_emission` — the candles are emitted in order, and without a flush none is passed over.
-/

/-- A call of the aggregator. -/
inductive AggCall
  | offer (c : Candle)
  | skip (loOpenNs hiOpenNs : ℤ)
  | flush

/-- The candles that are offered open on the grid of the timeframe. -/
def AggCall.Aligned (tf : Timeframe) : AggCall → Prop
  | .offer c => c.tf = tf.name → tf.ns ∣ c.openTimeNs
  | .skip _ _ => True
  | .flush => True

namespace CandleAggregator

/-- One call of the aggregator. -/
def call (a : CandleAggregator) : AggCall → List Candle × CandleAggregator
  | .offer c => a.offer c
  | .skip lo hi => a.skip lo hi
  | .flush => a.flush

end CandleAggregator

/-- One call of the aggregator emits the candles `out`. -/
def AggStep (a : CandleAggregator) (i : AggCall) (out : List Candle) (a' : CandleAggregator) :
    Prop :=
  a.call i = (out, a')

/-- The log of a run of the aggregator. -/
abbrev AggLog := List (Entry CandleAggregator AggCall (List Candle))

/-- The candles that a run has emitted, in the order of the calls. -/
def emitted (log : AggLog) : List Candle := log.flatMap Entry.answer

/-- Some call has given up the minute `m`. -/
def Skips (tf : Timeframe) (log : AggLog) (m : ℤ) : Prop :=
  ∃ e ∈ log, ∃ lo hi, e.call = .skip lo hi ∧ lo ≤ m ∧ m ≤ hi ∧ tf.ns ∣ m - lo

/-- No call of the run is a flush. -/
def NoFlush (log : AggLog) : Prop := ∀ e ∈ log, e.call ≠ .flush

/-- Nothing is emitted before the first call. -/
@[simp] theorem emitted_nil : emitted [] = [] := rfl

/-- One call more emits its answer. -/
@[simp] theorem emitted_concat (log : AggLog) (e : Entry CandleAggregator AggCall (List Candle)) :
    emitted (log ++ [e]) = emitted log ++ e.answer := by
  simp [emitted]

/-- What is skipped stays skipped. -/
theorem Skips.append_left {tf : Timeframe} {log log' : AggLog} {m : ℤ} (h : Skips tf log m) :
    Skips tf (log ++ log') m := by
  obtain ⟨e, he, hskip⟩ := h
  exact ⟨e, List.mem_append_left _ he, hskip⟩

/-- No flush at all is none before, and none now. -/
theorem NoFlush.of_concat {log : AggLog} {e : Entry CandleAggregator AggCall (List Candle)}
    (h : NoFlush (log ++ [e])) : NoFlush log ∧ e.call ≠ .flush :=
  ⟨fun e' he' => h e' (List.mem_append_left _ he'), h e (by simp)⟩

/-! ### What the operations change -/

/-- Only the counters, the memory of what has been released and the current candle differ. -/
structure SameQueue (a a' : CandleAggregator) : Prop where
  tf : a'.tf = a.tf
  ordered : a'.ordered = a.ordered
  next : a'.next = a.next
  held : a'.held = a.held
  skipped : a'.skipped = a.skipped

namespace CandleAggregator

variable {a : CandleAggregator} {nxt : ℤ}

/-- The current candle is not part of the queue. -/
theorem sameQueue_trackCurrent (a : CandleAggregator) (c : Candle) :
    SameQueue a (a.trackCurrent c) := by
  obtain ⟨cur, heq⟩ := AggBooks.trackCurrent_eq a c
  rw [heq]
  exact ⟨rfl, rfl, rfl, rfl, rfl⟩

/-- **What an offer does** once the release has begun: the candle is turned away, or it joins those
    that wait and the release goes on. -/
theorem offer_cases (hordered : a.ordered = true) (hnext : a.next = some nxt) (c : Candle) :
    (∃ a', a.offer c = ([], a') ∧ SameQueue a a') ∨
    (a.accepts c = true ∧ nxt ≤ c.openTimeNs ∧
      ∃ a', a.offer c = (a'.hold c).drain nxt ∧ SameQueue a a') := by
  have htrack := sameQueue_trackCurrent a c
  -- the first accepted candle has been seen, so the start branch is not taken
  have hstarted : ¬(a.ordered = true ∧ a.next = none) := by simp [hnext]
  unfold offer
  simp only [if_neg hstarted]
  simp only [hordered, hnext, Option.getD_some, Bool.true_eq_false, if_false]
  -- a candle of another stream
  by_cases hacc : a.accepts c = false
  · rw [if_pos hacc]
    exact .inl ⟨a, rfl, ⟨rfl, rfl, rfl, rfl, rfl⟩⟩
  rw [if_neg hacc]
  by_cases hclosed : c.isClosed = false
  · -- an update of a minute that is not over
    rw [if_pos hclosed]
    split
    · exact .inl ⟨_, rfl, ⟨rfl, hordered.symm, hnext.symm, rfl, rfl⟩⟩
    · exact .inl ⟨_, rfl, htrack⟩
  rw [if_neg hclosed]
  -- a minute before the released ones is late; another is held and the queue drained
  split
  · exact .inl ⟨_, rfl, ⟨htrack.tf, htrack.ordered, htrack.next, htrack.held, htrack.skipped⟩⟩
  · split
    · exact .inl ⟨_, rfl, ⟨htrack.tf, htrack.ordered, htrack.next, htrack.held, htrack.skipped⟩⟩
    · rename_i hold
      exact .inr ⟨by simpa using hacc, not_lt.mp hold, _, rfl, htrack⟩

/-- The first candle that is accepted is where the release begins. -/
theorem offer_begin (hordered : a.ordered = true) (hnext : a.next = none) {c : Candle}
    (hacc : a.accepts c = true) :
    a.offer c = CandleAggregator.offer { a with next := some c.openTimeNs } c := by
  have hacc' : CandleAggregator.accepts { a with next := some c.openTimeNs } c = true := hacc
  unfold offer
  simp only [hacc, hacc', Bool.true_eq_false, if_false]
  simp only [hordered, hnext, Option.getD_none, Option.getD_some, true_and, if_true,
    Option.some_ne_none, Bool.true_eq_false, if_false]

/-- **What giving up minutes does**: they join those given up, and nothing else moves. -/
theorem foldl_giveUp (ms : List ℤ) (a : CandleAggregator) :
    let a' := ms.foldl giveUp a
    a'.tf = a.tf ∧ a'.ordered = a.ordered ∧ a'.next = a.next ∧ a'.held = a.held ∧
      a.skipped ⊆ a'.skipped ∧ ∀ m ∈ a'.skipped, m ∈ a.skipped ∨ m ∈ ms := by
  -- by induction on the minutes: each one is given up or stays as it is
  induction ms generalizing a with
  | nil => exact ⟨rfl, rfl, rfl, rfl, subset_rfl, fun m hm => .inl hm⟩
  | cons k ms ih =>
    have hone : (a.giveUp k).tf = a.tf ∧ (a.giveUp k).ordered = a.ordered ∧
        (a.giveUp k).next = a.next ∧ (a.giveUp k).held = a.held ∧
        a.skipped ⊆ (a.giveUp k).skipped ∧
        ∀ m ∈ (a.giveUp k).skipped, m ∈ a.skipped ∨ m = k := by
      unfold giveUp
      split
      · refine ⟨rfl, rfl, rfl, rfl, Finset.subset_insert _ _, fun m hm => ?_⟩
        exact (Finset.mem_insert.mp hm).symm
      · exact ⟨rfl, rfl, rfl, rfl, subset_rfl, fun m hm => .inl hm⟩
    obtain ⟨htf, hord, hnext, hheld, hsub, hmem⟩ := hone
    obtain ⟨htf', hord', hnext', hheld', hsub', hmem'⟩ := ih (a.giveUp k)
    refine ⟨htf'.trans htf, hord'.trans hord, hnext'.trans hnext, hheld'.trans hheld,
      hsub.trans hsub', fun m hm => ?_⟩
    rcases hmem' m hm with hm | hm
    · rcases hmem m hm with hm | rfl
      · exact .inl hm
      · exact .inr List.mem_cons_self
    · exact .inr (List.mem_cons_of_mem _ hm)

end CandleAggregator

/-! ### What has been emitted -/

/-- **The emission**: the candles `past` were emitted up to the last flush, below the minute
    `first`, and the candles `handed` from it on. -/
structure Released (past handed : List Candle) (first nxt : ℤ) (a : CandleAggregator) : Prop where
  next : a.next = some nxt
  grid : a.tf.ns ∣ first
  queue : ∃ delivered, Queue a.tf delivered first a.skipped handed nxt a.held
  before : past.Pairwise fun c c' => c.openTimeNs < c'.openTimeNs
  below : ∀ c ∈ past, c.openTimeNs < first

namespace Released

variable {past handed : List Candle} {first nxt : ℤ} {a a' : CandleAggregator}

/-- What has been released depends on the queue alone. -/
theorem congr (h : Released past handed first nxt a) (hsame : SameQueue a a') :
    Released past handed first nxt a' where
  next := hsame.next.trans h.next
  grid := by
    rw [hsame.tf]
    exact h.grid
  queue := by
    rw [hsame.tf, hsame.skipped, hsame.held]
    exact h.queue
  before := h.before
  below := h.below

/-- The release begins at the minute `o`, with nothing waiting. -/
theorem begin {o : ℤ} (hnext : a.next = some o) (hheld : a.held = ∅) (ho : a.tf.ns ∣ o)
    (hpast : past.Pairwise fun c c' => c.openTimeNs < c'.openTimeNs)
    (hbelow : ∀ c ∈ past, c.openTimeNs < o) : Released past [] o o a where
  next := hnext
  grid := ho
  queue := by
    refine ⟨fun _ => False, le_refl o, by simp, fun o' c ho' => ?_, List.Pairwise.nil,
      fun c hc => ?_, fun m hm => ?_, fun m hm => hm.elim⟩
    · rw [hheld] at ho'
      cases ho'
    · cases hc
    · exact absurd hm.1 (not_le.mpr hm.2.1)
  before := hpast
  below := hbelow

/-- The candles that wait open where they are kept, from the next minute on. -/
theorem waits (h : Released past handed first nxt a) {o : ℤ} {c : Candle}
    (hget : a.held.get? o = some c) : c.openTimeNs = o ∧ nxt ≤ o ∧ a.tf.ns ∣ o := by
  obtain ⟨delivered, hq⟩ := h.queue
  obtain ⟨hopen, hle, hdvd, -⟩ := hq.waits o c hget
  exact ⟨hopen, hle, (dvd_sub_left h.grid).mp hdvd⟩

/-- What has been emitted opens in ascending order, below the next minute. -/
theorem ascending (h : Released past handed first nxt a) :
    (past ++ handed).Pairwise (fun c c' => c.openTimeNs < c'.openTimeNs) ∧
      ∀ c ∈ past ++ handed, c.openTimeNs < nxt := by
  obtain ⟨delivered, hq⟩ := h.queue
  constructor
  · rw [List.pairwise_append]
    refine ⟨h.before, hq.ascending, fun c hc c' hc' => ?_⟩
    exact (h.below c hc).trans_le (hq.given c' hc').1.1
  · intro c hc
    rcases List.mem_append.mp hc with hc | hc
    · exact (h.below c hc).trans_le hq.first_le
    · exact (hq.given c hc).1.2.1

/-- **The release goes on** as far as the candles and the minutes given up reach. -/
theorem drain (h : Released past handed first nxt a) :
    ∃ nxt', Released past (handed ++ (a.drain nxt).1) first nxt' (a.drain nxt).2 := by
  obtain ⟨delivered, hq⟩ := h.queue
  exact ⟨_, rfl, h.grid, ⟨delivered, hq.drainFrom⟩, h.before, h.below⟩

/-- **A candle is offered.** -/
theorem offer (h : Released past handed first nxt a) (hordered : a.ordered = true) {c : Candle}
    (hc : c.tf = a.tf.name → a.tf.ns ∣ c.openTimeNs) :
    (a.offer c).2.ordered = true ∧ (a.offer c).2.skipped = a.skipped ∧
      ∃ nxt', Released past (handed ++ (a.offer c).1) first nxt' (a.offer c).2 := by
  rcases CandleAggregator.offer_cases hordered h.next c with
    ⟨a', heq, hsame⟩ | ⟨hacc, hle, a', heq, hsame⟩
  · rw [heq, List.append_nil]
    exact ⟨hsame.ordered.trans hordered, hsame.skipped, nxt, h.congr hsame⟩
  · have hdvd : a.tf.ns ∣ c.openTimeNs := by
      simp only [CandleAggregator.accepts, Bool.and_eq_true, decide_eq_true_eq] at hacc
      exact hc hacc.1
    obtain ⟨delivered, hq⟩ := (h.congr hsame).queue
    -- the minute of the candle counts as delivered from now on
    have hheld : Released past handed first nxt (a'.hold c) := by
      refine ⟨hsame.next.trans h.next, (h.congr hsame).grid,
        ⟨fun m => delivered m ∨ c.openTimeNs = m, ?_⟩, h.before, h.below⟩
      refine hq.hold (fun _ => Iff.rfl) hle ?_
      rw [hsame.tf]
      exact dvd_sub hdvd h.grid
    rw [heq]
    exact ⟨hsame.ordered.trans hordered, hsame.skipped, hheld.drain⟩

/-- More minutes are given up. -/
theorem giveUp (h : Released past handed first nxt a) (htf : a'.tf = a.tf)
    (hnext : a'.next = a.next) (hheld : a'.held = a.held) (hsub : a.skipped ⊆ a'.skipped) :
    Released past handed first nxt a' where
  next := hnext.trans h.next
  grid := by
    rw [htf]
    exact h.grid
  queue := by
    obtain ⟨delivered, hq⟩ := h.queue
    rw [htf, hheld]
    refine ⟨delivered, { hq with passed := fun m hm => ?_ }⟩
    exact (hq.passed m hm).imp_right fun hs => hsub hs
  before := h.before
  below := h.below

/-- **Everything that waits is flushed**; the emission begins anew after the last of it. -/
theorem flush (h : Released past handed first nxt a) :
    (a.flush.2.ordered = a.ordered ∧ a.flush.2.skipped = a.skipped) ∧
      ∃ past' handed' first' nxt', Released past' handed' first' nxt' a.flush.2 ∧
        past ++ handed ++ a.flush.1 = past' ++ handed' := by
  have hopen : ∀ o c, a.held.get? o = some c → c.openTimeNs = o := fun o c hget => (h.waits hget).1
  have hwait := CandleAggregator.waiting_ascending hopen
  unfold CandleAggregator.flush
  cases hlast : a.waiting.getLast? with
  | none => exact ⟨⟨rfl, rfl⟩, past, handed, first, nxt, h, List.append_nil _⟩
  | some last =>
    have hall : (past ++ handed ++ a.waiting).Pairwise
        fun c c' => c.openTimeNs < c'.openTimeNs := by
      rw [List.pairwise_append]
      refine ⟨h.ascending.1, hwait, fun c hc c' hc' => ?_⟩
      have hget := (CandleAggregator.mem_waiting hopen).mp hc'
      exact (h.ascending.2 c hc).trans_le (h.waits hget).2.1
    have hmem : last ∈ a.waiting := List.mem_of_getLast? hlast
    obtain ⟨-, hle, hdvd⟩ := h.waits ((CandleAggregator.mem_waiting hopen).mp hmem)
    have hpos := a.tf.ns_pos
    refine ⟨⟨rfl, rfl⟩, past ++ handed ++ a.waiting, [], last.openTimeNs + a.tf.ns,
      last.openTimeNs + a.tf.ns, begin rfl rfl (dvd_add hdvd (dvd_refl _)) hall fun c hc => ?_,
      (List.append_nil _).symm⟩
    -- nothing that has been emitted opens after the last candle of the flush
    rcases List.mem_append.mp hc with hc | hc
    · have hlt := h.ascending.2 c hc
      omega
    · obtain ⟨front, hfront⟩ := List.getLast?_eq_some_iff.mp hlast
      rw [hfront] at hwait hc
      rcases List.mem_append.mp hc with hc | hc
      · have hlt := (List.pairwise_append.mp hwait).2.2 c hc last (by simp)
        omega
      · rw [List.mem_singleton.mp hc]
        omega

end Released

/-! ### The runs -/

/-- **The invariant of a run in ordered mode.** -/
structure EmissionInv (tf : Timeframe) (a : CandleAggregator) (log : AggLog) : Prop where
  frame : a.tf = tf
  ordered : a.ordered = true
  skipped : ∀ m ∈ a.skipped, Skips tf log m
  books : (a.next = none ∧ a.held = ∅ ∧ emitted log = []) ∨
    ∃ past handed first nxt, Released past handed first nxt a ∧ emitted log = past ++ handed ∧
      (NoFlush log → past = [])

namespace EmissionInv

variable {tf : Timeframe} {a : CandleAggregator} {log : AggLog}

/-- **Step lemma**: an offer. -/
theorem offer (h : EmissionInv tf a log) {c : Candle} (hc : (AggCall.offer c).Aligned tf) :
    EmissionInv tf (a.offer c).2 (log ++ [⟨a, .offer c, (a.offer c).1, (a.offer c).2⟩]) := by
  have hc' : c.tf = a.tf.name → a.tf.ns ∣ c.openTimeNs := by
    rw [h.frame]
    exact hc
  have htf' := (SameAggregator.offer a c).tf.trans h.frame
  -- before the first accepted candle, and after it
  rcases h.books with ⟨hnext, hheld, hnone⟩ | ⟨past, handed, first, nxt, hrel, hem, hpast⟩
  · by_cases hacc : a.accepts c = true
    · -- the first candle that is accepted
      have hdvd : a.tf.ns ∣ c.openTimeNs := by
        have hacc' := hacc
        simp only [CandleAggregator.accepts, Bool.and_eq_true, decide_eq_true_eq] at hacc'
        exact hc' hacc'.1
      -- it starts the release at its own minute
      have hbegin : Released [] [] c.openTimeNs c.openTimeNs { a with next := some c.openTimeNs } :=
        .begin rfl hheld hdvd List.Pairwise.nil fun c hc => absurd hc List.not_mem_nil
      obtain ⟨hord, hskip, nxt', hrel⟩ := hbegin.offer h.ordered hc'
      rw [CandleAggregator.offer_begin h.ordered hnext hacc] at htf' ⊢
      refine ⟨htf', hord, fun m hm => ?_, .inr ⟨[], _, _, _, hrel, ?_, fun _ => rfl⟩⟩
      · rw [hskip] at hm
        exact (h.skipped m hm).append_left
      · simp [hnone]
    · rw [AggBooks.offer_other (by simpa using hacc)]
      exact ⟨h.frame, h.ordered, fun m hm => (h.skipped m hm).append_left,
        .inl ⟨hnext, hheld, by simp [hnone]⟩⟩
  · obtain ⟨hord, hskip, nxt', hrel'⟩ := hrel.offer h.ordered hc'
    refine ⟨htf', hord, fun m hm => ?_, .inr ⟨past, _, first, nxt', hrel', ?_, fun hno => ?_⟩⟩
    · rw [hskip] at hm
      exact (h.skipped m hm).append_left
    · simp [hem]
    · exact hpast hno.of_concat.1

/-- **Step lemma**: minutes are given up. -/
theorem skip (h : EmissionInv tf a log) (lo hi : ℤ) :
    EmissionInv tf (a.skip lo hi).2
      (log ++ [⟨a, .skip lo hi, (a.skip lo hi).1, (a.skip lo hi).2⟩]) := by
  have htf' := (SameAggregator.skip a lo hi).tf.trans h.frame
  unfold CandleAggregator.skip at htf' ⊢
  have hpos := a.tf.ns_pos
  have hgive := CandleAggregator.foldl_giveUp (minutes a.tf.ns lo ((hi - lo) / a.tf.ns + 1).toNat) a
  generalize hfold : List.foldl CandleAggregator.giveUp a
    (minutes a.tf.ns lo ((hi - lo) / a.tf.ns + 1).toNat) = a₁ at hgive htf' ⊢
  obtain ⟨htf, hord, hnext, hheld, hsub, hmem⟩ := hgive
  have hskipped (e : Entry CandleAggregator AggCall (List Candle)) (he : e.call = .skip lo hi) :
      ∀ m ∈ a₁.skipped, Skips tf (log ++ [e]) m := by
    intro m hm
    rcases hmem m hm with hm | hm
    · exact (h.skipped m hm).append_left
    · obtain ⟨hle, hlt, hdvd⟩ := (mem_minutes hpos).mp hm
      refine ⟨e, by simp, lo, hi, he, hle, ?_, h.frame ▸ hdvd⟩
      -- the last minute of the range is the last one not after its end
      have hlast := Int.ediv_mul_le (hi - lo) hpos.ne'
      obtain ⟨q, hq⟩ := hdvd
      have hn : (0 : ℤ) ≤ (hi - lo) / a.tf.ns := by
        by_contra hneg
        rw [Int.toNat_of_nonpos (by omega)] at hlt
        simp at hlt
        omega
      rw [Int.toNat_of_nonneg (by omega)] at hlt
      have hq' : q < (hi - lo) / a.tf.ns + 1 := by
        have hmul : a.tf.ns * q < a.tf.ns * ((hi - lo) / a.tf.ns + 1) := by
          rw [mul_comm a.tf.ns (_ + 1)]
          omega
        exact lt_of_mul_lt_mul_left hmul hpos.le
      have hle' : q * a.tf.ns ≤ (hi - lo) / a.tf.ns * a.tf.ns :=
        mul_le_mul_of_nonneg_right (by omega) hpos.le
      rw [mul_comm] at hq
      omega
  simp only [hord, hnext, h.ordered] at htf' ⊢
  rcases h.books with ⟨hnone, hempty, hem⟩ | ⟨past, handed, first, nxt, hrel, hem, hpast⟩
  · simp only [hnone] at htf' ⊢
    exact ⟨htf', hord.trans h.ordered, hskipped _ rfl,
      .inl ⟨hnext.trans hnone, hheld.trans hempty, by simp [hem]⟩⟩
  · simp only [hrel.next] at htf' ⊢
    obtain ⟨nxt', hrel'⟩ := (hrel.giveUp htf hnext hheld hsub).drain
    refine ⟨htf', hord.trans h.ordered, hskipped _ rfl,
      .inr ⟨past, _, first, nxt', hrel', ?_, fun hno => ?_⟩⟩
    · simp [hem]
    · exact hpast hno.of_concat.1

/-- **Step lemma**: the end. -/
theorem flush (h : EmissionInv tf a log) :
    EmissionInv tf a.flush.2 (log ++ [⟨a, .flush, a.flush.1, a.flush.2⟩]) := by
  rcases h.books with ⟨hnext, hheld, hnone⟩ | ⟨past, handed, first, nxt, hrel, hem, hpast⟩
  · rw [AggBooks.flush_empty hheld]
    exact ⟨h.frame, h.ordered, fun m hm => (h.skipped m hm).append_left,
      .inl ⟨hnext, hheld, by simp [hnone]⟩⟩
  · obtain ⟨⟨hord, hskip⟩, past', handed', first', nxt', hrel', heq⟩ := hrel.flush
    have htf : a.flush.2.tf = a.tf := by
      unfold CandleAggregator.flush
      split <;> rfl
    refine ⟨htf.trans h.frame, hord.trans h.ordered, fun m hm => ?_,
      .inr ⟨past', handed', first', nxt', hrel', ?_, fun hno => ?_⟩⟩
    · rw [hskip] at hm
      exact (h.skipped m hm).append_left
    · simp [hem, heq]
    · exact absurd rfl hno.of_concat.2

/-- A new aggregator has emitted nothing. -/
theorem new {start : Option ℤ} (instrument : Option String) (retention : ℕ)
    (hstart : ∀ o ∈ start, tf.ns ∣ o) :
    EmissionInv tf (CandleAggregator.new tf instrument true start retention) [] := by
  refine ⟨rfl, rfl, fun m hm => absurd hm (Finset.notMem_empty m), ?_⟩
  cases start with
  | none => exact .inl ⟨rfl, rfl, rfl⟩
  | some o =>
    have hbegin : Released [] [] o o (CandleAggregator.new tf instrument true (some o) retention) :=
      .begin rfl rfl (hstart o rfl) List.Pairwise.nil fun c hc => absurd hc List.not_mem_nil
    exact .inr ⟨[], [], o, o, hbegin, rfl, fun _ => rfl⟩

/-- Every call keeps the invariant. -/
theorem call (h : EmissionInv tf a log) {i : AggCall} (hi : i.Aligned tf) :
    EmissionInv tf (a.call i).2 (log ++ [⟨a, i, (a.call i).1, (a.call i).2⟩]) := by
  match i with
  | .offer c => exact h.offer hi
  | .skip lo hi => exact h.skip lo hi
  | .flush => exact h.flush

/-- A minute between two emitted ones, when nothing has been flushed. -/
theorem between (h : EmissionInv tf a log) (hno : NoFlush log) {c c' : Candle}
    (hc : c ∈ emitted log) (hc' : c' ∈ emitted log) {m : ℤ} (hm : tf.ns ∣ m)
    (hle : c.openTimeNs ≤ m) (hle' : m ≤ c'.openTimeNs) :
    Handed (emitted log) m ∨ Skips tf log m := by
  rcases h.books with ⟨-, -, hnone⟩ | ⟨past, handed, first, nxt, hrel, hem, hpast⟩
  · rw [hnone] at hc
    cases hc
  · rw [hpast hno, List.nil_append] at hem
    rw [hem] at hc hc' ⊢
    obtain ⟨delivered, hq⟩ := hrel.queue
    have hslot : Slot a.tf.ns first nxt m := by
      refine ⟨(hq.given c hc).1.1.trans hle, hle'.trans_lt (hq.given c' hc').1.2.1, ?_⟩
      exact dvd_sub (h.frame ▸ hm) hrel.grid
    exact (hq.passed m hslot).imp_right (h.skipped m)

end EmissionInv

/-- **Candles are emitted in order.**  After any calls of an aggregator in ordered mode whose
    candles open on the grid of its timeframe, the emitted open times are strictly increasing; a
    minute between two of them has been emitted or given up, unless something was flushed; and no
    candle that waits is older than the next minute. -/
theorem ordered_emission {tf : Timeframe} {instrument : Option String} {start : Option ℤ}
    {retention : ℕ} (hstart : ∀ o ∈ start, tf.ns ∣ o) {a : CandleAggregator} {log : AggLog}
    (h : Run AggStep (CandleAggregator.new tf instrument true start retention) a log)
    (haligned : ∀ e ∈ log, e.call.Aligned tf) :
    (emitted log).Pairwise (fun c c' => c.openTimeNs < c'.openTimeNs) ∧
    (NoFlush log → ∀ c ∈ emitted log, ∀ c' ∈ emitted log, ∀ m, tf.ns ∣ m →
      c.openTimeNs ≤ m → m ≤ c'.openTimeNs → Handed (emitted log) m ∨ Skips tf log m) ∧
    (∀ o c, a.held.get? o = some c →
      c.openTimeNs = o ∧ ∃ nxt, a.next = some nxt ∧ nxt ≤ c.openTimeNs) := by
  -- the invariant along the run, every call being on the grid
  have hinv : EmissionInv tf a log := by
    induction h with
    | nil => exact .new instrument retention hstart
    | @snoc a log i out a' hrun hs ih =>
      have hcall := (ih fun e he => haligned e (List.mem_append_left _ he)).call
        (haligned ⟨a, i, out, a'⟩ (by simp))
      rw [show a.call i = (out, a') from hs] at hcall
      exact hcall
  refine ⟨?_, fun hno c hc c' hc' m hm hle hle' => hinv.between hno hc hc' hm hle hle', ?_⟩
  · rcases hinv.books with ⟨-, -, hnone⟩ | ⟨past, handed, first, nxt, hrel, hem, -⟩
    · rw [hnone]
      exact List.Pairwise.nil
    · rw [hem]
      exact hrel.ascending.1
  · intro o c hget
    rcases hinv.books with ⟨-, hempty, -⟩ | ⟨past, handed, first, nxt, hrel, -, -⟩
    · rw [hempty] at hget
      cases hget
    · obtain ⟨hopen, hle, -⟩ := hrel.waits hget
      exact ⟨hopen, nxt, hrel.next, hopen ▸ hle⟩

/-! ### A session -/

/-- The closed candle of the minute `i`. -/
def closedMinute (i : ℤ) : Candle where
  instrument := "BTC/USDT:PERP"
  venue := "binance"
  tf := "1m"
  openTimeNs := i * 60000000000
  closeTimeNs := i * 60000000000 + 59999000000
  o := 100
  h := 101
  l := 99
  c := 100
  volume := 2
  quoteVolume := 200
  tradesCount := 3
  vwap := none
  isClosed := true
  isSynthetic := false
  src := 1
  tsEventNs := i * 60000000000 + 60000000000
  tsIngestNs := i * 60000000000 + 60000000000
  eventUid := "k"

/-- The minutes 1, 4 and 2 arrive, the minute 3 is given up, the minute 1 arrives again and the
    minute 6 waits. -/
def emissionCalls : List AggCall :=
  [.offer (closedMinute 1), .offer (closedMinute 4), .offer (closedMinute 2),
    .skip 180000000000 180000000000, .offer (closedMinute 1), .offer (closedMinute 6)]

/-- The run emits the minutes 1, 2 and 4. -/
theorem ordered_emission_sample :
    let r := exec CandleAggregator.call
      (CandleAggregator.new .minute (some "BTC/USDT:PERP") true none 10) emissionCalls
    (emitted r.2).map Candle.openTimeNs = [60000000000, 120000000000, 240000000000] ∧
    (emitted r.2).Pairwise (fun c c' => c.openTimeNs < c'.openTimeNs) ∧
    (NoFlush r.2 → ∀ c ∈ emitted r.2, ∀ c' ∈ emitted r.2, ∀ m, Timeframe.minute.ns ∣ m →
      c.openTimeNs ≤ m → m ≤ c'.openTimeNs →
        Handed (emitted r.2) m ∨ Skips .minute r.2 m) ∧
    (∀ o c, r.1.held.get? o = some c →
      c.openTimeNs = o ∧ ∃ nxt, r.1.next = some nxt ∧ nxt ≤ c.openTimeNs) := by
  refine ⟨by decide +kernel, ordered_emission (fun o ho => by cases ho)
    (Run.exec CandleAggregator.call _ emissionCalls) fun e he => ?_⟩
  have haligned : ∀ i ∈ emissionCalls, AggCall.Aligned .minute i := by
    simp [emissionCalls, AggCall.Aligned, closedMinute, Timeframe.ns, Timeframe.minute, nsPerMs]
  refine haligned _ ?_
  rw [← calls_exec CandleAggregator.call
    (CandleAggregator.new .minute (some "BTC/USDT:PERP") true none 10) emissionCalls]
  exact List.mem_map_of_mem he

end FuzzHelm
