import FuzzHelm.Ingest.CandleGaps

namespace FuzzHelm

open Lib

/-!
# The aggregator of candles

A closed candle is released once and in the order of the open times: it waits until the minutes
before it have been released or given up.

* `CandleAggregator`, `offer`, `skip`, `flush` — the aggregator;
* `Queue` — what waits and what has been released, between two minutes of the release;
* `AggBooks` — the invariant of the aggregator;
* `AggBooks.offer`, `.skip`, `.flush` — the operations.
-/

/-- What the aggregator counts. -/
structure AggregatorStats where
  released : ℕ
  duplicates : ℕ
  conflicts : ℕ
  skipped : ℕ
  lateAfterSkip : ℕ
  staleUpdates : ℕ
  maxHeld : ℕ
  deriving DecidableEq, Repr

/-- `CandleAggregator`: the candles that wait, the next one that is due, and those that were given
    up. -/
structure CandleAggregator where
  tf : Timeframe
  instrument : Option String
  ordered : Bool
  next : Option ℤ
  held : Dict ℤ Candle
  released : Dict ℤ Candle
  retention : ℕ
  skipped : Finset ℤ
  current : Option Candle
  stats : AggregatorStats

/-- `same_values`: two copies of a minute that do not contradict each other. -/
def sameValues (a b : Candle) : Bool :=
  decide (a.o = b.o ∧ a.h = b.h ∧ a.l = b.l ∧ a.c = b.c ∧ a.volume = b.volume ∧
    a.quoteVolume = b.quoteVolume ∧ a.tradesCount = b.tradesCount)

namespace CandleAggregator

/-- `CandleAggregator(tf, instrument=…, ordered=…, start_open_ns=…, retention=…)`. -/
def new (tf : Timeframe) (instrument : Option String) (ordered : Bool) (startOpenNs : Option ℤ)
    (retention : ℕ) : CandleAggregator where
  tf := tf
  instrument := instrument
  ordered := ordered
  next := startOpenNs
  held := ∅
  released := ∅
  retention := retention
  skipped := ∅
  current := none
  stats := ⟨0, 0, 0, 0, 0, 0, 0⟩

variable (a : CandleAggregator)

/-- `is_skipped`: the minute was given up, and is not delivered any more. -/
def isSkipped (openNs : ℤ) : Bool :=
  decide (openNs ∈ a.skipped ∧ (a.released.get? openNs).isNone)

/-- `_accepts`: a candle of the instrument and of the timeframe. -/
def accepts (c : Candle) : Bool :=
  decide (c.tf = a.tf.name) && a.instrument.all fun instrument => decide (c.instrument = instrument)

/-- `_track_current`: a candle that is still open is kept as the current one. -/
def trackCurrent (c : Candle) : CandleAggregator :=
  match a.current with
  | none => { a with current := some c }
  | some cur =>
    if cur.openTimeNs < c.openTimeNs ∨ (c.openTimeNs = cur.openTimeNs ∧
        cur.tsEventNs ≤ c.tsEventNs ∧ cur.isClosed = false) then
      { a with current := some c }
    else a

/-- `_emit`: the candles are released, and the next minute is due. -/
def emit (cs : List Candle) : List Candle × CandleAggregator :=
  let released := cs.foldl (fun r c => r.insert c.openTimeNs c) a.released
  (cs, { a with
    released := released.drop (released.entries.length - a.retention)
    stats := { a.stats with released := a.stats.released + cs.length } })

/-- The loop of `_drain` from the minute `nxt` on: what is released, the next minute, and what
    waits still. -/
def drainFrom (tf : Timeframe) (skipped : Finset ℤ) (nxt : ℤ) (held : Dict ℤ Candle) :
    List Candle × ℤ × Dict ℤ Candle :=
  match _hget : held.get? nxt with
  | some c =>
    let r := drainFrom tf skipped (nxt + tf.ns) (held.erase nxt)
    (c :: r.1, r.2)
  | none =>
    if _hskip : nxt ∈ skipped then drainFrom tf skipped (nxt + tf.ns) held else ([], nxt, held)
termination_by held.entries.length + (skipped.filter (nxt ≤ ·)).card
decreasing_by
  -- a minute that is held is taken out, and none is given up anew
  · have hheld := held.length_erase_lt _hget
    have hskipped : (skipped.filter (nxt + tf.ns ≤ ·)).card ≤ (skipped.filter (nxt ≤ ·)).card := by
      refine Finset.card_le_card (Finset.monotone_filter_right _ fun m _ hm => ?_)
      have hpos := tf.ns_pos
      omega
    omega
  · -- a minute that has been given up is passed once
    have hskipped : (skipped.filter (nxt + tf.ns ≤ ·)).card < (skipped.filter (nxt ≤ ·)).card := by
      have hpos := tf.ns_pos
      refine Finset.card_lt_card (Finset.ssubset_iff_of_subset ?_ |>.mpr ⟨nxt, ?_, ?_⟩)
      · refine Finset.monotone_filter_right _ fun m _ hm => ?_
        omega
      · exact Finset.mem_filter.mpr ⟨_hskip, le_refl _⟩
      · intro hmem
        have hle := (Finset.mem_filter.mp hmem).2
        omega
    omega

/-- `_drain`, from the next minute on. -/
def drain (nxt : ℤ) : List Candle × CandleAggregator :=
  let (out, nxt', held) := drainFrom a.tf a.skipped nxt a.held
  { a with next := some nxt', held := held }.emit out

/-- A closed candle that is released, given up or waiting already. -/
def refuse (c : Candle) : CandleAggregator :=
  let prior := a.released.get? c.openTimeNs
  let other := prior.orElse fun _ => a.held.get? c.openTimeNs
  { a with stats := { a.stats with
      duplicates := a.stats.duplicates + 1
      lateAfterSkip := if prior.isNone ∧ c.openTimeNs ∈ a.skipped then a.stats.lateAfterSkip + 1
        else a.stats.lateAfterSkip
      conflicts := if other.any fun p => !sameValues p c then a.stats.conflicts + 1
        else a.stats.conflicts } }

/-- A closed candle joins those that wait. -/
def hold (c : Candle) : CandleAggregator :=
  let held := a.held.insert c.openTimeNs c
  { a with
    held := held
    stats := { a.stats with maxHeld := max a.stats.maxHeld held.entries.length } }

/-- `offer`: a closed candle waits for its turn, and what is in turn is released. -/
def offer (c : Candle) : List Candle × CandleAggregator :=
  if a.accepts c = false then ([], a)
  else
    let o := c.openTimeNs
    let a₁ : CandleAggregator :=
      if a.ordered ∧ a.next = none then { a with next := some o } else a
    if c.isClosed = false then
      if (a.released.get? o).isSome ∨ o ∈ a.skipped then
        ([], { a₁ with stats := { a₁.stats with staleUpdates := a₁.stats.staleUpdates + 1 } })
      else ([], a₁.trackCurrent c)
    else
      let a₂ := a₁.trackCurrent c
      if (a.released.get? o).isSome ∨ o ∈ a.skipped ∨ (a.held.get? o).isSome then ([], a₂.refuse c)
      else if a.ordered = false then a₂.emit [c]
      else
        let nxt := a.next.getD o
        if o < nxt then
          ([], { a₂ with stats := { a₂.stats with duplicates := a₂.stats.duplicates + 1 } })
        else (a₂.hold c).drain nxt

/-- One minute is given up, if it has not been released and does not wait. -/
def giveUp (m : ℤ) : CandleAggregator :=
  if (a.released.get? m).isNone ∧ (a.held.get? m).isNone then
    { a with
      skipped := insert m a.skipped
      stats := { a.stats with skipped := a.stats.skipped + 1 } }
  else a

/-- `skip`: minutes are given up, and what waited behind them may be released. -/
def skip (loOpenNs hiOpenNs : ℤ) : List Candle × CandleAggregator :=
  let a₁ := (minutes a.tf.ns loOpenNs ((hiOpenNs - loOpenNs) / a.tf.ns + 1).toNat).foldl giveUp a
  match a₁.ordered, a₁.next with
  | true, some nxt => a₁.drain nxt
  | true, none => ([], a₁)
  | false, _ => ([], a₁)

/-- What waits, in the order of the open times. -/
def waiting : List Candle := (a.held.keys.mergeSort (· ≤ ·)).filterMap a.held.get?

/-- `flush`: at the end everything that waits is released, in the order of time. -/
def flush : List Candle × CandleAggregator :=
  match a.waiting.getLast? with
  | none => ([], a)
  | some last =>
    { a with held := ∅, next := some (last.openTimeNs + a.tf.ns) }.emit a.waiting

end CandleAggregator

namespace CandleAggregator

/-! ### The release, minute by minute -/

variable {tf : Timeframe} {skipped : Finset ℤ} {nxt : ℤ} {held : Dict ℤ Candle}

/-- The next minute waits. -/
theorem drainFrom_some {c : Candle} (h : held.get? nxt = some c) :
    drainFrom tf skipped nxt held = (c :: (drainFrom tf skipped (nxt + tf.ns) (held.erase nxt)).1,
      (drainFrom tf skipped (nxt + tf.ns) (held.erase nxt)).2) := by
  rw [drainFrom]
  split
  · rename_i hget
    rw [h] at hget
    cases hget
    rfl
  · rename_i hget
    rw [h] at hget
    cases hget

/-- The next minute has not been delivered. -/
theorem drainFrom_none (h : held.get? nxt = none) (hskip : nxt ∉ skipped) :
    drainFrom tf skipped nxt held = ([], nxt, held) := by
  rw [drainFrom]
  split
  · rename_i hget
    rw [h] at hget
    cases hget
  · rw [dif_neg hskip]

/-! ### What waits -/

section Waiting

variable {a : CandleAggregator} (hopen : ∀ o c, a.held.get? o = some c → c.openTimeNs = o)

include hopen

/-- A candle waits under its own minute. -/
theorem mem_waiting {c : Candle} : c ∈ a.waiting ↔ a.held.get? c.openTimeNs = some c := by
  unfold waiting
  rw [List.mem_filterMap]
  constructor
  · rintro ⟨o, -, hget⟩
    rw [hopen o c hget]
    exact hget
  · intro hget
    refine ⟨c.openTimeNs, ?_, hget⟩
    rw [List.mem_mergeSort]
    exact List.mem_map.mpr ⟨_, (a.held.mem_entries_iff _ _).mpr hget, rfl⟩

/-- The candles that wait are in the order of time. -/
theorem waiting_ascending : a.waiting.Pairwise fun c c' => c.openTimeNs < c'.openTimeNs := by
  have hsorted : (a.held.keys.mergeSort (· ≤ ·)).Pairwise (· < ·) := by
    have hle : (a.held.keys.mergeSort (· ≤ ·)).Pairwise fun x y : ℤ => decide (x ≤ y) = true :=
      List.pairwise_mergeSort (fun x y z hxy hyz => by simp at *; omega)
        (fun x y => by simp; omega) _
    have hne : (a.held.keys.mergeSort (· ≤ ·)).Pairwise (· ≠ ·) :=
      (List.mergeSort_perm _ _).nodup_iff.mpr a.held.nodup
    exact (hle.and hne).imp fun hxy => lt_of_le_of_ne (of_decide_eq_true hxy.1) hxy.2
  unfold waiting
  rw [List.pairwise_filterMap]
  refine hsorted.imp fun hlt c hc c' hc' => ?_
  rw [hopen _ c hc, hopen _ c' hc']
  exact hlt

end Waiting

/-- What is flushed is what waits. -/
theorem flush_fst (a : CandleAggregator) : a.flush.1 = a.waiting := by
  unfold flush
  cases hlast : a.waiting.getLast? with
  | none => exact (List.getLast?_eq_none_iff.mp hlast).symm
  | some last => rfl

end CandleAggregator

/-- What no operation of the aggregator changes. -/
structure SameAggregator (a a' : CandleAggregator) : Prop where
  tf : a'.tf = a.tf
  instrument : a'.instrument = a.instrument

namespace SameAggregator

/-- Following the current candle keeps what the aggregator was made with. -/
theorem trackCurrent (a : CandleAggregator) (c : Candle) : SameAggregator a (a.trackCurrent c) := by
  unfold CandleAggregator.trackCurrent
  split
  · exact ⟨rfl, rfl⟩
  · split <;> exact ⟨rfl, rfl⟩

/-- An offer keeps what the aggregator was made with. -/
theorem offer (a : CandleAggregator) (c : Candle) : SameAggregator a (a.offer c).2 := by
  have hstart : SameAggregator a
      (if a.ordered ∧ a.next = none then { a with next := some c.openTimeNs } else a) := by
    split <;> exact ⟨rfl, rfl⟩
  -- the tracking of the current minute comes after the start
  have htrack := trackCurrent
    (if a.ordered ∧ a.next = none then { a with next := some c.openTimeNs } else a) c
  have hall : SameAggregator a (CandleAggregator.trackCurrent
      (if a.ordered ∧ a.next = none then { a with next := some c.openTimeNs } else a) c) :=
    ⟨htrack.tf.trans hstart.tf, htrack.instrument.trans hstart.instrument⟩
  unfold CandleAggregator.offer
  split
  · exact ⟨rfl, rfl⟩
  · dsimp only
    split
    · split
      · exact ⟨hstart.tf, hstart.instrument⟩
      · exact hall
    · split
      · exact ⟨hall.tf, hall.instrument⟩
      · split
        · exact ⟨hall.tf, hall.instrument⟩
        · split
          · exact ⟨hall.tf, hall.instrument⟩
          · exact ⟨hall.tf, hall.instrument⟩

/-- Giving minutes up keeps what the aggregator was made with. -/
theorem skip (a : CandleAggregator) (lo hi : ℤ) : SameAggregator a (a.skip lo hi).2 := by
  have hgive : ∀ (ms : List ℤ) (a : CandleAggregator),
      SameAggregator a (ms.foldl CandleAggregator.giveUp a) := by
    intro ms
    induction ms with
    | nil => exact fun a => ⟨rfl, rfl⟩
    | cons m ms ih =>
      intro a
      have hone : SameAggregator a (a.giveUp m) := by
        unfold CandleAggregator.giveUp
        split <;> exact ⟨rfl, rfl⟩
      exact ⟨(ih _).tf.trans hone.tf, (ih _).instrument.trans hone.instrument⟩
  have hms := hgive (minutes a.tf.ns lo ((hi - lo) / a.tf.ns + 1).toNat) a
  unfold CandleAggregator.skip
  dsimp only
  split <;> exact ⟨hms.tf, hms.instrument⟩

end SameAggregator

/-! ### What waits and what has been released -/

/-- The minute `m` is among the candles that have been handed over. -/
def Handed (handed : List Candle) (m : ℤ) : Prop := ∃ c ∈ handed, c.openTimeNs = m

/-- One candle more is handed over. -/
@[simp] theorem handed_concat {handed : List Candle} {c : Candle} {m : ℤ} :
    Handed (handed ++ [c]) m ↔ Handed handed m ∨ c.openTimeNs = m := by
  simp [Handed, or_and_right, exists_or]

/-- What was handed over stays so. -/
theorem Handed.append_left {handed cs : List Candle} {m : ℤ} (h : Handed handed m) :
    Handed (handed ++ cs) m := by
  obtain ⟨c, hc, hm⟩ := h
  exact ⟨c, List.mem_append_left _ hc, hm⟩

/-- **The release in order**: the candles `handed` lie below the minute `nxt` in the order of their
    open times, those in `held` from it on, and a minute below it that has not been handed over has
    been given up. -/
structure Queue (tf : Timeframe) (delivered : ℤ → Prop) (first : ℤ) (skipped : Finset ℤ)
    (handed : List Candle) (nxt : ℤ) (held : Dict ℤ Candle) : Prop where
  first_le : first ≤ nxt
  grid : tf.ns ∣ nxt - first
  waits : ∀ o c, held.get? o = some c →
    c.openTimeNs = o ∧ nxt ≤ o ∧ tf.ns ∣ o - first ∧ delivered o
  ascending : handed.Pairwise fun c c' => c.openTimeNs < c'.openTimeNs
  given : ∀ c ∈ handed, Slot tf.ns first nxt c.openTimeNs ∧ delivered c.openTimeNs
  passed : ∀ m, Slot tf.ns first nxt m → Handed handed m ∨ m ∈ skipped
  /-- No closed candle is lost. -/
  kept : ∀ m, delivered m → first ≤ m → Handed handed m ∨ (held.get? m).isSome

namespace Queue

variable {tf : Timeframe} {delivered : ℤ → Prop} {first : ℤ} {skipped : Finset ℤ}
  {handed : List Candle} {nxt : ℤ} {held : Dict ℤ Candle}

/-- The next minute lies on the grid of the first one. -/
theorem next_grid (h : Queue tf delivered first skipped handed nxt held) :
    tf.ns ∣ nxt + tf.ns - first := by
  have heq : nxt + tf.ns - first = (nxt - first) + tf.ns := by ring
  rw [heq]
  exact dvd_add h.grid (dvd_refl _)

/-- What waits beyond the next minute. -/
theorem next_le (h : Queue tf delivered first skipped handed nxt held) {o : ℤ} (hle : nxt ≤ o)
    (hne : nxt ≠ o) (hdvd : tf.ns ∣ o - first) : nxt + tf.ns ≤ o := by
  by_contra hlt
  rcases Slot.succ ⟨h.first_le.trans hle, not_le.mp hlt, hdvd⟩ h.grid with hs | heq
  · exact absurd hs.2.1 (not_lt.mpr hle)
  · exact hne heq.symm

/-- The next minute is released. -/
theorem release (h : Queue tf delivered first skipped handed nxt held) {c : Candle}
    (hget : held.get? nxt = some c) :
    Queue tf delivered first skipped (handed ++ [c]) (nxt + tf.ns) (held.erase nxt) := by
  obtain ⟨hopen, -, -, hd⟩ := h.waits nxt c hget
  have hpos := tf.ns_pos
  have hle : nxt ≤ nxt + tf.ns := by omega
  refine ⟨h.first_le.trans hle, h.next_grid, fun o c' ho => ?_, ?_, fun c' hc' => ?_,
    fun m hm => ?_, fun m hm hfirst => ?_⟩
  · rw [Dict.get?_erase] at ho
    split at ho
    · cases ho
    · rename_i hne
      obtain ⟨hopen', hle', hdvd, hd'⟩ := h.waits o c' ho
      exact ⟨hopen', h.next_le hle' hne hdvd, hdvd, hd'⟩
  -- it comes after all handed on so far
  · rw [List.pairwise_append]
    refine ⟨h.ascending, List.pairwise_singleton _ _, fun c₁ hc₁ c₂ hc₂ => ?_⟩
    rw [List.mem_singleton.mp hc₂, hopen]
    exact (h.given c₁ hc₁).1.2.1
  · rcases List.mem_append.mp hc' with hc' | hc'
    · exact ⟨(h.given c' hc').1.mono hle, (h.given c' hc').2⟩
    · rw [List.mem_singleton.mp hc', hopen]
      exact ⟨⟨h.first_le, by omega, h.grid⟩, hd⟩
  · rw [handed_concat]
    -- a minute up to the new one was passed before or is the one handed on
    rcases hm.succ h.grid with hs | rfl
    · exact (h.passed m hs).imp_left .inl
    · exact .inl (.inr hopen)
  · rw [handed_concat, Dict.get?_erase]
    rcases h.kept m hm hfirst with hin | hin
    · exact .inl (.inl hin)
    · by_cases hne : nxt = m
      · exact .inl (.inr (hopen.trans hne))
      · rw [if_neg hne]
        exact .inr hin

/-- The next minute has been given up. -/
theorem pass (h : Queue tf delivered first skipped handed nxt held) (hnone : held.get? nxt = none)
    (hskip : nxt ∈ skipped) : Queue tf delivered first skipped handed (nxt + tf.ns) held := by
  have hpos := tf.ns_pos
  have hle : nxt ≤ nxt + tf.ns := by omega
  refine ⟨h.first_le.trans hle, h.next_grid, fun o c' ho => ?_, h.ascending, fun c' hc' => ?_,
    fun m hm => ?_, h.kept⟩
  · obtain ⟨hopen', hle', hdvd, hd'⟩ := h.waits o c' ho
    refine ⟨hopen', h.next_le hle' ?_ hdvd, hdvd, hd'⟩
    rintro rfl
    rw [hnone] at ho
    cases ho
  · exact ⟨(h.given c' hc').1.mono hle, (h.given c' hc').2⟩
  · rcases hm.succ h.grid with hs | rfl
    · exact h.passed m hs
    · exact .inr hskip

/-- **The release**, by induction on what waits and what has been given up. -/
theorem drainFrom (h : Queue tf delivered first skipped handed nxt held) :
    Queue tf delivered first skipped
      (handed ++ (CandleAggregator.drainFrom tf skipped nxt held).1)
      (CandleAggregator.drainFrom tf skipped nxt held).2.1
      (CandleAggregator.drainFrom tf skipped nxt held).2.2 := by
  fun_induction CandleAggregator.drainFrom tf skipped nxt held generalizing handed with
  | case1 nxt held c hget r =>
    rename_i ih
    have hih := ih (h.release hget)
    rw [List.append_assoc, List.singleton_append] at hih
    exact hih
  | case2 nxt held hnone hskip ih => exact ih (h.pass hnone hskip)
  | case3 nxt held hnone hskip =>
    rw [List.append_nil]
    exact h

/-- A minute is delivered that has been handed over or waits already, or that lies before the
    first one. -/
theorem deliver (h : Queue tf delivered first skipped handed nxt held) {delivered' : ℤ → Prop}
    {o : ℤ} (hd : ∀ m, delivered' m ↔ delivered m ∨ o = m)
    (ho : o < first ∨ Handed handed o ∨ (held.get? o).isSome) :
    Queue tf delivered' first skipped handed nxt held where
  first_le := h.first_le
  grid := h.grid
  waits := by
    intro o' c hget
    obtain ⟨hopen, hle, hdvd, hd'⟩ := h.waits o' c hget
    exact ⟨hopen, hle, hdvd, (hd o').mpr (.inl hd')⟩
  ascending := h.ascending
  given := fun c hc => ⟨(h.given c hc).1, (hd _).mpr (.inl (h.given c hc).2)⟩
  passed := h.passed
  kept := by
    intro m hm hfirst
    rcases (hd m).mp hm with hm | rfl
    · exact h.kept m hm hfirst
    · exact ho.resolve_left (not_lt.mpr hfirst)

/-- **A closed candle joins those that wait.** -/
theorem hold (h : Queue tf delivered first skipped handed nxt held) {delivered' : ℤ → Prop}
    {c : Candle} (hd : ∀ m, delivered' m ↔ delivered m ∨ c.openTimeNs = m)
    (hle : nxt ≤ c.openTimeNs) (hdvd : tf.ns ∣ c.openTimeNs - first) :
    Queue tf delivered' first skipped handed nxt (held.insert c.openTimeNs c) where
  first_le := h.first_le
  grid := h.grid
  waits := by
    intro o c' hget
    rw [Dict.get?_insert] at hget
    split at hget
    · rename_i heq
      cases hget
      subst heq
      exact ⟨rfl, hle, hdvd, (hd _).mpr (.inr rfl)⟩
    · obtain ⟨hopen, hle', hdvd', hd'⟩ := h.waits o c' hget
      exact ⟨hopen, hle', hdvd', (hd o).mpr (.inl hd')⟩
  ascending := h.ascending
  given := fun c' hc' => ⟨(h.given c' hc').1, (hd _).mpr (.inl (h.given c' hc').2)⟩
  passed := h.passed
  kept := by
    intro m hm hfirst
    rw [Dict.get?_insert]
    split
    · exact .inr rfl
    · rename_i hne
      exact h.kept m (((hd m).mp hm).resolve_right hne) hfirst

/-- More minutes are given up. -/
theorem giveUp (h : Queue tf delivered first skipped handed nxt held) (m : ℤ) :
    Queue tf delivered first (insert m skipped) handed nxt held :=
  { h with passed := fun k hk => (h.passed k hk).imp_right Finset.mem_insert_of_mem }

end Queue

/-! ### The invariant of the aggregator -/

/-- **The books of the aggregator**: the next minute to release is `nxt`, and what has been given up
    has been settled below `lo` without having been delivered. -/
structure AggBooks (delivered : ℤ → Prop) (first lo nxt : ℤ) (handed : List Candle)
    (a : CandleAggregator) : Prop where
  ordered : a.ordered = true
  next : a.next = some nxt
  queue : Queue a.tf delivered first a.skipped handed nxt a.held
  skipped : ∀ m ∈ a.skipped, Slot a.tf.ns first lo m ∧ ¬delivered m
  released : ∀ o c, a.released.get? o = some c → Handed handed o

/-- Before the first candle. -/
structure NotStarted (a : CandleAggregator) : Prop where
  ordered : a.ordered = true
  next : a.next = none
  held : a.held = ∅
  skipped : a.skipped = ∅
  released : a.released = ∅

namespace AggBooks

variable {delivered delivered' : ℤ → Prop} {first lo lo' nxt : ℤ} {handed : List Candle}
  {a : CandleAggregator}

/-- The counters and the current candle do not matter. -/
theorem congr {a' : CandleAggregator} (h : AggBooks delivered first lo nxt handed a)
    (hordered : a'.ordered = a.ordered) (hnext : a'.next = a.next) (htf : a'.tf = a.tf)
    (hheld : a'.held = a.held) (hskipped : a'.skipped = a.skipped)
    (hreleased : a'.released = a.released) : AggBooks delivered first lo nxt handed a' where
  ordered := hordered.trans h.ordered
  next := hnext.trans h.next
  queue := by
    rw [htf, hheld, hskipped]
    exact h.queue
  skipped := by
    rw [htf, hskipped]
    exact h.skipped
  released := by
    rw [hreleased]
    exact h.released

/-- Later times have the same books. -/
theorem mono (h : AggBooks delivered first lo nxt handed a) (hlo : lo ≤ lo') :
    AggBooks delivered first lo' nxt handed a :=
  { h with skipped := fun m hm => ⟨(h.skipped m hm).1.mono hlo, (h.skipped m hm).2⟩ }

/-- What has been released is remembered or forgotten. -/
theorem of_emit {a : CandleAggregator} {cs : List Candle} {o : ℤ} {c : Candle}
    (h : (a.emit cs).2.released.get? o = some c) :
    a.released.get? o = some c ∨ (c ∈ cs ∧ c.openTimeNs = o) := by
  have hfold : ∀ (cs : List Candle) (r : Dict ℤ Candle),
      (cs.foldl (fun r c => r.insert c.openTimeNs c) r).get? o = some c →
        r.get? o = some c ∨ (c ∈ cs ∧ c.openTimeNs = o) := by
    intro cs
    induction cs with
    | nil => exact fun r hr => .inl hr
    | cons c₀ cs ih =>
      intro r hr
      rcases ih _ hr with hin | ⟨hin, ho⟩
      · rw [Dict.get?_insert] at hin
        split at hin
        · rename_i heq
          cases hin
          exact .inr ⟨List.mem_cons_self, heq⟩
        · exact .inl hin
      · exact .inr ⟨List.mem_cons_of_mem _ hin, ho⟩
  exact hfold cs a.released (Dict.get?_of_drop _ h)

/-- **The release keeps the books.** -/
theorem drain (h : AggBooks delivered first lo nxt handed a) :
    ∃ nxt', AggBooks delivered first lo nxt' (handed ++ (a.drain nxt).1) (a.drain nxt).2 := by
  have hqueue := h.queue.drainFrom
  refine ⟨_, h.ordered, rfl, hqueue, h.skipped, fun o c hget => ?_⟩
  rcases of_emit hget with hin | ⟨hin, ho⟩
  · exact (h.released o c hin).append_left
  · exact ⟨c, List.mem_append_right _ hin, ho⟩

/-- Only the current candle is tracked. -/
theorem trackCurrent_eq (a : CandleAggregator) (c : Candle) :
    ∃ cur, a.trackCurrent c = { a with current := cur } := by
  unfold CandleAggregator.trackCurrent
  cases hcur : a.current with
  | none => exact ⟨_, rfl⟩
  | some cur =>
    dsimp only
    split
    · exact ⟨_, rfl⟩
    · exact ⟨some cur, by rw [← hcur]⟩

/-- The current candle is not part of the books. -/
theorem trackCurrent (h : AggBooks delivered first lo nxt handed a) (c : Candle) :
    AggBooks delivered first lo nxt handed (a.trackCurrent c) := by
  obtain ⟨cur, heq⟩ := trackCurrent_eq a c
  rw [heq]
  exact h.congr rfl rfl rfl rfl rfl rfl

/-- A candle that is not closed changes nothing that matters. -/
theorem offer_open (h : AggBooks delivered first lo nxt handed a) {c : Candle}
    (hclosed : c.isClosed = false) :
    (a.offer c).1 = [] ∧ AggBooks delivered first lo nxt handed (a.offer c).2 := by
  unfold CandleAggregator.offer
  have hstarted : ¬(a.ordered = true ∧ a.next = none) := by
    rw [h.next]
    simp
  simp only [if_neg hstarted, if_pos hclosed]
  split
  · exact ⟨rfl, h⟩
  · split
    · exact ⟨rfl, h.congr rfl rfl rfl rfl rfl rfl⟩
    · exact ⟨rfl, h.trackCurrent c⟩

/-- A candle of another instrument or timeframe. -/
theorem offer_other {c : Candle} (hother : a.accepts c = false) : a.offer c = ([], a) := by
  unfold CandleAggregator.offer
  rw [if_pos hother]

/-- The same minutes are delivered. -/
theorem same (h : AggBooks delivered first lo nxt handed a)
    (hd : ∀ m, delivered' m ↔ delivered m) : AggBooks delivered' first lo nxt handed a := by
  have heq : delivered' = delivered := funext fun m => propext (hd m)
  rw [heq]
  exact h

/-- **A closed candle is offered**: it has been handed over, it waits, or it lies before the first
    one. -/
theorem offer_closed (h : AggBooks delivered first lo nxt handed a) {c : Candle}
    (hacc : a.accepts c = true) (hclosed : c.isClosed = true) (hskip : c.openTimeNs ∉ a.skipped)
    (hdvd : a.tf.ns ∣ c.openTimeNs - first)
    (hd : ∀ m, delivered' m ↔ delivered m ∨ c.openTimeNs = m) :
    ∃ nxt', AggBooks delivered' first lo nxt' (handed ++ (a.offer c).1) (a.offer c).2 := by
  have hskipped : ∀ m ∈ a.skipped, Slot a.tf.ns first lo m ∧ ¬delivered' m := by
    intro m hm
    refine ⟨(h.skipped m hm).1, fun hbad => ?_⟩
    rcases (hd m).mp hbad with hbad | rfl
    · exact (h.skipped m hm).2 hbad
    · exact hskip hm
  -- the candle is not needed any more
  have hrefused : c.openTimeNs < first ∨ Handed handed c.openTimeNs ∨
      (a.held.get? c.openTimeNs).isSome → AggBooks delivered' first lo nxt handed a := fun ho =>
    ⟨h.ordered, h.next, h.queue.deliver hd ho, hskipped, h.released⟩
  have hstarted : ¬(a.ordered = true ∧ a.next = none) := by
    rw [h.next]
    simp
  unfold CandleAggregator.offer
  simp only [if_neg hstarted]
  simp only [hacc, hclosed, h.ordered, h.next, Option.getD_some, Bool.true_eq_false, if_false]
  by_cases hknown : (a.released.get? c.openTimeNs).isSome ∨ c.openTimeNs ∈ a.skipped ∨
      (a.held.get? c.openTimeNs).isSome
  · rw [if_pos hknown]
    refine ⟨nxt, ?_⟩
    rw [List.append_nil]
    refine ((hrefused ?_).trackCurrent c).congr rfl rfl rfl rfl rfl rfl
    rcases hknown with hrel | hbad | hheld
    · obtain ⟨c', hc'⟩ := Option.isSome_iff_exists.mp hrel
      exact .inr (.inl (h.released _ _ hc'))
    · exact absurd hbad hskip
    · exact .inr (.inr hheld)
  · rw [if_neg hknown]
    by_cases hold : c.openTimeNs < nxt
    · rw [if_pos hold]
      refine ⟨nxt, ?_⟩
      rw [List.append_nil]
      refine ((hrefused ?_).trackCurrent c).congr rfl rfl rfl rfl rfl rfl
      -- a minute below the next one has been handed over or given up
      by_cases hfirst : c.openTimeNs < first
      · exact .inl hfirst
      · have hpassed := h.queue.passed c.openTimeNs ⟨not_lt.mp hfirst, hold, hdvd⟩
        exact .inr (.inl (hpassed.resolve_right hskip))
    · rw [if_neg hold]
      obtain ⟨cur, htrack⟩ := trackCurrent_eq a c
      rw [htrack]
      have hheld : AggBooks delivered' first lo nxt handed ({ a with current := cur }.hold c) :=
        ⟨h.ordered, h.next, h.queue.hold hd (not_lt.mp hold) hdvd, hskipped, h.released⟩
      exact hheld.drain

/-- **A closed candle of a minute that has been given up** is refused. -/
theorem offer_skipped (h : AggBooks delivered first lo nxt handed a) {c : Candle}
    (hskip : c.openTimeNs ∈ a.skipped) (hclosed : c.isClosed = true) :
    (a.offer c).1 = [] ∧ AggBooks delivered first lo nxt handed (a.offer c).2 := by
  unfold CandleAggregator.offer
  have hstarted : ¬(a.ordered = true ∧ a.next = none) := by
    rw [h.next]
    simp
  have hknown : (a.released.get? c.openTimeNs).isSome ∨ c.openTimeNs ∈ a.skipped ∨
      (a.held.get? c.openTimeNs).isSome := .inr (.inl hskip)
  simp only [if_neg hstarted, hclosed, Bool.true_eq_false, if_false, if_pos hknown]
  split
  · exact ⟨rfl, h⟩
  · exact ⟨rfl, (h.trackCurrent c).congr rfl rfl rfl rfl rfl rfl⟩

/-- A minute that has been given up has not been released. -/
theorem isSkipped_iff (h : AggBooks delivered first lo nxt handed a) {o : ℤ} :
    a.isSkipped o = true ↔ o ∈ a.skipped := by
  unfold CandleAggregator.isSkipped
  rw [decide_eq_true_iff]
  refine and_iff_left_of_imp fun hskip => ?_
  rw [Option.isNone_iff_eq_none, Option.eq_none_iff_forall_not_mem]
  intro c hc
  obtain ⟨c', hc', rfl⟩ := h.released o c hc
  exact (h.skipped _ hskip).2 (h.queue.given c' hc').2

/-- **The first candle** is where the release begins. -/
theorem offer_first (h : NotStarted a) {c : Candle} (hacc : a.accepts c = true) (lo : ℤ) :
    ∃ nxt', AggBooks (fun m => c.isClosed = true ∧ c.openTimeNs = m) c.openTimeNs lo nxt'
      (a.offer c).1 (a.offer c).2 := by
  have hbegin : AggBooks (fun _ => False) c.openTimeNs lo c.openTimeNs []
      { a with next := some c.openTimeNs } := by
    refine ⟨h.ordered, rfl, ⟨le_refl _, by simp, fun o c' ho => ?_, List.Pairwise.nil,
      fun c' hc' => ?_, fun m hm => ?_, fun m hm => hm.elim⟩, fun m hm => ?_, fun o c' ho => ?_⟩
    · change a.held.get? o = some c' at ho
      rw [h.held] at ho
      cases ho
    · cases hc'
    · exact absurd hm.1 (not_le.mpr hm.2.1)
    · change m ∈ a.skipped at hm
      rw [h.skipped] at hm
      exact absurd hm (Finset.notMem_empty m)
    · change a.released.get? o = some c' at ho
      rw [h.released] at ho
      cases ho
  -- the first call reads the open time of its candle where the later ones read the next minute
  have hoffer : a.offer c = CandleAggregator.offer { a with next := some c.openTimeNs } c := by
    unfold CandleAggregator.offer
    have hacc' : CandleAggregator.accepts { a with next := some c.openTimeNs } c = true := hacc
    simp only [hacc, hacc', Bool.true_eq_false, if_false]
    simp only [h.ordered, h.next, Option.getD_none, Option.getD_some, true_and, if_true,
      Option.some_ne_none, Bool.true_eq_false, if_false]
  rw [hoffer]
  by_cases hclosed : c.isClosed = true
  · have hskip :
        c.openTimeNs ∉ ({ a with next := some c.openTimeNs } : CandleAggregator).skipped := by
      show c.openTimeNs ∉ a.skipped
      rw [h.skipped]
      exact Finset.notMem_empty _
    have hd : ∀ m, (c.isClosed = true ∧ c.openTimeNs = m) ↔ False ∨ c.openTimeNs = m :=
      fun m => by simp [hclosed]
    exact hbegin.offer_closed hacc hclosed hskip (by simp) hd
  · rw [Bool.not_eq_true] at hclosed
    obtain ⟨hout, hoffered⟩ := hbegin.offer_open hclosed
    rw [hout]
    exact ⟨_, hoffered.same fun m => by simp [hclosed]⟩

/-- **A missing minute is given up.** -/
theorem skip (h : AggBooks delivered first lo nxt handed a) {m : ℤ}
    (hslot : Slot a.tf.ns first lo m)
    (hd : ¬delivered m) :
    ∃ nxt', AggBooks delivered first lo nxt' (handed ++ (a.skip m m).1) (a.skip m m).2 := by
  have hone : minutes a.tf.ns m ((m - m) / a.tf.ns + 1).toNat = [m] := by
    simp [minutes]
  have hgiven : AggBooks delivered first lo nxt handed (a.giveUp m) := by
    unfold CandleAggregator.giveUp
    split
    · refine ⟨h.ordered, h.next, h.queue.giveUp m, fun k hk => ?_, h.released⟩
      rcases Finset.mem_insert.mp hk with rfl | hk
      · exact ⟨hslot, hd⟩
      · exact h.skipped k hk
    · exact h
  unfold CandleAggregator.skip
  simp only [hone, List.foldl_cons, List.foldl_nil, hgiven.ordered, hgiven.next]
  exact hgiven.drain

/-! ### The end of the stream -/

/-- **What has been handed over in the end**: the delivered minutes from the first one on, each
    once and in order. -/
structure AllHanded (tf : Timeframe) (delivered : ℤ → Prop) (first : ℤ) (handed : List Candle) :
    Prop where
  ascending : handed.Pairwise fun c c' => c.openTimeNs < c'.openTimeNs
  given : ∀ c ∈ handed, first ≤ c.openTimeNs ∧ tf.ns ∣ c.openTimeNs - first ∧
    delivered c.openTimeNs
  kept : ∀ m, delivered m → first ≤ m → Handed handed m

/-- A candle waits under its own minute. -/
theorem mem_waiting (h : AggBooks delivered first lo nxt handed a) {c : Candle} :
    c ∈ a.waiting ↔ a.held.get? c.openTimeNs = some c :=
  CandleAggregator.mem_waiting fun o c hget => (h.queue.waits o c hget).1

/-- The candles that wait are in the order of time. -/
theorem waiting_ascending (h : AggBooks delivered first lo nxt handed a) :
    a.waiting.Pairwise fun c c' => c.openTimeNs < c'.openTimeNs :=
  CandleAggregator.waiting_ascending fun o c hget => (h.queue.waits o c hget).1

/-- Nothing waits, so nothing is released at the end. -/
theorem flush_empty {a : CandleAggregator} (h : a.held = ∅) : a.flush = ([], a) := by
  have hnone : a.waiting = [] := by
    unfold CandleAggregator.waiting
    rw [h, show (∅ : Dict ℤ Candle).keys = [] from rfl, List.mergeSort_nil]
    rfl
  unfold CandleAggregator.flush
  rw [hnone]
  rfl

/-- **The flush hands over what waits.** -/
theorem flush (h : AggBooks delivered first lo nxt handed a) :
    AllHanded a.tf delivered first (handed ++ a.flush.1) := by
  rw [a.flush_fst]
  refine ⟨?_, fun c hc => ?_, fun m hm hfirst => ?_⟩
  · rw [List.pairwise_append]
    refine ⟨h.queue.ascending, h.waiting_ascending, fun c hc c' hc' => ?_⟩
    exact (h.queue.given c hc).1.2.1.trans_le (h.queue.waits _ c' (h.mem_waiting.mp hc')).2.1
  · rcases List.mem_append.mp hc with hc | hc
    · obtain ⟨hslot, hd⟩ := h.queue.given c hc
      exact ⟨hslot.1, hslot.2.2, hd⟩
    · obtain ⟨-, hle, hdvd, hd⟩ := h.queue.waits _ c (h.mem_waiting.mp hc)
      exact ⟨h.queue.first_le.trans hle, hdvd, hd⟩
  · rcases h.queue.kept m hm hfirst with hin | hin
    · exact hin.append_left
    · obtain ⟨c, hget⟩ := Option.isSome_iff_exists.mp hin
      have hopen := (h.queue.waits m c hget).1
      exact ⟨c, List.mem_append_right _ (h.mem_waiting.mpr (hopen ▸ hget)), hopen⟩

end AggBooks

end FuzzHelm
