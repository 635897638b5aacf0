import FuzzHelm.Ingest.Pipeline
import FuzzHelm.Lib.Run
import FuzzHelm.Lib.Windows
import Mathlib.Data.List.MinMax
import Mathlib.Data.Prod.Lex
import Mathlib.Data.String.Basic

namespace FuzzHelm

open Lib

/-!
# Deduplication

The same event comes again from the stream, from a backfill and from a replay, and a candle
comes in several versions.  The deduplicator keeps one event for each identifier, the first of
the highest rank, and with a bound it forgets the identifiers that are the oldest.

* `rank` — closed before open, then by source, by the time of the exchange, by arrival, and at
  last by the digest of the content;
* `OfferRun` — events offered one after another;
* `newUids`, `current` — the identifiers that were new, and the versions seen since;
* `dedup_window_exact` — what is held, and what the next offer answers, in terms of these;
* `dedup` — the batch; `dedup_exact` — it keeps the highest version of each event;
* `dedup_eq_of_same_events` — the batch depends on nothing but the set of events.
-/

/-! ### Ranks -/

/-- The rank of a copy: `precedence`, and the digest where that is equal. -/
def rank (ev : EventCopy) : List ℤ ×ₗ String := toLex (precedence ev.event, ev.digest)

/-- A copy takes the place of another one exactly when its rank is higher. -/
theorem outranks_eq (new old : EventCopy) :
    outranks new old = decide (rank old < rank new) := by
  unfold outranks rank
  by_cases h : precedence new.event = precedence old.event
  · simp [h, Prod.Lex.toLex_lt_toLex]
  · have hne : precedence old.event ≠ precedence new.event := Ne.symm h
    simp [h, hne, Prod.Lex.toLex_lt_toLex]

/-! ### Offers -/

/-- The runs of a deduplicator. -/
abbrev OfferRun := Run fun (d : Deduplicator) ev outcome d' =>
  d.offer ev = (outcome, d')

/-- The log of such a run. -/
abbrev OfferLog := List (Entry Deduplicator EventCopy DedupOutcome)

/-- The identifiers that were new, in order; one that was forgotten may be new again. -/
def newUids (log : OfferLog) : List String :=
  log.filterMap fun e => if e.answer = .new then some e.call.eventUid else none

/-- The versions of an event that were offered since it was last new. -/
def current (uid : String) (log : OfferLog) : List EventCopy :=
  log.foldl (fun evs e =>
    if e.call.eventUid = uid then
      if e.answer = .new then [e.call] else evs ++ [e.call]
    else evs) []

/-- The identifiers that a deduplicator with this bound still knows. -/
def known (maxSize : Option {n : ℕ // 0 < n}) (uids : List String) : List String :=
  maxSize.elim uids fun n => uids.rtake n.1

section Log

variable (log : OfferLog) (d d' : Deduplicator) (ev : EventCopy) (outcome : DedupOutcome)

/-- One offer more is new at most once. -/
theorem newUids_concat : newUids (log ++ [⟨d, ev, outcome, d'⟩]) =
    newUids log ++ if outcome = .new then [ev.eventUid] else [] := by
  rw [newUids, List.filterMap_append]
  by_cases h : outcome = .new
  · simp [newUids, h]
  · simp [newUids, h]

/-- One offer more, for one identifier: a new copy starts its versions afresh. -/
theorem current_concat (uid : String) : current uid (log ++ [⟨d, ev, outcome, d'⟩]) =
    if ev.eventUid = uid then
      if outcome = .new then [ev] else current uid log ++ [ev]
    else current uid log := by
  rw [current, List.foldl_append]
  rfl

end Log

/-- What is held after a new event: with a bound, the oldest makes room. -/
def enter (d : Deduplicator) (ev : EventCopy) : Dict String EventCopy :=
  let events := d.events.insert ev.eventUid ev
  let full := d.maxSize.any fun n => decide (n.1 < events.entries.length)
  if full then events.drop 1 else events

/-- What an offer can come to. -/
inductive Offers (d : Deduplicator) (ev : EventCopy) : DedupOutcome → Deduplicator → Prop
  | new (h : d.events.get? ev.eventUid = none) :
      Offers d ev .new ({ d with events := enter d ev }.count .new)
  | replaced {old : EventCopy} (h : d.events.get? ev.eventUid = some old)
      (hrank : rank old < rank ev) :
      Offers d ev .replaced
        ({ d with events := d.events.insert ev.eventUid ev }.count .replaced)
  | duplicate {old : EventCopy} (h : d.events.get? ev.eventUid = some old)
      (hrank : rank ev ≤ rank old) :
      Offers d ev .duplicate (d.count .duplicate)

/-- An offer is one of the steps. -/
theorem offers_offer (d : Deduplicator) (ev : EventCopy) :
    Offers d ev (d.offer ev).1 (d.offer ev).2 := by
  unfold Deduplicator.offer
  split
  · rename_i h
    exact .new h
  · rename_i old h
    rw [outranks_eq]
    by_cases hrank : rank old < rank ev
    · rw [decide_eq_true hrank]
      exact .replaced h hrank
    · rw [decide_eq_false hrank]
      exact .duplicate h (not_lt.mp hrank)

/-- One more identifier is known, in place of the oldest where there is no room. -/
theorem known_concat (maxSize : Option {n : ℕ // 0 < n}) (uids : List String) (uid : String) :
    known maxSize (uids ++ [uid]) =
      if maxSize.any fun n => decide (n.1 < (known maxSize uids ++ [uid]).length) then
        (known maxSize uids ++ [uid]).drop 1
      else known maxSize uids ++ [uid] := by
  cases maxSize with
  | none => rfl
  | some n =>
    have hlength : (uids.rtake n.1).length ≤ n.1 := by
      rw [length_rtake]
      exact min_le_left _ _
    have hnext : known (some n) (uids ++ [uid]) = (uids.rtake n.1 ++ [uid]).rtake n.1 :=
      (boundedAppend_rtake _ _ _).symm
    rw [hnext, known, Option.elim_some, Option.any_some]
    by_cases hfull : n.1 < (uids.rtake n.1 ++ [uid]).length
    · rw [if_pos (decide_eq_true hfull), List.rtake]
      rw [List.length_append, List.length_singleton] at hfull ⊢
      congr 1
      omega
    · rw [if_neg (by simpa using hfull), rtake_of_length_le (not_lt.mp hfull)]

/-- The deduplicator after `log`. -/
structure Holds (maxSize : Option {n : ℕ // 0 < n}) (d : Deduplicator) (log : OfferLog) :
    Prop where
  maxSize_eq : d.maxSize = maxSize
  keys_eq : d.events.keys = known maxSize (newUids log)
  held : ∀ uid ev, d.events.get? uid = some ev →
    ev.eventUid = uid ∧ (current uid log).argmax rank = some ev

namespace Holds

variable {maxSize : Option {n : ℕ // 0 < n}} {d d' : Deduplicator} {log : OfferLog}
  {ev : EventCopy} {outcome : DedupOutcome}

/-- A new deduplicator holds nothing. -/
theorem new (maxSize : Option {n : ℕ // 0 < n}) :
    Holds maxSize (Deduplicator.new maxSize) [] where
  maxSize_eq := rfl
  keys_eq := by
    cases maxSize with
    | none => rfl
    | some n =>
      show [] = List.rtake [] n.1
      rw [List.rtake_nil]
  held := by
    intro uid ev h
    cases h

/-- **One offer.** -/
theorem step (h : Holds maxSize d log) (hoffer : Offers d ev outcome d') :
    Holds maxSize d' (log ++ [⟨d, ev, outcome, d'⟩]) := by
  cases hoffer with
  | new hnone =>
    have hfresh : ev.eventUid ∉ d.events.keys := (d.events.get?_eq_none_iff _).mp hnone
    -- a new identifier is the last one, and where there are too many the first leaves
    have hkeys : (d.events.insert ev.eventUid ev).keys =
        known maxSize (newUids log) ++ [ev.eventUid] := by
      rw [d.events.keys_insert_new ev hfresh, h.keys_eq]
    refine ⟨h.maxSize_eq, ?_, ?_⟩
    · show (enter d ev).keys = _
      rw [newUids_concat, if_pos rfl, known_concat, ← hkeys, enter, h.maxSize_eq]
      simp only [Dict.keys, List.length_map]
      split
      · exact Dict.keys_drop _ _
      · rfl
    · intro uid ev' hget
      have hget' : (d.events.insert ev.eventUid ev).get? uid = some ev' := by
        have hget : (enter d ev).get? uid = some ev' := hget
        unfold enter at hget
        dsimp only at hget
        split at hget
        · exact Dict.get?_of_drop _ hget
        · exact hget
      rw [current_concat]
      rw [Dict.get?_insert] at hget'
      by_cases huid : ev.eventUid = uid
      · rw [if_pos huid, Option.some.injEq] at hget'
        subst hget'
        rw [if_pos huid, if_pos rfl]
        exact ⟨huid, List.argmax_singleton⟩
      · rw [if_neg huid] at hget' ⊢
        exact h.held uid ev' hget'
  | @replaced old hold hrank =>
    -- a better version takes the place of the old one in the order
    have hmem : ev.eventUid ∈ d.events.keys := (d.events.mem_keys_iff_get? _).mpr ⟨old, hold⟩
    refine ⟨h.maxSize_eq, ?_, ?_⟩
    · rw [newUids_concat, if_neg (by decide), List.append_nil, ← h.keys_eq]
      exact d.events.keys_insert_of_mem ev hmem
    · intro uid ev' hget
      have hget : (d.events.insert ev.eventUid ev).get? uid = some ev' := hget
      rw [current_concat]
      rw [Dict.get?_insert] at hget
      by_cases huid : ev.eventUid = uid
      · rw [if_pos huid, Option.some.injEq] at hget
        subst hget
        rw [if_pos huid, if_neg (by decide), List.argmax_concat,
          (h.held uid old (huid ▸ hold)).2]
        exact ⟨huid, if_pos hrank⟩
      · rw [if_neg huid] at hget ⊢
        exact h.held uid ev' hget
  | @duplicate old hold hrank =>
    refine ⟨h.maxSize_eq, ?_, ?_⟩
    · rw [newUids_concat, if_neg (by decide), List.append_nil]
      exact h.keys_eq
    · intro uid ev' hget
      have hget : d.events.get? uid = some ev' := hget
      rw [current_concat]
      by_cases huid : ev.eventUid = uid
      · rw [← huid, hold, Option.some.injEq] at hget
        subst hget
        obtain ⟨hold_uid, hmax⟩ := h.held uid old (huid ▸ hold)
        rw [if_pos huid, if_neg (by decide), List.argmax_concat, hmax]
        exact ⟨hold_uid, if_neg (not_lt.mpr hrank)⟩
      · rw [if_neg huid]
        exact h.held uid ev' hget

/-- **Run lemma**: what the deduplicator holds after any offers. -/
theorem run (hrun : OfferRun (Deduplicator.new maxSize) d log) :
    Holds maxSize d log :=
  hrun.invariant (fun d log => Holds maxSize d log) (new maxSize)
    fun d _ ev _ _ hI hoffer => by
      have hstep := hI.step (offers_offer d ev)
      rwa [hoffer] at hstep

end Holds

/-- **The deduplicator, exactly.**  After any offers of copies: it knows the identifiers that were
    new and are not too old; what it holds under one of them is the first version of the highest
    rank since it was last new; and the next event is new just when its identifier is not known,
    and a duplicate just when it is and a version of at least its rank has come. -/
theorem dedup_window_exact {maxSize : Option {n : ℕ // 0 < n}} {d : Deduplicator} {log : OfferLog}
    (hrun : OfferRun (Deduplicator.new maxSize) d log) :
    d.events.keys = known maxSize (newUids log) ∧
    (∀ uid ev, d.events.get? uid = some ev ↔
      uid ∈ known maxSize (newUids log) ∧ (current uid log).argmax rank = some ev) ∧
    ∀ ev, ((d.offer ev).1 = .new ↔ ev.eventUid ∉ known maxSize (newUids log)) ∧
      ((d.offer ev).1 = .duplicate ↔ ev.eventUid ∈ known maxSize (newUids log) ∧
        ∃ old ∈ current ev.eventUid log, rank ev ≤ rank old) := by
  have hholds := Holds.run hrun
  have hget (uid : String) (ev : EventCopy) : d.events.get? uid = some ev ↔
      uid ∈ known maxSize (newUids log) ∧ (current uid log).argmax rank = some ev := by
    rw [← hholds.keys_eq, d.events.mem_keys_iff_get?]
    constructor
    · intro h
      exact ⟨⟨ev, h⟩, (hholds.held uid ev h).2⟩
    · rintro ⟨⟨ev', h⟩, hmax⟩
      rw [(hholds.held uid ev' h).2, Option.some.injEq] at hmax
      rwa [← hmax]
  refine ⟨hholds.keys_eq, hget, fun ev => ?_⟩
  rw [← hholds.keys_eq]
  have hoffer := offers_offer d ev
  generalize (d.offer ev).1 = outcome at hoffer ⊢
  generalize (d.offer ev).2 = d' at hoffer
  cases hoffer with
  | new hnone =>
    have hfresh := (d.events.get?_eq_none_iff _).mp hnone
    exact ⟨iff_of_true rfl hfresh, iff_of_false (by decide) fun h => hfresh h.1⟩
  | @replaced old hold hrank =>
    have hmem := (d.events.mem_keys_iff_get? _).mpr ⟨old, hold⟩
    refine ⟨iff_of_false (by decide) (not_not.mpr hmem), iff_of_false (by decide) ?_⟩
    -- the held copy is the best one, so no copy is as good as the new one
    rintro ⟨-, old', hold', hle⟩
    have hmax := List.le_of_mem_argmax hold' ((hget _ _).mp hold).2
    exact absurd hrank (not_lt.mpr (hle.trans hmax))
  | @duplicate old hold hrank =>
    have hmem := (d.events.mem_keys_iff_get? _).mpr ⟨old, hold⟩
    refine ⟨iff_of_false (by decide) (not_not.mpr hmem), iff_of_true rfl ⟨hmem, old, ?_, hrank⟩⟩
    exact List.argmax_mem ((hget _ _).mp hold).2

/-- A version of the candle of a minute, with the digest of its canonical bytes. -/
def minuteBar (uid : String) (isClosed : Bool) (src : ℕ) (digest : String) : EventCopy where
  event := .candle
    { instrument := "BTC-USDT-PERP"
      venue := "binance"
      tf := "1m"
      openTimeNs := 0
      closeTimeNs := 59999000000
      o := 100
      h := 100
      l := 100
      c := 100
      volume := 1
      quoteVolume := 100
      tradesCount := 1
      vwap := none
      isClosed := isClosed
      isSynthetic := false
      src := src
      tsEventNs := 0
      tsIngestNs := 0
      eventUid := uid }
  digest := digest

/-- The open version of one minute from the stream. -/
def openBar : EventCopy := minuteBar "a" false 1
  "077eae81e284f9385201fa1d17a2b9b48aa6dc3a2d970b0e0c2cf995a4c9c5c2"

/-- The closed version of it from the backfill. -/
def closedBar : EventCopy := minuteBar "a" true 2
  "094d1611442b7a89e98c65c0262d6742eac6cce0fdf8962a7c4c393ded4d6b05"

/-- Another minute, with prices that are written `100`. -/
def shortBar : EventCopy := minuteBar "b" true 2
  "934b6eac055306269a1e77a64489d8b01155444bf3ee7ef715817ab41a0e1e33"

/-- The same minute, with prices that are written `100.00`. -/
def longBar : EventCopy := minuteBar "b" true 2
  "3ce23b8427f7edeb49d147adeb438f453e8bad64c221dc8e3ae59311e91df4c4"

/-- A third minute, by which the first one gets too old. -/
def thirdBar : EventCopy := minuteBar "c" true 1
  "d28134989e03e799d2ba7b69655aa23f1a7890bfd9c769250b92d94bcd24a00d"

/-- A closed version takes the place of an open one, the copy with the higher digest that of an
    equal one, and the first of three identifiers is forgotten. -/
theorem dedup_window_exact_minute :
    let d := (exec Deduplicator.offer (Deduplicator.new (some ⟨2, two_pos⟩))
      [openBar, longBar, closedBar, shortBar, thirdBar]).1
    d.events.keys = ["b", "c"] ∧ d.events.get? "b" = some shortBar ∧
      (d.offer closedBar).1 = .new ∧ (d.offer longBar).1 = .duplicate := by
  intro d
  obtain ⟨hkeys, hheld, hnext⟩ := dedup_window_exact (Run.exec Deduplicator.offer
    (Deduplicator.new (some ⟨2, two_pos⟩)) [openBar, longBar, closedBar, shortBar, thirdBar])
  exact ⟨hkeys.trans (by decide +kernel), (hheld _ _).mpr (by decide +kernel),
    (hnext _).1.mpr (by decide +kernel), (hnext _).2.mpr (by decide +kernel)⟩

/-! ### The batch -/

/-- `(ts_event_ns, event_uid)`: the order in which the values are listed. -/
def sortKey (ev : EventCopy) : ℤ ×ₗ String := toLex (ev.event.tsEventNs, ev.eventUid)

/-- `values`, in the canonical order. -/
def Deduplicator.values (d : Deduplicator) : List EventCopy :=
  (d.events.entries.map Prod.snd).mergeSort fun a b => decide (sortKey a ≤ sortKey b)

/-- One event after another is offered. -/
def offered (evs : List EventCopy) : Deduplicator :=
  evs.foldl (fun d ev => (d.offer ev).2) (Deduplicator.new none)

/-- `dedup`: all events are offered, and what is held at the end is listed. -/
def dedup (evs : List EventCopy) : List EventCopy := (offered evs).values

/-- One copy more is one offer more. -/
theorem offered_concat (evs : List EventCopy) (ev : EventCopy) :
    offered (evs ++ [ev]) = ((offered evs).offer ev).2 := by
  rw [offered, List.foldl_append]
  rfl

/-- Without a bound nothing is forgotten: what is held under an identifier is the first of its
    versions that has the highest rank. -/
theorem get?_offered (evs : List EventCopy) (uid : String) :
    (offered evs).events.get? uid =
      (evs.filter (·.eventUid = uid)).argmax rank := by
  -- without a bound nothing ever leaves the window; the induction carries that along
  suffices h : (offered evs).maxSize = none ∧ ∀ uid,
      (offered evs).events.get? uid =
        (evs.filter (·.eventUid = uid)).argmax rank from h.2 uid
  induction evs using List.reverseRecOn with
  | nil => exact ⟨rfl, fun uid => rfl⟩
  | append_singleton evs ev ih =>
    obtain ⟨hmax, hget⟩ := ih
    have hfilter (uid : String) : (evs ++ [ev]).filter (·.eventUid = uid) =
        evs.filter (·.eventUid = uid) ++ if ev.eventUid = uid then [ev] else [] := by
      rw [List.filter_append, List.filter_singleton, Bool.cond_decide]
    have hoffer := offers_offer (offered evs) ev
    rw [offered_concat]
    generalize ((offered evs).offer ev).1 = outcome at hoffer
    generalize ((offered evs).offer ev).2 = d' at hoffer ⊢
    -- the offer touches nothing but the identifier of the event
    have hother (events : Dict String EventCopy) (ev' : EventCopy)
        (hkept : (evs.filter (·.eventUid = ev.eventUid) ++ [ev]).argmax rank = some ev')
        (hevents : ∀ uid, events.get? uid = if ev.eventUid = uid then some ev' else
          (offered evs).events.get? uid) (uid : String) :
        events.get? uid = ((evs ++ [ev]).filter (·.eventUid = uid)).argmax rank := by
      rw [hfilter, hevents]
      by_cases huid : ev.eventUid = uid
      · subst huid
        rw [if_pos rfl, if_pos rfl, hkept]
      · rw [if_neg huid, if_neg huid, List.append_nil, hget]
    cases hoffer with
    | new hnone =>
      refine ⟨hmax, hother _ ev ?_ fun uid => ?_⟩
      · rw [List.argmax_concat, ← hget, hnone]
      · show (enter (offered evs) ev).get? uid = _
        rw [enter, hmax]
        exact Dict.get?_insert _ _ _ _
    | @replaced old hold hrank =>
      refine ⟨hmax, hother _ ev ?_ fun uid => Dict.get?_insert _ _ _ _⟩
      rw [List.argmax_concat, ← hget, hold]
      exact if_pos hrank
    | @duplicate old hold hrank =>
      refine ⟨hmax, hother _ old ?_ fun uid => ?_⟩
      · rw [List.argmax_concat, ← hget, hold]
        exact if_neg (not_lt.mpr hrank)
      · by_cases huid : ev.eventUid = uid
        · rw [if_pos huid, ← huid]
          exact hold
        · rw [if_neg huid]
          rfl

/-- The highest version of an identifier has that identifier. -/
theorem eventUid_of_argmax {evs : List EventCopy} {uid : String} {ev : EventCopy}
    (h : (evs.filter (·.eventUid = uid)).argmax rank = some ev) :
    ev ∈ evs ∧ ev.eventUid = uid := by
  have hmem := List.argmax_mem h
  rw [List.mem_filter, decide_eq_true_eq] at hmem
  exact hmem

/-- The values are what is held under some identifier. -/
theorem mem_values_iff (d : Deduplicator) (ev : EventCopy) :
    ev ∈ d.values ↔ ∃ uid, d.events.get? uid = some ev := by
  rw [Deduplicator.values, List.mem_mergeSort, List.mem_map]
  constructor
  · rintro ⟨⟨uid, x⟩, hmem, rfl⟩
    exact ⟨uid, (d.events.mem_entries_iff uid x).mp hmem⟩
  · rintro ⟨uid, h⟩
    exact ⟨(uid, ev), (d.events.mem_entries_iff uid ev).mpr h, rfl⟩

/-- What is left of the copies of an identifier is its highest version. -/
theorem mem_dedup (evs : List EventCopy) (ev : EventCopy) : ev ∈ dedup evs ↔
    (evs.filter (·.eventUid = ev.eventUid)).argmax rank = some ev := by
  rw [dedup, mem_values_iff]
  constructor
  · rintro ⟨uid, h⟩
    rw [get?_offered] at h
    obtain ⟨-, huid⟩ := eventUid_of_argmax h
    rwa [← huid] at h
  · intro h
    exact ⟨ev.eventUid, by rw [get?_offered, h]⟩

/-- Every copy is held under its own identifier. -/
theorem keys_offered (evs : List EventCopy) :
    (offered evs).events.keys =
      (offered evs).events.entries.map fun e => e.2.eventUid := by
  rw [Dict.keys]
  refine List.map_congr_left fun e he => ?_
  have hget := ((offered evs).events.mem_entries_iff e.1 e.2).mp he
  rw [get?_offered] at hget
  exact (eventUid_of_argmax hget).2.symm

/-- The batch is in the canonical order, with one event for each identifier. -/
theorem pairwise_dedup (evs : List EventCopy) :
    (dedup evs).Pairwise fun a b => sortKey a < sortKey b := by
  -- sorting gives the order, different identifiers make it strict
  have hsorted : (dedup evs).Pairwise fun a b => sortKey a ≤ sortKey b := by
    have htrans (a b c : EventCopy) (hab : decide (sortKey a ≤ sortKey b))
        (hbc : decide (sortKey b ≤ sortKey c)) : decide (sortKey a ≤ sortKey c) :=
      decide_eq_true ((of_decide_eq_true hab).trans (of_decide_eq_true hbc))
    have htotal (a b : EventCopy) :
        decide (sortKey a ≤ sortKey b) || decide (sortKey b ≤ sortKey a) := by
      simpa using le_total (sortKey a) (sortKey b)
    have h := List.pairwise_mergeSort htrans htotal
      ((offered evs).events.entries.map Prod.snd)
    exact h.imp of_decide_eq_true
  -- the window holds one copy of each identifier
  have huids : ((dedup evs).map EventCopy.eventUid).Nodup := by
    have hperm := ((offered evs).events.entries.map Prod.snd).mergeSort_perm
      fun a b => decide (sortKey a ≤ sortKey b)
    refine (hperm.map EventCopy.eventUid).nodup_iff.mpr ?_
    rw [List.map_map]
    have hkeys := (offered evs).events.nodup
    rw [← Dict.keys, keys_offered] at hkeys
    exact hkeys
  have hne : (dedup evs).Pairwise fun a b => a.eventUid ≠ b.eventUid :=
    List.pairwise_map.mp huids
  refine (hsorted.and hne).imp fun {a b} hab => lt_of_le_of_ne hab.1 fun heq => hab.2 ?_
  exact congrArg Prod.snd heq

/-- **The batch, exactly.**  The highest version of each event, the first where several are
    equal, in the canonical order, and nothing else. -/
theorem dedup_exact (evs : List EventCopy) :
    (dedup evs).Pairwise (fun a b => sortKey a < sortKey b) ∧
    ∀ ev, ev ∈ dedup evs ↔
      (evs.filter (·.eventUid = ev.eventUid)).argmax rank = some ev :=
  ⟨pairwise_dedup evs, mem_dedup evs⟩

/-- The highest version is unique where the digests tell the versions apart. -/
theorem argmax_filter_iff {evs : List EventCopy}
    (hdigest : Set.InjOn EventCopy.digest {ev | ev ∈ evs}) (ev : EventCopy) :
    (evs.filter (·.eventUid = ev.eventUid)).argmax rank = some ev ↔
      ev ∈ evs ∧ ∀ x ∈ evs, x.eventUid = ev.eventUid → rank x ≤ rank ev := by
  rw [List.argmax_eq_some_iff]
  simp only [List.mem_filter, decide_eq_true_eq]
  constructor
  · rintro ⟨⟨hmem, -⟩, hmax, -⟩
    exact ⟨hmem, fun x hx huid => hmax x ⟨hx, huid⟩⟩
  · rintro ⟨hmem, hmax⟩
    refine ⟨⟨hmem, trivial⟩, fun x hx => hmax x hx.1 hx.2, fun x hx hle => ?_⟩
    have hrank := (hmax x hx.1 hx.2).antisymm hle
    have heq : x = ev := hdigest hx.1 hmem (congrArg Prod.snd hrank)
    rw [heq]

/-- **The order and the number of the copies do not matter**, nor does it when a part has been
    through the batch already: any events among `xs ++ ys` with the batch of `xs` and with `ys`
    come to the batch of them all. -/
theorem dedup_eq_of_same_events {xs ys zs : List EventCopy}
    (hdigest : Set.InjOn EventCopy.digest {ev | ev ∈ xs ++ ys})
    (hsub : zs ⊆ xs ++ ys) (hsup : dedup xs ++ ys ⊆ zs) :
    dedup zs = dedup (xs ++ ys) := by
  have hxs : Set.InjOn EventCopy.digest {ev | ev ∈ xs} :=
    hdigest.mono fun ev hev => List.mem_append_left ys hev
  have hzs : Set.InjOn EventCopy.digest {ev | ev ∈ zs} := hdigest.mono hsub
  have hmem (ev : EventCopy) : ev ∈ dedup zs ↔ ev ∈ dedup (xs ++ ys) := by
    rw [mem_dedup, mem_dedup, argmax_filter_iff hzs, argmax_filter_iff hdigest]
    -- every event of `xs` has a version in the batch of `xs` that is not below it
    have hcover (x : EventCopy) (hx : x ∈ xs ++ ys) :
        ∃ z ∈ zs, z.eventUid = x.eventUid ∧ rank x ≤ rank z := by
      rcases List.mem_append.mp hx with hx | hy
      · have hfilter : x ∈ xs.filter (·.eventUid = x.eventUid) :=
          List.mem_filter.mpr ⟨hx, decide_eq_true rfl⟩
        cases hmax : (xs.filter (·.eventUid = x.eventUid)).argmax rank with
        | none =>
          rw [List.argmax_eq_none.mp hmax] at hfilter
          cases hfilter
        | some z =>
          obtain ⟨-, huid⟩ := eventUid_of_argmax hmax
          have hz : z ∈ dedup xs := by
            rw [mem_dedup, huid, hmax]
          exact ⟨z, hsup (List.mem_append_left ys hz), huid, List.le_of_mem_argmax hfilter hmax⟩
      · exact ⟨x, hsup (List.mem_append_right _ hy), rfl, le_rfl⟩
    constructor
    · rintro ⟨hev, hmax⟩
      refine ⟨hsub hev, fun x hx huid => ?_⟩
      obtain ⟨z, hz, hzuid, hle⟩ := hcover x hx
      exact hle.trans (hmax z hz (hzuid.trans huid))
    · rintro ⟨hev, hmax⟩
      obtain ⟨z, hz, hzuid, hle⟩ := hcover ev hev
      have heq : z = ev := hdigest (hsub hz) hev
        (congrArg Prod.snd ((hmax z (hsub hz) hzuid).antisymm hle))
      exact ⟨heq ▸ hz, fun x hx huid => hmax x (hsub hx) huid⟩
  have hnodup (evs : List EventCopy) : (dedup evs).Nodup :=
    (pairwise_dedup evs).imp fun hlt => ne_of_apply_ne sortKey hlt.ne
  -- both are sorted by the same key without a tie, so the same events stand in the same order
  have hperm := (List.perm_ext_iff_of_nodup (hnodup zs) (hnodup (xs ++ ys))).mpr hmem
  exact hperm.eq_of_pairwise (fun a b _ _ hab hba => absurd (hab.trans hba) (lt_irrefl _))
    (pairwise_dedup zs) (pairwise_dedup (xs ++ ys))

/-- The batch of the open and the closed version of one minute, then two copies of another minute in
    either order. -/
theorem dedup_eq_of_same_events_minute :
    dedup [longBar, closedBar, shortBar, longBar] =
      dedup ([openBar, closedBar] ++ [shortBar, longBar]) := by
  refine dedup_eq_of_same_events ?_ (by decide +kernel) (by decide +kernel)
  have h : ∀ a ∈ [openBar, closedBar] ++ [shortBar, longBar],
      ∀ b ∈ [openBar, closedBar] ++ [shortBar, longBar], a.digest = b.digest → a = b := by
    decide +kernel
  exact fun a ha b hb => h a ha b hb

end FuzzHelm
