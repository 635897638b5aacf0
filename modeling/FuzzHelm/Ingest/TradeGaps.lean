import FuzzHelm.Ingest.GapBooks

namespace FuzzHelm

open Lib

/-!
# The trades that are missing

Trades are numbered without holes.  The ids that a trade jumps over are a candidate for a gap;
they leave it one by one as they arrive, and what is left of it becomes a gap when it is
confirmed.

* `Undelivered` — an id between the first one and the highest that has not arrived;
* `TradeBooks` — these are the ids of the candidates and of the gaps, each of one of them;
* `heal_apart`, `confirmLoop_books` — the two operations on the candidates;
* `confirmHoles_books`, `takeTrade_books` — the confirmation, and a trade.
-/

/-! ### Candidates -/

/-- Some candidate misses the id `x`. -/
def InHoles (holes : List Hole) (x : ℤ) : Prop := ∃ h ∈ holes, x ∈ h.missing

/-- No id is missed by two candidates. -/
def Apart (holes : List Hole) : Prop := holes.Pairwise fun h h' => Disjoint h.missing h'.missing

/-- No holes have no identifiers. -/
@[simp] theorem inHoles_nil {x : ℤ} : ¬InHoles [] x := by simp [InHoles]

/-- The identifiers of a hole and of those after it. -/
@[simp] theorem inHoles_cons {h : Hole} {hs : List Hole} {x : ℤ} :
    InHoles (h :: hs) x ↔ x ∈ h.missing ∨ InHoles hs x := by simp [InHoles]

/-- The identifiers of some holes and of one after them. -/
@[simp] theorem inHoles_concat {h : Hole} {hs : List Hole} {x : ℤ} :
    InHoles (hs ++ [h]) x ↔ InHoles hs x ∨ x ∈ h.missing := by
  simp [InHoles, or_and_right, exists_or]

/-- A hole is apart from those after it. -/
theorem apart_cons {h : Hole} {hs : List Hole} :
    Apart (h :: hs) ↔ (∀ x ∈ h.missing, ¬InHoles hs x) ∧ Apart hs := by
  unfold Apart
  rw [List.pairwise_cons]
  refine and_congr_left fun _ => ?_
  constructor
  · rintro hd x hx ⟨h', hh', hx'⟩
    exact Finset.disjoint_left.mp (hd h' hh') hx hx'
  · intro hd h' hh'
    rw [Finset.disjoint_left]
    exact fun x hx hx' => hd x hx ⟨h', hh', hx'⟩

/-- A new hole that shares nothing is apart from the others. -/
theorem apart_concat {h : Hole} {hs : List Hole} (hs' : Apart hs)
    (hd : ∀ x ∈ h.missing, ¬InHoles hs x) : Apart (hs ++ [h]) := by
  unfold Apart
  rw [List.pairwise_append]
  refine ⟨hs', List.pairwise_singleton _ _, fun h₁ hh₁ h₂ hh₂ => ?_⟩
  rw [List.mem_singleton.mp hh₂, Finset.disjoint_right]
  exact fun x hx hx₁ => hd x hx ⟨h₁, hh₁, hx₁⟩

/-- **An id arrives at the candidates**: it leaves the one that misses it, by induction on them. -/
theorem heal_apart (a : ℤ) {hs : List Hole} (h : Apart hs) :
    ((GapDetector.heal a hs).1 = true ↔ InHoles hs a) ∧
      (∀ x, InHoles (GapDetector.heal a hs).2.2 x ↔ InHoles hs x ∧ x ≠ a) ∧
      Apart (GapDetector.heal a hs).2.2 := by
  induction hs with
  | nil => simp [GapDetector.heal, Apart]
  | cons h₀ hs ih =>
    obtain ⟨hd, hs'⟩ := apart_cons.mp h
    unfold GapDetector.heal
    by_cases ha : a ∈ h₀.missing
    · rw [if_pos ha]
      -- no other candidate misses the id
      have hother : ∀ x, InHoles hs x ↔ InHoles hs x ∧ x ≠ a := by
        intro x
        rw [iff_self_and]
        rintro hx rfl
        exact hd x ha hx
      by_cases hne : (h₀.missing.erase a).Nonempty
      · rw [dif_pos hne]
        refine ⟨by simp [ha], fun x => ?_, apart_cons.mpr ⟨fun x hx => ?_, hs'⟩⟩
        · rw [inHoles_cons, inHoles_cons, or_and_right, ← hother x, Finset.mem_erase, and_comm]
        · exact hd x (Finset.mem_of_mem_erase hx)
      · rw [dif_neg hne]
        refine ⟨by simp [ha], fun x => ?_, hs'⟩
        have hempty : x ∈ h₀.missing → x = a := by
          intro hx
          by_contra hxa
          exact hne ⟨x, Finset.mem_erase.mpr ⟨hxa, hx⟩⟩
        rw [inHoles_cons, or_and_right, ← hother x]
        exact (or_iff_right fun hbad => hbad.2 (hempty hbad.1)).symm
    · rw [if_neg ha]
      obtain ⟨hfound, hleft, hapart⟩ := ih hs'
      refine ⟨by simpa [ha] using hfound, fun x => ?_, apart_cons.mpr ⟨fun x hx hx' => ?_, hapart⟩⟩
      · rw [inHoles_cons, inHoles_cons, hleft, or_and_right]
        refine or_congr_left (iff_self_and.mpr ?_)
        rintro hx rfl
        exact ha hx
      · exact hd x hx ((hleft x).mp hx').1

/-! ### The books -/

/-- The id `x` lies between the first id and the highest one and has not arrived. -/
def Undelivered (seen : List ℤ) (tMax : Option ℤ) (x : ℤ) : Prop :=
  ∃ first ∈ seen.head?, ∃ top ∈ tMax, first ≤ x ∧ x ≤ top ∧ x ∉ seen

/-- **The books of the trades.** -/
structure TradeBooks (seen : List ℤ) (d : GapDetector) : Prop where
  start : d.tMax = none ↔ seen = []
  top : ∀ top ∈ d.tMax, top ∈ seen ∧ ∀ x ∈ seen, x ≤ top
  /-- The ids that are missing are those of the gaps and of the candidates. -/
  ledger : ∀ x, (d.owner .trades x).isSome ∨ InHoles d.pending x ↔ Undelivered seen d.tMax x
  apart : Apart d.pending
  free : ∀ x, InHoles d.pending x → d.owner .trades x = none

/-- What the detector of the trades leaves alone. -/
structure TradesOnly (d d' : GapDetector) : Prop where
  instrument : d'.instrument = d.instrument
  tf : d'.tf = d.tf
  graceNs : d'.graceNs = d.graceNs
  maxReorderIds : d'.maxReorderIds = d.maxReorderIds
  latestNs : d'.latestNs = d.latestNs
  kLo : d'.kLo = d.kLo
  kClosed : d'.kClosed = d.kClosed
  klines : SameGapsOf .klines d d'
  filling : KeepsFilling d d'

namespace TradesOnly

variable {d d' d'' : GapDetector}

/-- Nothing has changed. -/
theorem refl (d : GapDetector) : TradesOnly d d :=
  ⟨rfl, rfl, rfl, rfl, rfl, rfl, rfl, .refl _ d, .refl d⟩

/-- What two parts leave alone. -/
theorem trans (h : TradesOnly d d') (h' : TradesOnly d' d'') : TradesOnly d d'' :=
  ⟨h'.instrument.trans h.instrument, h'.tf.trans h.tf, h'.graceNs.trans h.graceNs,
    h'.maxReorderIds.trans h.maxReorderIds, h'.latestNs.trans h.latestNs, h'.kLo.trans h.kLo,
    h'.kClosed.trans h.kClosed, h.klines.trans h'.klines, h.filling.trans h'.filling⟩

end TradesOnly

/-- The books of the trades depend on the trades alone. -/
theorem TradeBooks.congr {seen : List ℤ} {d d' : GapDetector} (h : TradeBooks seen d)
    (htop : d'.tMax = d.tMax) (hpending : d'.pending = d.pending)
    (howner : ∀ x, d'.owner .trades x = d.owner .trades x) : TradeBooks seen d' where
  start := by
    rw [htop]
    exact h.start
  top := by
    rw [htop]
    exact h.top
  ledger := by
    intro x
    rw [htop, hpending, howner]
    exact h.ledger x
  apart := by
    rw [hpending]
    exact h.apart
  free := by
    intro x
    rw [hpending, howner]
    exact h.free x

/-! ### The confirmation -/

/-- What the confirmation of the candidates `hs` leaves: the candidates `keep`, and gaps on the ids
    of the others. -/
structure Confirmed (hs : List Hole) (d : GapDetector) (out : List GapRecord) (keep : List Hole)
    (d' : GapDetector) : Prop where
  books : Books d'
  only : TradesOnly d d'
  tMax : d'.tMax = d.tMax
  apart : Apart keep
  free : ∀ x, InHoles keep x → d'.owner .trades x = none
  ledger : ∀ x, (d'.owner .trades x).isSome ∨ InHoles keep x ↔
    (d.owner .trades x).isSome ∨ InHoles hs x
  nextId : d.nextId ≤ d'.nextId
  listed : Listed d' out

/-- **The loop of the confirmation**, by induction on the candidates. -/
theorem confirmLoop_books (now : ℤ) (force : Bool) (hs : List Hole) : ∀ {d : GapDetector}, Books d →
    Apart hs → (∀ x, InHoles hs x → d.owner .trades x = none) →
      Confirmed hs d (GapDetector.confirmLoop now force hs d).1
        (GapDetector.confirmLoop now force hs d).2.1
        (GapDetector.confirmLoop now force hs d).2.2 := by
  induction hs with
  | nil =>
    intro d hb hapart hfree
    exact ⟨hb, .refl d, rfl, hapart, hfree, fun x => Iff.rfl, le_refl _, .nil d⟩
  | cons h hs ih =>
    intro d hb hapart hfree
    obtain ⟨hd, hs'⟩ := apart_cons.mp hapart
    unfold GapDetector.confirmLoop
    by_cases hconf : d.confirms force h = true
    · rw [if_pos hconf]
      have hnew : Books (d.openHole now h).2 := hb.openGap now fun x hx =>
        hfree x (inHoles_cons.mpr (.inl hx))
      have howner : ∀ x, (d.openHole now h).2.owner .trades x =
          if x ∈ h.missing then some d.nextId else d.owner .trades x := by
        intro x
        show (if Stream.trades = Stream.trades ∧ x ∈ h.missing then _ else _) = _
        simp only [true_and]
      have hrest : ∀ x, InHoles hs x → (d.openHole now h).2.owner .trades x = none := by
        intro x hx
        rw [howner, if_neg fun hmem => hd x hmem hx]
        exact hfree x (inHoles_cons.mpr (.inr hx))
      have hih := ih hnew hs' hrest
      refine ⟨hih.books, TradesOnly.trans ?_ hih.only, hih.tMax, hih.apart, hih.free, fun x => ?_,
        (Nat.le_succ _).trans hih.nextId, fun g hg hs => ?_⟩
      · exact ⟨rfl, rfl, rfl, rfl, rfl, rfl, rfl, d.openGap_others now Stream.noConfusion,
        hb.openGap_filling now _⟩
      · refine (hih.ledger x).trans ?_
        rw [howner, inHoles_cons]
        by_cases hx : x ∈ h.missing <;> simp [hx]
      · rcases List.mem_cons.mp hg with rfl | hg
        · exact ⟨hb.start, Nat.lt_of_succ_le hih.nextId⟩
        · exact hih.listed g hg hs
    · rw [if_neg hconf]
      have hih := ih hb hs' fun x hx => hfree x (inHoles_cons.mpr (.inr hx))
      -- the candidate that is kept shares no id with the gaps that are opened
      have hnone : ∀ x ∈ h.missing, (GapDetector.confirmLoop now force hs d).2.2.owner .trades x =
          none ∧ ¬InHoles (GapDetector.confirmLoop now force hs d).2.1 x := by
        intro x hx
        have hnot : ¬((d.owner .trades x).isSome ∨ InHoles hs x) := by
          rw [hfree x (inHoles_cons.mpr (.inl hx))]
          simpa using hd x hx
        rw [← hih.ledger, not_or, Option.not_isSome_iff_eq_none] at hnot
        exact hnot
      refine ⟨hih.books, hih.only, hih.tMax, apart_cons.mpr ⟨fun x hx => (hnone x hx).2, hih.apart⟩,
        fun x hx => ?_, fun x => ?_, hih.nextId, hih.listed⟩
      · rcases inHoles_cons.mp hx with hx | hx
        · exact (hnone x hx).1
        · exact hih.free x hx
      · rw [inHoles_cons, inHoles_cons, or_left_comm, hih.ledger x, or_left_comm]

section Calls

variable {seen : List ℤ} {d : GapDetector} (now : ℤ)

/-- **The confirmation keeps the books.** -/
theorem confirmHoles_books (force : Bool) (hb : Books d) (h : TradeBooks seen d) :
    Books (d.confirmHoles now force).2 ∧ TradeBooks seen (d.confirmHoles now force).2 ∧
      TradesOnly d (d.confirmHoles now force).2 ∧
      d.nextId ≤ (d.confirmHoles now force).2.nextId ∧
      Listed (d.confirmHoles now force).2 (d.confirmHoles now force).1 := by
  have hloop := confirmLoop_books now force d.pending hb h.apart h.free
  have hlb := hloop.books
  refine ⟨⟨hlb.owner, hlb.paired, hlb.start, hlb.fresh, hlb.filled⟩, ?_,
    hloop.only.trans ⟨rfl, rfl, rfl, rfl, rfl, rfl, rfl, .of_eq rfl rfl, .of_eq rfl⟩, hloop.nextId,
    hloop.listed⟩
  refine ⟨hloop.tMax ▸ h.start, hloop.tMax ▸ h.top, fun x => ?_, hloop.apart, hloop.free⟩
  show _ ↔ Undelivered seen (GapDetector.confirmLoop now force d.pending d).2.2.tMax x
  rw [hloop.tMax]
  exact (hloop.ledger x).trans (h.ledger x)

/-! ### A trade -/

/-- What a trade may do to the detector, before the confirmation. -/
structure TradeTaken (d : GapDetector) (seen : List ℤ) (d' : GapDetector) : Prop where
  books : Books d'
  trades : TradeBooks seen d'
  only : TradesOnly d d'
  nextId : d'.nextId = d.nextId

/-- Without a first trade nothing is undelivered. -/
theorem undelivered_none {x : ℤ} : ¬Undelivered seen none x := by
  rintro ⟨_, _, _, htop, _⟩
  cases htop

/-- An id up to the highest one arrives. -/
theorem undelivered_older {top a x : ℤ} (hne : seen ≠ []) :
    Undelivered (seen ++ [a]) (some top) x ↔ Undelivered seen (some top) x ∧ x ≠ a := by
  unfold Undelivered
  rw [List.head?_append_of_ne_nil _ hne]
  simp only [List.mem_append, List.mem_singleton, not_or]
  constructor
  · rintro ⟨first, hfirst, top', htop, hle, hxt, hnot, hxa⟩
    exact ⟨⟨first, hfirst, top', htop, hle, hxt, hnot⟩, hxa⟩
  · rintro ⟨⟨first, hfirst, top', htop, hle, hxt, hnot⟩, hxa⟩
    exact ⟨first, hfirst, top', htop, hle, hxt, hnot, hxa⟩

/-- An id above the highest one arrives. -/
theorem undelivered_newer {top a x : ℤ} (htop : top ∈ seen) (hmax : ∀ y ∈ seen, y ≤ top)
    (hlt : top < a) : Undelivered (seen ++ [a]) (some a) x ↔
      Undelivered seen (some top) x ∨ (top < x ∧ x < a) := by
  have hne : seen ≠ [] := List.ne_nil_of_mem htop
  obtain ⟨first, hfirst⟩ := Option.ne_none_iff_exists'.mp (mt List.head?_eq_none_iff.mp hne)
  have hle : first ≤ top := hmax first (List.mem_of_mem_head? hfirst)
  unfold Undelivered
  rw [List.head?_append_of_ne_nil _ hne, hfirst]
  simp only [Option.mem_some_iff, exists_eq_left', List.mem_append, List.mem_singleton, not_or]
  constructor
  · rintro ⟨hx, hxa, hnot, hne'⟩
    by_cases hxt : x ≤ top
    · exact .inl ⟨hx, hxt, hnot⟩
    · exact .inr ⟨not_le.mp hxt, lt_of_le_of_ne hxa hne'⟩
  · rintro (⟨hx, hxt, hnot⟩ | ⟨hxt, hxa⟩)
    · exact ⟨hx, by omega, hnot, by omega⟩
    · exact ⟨by omega, hxa.le, fun hmem => absurd (hmax x hmem) (not_le.mpr hxt), hxa.ne⟩

/-- The first trade. -/
theorem TradeBooks.first (h : TradeBooks seen d) (htop : d.tMax = none) (a ts : ℤ) :
    TradeBooks (seen ++ [a]) { d with tMax := some a, tMaxTs := ts } := by
  have hseen : seen = [] := h.start.mp htop
  subst hseen
  have hnone : ∀ x, ¬((d.owner .trades x).isSome ∨ InHoles d.pending x) := by
    intro x
    rw [h.ledger x, htop]
    exact undelivered_none
  refine ⟨by simp, ?_, fun x => iff_of_false (hnone x) ?_, h.apart, h.free⟩
  · intro top ht
    cases ht
    simp
  · rintro ⟨first, hfirst, top, ht, hle, hxt, hnot⟩
    cases hfirst
    cases ht
    exact hnot (by simp; omega)

/-- **A trade that jumps over ids** makes a candidate of them. -/
theorem TradeBooks.jump (h : TradeBooks seen d) {top : ℤ} (htop : d.tMax = some top) (t : Trade)
    (hlt : top < t.aggId) (ts : ℤ) : TradeBooks (seen ++ [t.aggId])
      { d with pending := d.jump t top, tMax := some t.aggId, tMaxTs := ts } := by
  obtain ⟨hmem, hmax⟩ := h.top top htop
  have hnewer : ∀ x, Undelivered (seen ++ [t.aggId]) (some t.aggId) x ↔
      ((d.owner .trades x).isSome ∨ InHoles d.pending x) ∨ (top < x ∧ x < t.aggId) := by
    intro x
    rw [undelivered_newer hmem hmax hlt, h.ledger, htop]
  -- what is missing so far lies below the highest id
  have hbelow : ∀ x, (d.owner .trades x).isSome ∨ InHoles d.pending x → x ≤ top := by
    intro x hx
    obtain ⟨_, _, top', ht', _, hle, _⟩ := (h.ledger x).mp hx
    rw [htop] at ht'
    cases ht'
    exact hle
  have hholes : ∀ x, InHoles (d.jump t top) x ↔
      InHoles d.pending x ∨ (top < x ∧ x < t.aggId) := by
    intro x
    unfold GapDetector.jump
    by_cases hjump : (idRange (top + 1) t.aggId).Nonempty
    · rw [dif_pos hjump, inHoles_concat, mem_idRange, Int.add_one_le_iff]
    · rw [dif_neg hjump]
      refine (or_iff_left fun hbad => hjump ⟨x, mem_idRange.mpr hbad⟩).symm
  refine ⟨by simp, ?_, fun x => ?_, ?_, fun x hx => ?_⟩
  · intro top' ht'
    cases ht'
    refine ⟨by simp, fun x hx => ?_⟩
    rcases List.mem_append.mp hx with hx | hx
    · exact (hmax x hx).trans hlt.le
    · exact (List.mem_singleton.mp hx).le
  · show (d.owner .trades x).isSome ∨ InHoles (d.jump t top) x ↔ _
    rw [hnewer, hholes, or_assoc]
  · show Apart (d.jump t top)
    unfold GapDetector.jump
    by_cases hjump : (idRange (top + 1) t.aggId).Nonempty
    · rw [dif_pos hjump]
      refine apart_concat h.apart fun x hx hin => ?_
      have hle := hbelow x (.inr hin)
      have hgt := (mem_idRange.mp hx).1
      omega
    · rw [dif_neg hjump]
      exact h.apart
  · show d.owner .trades x = none
    rcases (hholes x).mp hx with hin | ⟨hgt, _⟩
    · exact h.free x hin
    · by_contra hsome
      have hle := hbelow x (.inl (Option.isSome_iff_ne_none.mpr hsome))
      omega

/-- **A trade below the highest id**: what is missing afterwards is what has been missing but for
    its id. -/
theorem TradeBooks.older (h : TradeBooks seen d) {top a : ℤ} {d' : GapDetector}
    (htop : d.tMax = some top) (hle : a ≤ top) (htop' : d'.tMax = some top)
    (hapart : Apart d'.pending) (hfree : ∀ x, InHoles d'.pending x → d'.owner .trades x = none)
    (hledger : ∀ x, (d'.owner .trades x).isSome ∨ InHoles d'.pending x ↔
      ((d.owner .trades x).isSome ∨ InHoles d.pending x) ∧ x ≠ a) :
    TradeBooks (seen ++ [a]) d' where
  start := by
    rw [htop']
    simp
  top := by
    obtain ⟨hmem, hmax⟩ := h.top top htop
    rw [htop']
    intro top' ht'
    cases ht'
    refine ⟨List.mem_append_left _ hmem, fun x hx => ?_⟩
    rcases List.mem_append.mp hx with hx | hx
    · exact hmax x hx
    · exact (List.mem_singleton.mp hx) ▸ hle
  ledger := by
    intro x
    have hne : seen ≠ [] := List.ne_nil_of_mem (h.top top htop).1
    rw [hledger, htop', undelivered_older hne, h.ledger, htop]
  apart := hapart
  free := hfree

/-- **A trade arrives**: the books before the confirmation.  What is answered are gaps that are
    full by that. -/
theorem takeTrade_books (hb : Books d) (h : TradeBooks seen d) (t : Trade) :
    ∃ changed d', d.takeTrade now t = (.ok changed, d') ∧
      TradeTaken d (seen ++ [t.aggId]) d' ∧ ∀ g ∈ changed, g.status = .filled := by
  unfold GapDetector.takeTrade
  cases htop : d.tMax with
  | none =>
    refine ⟨_, _, rfl, ⟨⟨hb.owner, hb.paired, hb.start, hb.fresh, hb.filled⟩, h.first htop _ _,
      ⟨rfl, rfl, rfl, rfl, rfl, rfl, rfl, .of_eq rfl rfl, .of_eq rfl⟩, rfl⟩, fun g hg => ?_⟩
    cases hg
  | some top =>
    dsimp only
    by_cases hnew : top < t.aggId
    · rw [if_pos hnew]
      refine ⟨_, _, rfl, ⟨⟨hb.owner, hb.paired, hb.start, hb.fresh, hb.filled⟩,
        h.jump htop t hnew _, ⟨rfl, rfl, rfl, rfl, rfl, rfl, rfl, .of_eq rfl rfl, .of_eq rfl⟩, rfl⟩,
        fun g hg => ?_⟩
      cases hg
    · rw [if_neg hnew]
      have hle : t.aggId ≤ top := not_lt.mp hnew
      -- a repetition of an id that is not missing
      have hrepeat : ¬((d.owner .trades t.aggId).isSome ∨ InHoles d.pending t.aggId) →
          ∀ stats : GapStats, TradeTaken d (seen ++ [t.aggId]) { d with stats := stats } := by
        intro hnot stats
        refine ⟨⟨hb.owner, hb.paired, hb.start, hb.fresh, hb.filled⟩,
          h.older htop hle htop h.apart h.free fun x => ?_,
          ⟨rfl, rfl, rfl, rfl, rfl, rfl, rfl, .of_eq rfl rfl, .of_eq rfl⟩, rfl⟩
        refine iff_self_and.mpr ?_
        rintro hx rfl
        exact hnot hx
      obtain ⟨hfound, hleft, hapart⟩ := heal_apart t.aggId h.apart
      by_cases hold : t.aggId < top
      · rw [if_pos hold]
        rcases hheal : GapDetector.heal t.aggId d.pending with ⟨found, gone, pending⟩
        rw [hheal] at hfound hleft hapart
        cases found with
        | true =>
          -- a candidate misses the id, so no gap does
          have hin : InHoles d.pending t.aggId := hfound.mp rfl
          have hfree : d.owner .trades t.aggId = none := h.free _ hin
          refine ⟨_, _, rfl, ⟨⟨hb.owner, hb.paired, hb.start, hb.fresh, hb.filled⟩,
            h.older htop hle rfl hapart (fun x hx => h.free x ((hleft x).mp hx).1) fun x => ?_,
            ⟨rfl, rfl, rfl, rfl, rfl, rfl, rfl, .of_eq rfl rfl, .of_eq rfl⟩, rfl⟩, fun g hg => ?_⟩
          · rw [or_and_right]
            refine or_congr (iff_self_and.mpr ?_) (hleft x)
            rintro hx rfl
            rw [hfree] at hx
            cases hx
          · cases hg
        | false =>
          have hnot : ¬InHoles d.pending t.aggId := fun hin => Bool.noConfusion (hfound.mpr hin)
          cases ho : d.owner .trades t.aggId with
          | none =>
            dsimp only
            rw [Books.fill_none ho]
            refine ⟨_, _, rfl, hrepeat (fun hmissing => ?_) _, fun g hg => ?_⟩
            · rw [ho] at hmissing
              exact hmissing.elim Bool.noConfusion hnot
            · cases hg
          | some gid =>
            obtain ⟨changed, d', hfill, harr, hfilled⟩ := hb.fill_some now ho
            dsimp only
            rw [hfill]
            have hst := harr.streams
            have howner : ∀ x, d'.owner .trades x =
                if x = t.aggId then none else d.owner .trades x := by
              intro x
              rw [harr.owner]
              simp only [true_and]
            refine ⟨_, _, rfl, ⟨harr.books, h.older htop hle (hst.tMax.trans htop) ?_ ?_ ?_,
              ⟨hst.instrument, hst.tf, hst.graceNs, hst.maxReorderIds, hst.latestNs, hst.kLo,
                hst.kClosed, harr.others Stream.noConfusion, harr.filling⟩, harr.nextId⟩, hfilled⟩
            · rw [hst.pending]
              exact h.apart
            · intro x hx
              rw [hst.pending] at hx
              rw [howner]
              split
              · rfl
              · exact h.free x hx
            · intro x
              rw [howner, hst.pending]
              by_cases hx : x = t.aggId
              · simp [hx, hnot]
              · simp [hx]
      · rw [if_neg hold]
        have heq : t.aggId = top := by omega
        refine ⟨_, _, rfl, hrepeat (fun hmissing => ?_) _, fun g hg => ?_⟩
        · obtain ⟨_, _, _, _, _, _, hnot⟩ := (h.ledger _).mp hmissing
          exact hnot (heq ▸ (h.top top htop).1)
        · cases hg

end Calls

end FuzzHelm
