import FuzzHelm.Ingest.GapDetector

namespace FuzzHelm

open Lib

/-!
# The books of the gaps

Which gap misses which key: the sets of missing keys, and the map from the keys back to their
gaps.  A gap is opened on keys that no other gap misses, and a key that arrives leaves its gap.

* `Books` — the two agree;
* `SameStreams` — what the books leave alone;
* `Books.openGap`, `Books.fill_some`, `Books.beginFill`, `Books.resolve` — the operations.
-/

namespace GapDetector

/-- What the gap `gid` misses of the stream `s`. -/
def missingIn (d : GapDetector) (s : Stream) (gid : ℕ) : Finset ℤ :=
  match d.gaps.get? gid, d.missing.get? gid with
  | some g, some miss => if g.stream = s then miss else ∅
  | none, _ => ∅
  | some _, none => ∅

end GapDetector

/-- **The books agree**: the owner of a key is the gap that misses it, every gap has its set, and
    a gap that is filled misses nothing. -/
structure Books (d : GapDetector) : Prop where
  owner : ∀ s k gid, d.owner s k = some gid ↔ k ∈ d.missingIn s gid
  paired : ∀ gid, (d.gaps.get? gid).isSome = (d.missing.get? gid).isSome
  start : 0 < d.nextId
  fresh : ∀ gid, (d.gaps.get? gid).isSome ↔ 0 < gid ∧ gid < d.nextId
  filled : ∀ gid g, d.gaps.get? gid = some g → g.status = .filled →
    d.missing.get? gid = some ∅

/-- The open gaps that a call answers are gaps of the detector. -/
def Listed (d : GapDetector) (records : List GapRecord) : Prop :=
  ∀ g ∈ records, g.status = .opened → 0 < g.gapId ∧ g.gapId < d.nextId

namespace Listed

variable {d d' : GapDetector} {records records' : List GapRecord}

/-- No records are all listed. -/
theorem nil (d : GapDetector) : Listed d [] := fun g hg => by cases hg

/-- Records of two calls are listed when those of each are. -/
theorem append (h : Listed d records) (h' : Listed d records') : Listed d (records ++ records') :=
  fun g hg => (List.mem_append.mp hg).elim (h g) (h' g)

/-- What is listed stays so when more gaps are opened. -/
theorem mono (h : Listed d records) (hnext : d.nextId ≤ d'.nextId) : Listed d' records :=
  fun g hg hs => ⟨(h g hg hs).1, (h g hg hs).2.trans_le hnext⟩

/-- A gap that is full is not open. -/
theorem of_filled (h : ∀ g ∈ records, g.status = .filled) : Listed d records := by
  intro g hg hs
  rw [h g hg] at hs
  cases hs

end Listed

/-- A gap that is being filled stays so until the end of the attempt. -/
def KeepsFilling (d d' : GapDetector) : Prop :=
  ∀ gid g, d.gaps.get? gid = some g → g.status = .filling →
    ∃ g', d'.gaps.get? gid = some g' ∧ g'.status = .filling

namespace KeepsFilling

variable {d d' d'' : GapDetector}

/-- The gaps are as they were. -/
theorem of_eq (h : d'.gaps = d.gaps) : KeepsFilling d d' := by
  intro gid g hg hs
  rw [h]
  exact ⟨g, hg, hs⟩

/-- Nothing has changed. -/
theorem refl (d : GapDetector) : KeepsFilling d d := of_eq rfl

/-- A gap that is being filled over two parts. -/
theorem trans (h : KeepsFilling d d') (h' : KeepsFilling d' d'') : KeepsFilling d d'' := by
  intro gid g hg hs
  obtain ⟨g', hg', hs'⟩ := h gid g hg hs
  exact h' gid g' hg' hs'

end KeepsFilling

/-- What the books of the gaps leave alone: the times, and what the two detectors wait for. -/
structure SameStreams (d d' : GapDetector) : Prop where
  instrument : d'.instrument = d.instrument
  tf : d'.tf = d.tf
  graceNs : d'.graceNs = d.graceNs
  maxReorderIds : d'.maxReorderIds = d.maxReorderIds
  latestNs : d'.latestNs = d.latestNs
  kLo : d'.kLo = d.kLo
  kClosed : d'.kClosed = d.kClosed
  tMax : d'.tMax = d.tMax
  pending : d'.pending = d.pending

/-- What of a gap never changes. -/
structure SameGap (g g' : GapRecord) : Prop where
  gapId : g'.gapId = g.gapId
  stream : g'.stream = g.stream
  tsLoNs : g'.tsLoNs = g.tsLoNs
  tsHiNs : g'.tsHiNs = g.tsHiNs
  expectedCount : g'.expectedCount = g.expectedCount

/-- A record is of its own gap. -/
theorem SameGap.refl (g : GapRecord) : SameGap g g := ⟨rfl, rfl, rfl, rfl, rfl⟩

/-- Records of one gap, one after another. -/
theorem SameGap.trans {g g' g'' : GapRecord} (h : SameGap g g') (h' : SameGap g' g'') :
    SameGap g g'' :=
  ⟨h'.gapId.trans h.gapId, h'.stream.trans h.stream, h'.tsLoNs.trans h.tsLoNs,
    h'.tsHiNs.trans h.tsHiNs, h'.expectedCount.trans h.expectedCount⟩

/-- What of the gaps of the stream `s` is left alone by an operation on another stream. -/
structure SameGapsOf (s : Stream) (d d' : GapDetector) : Prop where
  owner : ∀ k, d'.owner s k = d.owner s k
  gaps : ∀ gid g', d'.gaps.get? gid = some g' → g'.stream = s →
    ∃ g, d.gaps.get? gid = some g ∧ SameGap g g'

namespace SameGapsOf

variable {s : Stream} {d d' d'' : GapDetector}

/-- Nothing but the times and the counters changes. -/
theorem of_eq (howner : d'.owner = d.owner) (hgaps : d'.gaps = d.gaps) : SameGapsOf s d d' where
  owner := by
    intro k
    rw [howner]
  gaps := by
    intro gid g' hg
    rw [hgaps] at hg
    exact fun _ => ⟨g', hg, .refl g'⟩

/-- Nothing has changed. -/
theorem refl (s : Stream) (d : GapDetector) : SameGapsOf s d d := of_eq rfl rfl

/-- What two parts leave alone of a stream. -/
theorem trans (h : SameGapsOf s d d') (h' : SameGapsOf s d' d'') : SameGapsOf s d d'' where
  owner := by
    intro k
    rw [h'.owner, h.owner]
  gaps := by
    intro gid g'' hg hs
    obtain ⟨g', hg', hsame'⟩ := h'.gaps gid g'' hg hs
    obtain ⟨g, hg₀, hsame⟩ := h.gaps gid g' hg' (hsame'.stream.symm.trans hs)
    exact ⟨g, hg₀, hsame.trans hsame'⟩

end SameGapsOf

namespace GapDetector

variable {d : GapDetector} {s : Stream} {gid : ℕ} {k : ℤ}

/-- A key is missing in a gap of a stream just when the books of the gap have it. -/
theorem mem_missingIn : k ∈ d.missingIn s gid ↔ ∃ g miss, d.gaps.get? gid = some g ∧
    d.missing.get? gid = some miss ∧ g.stream = s ∧ k ∈ miss := by
  unfold missingIn
  cases d.gaps.get? gid with
  | none => simp
  | some g =>
    cases d.missing.get? gid with
    | none => simp
    | some miss => by_cases hs : g.stream = s <;> simp [hs]

end GapDetector

namespace Books

variable {d : GapDetector} {s : Stream} {gid gid' : ℕ} {k now : ℤ}

/-- A key is missed by one gap at most. -/
theorem unique (h : Books d) (hk : k ∈ d.missingIn s gid) (hk' : k ∈ d.missingIn s gid') :
    gid = gid' := by
  rw [← h.owner] at hk hk'
  rw [hk] at hk'
  exact Option.some.inj hk'

/-- Two gaps miss different keys. -/
theorem disjoint (h : Books d) (hne : gid ≠ gid') :
    Disjoint (d.missingIn s gid) (d.missingIn s gid') := by
  rw [Finset.disjoint_left]
  intro x hx hx'
  exact hne (h.unique hx hx')

/-- A key has an owner just when some gap misses it. -/
theorem owned_iff (h : Books d) : (d.owner s k).isSome ↔ ∃ gid, k ∈ d.missingIn s gid := by
  rw [Option.isSome_iff_exists]
  exact exists_congr fun gid => h.owner s k gid

/-- The record and the missing keys of the owner of a key. -/
theorem of_owner (h : Books d) (ho : d.owner s k = some gid) : ∃ g miss,
    d.gaps.get? gid = some g ∧ d.missing.get? gid = some miss ∧ g.stream = s ∧ k ∈ miss :=
  GapDetector.mem_missingIn.mp ((h.owner s k gid).mp ho)

/-! ### A gap is opened -/

/-- The number of the next gap is free. -/
theorem next_free (h : Books d) : d.gaps.get? d.nextId = none := by
  rw [← Option.not_isSome_iff_eq_none, h.fresh]
  omega

/-- The ids of the gaps that are there before the call that opens the gap `d.nextId`. -/
theorem lt_nextId (h : Books d) {g : GapRecord} (hg : d.gaps.get? gid = some g) :
    gid < d.nextId := by
  have hsome : (d.gaps.get? gid).isSome := by rw [hg]; rfl
  exact ((h.fresh gid).mp hsome).2

/-- A new gap misses its own keys, and the others miss what they missed. -/
theorem missingIn_openGap (x : GapDetector.GapSpec) (s : Stream) (gid : ℕ) :
    (d.openGap now x).2.missingIn s gid =
      if gid = d.nextId then (if s = x.stream then x.keys else ∅) else d.missingIn s gid := by
  by_cases hgid : gid = d.nextId
  · subst hgid
    rw [if_pos rfl]
    unfold GapDetector.missingIn GapDetector.openGap
    simp only [Dict.get?_insert_self]
    exact if_congr eq_comm rfl rfl
  · rw [if_neg hgid]
    unfold GapDetector.missingIn GapDetector.openGap
    simp only [Dict.get?_insert_of_ne _ _ (Ne.symm hgid)]

/-- **A gap is opened** on keys that are free. -/
theorem openGap (h : Books d) (now : ℤ) {x : GapDetector.GapSpec}
    (hfree : ∀ k ∈ x.keys, d.owner x.stream k = none) : Books (d.openGap now x).2 where
  owner := by
    intro s k gid
    rw [missingIn_openGap]
    show (if s = x.stream ∧ k ∈ x.keys then some d.nextId else d.owner s k) = some gid ↔ _
    by_cases hnew : s = x.stream ∧ k ∈ x.keys
    · obtain ⟨rfl, hk⟩ := hnew
      rw [if_pos ⟨rfl, hk⟩, Option.some.injEq, if_pos rfl]
      constructor
      · rintro rfl
        rw [if_pos rfl]
        exact hk
      -- an older gap that missed the key would own it, but the key is free
      · intro hmem
        by_contra hne
        rw [if_neg (Ne.symm hne), ← h.owner, hfree k hk] at hmem
        cases hmem
    · rw [if_neg hnew, h.owner]
      by_cases hgid : gid = d.nextId
      · rw [if_pos hgid]
        have hnone : d.missingIn s gid = ∅ := by
          unfold GapDetector.missingIn
          rw [hgid, h.next_free]
        rw [hnone]
        split
        · rename_i hs
          simp only [Finset.notMem_empty, false_iff]
          exact fun hk => hnew ⟨hs, hk⟩
        · exact Iff.rfl
      · rw [if_neg hgid]
  paired := by
    intro gid
    show ((d.gaps.insert d.nextId _).get? gid).isSome =
      ((d.missing.insert d.nextId _).get? gid).isSome
    rw [Dict.get?_insert, Dict.get?_insert]
    split
    · rfl
    · exact h.paired gid
  start := Nat.succ_pos _
  fresh := by
    intro gid
    show ((d.gaps.insert d.nextId _).get? gid).isSome ↔ 0 < gid ∧ gid < d.nextId + 1
    have hstart := h.start
    rw [Dict.get?_insert]
    split
    · simp only [Option.isSome_some, true_iff]
      omega
    · rw [h.fresh gid]
      omega
  filled := by
    intro gid g hg hs
    change (d.gaps.insert d.nextId _).get? gid = some g at hg
    show (d.missing.insert d.nextId _).get? gid = some ∅
    rw [Dict.get?_insert] at hg ⊢
    split at hg
    · cases hg
      cases hs
    · rename_i hne
      rw [if_neg hne]
      exact h.filled gid g hg hs

end Books

/-- The gap that is opened has a new id. -/
theorem Books.openGap_filling {d : GapDetector} (h : Books d) (now : ℤ)
    (x : GapDetector.GapSpec) : KeepsFilling d (d.openGap now x).2 := by
  intro gid g hg hs
  refine ⟨g, ?_, hs⟩
  show (d.gaps.insert d.nextId _).get? gid = some g
  rw [Dict.get?_insert_of_ne _ _ (h.lt_nextId hg).ne']
  exact hg

/-- A gap that is opened on one stream leaves the gaps of another alone. -/
theorem GapDetector.openGap_others (d : GapDetector) (now : ℤ) {x : GapSpec} {s : Stream}
    (hs : x.stream ≠ s) : SameGapsOf s d (d.openGap now x).2 where
  owner := by
    intro k
    exact if_neg fun hnew => hs hnew.1.symm
  gaps := by
    intro gid g' hg hs'
    change (d.gaps.insert d.nextId _).get? gid = some g' at hg
    rw [Dict.get?_insert] at hg
    split at hg
    · cases hg
      exact absurd hs' hs
    · exact ⟨g', hg, .refl g'⟩

/-! ### A key arrives -/

/-- A gap before and after the arrival of a key that it missed. -/
structure Refilled (g g' : GapRecord) : Prop extends SameGap g g' where
  status : g'.status = g.status ∨ (g'.status = .filled ∧ g.status ≠ .filling)

/-- A gap whose rows have not changed. -/
theorem Refilled.refl (g : GapRecord) : Refilled g g := ⟨.refl g, .inl rfl⟩

/-- A transition to `FILLED` is always allowed. -/
theorem transition_filled (g : GapRecord) (now filled : ℤ) :
    transition g .filled now (some filled) false = .ok { g with
      status := .filled, filledRows := filled, closedAtNs := some now } := by
  have hallowed : ¬(GapStatus.filled ≠ g.status ∧ GapStatus.filled ∉ transitions g.status) := by
    cases g.status <;> simp [transitions]
  rw [transition, if_neg hallowed]
  rfl

/-- **What the arrival of a key does**: it leaves its gap, and nothing else changes but the
    record of that gap. -/
structure Arrived (d : GapDetector) (s : Stream) (key : ℤ) (d' : GapDetector) : Prop where
  books : Books d'
  streams : SameStreams d d'
  owner : ∀ s' k, d'.owner s' k = if s' = s ∧ k = key then none else d.owner s' k
  gaps : ∀ gid g', d'.gaps.get? gid = some g' → ∃ g, d.gaps.get? gid = some g ∧ Refilled g g' ∧
    (d.owner s key ≠ some gid → g' = g)
  filling : KeepsFilling d d'
  nextId : d'.nextId = d.nextId

/-- The arrival of a key of one stream leaves the gaps of another alone. -/
theorem Arrived.others {d d' : GapDetector} {s s' : Stream} {key : ℤ} (h : Arrived d s key d')
    (hs : s' ≠ s) : SameGapsOf s' d d' where
  owner := by
    intro k
    rw [h.owner, if_neg fun hkey => hs hkey.1]
  gaps := by
    intro gid g' hg _
    obtain ⟨g, hg₀, hr, -⟩ := h.gaps gid g' hg
    exact ⟨g, hg₀, hr.toSameGap⟩

namespace Books

variable {d d' : GapDetector} {s : Stream} {gid : ℕ} {key : ℤ} {g g' : GapRecord}
  {miss : Finset ℤ}

/-- The arrival of a key that the gap `gid` misses, whatever becomes of the record. -/
theorem arrive (h : Books d) (ho : d.owner s key = some gid) (hg : d.gaps.get? gid = some g)
    (hm : d.missing.get? gid = some miss) (hr : Refilled g g')
    (hfull : g'.status = .filled → miss.erase key = ∅) (hstreams : SameStreams d d')
    (howner : d'.owner = fun s' k => if s' = s ∧ k = key then none else d.owner s' k)
    (hmissing : d'.missing = d.missing.insert gid (miss.erase key))
    (hgaps : ∀ x, d'.gaps.get? x = if gid = x then some g' else d.gaps.get? x)
    (hnext : d'.nextId = d.nextId) : Arrived d s key d' := by
  obtain ⟨g₀, miss₀, hg₀, hm₀, hs, hkey⟩ := h.of_owner ho
  rw [hg] at hg₀
  rw [hm] at hm₀
  cases hg₀
  cases hm₀
  -- what is missing afterwards: everything that was, but for the key in its own gap
  have hmem : ∀ s' k x, k ∈ d'.missingIn s' x ↔
      k ∈ d.missingIn s' x ∧ ¬(s' = s ∧ k = key ∧ x = gid) := by
    intro s' k x
    rw [GapDetector.mem_missingIn, GapDetector.mem_missingIn, hmissing]
    simp only [hgaps, Dict.get?_insert]
    by_cases hx : gid = x
    · subst hx
      simp only [if_true, Option.some.injEq, hg, hm]
      constructor
      · rintro ⟨_, _, rfl, rfl, hs', hk⟩
        rw [hr.stream] at hs'
        obtain ⟨hne, hk⟩ := Finset.mem_erase.mp hk
        exact ⟨⟨g, miss, rfl, rfl, hs', hk⟩, fun hbad => hne hbad.2.1⟩
      · rintro ⟨⟨_, _, rfl, rfl, hs', hk⟩, hbad⟩
        refine ⟨g', _, rfl, rfl, hr.stream.trans hs', Finset.mem_erase.mpr ⟨?_, hk⟩⟩
        rintro rfl
        exact hbad ⟨hs'.symm.trans hs, rfl, trivial⟩
    · simp only [if_neg hx, and_iff_left fun hbad : s' = s ∧ k = key ∧ x = gid => hx hbad.2.2.symm]
  exact {
    books := {
      owner := by
        intro s' k x
        rw [hmem, howner]
        dsimp only
        by_cases hkey' : s' = s ∧ k = key
        · rw [if_pos hkey']
          obtain ⟨rfl, rfl⟩ := hkey'
          constructor
          · intro hbad
            cases hbad
          -- the books were right before, so no second gap can have missed the key
          · rintro ⟨hk, hne⟩
            exact absurd ⟨rfl, rfl, h.unique hk ((h.owner _ _ _).mp ho)⟩ hne
        · rw [if_neg hkey', h.owner]
          exact (and_iff_left fun hbad => hkey' ⟨hbad.1, hbad.2.1⟩).symm
      paired := by
        intro x
        rw [hgaps, hmissing, Dict.get?_insert]
        split
        · rfl
        · exact h.paired x
      start := by
        rw [hnext]
        exact h.start
      fresh := by
        intro x
        rw [hgaps, hnext, ← h.fresh]
        split
        · rename_i heq
          rw [← heq, hg]
          exact Iff.rfl
        · exact Iff.rfl
      filled := by
        intro x gx hx hst
        rw [hgaps] at hx
        rw [hmissing, Dict.get?_insert]
        split at hx
        · rename_i heq
          cases hx
          rw [if_pos heq, hfull hst]
        · rename_i hne
          rw [if_neg hne]
          exact h.filled x gx hx hst }
    streams := hstreams
    owner := by
      intro s' k
      rw [howner]
    gaps := by
      intro x gx hx
      rw [hgaps] at hx
      split at hx
      · rename_i heq
        cases hx
        subst heq
        exact ⟨g, hg, hr, fun hne => absurd ho hne⟩
      · exact ⟨gx, hx, .refl gx, fun _ => rfl⟩
    filling := by
      intro x gx hx hst
      rw [hgaps]
      split
      · rename_i heq
        subst heq
        rw [hg] at hx
        cases hx
        refine ⟨g', rfl, ?_⟩
        rcases hr.status with hsame | ⟨-, hne⟩
        · exact hsame.trans hst
        · exact absurd hst hne
      · exact ⟨gx, hx, hst⟩
    nextId := hnext }

/-- A key that no gap misses. -/
theorem fill_none {now : ℤ} (ho : d.owner s key = none) :
    d.fill now s key = (.ok (false, []), d) := by
  rw [GapDetector.fill, ho]

/-- **A key that a gap misses arrives**; the gap is answered when it is full by that. -/
theorem fill_some (h : Books d) (now : ℤ) (ho : d.owner s key = some gid) :
    ∃ changed d', d.fill now s key = (.ok (true, changed), d') ∧ Arrived d s key d' ∧
      ∀ x ∈ changed, x.status = .filled := by
  obtain ⟨g, miss, hg, hm, -, -⟩ := h.of_owner ho
  rw [GapDetector.fill, ho]
  dsimp only
  rw [hg, hm]
  dsimp only
  -- the last missing key fills the gap, unless a backfill is under way
  by_cases hfull : miss.erase key = ∅ ∧ g.status ≠ .filling
  · rw [if_pos hfull, transition_filled]
    have hr : Refilled g { g with
        status := .filled
        filledRows := g.expectedCount - (miss.erase key).card
        closedAtNs := some now } := ⟨⟨rfl, rfl, rfl, rfl, rfl⟩, .inr ⟨rfl, hfull.2⟩⟩
    refine ⟨_, _, rfl, h.arrive ho hg hm hr (fun _ => hfull.1)
      ⟨rfl, rfl, rfl, rfl, rfl, rfl, rfl, rfl, rfl⟩ rfl rfl (fun x => Dict.get?_insert ..) rfl, ?_⟩
    intro x hx
    rw [List.mem_singleton.mp hx]
  · rw [if_neg hfull]
    -- while it is filling only the count moves
    by_cases hfilling : g.status = .filling
    · rw [if_pos hfilling]
      have hr : Refilled g { g with filledRows := g.expectedCount - (miss.erase key).card } :=
        ⟨⟨rfl, rfl, rfl, rfl, rfl⟩, .inl rfl⟩
      refine ⟨_, _, rfl, h.arrive ho hg hm hr (fun hst => ?_)
        ⟨rfl, rfl, rfl, rfl, rfl, rfl, rfl, rfl, rfl⟩ rfl rfl (fun x => Dict.get?_insert ..) rfl,
        ?_⟩
      · change g.status = .filled at hst
        rw [hfilling] at hst
        cases hst
      · intro x hx
        cases hx
    -- in any other status only the missing keys move
    · rw [if_neg hfilling]
      refine ⟨_, _, rfl, h.arrive ho hg hm (.refl g) (fun hst => ?_)
        ⟨rfl, rfl, rfl, rfl, rfl, rfl, rfl, rfl, rfl⟩ rfl rfl (fun x => ?_) rfl, ?_⟩
      · -- a gap that is filled already misses nothing
        have hnone := h.filled gid g hg hst
        rw [hm] at hnone
        cases hnone
        rfl
      · split
        · rename_i heq
          rw [← heq, hg]
        · rfl
      · intro x hx
        cases hx

end Books

/-! ### The status of a gap -/

/-- **What a transition does**: one record gets another status, and nothing else changes. -/
structure Restated (d d' : GapDetector) : Prop where
  books : Books d'
  streams : SameStreams d d'
  owner : d'.owner = d.owner
  missing : d'.missing = d.missing
  gaps : ∀ gid g', d'.gaps.get? gid = some g' → ∃ g, d.gaps.get? gid = some g ∧ SameGap g g'
  nextId : d'.nextId = d.nextId

/-- What has been restated leaves the other gaps as they were. -/
theorem Restated.others {d d' : GapDetector} (h : Restated d d') (s : Stream) :
    SameGapsOf s d d' where
  owner := by
    intro k
    rw [h.owner]
  gaps := fun gid g' hg _ => h.gaps gid g' hg

/-- A transition changes the status of a gap, and never its bounds. -/
theorem transition_ok {g g' : GapRecord} {status : GapStatus} {atNs : ℤ} {filledRows : Option ℤ}
    {countAttempt : Bool} (h : transition g status atNs filledRows countAttempt = .ok g') :
    SameGap g g' ∧ g'.status = status := by
  unfold transition at h
  split at h
  · cases h
  · cases h
    exact ⟨⟨rfl, rfl, rfl, rfl, rfl⟩, rfl⟩

/-- An attempt that begins writes the record and nothing else. -/
theorem GapDetector.beginFill_eq_ok {d d' : GapDetector} {gid : ℕ} {g' : GapRecord} {now : ℤ}
    (h : d.beginFill now gid = .ok (g', d')) :
    ∃ g, d.gaps.get? gid = some g ∧ transition g .filling now none true = .ok g' ∧
      d' = { d with gaps := d.gaps.insert gid g' } := by
  unfold beginFill at h
  cases hg : d.gaps.get? gid with
  | none =>
    rw [hg] at h
    cases h
  | some g =>
    rw [hg] at h
    obtain ⟨g₁, htr, h⟩ := bind_eq_ok.mp h
    cases h
    exact ⟨g, rfl, htr, rfl⟩

/-- A gap that is answered is in the books, with what it misses. -/
theorem GapDetector.gapOf_eq_ok {d : GapDetector} {gid : ℕ} {g : GapRecord} {miss : Finset ℤ}
    (h : d.gapOf gid = .ok (g, miss)) :
    d.gaps.get? gid = some g ∧ d.missing.get? gid = some miss := by
  unfold gapOf at h
  split at h
  · rename_i g₀ miss₀ hg hm
    cases h
    exact ⟨hg, hm⟩
  · cases h
  · cases h

/-- So does one that ends. -/
theorem GapDetector.resolve_eq_ok {d d' : GapDetector} {gid : ℕ} {g' : GapRecord} {now : ℤ}
    (h : d.resolve now gid = .ok (g', d')) :
    ∃ g miss, d.gaps.get? gid = some g ∧ d.missing.get? gid = some miss ∧
      transition g (statusAfter miss (g.expectedCount - miss.card)) now
        (some (g.expectedCount - miss.card)) false = .ok g' ∧
      d' = { d with gaps := d.gaps.insert gid g' } := by
  obtain ⟨⟨g, miss⟩, hgap, h⟩ := bind_eq_ok.mp h
  obtain ⟨g₁, htr, h⟩ := bind_eq_ok.mp h
  cases h
  obtain ⟨hg, hm⟩ := gapOf_eq_ok hgap
  exact ⟨g, miss, hg, hm, htr, rfl⟩

namespace Books

variable {d d' : GapDetector} {gid : ℕ} {g g' : GapRecord} {now : ℤ}

/-- The record of one gap is written again. -/
theorem restate (h : Books d) (hg : d.gaps.get? gid = some g) (hsame : SameGap g g')
    (hfull : g'.status = .filled → d.missing.get? gid = some ∅) :
    Restated d { d with gaps := d.gaps.insert gid g' } := by
  -- the table differs at this identifier only
  have hget : ∀ x, (d.gaps.insert gid g').get? x = if gid = x then some g' else d.gaps.get? x :=
    fun x => Dict.get?_insert ..
  have hgaps : ∀ x gx, (d.gaps.insert gid g').get? x = some gx →
      ∃ g₀, d.gaps.get? x = some g₀ ∧ SameGap g₀ gx := by
    intro x gx hx
    rw [hget] at hx
    split at hx
    · rename_i heq
      cases hx
      exact ⟨g, heq ▸ hg, hsame⟩
    · exact ⟨gx, hx, .refl gx⟩
  have hpaired : ∀ x, ((d.gaps.insert gid g').get? x).isSome = (d.gaps.get? x).isSome := by
    intro x
    rw [hget]
    split
    · rename_i heq
      rw [← heq, hg]
      rfl
    · rfl
  -- and the restated gap is of the same stream
  have hmem : ∀ s k x, k ∈ GapDetector.missingIn { d with gaps := d.gaps.insert gid g' } s x ↔
      k ∈ d.missingIn s x := by
    intro s k x
    rw [GapDetector.mem_missingIn, GapDetector.mem_missingIn]
    show (∃ gx miss, (d.gaps.insert gid g').get? x = some gx ∧ d.missing.get? x = some miss ∧
      gx.stream = s ∧ k ∈ miss) ↔ _
    rw [hget]
    by_cases hx : gid = x
    · subst hx
      rw [if_pos rfl, hg]
      simp only [Option.some.injEq, exists_and_left, exists_eq_left', hsame.stream]
    · rw [if_neg hx]
  exact {
    books := {
      owner := fun s k x => (h.owner s k x).trans (hmem s k x).symm
      paired := fun x => (hpaired x).trans (h.paired x)
      start := h.start
      fresh := by
        intro x
        rw [← h.fresh, ← hpaired]
      filled := by
        intro x gx hx hst
        change (d.gaps.insert gid g').get? x = some gx at hx
        rw [hget] at hx
        split at hx
        · rename_i heq
          cases hx
          exact heq ▸ hfull hst
        · exact h.filled x gx hx hst }
    streams := ⟨rfl, rfl, rfl, rfl, rfl, rfl, rfl, rfl, rfl⟩
    owner := rfl
    missing := rfl
    gaps := hgaps
    nextId := rfl }

/-- An attempt begins: the gap is restated as being filled. -/
theorem beginFill (h : Books d) (hb : d.beginFill now gid = .ok (g', d')) :
    Restated d d' ∧ g'.status = .filling := by
  obtain ⟨g, hg, htr, rfl⟩ := GapDetector.beginFill_eq_ok hb
  obtain ⟨hsame, hst⟩ := transition_ok htr
  refine ⟨h.restate hg hsame fun hbad => ?_, hst⟩
  rw [hst] at hbad
  cases hbad

/-- An attempt ends: the gap is full just when it misses nothing more. -/
theorem resolve (h : Books d) (hb : d.resolve now gid = .ok (g', d')) :
    Restated d d' ∧ (g'.status = .filled ↔ d.missing.get? gid = some ∅) := by
  obtain ⟨g, miss, hg, hm, htr, rfl⟩ := GapDetector.resolve_eq_ok hb
  obtain ⟨hsame, hst⟩ := transition_ok htr
  have hfull : g'.status = .filled ↔ d.missing.get? gid = some ∅ := by
    rw [hst, hm, Option.some.injEq]
    unfold GapDetector.statusAfter
    by_cases hempty : miss = ∅
    · simp [hempty]
    · by_cases hfilled : g.expectedCount - (miss.card : ℤ) = 0 <;> simp [hempty, hfilled]
  exact ⟨h.restate hg hsame hfull.mp, hfull⟩

end Books

end FuzzHelm
