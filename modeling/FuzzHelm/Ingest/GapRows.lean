import FuzzHelm.Ingest.GapAccounts
import FuzzHelm.Lib.Cells

namespace FuzzHelm

open Lib

/-!
# The life of a gap

A gap is a record and the keys that it still misses.  It is opened with all its keys, keys arrive,
attempts to fill it begin and end; the detector is a table of such gaps, and each of its calls
creates gaps and moves at most one.

* `GapRow`, `GapRow.Opened`, `PromptMove`, `LateMove` — a gap, and what may become of it;
* `RowRules`, `Counted` — what its status says about its keys, and that its counter counts them;
* `GapDetector.row`, `Rows` — the table of the detector, and what a call may do to it;
* `StrayFill` — a call delivers a key to a gap that is not being filled and stays incomplete;
* `GapAccounts.call_rows` — every call of the detector.
-/

/-! ### One gap -/

/-- A gap with the keys that it misses. -/
structure GapRow where
  record : GapRecord
  missing : Finset ℤ

/-- A gap that has just been opened. -/
structure GapRow.Opened (r : GapRow) : Prop where
  status : r.record.status = .opened
  filledRows : r.record.filledRows = 0
  expectedCount : r.record.expectedCount = r.missing.card
  nonempty : r.missing.Nonempty

/-- The moves of a gap that keep its counter up to date. -/
inductive PromptMove : GapRow → GapRow → Prop
  /-- A key arrives while the gap is being filled. -/
  | arrive {g : GapRecord} {miss : Finset ℤ} {key : ℤ} : g.status = .filling → key ∈ miss →
      PromptMove ⟨g, miss⟩
        ⟨{ g with filledRows := g.expectedCount - (miss.erase key).card }, miss.erase key⟩
  /-- The last key arrives at another time. -/
  | complete {g g' : GapRecord} {miss : Finset ℤ} {key now : ℤ} : miss.erase key = ∅ →
      transition g .filled now (some (g.expectedCount - (miss.erase key).card)) false = .ok g' →
      PromptMove ⟨g, miss⟩ ⟨g', miss.erase key⟩
  /-- An attempt begins. -/
  | begin {g g' : GapRecord} {miss : Finset ℤ} {now : ℤ} :
      transition g .filling now none true = .ok g' → PromptMove ⟨g, miss⟩ ⟨g', miss⟩
  /-- An attempt ends. -/
  | resolve {g g' : GapRecord} {miss : Finset ℤ} {now : ℤ} :
      transition g (GapDetector.statusAfter miss (g.expectedCount - miss.card)) now
        (some (g.expectedCount - miss.card)) false = .ok g' →
      PromptMove ⟨g, miss⟩ ⟨g', miss⟩

/-- The move that leaves the counter behind: a key arrives at a gap that is not being filled and
    misses another one too. -/
structure LateMove (key : ℤ) (r r' : GapRow) : Prop where
  status : r.record.status ≠ .filling
  mem : key ∈ r.missing
  left : (r.missing.erase key).Nonempty
  after : r' = ⟨r.record, r.missing.erase key⟩

/-- A move of a row, with a late key or without. -/
def AnyMove (r r' : GapRow) : Prop := PromptMove r r' ∨ ∃ key, LateMove key r r'

/-- The counter of a gap counts the keys that have arrived. -/
def Counted (r : GapRow) : Prop := r.record.filledRows = r.record.expectedCount - r.missing.card

/-- **What the status of a gap says.** -/
structure RowRules (r : GapRow) : Prop where
  bounded : (r.missing.card : ℤ) ≤ r.record.expectedCount
  filled : r.record.status ≠ .filling → (r.record.status = .filled ↔ r.missing = ∅)
  part : r.record.status = .part →
    0 < r.record.filledRows ∧ r.record.filledRows < r.record.expectedCount
  unfillable : r.record.status = .unfillable → r.record.filledRows = 0

namespace GapRow.Opened

variable {r : GapRow}

/-- The row of a gap that opens obeys the rules. -/
theorem rules (h : r.Opened) : RowRules r where
  bounded := h.expectedCount.ge
  filled := by
    intro _
    rw [h.status]
    exact iff_of_false (by decide) h.nonempty.ne_empty
  part := by
    intro hs
    rw [h.status] at hs
    cases hs
  unfillable := by
    intro hs
    rw [h.status] at hs
    cases hs

/-- The row of a gap that opens counts what it has filled. -/
theorem counted (h : r.Opened) : Counted r := by
  unfold Counted
  rw [h.filledRows, h.expectedCount, sub_self]

end GapRow.Opened

/-- What a transition writes. -/
theorem transition_fields {g g' : GapRecord} {status : GapStatus} {atNs : ℤ} {filled : Option ℤ}
    {countAttempt : Bool} (h : transition g status atNs filled countAttempt = .ok g') :
    g'.status = status ∧ g'.expectedCount = g.expectedCount ∧
      g'.filledRows = filled.getD g.filledRows := by
  unfold transition at h
  split at h
  · cases h
  · cases h
    exact ⟨rfl, rfl, rfl⟩

/-- A key less. -/
theorem card_erase_cast {miss : Finset ℤ} {key : ℤ} (hkey : key ∈ miss) :
    ((miss.erase key).card : ℤ) = miss.card - 1 := by
  have hcard := Finset.card_erase_add_one hkey
  omega

namespace PromptMove

variable {r r' : GapRow}

/-- A prompt move keeps the rules. -/
theorem rules (h : PromptMove r r') (hr : RowRules r) : RowRules r' := by
  cases h with
  | @arrive g miss key hs hkey =>
    have hcard := card_erase_cast hkey
    have hb : (miss.card : ℤ) ≤ g.expectedCount := hr.bounded
    refine ⟨?_, fun hne => absurd hs hne, fun hp => ?_, fun hu => ?_⟩
    · show ((miss.erase key).card : ℤ) ≤ g.expectedCount
      omega
    · change g.status = .part at hp
      rw [hs] at hp
      cases hp
    · change g.status = .unfillable at hu
      rw [hs] at hu
      cases hu
  | @complete g g' miss key now hleft htr =>
    obtain ⟨hst, hexp, -⟩ := transition_fields htr
    have hb : (miss.card : ℤ) ≤ g.expectedCount := hr.bounded
    refine ⟨?_, fun _ => iff_of_true hst hleft, fun hp => ?_, fun hu => ?_⟩
    · show ((miss.erase key).card : ℤ) ≤ g'.expectedCount
      have hle := Finset.card_erase_le (s := miss) (a := key)
      omega
    · rw [hst] at hp
      cases hp
    · rw [hst] at hu
      cases hu
  | @begin g g' miss now htr =>
    obtain ⟨hst, hexp, -⟩ := transition_fields htr
    have hb : (miss.card : ℤ) ≤ g.expectedCount := hr.bounded
    refine ⟨?_, fun hne => absurd hst hne, fun hp => ?_, fun hu => ?_⟩
    · show (miss.card : ℤ) ≤ g'.expectedCount
      omega
    · rw [hst] at hp
      cases hp
    · rw [hst] at hu
      cases hu
  | @resolve g g' miss now htr =>
    obtain ⟨hst, hexp, hfilled⟩ := transition_fields htr
    have hb : (miss.card : ℤ) ≤ g.expectedCount := hr.bounded
    rw [Option.getD_some] at hfilled
    -- the three ways in which an attempt ends
    have hways : (miss = ∅ ∧ g'.status = .filled) ∨
        (miss ≠ ∅ ∧ g'.filledRows ≠ 0 ∧ g'.status = .part) ∨
        (miss ≠ ∅ ∧ g'.filledRows = 0 ∧ g'.status = .unfillable) := by
      unfold GapDetector.statusAfter at hst
      split at hst
      · rename_i hnone
        exact .inl ⟨hnone, hst⟩
      · rename_i hsome
        split at hst
        · rename_i hne
          exact .inr (.inl ⟨hsome, by omega, hst⟩)
        · rename_i hz
          exact .inr (.inr ⟨hsome, by omega, hst⟩)
    have hpos : miss ≠ ∅ → 0 < miss.card := Finset.card_pos.mpr ∘ Finset.nonempty_iff_ne_empty.mpr
    refine ⟨?_, fun _ => ?_, fun hp => ?_, fun hu => ?_⟩
    · show (miss.card : ℤ) ≤ g'.expectedCount
      omega
    · show g'.status = .filled ↔ miss = ∅
      rcases hways with ⟨hm, hs⟩ | ⟨hm, -, hs⟩ | ⟨hm, -, hs⟩ <;> simp [hm, hs]
    · change g'.status = .part at hp
      show 0 < g'.filledRows ∧ g'.filledRows < g'.expectedCount
      rcases hways with ⟨hm, hs⟩ | ⟨hm, hne, hs⟩ | ⟨hm, -, hs⟩
      · rw [hs] at hp
        cases hp
      · have hcard := hpos hm
        omega
      · rw [hs] at hp
        cases hp
    · change g'.status = .unfillable at hu
      rcases hways with ⟨hm, hs⟩ | ⟨hm, hne, hs⟩ | ⟨hm, hz, hs⟩
      · rw [hs] at hu
        cases hu
      · rw [hs] at hu
        cases hu
      · exact hz

/-- A prompt move keeps the count. -/
theorem counted (h : PromptMove r r') (hr : Counted r) : Counted r' := by
  cases h with
  | arrive hs hkey => rfl
  | complete hleft htr =>
    obtain ⟨-, hexp, hfilled⟩ := transition_fields htr
    rw [Counted, hexp, hfilled, Option.getD_some]
  | begin htr =>
    obtain ⟨-, hexp, hfilled⟩ := transition_fields htr
    rw [Counted, hexp, hfilled, Option.getD_none]
    exact hr
  | resolve htr =>
    obtain ⟨-, hexp, hfilled⟩ := transition_fields htr
    rw [Counted, hexp, hfilled, Option.getD_some]

end PromptMove

namespace LateMove

variable {r r' : GapRow} {key : ℤ}

/-- A late key keeps the rules. -/
theorem rules (h : LateMove key r r') (hr : RowRules r) : RowRules r' := by
  have hcard := card_erase_cast h.mem
  have hb := hr.bounded
  rw [h.after]
  refine ⟨?_, fun hne => ?_, hr.part, hr.unfillable⟩
  · show ((r.missing.erase key).card : ℤ) ≤ r.record.expectedCount
    omega
  · exact iff_of_false (fun hs => Finset.ne_empty_of_mem h.mem ((hr.filled hne).mp hs))
      h.left.ne_empty

/-- **The counter is left behind.** -/
theorem not_counted (h : LateMove key r r') (hr : Counted r) : ¬Counted r' := by
  have hcard := card_erase_cast h.mem
  unfold Counted at hr
  rw [h.after]
  intro hbad
  change r.record.filledRows = r.record.expectedCount - (r.missing.erase key).card at hbad
  omega

end LateMove

/-- Every move keeps the rules. -/
theorem AnyMove.rules {r r' : GapRow} (h : AnyMove r r') (hr : RowRules r) : RowRules r' := by
  rcases h with h | ⟨key, h⟩
  · exact h.rules hr
  · exact h.rules hr

/-! ### The table of the detector -/

namespace GapDetector

/-- The gap `gid` of the detector. -/
def row (d : GapDetector) (gid : ℕ) : Option GapRow :=
  match d.gaps.get? gid, d.missing.get? gid with
  | some g, some miss => some ⟨g, miss⟩
  | none, _ => none
  | some _, none => none

variable {d d' : GapDetector} {gid : ℕ}

/-- The row of a gap is its record with what it misses. -/
theorem row_eq_some {r : GapRow} :
    d.row gid = some r ↔ d.gaps.get? gid = some r.record ∧ d.missing.get? gid = some r.missing := by
  unfold row
  cases d.gaps.get? gid with
  | none => simp
  | some g =>
    cases d.missing.get? gid with
    | none => simp
    | some miss =>
      simp only [Option.some.injEq]
      constructor
      · rintro rfl
        exact ⟨rfl, rfl⟩
      · rintro ⟨rfl, rfl⟩
        rfl

/-- The row of a gap depends on the books of that gap alone. -/
theorem row_congr (hgaps : d'.gaps.get? gid = d.gaps.get? gid)
    (hmissing : d'.missing.get? gid = d.missing.get? gid) : d'.row gid = d.row gid := by
  unfold row
  rw [hgaps, hmissing]

end GapDetector

/-! ### Gaps are opened -/

/-- There is no gap yet from the next id on. -/
def Fresh (d : GapDetector) : Prop := ∀ gid, d.nextId ≤ gid → d.row gid = none

/-- No row stands under the number of the next gap. -/
theorem Books.fresh_rows {d : GapDetector} (h : Books d) : Fresh d := by
  intro gid hgid
  have hnone : d.gaps.get? gid = none := by
    rw [← Option.not_isSome_iff_eq_none, h.fresh]
    omega
  unfold GapDetector.row
  rw [hnone]

/-- A call that only opens gaps. -/
def OpensGaps (d d' : GapDetector) : Prop :=
  Fresh d → Fresh d' ∧ ∀ gid, Creates GapRow.Opened (d.row gid) (d'.row gid)

namespace OpensGaps

variable {d d' d'' : GapDetector}

/-- The books of the gaps have not changed. -/
theorem of_eq (hgaps : d'.gaps = d.gaps) (hmissing : d'.missing = d.missing)
    (hnext : d'.nextId = d.nextId) : OpensGaps d d' := by
  have hrow : ∀ gid, d'.row gid = d.row gid := fun gid =>
    GapDetector.row_congr (by rw [hgaps]) (by rw [hmissing])
  intro hfresh
  refine ⟨fun gid hgid => ?_, fun gid => .inl (hrow gid)⟩
  rw [hnext] at hgid
  rw [hrow]
  exact hfresh gid hgid

/-- Nothing has changed. -/
theorem refl (d : GapDetector) : OpensGaps d d := of_eq rfl rfl rfl

/-- Gaps are opened over two parts. -/
theorem trans (h : OpensGaps d d') (h' : OpensGaps d' d'') : OpensGaps d d'' := by
  intro hfresh
  obtain ⟨hfresh', hopen⟩ := h hfresh
  obtain ⟨hfresh'', hopen'⟩ := h' hfresh'
  exact ⟨hfresh'', fun gid => (hopen gid).trans (hopen' gid)⟩

/-- **A gap is opened** on some keys. -/
theorem openGap (d : GapDetector) (now : ℤ) {x : GapDetector.GapSpec} (hkeys : x.keys.Nonempty) :
    OpensGaps d (d.openGap now x).2 := by
  have hnew : (d.openGap now x).2.row d.nextId = some ⟨d.openRecord now x, x.keys⟩ :=
    GapDetector.row_eq_some.mpr ⟨Dict.get?_insert_self _ _ _, Dict.get?_insert_self _ _ _⟩
  have hold : ∀ gid, gid ≠ d.nextId → (d.openGap now x).2.row gid = d.row gid := fun gid hne =>
    GapDetector.row_congr (Dict.get?_insert_of_ne _ _ hne.symm)
      (Dict.get?_insert_of_ne _ _ hne.symm)
  intro hfresh
  constructor
  · intro gid hgid
    change d.nextId + 1 ≤ gid at hgid
    rw [hold gid (by omega)]
    exact hfresh gid (by omega)
  · intro gid
    by_cases hgid : gid = d.nextId
    · subst hgid
      exact .inr ⟨hfresh _ (le_refl _), _, hnew, rfl, rfl, rfl, hkeys⟩
    · exact .inl (hold gid hgid)

/-- The end of a run of missing minutes. -/
theorem close (now : ℤ) (s : GapDetector.Sweep) : OpensGaps s.d (s.close now).d := by
  unfold GapDetector.Sweep.close
  cases s.run with
  | nil => exact .refl _
  | cons lo rest => exact openGap s.d now (by simp)

/-- One minute of the sweep only opens gaps. -/
theorem settle (now m : ℤ) (s : GapDetector.Sweep) : OpensGaps s.d (s.settle now m).d := by
  unfold GapDetector.Sweep.settle
  split
  · have herase : OpensGaps s.d { s.d with kClosed := s.d.kClosed.erase m } := .of_eq rfl rfl rfl
    have hclose := close now { s with d := { s.d with kClosed := s.d.kClosed.erase m } }
    exact (herase.trans hclose).trans (.of_eq rfl rfl rfl)
  · exact .of_eq rfl rfl rfl

/-- The sweep only opens gaps, by induction on the minutes. -/
theorem sweepLoop (now : ℤ) (n : ℕ) (m : ℤ) (s : GapDetector.Sweep) :
    OpensGaps s.d (GapDetector.sweepLoop now n m s).d := by
  induction n generalizing m s with
  | zero => exact .refl _
  | succ n ih => exact (settle now m s).trans (ih _ _)

/-- The sweep opens gaps of candles. -/
theorem sweepKlines (d : GapDetector) (now : ℤ) : OpensGaps d (d.sweepKlines now).2 := by
  unfold GapDetector.sweepKlines
  split
  · exact (sweepLoop now _ _ ⟨d, [], []⟩).trans (close now _)
  · exact .refl d
  · exact .refl d

/-- Confirming only opens gaps, by induction on the candidates. -/
theorem confirmLoop (now : ℤ) (force : Bool) (hs : List Hole) (d : GapDetector) :
    OpensGaps d (GapDetector.confirmLoop now force hs d).2.2 := by
  induction hs generalizing d with
  | nil => exact .refl d
  | cons h hs ih =>
    unfold GapDetector.confirmLoop
    split
    · exact (openGap d now h.nonempty).trans (ih _)
    · exact ih d

/-- The confirmation opens gaps of trades. -/
theorem confirmHoles (d : GapDetector) (now : ℤ) (force : Bool) :
    OpensGaps d (d.confirmHoles now force).2 :=
  (confirmLoop now force d.pending d).trans (.of_eq rfl rfl rfl)

/-- What follows a candle only opens gaps. -/
theorem afterKline (d : GapDetector) (now : ℤ) : OpensGaps d (d.afterKline now).2 :=
  (sweepKlines d now).trans (confirmHoles _ now false)

/-- What follows a trade only opens gaps. -/
theorem afterTrade (d : GapDetector) (now : ℤ) : OpensGaps d (d.afterTrade now).2 :=
  (confirmHoles d now false).trans (sweepKlines _ now)

end OpensGaps

/-! ### A key arrives -/

/-- **A stray**: the key is missed by a gap that is not being filled and misses another one too. -/
def Strays (d : GapDetector) (s : Stream) (key : ℤ) : Prop :=
  ∃ gid r, d.owner s key = some gid ∧ d.row gid = some r ∧ r.record.status ≠ .filling ∧
    (r.missing.erase key).Nonempty

/-- **What a call may do to the table**: it creates gaps and moves others, promptly unless
    `late`. -/
structure Rows (late : Prop) (d d' : GapDetector) : Prop where
  any : ∀ gid, CellStep GapRow.Opened AnyMove (d.row gid) (d'.row gid)
  prompt : ¬late → ∀ gid, CellStep GapRow.Opened PromptMove (d.row gid) (d'.row gid)
  late : late → ∃ gid r r' key, d.row gid = some r ∧ d'.row gid = some r' ∧ LateMove key r r'

namespace Rows

variable {d d' d'' : GapDetector} {late late' : Prop}

/-- The table stays as it is. -/
theorem same (hlate : ¬late) (h : ∀ gid, d'.row gid = d.row gid) : Rows late d d' where
  any := fun gid => .of_eq (h gid)
  prompt := fun _ gid => .of_eq (h gid)
  late := fun hbad => absurd hbad hlate

/-- One gap moves promptly. -/
theorem one {gid : ℕ} {r r' : GapRow} (hlate : ¬late) (hr : d.row gid = some r)
    (hr' : d'.row gid = some r') (hmove : PromptMove r r')
    (hother : ∀ x, x ≠ gid → d'.row x = d.row x) : Rows late d d' := by
  have hprompt : ∀ x, CellStep GapRow.Opened PromptMove (d.row x) (d'.row x) := by
    intro x
    by_cases hx : x = gid
    · rw [hx, hr, hr']
      exact .moved hmove
    · exact .of_eq (hother x hx)
  exact ⟨fun x => (hprompt x).mono fun _ _ => .inl, fun _ => hprompt, fun hbad => absurd hbad hlate⟩

/-- One gap moves late. -/
theorem behind {gid : ℕ} {r r' : GapRow} {key : ℤ} (hlate : late) (hr : d.row gid = some r)
    (hr' : d'.row gid = some r') (hmove : LateMove key r r')
    (hother : ∀ x, x ≠ gid → d'.row x = d.row x) : Rows late d d' := by
  refine ⟨fun x => ?_, fun hnot => absurd hlate hnot, fun _ => ⟨gid, r, r', key, hr, hr', hmove⟩⟩
  by_cases hx : x = gid
  · rw [hx, hr, hr']
    exact .moved (.inr ⟨key, hmove⟩)
  · exact .of_eq (hother x hx)

/-- Gaps are opened after that. -/
theorem opens (h : Rows late d d') (hopen : OpensGaps d' d'') (hfresh : Fresh d') :
    Rows late d d'' := by
  obtain ⟨-, hcreates⟩ := hopen hfresh
  refine ⟨fun gid => (h.any gid).creates (hcreates gid),
    fun hnot gid => (h.prompt hnot gid).creates (hcreates gid), fun hlate => ?_⟩
  obtain ⟨gid, r, r', key, hr, hr', hmove⟩ := h.late hlate
  exact ⟨gid, r, r', key, hr, (hcreates gid).eq_some hr', hmove⟩

/-- Rows move alike when the same keys are late. -/
theorem congr (h : Rows late d d') (hiff : late' ↔ late) : Rows late' d d' := by
  rw [propext hiff]
  exact h

end Rows

namespace Books

variable {d : GapDetector}

/-- **A key arrives**: the gap that misses it moves, late when the key is a stray. -/
theorem fill_rows (h : Books d) (now : ℤ) (s : Stream) (key : ℤ) :
    Rows (Strays d s key) d (d.fill now s key).2 := by
  cases ho : d.owner s key with
  | none =>
    rw [fill_none ho]
    refine .same ?_ fun gid => rfl
    rintro ⟨gid, r, hbad, -⟩
    rw [ho] at hbad
    cases hbad
  | some gid =>
    obtain ⟨g, miss, hg, hm, -, hkey⟩ := h.of_owner ho
    have hrow : d.row gid = some ⟨g, miss⟩ := GapDetector.row_eq_some.mpr ⟨hg, hm⟩
    have hstrays : Strays d s key ↔ g.status ≠ .filling ∧ (miss.erase key).Nonempty := by
      constructor
      · rintro ⟨gid', r, ho', hr, hs, hleft⟩
        rw [ho] at ho'
        cases ho'
        rw [hrow] at hr
        cases hr
        exact ⟨hs, hleft⟩
      · rintro ⟨hs, hleft⟩
        exact ⟨gid, _, ho, hrow, hs, hleft⟩
    -- the gap is full and not being filled, or it is being filled, or keys are still missing
    rw [GapDetector.fill, ho]
    dsimp only
    rw [hg, hm]
    dsimp only
    by_cases hfull : miss.erase key = ∅ ∧ g.status ≠ .filling
    · rw [if_pos hfull, transition_filled]
      refine .one (fun hbad => (hstrays.mp hbad).2.ne_empty hfull.1) hrow
        (GapDetector.row_eq_some.mpr ⟨Dict.get?_insert_self _ _ _, Dict.get?_insert_self _ _ _⟩)
        (.complete hfull.1 (transition_filled g now _)) fun x hx => ?_
      exact GapDetector.row_congr (Dict.get?_insert_of_ne _ _ hx.symm)
        (Dict.get?_insert_of_ne _ _ hx.symm)
    · rw [if_neg hfull]
      by_cases hs : g.status = .filling
      · rw [if_pos hs]
        refine .one (fun hbad => (hstrays.mp hbad).1 hs) hrow
          (GapDetector.row_eq_some.mpr ⟨Dict.get?_insert_self _ _ _, Dict.get?_insert_self _ _ _⟩)
          (.arrive hs hkey) fun x hx => ?_
        exact GapDetector.row_congr (Dict.get?_insert_of_ne _ _ hx.symm)
          (Dict.get?_insert_of_ne _ _ hx.symm)
      · rw [if_neg hs]
        have hleft : (miss.erase key).Nonempty :=
          Finset.nonempty_iff_ne_empty.mpr fun hbad => hfull ⟨hbad, hs⟩
        refine .behind (hstrays.mpr ⟨hs, hleft⟩) hrow
          (GapDetector.row_eq_some.mpr ⟨hg, Dict.get?_insert_self _ _ _⟩) ⟨hs, hkey, hleft, rfl⟩
          fun x hx => ?_
        exact GapDetector.row_congr rfl (Dict.get?_insert_of_ne _ _ hx.symm)

end Books

/-! ### The calls -/

/-- **The call delivers a stray.** -/
def StrayFill (d : GapDetector) : DetectorCall → Prop
  | .onKline _ c =>
    c.tf = d.tf.name ∧ c.instrument = d.instrument ∧ c.isClosed = true ∧
      Strays d .klines c.openTimeNs
  | .onTrade _ t => t.instrument = d.instrument ∧ Strays d .trades t.aggId
  | .onTime .. | .flush .. | .beginFill .. | .resolve .. => False

namespace GapAccounts

variable {candles : List Candle} {seen : List ℤ} {old : ℕ} {d : GapDetector} (now : ℤ)

/-- A minute that a gap misses has been settled. -/
theorem owned_kline (h : GapAccounts candles seen old d) {m : ℤ}
    (ho : (d.owner .klines m).isSome) : ∃ lo ∈ d.kLo, m < lo := by
  cases hcandles : candles with
  | nil =>
    rw [(h.candles.none hcandles).owner] at ho
    cases ho
  | cons c cs =>
    obtain ⟨lo, hbooks⟩ := h.candles.some c (by rw [hcandles]; exact rfl)
    exact ⟨lo, hbooks.kLo, (hbooks.owned m ho).1.2.1⟩

/-- An id that a gap misses lies below the highest one, and no candidate misses it. -/
theorem owned_trade (h : GapAccounts candles seen old d) {x : ℤ}
    (ho : (d.owner .trades x).isSome) : (∃ top ∈ d.tMax, x < top) ∧ ¬InHoles d.pending x := by
  constructor
  · obtain ⟨-, -, top, htop, -, hle, hnot⟩ := (h.trades.ledger x).mp (.inl ho)
    refine ⟨top, htop, lt_of_le_of_ne hle ?_⟩
    rintro rfl
    exact hnot (h.trades.top _ htop).1
  · intro hin
    rw [h.trades.free x hin] at ho
    cases ho

/-- A stray is a key that a gap misses. -/
theorem strays_owned {s : Stream} {key : ℤ} (h : Strays d s key) : (d.owner s key).isSome := by
  obtain ⟨gid, -, ho, -⟩ := h
  rw [ho]
  rfl

/-- A candle moves the rows by its own minute at most. -/
theorem takeKline_rows (h : GapAccounts candles seen old d) (c : Candle) :
    Rows (c.isClosed = true ∧ Strays d .klines c.openTimeNs) d (d.takeKline now c).2 := by
  have hbooks : Books { d with kLo := some (d.kLo.getD c.openTimeNs) } :=
    ⟨h.books.owner, h.books.paired, h.books.start, h.books.fresh, h.books.filled⟩
  have hfill := hbooks.fill_rows now .klines c.openTimeNs
  unfold GapDetector.takeKline
  dsimp only
  by_cases hlate : c.openTimeNs < d.kLo.getD c.openTimeNs
  · rw [if_pos hlate]
    by_cases hclosed : c.isClosed = true
    -- a closed candle is a fill
    · rw [if_pos hclosed]
      have hiff : (c.isClosed = true ∧ Strays d .klines c.openTimeNs) ↔
          Strays { d with kLo := some (d.kLo.getD c.openTimeNs) } .klines c.openTimeNs :=
        and_iff_right hclosed
      have hrows := hfill.congr hiff
      split
      · rename_i hf
        rw [hf] at hrows
        exact ⟨hrows.any, hrows.prompt, hrows.late⟩
      · rename_i hf
        rw [hf] at hrows
        exact ⟨hrows.any, hrows.prompt, hrows.late⟩
      · -- only the counter of the late updates differs
        rename_i hf
        rw [hf] at hrows
        exact ⟨hrows.any, hrows.prompt, hrows.late⟩
    · rw [if_neg hclosed]
      exact .same (fun hbad => hclosed hbad.1) fun gid => rfl
  -- from the bound on no minute is owned
  · have hnot : ¬(c.isClosed = true ∧ Strays d .klines c.openTimeNs) := by
      rintro ⟨-, hbad⟩
      obtain ⟨lo, hlo, hlt⟩ := h.owned_kline (strays_owned hbad)
      rw [Option.mem_def] at hlo
      rw [hlo] at hlate
      exact hlate hlt
    rw [if_neg hlate]
    split <;> exact .same hnot fun gid => rfl

/-- A trade moves the rows by its own identifier at most. -/
theorem takeTrade_rows (h : GapAccounts candles seen old d) (t : Trade) :
    Rows (Strays d .trades t.aggId) d (d.takeTrade now t).2 := by
  have hfill := h.books.fill_rows now .trades t.aggId
  have howned : Strays d .trades t.aggId → (∃ top ∈ d.tMax, t.aggId < top) ∧
      ¬InHoles d.pending t.aggId := fun hbad => h.owned_trade (strays_owned hbad)
  unfold GapDetector.takeTrade
  dsimp only
  cases htop : d.tMax with
  | none =>
    refine .same (fun hbad => ?_) fun gid => rfl
    obtain ⟨⟨top, hmem, -⟩, -⟩ := howned hbad
    rw [htop] at hmem
    cases hmem
  | some top =>
    have hbelow : Strays d .trades t.aggId → t.aggId < top := by
      intro hbad
      obtain ⟨⟨top', hmem, hlt⟩, -⟩ := howned hbad
      rw [htop] at hmem
      cases hmem
      exact hlt
    dsimp only
    by_cases hnewer : top < t.aggId
    · rw [if_pos hnewer]
      exact .same (fun hbad => absurd (hbelow hbad) (not_lt.mpr hnewer.le)) fun gid => rfl
    · rw [if_neg hnewer]
      by_cases holder : t.aggId < top
      · rw [if_pos holder]
        -- a healed id was in a hole, so in no gap
        have hheal := (heal_apart t.aggId h.trades.apart).1
        split
        · rename_i hfound
          rw [hfound] at hheal
          exact .same (fun hbad => (howned hbad).2 (hheal.mp rfl)) fun gid => rfl
        -- else the fill decides
        · split
          · rename_i hf
            rw [hf] at hfill
            exact hfill
          · rename_i hf
            rw [hf] at hfill
            exact hfill
          · rename_i hf
            rw [hf] at hfill
            exact ⟨hfill.any, hfill.prompt, hfill.late⟩
      · rw [if_neg holder]
        exact .same (fun hbad => holder (hbelow hbad)) fun gid => rfl

/-- **What a call does to the table.** -/
theorem call_rows (h : GapAccounts candles seen d.nextId d) (c : DetectorCall) :
    Rows (StrayFill d c) d (d.call c).2 := by
  -- one case for each call: its own rows first, then the gaps that it opens
  cases c with
  | onTime now ts =>
    obtain ⟨hadv, -⟩ := h.advance ts
    have hsame : Rows (StrayFill d (.onTime now ts)) d (d.advance ts) :=
      .same not_false fun gid => rfl
    exact hsame.opens (.afterKline _ now) hadv.accounts.books.fresh_rows
  | onKline now c =>
    show Rows (StrayFill d (.onKline now c)) d (d.onKline now c).2
    unfold GapDetector.onKline
    by_cases hother : c.tf ≠ d.tf.name ∨ c.instrument ≠ d.instrument
    · rw [if_pos hother]
      refine .same (fun hbad => ?_) fun gid => rfl
      exact hother.elim (fun htf => htf hbad.1) fun hinst => hinst hbad.2.1
    · rw [if_neg hother]
      rw [not_or, not_not, not_not] at hother
      obtain ⟨hadv, -⟩ := h.advance c.tsEventNs
      have hiff : StrayFill d (.onKline now c) ↔
          c.isClosed = true ∧ Strays (d.advance c.tsEventNs) .klines c.openTimeNs :=
        ⟨fun hs => hs.2.2, fun hs => ⟨hother.1, hother.2, hs⟩⟩
      have hrows := (hadv.accounts.takeKline_rows now c).congr hiff
      obtain ⟨changed, d₁, htake, htaken, -⟩ :=
        takeKline_books now hadv.accounts.books hadv.accounts.candles c
      rw [htake] at hrows ⊢
      have hfrom : Rows (StrayFill d (.onKline now c)) d d₁ :=
        ⟨hrows.any, hrows.prompt, hrows.late⟩
      exact hfrom.opens (.afterKline _ now) htaken.books.fresh_rows
  | onTrade now t =>
    show Rows (StrayFill d (.onTrade now t)) d (d.onTrade now t).2
    unfold GapDetector.onTrade
    by_cases hother : t.instrument ≠ d.instrument
    · rw [if_pos hother]
      exact .same (fun hbad => hother hbad.1) fun gid => rfl
    · rw [if_neg hother]
      rw [not_not] at hother
      obtain ⟨hadv, -⟩ := h.advance t.tsEventNs
      have hiff : StrayFill d (.onTrade now t) ↔
          Strays (d.advance t.tsEventNs) .trades t.aggId := ⟨fun hs => hs.2, fun hs => ⟨hother, hs⟩⟩
      have hrows := (hadv.accounts.takeTrade_rows now t).congr hiff
      obtain ⟨changed, d₁, htake, htaken, -⟩ :=
        takeTrade_books now hadv.accounts.books hadv.accounts.trades t
      rw [htake] at hrows ⊢
      have hfrom : Rows (StrayFill d (.onTrade now t)) d d₁ :=
        ⟨hrows.any, hrows.prompt, hrows.late⟩
      exact hfrom.opens (.afterTrade _ now) htaken.books.fresh_rows
  -- a flush opens gaps only
  | flush now =>
    have hsame : Rows (StrayFill d (.flush now)) d d := .same not_false fun gid => rfl
    exact hsame.opens (.confirmHoles d now true) h.books.fresh_rows
  | beginFill now gid =>
    show Rows False d (orSame d (d.beginFill now gid)).2
    cases hb : d.beginFill now gid with
    | error e => exact .same not_false fun gid => rfl
    | ok r =>
      obtain ⟨g', d'⟩ := r
      obtain ⟨g, hg, htr, rfl⟩ := GapDetector.beginFill_eq_ok hb
      have hm : (d.missing.get? gid).isSome := by
        rw [← h.books.paired, hg]
        rfl
      obtain ⟨miss, hm⟩ := Option.isSome_iff_exists.mp hm
      show Rows False d { d with gaps := d.gaps.insert gid g' }
      refine .one not_false (GapDetector.row_eq_some.mpr ⟨hg, hm⟩)
        (GapDetector.row_eq_some.mpr ⟨Dict.get?_insert_self _ _ _, hm⟩)
        (.begin htr) fun x hx => ?_
      exact GapDetector.row_congr (Dict.get?_insert_of_ne _ _ hx.symm) rfl
  | resolve now gid =>
    show Rows False d (orSame d (d.resolve now gid)).2
    cases hb : d.resolve now gid with
    | error e => exact .same not_false fun gid => rfl
    | ok r =>
      obtain ⟨g', d'⟩ := r
      obtain ⟨g, miss, hg, hm, htr, rfl⟩ := GapDetector.resolve_eq_ok hb
      have hrow : d.row gid = some ⟨g, miss⟩ := GapDetector.row_eq_some.mpr ⟨hg, hm⟩
      show Rows False d { d with gaps := d.gaps.insert gid g' }
      refine .one not_false hrow
        (GapDetector.row_eq_some.mpr ⟨Dict.get?_insert_self _ _ _, hm⟩)
        (.resolve htr) fun x hx => ?_
      exact GapDetector.row_congr (Dict.get?_insert_of_ne _ _ hx.symm) rfl

end GapAccounts

end FuzzHelm
