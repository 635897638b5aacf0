import FuzzHelm.Ingest.GapBooks

namespace FuzzHelm

open Lib

/-!
# The gaps that a detector answers

A gap is answered as open by the call that opens it, and again whenever its status has changed.  The
bounds of a gap never change, so every record that is answered has those of one that was open.

* `Known` — a record that the books or the answers have as the same gap;
* `Tells` — what a call answers of the gaps that it leaves; `Tells.trans` — two calls;
* `onKline_tells`, `onTrade_tells`, `flush_tells`, `beginFill_tells`, `resolve_tells` — the calls;
* `OpenedFirst` — every gap so far was reported as open; `OpenedFirst.tells` — a call keeps it.
-/

/-- The record is of a gap that the books had before, or of one that is answered as open. -/
def Known (d : GapDetector) (records : List GapRecord) (g : GapRecord) : Prop :=
  (∃ gid g₀, d.gaps.get? gid = some g₀ ∧ SameGap g₀ g) ∨
    ∃ g₀ ∈ records, g₀.status = .opened ∧ SameGap g₀ g

/-- **What a call tells**: each gap that it leaves, and each record that it answers, is known. -/
structure Tells (d : GapDetector) (records : List GapRecord) (d' : GapDetector) : Prop where
  gaps : ∀ gid g, d'.gaps.get? gid = some g → Known d records g
  records : ∀ g ∈ records, Known d records g

namespace Tells

variable {d d' d'' : GapDetector} {records records' : List GapRecord} {now : ℤ}

/-- The books of the gaps are as they were, and nothing is answered. -/
theorem of_eq (h : d'.gaps = d.gaps) : Tells d [] d' where
  gaps := by
    intro gid g hg
    rw [h] at hg
    exact .inl ⟨gid, g, hg, .refl g⟩
  records := fun g hg => by cases hg

/-- Nothing has been done, and nothing is answered. -/
theorem refl (d : GapDetector) : Tells d [] d := of_eq rfl

/-- **Two calls**, one after the other: what the second one knows, the first one has told. -/
theorem trans (h : Tells d records d') (h' : Tells d' records' d'') :
    Tells d (records ++ records') d'' := by
  have hmore (g : GapRecord) (hg : Known d records g) : Known d (records ++ records') g := by
    rcases hg with hbook | ⟨g₀, hmem, hopen, hsame⟩
    · exact .inl hbook
    · exact .inr ⟨g₀, List.mem_append_left _ hmem, hopen, hsame⟩
  have hback (g : GapRecord) (hg : Known d' records' g) : Known d (records ++ records') g := by
    rcases hg with ⟨gid, g₀, hg₀, hsame⟩ | ⟨g₀, hmem, hopen, hsame⟩
    · -- the gap was in the books in between
      rcases hmore g₀ (h.gaps gid g₀ hg₀) with ⟨gid', g₁, hg₁, hold⟩ | ⟨g₁, hmem, hopen, hold⟩
      · exact .inl ⟨gid', g₁, hg₁, hold.trans hsame⟩
      · exact .inr ⟨g₁, hmem, hopen, hold.trans hsame⟩
    · exact .inr ⟨g₀, List.mem_append_right _ hmem, hopen, hsame⟩
  constructor
  · intro gid g hg
    exact hback g (h'.gaps gid g hg)
  · intro g hg
    rcases List.mem_append.mp hg with hg | hg
    · exact hmore g (h.records g hg)
    · exact hback g (h'.records g hg)

/-- A call that answers nothing more and leaves the books of the gaps alone. -/
theorem then_eq (h : Tells d records d') (heq : d''.gaps = d'.gaps) : Tells d records d'' := by
  have hboth := h.trans (of_eq heq)
  rwa [List.append_nil] at hboth

/-- What comes before leaves the books of the gaps alone. -/
theorem after_eq (h : Tells d' records d'') (heq : d'.gaps = d.gaps) : Tells d records d'' :=
  (of_eq heq).trans h

/-- A gap is opened and answered. -/
theorem openGap (d : GapDetector) (now : ℤ) (x : GapDetector.GapSpec) :
    Tells d [(d.openGap now x).1] (d.openGap now x).2 := by
  have hnew : Known d [(d.openGap now x).1] (d.openGap now x).1 :=
    .inr ⟨_, List.mem_singleton_self _, rfl, .refl _⟩
  constructor
  · intro gid g hg
    change (d.gaps.insert d.nextId (d.openRecord now x)).get? gid = some g at hg
    rw [Dict.get?_insert] at hg
    split_ifs at hg with hid
    · cases hg
      exact hnew
    · exact .inl ⟨gid, g, hg, .refl g⟩
  · intro g hg
    rw [List.mem_singleton.mp hg]
    exact hnew

/-- One gap has another record, with the same bounds, which may be answered. -/
theorem restate {gid : ℕ} {g g' : GapRecord} (hg : d.gaps.get? gid = some g) (hsame : SameGap g g')
    (hgaps : d'.gaps = d.gaps.insert gid g') (hrecords : ∀ r ∈ records, r = g') :
    Tells d records d' := by
  have hknown : Known d records g' := .inl ⟨gid, g, hg, hsame⟩
  constructor
  · intro gid' r hr
    rw [hgaps, Dict.get?_insert] at hr
    split_ifs at hr with hid
    · cases hr
      exact hknown
    · exact .inl ⟨gid', r, hr, .refl r⟩
  · intro r hr
    rw [hrecords r hr]
    exact hknown

/-! ### The parts of a call -/

/-- **A key arrives late**: its gap misses one key less, and is answered when it is full. -/
theorem fill {stream : Stream} {key : ℤ} {found : Bool}
    (h : d.fill now stream key = (.ok (found, records), d')) : Tells d records d' := by
  unfold GapDetector.fill at h
  split at h
  · cases h
    exact refl d
  · rename_i gid howner
    dsimp only at h
    split at h
    · rename_i miss g hmiss hg
      split_ifs at h with hfull hfilling
      · split at h
        · cases h
        · rename_i g' htransition
          cases h
          refine restate hg ?_ rfl fun r hr => List.mem_singleton.mp hr
          exact (transition_ok htransition).1
      · cases h
        have hsame : SameGap g { g with filledRows := g.expectedCount - (miss.erase key).card } :=
          ⟨rfl, rfl, rfl, rfl, rfl⟩
        exact restate hg hsame rfl fun r hr => by cases hr
      · cases h
        exact of_eq rfl
    · cases h
    · cases h

/-- A run of missing minutes ends. -/
theorem close (now : ℤ) {run : List ℤ} {out : List GapRecord} (h : Tells d out d') :
    Tells d (GapDetector.Sweep.close now ⟨d', run, out⟩).out
      (GapDetector.Sweep.close now ⟨d', run, out⟩).d := by
  unfold GapDetector.Sweep.close
  split
  · exact h
  · exact h.trans (openGap d' now _)

/-- One minute of the sweep. -/
theorem settle {s : GapDetector.Sweep} (m : ℤ) (h : Tells d s.out s.d) :
    Tells d (s.settle now m).out (s.settle now m).d := by
  unfold GapDetector.Sweep.settle
  dsimp only
  split_ifs
  · -- the minute arrived: the run before it is over
    have harrived : Tells d s.out { s.d with kClosed := s.d.kClosed.erase m } := h.then_eq (by rfl)
    exact (close now harrived).then_eq (by rfl)
  · exact h.then_eq (by rfl)

/-- The loop of the sweep, by induction on the minutes. -/
theorem sweepLoop (n : ℕ) : ∀ {s : GapDetector.Sweep} (m : ℤ), Tells d s.out s.d →
    Tells d (GapDetector.sweepLoop now n m s).out (GapDetector.sweepLoop now n m s).d := by
  induction n with
  | zero => exact fun _ h => h
  | succ n ih => exact fun m h => ih _ (h.settle m)

/-- The sweep answers the gaps that it opens. -/
theorem sweepKlines (d : GapDetector) (now : ℤ) :
    Tells d (d.sweepKlines now).1 (d.sweepKlines now).2 := by
  unfold GapDetector.sweepKlines
  split
  · exact close now (sweepLoop _ _ (refl d))
  · exact refl d
  · exact refl d

/-- The loop over the candidates, by induction on them. -/
theorem confirmLoop (now : ℤ) (force : Bool) (hs : List Hole) : ∀ d : GapDetector,
    Tells d (GapDetector.confirmLoop now force hs d).1
      (GapDetector.confirmLoop now force hs d).2.2 := by
  induction hs with
  | nil => exact refl
  | cons hole hs ih =>
    intro d
    rw [GapDetector.confirmLoop]
    split_ifs
    · exact (openGap d now _).trans (ih _)
    · exact ih d

/-- The candidates that are confirmed are answered as open. -/
theorem confirmHoles (d : GapDetector) (now : ℤ) (force : Bool) :
    Tells d (d.confirmHoles now force).1 (d.confirmHoles now force).2 :=
  (confirmLoop now force d.pending d).then_eq (by rfl)

/-- What follows a candle. -/
theorem afterKline (d : GapDetector) (now : ℤ) :
    Tells d (d.afterKline now).1 (d.afterKline now).2 :=
  (sweepKlines d now).trans (confirmHoles _ now false)

/-- What follows a trade. -/
theorem afterTrade (d : GapDetector) (now : ℤ) :
    Tells d (d.afterTrade now).1 (d.afterTrade now).2 :=
  (confirmHoles d now false).trans (sweepKlines _ now)

/-- The candle itself. -/
theorem takeKline {c : Candle} (h : d.takeKline now c = (.ok records, d')) :
    Tells d records d' := by
  unfold GapDetector.takeKline at h
  dsimp only at h
  split_ifs at h
  · split at h
    · cases h
    · rename_i hfill
      cases h
      exact (fill hfill).after_eq (by rfl)
    · rename_i hfill
      cases h
      exact ((fill hfill).then_eq (by rfl)).after_eq (by rfl)
  · cases h
    exact of_eq rfl
  · cases h
    exact of_eq rfl
  · cases h
    exact of_eq rfl

/-- The trade itself. -/
theorem takeTrade {t : Trade} (h : d.takeTrade now t = (.ok records, d')) :
    Tells d records d' := by
  unfold GapDetector.takeTrade at h
  dsimp only at h
  -- the first trade, a newer one, a late one (healed, filled or a duplicate), the top again
  split at h
  · cases h
    exact of_eq rfl
  · split_ifs at h
    · cases h
      exact of_eq rfl
    · split at h
      · cases h
        exact of_eq rfl
      · split at h
        · cases h
        · rename_i hfill
          cases h
          exact fill hfill
        · rename_i hfill
          cases h
          exact (fill hfill).then_eq (by rfl)
    · cases h
      exact of_eq rfl

end Tells

/-! ### The calls -/

section Calls

variable {d d' : GapDetector} {records : List GapRecord} {now : ℤ}

/-- The time alone may settle minutes, and open gaps. -/
theorem onTime_tells (d : GapDetector) (now tsEventNs : ℤ) :
    Tells d (d.onTime now tsEventNs).1 (d.onTime now tsEventNs).2 :=
  (Tells.afterKline _ now).after_eq (by rfl)

/-- **A candle.** -/
theorem onKline_tells {c : Candle} (h : d.onKline now c = (.ok records, d')) :
    Tells d records d' := by
  unfold GapDetector.onKline at h
  split_ifs at h
  · cases h
    exact .refl d
  · split at h
    · cases h
    · rename_i htake
      cases h
      exact ((Tells.takeKline htake).trans (Tells.afterKline _ now)).after_eq (by rfl)

/-- **A trade.** -/
theorem onTrade_tells {t : Trade} (h : d.onTrade now t = (.ok records, d')) :
    Tells d records d' := by
  unfold GapDetector.onTrade at h
  split_ifs at h
  · cases h
    exact .refl d
  · split at h
    · cases h
    · rename_i htake
      cases h
      exact ((Tells.takeTrade htake).trans (Tells.afterTrade _ now)).after_eq (by rfl)

/-- The end confirms what is left. -/
theorem flush_tells (d : GapDetector) (now : ℤ) :
    Tells d (d.flush now).1 (d.flush now).2 := .confirmHoles d now true

/-- An attempt begins, and the gap is answered again. -/
theorem beginFill_tells {gid : ℕ} {g' : GapRecord} (h : d.beginFill now gid = .ok (g', d')) :
    Tells d [g'] d' := by
  obtain ⟨g, hg, htransition, rfl⟩ := GapDetector.beginFill_eq_ok h
  exact .restate hg (transition_ok htransition).1 rfl fun r hr => List.mem_singleton.mp hr

/-- An attempt ends, and the gap is answered again. -/
theorem resolve_tells {gid : ℕ} {g' : GapRecord} (h : d.resolve now gid = .ok (g', d')) :
    Tells d [g'] d' := by
  obtain ⟨g, miss, hg, -, htransition, rfl⟩ := GapDetector.resolve_eq_ok h
  exact .restate hg (transition_ok htransition).1 rfl fun r hr => List.mem_singleton.mp hr

end Calls

/-! ### Over the calls -/

/-- **Opened first**: a gap of the books, and a record that has been reported, has the bounds of one
    that was reported as open. -/
structure OpenedFirst (d : GapDetector) (reported : List GapRecord) : Prop where
  gaps : ∀ gid g, d.gaps.get? gid = some g →
    ∃ g₀ ∈ reported, g₀.status = .opened ∧ SameGap g₀ g
  reported : ∀ g ∈ reported, ∃ g₀ ∈ reported, g₀.status = .opened ∧ SameGap g₀ g

/-- **Step lemma**: what a call answers is reported after the rest. -/
theorem OpenedFirst.tells {d d' : GapDetector} {reported records : List GapRecord}
    (h : OpenedFirst d reported) (htold : Tells d records d') :
    OpenedFirst d' (reported ++ records) := by
  have hknown (g : GapRecord) (hg : Known d records g) :
      ∃ g₀ ∈ reported ++ records, g₀.status = .opened ∧ SameGap g₀ g := by
    rcases hg with ⟨gid, g₁, hg₁, hsame⟩ | ⟨g₀, hmem, hopen, hsame⟩
    · -- the books had it, so it was reported before
      obtain ⟨g₀, hmem, hopen, hold⟩ := h.gaps gid g₁ hg₁
      exact ⟨g₀, List.mem_append_left _ hmem, hopen, hold.trans hsame⟩
    · exact ⟨g₀, List.mem_append_right _ hmem, hopen, hsame⟩
  constructor
  · intro gid g hg
    exact hknown g (htold.gaps gid g hg)
  · intro g hg
    rcases List.mem_append.mp hg with hg | hg
    · obtain ⟨g₀, hmem, hopen, hsame⟩ := h.reported g hg
      exact ⟨g₀, List.mem_append_left _ hmem, hopen, hsame⟩
    · exact hknown g (htold.records g hg)

end FuzzHelm
