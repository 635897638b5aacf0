import FuzzHelm.Lib.Run
import FuzzHelm.Risk.Context

namespace FuzzHelm

open Lib

/-!
# The equity tracker against its history

The tracker keeps a running peak and the capital with which the UTC day opened.  Both are functions
of everything that has been observed, rebases included.

* `EquityTracker.updateStmts`, `updateStmts_update` — `update` statement by statement, on the fields
  as they stand when it raises, is `update`;
* `EquityHistory` — the accepted calls, the newest first; `sinceRebase` and `dayOpen` say what the
  peak and the opening capital of the day are;
* `Remembers` — the fields of the tracker are those functions of its history;
* `equity_history` — so is every snapshot, after any sequence of calls.
-/

/-- A call of the tracker. -/
inductive TrackerCall
  | update (tsNs : ℤ) (equity : Decimal)
  | rebase
  deriving DecidableEq

namespace EquityTracker

/-- `update`, statement by statement. -/
def updateStmts (tsNs : ℤ) (equity : Decimal) :
    ExceptT PyError (StateM EquityTracker) EquitySnapshot := do
  let tr ← get
  if tr.lastTs.any (fun last => tsNs < last) then
    throw (.valueError "equity timestamps must be non-decreasing")
  let day := utcDayStartNs tsNs
  match tr.day with
  | none => modify fun tr => { tr with dayOpen := equity }
  | some d =>
    if day ≠ d then modify fun tr => { tr with dayOpen := tr.lastEquity.getD equity }
  modify fun tr => { tr with day := some day }
  if tr.peak.all (fun p => p < equity) then
    modify fun tr => { tr with peak := some equity }
  modify fun tr => { tr with lastEquity := some equity }
  modify fun tr => { tr with lastTs := some tsNs }
  modify fun tr => { tr with snapshot := some (tr.make tsNs equity) }
  return (← get).make tsNs equity

/-- The outcome of a call, and the tracker it leaves. -/
def call (tr : EquityTracker) : TrackerCall → Except PyError (Option EquitySnapshot) × EquityTracker
  | .update tsNs equity =>
    let r := (updateStmts tsNs equity).run.run tr
    (r.1.map some, r.2)
  | .rebase => (.ok tr.rebase.1, tr.rebase.2)

/-- **A call that raises changes no field**; one that returns leaves what `update` says. -/
theorem updateStmts_update (tr : EquityTracker) (tsNs : ℤ) (equity : Decimal) :
    (updateStmts tsNs equity).run.run tr =
      match tr.update tsNs equity with
      | .error e => (.error e, tr)
      | .ok (snap, tr') => (.ok snap, tr') := by
  obtain ⟨peak, day, dayOpen, lastEquity, lastTs, snap⟩ := tr
  unfold update
  by_cases hold : (lastTs.any fun last => tsNs < last) = true
  · rw [if_pos hold]
    show (ite ((lastTs.any fun last => tsNs < last) = true) _ _ :
      StateM EquityTracker (Except PyError EquitySnapshot)).run _ = _
    rw [if_pos hold]
    rfl
  · rw [if_neg hold]
    show (ite ((lastTs.any fun last => tsNs < last) = true) _ _ :
      StateM EquityTracker (Except PyError EquitySnapshot)).run _ = _
    rw [if_neg hold]
    -- the two tests that are left: a new day, and a new peak
    cases day with
    | none =>
      cases peak with
      | none => rfl
      | some p =>
        by_cases hp : p < equity
        · simp [hp, observe, nextPeak]
          rfl
        · simp [hp, observe, nextPeak]
          rfl
    | some d =>
      by_cases hd : utcDayStartNs tsNs = d
      · cases peak with
        | none =>
          simp [hd, observe, nextDayOpen]
          rfl
        | some p =>
          by_cases hp : p < equity
          · simp [hd, hp, observe, nextDayOpen, nextPeak]
            rfl
          · simp [hd, hp, observe, nextDayOpen, nextPeak]
            rfl
      · cases peak with
        | none =>
          simp [hd, observe, nextDayOpen]
          rfl
        | some p =>
          by_cases hp : p < equity
          · simp [hd, hp, observe, nextDayOpen, nextPeak]
            rfl
          · simp [hd, hp, observe, nextDayOpen, nextPeak]
            rfl

end EquityTracker

/-! ### What the history says -/

/-- The accepted calls, the newest first. -/
abbrev EquityHistory := List TrackerCall

namespace EquityHistory

/-- Whether a call observes an equity. -/
def isUpdate : TrackerCall → Bool
  | .update _ _ => true
  | .rebase => false

/-- The observations, the newest first. -/
def observations (h : EquityHistory) : List (ℤ × Decimal) :=
  h.filterMap fun
    | .update tsNs equity => some (tsNs, equity)
    | .rebase => none

/-- The last observation. -/
def last (h : EquityHistory) : Option (ℤ × Decimal) := h.observations.head?

/-- The equity to which the last rebase went: the last one before it. -/
def rebased (h : EquityHistory) : Option Decimal := (last (h.dropWhile isUpdate)).map (·.2)

/-- The equity since the last rebase, the value it went to included. -/
def sinceRebase (h : EquityHistory) : List Decimal :=
  (observations (h.takeWhile isUpdate)).map (·.2) ++ h.rebased.toList

/-- The call is not an observation made before the day. -/
def notBefore (day : ℤ) : TrackerCall → Bool
  | .update tsNs _ => decide (day ≤ tsNs)
  | .rebase => true

/-- The capital with which the day opened: the value of a rebase made since the last observation
    before the day, or that observation, or the first one of all. -/
def dayOpen (day : ℤ) (h : EquityHistory) : Option Decimal :=
  (if .rebase ∈ h.takeWhile (notBefore day) then h.rebased else none)
    |>.or ((h.observations.find? fun o => o.1 < day).map (·.2))
    |>.or (h.observations.getLast?.map (·.2))

variable (h : EquityHistory) (tsNs day : ℤ) (equity : Decimal)

/-- An update adds what it observes. -/
@[simp] theorem observations_update :
    observations (.update tsNs equity :: h) = (tsNs, equity) :: h.observations := rfl

/-- A rebase observes nothing. -/
@[simp] theorem observations_rebase : observations (.rebase :: h) = h.observations := rfl

/-- The last observation is that of the update. -/
@[simp] theorem last_update : last (.update tsNs equity :: h) = some (tsNs, equity) := rfl

/-- A rebase leaves the last observation. -/
@[simp] theorem last_rebase : last (.rebase :: h) = h.last := rfl

/-- An update does not rebase. -/
@[simp] theorem rebased_update : rebased (.update tsNs equity :: h) = h.rebased := rfl

/-- A rebase is to the last equity, if there is one. -/
@[simp] theorem rebased_rebase : rebased (.rebase :: h) = h.last.map (·.2) := rfl

/-- An update adds to what came since the rebase. -/
@[simp] theorem sinceRebase_update :
    sinceRebase (.update tsNs equity :: h) = equity :: h.sinceRebase := rfl

/-- After a rebase there is the last equity alone. -/
@[simp] theorem sinceRebase_rebase :
    sinceRebase (.rebase :: h) = (h.last.map (·.2)).toList := rfl

/-- The last observation is among the equity since the last rebase. -/
theorem mem_sinceRebase_last {h : EquityHistory} {o : ℤ × Decimal} (hlast : h.last = some o) :
    o.2 ∈ h.sinceRebase := by
  match h, hlast with
  | .update tsNs equity :: h, hlast =>
    rw [last_update, Option.some.injEq] at hlast
    subst hlast
    exact List.mem_cons_self
  | .rebase :: h, hlast =>
    rw [last_rebase] at hlast
    simp [hlast]

/-- Before the first observation a rebase has no value to go to. -/
theorem eq_nil_of_last {h : EquityHistory} (hlast : h.last = none) :
    h.observations = [] ∧ h.rebased = none ∧ h.sinceRebase = [] := by
  refine ⟨List.head?_eq_none_iff.mp hlast, ?_⟩
  match h, hlast with
  | [], _ => exact ⟨rfl, rfl⟩
  | .rebase :: h, hlast =>
    rw [last_rebase] at hlast
    simp [hlast]

/-- A later observation of the day. -/
theorem dayOpen_later {h : EquityHistory} {o : ℤ × Decimal} (hlast : h.last = some o)
    (hday : day ≤ tsNs) : dayOpen day (.update tsNs equity :: h) = dayOpen day h := by
  have hpast : ¬tsNs < day := not_lt.mpr hday
  obtain ⟨os, hos⟩ : ∃ os, h.observations = o :: os := List.head?_eq_some_iff.mp hlast
  simp [dayOpen, notBefore, hday, hpast, hos, List.getLast?_cons]

/-- The first observation of a later day: the equity is carried over midnight. -/
theorem dayOpen_midnight {h : EquityHistory} {o : ℤ × Decimal} (hlast : h.last = some o)
    (ho : o.1 < day) (hday : day ≤ tsNs) :
    dayOpen day (.update tsNs equity :: h) = some o.2 := by
  have hpast : ¬tsNs < day := not_lt.mpr hday
  match h, hlast with
  | .update t e :: h, hlast =>
    rw [last_update, Option.some.injEq] at hlast
    subst hlast
    have ht : ¬day ≤ t := not_le.mpr ho
    simp [dayOpen, notBefore, hday, hpast, ht, ho]
  | .rebase :: h, hlast =>
    -- a rebase before the first observation of the day goes to the same equity
    rw [last_rebase] at hlast
    simp [dayOpen, List.takeWhile_cons, notBefore, hday, hlast]

/-- The first observation of all. -/
theorem dayOpen_first {h : EquityHistory} (hlast : h.last = none) (hday : day ≤ tsNs) :
    dayOpen day (.update tsNs equity :: h) = some equity := by
  obtain ⟨hnone, hrebased, -⟩ := eq_nil_of_last hlast
  have hpast : ¬tsNs < day := not_lt.mpr hday
  simp [dayOpen, hrebased, hnone, hpast]

/-- A rebase moves the opening capital of the day. -/
theorem dayOpen_rebase {h : EquityHistory} {o : ℤ × Decimal} (hlast : h.last = some o) :
    dayOpen day (.rebase :: h) = some o.2 := by
  simp [dayOpen, List.takeWhile_cons, notBefore, hlast]

end EquityHistory

/-! ### The tracker follows its history -/

/-- **The snapshot that the history describes.** -/
structure Describes (h : EquityHistory) (snap : EquitySnapshot) : Prop where
  last : h.last = some (snap.tsNs, snap.equity)
  peak : IsGreatest {e | e ∈ h.sinceRebase} snap.peak
  day : snap.dayStartNs = utcDayStartNs snap.tsNs
  dayOpen : h.dayOpen snap.dayStartNs = some snap.equityDayOpen
  pnlDay : snap.pnlDay = snap.equity - snap.equityDayOpen
  drawdown : 0 < snap.peak →
    snap.drawdown = 1 - snap.equity / snap.peak ∧ 0 ≤ snap.drawdown
  /-- A peak that is not positive counts as a full drawdown. -/
  lost : snap.peak ≤ 0 → snap.drawdown = 1

/-- The fields of a tracker whose last observation was `equity` at `tsNs`. -/
structure Remembers (tr : EquityTracker) (h : EquityHistory) (tsNs : ℤ) (equity : Decimal) :
    Prop where
  last : h.last = some (tsNs, equity)
  lastTs : tr.lastTs = some tsNs
  lastEquity : tr.lastEquity = some equity
  day : tr.day = some (utcDayStartNs tsNs)
  peak : ∃ p, tr.peak = some p ∧ IsGreatest {e | e ∈ h.sinceRebase} p
  dayOpen : h.dayOpen (utcDayStartNs tsNs) = some tr.dayOpen
  snapshot : tr.snapshot = some (tr.make tsNs equity)

/-- **The invariant**: nothing has been observed, or the fields follow the history. -/
def Tracks (tr : EquityTracker) (h : EquityHistory) : Prop :=
  (h.last = none ∧ tr = .new) ∨ ∃ tsNs equity, Remembers tr h tsNs equity

/-- A day begins before every time in it. -/
theorem utcDayStartNs_le (tsNs : ℤ) : utcDayStartNs tsNs ≤ tsNs := by
  have hmod := Int.emod_nonneg tsNs (b := nsPerDay) (by decide)
  unfold utcDayStartNs
  omega

/-- Between the start of a day and one of its moments there is no other day. -/
theorem utcDayStartNs_eq {t tsNs : ℤ} (hle : t ≤ tsNs) (hday : utcDayStartNs tsNs ≤ t) :
    utcDayStartNs t = utcDayStartNs tsNs := by
  have hpos : (0 : ℤ) < nsPerDay := by decide
  have hmod := Int.emod_lt_of_pos tsNs hpos
  have hsplit := Int.mul_ediv_add_emod tsNs nsPerDay
  unfold utcDayStartNs at *
  -- both moments lie in the same multiple of a day
  have hrem : t % nsPerDay = t - nsPerDay * (tsNs / nsPerDay) := by
    have hshift := Int.sub_mul_emod_self_left t nsPerDay (tsNs / nsPerDay)
    rw [← hshift]
    exact Int.emod_eq_of_lt (by omega) (by omega)
  omega

namespace Remembers

variable {tr : EquityTracker} {h : EquityHistory} {tsNs : ℤ} {equity : Decimal}

/-- **What the tracker shows is what the history says**: the peak, the drawdown and the loss of the
    day. -/
theorem describes (hf : Remembers tr h tsNs equity) : Describes h (tr.make tsNs equity) := by
  obtain ⟨p, hp, hgreatest⟩ := hf.peak
  have hpeak : (tr.make tsNs equity).peak = p := by simp [EquityTracker.make, hp]
  have hday : (tr.make tsNs equity).dayStartNs = utcDayStartNs tsNs := by
    simp [EquityTracker.make, hf.day]
  refine ⟨hf.last, hpeak ▸ hgreatest, hday, hday ▸ hf.dayOpen, rfl, fun hpos => ?_,
    fun hle => if_neg (not_lt.mpr hle)⟩
  have hdraw : (tr.make tsNs equity).drawdown = 1 - equity / (tr.make tsNs equity).peak := by
    show (if 0 < (tr.make tsNs equity).peak then _ else _) = _
    rw [if_pos hpos]
    rfl
  refine ⟨hdraw, ?_⟩
  -- the last observation is one of those under the peak
  have hle : equity ≤ p := hgreatest.2 (EquityHistory.mem_sinceRebase_last hf.last)
  rw [hdraw, hpeak, sub_nonneg]
  exact div_le_one_of_le₀ hle (hpeak ▸ hpos.le)

/-- **A later observation.** -/
theorem observe (hf : Remembers tr h tsNs equity) {ts : ℤ} (hle : tsNs ≤ ts) (e : Decimal) :
    Remembers (tr.observe ts e) (.update ts e :: h) ts e where
  last := rfl
  lastTs := rfl
  lastEquity := rfl
  day := rfl
  peak := by
    obtain ⟨p, hp, hmem, hub⟩ := hf.peak
    refine ⟨_, rfl, ?_⟩
    rw [EquityHistory.sinceRebase_update]
    unfold EquityTracker.nextPeak
    rw [hp]
    dsimp only
    split
    · rename_i hlt
      refine ⟨List.mem_cons_self, fun x hx => ?_⟩
      rcases List.mem_cons.mp hx with rfl | hx
      · exact le_refl x
      · exact (hub hx).trans hlt.le
    · rename_i hge
      refine ⟨List.mem_cons_of_mem _ hmem, fun x hx => ?_⟩
      rcases List.mem_cons.mp hx with rfl | hx
      · exact not_lt.mp hge
      · exact hub hx
  dayOpen := by
    have hday := utcDayStartNs_le ts
    show _ = some (tr.nextDayOpen (utcDayStartNs ts) e)
    unfold EquityTracker.nextDayOpen
    rw [hf.day]
    dsimp only
    -- a later day: its opening is the last equity before midnight
    split
    · rename_i hne
      have hlt : tsNs < utcDayStartNs ts := by
        by_contra hge
        exact hne (utcDayStartNs_eq hle (not_lt.mp hge)).symm
      rw [hf.lastEquity]
      exact EquityHistory.dayOpen_midnight _ _ _ hf.last hlt hday
    -- the same day: its opening stays
    · rename_i heq
      rw [not_not] at heq
      rw [EquityHistory.dayOpen_later _ _ _ hf.last hday, heq]
      exact hf.dayOpen
  snapshot := rfl

/-- **A rebase.** -/
theorem rebase (hf : Remembers tr h tsNs equity) :
    tr.rebase.1 = tr.rebase.2.snapshot ∧ Remembers tr.rebase.2 (.rebase :: h) tsNs equity := by
  unfold EquityTracker.rebase
  simp only [hf.lastEquity, hf.lastTs]
  refine ⟨trivial, ?_⟩
  exact {
    last := hf.last
    lastTs := rfl
    lastEquity := rfl
    day := hf.day
    peak := ⟨equity, rfl, by simp [hf.last]⟩
    dayOpen := EquityHistory.dayOpen_rebase _ hf.last
    snapshot := rfl }

/-- The first observation. -/
theorem first {h : EquityHistory} (hlast : h.last = none) (ts : ℤ) (e : Decimal) :
    Remembers (EquityTracker.new.observe ts e) (.update ts e :: h) ts e where
  last := rfl
  lastTs := rfl
  lastEquity := rfl
  day := rfl
  peak := by
    refine ⟨e, rfl, ?_⟩
    simp [(EquityHistory.eq_nil_of_last hlast).2.2]
  dayOpen := EquityHistory.dayOpen_first _ _ _ hlast (utcDayStartNs_le ts)
  snapshot := rfl

end Remembers

/-! ### The runs -/

/-- One call of the tracker. -/
def TrackerStep (tr : EquityTracker) (c : TrackerCall)
    (answer : Except PyError (Option EquitySnapshot)) (tr' : EquityTracker) : Prop :=
  tr.call c = (answer, tr')

/-- The log of a run of the tracker. -/
abbrev TrackerLog := List (Entry EquityTracker TrackerCall (Except PyError (Option EquitySnapshot)))

/-- The calls that did not raise, the newest first. -/
def history (log : TrackerLog) : EquityHistory :=
  (log.filterMap fun e =>
    match e.answer with
    | .ok _ => some e.call
    | .error _ => none).reverse

/-- The call is an update with a time before the last one. -/
def TrackerCall.TooEarly (h : EquityHistory) : TrackerCall → Prop
  | .update tsNs _ => ∃ o ∈ h.last, tsNs < o.1
  | .rebase => False

/-- A call enters the history when it returns. -/
theorem history_concat (log : TrackerLog)
    (e : Entry EquityTracker TrackerCall (Except PyError (Option EquitySnapshot))) :
    history (log ++ [e]) =
      match e.answer with
      | .ok _ => e.call :: history log
      | .error _ => history log := by
  unfold history
  cases hans : e.answer <;> simp [hans]

namespace Tracks

variable {tr : EquityTracker} {h : EquityHistory}

/-- **An update** raises and changes nothing, or it is observed. -/
theorem update (ht : Tracks tr h) (tsNs : ℤ) (equity : Decimal) :
    (TrackerCall.TooEarly h (.update tsNs equity) ∧
      ∃ msg, tr.call (.update tsNs equity) = (.error (.valueError msg), tr)) ∨
    (¬TrackerCall.TooEarly h (.update tsNs equity) ∧ ∃ tr',
      tr.call (.update tsNs equity) = (.ok tr'.snapshot, tr') ∧
        Tracks tr' (.update tsNs equity :: h)) := by
  have hcall : tr.call (.update tsNs equity) =
      match tr.update tsNs equity with
      | .error e => (.error e, tr)
      | .ok (snap, tr') => (.ok (some snap), tr') := by
    show (((EquityTracker.updateStmts tsNs equity).run.run tr).1.map some, _) = _
    rw [EquityTracker.updateStmts_update]
    cases tr.update tsNs equity <;> rfl
  rw [hcall]
  unfold EquityTracker.update
  rcases ht with ⟨hlast, rfl⟩ | ⟨ts, e, hf⟩
  -- the first observation is never too early
  · refine .inr ⟨?_, _, rfl, .inr ⟨tsNs, equity, .first hlast tsNs equity⟩⟩
    rintro ⟨o, ho, -⟩
    rw [hlast] at ho
    cases ho
  · by_cases hlt : tsNs < ts
    · have hany : (tr.lastTs.any fun last => tsNs < last) = true := by simp [hf.lastTs, hlt]
      rw [if_pos hany]
      exact .inl ⟨⟨_, hf.last, hlt⟩, _, rfl⟩
    · have hany : ¬(tr.lastTs.any fun last => tsNs < last) = true := by simp [hf.lastTs, hlt]
      rw [if_neg hany]
      refine .inr ⟨?_, _, rfl, .inr ⟨tsNs, equity, hf.observe (not_lt.mp hlt) equity⟩⟩
      rintro ⟨o, ho, hbad⟩
      rw [hf.last] at ho
      cases ho
      exact hlt hbad

/-- **Step lemma**: a rebase. -/
theorem rebase (ht : Tracks tr h) :
    tr.rebase.1 = tr.rebase.2.snapshot ∧ Tracks tr.rebase.2 (.rebase :: h) := by
  rcases ht with ⟨hlast, rfl⟩ | ⟨ts, e, hf⟩
  · exact ⟨rfl, .inl ⟨hlast, rfl⟩⟩
  · exact ⟨hf.rebase.1, .inr ⟨ts, e, hf.rebase.2⟩⟩

/-- **What a call does**, and the history it leaves. -/
theorem call (ht : Tracks tr h) (c : TrackerCall) :
    (c.TooEarly h ∧ ∃ msg, tr.call c = (.error (.valueError msg), tr)) ∨
    (¬c.TooEarly h ∧ ∃ tr', tr.call c = (.ok tr'.snapshot, tr') ∧ Tracks tr' (c :: h)) := by
  match c with
  | .update tsNs equity => exact ht.update tsNs equity
  | .rebase =>
    obtain ⟨hsnap, ht'⟩ := ht.rebase
    exact .inr ⟨not_false, tr.rebase.2, by rw [← hsnap]; rfl, ht'⟩

/-- **Step lemma**: any call. -/
theorem step {log : TrackerLog} {c : TrackerCall} {answer : Except PyError (Option EquitySnapshot)}
    {tr' : EquityTracker} (ht : Tracks tr (history log)) (hs : TrackerStep tr c answer tr') :
    Tracks tr' (history (log ++ [⟨tr, c, answer, tr'⟩])) := by
  rw [history_concat]
  rcases ht.call c with ⟨-, msg, heq⟩ | ⟨-, tr₁, heq, ht'⟩
  · rw [TrackerStep, heq] at hs
    cases hs
    exact ht
  · rw [TrackerStep, heq] at hs
    cases hs
    exact ht'

/-- The snapshot, once something has been observed. -/
theorem snapshot (ht : Tracks tr h) :
    (tr.snapshot = none ∧ h.last = none) ∨ ∃ snap, tr.snapshot = some snap ∧ Describes h snap := by
  rcases ht with ⟨hlast, rfl⟩ | ⟨ts, e, hf⟩
  · exact .inl ⟨rfl, hlast⟩
  · exact .inr ⟨_, hf.snapshot, hf.describes⟩

end Tracks

/-- **The tracker equals its definition.**  After any calls the snapshot is the one that the history
    of the accepted calls describes: the peak is the maximum since the last rebase, the day opened
    with the equity that was carried over midnight or rebased since, and the drawdown is measured
    from the peak.  A call raises exactly when it is an update with an earlier time, and then it
    changes no field; every other call returns the snapshot it leaves. -/
theorem equity_history {tr : EquityTracker} {log : TrackerLog}
    (h : Run TrackerStep EquityTracker.new tr log) :
    ((tr.snapshot = none ∧ (history log).last = none) ∨
      ∃ snap, tr.snapshot = some snap ∧ Describes (history log) snap) ∧
    ∀ pre e post, log = pre ++ e :: post →
      (e.call.TooEarly (history pre) →
        (∃ msg, e.answer = .error (.valueError msg)) ∧ e.after = e.before) ∧
      (¬e.call.TooEarly (history pre) → e.answer = .ok e.after.snapshot) := by
  have hstep : ∀ tr log c answer tr', Tracks tr (history log) → TrackerStep tr c answer tr' →
      Tracks tr' (history (log ++ [⟨tr, c, answer, tr'⟩])) := fun _ _ _ _ _ ht hs => ht.step hs
  have hnew : Tracks EquityTracker.new (history []) := .inl ⟨rfl, rfl⟩
  refine ⟨(Run.invariant (fun tr log => Tracks tr (history log)) hnew hstep h).snapshot, ?_⟩
  intro pre e post hlog
  obtain ⟨hrun, hcall⟩ := h.before_entry hlog
  have ht := Run.invariant (fun tr log => Tracks tr (history log)) hnew hstep hrun
  rcases ht.call e.call with ⟨hearly, msg, heq⟩ | ⟨hnot, tr₁, heq, -⟩
  · rw [TrackerStep, heq, Prod.mk.injEq] at hcall
    exact ⟨fun _ => ⟨⟨msg, hcall.1.symm⟩, hcall.2.symm⟩, fun hnot => absurd hearly hnot⟩
  · rw [TrackerStep, heq, Prod.mk.injEq] at hcall
    refine ⟨fun hearly => absurd hearly hnot, fun _ => ?_⟩
    rw [← hcall.1, ← hcall.2]

/-- Two observations, a rebase, an observation of the next day, one that is too early, and one of
    the day after that. -/
def trackerCalls : List TrackerCall :=
  [.update 10 120, .update 20 100, .rebase, .update 86400000000010 110, .update 5 300,
    .update 172800000000010 105]

/-- The peak is the 110 since the rebase, and the last day opened with it. -/
theorem equity_history_sample :
    let r := exec EquityTracker.call EquityTracker.new trackerCalls
    (r.1.snapshot.map fun snap => (snap.peak, snap.equityDayOpen, snap.drawdown)) =
      some (110, 110, 1 / 22) ∧
    (((r.1.snapshot = none ∧ (history r.2).last = none) ∨
      ∃ snap, r.1.snapshot = some snap ∧ Describes (history r.2) snap) ∧
    ∀ pre e post, r.2 = pre ++ e :: post →
      (e.call.TooEarly (history pre) →
        (∃ msg, e.answer = .error (.valueError msg)) ∧ e.after = e.before) ∧
      (¬e.call.TooEarly (history pre) → e.answer = .ok e.after.snapshot)) :=
  ⟨by decide +kernel, equity_history (Run.exec EquityTracker.call _ trackerCalls)⟩

end FuzzHelm
