import FuzzHelm.Lib.Run
import FuzzHelm.Sizing.Hysteresis
import Mathlib.Algebra.BigOperators.Group.List.Basic
import Mathlib.Algebra.Order.Field.Basic
import Mathlib.Tactic.Linarith

namespace FuzzHelm

open Lib

/-!
# How often the gate switches

Two changes can be caused by signals that are as close as one likes: a long is left just above
`-enter` and a short entered just below.  Over a run the changes are paid for by the path of the
signals, a change for each `enter - exit` of it.

* `HysteresisGate.prepaid` — what the signal has already travelled towards the next change;
* `update_prepaid` — what one signal travels pays for its change;
* `run_prepaid` — and so does the path of a run;
* `update_mirror` — the gate on negated signals.
-/

/-- The path of the signals, `Σ |u_{t+1} - u_t|`. -/
def variation : List ℚ → ℚ
  | u :: v :: us => |v - u| + variation (v :: us)
  | _ => 0

/-- The other side of the market. -/
def Side.mirror : Side → Side
  | .short => .long
  | .flat => .flat
  | .long => .short

namespace HysteresisGate

/-- The gate after some signals. -/
def run (g : HysteresisGate) (us : List ℚ) : HysteresisGate :=
  us.foldl (fun g u => (g.update u).2) g

/-- The answers of a run leave the gate of the run. -/
theorem exec_eq_run (g : HysteresisGate) (us : List ℚ) : (exec update g us).1 = g.run us := by
  have key (log : List (Entry HysteresisGate ℚ Side)) :
      (execFrom update g log us).1 = g.run us := by
    induction us generalizing g log with
    | nil => rfl
    | cons u us ih => exact ih _ _
  exact key []

/-! ### The path pays for the changes -/

/-- What the last signal `u` has travelled towards the next change. -/
def prepaid (g : HysteresisGate) (u : ℚ) : ℚ :=
  match g.side with
  | .flat => max 0 (|u| - g.exit)
  | .long => max 0 (g.enter - u)
  | .short => max 0 (g.enter + u)

variable {g : HysteresisGate} {u v : ℚ}

/-- What a position has paid for its next flip is not negative. -/
theorem prepaid_nonneg (g : HysteresisGate) (u : ℚ) : 0 ≤ g.prepaid u := by
  unfold prepaid
  cases g.side with
  | flat => exact le_max_left _ _
  | long => exact le_max_left _ _
  | short => exact le_max_left _ _

/-- An update keeps the upper level. -/
@[simp] theorem update_enter : (g.update u).2.enter = g.enter := rfl

/-- An update keeps the lower level. -/
@[simp] theorem update_exit : (g.update u).2.exit = g.exit := rfl

/-- An update moves the gate to its next side. -/
@[simp] theorem update_side_eq : (g.update u).2.side = g.next u := rfl

/-- A signal that leaves the gate flat is below the threshold. -/
theorem abs_lt_enter (hflat : g.side = .flat) (hstays : g.next u = .flat) : |u| < g.enter := by
  unfold next at hstays
  rw [hflat] at hstays
  dsimp only at hstays
  split_ifs at hstays with hlong hshort
  exact abs_lt.mpr ⟨not_le.mp hshort, not_le.mp hlong⟩

/-- A side is entered only at the threshold, where nothing is prepaid. -/
theorem update_entered (g : HysteresisGate) (u : ℚ) (hne : g.next u ≠ g.side)
    (hside : g.next u ≠ .flat) : (g.update u).2.prepaid u = 0 := by
  obtain ⟨hlong, hshort⟩ := g.update_side u
  unfold prepaid
  rw [update_side_eq, update_enter]
  cases hnext : g.next u with
  | flat => exact absurd hnext hside
  | long =>
    have hu := (hlong hnext).2 fun h => hne (hnext.trans h.symm)
    exact max_eq_left (by linarith)
  | short =>
    have hu := (hshort hnext).2 fun h => hne (hnext.trans h.symm)
    exact max_eq_left (by linarith)

/-- While the side stays, what is prepaid grows by no more than the signal travels. -/
theorem prepaid_lipschitz (g : HysteresisGate) (u v : ℚ) :
    g.prepaid v ≤ g.prepaid u + |v - u| := by
  have habs := abs_nonneg (v - u)
  unfold prepaid
  -- each side prepays the distance to its next threshold
  cases g.side with
  | flat =>
    have htriangle : |v| ≤ |u| + |v - u| := by
      have := abs_add_le u (v - u)
      rwa [add_sub_cancel] at this
    apply max_le
    · linarith [le_max_left 0 (|u| - g.exit)]
    · linarith [le_max_right 0 (|u| - g.exit)]
  | long =>
    have hdown := neg_abs_le (v - u)
    apply max_le
    · linarith [le_max_left 0 (g.enter - u)]
    · linarith [le_max_right 0 (g.enter - u)]
  | short =>
    have hup := le_abs_self (v - u)
    apply max_le
    · linarith [le_max_left 0 (g.enter + u)]
    · linarith [le_max_right 0 (g.enter + u)]

/-- A long side that is left: the signal has come below the exit threshold. -/
theorem leaving_paid (g : HysteresisGate) {u v : ℚ} (hbelow : v < g.exit) :
    (g.enter - g.exit) + max 0 (|v| - g.exit) ≤ max 0 (g.enter - u) + |v - u| := by
  have hexit := g.exit_nonneg
  have hpre := le_max_right 0 (g.enter - u)
  have hdown := neg_abs_le (v - u)
  rcases max_cases 0 (|v| - g.exit) with ⟨hmax, -⟩ | ⟨hmax, -⟩
  · rw [hmax]
    linarith
  · rw [hmax]
    rcases abs_cases v with ⟨hv, -⟩ | ⟨hv, -⟩
    · linarith
    · linarith

/-- **A change is paid for**: by what was prepaid and by what the signal travels. -/
theorem change_paid (u : ℚ) (hne : g.next v ≠ g.side) :
    (g.enter - g.exit) + (g.update v).2.prepaid v ≤ g.prepaid u + |v - u| := by
  have hband := g.exit_le
  have hexit := g.exit_nonneg
  have hup := le_abs_self (v - u)
  have hdown := neg_abs_le (v - u)
  cases hnext : g.next v with
  | flat =>
    have hexits : (g.update v).2.prepaid v = max 0 (|v| - g.exit) := by
      unfold prepaid
      rw [update_side_eq, hnext, update_exit]
    rw [hexits]
    have hleft : g.side ≠ .flat := fun hs => hne (hnext.trans hs.symm)
    unfold next at hnext
    unfold prepaid
    cases hs : g.side with
    | flat => exact absurd hs hleft
    | long =>
      rw [hs] at hnext
      dsimp only at hnext ⊢
      split_ifs at hnext with hrev hbelow
      exact g.leaving_paid hbelow
    | short =>
      rw [hs] at hnext
      dsimp only at hnext ⊢
      split_ifs at hnext with hrev habove
      -- the mirror of the long side
      have hmirror := g.leaving_paid (u := -u) (neg_lt.mp habove)
      rwa [abs_neg, sub_neg_eq_add, ← neg_sub', abs_neg] at hmirror
  -- a side is entered: from flat the band is prepaid, from the other side twice that
  | long =>
    rw [update_entered g v hne (by rw [hnext]; decide), add_zero]
    have hv := ((g.update_side v).1 hnext).2 fun hs => hne (hnext.trans hs.symm)
    unfold prepaid
    cases hs : g.side with
    | flat =>
      have hpre := le_max_right 0 (|u| - g.exit)
      have hu := le_abs_self u
      dsimp only
      linarith
    | long => exact absurd (hnext.trans hs.symm) hne
    | short =>
      have hpre := le_max_right 0 (g.enter + u)
      dsimp only
      linarith
  | short =>
    rw [update_entered g v hne (by rw [hnext]; decide), add_zero]
    have hv := ((g.update_side v).2 hnext).2 fun hs => hne (hnext.trans hs.symm)
    unfold prepaid
    cases hs : g.side with
    | flat =>
      have hpre := le_max_right 0 (|u| - g.exit)
      have hu := neg_abs_le u
      dsimp only
      linarith
    | long =>
      have hpre := le_max_right 0 (g.enter - u)
      dsimp only
      linarith
    | short => exact absurd (hnext.trans hs.symm) hne

/-- **One signal.** -/
theorem update_prepaid (g : HysteresisGate) (u v : ℚ) :
    (g.update v).2.flips * (g.enter - g.exit) + (g.update v).2.prepaid v ≤
      g.flips * (g.enter - g.exit) + g.prepaid u + |v - u| := by
  by_cases hne : g.next v = g.side
  · have hflips : (g.update v).2.flips = g.flips := if_pos hne
    have hprepaid : (g.update v).2.prepaid v = g.prepaid v := by
      unfold prepaid
      rw [update_side_eq, hne, update_enter, update_exit]
    rw [hflips, hprepaid]
    linarith [prepaid_lipschitz g u v]
  · have hflips : (g.update v).2.flips = g.flips + 1 := if_neg hne
    rw [hflips]
    push_cast
    linarith [change_paid u hne]

/-- **A run of signals.** -/
theorem run_prepaid (g : HysteresisGate) (u : ℚ) (us : List ℚ) :
    (g.run us).flips * (g.enter - g.exit) ≤
      g.flips * (g.enter - g.exit) + g.prepaid u + variation (u :: us) := by
  induction us generalizing g u with
  | nil =>
    show g.flips * (g.enter - g.exit) ≤ _ + 0
    linarith [prepaid_nonneg g u]
  | cons v us ih =>
    have hstep := update_prepaid g u v
    have hrest := ih (g.update v).2 v
    rw [update_enter, update_exit] at hrest
    have hrun : g.run (v :: us) = (g.update v).2.run us := rfl
    rw [hrun]
    show _ ≤ _ + (|v - u| + variation (v :: us))
    linarith

/-- The first signal changes the side at most once. -/
theorem first_prepaid (hflat : g.side = .flat) (hband : g.exit < g.enter) (u : ℚ) :
    (g.update u).2.flips * (g.enter - g.exit) + (g.update u).2.prepaid u ≤
      g.flips * (g.enter - g.exit) + (g.enter - g.exit) := by
  by_cases hne : g.next u = g.side
  · have hflips : (g.update u).2.flips = g.flips := if_pos hne
    have hbelow := abs_lt_enter hflat (hne.trans hflat)
    unfold prepaid
    rw [hflips, update_side_eq, hne, hflat]
    dsimp only
    rw [update_exit]
    have hmax : max 0 (|u| - g.exit) ≤ g.enter - g.exit := max_le (by linarith) (by linarith)
    linarith
  · have hflips : (g.update u).2.flips = g.flips + 1 := if_neg hne
    rw [update_entered g u hne fun h => hne (h.trans hflat.symm), hflips]
    push_cast
    linarith

/-! ### Negated signals -/

/-- The gate on the other side. -/
def mirror (g : HysteresisGate) : HysteresisGate := { g with side := g.side.mirror }

/-- The mirrored gate, at the mirrored value, goes to the mirrored side. -/
theorem next_mirror (hpos : 0 < g.enter) (u : ℚ) : g.mirror.next (-u) = (g.next u).mirror := by
  have hexit := g.exit_nonneg
  unfold next mirror
  cases g.side with
  | flat =>
    dsimp only [Side.mirror]
    split_ifs <;> first | rfl | (exfalso; linarith)
  | long =>
    dsimp only [Side.mirror]
    split_ifs <;> first | rfl | (exfalso; linarith)
  | short =>
    dsimp only [Side.mirror]
    split_ifs <;> first | rfl | (exfalso; linarith)

/-- The mirrored gate answers the mirrored side. -/
theorem update_mirror (hpos : 0 < g.enter) (u : ℚ) :
    g.mirror.update (-u) = ((g.update u).1.mirror, (g.update u).2.mirror) := by
  have hnext := next_mirror hpos u
  have hsame : (g.next u).mirror = g.side.mirror ↔ g.next u = g.side := by
    cases g.next u <;> cases g.side <;> decide
  unfold update
  rw [hnext]
  simp only [mirror, hsame]

/-- **Run lemma**: the mirrored gate, over mirrored values. -/
theorem exec_mirror (hpos : 0 < g.enter) (us : List ℚ)
    (log log' : List (Entry HysteresisGate ℚ Side))
    (hlog : log'.map Entry.answer = (log.map Entry.answer).map Side.mirror) :
    (execFrom HysteresisGate.update g.mirror log' (us.map Neg.neg)).1 =
        (execFrom HysteresisGate.update g log us).1.mirror ∧
      (execFrom HysteresisGate.update g.mirror log' (us.map Neg.neg)).2.map Entry.answer =
        ((execFrom HysteresisGate.update g log us).2.map Entry.answer).map Side.mirror := by
  induction us generalizing g log log' with
  | nil => exact ⟨rfl, hlog⟩
  | cons u us ih =>
    rw [List.map_cons, execFrom, execFrom, update_mirror hpos]
    apply ih (g := (g.update u).2) hpos
    simp [hlog]

end HysteresisGate

/-! ### A run from flat -/

/-- In every entry of a run the thresholds are those of its start. -/
theorem HysteresisGate.exec_entry (g : HysteresisGate) {us : List ℚ}
    {e : Entry HysteresisGate ℚ Side} (he : e ∈ (exec HysteresisGate.update g us).2) :
    e.before.enter = g.enter ∧ HysteresisGate.update e.before e.call = (e.answer, e.after) := by
  obtain ⟨pre, post, hlog⟩ := List.append_of_mem he
  obtain ⟨hrun, hcall⟩ := (Run.exec HysteresisGate.update g us).before_entry hlog
  refine ⟨?_, hcall⟩
  refine hrun.invariant (fun s _ => s.enter = g.enter) rfl ?_
  intro s log u side s' hs hstep
  have hafter : (s.update u).2 = s' := congrArg Prod.snd hstep
  rw [← hs, ← hafter, HysteresisGate.update_enter]

/-- **The switches are bounded by the variation.**  From a flat gate without flips, over any values,
    there are at most one flip and the variation divided by the width of the band; a side is entered
    at the upper level alone, and the mirrored values give the mirrored sides. -/
theorem switching_bound (g : HysteresisGate) (hflat : g.side = .flat) (hflips : g.flips = 0)
    (hband : g.exit < g.enter) (us : List ℚ) :
    ((exec HysteresisGate.update g us).1.flips : ℚ) ≤ 1 + variation us / (g.enter - g.exit) ∧
      (∀ e ∈ (exec HysteresisGate.update g us).2,
        (e.answer = .long → e.before.side ≠ .long → g.enter ≤ e.call) ∧
        (e.answer = .short → e.before.side ≠ .short → e.call ≤ -g.enter)) ∧
      (exec HysteresisGate.update g (us.map Neg.neg)).2.map Entry.answer =
        ((exec HysteresisGate.update g us).2.map Entry.answer).map Side.mirror ∧
      (exec HysteresisGate.update g (us.map Neg.neg)).1.flips =
        (exec HysteresisGate.update g us).1.flips := by
  have hpos : 0 < g.enter := g.exit_nonneg.trans_lt hband
  have hwidth : 0 < g.enter - g.exit := sub_pos.mpr hband
  -- a flat gate is its own mirror image, so the mirrored calls start from it
  have hmirror : g.mirror = g := by
    unfold HysteresisGate.mirror
    rw [hflat]
    show { g with side := Side.flat } = g
    rw [← hflat]
  obtain ⟨hstate, hanswers⟩ := HysteresisGate.exec_mirror hpos us [] [] rfl
  rw [hmirror] at hstate hanswers
  have hflips' : (exec HysteresisGate.update g (us.map Neg.neg)).1.flips =
      (exec HysteresisGate.update g us).1.mirror.flips := congrArg HysteresisGate.flips hstate
  refine ⟨?_, ?_, hanswers, hflips'⟩
  · rw [HysteresisGate.exec_eq_run]
    cases us with
    | nil =>
      show (g.flips : ℚ) ≤ 1 + 0 / _
      rw [hflips]
      simp
    | cons u us =>
      have hfirst := HysteresisGate.first_prepaid hflat hband u
      have hrest := HysteresisGate.run_prepaid (g.update u).2 u us
      have hrun : g.run (u :: us) = (g.update u).2.run us := rfl
      rw [HysteresisGate.update_enter, HysteresisGate.update_exit, ← hrun] at hrest
      rw [hflips] at hfirst
      push_cast at hfirst
      rw [← sub_le_iff_le_add', le_div_iff₀ hwidth]
      linarith
  -- a side is entered only by a call beyond the entry threshold
  · intro e he
    obtain ⟨henter, hcall⟩ := g.exec_entry he
    obtain ⟨hlong, hshort⟩ := e.before.update_side e.call
    rw [henter, hcall] at hlong hshort
    exact ⟨fun h => (hlong h).2, fun h => (hshort h).2⟩

/-- The default thresholds: a long, left and turned round by two signals close to each other. -/
theorem switching_bound_turned :
    ((exec HysteresisGate.update ⟨1 / 4, 3 / 25, .flat, 0, by norm_num, by norm_num, by norm_num⟩
      [1 / 4, -6 / 25, -1 / 4]).1.flips : ℚ) = 3 ∧
    ((exec HysteresisGate.update ⟨1 / 4, 3 / 25, .flat, 0, by norm_num, by norm_num, by norm_num⟩
      [1 / 4, -6 / 25, -1 / 4]).1.flips : ℚ) ≤
        1 + variation [1 / 4, -6 / 25, -1 / 4] / (1 / 4 - 3 / 25) :=
  ⟨by decide +kernel,
    (switching_bound ⟨1 / 4, 3 / 25, .flat, 0, by norm_num, by norm_num, by norm_num⟩ rfl rfl
      (by norm_num) [1 / 4, -6 / 25, -1 / 4]).1⟩

end FuzzHelm
