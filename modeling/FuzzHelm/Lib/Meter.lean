import FuzzHelm.Lib.Run
import Mathlib.Algebra.Order.Field.Basic
import Mathlib.Tactic.Linarith
import Mathlib.Tactic.Ring

namespace Lib

/-!
# Metered draws

A meter holds at most `C`, fills at the rate `ρ` and is drawn from.  A draw may be short: it
takes up to `ε` more than there is, at least one in all, and leaves the meter empty.

* `MeterStep` — one draw, after the meter has filled since the last one;
* `costIn` / `shortIn` — what was drawn in a window of time, and how many draws were short;
* `Run.cost_window` — a window never sees more than `C`, its refill and `ε` per short draw;
* `Run.short_window` — after the first short draw each needs a refill of nearly one.
-/

/-- What the meter holds, and when it was last looked at. -/
structure Meter (K : Type*) where
  level : K
  time : K

/-- What is taken at once, and whether it is more than there is. -/
structure Draw (K : Type*) where
  cost : K
  short : Bool

/-- The log of what was drawn from a meter. -/
abbrev MeterLog (K : Type*) := List (Entry (Meter K) (Draw K) Unit)

section Windows

variable {K : Type*} [LinearOrder K]

/-- The draw falls into the window from `a` to `b`, ends included. -/
def Entry.within (a b : K) (e : Entry (Meter K) (Draw K) Unit) : Prop :=
  a ≤ e.after.time ∧ e.after.time ≤ b

/-- Whether a draw lies within a window can be computed. -/
instance (a b : K) (e : Entry (Meter K) (Draw K) Unit) : Decidable (e.within a b) :=
  inferInstanceAs (Decidable (_ ∧ _))

/-- The short draws of a window. -/
def shortIn (a b : K) (log : MeterLog K) : ℕ :=
  log.countP fun e => decide (e.within a b) && e.call.short

/-- One draw more may be short. -/
theorem shortIn_snoc {a b : K} {log : MeterLog K} {e : Entry (Meter K) (Draw K) Unit} :
    shortIn a b (log ++ [e]) =
      shortIn a b log + if e.within a b ∧ e.call.short = true then 1 else 0 := by
  simp [shortIn, List.countP_append, List.countP_singleton]

variable [Field K]

/-- What was drawn in a window. -/
def costIn (a b : K) (log : MeterLog K) : K :=
  (log.map fun e => if e.within a b then e.call.cost else 0).sum

/-- One draw more has its cost. -/
theorem costIn_snoc {a b : K} {log : MeterLog K} {e : Entry (Meter K) (Draw K) Unit} :
    costIn a b (log ++ [e]) = costIn a b log + if e.within a b then e.call.cost else 0 := by
  simp [costIn]

end Windows

variable {K : Type*} [Field K] [LinearOrder K] [IsStrictOrderedRing K]

/-- One draw: the meter fills to at most its capacity, and then holds what the draw leaves. -/
structure MeterStep (C ρ ε : K) (m : Meter K) (d : Draw K) (_ : Unit) (m' : Meter K) : Prop where
  forward : m.time ≤ m'.time
  range : 0 ≤ m'.level ∧ m'.level ≤ C
  cost_nonneg : 0 ≤ d.cost
  drawn : ∃ filled, filled ≤ C ∧ filled ≤ m.level + ρ * (m'.time - m.time) ∧
    (d.short = false → m'.level + d.cost ≤ filled) ∧
    (d.short = true → m'.level = 0 ∧ 1 ≤ d.cost ∧ d.cost ≤ filled + ε)

/-! ### The potential of a window -/

/-- What the meter has filled by, at the time `t` of a window that begins at `a`. -/
def refillSince (ρ a t : K) : K := ρ * (max t a - a)

/-- The bounds of the window from `a` to `b`.  While it is open the level counts as drawn; once
    it is over the bounds only have to stay. -/
structure Window (C ρ ε a b : K) (m : Meter K) (log : MeterLog K) : Prop where
  range : 0 ≤ m.level ∧ m.level ≤ C
  before : m.time < a → costIn a b log = 0 ∧ shortIn a b log = 0
  cost_open : m.time ≤ b →
    costIn a b log + m.level ≤ C + refillSince ρ a m.time + ε * shortIn a b log
  cost_all : costIn a b log ≤ C + ρ * (b - a) + ε * shortIn a b log
  short_open : m.time ≤ b → shortIn a b log = 0 ∨
    ((shortIn a b log : K) - 1) * (1 - ε) + m.level ≤ refillSince ρ a m.time
  short_all : shortIn a b log = 0 ∨ ((shortIn a b log : K) - 1) * (1 - ε) ≤ ρ * (b - a)

section Step

variable {C ρ ε a b : K} {m m' : Meter K} {log : MeterLog K} {d : Draw K} {u : Unit}

/-- A refill since the start of a window is at most that of the window. -/
theorem refillSince_le (hρ : 0 ≤ ρ) (hab : a ≤ b) {t : K} (ht : t ≤ b) :
    refillSince ρ a t ≤ ρ * (b - a) := by
  apply mul_le_mul_of_nonneg_left _ hρ
  have hmax : max t a ≤ b := max_le ht hab
  linarith

/-- A refill is not negative. -/
theorem refillSince_nonneg (hρ : 0 ≤ ρ) (t : K) : 0 ≤ refillSince ρ a t :=
  mul_nonneg hρ (sub_nonneg.mpr (le_max_right t a))

/-- **A draw within an open window**: the level and the bound grow by the same refill. -/
theorem Window.draw (hρ : 0 ≤ ρ) (hw : Window C ρ ε a b m log)
    (hstep : MeterStep C ρ ε m d u m') (ha : a ≤ m'.time) (hb : m'.time ≤ b) :
    costIn a b log + d.cost + m'.level ≤ C + refillSince ρ a m'.time +
        ε * ((shortIn a b log + if d.short then 1 else 0 : ℕ) : K) ∧
      ((shortIn a b log + if d.short then 1 else 0) = 0 ∨
        (((shortIn a b log + if d.short then 1 else 0 : ℕ) : K) - 1) * (1 - ε) + m'.level ≤
          refillSince ρ a m'.time) := by
  obtain ⟨hforward, -, hnonneg, filled, hC, hfill, hfull, hshort⟩ := hstep
  have hgrow := refillSince_nonneg (a := a) hρ m'.time
  rcases lt_or_ge m.time a with hbefore | hsince
  · -- the first draw of the window: nothing has been taken, and the meter is at most full
    obtain ⟨hcost, hcount⟩ := hw.before hbefore
    rw [hcost, hcount]
    cases hs : d.short with
    | false =>
      have hle := hfull hs
      constructor
      · simp
        linarith
      · simp
    | true =>
      obtain ⟨hzero, -, hle⟩ := hshort hs
      constructor
      · simp
        linarith
      · right
        simp
        linarith
  · have hmb : m.time ≤ b := hforward.trans hb
    have hcost := hw.cost_open hmb
    have hshorts := hw.short_open hmb
    -- what has flowed in since the last draw
    have hsum : refillSince ρ a m'.time =
        refillSince ρ a m.time + ρ * (m'.time - m.time) := by
      rw [refillSince, refillSince, max_eq_left ha, max_eq_left hsince]
      ring
    rw [hsum]
    -- a draw that had enough, or one that fell short by at most the tolerance
    cases hs : d.short with
    | false =>
      have hle := hfull hs
      simp only [Bool.false_eq_true, if_false, add_zero]
      constructor
      · linarith
      · apply hshorts.imp_right
        intro hbound
        linarith
    | true =>
      obtain ⟨hzero, hone, hle⟩ := hshort hs
      simp only [if_true, Nat.cast_add, Nat.cast_one]
      constructor
      · linarith
      · right
        rcases hshorts with hnone | hbound
        · rw [hnone, hzero, Nat.cast_zero]
          linarith [refillSince_nonneg (a := a) hρ m'.time]
        · linarith

/-- A step of the meter keeps the bounds of every window. -/
theorem Window.step (hρ : 0 ≤ ρ) (hab : a ≤ b) (hw : Window C ρ ε a b m log)
    (hstep : MeterStep C ρ ε m d u m') : Window C ρ ε a b m' (log ++ [⟨m, d, u, m'⟩]) := by
  by_cases hin : Entry.within a b (⟨m, d, u, m'⟩ : Entry (Meter K) (Draw K) Unit)
  · obtain ⟨hcost, hshort⟩ := hw.draw hρ hstep hin.1 hin.2
    have hrefill := refillSince_le hρ hab hin.2
    have hlevel := hstep.range.1
    have hcount : shortIn a b (log ++ [⟨m, d, u, m'⟩]) =
        shortIn a b log + if d.short then 1 else 0 := by
      rw [shortIn_snoc]
      simp [hin]
    rw [← hcount] at hcost hshort
    have hcosts : costIn a b (log ++ [⟨m, d, u, m'⟩]) = costIn a b log + d.cost := by
      rw [costIn_snoc, if_pos hin]
    constructor
    case range => exact hstep.range
    case before => exact fun hlt => absurd hin.1 (not_le.mpr hlt)
    case cost_open =>
      intro _
      rw [hcosts]
      exact hcost
    case cost_all =>
      rw [hcosts]
      linarith
    case short_open => exact fun _ => hshort
    case short_all =>
      apply hshort.imp_right
      intro hbound
      linarith
  · have hcosts : costIn a b (log ++ [⟨m, d, u, m'⟩]) = costIn a b log := by
      rw [costIn_snoc, if_neg hin, add_zero]
    have hcount : shortIn a b (log ++ [⟨m, d, u, m'⟩]) = shortIn a b log := by
      rw [shortIn_snoc, if_neg fun h => hin h.1, add_zero]
    -- outside the window: before it nothing has been drawn, after it nothing has to be kept open
    have hside : m'.time ≤ b → m'.time < a := by
      intro hb
      by_contra ha
      exact hin ⟨not_lt.mp ha, hb⟩
    constructor
    case range => exact hstep.range
    case before =>
      intro hlt
      rw [hcosts, hcount]
      exact hw.before (hstep.forward.trans_lt hlt)
    case cost_open =>
      intro hb
      obtain ⟨hnone, hcount0⟩ := hw.before (hstep.forward.trans_lt (hside hb))
      have hgrow := refillSince_nonneg (a := a) hρ m'.time
      rw [hcosts, hcount, hnone, hcount0, Nat.cast_zero]
      linarith [hstep.range.2]
    case cost_all => rw [hcosts, hcount]; exact hw.cost_all
    case short_open =>
      intro hb
      left
      rw [hcount]
      exact (hw.before (hstep.forward.trans_lt (hside hb))).2
    case short_all => rw [hcount]; exact hw.short_all

/-- **Every window of a run** that starts with no more than a full meter is bounded. -/
theorem Run.window (hρ : 0 ≤ ρ) (hab : a ≤ b) {init : Meter K}
    (h0 : 0 ≤ init.level ∧ init.level ≤ C) (h : Run (MeterStep C ρ ε) init m log) :
    Window C ρ ε a b m log := by
  refine h.invariant (Window C ρ ε a b) ?_ fun _ _ _ _ _ hw hs => hw.step hρ hab hs
  have hgrow := mul_nonneg hρ (sub_nonneg.mpr hab)
  have hrefill := refillSince_nonneg (a := a) hρ init.time
  constructor
  case range => exact h0
  case before => exact fun _ => ⟨rfl, rfl⟩
  case cost_open =>
    intro _
    simp [costIn, shortIn]
    linarith
  case cost_all =>
    simp [costIn, shortIn]
    linarith
  case short_open => exact fun _ => .inl rfl
  case short_all => exact .inl rfl

/-- **What a window admits**: the capacity, its refill, and `ε` for each short draw. -/
theorem Run.cost_window (hρ : 0 ≤ ρ) (hab : a ≤ b) {init : Meter K}
    (h0 : 0 ≤ init.level ∧ init.level ≤ C) (h : Run (MeterStep C ρ ε) init m log) :
    costIn a b log ≤ C + ρ * (b - a) + ε * shortIn a b log :=
  (h.window hρ hab h0).cost_all

/-- **Short draws are rare**: every one but the first of a window waits for a refill of at least
    `1 - ε`. -/
theorem Run.short_window (hρ : 0 ≤ ρ) (hab : a ≤ b) {init : Meter K}
    (h0 : 0 ≤ init.level ∧ init.level ≤ C) (h : Run (MeterStep C ρ ε) init m log) :
    shortIn a b log = 0 ∨ ((shortIn a b log : K) - 1) * (1 - ε) ≤ ρ * (b - a) :=
  (h.window hρ hab h0).short_all

end Step

end Lib
