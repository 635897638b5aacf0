import Mathlib.Algebra.Order.Ring.Int
import Mathlib.Tactic.Linarith

namespace Lib

/-!
# Ranges and slices of Python

`range(start, stop, step)` and the indices that a slice selects from a sequence of a given length.

* `pyRange` — the numbers of a range; `le_rangeTop` — no number is over the larger of its ends;
* `PySlice.indices` — the range of a slice, its omitted ends filled in and its ends clipped; no
  index is negative (`PySlice.nonneg_of_mem`).
-/

/-- `len(range(start, stop, step))`, for a step other than zero. -/
def rangeLen (start stop step : ℤ) : ℕ :=
  if 0 < step then
    if start < stop then ((stop - start - 1) / step + 1).toNat else 0
  else
    if stop < start then ((start - stop - 1) / -step + 1).toNat else 0

/-- The numbers of `range(start, stop, step)`. -/
def pyRange (start stop step : ℤ) : List ℤ :=
  (List.range (rangeLen start stop step)).map fun k : ℕ => start + k * step

/-- The larger of the two ends of a range, or `-1` when it is empty. -/
def rangeTop (rng : List ℤ) : ℤ :=
  if h : rng = [] then -1 else max (rng.head h) (rng.getLast h)

/-- A range goes up or goes down, so that one of its ends is over all of it. -/
theorem le_rangeTop {start stop step x : ℤ} (h : x ∈ pyRange start stop step) :
    x ≤ rangeTop (pyRange start stop step) := by
  obtain ⟨k, hk, rfl⟩ := List.mem_map.mp h
  rw [List.mem_range] at hk
  have hlen : (pyRange start stop step).length = rangeLen start stop step := by simp [pyRange]
  have hne : pyRange start stop step ≠ [] := List.ne_nil_of_mem h
  have hhead : (pyRange start stop step).head hne = start := by
    rw [List.head_eq_getElem]
    simp [pyRange]
  have hlast : (pyRange start stop step).getLast hne =
      start + (rangeLen start stop step - 1 : ℕ) * step := by
    rw [List.getLast_eq_getElem]
    simp [pyRange]
  rw [rangeTop, dif_neg hne, hhead, hlast]
  have hle : (k : ℤ) ≤ (rangeLen start stop step - 1 : ℕ) := by omega
  rcases le_total 0 step with hstep | hstep
  · exact le_max_of_le_right (by nlinarith)
  · have hk0 : (0 : ℤ) ≤ k := Int.natCast_nonneg k
    exact le_max_of_le_left (by nlinarith)

/-- A range that goes up does not go below its start, and one that goes down stops before its
    stop. -/
theorem le_of_mem_pyRange {start stop step x : ℤ} (h : x ∈ pyRange start stop step) :
    if 0 ≤ step then start ≤ x else stop < x := by
  obtain ⟨k, hk, rfl⟩ := List.mem_map.mp h
  rw [List.mem_range, rangeLen] at hk
  have hk0 : (0 : ℤ) ≤ k := Int.natCast_nonneg k
  split
  · rename_i hstep
    nlinarith
  · rename_i hstep
    rw [if_neg (by omega)] at hk
    split at hk
    · -- the last number is the last multiple of the step before the stop
      have hle : (k : ℤ) ≤ (start - stop - 1) / -step := by omega
      have hmul := (Int.le_ediv_iff_mul_le (by omega)).mp hle
      nlinarith
    · exact absurd hk (Nat.not_lt_zero k)

/-- A slice; an end or a step may be left out. -/
structure PySlice where
  start : Option ℤ
  stop : Option ℤ
  step : Option ℤ
  deriving DecidableEq, Repr

namespace PySlice

/-- One end: counted from the back when it is negative, and clipped. -/
def clip (n lower upper i : ℤ) : ℤ := if i < 0 then max (i + n) lower else min i upper

/-- `range(*s.indices(n))`; a step of zero is refused. -/
def indices (s : PySlice) (n : ℕ) : Option (List ℤ) :=
  let step := s.step.getD 1
  let lower : ℤ := if step < 0 then -1 else 0
  let upper : ℤ := if step < 0 then n - 1 else n
  if step = 0 then none
  else
    let start := s.start.elim (if step < 0 then upper else lower) (clip n lower upper)
    let stop := s.stop.elim (if step < 0 then lower else upper) (clip n lower upper)
    some (pyRange start stop step)

/-- No index of a slice is over the larger of its ends. -/
theorem le_top {s : PySlice} {n : ℕ} {rng : List ℤ} {x : ℤ} (h : s.indices n = some rng)
    (hx : x ∈ rng) : x ≤ rangeTop rng := by
  simp only [indices] at h
  split at h
  · cases h
  · rw [Option.some.injEq] at h
    subst h
    exact le_rangeTop hx

/-- The indices of a slice are not negative. -/
theorem nonneg_of_mem {s : PySlice} {n : ℕ} {rng : List ℤ} {x : ℤ} (h : s.indices n = some rng)
    (hx : x ∈ rng) : 0 ≤ x := by
  -- a clipped end is not below its lower bound
  have hclip (lower upper : ℤ) (h0 : lower ≤ 0) (h : lower ≤ upper) (o : Option ℤ) (other : ℤ)
      (ho : lower ≤ other) : lower ≤ o.elim other (clip n lower upper) := by
    cases o with
    | none => exact ho
    | some i =>
      show lower ≤ clip n lower upper i
      unfold clip
      split <;> omega
  simp only [indices] at h
  split at h
  · cases h
  · rw [Option.some.injEq] at h
    subst h
    have hle := le_of_mem_pyRange hx
    -- a rising range starts at 0 or above, a falling one ends there
    by_cases hstep : 0 ≤ s.step.getD 1
    · rw [if_pos hstep] at hle
      simp only [if_neg (not_lt.mpr hstep)] at hle
      exact (hclip 0 n le_rfl (by omega) s.start 0 le_rfl).trans hle
    · rw [if_neg hstep] at hle
      simp only [if_pos (not_le.mp hstep)] at hle
      have hstop := hclip (-1) (n - 1) (by omega) (by omega) s.stop (-1) le_rfl
      omega

example : (PySlice.mk (some (-1)) none (some (-2))).indices 5 = some [4, 2, 0] := by decide

end PySlice

end Lib
