import FuzzHelm.Features.Trackers
import Mathlib.Data.Rat.Defs

namespace FuzzHelm

open Lib

/-!
# Order statistics of a window

The two deques pop at both ends, yet their front is the extremum of the window after every value.
The percentile rank keeps its window twice, and the two copies stay in step whatever ties there
are.

* `MonotonicDeque.after` — a deque after a sequence of values;
* `update_extremum` — after every value the front is the maximum of the window;
* `deque_extrema` — what the deques of the maximum and of the minimum keep and answer;
* `PercentileRank.after`, `percentile_rank` — what the rank keeps and answers.
-/

/-! ### Extrema -/

namespace MonotonicDeque

section Order

variable {α : Type*} [LinearOrder α]

/-- A deque after some values. -/
def after (d : MonotonicDeque α) (xs : List α) : MonotonicDeque α :=
  xs.foldl (fun d x => (d.update x).2) d

/-- The value at the front. -/
def front (d : MonotonicDeque α) : Option α := d.entries.head?.map Prod.snd

variable {n : ℕ} {d : MonotonicDeque α} {xs : List α}

/-- One more value is one more update. -/
theorem after_concat (d : MonotonicDeque α) (xs : List α) (x : α) :
    d.after (xs ++ [x]) = ((d.after xs).update x).2 := by
  rw [after, List.foldl_append]
  rfl

/-- **Run lemma**: the deque tracks the values from the start on. -/
theorem Tracks.after (h : MonotonicDeque.new n = .ok d) (xs : List α) :
    Tracks n (d.after xs) xs := by
  induction xs using List.reverseRecOn with
  | nil => exact .new h
  | append_singleton xs x ih =>
    rw [after_concat]
    exact ih.update x

/-- **After every value** the front is the maximum of the window, and it is answered once the
    window is full. -/
theorem update_extremum (h : MonotonicDeque.new n = .ok d) (xs : List α) (x : α) :
    ((d.after xs).update x).1 =
        (if n ≤ xs.length + 1 then ((xs ++ [x]).rtake n).max? else none) ∧
      ((d.after xs).update x).2.front = ((xs ++ [x]).rtake n).max? := by
  have htracks := (Tracks.after h xs).update x
  refine ⟨?_, htracks.first⟩
  have hvalue := htracks.value
  rwa [length_concat] at hvalue

end Order

end MonotonicDeque

section Extrema

variable {K : Type*} [LinearOrder K]

/-- The minimum is the maximum in the order turned round. -/
theorem max?_toDual (xs : List K) :
    (xs.map OrderDual.toDual).max? = xs.min?.map OrderDual.toDual := by
  cases hmin : xs.min? with
  | none =>
    rw [List.min?_eq_none_iff] at hmin
    subst hmin
    rfl
  | some m =>
    obtain ⟨hmem, hle⟩ := List.min?_eq_some_iff.mp hmin
    rw [Option.map_some, List.max?_eq_some_iff]
    refine ⟨List.mem_map_of_mem hmem, ?_⟩
    intro y hy
    obtain ⟨x, hx, rfl⟩ := List.mem_map.mp hy
    exact hle x hx

/-- **Both extrema.**  After every push the fronts are the maximum and the minimum of the last `n`
    values, ties and evictions included. -/
theorem deque_extrema {n : ℕ} {dmax : MonotonicDequeMax K} {dmin : MonotonicDequeMin K}
    (hmax : MonotonicDeque.new n = .ok dmax) (hmin : MonotonicDeque.new n = .ok dmin)
    (xs : List K) (x : K) :
    (((dmax.after xs).update x).2.front = ((xs ++ [x]).rtake n).max? ∧
      ((dmax.after xs).update x).1 =
        if n ≤ xs.length + 1 then ((xs ++ [x]).rtake n).max? else none) ∧
    (((dmin.after (xs.map OrderDual.toDual)).update (OrderDual.toDual x)).2.front =
        ((xs ++ [x]).rtake n).min?.map OrderDual.toDual ∧
      ((dmin.after (xs.map OrderDual.toDual)).update (OrderDual.toDual x)).1 =
        if n ≤ xs.length + 1 then ((xs ++ [x]).rtake n).min?.map OrderDual.toDual else none) := by
  obtain ⟨hanswer, hfront⟩ := MonotonicDeque.update_extremum hmax xs x
  obtain ⟨hanswer', hfront'⟩ := MonotonicDeque.update_extremum hmin
    (xs.map OrderDual.toDual) (OrderDual.toDual x)
  have hwindow : ((xs.map OrderDual.toDual) ++ [OrderDual.toDual x]).rtake n =
      ((xs ++ [x]).rtake n).map OrderDual.toDual := by
    rw [← rtake_map, List.map_append, List.map_singleton]
  rw [hwindow, max?_toDual] at hanswer' hfront'
  rw [List.length_map] at hanswer'
  exact ⟨⟨hfront, hanswer⟩, hfront', hanswer'⟩

end Extrema

/-- The window of the last two of three values, with a tie. -/
theorem deque_extrema_tied : ∃ (dmax : MonotonicDequeMax ℚ) (dmin : MonotonicDequeMin ℚ),
    MonotonicDeque.new 2 = .ok dmax ∧ MonotonicDeque.new 2 = .ok dmin ∧
      ((dmax.after [7, 3]).update 3).1 = some 3 ∧
      ((dmin.after [OrderDual.toDual 7, OrderDual.toDual 3]).update (OrderDual.toDual 3)).1 =
        some (OrderDual.toDual 3) := by
  have hmax : MonotonicDeque.new 2 = .ok (⟨2, [], 0⟩ : MonotonicDequeMax ℚ) := rfl
  have hmin : MonotonicDeque.new 2 = .ok (⟨2, [], 0⟩ : MonotonicDequeMin ℚ) := rfl
  have h := deque_extrema hmax hmin [7, 3] 3
  exact ⟨_, _, hmax, hmin, h.1.2, h.2.2⟩

/-- **No answer yet.**  A window of two has none after one value. -/
theorem short_window_unanswered : ¬∀ (n : ℕ) (d : MonotonicDequeMax ℚ),
    MonotonicDeque.new n = .ok d → ∀ (xs : List ℚ) (x : ℚ),
      ((d.after xs).update x).1 = ((xs ++ [x]).rtake n).max? := by
  intro h
  have hone := h 2 ⟨2, [], 0⟩ rfl [] 5
  cases hone

/-! ### The rank of the last value -/

section Rank

variable {α : Type*} [Preorder α] [DecidableLT α] [NatCast α] [Div α]

namespace PercentileRank

/-- A rank after some values. -/
def after (p : PercentileRank α) (xs : List α) : PercentileRank α :=
  xs.foldl (fun p x => (p.update x).2) p

/-- One more value is one more update. -/
theorem after_concat (p : PercentileRank α) (xs : List α) (x : α) :
    p.after (xs ++ [x]) = ((p.after xs).update x).2 := by
  rw [after, List.foldl_append]
  rfl

variable [Std.Total (α := α) (· ≤ ·)] [DecidableLE α]

/-- **Run lemma**: the rank tracks the values from the start on. -/
theorem Tracks.after {n : ℕ} {p : PercentileRank α} (h : PercentileRank.new n = .ok p)
    (xs : List α) : Tracks n (p.after xs) xs := by
  induction xs using List.reverseRecOn with
  | nil => exact .new h
  | append_singleton xs x ih =>
    rw [after_concat]
    exact (ih.update x).1

end PercentileRank

variable [Std.Total (α := α) (· ≤ ·)] [DecidableLE α]

/-- **The percentile rank.**  After any values the queue holds the last `n` of them, and the sorted
    list is the queue in order, with equal values as they have come.  Once the window is full every
    further value is answered with the share of the window up to it. -/
theorem percentile_rank {n : ℕ} {p : PercentileRank α} (h : PercentileRank.new n = .ok p)
    (xs : List α) :
    ((p.after xs).fifo = xs.rtake n ∧ (p.after xs).sorted.Pairwise (· ≤ ·) ∧
      (p.after xs).sorted.Perm (p.after xs).fifo ∧
      (p.after xs).sorted = (p.after xs).fifo.insertionSort (· ≤ ·)) ∧
    ∀ x, ((p.after xs).update x).1 =
      if n ≤ xs.length + 1 then some (PercentileRank.shareUpTo ((xs ++ [x]).rtake n) x)
      else none := by
  have htracks := PercentileRank.Tracks.after h xs
  refine ⟨⟨htracks.fifo, ?_, ?_, htracks.sorted⟩, fun x => (htracks.update x).2⟩
  · rw [htracks.sorted]
    exact List.pairwise_insertionSort _ _
  · rw [htracks.sorted]
    exact List.perm_insertionSort _ _

end Rank

/-- A window of three, with ties among the values that stay and those that leave. -/
theorem percentile_rank_tied : ∃ p : PercentileRank ℚ, PercentileRank.new 3 = .ok p ∧
    (p.after [2, 1, 2, 2]).fifo = [1, 2, 2] ∧ (p.after [2, 1, 2, 2]).sorted = [1, 2, 2] ∧
      ((p.after [2, 1, 2, 2]).update 1).1 = some (1 / 3) := by
  have hnew : PercentileRank.new 3 = .ok (⟨3, [], [], none⟩ : PercentileRank ℚ) := rfl
  obtain ⟨⟨hfifo, -, -, hsorted⟩, hrank⟩ := percentile_rank hnew [2, 1, 2, 2]
  rw [hfifo] at hsorted
  refine ⟨_, hnew, hfifo, hsorted.trans ?_, (hrank 1).trans ?_⟩
  · decide +kernel
  · decide +kernel

end FuzzHelm
