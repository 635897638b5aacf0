import Mathlib.Data.List.Sort
import Mathlib.Tactic.Common

namespace Lib

/-!
# Bisection of a sorted list

A search by halves finds where the elements that satisfy a predicate end, if they stand in front
of the others.  In a sorted list these are the elements below a value, or those that are not above
it: one border is where a value is taken out, the other one where it is put in, and the two keep
equal elements in the order in which they came.

* `bisect`, `bisectLeft`, `bisectRight`, `insort` — the searches, and insertion on the right;
* `Leading` — the elements that satisfy a predicate come first; `Leading.bisect_eq` — their number
  is what the search finds;
* `insort_insertionSort` — insertion on the right is the stable sort with one element more at the
  end;
* `eraseIdx_bisectLeft` — the element on the left border is the first of those that were sorted.
-/

/-! ### The search -/

section Search

variable {α : Type*} {p : α → Bool} {xs : List α}

/-- The loop of the search: the middle of `[lo, hi)` decides which half is given up. -/
def bisectLoop (p : α → Bool) (xs : List α) (lo hi : ℕ) : ℕ :=
  if lo < hi then
    let mid := (lo + hi) / 2
    if xs[mid]?.any p then bisectLoop p xs (mid + 1) hi else bisectLoop p xs lo mid
  else lo
termination_by hi - lo

/-- Where the elements that satisfy `p` end. -/
def bisect (p : α → Bool) (xs : List α) : ℕ := bisectLoop p xs 0 xs.length

/-- The elements that satisfy `p` come before all others. -/
def Leading (p : α → Bool) (xs : List α) : Prop :=
  xs.Pairwise fun y z => p z = true → p y = true

/-- Whether an element satisfies `p` is told by its position. -/
theorem Leading.getElem?_any (h : Leading p xs) (i : ℕ) :
    xs[i]?.any p = decide (i < xs.countP p) := by
  -- by induction: the elements that satisfy `p` stand first
  induction xs generalizing i with
  | nil => simp
  | cons y ys ih =>
    obtain ⟨hy, hys⟩ := List.pairwise_cons.mp h
    by_cases hp : p y = true
    · rw [List.countP_cons_of_pos hp]
      cases i with
      | zero => simp [hp]
      | succ i =>
        rw [List.getElem?_cons_succ, ih hys]
        simp
    · -- the first element does not satisfy `p`, so no other does
      have hnone : ys.countP p = 0 :=
        List.countP_eq_zero.mpr fun z hz hpz => hp (hy z hz hpz)
      rw [List.countP_cons_of_neg hp, hnone]
      cases i with
      | zero => simpa using hp
      | succ i =>
        rw [List.getElem?_cons_succ, ih hys, hnone]
        simp

/-- What leads is what is counted. -/
theorem Leading.length_takeWhile (h : Leading p xs) :
    (xs.takeWhile p).length = xs.countP p := by
  induction xs with
  | nil => rfl
  | cons y ys ih =>
    obtain ⟨hy, hys⟩ := List.pairwise_cons.mp h
    by_cases hp : p y = true
    · rw [List.takeWhile_cons_of_pos hp, List.countP_cons_of_pos hp, List.length_cons, ih hys]
    · have hnone : ys.countP p = 0 :=
        List.countP_eq_zero.mpr fun z hz hpz => hp (hy z hz hpz)
      rw [List.takeWhile_cons_of_neg hp, List.countP_cons_of_neg hp, hnone, List.length_nil]

/-- While the border lies between `lo` and `hi`, the loop closes in on it. -/
theorem Leading.bisectLoop_eq (h : Leading p xs) {lo hi : ℕ} (hlo : lo ≤ xs.countP p)
    (hhi : xs.countP p ≤ hi) : bisectLoop p xs lo hi = xs.countP p := by
  induction lo, hi using bisectLoop.induct p xs with
  | case1 lo hi hlt mid hmid ih =>
    rw [h.getElem?_any, decide_eq_true_iff] at hmid
    rw [bisectLoop, if_pos hlt]
    simp only [h.getElem?_any, decide_eq_true_iff]
    rw [if_pos hmid]
    exact ih hmid hhi
  | case2 lo hi hlt mid hmid ih =>
    rw [h.getElem?_any, decide_eq_true_iff, not_lt] at hmid
    rw [bisectLoop, if_pos hlt]
    simp only [h.getElem?_any, decide_eq_true_iff]
    rw [if_neg (not_lt.mpr hmid)]
    exact ih hlo hmid
  | case3 lo hi hge =>
    rw [bisectLoop, if_neg hge]
    omega

/-- **The search finds the border.** -/
theorem Leading.bisect_eq (h : Leading p xs) : bisect p xs = xs.countP p :=
  h.bisectLoop_eq (Nat.zero_le _) List.countP_le_length

end Search

/-! ### The two borders of a value -/

section Borders

variable {α : Type*} [LT α] [DecidableLT α]

/-- `bisect_left`: where the elements below `x` end. -/
def bisectLeft (xs : List α) (x : α) : ℕ := bisect (fun y => decide (y < x)) xs

/-- `bisect_right`: where the elements end that `x` is not below. -/
def bisectRight (xs : List α) (x : α) : ℕ := bisect (fun y => !decide (x < y)) xs

/-- `insort`: insertion on the right border. -/
def insort (xs : List α) (x : α) : List α := xs.insertIdx (bisectRight xs x) x

end Borders

section Preorder

variable {α : Type*} [Preorder α] [DecidableLT α] {xs : List α}

/-- In an ascending list what is smaller leads. -/
theorem leading_lt (h : xs.Pairwise (· ≤ ·)) (x : α) :
    Leading (fun y => decide (y < x)) xs :=
  h.imp fun hyz hz => decide_eq_true (hyz.trans_lt (of_decide_eq_true hz))

/-- In an ascending list what is not greater leads. -/
theorem leading_not_gt (h : xs.Pairwise (· ≤ ·)) (x : α) :
    Leading (fun y => !decide (x < y)) xs := by
  refine h.imp fun hyz hz => ?_
  simp only [Bool.not_eq_true', decide_eq_false_iff_not] at hz ⊢
  exact fun hxy => hz (hxy.trans_le hyz)

/-- From the left the place is behind everything smaller. -/
theorem bisectLeft_eq (h : xs.Pairwise (· ≤ ·)) (x : α) :
    bisectLeft xs x = (xs.takeWhile fun y => decide (y < x)).length := by
  rw [bisectLeft, (leading_lt h x).bisect_eq, (leading_lt h x).length_takeWhile]

/-- From the right the place is behind everything not greater. -/
theorem bisectRight_eq (h : xs.Pairwise (· ≤ ·)) (x : α) :
    bisectRight xs x = (xs.takeWhile fun y => !decide (x < y)).length := by
  rw [bisectRight, (leading_not_gt h x).bisect_eq, (leading_not_gt h x).length_takeWhile]

/-- The first item of a list. -/
theorem insort_nil (x : α) : insort [] x = [x] := by
  rw [insort, bisectRight_eq List.Pairwise.nil]
  rfl

/-- Insertion, from the front of a sorted list. -/
theorem insort_cons {y : α} (h : (y :: xs).Pairwise (· ≤ ·)) (x : α) :
    insort (y :: xs) x = if x < y then x :: y :: xs else y :: insort xs x := by
  rw [insort, bisectRight_eq h]
  by_cases hxy : x < y
  · rw [List.takeWhile_cons_of_neg (by simpa using hxy), if_pos hxy, List.length_nil,
      List.insertIdx_zero]
  · rw [List.takeWhile_cons_of_pos (by simpa using hxy), if_neg hxy, List.length_cons,
      List.insertIdx_succ_cons, insort, bisectRight_eq (List.pairwise_cons.mp h).2]

end Preorder

/-! ### The stable sort -/

section Stable

variable {α : Type*} [Preorder α] [Std.Total (α := α) (· ≤ ·)] [DecidableLE α] [DecidableLT α]

omit [DecidableLE α] [DecidableLT α] in
/-- In a total order not smaller is at most. -/
theorem not_lt_iff_of_total {x y : α} : ¬x < y ↔ y ≤ x := by
  constructor
  · intro h
    rcases Std.Total.total (r := (· ≤ ·)) x y with hxy | hyx
    · exact not_lt_iff_le_imp_ge.mp h hxy
    · exact hyx
  · exact fun h hlt => hlt.not_ge h

omit [DecidableLE α] [DecidableLT α] in
/-- In a total order not at most is smaller. -/
theorem not_le_iff_of_total {x y : α} : ¬y ≤ x ↔ x < y := by
  rw [← not_lt_iff_of_total, not_not]

/-- In a sorted list the right border counts the elements up to `x`. -/
theorem bisectRight_eq_countP {xs : List α} (h : xs.Pairwise (· ≤ ·)) (x : α) :
    bisectRight xs x = xs.countP (· ≤ x) := by
  rw [bisectRight, (leading_not_gt h x).bisect_eq]
  refine List.countP_congr fun y _ => ?_
  rw [Bool.not_eq_true', decide_eq_false_iff_not, decide_eq_true_iff, not_lt_iff_of_total]

/-- Of two elements, one that goes before its equals and one that goes behind them, either may be
    inserted first. -/
theorem insort_orderedInsert (a x : α) {xs : List α} (h : xs.Pairwise (· ≤ ·)) :
    insort (xs.orderedInsert (· ≤ ·) a) x = (insort xs x).orderedInsert (· ≤ ·) a := by
  induction xs with
  | nil =>
    rw [List.orderedInsert_nil, insort_cons (List.pairwise_singleton _ a), insort_nil,
      List.orderedInsert_cons, List.orderedInsert_nil]
    -- the order of the two decides which is first
    by_cases hax : a ≤ x
    · rw [if_pos hax, if_neg (not_lt_iff_of_total.mpr hax)]
    · rw [if_neg hax, if_pos (not_le_iff_of_total.mp hax)]
  | cons y ys ih =>
    have hins := h.orderedInsert a _
    rw [List.orderedInsert_cons] at hins ⊢
    rw [insort_cons h]
    -- the head of the sorted list goes before or after the inserted `a`
    by_cases hay : a ≤ y
    · rw [if_pos hay] at hins ⊢
      rw [insort_cons hins, insort_cons h]
      by_cases hxy : x < y
      · -- both go before `y`, where the order of the two decides
        rw [if_pos hxy, List.orderedInsert_cons, List.orderedInsert_cons, if_pos hay]
        by_cases hax : a ≤ x
        · rw [if_pos hax, if_neg (not_lt_iff_of_total.mpr hax)]
        · rw [if_neg hax, if_pos (not_le_iff_of_total.mp hax)]
      · have hax : a ≤ x := hay.trans (not_lt_iff_of_total.mp hxy)
        rw [if_neg hxy, List.orderedInsert_cons, if_pos hay,
          if_neg (not_lt_iff_of_total.mpr hax)]
    · have hya : y < a := not_le_iff_of_total.mp hay
      rw [if_neg hay] at hins ⊢
      rw [insort_cons hins]
      -- `a` comes after the head, so only the place of `x` is open
      by_cases hxy : x < y
      · have hax : ¬a ≤ x := not_le_iff_of_total.mpr (hxy.trans hya)
        rw [if_pos hxy, if_pos hxy, List.orderedInsert_cons, if_neg hax, List.orderedInsert_cons,
          if_neg hay]
      · rw [if_neg hxy, if_neg hxy, List.orderedInsert_cons, if_neg hay,
          ih (List.pairwise_cons.mp h).2]

/-- **The newest element** is sorted in behind its equals. -/
theorem insort_insertionSort (xs : List α) (x : α) :
    insort (xs.insertionSort (· ≤ ·)) x = (xs ++ [x]).insertionSort (· ≤ ·) := by
  induction xs with
  | nil => exact insort_nil x
  | cons a xs ih =>
    rw [List.cons_append, List.insertionSort_cons, List.insertionSort_cons,
      insort_orderedInsert a x (List.pairwise_insertionSort _ xs), ih]

/-- What `orderedInsert` has put in, the left border takes out. -/
theorem eraseIdx_orderedInsert (a : α) {xs : List α} (h : xs.Pairwise (· ≤ ·)) :
    (xs.orderedInsert (· ≤ ·) a).eraseIdx (bisectLeft (xs.orderedInsert (· ≤ ·) a) a) = xs := by
  rw [bisectLeft_eq (h.orderedInsert a _)]
  induction xs with
  | nil => simp
  | cons y ys ih =>
    rw [List.orderedInsert_cons]
    by_cases hay : a ≤ y
    · rw [if_pos hay, List.takeWhile_cons_of_neg (by simp), List.length_nil,
        List.eraseIdx_cons_zero]
    · have hya : y < a := not_le_iff_of_total.mp hay
      rw [if_neg hay, List.takeWhile_cons_of_pos (by simpa using hya), List.length_cons,
        List.eraseIdx_cons_succ, ih (List.pairwise_cons.mp h).2]

/-- **The oldest element** stands before its equals, and is the one that is taken out. -/
theorem eraseIdx_bisectLeft (a : α) (xs : List α) :
    ((a :: xs).insertionSort (· ≤ ·)).eraseIdx
        (bisectLeft ((a :: xs).insertionSort (· ≤ ·)) a) = xs.insertionSort (· ≤ ·) := by
  rw [List.insertionSort_cons]
  exact eraseIdx_orderedInsert a (List.pairwise_insertionSort _ xs)

end Stable

end Lib
