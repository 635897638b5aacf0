import Mathlib.Data.List.Induction
import Mathlib.Order.Lattice

namespace Lib

/-!
# A cursor in a sorted list

The elements of a list are sorted by a key.  A cursor counts the elements that it has passed,
and an advance passes all those that follow up to a bound.  As long as it has passed nothing
beyond the bound, what it has passed afterwards is what lies up to the bound.

* `advance` — the cursor after an advance;
* `take_advance` — what an advanced cursor has passed;
* `getLast?_filter_above` — the last element of a window is the last one up to its end, if
  that one lies in the window at all.
-/

section Cursor

variable {α β : Type*} [LinearOrder β] {key : α → β} {xs : List α} {lo hi : β}

/-- The cursor `n` after it has passed everything that follows up to `hi`. -/
def advance (key : α → β) (xs : List α) (n : ℕ) (hi : β) : ℕ :=
  n + ((xs.drop n).takeWhile fun x => decide (key x ≤ hi)).length

/-- Up to a bound a sorted list is filtered by its initial segment. -/
theorem takeWhile_eq_filter (hs : xs.Pairwise fun x y => key x ≤ key y) (hi : β) :
    (xs.takeWhile fun x => decide (key x ≤ hi)) = xs.filter fun x => decide (key x ≤ hi) := by
  induction xs with
  | nil => rfl
  | cons x xs ih =>
    obtain ⟨hx, hxs⟩ := List.pairwise_cons.mp hs
    by_cases h : key x ≤ hi
    · rw [List.takeWhile_cons_of_pos (by simpa using h), List.filter_cons_of_pos (by simpa using h),
        ih hxs]
    · -- what follows lies beyond the bound as well
      rw [List.takeWhile_cons_of_neg (by simpa using h), List.filter_cons_of_neg (by simpa using h)]
      symm
      rw [List.filter_eq_nil_iff]
      intro y hy
      rw [decide_eq_true_iff]
      exact fun hle => h ((hx y hy).trans hle)

/-- **What an advanced cursor has passed** is what lies up to the bound. -/
theorem take_advance (hs : xs.Pairwise fun x y => key x ≤ key y) {n : ℕ}
    (hn : ∀ x ∈ xs.take n, key x ≤ hi) :
    xs.take (advance key xs n hi) = xs.filter fun x => decide (key x ≤ hi) := by
  have hrest : (xs.drop n).Pairwise fun x y => key x ≤ key y := hs.sublist (List.drop_sublist n xs)
  have hpassed : (xs.take n).filter (fun x => decide (key x ≤ hi)) = xs.take n := by
    rw [List.filter_eq_self]
    exact fun x hx => decide_eq_true (hn x hx)
  rw [advance, List.take_add, List.prefix_iff_eq_take.mp (List.takeWhile_prefix _) |>.symm,
    takeWhile_eq_filter hrest]
  conv_rhs => rw [← List.take_append_drop n xs, List.filter_append, hpassed]

/-- An advance passes nothing beyond the larger of the bounds. -/
theorem le_of_mem_take_advance (hs : xs.Pairwise fun x y => key x ≤ key y) {n : ℕ}
    (hn : ∀ x ∈ xs.take n, key x ≤ hi) {x : α} (hx : x ∈ xs.take (advance key xs n hi)) :
    key x ≤ hi := by
  rw [take_advance hs hn] at hx
  exact of_decide_eq_true (List.mem_filter.mp hx).2

/-- **The last element of a window** is the last one up to its end, when that lies in it. -/
theorem getLast?_filter_above (hs : xs.Pairwise fun x y => key x ≤ key y)
    (p : α → Prop) [DecidablePred p] (lo : β) :
    (xs.filter fun x => decide (lo < key x ∧ p x)).getLast? =
      (xs.filter fun x => decide (p x)).getLast?.filter fun x => decide (lo < key x) := by
  -- the bound below is a second filter
  have hsplit : (xs.filter fun x => decide (lo < key x ∧ p x)) =
      (xs.filter fun x => decide (p x)).filter fun x => decide (lo < key x) := by
    rw [List.filter_filter]
    congr 1
    funext x
    rw [Bool.decide_and]
  rw [hsplit]
  have hs' : (xs.filter fun x => decide (p x)).Pairwise fun x y => key x ≤ key y := hs.filter _
  generalize (xs.filter fun x => decide (p x)) = ys at hs'
  -- from the end, where the last element decides
  induction ys using List.reverseRecOn with
  | nil => rfl
  | append_singleton ys y ih =>
    rw [List.getLast?_concat, List.filter_append]
    by_cases hy : lo < key y
    · rw [List.filter_cons_of_pos (by simpa using hy), List.filter_nil, List.getLast?_concat,
        Option.filter_some, if_pos (decide_eq_true hy)]
    · -- the last one lies below the window, and so does everything before it
      have hbelow : ys.filter (fun x => decide (lo < key x)) = [] := by
        rw [List.filter_eq_nil_iff]
        intro x hx
        rw [decide_eq_true_iff]
        have hxy : key x ≤ key y :=
          (List.pairwise_append.mp hs').2.2 x hx y (List.mem_singleton_self y)
        exact fun hlt => hy (hlt.trans_le hxy)
      rw [List.filter_cons_of_neg (by simpa using hy), List.filter_nil, List.append_nil, hbelow,
        Option.filter_some, if_neg (by simpa using hy)]
      rfl

end Cursor

end Lib
