import Mathlib.Data.List.DropRight
import Mathlib.Data.List.Infix
import Mathlib.Tactic.Common

namespace Lib

/-!
# Moving windows

The last `n` elements of a growing list, and all windows of `n` elements that it has had so far.

* `rtake_concat_of_le` — how a full window moves;
* `boundedAppend` — a queue of a fixed length; after a sequence it holds the last elements
  (`foldl_boundedAppend`);
* `windows n xs` — the windows in the order of their last elements;
* `rtake_windows` — the last `m` windows are those of the last `n + m - 1` elements;
* `flatMap_slices` — adjoining slices put together.
-/

/-! ### The last elements of a list -/

section Last

variable {α : Type*} {n : ℕ} {xs : List α} {x : α}

/-- The end of a list is as long as was asked for, or as the list. -/
@[simp] theorem length_rtake (n : ℕ) (xs : List α) : (xs.rtake n).length = min n xs.length := by
  rw [List.rtake, List.length_drop]
  omega

/-- A short list is its own end. -/
theorem rtake_of_length_le (h : xs.length ≤ n) : xs.rtake n = xs := by
  rw [List.rtake, Nat.sub_eq_zero_of_le h, List.drop_zero]

/-- The end of a long second part. -/
theorem rtake_append_of_le {ys : List α} (h : n ≤ ys.length) :
    (xs ++ ys).rtake n = ys.rtake n := by
  have hdrop : (xs ++ ys).length - n = xs.length + (ys.length - n) := by
    rw [List.length_append]
    omega
  rw [List.rtake, List.rtake, hdrop, List.drop_append, List.drop_eq_nil_of_le (by omega),
    List.nil_append]
  congr 1
  omega

/-- The window moves: the oldest of a full window makes place for the new element. -/
theorem rtake_concat_of_le (hn : 0 < n) (h : n ≤ xs.length) :
    (xs ++ [x]).rtake n = (xs.rtake n).tail ++ [x] := by
  obtain ⟨m, rfl⟩ : ∃ m, n = m + 1 := ⟨n - 1, by omega⟩
  have htail : (xs.rtake (m + 1)).tail = xs.rtake m := by
    rw [List.rtake, List.rtake, List.tail_drop]
    congr 1
    omega
  rw [List.rtake_concat_succ, htail]

/-- The last elements of the last elements. -/
theorem rtake_rtake {m : ℕ} (h : m ≤ n) : (xs.rtake n).rtake m = xs.rtake m := by
  rw [List.rtake, length_rtake, List.rtake, List.rtake, List.drop_drop]
  congr 1
  omega

/-- What lies in the end of a list. -/
theorem mem_rtake_iff {x : α} : x ∈ xs.rtake n ↔ ∃ j, xs[j]? = some x ∧ xs.length ≤ j + n := by
  rw [List.rtake, List.mem_iff_getElem?]
  constructor
  · rintro ⟨j, hj⟩
    rw [List.getElem?_drop] at hj
    exact ⟨_, hj, by omega⟩
  · rintro ⟨j, hj, hle⟩
    refine ⟨j - (xs.length - n), ?_⟩
    rw [List.getElem?_drop, ← hj]
    congr 1
    omega

/-- The end of a mapped list. -/
theorem rtake_map {β : Type*} (f : α → β) (n : ℕ) (xs : List α) :
    (xs.map f).rtake n = (xs.rtake n).map f := by
  rw [List.rtake, List.rtake, List.length_map, List.map_drop]

/-- Lists with the same last `n` elements both have at least `n` elements, or neither. -/
theorem le_length_congr {ys : List α} (h : xs.rtake n = ys.rtake n) :
    n ≤ xs.length ↔ n ≤ ys.length := by
  have hlen := congrArg List.length h
  rw [length_rtake, length_rtake] at hlen
  omega

end Last

/-! ### Queues of a fixed length -/

section Queue

variable {α : Type*}

/-- A queue of length `maxlen` drops its first element for a new last one. -/
def boundedAppend (maxlen : ℕ) (q : List α) (x : α) : List α := (q ++ [x]).rtake maxlen

/-- Appending within a bound keeps the end. -/
theorem boundedAppend_rtake (n : ℕ) (xs : List α) (x : α) :
    boundedAppend n (xs.rtake n) x = (xs ++ [x]).rtake n := by
  cases n with
  | zero => simp [boundedAppend]
  | succ n =>
    rw [boundedAppend, List.rtake_concat_succ, List.rtake_concat_succ, rtake_rtake (by omega)]

end Queue

/-! ### All windows -/

section Windows

variable {α : Type*} {n : ℕ}

/-- The windows of `n` elements that end at each of the elements. -/
def windows (n : ℕ) (xs : List α) : List (List α) :=
  (xs.inits.filter fun ys => n ≤ ys.length).map (List.rtake · n)

/-- No values have no windows. -/
theorem windows_nil (hn : 0 < n) : windows n ([] : List α) = [] := by
  have hno : ¬n ≤ 0 := by omega
  simp [windows, hno]

/-- One value more has one more window, once there are enough. -/
theorem windows_concat (n : ℕ) (xs : List α) (x : α) :
    windows n (xs ++ [x]) =
      windows n xs ++ if n ≤ xs.length + 1 then [(xs ++ [x]).rtake n] else [] := by
  have hinits : (xs ++ [x]).inits = xs.inits ++ [xs ++ [x]] := by
    rw [List.inits_append]
    simp
  rw [windows, hinits, List.filter_append, List.map_append, ← windows]
  congr 1
  by_cases h : n ≤ xs.length + 1
  · simp [h]
  · simp [h]

/-- There are as many windows as there are places for one. -/
theorem length_windows (hn : 0 < n) (xs : List α) : (windows n xs).length = xs.length + 1 - n := by
  induction xs using List.reverseRecOn with
  | nil =>
    rw [windows_nil hn, List.length_nil, List.length_nil]
    omega
  | append_singleton xs x ih =>
    rw [windows_concat, List.length_append, ih, List.length_append, List.length_singleton]
    split_ifs <;> simp only [List.length_singleton, List.length_nil] <;> omega

/-- **The last windows** depend on the last elements. -/
theorem rtake_windows (hn : 0 < n) (m : ℕ) (xs : List α) :
    (windows n xs).rtake m = windows n (xs.rtake (n + m - 1)) := by
  induction xs using List.reverseRecOn generalizing m with
  | nil => rw [List.rtake_nil, windows_nil hn, List.rtake_nil]
  | append_singleton xs x ih =>
    cases m with
    -- no window is asked for
    | zero =>
      symm
      rw [List.rtake_zero]
      apply List.eq_nil_of_length_eq_zero
      rw [length_windows hn, length_rtake]
      omega
    | succ m =>
      have hk : n + (m + 1) - 1 = (n + m - 1) + 1 := by omega
      rw [hk, List.rtake_concat_succ, windows_concat, windows_concat, ← ih m]
      -- with the new element a window ends there, or the list is still too short for one
      by_cases hle : n ≤ xs.length + 1
      · have hle' : n ≤ (xs.rtake (n + m - 1)).length + 1 := by
          rw [length_rtake]
          omega
        have hlast : (xs.rtake (n + m - 1) ++ [x]).rtake n = (xs ++ [x]).rtake n := by
          rw [← List.rtake_concat_succ, rtake_rtake (by omega)]
        rw [if_pos hle, if_pos hle', hlast, List.rtake_concat_succ]
      · have hle' : ¬n ≤ (xs.rtake (n + m - 1)).length + 1 := by
          rw [length_rtake]
          omega
        have hnone : windows n xs = [] := by
          apply List.eq_nil_of_length_eq_zero
          rw [length_windows hn]
          omega
        rw [if_neg hle, if_neg hle', hnone, List.append_nil, List.rtake_nil, List.rtake_nil,
          List.append_nil]

end Windows

/-! ### Slices -/

/-- The first slices of `c` elements each, put together. -/
theorem flatMap_slices {α : Type*} (c : ℕ) (xs : List α) (count : ℕ) :
    (List.range count).flatMap (fun i => (xs.drop (i * c)).take c) = xs.take (count * c) := by
  induction count with
  | zero => simp
  | succ count ih =>
    rw [List.range_succ, List.flatMap_append, ih, List.flatMap_singleton, Nat.succ_mul,
      List.take_add]

end Lib
