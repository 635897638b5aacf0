import Mathlib.Data.List.Dedup
import Mathlib.Data.List.Sort

namespace Lib

/-!
# Neighbours of a partition

A list of points in increasing order cuts the stretch from its first to its last point into the
intervals between neighbours.

* `sortedDistinct` — the different members in increasing order;
* `adjacent` — the neighbours of a list;
* `lt_of_mem_adjacent`, `outside_of_mem_adjacent` — no point lies between neighbours;
* `exists_adjacent` — every place of the stretch lies between two neighbours;
* `exists_coarser` — the neighbours of a finer partition lie between two of a coarser one.
-/

variable {α : Type*}

section Distinct

variable [LinearOrder α]

/-- The different members in increasing order. -/
def sortedDistinct (ps : List α) : List α := ps.dedup.insertionSort (· ≤ ·)

/-- Sorting without repetitions loses nothing. -/
@[simp] theorem mem_sortedDistinct {ps : List α} {p : α} : p ∈ sortedDistinct ps ↔ p ∈ ps := by
  simp [sortedDistinct]

/-- What is sorted without repetitions ascends strictly. -/
theorem pairwise_sortedDistinct (ps : List α) : (sortedDistinct ps).Pairwise (· < ·) := by
  have hle : (sortedDistinct ps).Pairwise (· ≤ ·) := List.pairwise_insertionSort (· ≤ ·) _
  have hnodup : (sortedDistinct ps).Nodup :=
    (List.perm_insertionSort _ _).nodup_iff.mpr ps.nodup_dedup
  exact (hle.and hnodup).imp fun h => lt_of_le_of_ne h.1 h.2

end Distinct

/-- The neighbours of a list, from the left. -/
def adjacent (xs : List α) : List (α × α) := xs.zip xs.tail

/-- The neighbours of a list begin with its first two. -/
@[simp] theorem adjacent_cons_cons (x y : α) (xs : List α) :
    adjacent (x :: y :: xs) = (x, y) :: adjacent (y :: xs) := rfl

/-- One point has no neighbours. -/
@[simp] theorem adjacent_singleton (x : α) : adjacent [x] = [] := rfl

/-- Neighbours are points of the list. -/
theorem mem_of_mem_adjacent {xs : List α} {s : α × α} (h : s ∈ adjacent xs) :
    s.1 ∈ xs ∧ s.2 ∈ xs := by
  obtain ⟨hfst, hsnd⟩ := List.of_mem_zip h
  exact ⟨hfst, List.mem_of_mem_tail hsnd⟩

section Sorted

variable [LinearOrder α] {xs ys : List α} {s : α × α}

/-- Neighbours of a list that ascends are in order. -/
theorem lt_of_mem_adjacent (hxs : xs.Pairwise (· < ·)) (h : s ∈ adjacent xs) : s.1 < s.2 := by
  induction xs with
  | nil => simp [adjacent] at h
  | cons x xs ih =>
    rw [List.pairwise_cons] at hxs
    cases xs with
    | nil => simp at h
    | cons y ys =>
      rw [adjacent_cons_cons, List.mem_cons] at h
      rcases h with rfl | h
      · exact hxs.1 y (by simp)
      · exact ih hxs.2 h

/-- No point lies between neighbours. -/
theorem outside_of_mem_adjacent (hxs : xs.Pairwise (· < ·)) (h : s ∈ adjacent xs) {z : α}
    (hz : z ∈ xs) : z ≤ s.1 ∨ s.2 ≤ z := by
  induction xs with
  | nil => simp at hz
  | cons x xs ih =>
    rw [List.pairwise_cons] at hxs
    cases xs with
    | nil => simp at h
    | cons y ys =>
      rw [adjacent_cons_cons, List.mem_cons] at h
      rw [List.mem_cons] at hz
      rcases hz with rfl | hz
      · -- the first point is left of every interval
        left
        rcases h with rfl | h
        · exact le_refl _
        · exact (hxs.1 _ (mem_of_mem_adjacent h).1).le
      · rcases h with rfl | h
        -- the first interval ends where the others begin
        · right
          rw [List.mem_cons] at hz
          rcases hz with rfl | hz
          · exact le_refl _
          · exact ((List.pairwise_cons.mp hxs.2).1 z hz).le
        · exact ih hxs.2 h hz

/-- Every place of the stretch lies between two neighbours. -/
theorem exists_adjacent {lo hi z : α} (hlo : lo ∈ xs) (hhi : hi ∈ xs) (hloz : lo ≤ z)
    (hzhi : z < hi) (hxs : xs.Pairwise (· < ·)) : ∃ s ∈ adjacent xs, s.1 ≤ z ∧ z < s.2 := by
  induction xs generalizing lo with
  | nil => simp at hlo
  | cons x xs ih =>
    have hsorted := List.pairwise_cons.mp hxs
    have hxz : x ≤ z := by
      rcases List.mem_cons.mp hlo with rfl | hlo
      · exact hloz
      · exact (hsorted.1 lo hlo).le.trans hloz
    have hhi' : hi ∈ xs := by
      rcases List.mem_cons.mp hhi with rfl | hhi
      · exact absurd hzhi (not_lt.mpr hxz)
      · exact hhi
    cases xs with
    | nil => simp at hhi'
    | cons y ys =>
      rw [adjacent_cons_cons]
      -- in the first interval, or in one that begins at the next point
      by_cases hzy : z < y
      · exact ⟨(x, y), by simp, hxz, hzy⟩
      · obtain ⟨s, hs, hsz⟩ := ih List.mem_cons_self hhi' (not_lt.mp hzy) hsorted.2
        exact ⟨s, List.mem_cons_of_mem _ hs, hsz⟩

/-- The least point comes first. -/
theorem eq_cons_of_least {lo : α} (hxs : xs.Pairwise (· < ·)) (hlo : lo ∈ xs)
    (hleast : ∀ x ∈ xs, lo ≤ x) : ∃ rest, xs = lo :: rest := by
  cases xs with
  | nil => simp at hlo
  | cons x xs =>
    rcases List.mem_cons.mp hlo with rfl | hmem
    · exact ⟨xs, rfl⟩
    · have hlt := (List.pairwise_cons.mp hxs).1 lo hmem
      exact absurd (hleast x List.mem_cons_self) (not_le.mpr hlt)

/-- The greatest point comes last. -/
theorem getLast_eq_of_greatest {hi : α} (hxs : xs.Pairwise (· < ·)) (hhi : hi ∈ xs)
    (hgreatest : ∀ x ∈ xs, x ≤ hi) : xs.getLast (List.ne_nil_of_mem hhi) = hi := by
  induction xs with
  | nil => simp at hhi
  | cons x xs ih =>
    rw [List.pairwise_cons] at hxs
    rw [List.forall_mem_cons] at hgreatest
    cases xs with
    | nil => exact (List.mem_singleton.mp hhi).symm
    | cons y ys =>
      rcases List.mem_cons.mp hhi with rfl | hmem
      · -- the next point would be greater
        exact absurd (hgreatest.2 y List.mem_cons_self)
          (not_le.mpr (hxs.1 y List.mem_cons_self))
      · rw [List.getLast_cons (by simp)]
        exact ih hxs.2 hmem hgreatest.2

/-- Neighbours of a finer partition lie between neighbours of a coarser one. -/
theorem exists_coarser {lo hi : α} (hxs : xs.Pairwise (· < ·)) (hys : ys.Pairwise (· < ·))
    (hsub : xs ⊆ ys) (hlo : lo ∈ xs) (hhi : hi ∈ xs) (hin : ∀ y ∈ ys, lo ≤ y ∧ y ≤ hi)
    {t : α × α} (ht : t ∈ adjacent ys) : ∃ s ∈ adjacent xs, s.1 ≤ t.1 ∧ t.2 ≤ s.2 := by
  have hmem := mem_of_mem_adjacent ht
  have hlt := lt_of_mem_adjacent hys ht
  obtain ⟨s, hs, hst, hts⟩ := exists_adjacent hlo hhi (hin _ hmem.1).1
    (hlt.trans_le (hin _ hmem.2).2) hxs
  refine ⟨s, hs, hst, ?_⟩
  rcases outside_of_mem_adjacent hys ht (hsub (mem_of_mem_adjacent hs).2) with h | h
  · exact absurd hts (not_lt.mpr h)
  · exact h

end Sorted

end Lib
