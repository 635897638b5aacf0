import Mathlib.Algebra.Order.Group.Int
import Mathlib.Data.List.Pairwise
import Mathlib.Algebra.Ring.Divisibility.Basic
import Mathlib.Algebra.Ring.Int.Defs
import Mathlib.Tactic.Ring

namespace Lib

/-!
# The holes of an ascending list

Integers on a grid of step `s`, in ascending order, with some points of the grid left out.  A
hole is a run of points that are left out, given by its first and its last one.

* `holes s prev xs` — the holes between `prev` and the last element of `xs`;
* `Rising s prev xs` — `xs` ascends on the grid, beyond `prev`;
* `Rising.hole` — a hole begins behind an element and ends before one;
* `Rising.separated` — the holes ascend, with an element between any two of them;
* `Rising.covered` / `Rising.avoids` — a point of the grid is an element, or in a hole, and not
  both;
* `OnGrid s lo hi xs`, `gridHoles` — the same between two ends that need not be elements;
  `OnGrid.once` — every point from `lo` to `hi` is an element, or in one hole.
-/

/-- The holes of `xs`, which begins behind `prev`. -/
def holes (s prev : ℤ) : List ℤ → List (ℤ × ℤ)
  | [] => []
  | x :: xs => (if s < x - prev then [(prev + s, x - s)] else []) ++ holes s x xs

/-- One more element: there may be a hole before it. -/
theorem holes_concat (s prev y : ℤ) (xs : List ℤ) :
    holes s prev (xs ++ [y]) = holes s prev xs ++
      if s < y - xs.getLastD prev then [(xs.getLastD prev + s, y - s)] else [] := by
  induction xs generalizing prev with
  | nil => simp [holes]
  | cons x xs ih =>
    rw [List.cons_append, holes, ih, holes, List.getLastD_cons, List.append_assoc]

/-- The list ascends on the grid of step `s`, beyond `prev`. -/
inductive Rising (s : ℤ) : ℤ → List ℤ → Prop
  | nil (prev : ℤ) : Rising s prev []
  | cons {prev x : ℤ} {xs : List ℤ} (lt : prev < x) (dvd : s ∣ x - prev) (rest : Rising s x xs) :
    Rising s prev (x :: xs)

variable {s prev : ℤ} {xs : List ℤ}

/-- On a grid, what is beyond a point is beyond it by a step. -/
theorem add_le_of_dvd_of_lt {a b : ℤ} (hdvd : s ∣ b - a) (hlt : a < b) : a + s ≤ b := by
  have hle := Int.le_of_dvd (by omega) hdvd
  omega

/-- Places of one grid, one after the other. -/
theorem dvd_sub_trans {a b c : ℤ} (h : s ∣ b - a) (h' : s ∣ c - b) : s ∣ c - a := by
  have heq : c - a = (c - b) + (b - a) := by ring
  rw [heq]
  exact dvd_add h' h

/-- Places of one grid, seen from a third. -/
theorem dvd_sub_back {a b c : ℤ} (h : s ∣ b - a) (h' : s ∣ c - a) : s ∣ c - b := by
  have heq : c - b = (c - a) - (b - a) := by ring
  rw [heq]
  exact dvd_sub h' h

namespace Rising

/-- What rises is behind the start, on its grid. -/
theorem mem (h : Rising s prev xs) : ∀ x ∈ xs, prev < x ∧ s ∣ x - prev := by
  induction h with
  | nil => simp
  | @cons prev x xs lt dvd _ ih =>
    intro y hy
    rcases List.mem_cons.mp hy with rfl | hy
    · exact ⟨lt, dvd⟩
    · obtain ⟨hlt, hdvd⟩ := ih y hy
      exact ⟨lt.trans hlt, dvd_sub_trans dvd hdvd⟩

/-- An ascending list on the grid, beyond `prev`. -/
theorem of_pairwise (hasc : xs.Pairwise (· < ·)) :
    ∀ {prev : ℤ}, (∀ x ∈ xs, prev < x ∧ s ∣ x - prev) → Rising s prev xs := by
  induction xs with
  | nil => exact fun {prev} _ => .nil prev
  | cons x xs ih =>
    intro prev h
    obtain ⟨hfirst, hrest⟩ := List.pairwise_cons.mp hasc
    obtain ⟨hlt, hdvd⟩ := h x (by simp)
    apply Rising.cons hlt hdvd
    apply ih hrest
    intro y hy
    exact ⟨hfirst y hy, dvd_sub_back hdvd (h y (by simp [hy])).2⟩

/-- A list that rises without its last item. -/
theorem init {y : ℤ} (h : Rising s prev (xs ++ [y])) : Rising s prev xs := by
  induction xs generalizing prev with
  | nil => exact .nil prev
  | cons x xs ih =>
    rw [List.cons_append] at h
    cases h with
    | cons lt dvd rest => exact .cons lt dvd (ih rest)

/-- The last element is beyond the others by a step. -/
theorem step_le_last {y : ℤ} (h : Rising s prev (xs ++ [y])) : ∀ x ∈ xs, x + s ≤ y := by
  induction xs generalizing prev with
  | nil => simp
  | cons x xs ih =>
    rw [List.cons_append] at h
    cases h with
    | cons lt dvd rest =>
      intro z hz
      rcases List.mem_cons.mp hz with rfl | hz
      · obtain ⟨hlt, hdvd⟩ := rest.mem y (by simp)
        exact add_le_of_dvd_of_lt hdvd hlt
      · exact ih rest z hz

/-- A hole begins behind `prev` or an element, and ends before an element. -/
structure Hole (s prev : ℤ) (xs : List ℤ) (h : ℤ × ℤ) : Prop where
  nonempty : h.1 ≤ h.2
  beyond : prev < h.1
  left : h.1 - s = prev ∨ h.1 - s ∈ xs
  right : h.2 + s ∈ xs
  dvd : s ∣ h.1 - prev
  width : s ∣ h.2 - h.1

/-- A hole of a list that rises is a hole. -/
theorem hole (hs : 0 < s) (h : Rising s prev xs) : ∀ g ∈ holes s prev xs, Hole s prev xs g := by
  induction h with
  | nil => simp [holes]
  | @cons prev x xs lt dvd _ ih =>
    intro g hg
    rcases List.mem_append.mp hg with hg | hg
    · split at hg
      · rename_i hwide
        -- the hole before the first element
        have hwidth : s ∣ x - s - (prev + s) := by
          have heq : x - s - (prev + s) = (x - prev) - s * 2 := by ring
          rw [heq]
          exact dvd_sub dvd (dvd_mul_right ..)
        have hle : prev + s ≤ x - s := by
          have hdvd : s ∣ x - (prev + s) := by
            rw [← sub_sub]
            exact dvd_sub dvd (dvd_refl s)
          have hnext := add_le_of_dvd_of_lt hdvd (by omega)
          omega
        rw [List.mem_singleton.mp hg]
        exact ⟨hle, by simpa using hs, .inl (by simp), by simp, by simp, hwidth⟩
      · simp at hg
    · have hrest := ih g hg
      refine ⟨hrest.nonempty, lt.trans hrest.beyond, .inr ?_, ?_, dvd_sub_trans dvd hrest.dvd,
        hrest.width⟩
      · rcases hrest.left with hleft | hleft
        · simp [hleft]
        · simp [hleft]
      · exact List.mem_cons_of_mem _ hrest.right

/-- **The holes ascend**, with an element between any two of them. -/
theorem separated (hs : 0 < s) (h : Rising s prev xs) :
    (holes s prev xs).Pairwise fun g g' => ∃ x ∈ xs, g.2 < x ∧ x < g'.1 := by
  induction h with
  | nil => exact .nil
  | @cons prev x xs lt dvd rest ih =>
    apply List.pairwise_append.mpr
    refine ⟨?_, ih.imp ?_, ?_⟩
    · split
      · exact List.pairwise_singleton ..
      · exact .nil
    · rintro g g' ⟨y, hy, hbetween⟩
      exact ⟨y, List.mem_cons_of_mem _ hy, hbetween⟩
    · intro g hg g' hg'
      have hbeyond := (rest.hole hs g' hg').beyond
      split at hg
      · rw [List.mem_singleton.mp hg]
        refine ⟨x, List.mem_cons_self .., ?_, hbeyond⟩
        show x - s < x
        omega
      · simp at hg

/-- **Every point of the grid** up to the last element is an element, or in a hole. -/
theorem covered (h : Rising s prev xs) {m : ℤ} (hm : prev < m) (hdvd : s ∣ m - prev)
    (hle : ∃ x ∈ xs, m ≤ x) : m ∈ xs ∨ ∃ g ∈ holes s prev xs, g.1 ≤ m ∧ m ≤ g.2 := by
  induction h with
  | nil => simp at hle
  | @cons prev x xs lt dvd rest ih =>
    rcases lt_trichotomy m x with hmx | rfl | hmx
    · -- before the first element
      have hlow := add_le_of_dvd_of_lt hdvd hm
      have hhigh := add_le_of_dvd_of_lt (dvd_sub_back hdvd dvd) hmx
      refine .inr ⟨(prev + s, x - s), ?_, hlow, ?_⟩
      · rw [holes, if_pos (by omega)]
        simp
      · show m ≤ x - s
        omega
    -- it is the first element, or comes after it
    · simp
    · have hbeyond : ∃ y ∈ xs, m ≤ y := by
        obtain ⟨y, hy, hmy⟩ := hle
        rcases List.mem_cons.mp hy with rfl | hy
        · omega
        · exact ⟨y, hy, hmy⟩
      rcases ih hmx (dvd_sub_back dvd hdvd) hbeyond with hmem | ⟨g, hg, hbetween⟩
      · exact .inl (List.mem_cons_of_mem _ hmem)
      · exact .inr ⟨g, List.mem_append_right _ hg, hbetween⟩

/-- **No element lies in a hole.** -/
theorem avoids (hs : 0 < s) (h : Rising s prev xs) :
    ∀ g ∈ holes s prev xs, ∀ x ∈ xs, ¬(g.1 ≤ x ∧ x ≤ g.2) := by
  induction h with
  | nil => simp [holes]
  | @cons prev x xs lt dvd rest ih =>
    intro g hg y hy
    rcases List.mem_append.mp hg with hg | hg
    · have hxy : x ≤ y := by
        rcases List.mem_cons.mp hy with rfl | hy
        · exact le_rfl
        · exact (rest.mem y hy).1.le
      split at hg
      · rw [List.mem_singleton.mp hg]
        rintro ⟨-, hle⟩
        change y ≤ x - s at hle
        omega
      · simp at hg
    · rcases List.mem_cons.mp hy with rfl | hy
      · have hbeyond := (rest.hole hs g hg).beyond
        omega
      · exact ih g hg y hy

end Rising

/-! ### Between two ends -/

/-- The list ascends on the grid, from `lo` to `hi`. -/
def OnGrid (s lo hi : ℤ) (xs : List ℤ) : Prop := Rising s (lo - s) (xs ++ [hi + s])

/-- The holes of `xs` on the grid from `lo` to `hi`. -/
def gridHoles (s lo hi : ℤ) (xs : List ℤ) : List (ℤ × ℤ) := holes s (lo - s) (xs ++ [hi + s])

namespace OnGrid

variable {lo hi : ℤ}

/-- Times that ascend on a grid between two ends. -/
theorem of_pairwise (hs : 0 < s) (hgrid : s ∣ hi - lo) (hle : lo ≤ hi)
    (hasc : xs.Pairwise (· < ·)) (hxs : ∀ x ∈ xs, lo ≤ x ∧ x ≤ hi ∧ s ∣ x - lo) :
    OnGrid s lo hi xs := by
  have hshift (x : ℤ) : x - (lo - s) = x - lo + s := by ring
  apply Rising.of_pairwise
  · apply List.pairwise_append.mpr
    refine ⟨hasc, List.pairwise_singleton .., ?_⟩
    intro x hx y hy
    obtain ⟨-, hhi, -⟩ := hxs x hx
    rw [List.mem_singleton.mp hy]
    omega
  · intro x hx
    rw [hshift]
    rcases List.mem_append.mp hx with hx | hx
    · obtain ⟨hlo, -, hdvd⟩ := hxs x hx
      exact ⟨by omega, dvd_add hdvd (dvd_refl s)⟩
    · rw [List.mem_singleton.mp hx]
      refine ⟨by omega, dvd_add ?_ (dvd_refl s)⟩
      rw [add_sub_right_comm]
      exact dvd_add hgrid (dvd_refl s)

/-- Beyond the point before `lo` is from `lo` on. -/
theorem from_lo {x : ℤ} (hlt : lo - s < x) (hdvd : s ∣ x - (lo - s)) : lo ≤ x ∧ s ∣ x - lo := by
  have hle := add_le_of_dvd_of_lt hdvd hlt
  have heq : x - lo = x - (lo - s) - s := by ring
  rw [heq]
  exact ⟨by omega, dvd_sub hdvd (dvd_refl s)⟩

/-- What is on the grid lies between its ends. -/
theorem elem (h : OnGrid s lo hi xs) : ∀ x ∈ xs, lo ≤ x ∧ x ≤ hi ∧ s ∣ x - lo := by
  intro x hx
  obtain ⟨hlt, hdvd⟩ := h.mem x (List.mem_append_left _ hx)
  have hle := h.step_le_last x hx
  obtain ⟨hlo, hdvd'⟩ := from_lo hlt hdvd
  exact ⟨hlo, by omega, hdvd'⟩

variable {g : ℤ × ℤ}

/-- The holes of a grid lie within its ends. -/
theorem within (hs : 0 < s) (h : OnGrid s lo hi xs) (hg : g ∈ gridHoles s lo hi xs) :
    lo ≤ g.1 ∧ g.1 ≤ g.2 ∧ g.2 ≤ hi ∧ s ∣ g.1 - lo ∧ s ∣ g.2 - g.1 := by
  have hhole := Rising.hole hs h g hg
  obtain ⟨hlo, hdvd⟩ := from_lo hhole.beyond hhole.dvd
  refine ⟨hlo, hhole.nonempty, ?_, hdvd, hhole.width⟩
  rcases List.mem_append.mp hhole.right with hx | hx
  · have hle := (h.elem _ hx).2.1
    omega
  · have heq := List.mem_singleton.mp hx
    omega

/-- A hole reaches from an element or `lo` to an element or `hi`. -/
theorem ends (hs : 0 < s) (h : OnGrid s lo hi xs) (hg : g ∈ gridHoles s lo hi xs) :
    (g.1 = lo ∨ g.1 - s ∈ xs) ∧ (g.2 = hi ∨ g.2 + s ∈ xs) := by
  have hhole := Rising.hole hs h g hg
  obtain ⟨hlo, hle, hhi, -⟩ := h.within hs hg
  constructor
  · rcases hhole.left with hleft | hleft
    · left
      omega
    · right
      apply (List.mem_append.mp hleft).resolve_right
      intro hx
      have heq := List.mem_singleton.mp hx
      omega
  · rcases List.mem_append.mp hhole.right with hx | hx
    · exact .inr hx
    · left
      have heq := List.mem_singleton.mp hx
      omega

/-- Between any two holes there is an element. -/
theorem apart (hs : 0 < s) (h : OnGrid s lo hi xs) :
    (gridHoles s lo hi xs).Pairwise fun g g' => ∃ x ∈ xs, g.2 < x ∧ x < g'.1 := by
  apply (Rising.separated hs h).imp_of_mem
  rintro g g' - hg' ⟨x, hx, hlt, hlt'⟩
  refine ⟨x, ?_, hlt, hlt'⟩
  apply (List.mem_append.mp hx).resolve_right
  intro hlast
  -- behind `hi` there is no hole
  obtain ⟨-, hle, hhi, -⟩ := h.within hs hg'
  have heq := List.mem_singleton.mp hlast
  omega

/-- Two holes with a point in common are the same. -/
theorem hole_unique (hs : 0 < s) (h : OnGrid s lo hi xs) {g' : ℤ × ℤ} {m : ℤ}
    (hg : g ∈ gridHoles s lo hi xs) (hg' : g' ∈ gridHoles s lo hi xs)
    (hm : g.1 ≤ m ∧ m ≤ g.2) (hm' : g'.1 ≤ m ∧ m ≤ g'.2) : g = g' := by
  by_contra hne
  have hsymm : Std.Symm fun a b : ℤ × ℤ => ¬((a.1 ≤ m ∧ m ≤ a.2) ∧ b.1 ≤ m ∧ m ≤ b.2) :=
    ⟨fun a b hab hba => hab hba.symm⟩
  have hpair : (gridHoles s lo hi xs).Pairwise fun a b =>
      ¬((a.1 ≤ m ∧ m ≤ a.2) ∧ b.1 ≤ m ∧ m ≤ b.2) := by
    apply (h.apart hs).imp
    rintro a b ⟨x, -, hlt, hlt'⟩
    omega
  exact hpair.forall hg hg' hne ⟨hm, hm'⟩

/-- **Every point from `lo` to `hi`** is an element, or in one hole. -/
theorem once (hs : 0 < s) (h : OnGrid s lo hi xs) {m : ℤ} (hlo : lo ≤ m) (hhi : m ≤ hi)
    (hdvd : s ∣ m - lo) :
    (m ∈ xs ∧ ∀ g ∈ gridHoles s lo hi xs, ¬(g.1 ≤ m ∧ m ≤ g.2)) ∨
      (m ∉ xs ∧ ∃ g ∈ gridHoles s lo hi xs, (g.1 ≤ m ∧ m ≤ g.2) ∧
        ∀ g' ∈ gridHoles s lo hi xs, g'.1 ≤ m ∧ m ≤ g'.2 → g' = g) := by
  have hgrid : s ∣ m - (lo - s) := by
    have heq : m - (lo - s) = m - lo + s := by ring
    rw [heq]
    exact dvd_add hdvd (dvd_refl s)
  rcases Rising.covered h (by omega) hgrid ⟨hi + s, by simp, by omega⟩ with hin | ⟨g, hg, hin⟩
  · left
    refine ⟨(List.mem_append.mp hin).resolve_right ?_, ?_⟩
    · intro hlast
      have heq := List.mem_singleton.mp hlast
      omega
    · exact fun g hg => Rising.avoids hs h g hg m hin
  · right
    refine ⟨fun hx => Rising.avoids hs h g hg m (List.mem_append_left _ hx) hin, g, hg, hin, ?_⟩
    exact fun g' hg' hin' => h.hole_unique hs hg' hg hin' hin

end OnGrid

end Lib
