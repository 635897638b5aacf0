import Mathlib.Data.List.Infix
import Mathlib.Data.List.TakeWhile
import Mathlib.Tactic.Common

namespace Lib

/-!
# Logs that expire from the front

A log in which an entry expires only after the entries before it, and a queue that has dropped
expired entries of the log from its front.  Whatever was dropped, and when, the queue answers for
the log: it holds the same live entries.

* `Orderly` — who comes later lives longer;
* `Orderly.dropWhile_eq_filter` — dropping from the front leaves the live entries;
* `Answers` — a queue that has lost expired entries only;
* `Answers.append`, `Answers.mono`, `Answers.prune` — as the log grows, as time goes by, as the
  queue is pruned.
-/

variable {α : Type*} {alive alive' : α → Bool} {xs ys q : List α}

/-- Who comes later lives longer. -/
def Orderly (alive : α → Bool) (xs : List α) : Prop :=
  xs.Pairwise fun x y => alive x = true → alive y = true

/-- Dropping expired entries from the front leaves the live ones. -/
theorem Orderly.dropWhile_eq_filter (h : Orderly alive xs) :
    xs.dropWhile (fun x => !alive x) = xs.filter alive := by
  induction xs with
  | nil => rfl
  | cons x xs ih =>
    rw [Orderly, List.pairwise_cons] at h
    by_cases hx : alive x = true
    · have hall : ∀ y ∈ xs, alive y = true := fun y hy => h.1 y hy hx
      rw [List.dropWhile_cons_of_neg (by simp [hx]), List.filter_cons_of_pos hx,
        List.filter_eq_self.mpr hall]
    · rw [List.dropWhile_cons_of_pos (by simp [hx]), List.filter_cons_of_neg hx, ih h.2]

/-- The queue has lost expired entries of the log only, from its front. -/
def Answers (alive : α → Bool) (xs q : List α) : Prop :=
  ∃ lost, xs = lost ++ q ∧ ∀ x ∈ lost, alive x = false

namespace Answers

/-- Everything answers itself. -/
theorem refl (xs : List α) : Answers alive xs xs := ⟨[], rfl, by simp⟩

/-- The queue and the log have the same live entries. -/
theorem filter (h : Answers alive xs q) : q.filter alive = xs.filter alive := by
  obtain ⟨lost, rfl, hlost⟩ := h
  have hnone : lost.filter alive = [] := by
    apply List.filter_eq_nil_iff.mpr
    intro x hx
    simp [hlost x hx]
  rw [List.filter_append, hnone, List.nil_append]

/-- What comes after answers for itself. -/
theorem append (h : Answers alive xs q) : Answers alive (xs ++ ys) (q ++ ys) := by
  obtain ⟨lost, rfl, hlost⟩ := h
  exact ⟨lost, List.append_assoc lost q ys, hlost⟩

/-- Time goes by: nobody comes back to life. -/
theorem mono (h : Answers alive xs q) (hmono : ∀ x, alive' x = true → alive x = true) :
    Answers alive' xs q := by
  obtain ⟨lost, hxs, hlost⟩ := h
  refine ⟨lost, hxs, fun x hx => ?_⟩
  by_contra hx'
  have := hmono x (by simpa using hx')
  simp [hlost x hx] at this

/-- The queue is pruned, and what is left are the live entries of the log. -/
theorem prune (h : Answers alive xs q) (hxs : Orderly alive xs) :
    Answers alive xs (xs.filter alive) ∧ q.dropWhile (fun x => !alive x) = xs.filter alive := by
  have hq : Orderly alive q := by
    obtain ⟨lost, rfl, -⟩ := h
    exact (List.pairwise_append.mp hxs).2.1
  constructor
  · -- the whole log, pruned, has lost its expired beginning
    refine ⟨xs.takeWhile fun x => !alive x, ?_, ?_⟩
    · rw [← hxs.dropWhile_eq_filter, List.takeWhile_append_dropWhile]
    · intro x hx
      simpa using List.mem_takeWhile_imp hx
  · rw [hq.dropWhile_eq_filter, h.filter]

end Answers

end Lib
