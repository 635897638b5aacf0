import Mathlib.Data.List.Chain
import Mathlib.Data.List.Sort

namespace Lib

/-!
# Enumerations of half-open intervals

The points of a set in `(a, b]`, listed in increasing order.  Such a list is determined by
the interval, so enumerations of neighbouring intervals can be put together.

* `Enumerates P a b l` — `l` lists the points of `P` in `(a, b]`;
* `Enumerates.unique` — there is at most one such list;
* `Enumerates.append` / `Enumerates.chain` — two neighbouring intervals, a chain of them.
-/

variable {α : Type*} [LinearOrder α] {P : α → Prop} {a b c : α} {l l' : List α}

/-- `l` lists the points of `P` in `(a, b]`, in increasing order. -/
structure Enumerates (P : α → Prop) (a b : α) (l : List α) : Prop where
  sorted : l.Pairwise (· < ·)
  mem : ∀ t, t ∈ l ↔ a < t ∧ t ≤ b ∧ P t

namespace Enumerates

/-- Nothing enumerates an empty range. -/
theorem nil (h : b ≤ a) : Enumerates P a b [] where
  sorted := .nil
  mem := by
    intro t
    constructor
    · intro ht
      cases ht
    · rintro ⟨hat, htb, -⟩
      exact absurd (hat.trans_le htb) (not_lt.mpr h)

/-- An interval has only one enumeration. -/
theorem unique (h : Enumerates P a b l) (h' : Enumerates P a b l') : l = l' :=
  h.sorted.eq_of_mem_iff h'.sorted fun t => (h.mem t).trans (h'.mem t).symm

/-- **Neighbouring intervals** are enumerated one after the other. -/
theorem append (h : Enumerates P a b l) (h' : Enumerates P b c l') (hab : a ≤ b) (hbc : b ≤ c) :
    Enumerates P a c (l ++ l') where
  sorted := by
    refine List.pairwise_append.mpr ⟨h.sorted, h'.sorted, ?_⟩
    intro x hx y hy
    exact ((h.mem x).mp hx).2.1.trans_lt ((h'.mem y).mp hy).1
  mem := by
    intro t
    rw [List.mem_append, h.mem, h'.mem]
    constructor
    · rintro (⟨hat, htb, hP⟩ | ⟨hbt, htc, hP⟩)
      · exact ⟨hat, htb.trans hbc, hP⟩
      · exact ⟨hab.trans_lt hbt, htc, hP⟩
    · rintro ⟨hat, htc, hP⟩
      rcases le_or_gt t b with htb | hbt
      · exact .inl ⟨hat, htb, hP⟩
      · exact .inr ⟨hbt, htc, hP⟩

/-- An enumeration is empty when its interval has no point of the set. -/
theorem eq_nil_iff (h : Enumerates P a b l) : l = [] ↔ ∀ t, a < t → t ≤ b → ¬P t := by
  rw [List.eq_nil_iff_forall_not_mem]
  constructor
  · intro hl t hat htb hP
    exact hl t ((h.mem t).mpr ⟨hat, htb, hP⟩)
  · intro hno t ht
    obtain ⟨hat, htb, hP⟩ := (h.mem t).mp ht
    exact hno t hat htb hP

end Enumerates

/-- The enumerations of the steps of a chain, one after the other. -/
def joined (f : α → α → List α) : α → List α → List α
  | _, [] => []
  | a, b :: ts => f a b ++ joined f b ts

/-- The end of a chain. -/
def chainEnd : α → List α → α
  | a, [] => a
  | _, b :: ts => chainEnd b ts

/-- A chain does not end before it begins. -/
theorem le_chainEnd {ts : List α} (h : List.IsChain (· < ·) (a :: ts)) : a ≤ chainEnd a ts := by
  induction ts generalizing a with
  | nil => exact le_rfl
  | cons b ts ih =>
    rw [List.isChain_cons_cons] at h
    exact h.1.le.trans (ih h.2)

/-- **A chain of intervals**: the steps enumerate what the whole interval does. -/
theorem Enumerates.chain {f : α → α → List α} (hf : ∀ a b, Enumerates P a b (f a b))
    {ts : List α} (h : List.IsChain (· < ·) (a :: ts)) :
    Enumerates P a (chainEnd a ts) (joined f a ts) := by
  induction ts generalizing a with
  | nil => exact .nil le_rfl
  | cons b ts ih =>
    rw [List.isChain_cons_cons] at h
    exact (hf a b).append (ih h.2) h.1.le (le_chainEnd h.2)

end Lib
