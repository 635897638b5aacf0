import Mathlib.Data.List.Sort
import Mathlib.Data.List.Pairwise
import Mathlib.Algebra.Order.Group.Int
import Mathlib.Order.Basic

namespace Lib

/-!
# Pages of an ascending store

A store lists elements with strictly ascending keys.  A page is the beginning of what the store
has from a cursor on.

* `since` / `after` — the elements from a key on, and strictly beyond it;
* `since_eq_page_append` — a page, and what comes after its last element, are everything;
* `page_of_short` — a page that is not full is everything;
* `since_last` — the page that begins at the last element of another one repeats it.
-/

variable {α β : Type*} [LinearOrder β] (key : α → β)

/-- The keys of the list ascend strictly. -/
def Ascending (l : List α) : Prop := l.Pairwise fun a b => key a < key b

/-- The elements from the key `c` on. -/
def since (c : β) (l : List α) : List α := l.filter fun a => c ≤ key a

/-- The elements strictly beyond the key `c`. -/
def after (c : β) (l : List α) : List α := l.filter fun a => c < key a

/-- The first `n` elements from the key `c` on. -/
def page (c : β) (n : ℕ) (l : List α) : List α := (since key c l).take n

variable {key} {l : List α} {c d : β} {n : ℕ}

/-- What there is from a key on. -/
@[simp] theorem mem_since {a : α} : a ∈ since key c l ↔ a ∈ l ∧ c ≤ key a := by
  simp [since]

/-- What there is behind a key. -/
@[simp] theorem mem_after {a : α} : a ∈ after key c l ↔ a ∈ l ∧ c < key a := by
  simp [after]

/-- What there is from a key on is in order. -/
theorem Ascending.since (h : Ascending key l) : Ascending key (since key c l) :=
  List.Pairwise.filter _ h

/-- What there is behind a key is behind every earlier one. -/
theorem after_since (h : c ≤ d) : after key d (since key c l) = after key d l := by
  unfold after Lib.since
  rw [List.filter_filter]
  apply List.filter_congr
  intro a _
  by_cases hd : d < key a
  · simp [hd, h.trans hd.le]
  · simp [hd]

/-- Beyond an element of an ascending list comes exactly what stands behind it. -/
theorem Ascending.after_split {xs ys : List α} {a : α} (h : Ascending key (xs ++ a :: ys)) :
    after key (key a) (xs ++ a :: ys) = ys := by
  obtain ⟨-, hys, hxs⟩ := List.pairwise_append.mp h
  obtain ⟨ha, -⟩ := List.pairwise_cons.mp hys
  have hbefore : xs.filter (fun b => decide (key a < key b)) = [] := by
    rw [List.filter_eq_nil_iff]
    intro b hb
    simpa using (hxs b hb a (List.mem_cons_self ..)).le
  have hbehind : ys.filter (fun b => decide (key a < key b)) = ys := by
    rw [List.filter_eq_self]
    intro b hb
    simpa using ha b hb
  rw [after, List.filter_append, hbefore, List.nil_append, List.filter_cons_of_neg (by simp),
    hbehind]

/-- **A page and what comes after its last element** are everything from the cursor on. -/
theorem since_eq_page_append {a : α} (h : Ascending key l)
    (ha : (page key c n l).getLast? = some a) :
    since key c l = page key c n l ++ after key (key a) l := by
  obtain ⟨init, hinit⟩ := List.getLast?_eq_some_iff.mp ha
  have hsplit : since key c l = init ++ a :: (since key c l).drop n := by
    conv_lhs => rw [← List.take_append_drop n (since key c l)]
    rw [show (since key c l).take n = init ++ [a] from hinit, List.append_assoc]
    rfl
  have hmem : a ∈ since key c l := by
    rw [hsplit]
    simp
  have hafter : after key (key a) l = (since key c l).drop n := by
    have hasc := h.since (c := c)
    rw [← after_since (mem_since.mp hmem).2]
    rw [hsplit] at hasc
    conv_lhs => rw [hsplit]
    exact hasc.after_split
  rw [hafter]
  exact (List.take_append_drop n _).symm

/-- **A page that is not full is everything.** -/
theorem page_of_short (h : (page key c n l).length < n) : page key c n l = since key c l := by
  apply List.take_of_length_le
  simp only [page, List.length_take] at h
  omega

/-- The elements of a page are in the store, from the cursor on. -/
theorem mem_page {a : α} (h : a ∈ page key c n l) : a ∈ l ∧ c ≤ key a :=
  mem_since.mp (List.mem_of_mem_take h)

/-- From the key of an element on comes the element, and then what is beyond it. -/
theorem since_last {a : α} (h : Ascending key l) (ha : a ∈ l) :
    since key (key a) l = a :: after key (key a) l := by
  obtain ⟨xs, ys, rfl⟩ := List.append_of_mem ha
  rw [h.after_split]
  obtain ⟨-, hys, hxs⟩ := List.pairwise_append.mp h
  obtain ⟨hbehind, -⟩ := List.pairwise_cons.mp hys
  have hnone : xs.filter (fun b => decide (key a ≤ key b)) = [] := by
    rw [List.filter_eq_nil_iff]
    intro b hb
    simpa using hxs b hb a (List.mem_cons_self ..)
  have hall : ys.filter (fun b => decide (key a ≤ key b)) = ys := by
    rw [List.filter_eq_self]
    intro b hb
    simpa using (hbehind b hb).le
  rw [since, List.filter_append, hnone, List.nil_append, List.filter_cons_of_pos (by simp), hall]

/-- Among integers, beyond a key is from the next one on. -/
theorem after_eq_since {key : α → ℤ} (c : ℤ) (l : List α) :
    after key c l = since key (c + 1) l := by
  unfold after since
  simp only [Int.add_one_le_iff]

end Lib
