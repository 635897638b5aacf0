import Mathlib.Data.List.Infix

namespace Lib

/-!
# Searching a text for a pattern

The first place of a pattern in a text, found by trying every place in turn.

* `find` — the first place; `find_eq_none` — what it says;
* `Skips` — a part of a text in which the pattern cannot begin, whatever follows;
* `Skips.append`, `skips_cons`, `skips_of_check` — the rules;
* `find_map` — the search through an injective spelling of the letters.
-/

section Find

variable {α β : Type*} [DecidableEq α] [DecidableEq β]

/-- The first place of the pattern `pat`. -/
def find (pat : List α) : List α → Option ℕ
  | [] => if pat = [] then some 0 else none
  | x :: xs => if pat <+: x :: xs then some 0 else (find pat xs).map (· + 1)

variable {pat xs ys : List α} {x : α}

/-- A pattern at the start is found at once. -/
theorem find_of_starts (h : pat <+: xs) : find pat xs = some 0 := by
  cases xs with
  | nil => rw [find, if_pos (List.prefix_nil.mp h)]
  | cons x xs => rw [find, if_pos h]

/-- A pattern that does not start here is found later. -/
theorem find_cons_of_neg (h : ¬pat <+: x :: xs) :
    find pat (x :: xs) = (find pat xs).map (· + 1) := by
  rw [find, if_neg h]

/-! ### Parts that are skipped -/

/-- The pattern begins nowhere in `xs`, whatever follows. -/
def Skips (pat xs : List α) : Prop :=
  ∀ rest, find pat (xs ++ rest) = (find pat rest).map (· + xs.length)

namespace Skips

/-- Nothing is skipped. -/
theorem nil : Skips pat [] := by
  intro rest
  simp

/-- One part is skipped after the other. -/
theorem append (hx : Skips pat xs) (hy : Skips pat ys) : Skips pat (xs ++ ys) := by
  intro rest
  rw [List.append_assoc, hx, hy, Option.map_map]
  congr 1
  funext i
  rw [Function.comp_apply, List.length_append]
  omega

/-- The place where the pattern is found after what is skipped. -/
theorem find_pattern (hx : Skips pat xs) (rest : List α) :
    find pat (xs ++ (pat ++ rest)) = some xs.length := by
  rw [hx, find_of_starts (List.prefix_append pat rest)]
  simp

/-- A text that is skipped as a whole does not hold the pattern. -/
theorem find_eq_none (hx : Skips pat xs) (hpat : pat ≠ []) : find pat xs = none := by
  have h := hx []
  rwa [List.append_nil, find, if_neg hpat] at h

end Skips

/-- One more letter, where the pattern does not begin. -/
theorem skips_cons (hhere : ∀ rest, ¬pat <+: x :: (xs ++ rest)) (h : Skips pat xs) :
    Skips pat (x :: xs) := by
  intro rest
  rw [List.cons_append, find_cons_of_neg (hhere rest), h, Option.map_map]
  rfl

/-- A part without the first letter of the pattern. -/
theorem skips_of_notMem {p : α} (h : p ∉ xs) : Skips (p :: pat) xs := by
  induction xs with
  | nil => exact .nil
  | cons x xs ih =>
    rw [List.mem_cons, not_or] at h
    refine skips_cons (fun rest hpre => ?_) (ih h.2)
    exact h.1 (List.cons_prefix_cons.mp hpre).1

/-- The pattern is told from a text by its first two letters. -/
def check (p q : α) : List α → Bool
  | [] => true
  | [x] => x ≠ p
  | x :: y :: xs => (x ≠ p || y ≠ q) && check p q (y :: xs)

/-- A text that passes the check is skipped. -/
theorem skips_of_check {p q : α} (h : check p q xs = true) : Skips (p :: q :: pat) xs := by
  induction xs with
  | nil => exact .nil
  | cons x xs ih =>
    cases xs with
    | nil =>
      refine skips_cons (fun rest hpre => ?_) .nil
      simp only [check, ne_eq, decide_not, Bool.not_eq_true', decide_eq_false_iff_not] at h
      exact h (List.cons_prefix_cons.mp hpre).1.symm
    | cons y ys =>
      simp only [check, Bool.and_eq_true, Bool.or_eq_true, decide_eq_true_eq] at h
      refine skips_cons (fun rest hpre => ?_) (ih h.2)
      obtain ⟨hp, hpre⟩ := List.cons_prefix_cons.mp hpre
      obtain ⟨hq, -⟩ := List.cons_prefix_cons.mp hpre
      rcases h.1 with hx | hy
      · exact hx hp.symm
      · exact hy hq.symm

/-! ### Another spelling -/

omit [DecidableEq α] [DecidableEq β] in
/-- A spelling that tells the letters apart keeps prefixes. -/
theorem map_prefix_map {f : α → β} {xs ys : List α}
    (hf : ∀ a ∈ xs, ∀ b ∈ ys, f a = f b → a = b) : xs.map f <+: ys.map f ↔ xs <+: ys := by
  constructor
  · intro h
    induction xs generalizing ys with
    | nil => exact List.nil_prefix
    | cons x xs ih =>
      cases ys with
      | nil => simp at h
      | cons y ys =>
        rw [List.map_cons, List.map_cons, List.cons_prefix_cons] at h
        rw [List.cons_prefix_cons]
        refine ⟨hf x List.mem_cons_self y List.mem_cons_self h.1, ih (fun a ha b hb => ?_) h.2⟩
        exact hf a (List.mem_cons_of_mem _ ha) b (List.mem_cons_of_mem _ hb)
  · exact fun h => h.map f

/-- The search finds the same place in another spelling. -/
theorem find_map {f : α → β} (hf : ∀ a ∈ pat, ∀ b ∈ xs, f a = f b → a = b) :
    find (pat.map f) (xs.map f) = find pat xs := by
  induction xs with
  | nil => simp [find]
  | cons x xs ih =>
    have hrest := ih fun a ha b hb => hf a ha b (List.mem_cons_of_mem _ hb)
    rw [List.map_cons, find, find, hrest]
    rw [← List.map_cons]
    simp only [map_prefix_map hf]

end Find

end Lib
