import Mathlib.Data.List.Basic

namespace Lib

/-!
# Layers over a value

A value is overwritten by layers, each of which remembers what it covered.  The top layer can
be taken off again, which shows what was under it.

* `Laid` — every layer covers what the layers before it show;
* `laid_concat` — a layer is laid on top, or taken off.
-/

universe u

/-- One overwriting: what was covered and what is shown instead. -/
structure Layer (α : Type u) where
  before : α
  after : α

variable {α : Type u}

/-- What is seen from above: the top layer, or the value itself. -/
def shown (a : α) (ls : List (Layer α)) : α := (ls.getLast?.map Layer.after).getD a

/-- Every layer covers what was seen when it was laid. -/
def Laid : α → List (Layer α) → Prop
  | _, [] => True
  | a, l :: ls => l.before = a ∧ Laid l.after ls

/-- Without layers the ground is shown. -/
@[simp] theorem shown_nil (a : α) : shown a [] = a := rfl

/-- The last layer is shown. -/
@[simp] theorem shown_concat (a : α) (ls : List (Layer α)) (l : Layer α) :
    shown a (ls ++ [l]) = l.after := by
  simp [shown]

/-- The first layer is a ground for the rest. -/
theorem shown_cons (a : α) (l : Layer α) (ls : List (Layer α)) :
    shown a (l :: ls) = shown l.after ls := by
  cases ls with
  | nil => rfl
  | cons m ms =>
    rw [shown, shown, List.getLast?_cons_cons]
    rw [List.getLast?_eq_some_getLast (List.cons_ne_nil m ms)]
    rfl

/-- **Top layer.** It covers what the others show. -/
theorem laid_concat {a : α} {ls : List (Layer α)} {l : Layer α} :
    Laid a (ls ++ [l]) ↔ Laid a ls ∧ l.before = shown a ls := by
  induction ls generalizing a with
  | nil => simp [Laid]
  | cons m ms ih =>
    rw [List.cons_append, Laid, Laid, ih, shown_cons, and_assoc]

end Lib
