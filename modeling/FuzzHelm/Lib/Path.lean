import Mathlib.Data.List.Basic

namespace Lib

/-!
# Labelled paths

A path of a labelled relation `step a e b` reads a list of labels from `a` to `b`.

* `Path.append`, `Path.snoc`, `Path.split` — paths and concatenations of labels.
-/

universe u v

variable {σ : Type u} {ε : Type v}

/-- `Path step a es b`: the labels `es` are read, in order, from `a` to `b`. -/
inductive Path (step : σ → ε → σ → Prop) : σ → List ε → σ → Prop
  | nil (a : σ) : Path step a [] a
  | cons {a b c : σ} {e : ε} {es : List ε} : step a e b → Path step b es c →
      Path step a (e :: es) c

namespace Path

variable {step : σ → ε → σ → Prop} {a b c : σ} {e : ε} {es es' : List ε}

/-- One path after another. -/
theorem append (h : Path step a es b) (h' : Path step b es' c) : Path step a (es ++ es') c := by
  induction h with
  | nil => exact h'
  | cons hs _ ih => exact cons hs (ih h')

/-- One more label. -/
theorem snoc (h : Path step a es b) (hs : step b e c) : Path step a (es ++ [e]) c :=
  h.append (cons hs (nil c))

/-- A path along a concatenation passes through a state between the two parts. -/
theorem split (h : Path step a (es ++ es') c) : ∃ b, Path step a es b ∧ Path step b es' c := by
  induction es generalizing a with
  | nil => exact ⟨a, nil a, h⟩
  | cons e es ih =>
    cases h with
    | cons hs hrest =>
      obtain ⟨b, hes, hes'⟩ := ih hrest
      exact ⟨b, cons hs hes, hes'⟩

end Path

end Lib
