import Mathlib.Data.List.Basic

namespace Lib

/-!
# Computations that raise and keep their state

Python code that raises leaves behind what it has done so far.  In `EStateM ε σ` a
computation ends with the state it leaves, whether it returns or raises.

* `bind_returned`, `bind_raised`, `forM_single` — one computation after another;
* `Triple P x Q E` — from a state in `P` the computation returns into `Q` or raises into `E`;
* `Triple.bind`, `Triple.consequence`, `Triple.loop` — the rules;
* `Triple.ensures` — what holds however the computation ends.
-/

universe u

variable {ε σ α β : Type u}

/-- The state that a computation leaves, whether it returns or raises. -/
def leaves (x : EStateM ε σ α) (s : σ) : σ :=
  match x s with
  | .ok _ s' => s'
  | .error _ s' => s'

/-- After a computation that returns, the next one runs. -/
theorem bind_returned {x : EStateM ε σ α} {s s' : σ} {a : α} (h : x s = .ok a s')
    (f : α → EStateM ε σ β) : (x >>= f) s = f a s' := by
  show EStateM.bind x f s = f a s'
  unfold EStateM.bind
  rw [h]

/-- After a computation that raises, nothing more runs. -/
theorem bind_raised {x : EStateM ε σ α} {s s' : σ} {e : ε} (h : x s = .error e s')
    (f : α → EStateM ε σ β) : (x >>= f) s = .error e s' := by
  show EStateM.bind x f s = .error e s'
  unfold EStateM.bind
  rw [h]

/-- A loop of one round. -/
theorem forM_single (f : α → EStateM ε σ PUnit) (x : α) (s : σ) : [x].forM f s = f x s := by
  show EStateM.bind (f x) (fun _ => pure ⟨⟩) s = f x s
  unfold EStateM.bind
  cases f x s with
  | ok a s' => rfl
  | error e s' => rfl

/-- What the end of a computation satisfies: `Q` if it returns, `E` if it raises. -/
def Ends (Q : α → σ → Prop) (E : ε → σ → Prop) : EStateM.Result ε σ α → Prop
  | .ok a s => Q a s
  | .error e s => E e s

/-- **Triple**: from every state in `P` the computation returns into `Q` or raises into `E`. -/
def Triple (P : σ → Prop) (x : EStateM ε σ α) (Q : α → σ → Prop) (E : ε → σ → Prop) :
    Prop :=
  ∀ s, P s → Ends Q E (x s)

namespace Triple

variable {P P' : σ → Prop} {Q Q' : α → σ → Prop} {E E' : ε → σ → Prop}

/-- A value returns. -/
theorem ret {a : α} (h : ∀ s, P s → Q a s) :
    Triple P (pure a : EStateM ε σ α) Q E := fun s hs => h s hs

/-- An error raises. -/
theorem raise {e : ε} (h : ∀ s, P s → E e s) :
    Triple P (throw e : EStateM ε σ α) Q E := fun s hs => h s hs

/-- Reading answers the state. -/
theorem read {Q : σ → σ → Prop} (h : ∀ s, P s → Q s s) :
    Triple P (get : EStateM ε σ σ) Q E := fun s hs => h s hs

/-- Writing changes the state. -/
theorem write {f : σ → σ} {Q : PUnit → σ → Prop} (h : ∀ s, P s → Q ⟨⟩ (f s)) :
    Triple P (modify f : EStateM ε σ PUnit) Q E := fun s hs => h s hs

/-- A computation followed by another: what the first returns into, the second starts from. -/
theorem bind {x : EStateM ε σ α} {f : α → EStateM ε σ β} {R : β → σ → Prop}
    (hx : Triple P x Q E) (hf : ∀ a, Triple (Q a) (f a) R E) : Triple P (x >>= f) R E := by
  intro s hs
  have hend := hx s hs
  show Ends R E (EStateM.bind x f s)
  unfold EStateM.bind
  cases hr : x s with
  | ok a s' =>
    rw [hr] at hend
    exact hf a s' hend
  | error e s' =>
    rw [hr] at hend
    exact hend

/-- Stronger before, weaker after. -/
theorem consequence {x : EStateM ε σ α} (h : Triple P x Q E) (hP : ∀ s, P' s → P s)
    (hQ : ∀ a s, Q a s → Q' a s) (hE : ∀ e s, E e s → E' e s) : Triple P' x Q' E' := by
  intro s hs
  have hend := h s (hP s hs)
  cases hr : x s with
  | ok a s' =>
    rw [hr] at hend
    exact hQ a s' hend
  | error e s' =>
    rw [hr] at hend
    exact hE e s' hend

/-- Either branch. -/
theorem branch {c : Prop} [Decidable c] {x y : EStateM ε σ α} (hx : c → Triple P x Q E)
    (hy : ¬c → Triple P y Q E) : Triple P (if c then x else y) Q E := by
  split
  · exact hx ‹_›
  · exact hy ‹_›

/-- **Loop rule.** What one round keeps, the loop over a list keeps. -/
theorem loop {I : σ → Prop} {f : α → EStateM ε σ PUnit} (xs : List α)
    (h : ∀ x ∈ xs, Triple I (f x) (fun _ => I) E) :
    Triple I (xs.forM f) (fun _ => I) E := by
  induction xs with
  | nil => exact ret fun s hs => hs
  | cons x xs ih =>
    show Triple I (f x >>= fun _ => xs.forM f) (fun _ => I) E
    exact (h x List.mem_cons_self).bind fun _ =>
      ih fun y hy => h y (List.mem_cons_of_mem x hy)

/-- What both ends of a computation satisfy, the state that it leaves satisfies. -/
theorem ensures {I : σ → Prop} {x : EStateM ε σ α} (h : Triple P x (fun _ => I) fun _ => I)
    {s : σ} (hs : P s) : I (leaves x s) := by
  have hend := h s hs
  unfold leaves
  cases hr : x s with
  | ok a s' =>
    rw [hr] at hend
    exact hend
  | error e s' =>
    rw [hr] at hend
    exact hend

end Triple

end Lib
