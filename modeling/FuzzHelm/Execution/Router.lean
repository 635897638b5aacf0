import FuzzHelm.Core.Dto
import FuzzHelm.Lib.Dict

namespace FuzzHelm

open Lib

/-!
# The order router

The only way from a decision to the venue, idempotent in the client order id.  The venue is
a parameter: a state, how it takes a request and whether it can be asked about an order.

* `OrderRouter.submit` — the same request again gets the stored answer, another request
  under a known id is refused, a failure of the venue is reconciled or reported;
* `submit_known` / `submit_new` — a known id never reaches the venue, a new one does once.
-/

/-- A venue with states `σ`: `send` may raise, after it has changed the state. -/
structure Venue (σ : Type*) where
  send : σ → OrderRequest → Except PyError OrderAck × σ
  query : Option (σ → Uuid → String → Except PyError (Option OrderAck))

/-- The answered requests, with their answers, and the number of calls of the venue. -/
structure OrderRouter where
  known : Dict Uuid (OrderRequest × OrderAck)
  venueCalls : ℕ

namespace OrderRouter

/-- `OrderRouter(venue, clock)`: no request is known yet. -/
def new : OrderRouter := ⟨∅, 0⟩

variable {σ : Type*} (r : OrderRouter) (v : Venue σ) (s : σ) (now : ℤ) (req : OrderRequest)

/-- The answer of the router itself. -/
def refusal (code : RejectCode) : OrderAck := ⟨req.clientOrderId, none, .rejected, some code, now⟩

/-- `_reconcile`: the venue is asked about the order, if it can be. -/
def reconcile : Option OrderAck :=
  match v.query with
  | none => none
  | some query =>
    match query s req.clientOrderId req.instrument with
    | .error _ => none
    | .ok ack => ack

/-- The answer of the venue, after a failure what the reconciliation finds. -/
def answer (sent : Except PyError OrderAck) (s : σ) : Option OrderAck :=
  match sent with
  | .ok ack => some ack
  | .error _ => reconcile v s req

/-- `submit`: the answer, the router and the venue after it. -/
def submit : OrderAck × OrderRouter × σ :=
  match r.known.get? req.clientOrderId with
  | some (prev, ack) =>
    (if prev = req then ack else refusal now req .duplicateClientId, r, s)
  | none =>
    let (sent, s') := v.send s req
    match answer v req sent s' with
    | none => (refusal now req .venueError, { r with venueCalls := r.venueCalls + 1 }, s')
    | some ack =>
      (ack, ⟨r.known.insert req.clientOrderId (req, ack), r.venueCalls + 1⟩, s')

/-- `ack_of`: what was answered to a request, if it is known. -/
def ackOf (u : Uuid) : Option OrderAck := (r.known.get? u).map Prod.snd

/-- **A known id never reaches the venue**, and the same request gets the same answer. -/
theorem submit_known {prev : OrderRequest} {ack : OrderAck}
    (h : r.known.get? req.clientOrderId = some (prev, ack)) :
    (r.submit v s now req).2 = (r, s) ∧
      (prev = req → (r.submit v s now req).1 = ack) := by
  rw [submit, h]
  exact ⟨rfl, fun hreq => if_pos hreq⟩

/-- **A new id reaches the venue once**, and its answer is remembered. -/
theorem submit_new {s' : σ} {ack : OrderAck} (h : r.known.get? req.clientOrderId = none)
    (hsend : v.send s req = (.ok ack, s')) :
    r.submit v s now req =
      (ack, ⟨r.known.insert req.clientOrderId (req, ack), r.venueCalls + 1⟩, s') := by
  simp only [submit, h, hsend, answer]

/-- Ids that were not submitted stay unknown. -/
theorem submit_unknown {u : Uuid} (h : r.known.get? u = none) (hu : req.clientOrderId ≠ u) :
    (r.submit v s now req).2.1.known.get? u = none := by
  unfold submit
  cases r.known.get? req.clientOrderId with
  | some known => exact h
  | none =>
    simp only
    cases answer v req (v.send s req).1 (v.send s req).2 with
    | none => exact h
    | some ack => exact (Dict.get?_insert_of_ne _ _ hu).trans h

end OrderRouter

end FuzzHelm
