import FuzzHelm.Execution.Levels
import FuzzHelm.Execution.Router
import Mathlib.Data.Finset.Order

namespace FuzzHelm

open Lib

/-!
# Idempotent routing

Requests reach the broker through the router, over a connection that may fail before or
after the broker has taken a request.

* `Attempt` — how one submission goes: the clocks, the failure, the reconciliation;
* `RoutedBroker.call` — one call on the pair of the router and the broker;
* `submit_cases` — the three ways in which a submission ends;
* `routing` — the law over any sequence of calls.
-/

/-! ### Submissions -/

/-- Where a call of the venue fails: before or after the broker has taken the request. -/
inductive Fault where
  | none
  | before (e : PyError)
  | after (e : PyError)

/-- One attempt to submit: the readings of the clocks of the router and of the venue, the
    failure of the call and the reconciliation of the venue, if it has one. -/
structure Attempt where
  now : ℤ
  venueNow : ℤ
  fault : Fault
  query : Option (PaperBroker → Uuid → String → Except PyError (Option OrderAck))

/-- The broker as the venue of one attempt. -/
def Attempt.venue (att : Attempt) : Venue PaperBroker where
  send pb req :=
    match att.fault with
    | .none => (.ok (pb.submit att.venueNow req).1, (pb.submit att.venueNow req).2)
    | .before e => (.error e, pb)
    | .after e => (.error e, (pb.submit att.venueNow req).2)
  query := att.query

/-- What an attempt brings back for a request: the answer of the broker, after a failure
    what the reconciliation finds. -/
def Attempt.reply (att : Attempt) (pb : PaperBroker) (req : OrderRequest) : Option OrderAck :=
  OrderRouter.answer att.venue req (att.venue.send pb req).1 (att.venue.send pb req).2

/-- The venue is left as it is or has taken the request. -/
theorem Attempt.send_cases (att : Attempt) (pb : PaperBroker) (req : OrderRequest) :
    (att.venue.send pb req).2 = pb ∨
      (att.venue.send pb req).2 = (pb.submit att.venueNow req).2 := by
  unfold venue
  cases att.fault with
  | none => exact .inr rfl
  | before e => exact .inl rfl
  | after e => exact .inr rfl

namespace OrderRouter

variable (r : OrderRouter) (att : Attempt) (pb : PaperBroker) (req : OrderRequest)

/-- An id with an answer is answered by the router alone. -/
theorem submit_acked {prev : OrderRequest} {ack : OrderAck}
    (h : r.known.get? req.clientOrderId = some (prev, ack)) :
    r.submit att.venue pb att.now req =
      (if prev = req then ack else refusal att.now req .duplicateClientId, r, pb) := by
  rw [submit, h]

/-- A reply is remembered. -/
theorem submit_replied {ack : OrderAck} (h : r.known.get? req.clientOrderId = none)
    (hreply : att.reply pb req = some ack) :
    r.submit att.venue pb att.now req =
      (ack, ⟨r.known.insert req.clientOrderId (req, ack), r.venueCalls + 1⟩,
        (att.venue.send pb req).2) := by
  rw [Attempt.reply] at hreply
  simp only [submit, h, hreply]

/-- A failure that is not reconciled is reported and forgotten. -/
theorem submit_failed (h : r.known.get? req.clientOrderId = none)
    (hreply : att.reply pb req = none) :
    r.submit att.venue pb att.now req =
      (refusal att.now req .venueError, { r with venueCalls := r.venueCalls + 1 },
        (att.venue.send pb req).2) := by
  rw [Attempt.reply] at hreply
  simp only [submit, h, hreply]

end OrderRouter

/-! ### The router and its broker -/

/-- A broker and a router before it. -/
structure RoutedBroker where
  router : OrderRouter
  broker : PaperBroker

/-- `submit` goes through the router; every other call is one of the broker: the router hands
    `on_bar` and `cancel_all` on as they are, the rest is of the broker's other clients. -/
inductive RouterCall where
  | submit (att : Attempt) (req : OrderRequest)
  | venue (c : BrokerCall)

namespace RoutedBroker

/-- One call of the router, with the broker behind it. -/
def call (s : RoutedBroker) : RouterCall → Except PyError (BrokerAnswer × RoutedBroker)
  | .submit att req =>
    let (ack, router, broker) := s.router.submit att.venue s.broker att.now req
    .ok (.ack ack, ⟨router, broker⟩)
  | .venue c => do
    let (a, broker) ← s.broker.call c
    return (a, { s with broker := broker })

end RoutedBroker

/-- A call of the router takes the one to the other. -/
def RouterStep (s : RoutedBroker) (c : RouterCall) (a : BrokerAnswer) (s' : RoutedBroker) : Prop :=
  s.call c = .ok (a, s')

/-- One call of the router. -/
abbrev RouterEntry := Entry RoutedBroker RouterCall BrokerAnswer

/-- The log of a run of the router. -/
abbrev RouterLog := List RouterEntry

/-- The fills emitted in a run. -/
def RouterLog.fills (log : RouterLog) : List Fill := log.flatMap fun e => e.answer.emitted

/-- The client id that a call submits, through the router or past it. -/
def RouterCall.submitted : RouterCall → Option Uuid
  | .submit _ req => some req.clientOrderId
  | .venue (.submit _ req) => some req.clientOrderId
  | .venue _ => none

/-- The calls that set a level. -/
def RouterCall.SetsLevel : RouterCall → Prop
  | .submit .. => False
  | .venue c => c.SetsLevel

/-- No client id is submitted that the generator of the broker has still to hand out. -/
def RouterLog.OwnIds (log : RouterLog) : Prop :=
  ∀ e ∈ log, ∀ u, e.call.submitted = some u → ¬e.before.broker.ids.Pending u

/-- No take-profit and no liquidation price is set. -/
def RouterLog.SetsNoLevel (log : RouterLog) : Prop := ∀ e ∈ log, ¬e.call.SetsLevel

/-- The call `e` brought the first answer for an id: `ack`, to the request `req`. -/
structure Acknowledges (e : RouterEntry) (req : OrderRequest) (ack : OrderAck) : Prop where
  call : ∃ att, e.call = .submit att req ∧ att.reply e.before.broker req = some ack
  first : e.before.router.ackOf req.clientOrderId = none

/-- **One call at the broker**: nothing happens there, or one call of its own with the same
    fills, the same id and no level that was not set. -/
theorem RouterStep.broker {s s' : RoutedBroker} {c : RouterCall} {a : BrokerAnswer}
    (h : RouterStep s c a s') :
    (s'.broker = s.broker ∧ a.emitted = []) ∨
    ∃ c' a', s.broker.call c' = .ok (a', s'.broker) ∧ a'.emitted = a.emitted ∧
      (c'.SetsLevel → c.SetsLevel) ∧
      ∀ now req, c' = .submit now req → c.submitted = some req.clientOrderId := by
  cases c with
  | submit att req =>
    have hs' : s' = ⟨_, (s.router.submit att.venue s.broker att.now req).2.2⟩ :=
      (Prod.mk.inj (Except.ok.inj h)).2.symm
    have ha : a = .ack _ := (Prod.mk.inj (Except.ok.inj h)).1.symm
    -- the venue was reached, or it was not
    have hsent : s'.broker = s.broker ∨ s'.broker = (s.broker.submit att.venueNow req).2 := by
      rw [hs']
      cases hk : s.router.known.get? req.clientOrderId with
      | some known =>
        rw [OrderRouter.submit_acked _ _ _ _ hk]
        exact .inl rfl
      | none =>
        cases hreply : att.reply s.broker req with
        | none =>
          rw [OrderRouter.submit_failed _ _ _ _ hk hreply]
          exact att.send_cases s.broker req
        | some ack =>
          rw [OrderRouter.submit_replied _ _ _ _ hk hreply]
          exact att.send_cases s.broker req
    -- an answer from memory, or a call that failed before the venue, moves nothing
    rcases hsent with hsame | htaken
    · exact .inl ⟨hsame, by rw [ha]; rfl⟩
    · refine .inr ⟨.submit att.venueNow req, .ack (s.broker.submit att.venueNow req).1,
        by rw [htaken]; rfl, by rw [ha]; rfl, id, ?_⟩
      rintro now req' ⟨⟩
      rfl
  | venue c =>
    obtain ⟨⟨a', pb⟩, hcall, h⟩ := bind_eq_ok.mp h
    cases h
    refine .inr ⟨c, _, hcall, rfl, id, ?_⟩
    rintro now req rfl
    rfl

/-! ### The law of the broker, behind the router -/

/-- The broker, or one that differs from it in its generator only, has a history with the
    same fills. -/
def Recorded (pb : PaperBroker) (fills : List Fill) : Prop :=
  ∃ (g : IdGenerator) (log : BrokerLog), BookHistory (pb.withIds g) log ∧ log.fills = fills

section History

variable {cost : CostModel} {instruments : List Instrument} {ids : IdGenerator}
  {lam rate : Decimal} {s : RoutedBroker} {log : RouterLog}

/-- One more call is followed by its fills. -/
theorem RouterLog.fills_snoc (log : RouterLog) (e : RouterEntry) :
    RouterLog.fills (log ++ [e]) = log.fills ++ e.answer.emitted := by
  simp [RouterLog.fills]

/-- Clients with ids of their own: the broker itself has the history. -/
theorem history_of_ownIds
    (h : Run RouterStep ⟨.new, .new cost instruments ids lam rate⟩ s log) (hid : log.OwnIds) :
    ∃ blog : BrokerLog, BookHistory s.broker blog ∧ blog.fills = log.fills := by
  have hinv := h.invariant (fun s log => RouterLog.OwnIds log →
    ∃ blog : BrokerLog, BookHistory s.broker blog ∧ blog.fills = RouterLog.fills log) ?_ ?_
  · exact hinv hid
  · exact fun _ => ⟨[], .new .., rfl⟩
  · intro s log c a s' ih hstep hall
    obtain ⟨blog, hb, hf⟩ := ih fun e he => hall e (List.mem_append_left _ he)
    have hlast := hall _ (List.mem_append_right _ (List.mem_singleton_self _))
    rcases hstep.broker with ⟨hsame, hemit⟩ | ⟨c', a', hcall, hemit, -, hsub⟩
    · refine ⟨blog, hsame ▸ hb, ?_⟩
      rw [RouterLog.fills_snoc, hf, hemit, List.append_nil]
    · have hown : OwnId ⟨s.broker, c', a', s'.broker⟩ := fun now req hreq =>
        hlast _ (hsub now req hreq)
      refine ⟨_, hb.snoc hcall hown, ?_⟩
      rw [RouterLog.fills_snoc, BrokerLog.fills_snoc, hf, hemit]

/-- Runs without levels: with a generator that avoids the submitted ids, the broker has the
    history. -/
theorem history_of_setsNoLevel
    (h : Run RouterStep ⟨.new, .new cost instruments ids lam rate⟩ s log) (hset : log.SetsNoLevel)
    (g : IdGenerator) (hg : ∀ e ∈ log, ∀ u, e.call.submitted = some u → ¬g.Pending u) :
    ∃ blog : BrokerLog, BookHistory (s.broker.withIds g) blog ∧ blog.fills = log.fills := by
  -- by induction on the run: without levels the broker draws no identifier
  have hinv := h.invariant (fun s log => RouterLog.SetsNoLevel log →
    (∀ e ∈ log, ∀ u, e.call.submitted = some u → ¬g.Pending u) →
    s.broker.NoLevels ∧ ∃ blog : BrokerLog,
      BookHistory (s.broker.withIds g) blog ∧ blog.fills = RouterLog.fills log) ?_ ?_
  · exact (hinv hset hg).2
  · exact fun _ _ => ⟨PaperBroker.noLevels_new cost instruments ids lam rate, [], .new .., rfl⟩
  · intro s log c a s' ih hstep hset hg
    obtain ⟨hl, blog, hb, hf⟩ := ih (fun e he => hset e (List.mem_append_left _ he))
      fun e he => hg e (List.mem_append_left _ he)
    have hlast := List.mem_append_right log (List.mem_singleton_self (⟨s, c, a, s'⟩ : RouterEntry))
    -- the broker was not reached, or one call of it was made
    rcases hstep.broker with ⟨hsame, hemit⟩ | ⟨c', a', hcall, hemit, hlevel, hsub⟩
    · rw [hsame]
      refine ⟨hl, blog, hb, ?_⟩
      rw [RouterLog.fills_snoc, hf, hemit, List.append_nil]
    · obtain ⟨hl', hsim⟩ := PaperBroker.call_withIds g hl (fun h' => hset _ hlast (hlevel h')) hcall
      refine ⟨hl', ?_⟩
      -- the call is the same with other identifiers, or it only draws one
      rcases hsim with hcall' | ⟨hnone, hsame⟩
      · have hown : OwnId ⟨s.broker.withIds g, c', a', s'.broker.withIds g⟩ :=
          fun now req hreq => hg _ hlast _ (hsub now req hreq)
        refine ⟨_, hb.snoc hcall' hown, ?_⟩
        rw [RouterLog.fills_snoc, BrokerLog.fills_snoc, hf, hemit]
      · rw [hsame]
        refine ⟨blog, hb, ?_⟩
        rw [RouterLog.fills_snoc, hf, ← hemit, hnone, List.append_nil]

/-- There is always a generator that avoids finitely many ids. -/
theorem exists_avoiding (l : List Uuid) : ∃ g : IdGenerator, ∀ u ∈ l, ¬g.Pending u := by
  obtain ⟨m, hm⟩ : ∃ m : ℕ, ∀ u ∈ l.toFinset, u ≤ m := l.toFinset.exists_le
  refine ⟨⟨fun k => m + 1 + k, fun a b hab => by simpa using hab, 0⟩, ?_⟩
  rintro u hu ⟨k, -, rfl⟩
  have hle : m + 1 + k ≤ m := hm _ (List.mem_toFinset.mpr hu)
  omega

/-- **The broker behind the router** has a history, whatever the ids, as long as they are not
    those of its own orders. -/
theorem recorded_of_run
    (h : Run RouterStep ⟨.new, .new cost instruments ids lam rate⟩ s log)
    (hid : log.SetsNoLevel ∨ log.OwnIds) : Recorded s.broker log.fills := by
  rcases hid with hset | hown
  · obtain ⟨g, hg⟩ := exists_avoiding (log.filterMap fun e => e.call.submitted)
    obtain ⟨blog, hb, hf⟩ := history_of_setsNoLevel h hset g fun e he u hu =>
      hg u (List.mem_filterMap.mpr ⟨e, he, hu⟩)
    exact ⟨g, blog, hb, hf⟩
  · obtain ⟨blog, hb, hf⟩ := history_of_ownIds h hown
    exact ⟨s.broker.ids, blog, hb, hf⟩

end History

/-! ### The memory of the router -/

/-- **One submission**: an answered id is answered by the router alone; another one gets the
    reply of the venue, which is remembered, or is refused and forgotten. -/
theorem submit_cases {s s' : RoutedBroker} {att : Attempt} {req : OrderRequest} {a : BrokerAnswer}
    (h : RouterStep s (.submit att req) a s') :
    (∃ prev ack, s.router.known.get? req.clientOrderId = some (prev, ack) ∧ s' = s ∧
      a = .ack (if prev = req then ack
        else OrderRouter.refusal att.now req .duplicateClientId)) ∨
    (s.router.known.get? req.clientOrderId = none ∧ ∃ ack, att.reply s.broker req = some ack ∧
      a = .ack ack ∧
      s'.router.known = s.router.known.insert req.clientOrderId (req, ack)) ∨
    (s.router.known.get? req.clientOrderId = none ∧ att.reply s.broker req = none ∧
      a = .ack (OrderRouter.refusal att.now req .venueError) ∧
      s'.router.known = s.router.known) := by
  have hs : RoutedBroker.call s (.submit att req) = .ok (a, s') := h
  rw [RoutedBroker.call] at hs
  -- answered before, answered now, or not answered
  cases hk : s.router.known.get? req.clientOrderId with
  | some known =>
    rw [OrderRouter.submit_acked _ _ _ _ hk] at hs
    cases hs
    exact .inl ⟨known.1, known.2, rfl, rfl, rfl⟩
  | none =>
    refine .inr ?_
    cases hreply : att.reply s.broker req with
    | some ack =>
      rw [OrderRouter.submit_replied _ _ _ _ hk hreply] at hs
      cases hs
      exact .inl ⟨rfl, ack, rfl, rfl, rfl⟩
    | none =>
      rw [OrderRouter.submit_failed _ _ _ _ hk hreply] at hs
      cases hs
      exact .inr ⟨rfl, rfl, rfl, rfl⟩

/-- **Memory.** The router remembers for each id the request and the answer of the one call
    that acknowledged it, and nothing else. -/
def Memory (s : RoutedBroker) (log : RouterLog) : Prop :=
  ∀ u req ack, s.router.known.get? u = some (req, ack) ↔
    ∃ e ∈ log, req.clientOrderId = u ∧ Acknowledges e req ack

/-- An order is unknown to the router just when it has no acknowledgement. -/
theorem OrderRouter.ackOf_eq_none {r : OrderRouter} {u : Uuid} :
    r.ackOf u = none ↔ r.known.get? u = none := by
  simp [ackOf]

/-- Calls past the router acknowledge nothing. -/
theorem not_acknowledges_venue {s s' : RoutedBroker} {c : BrokerCall} {a : BrokerAnswer}
    {req : OrderRequest} {ack : OrderAck} :
    ¬Acknowledges ⟨s, .venue c, a, s'⟩ req ack := by
  rintro ⟨⟨att, hcall, -⟩, -⟩
  cases hcall

/-- **Step lemma**: what the router remembers after one call more. -/
theorem memory_step {s s' : RoutedBroker} {log : RouterLog} {c : RouterCall} {a : BrokerAnswer}
    (hm : Memory s log) (h : RouterStep s c a s') : Memory s' (log ++ [⟨s, c, a, s'⟩]) := by
  intro u req ack
  -- what is remembered was acknowledged before, or by this call
  have hsplit : (∃ e ∈ log ++ [(⟨s, c, a, s'⟩ : RouterEntry)], req.clientOrderId = u ∧
      Acknowledges e req ack) ↔ s.router.known.get? u = some (req, ack) ∨
      (req.clientOrderId = u ∧ Acknowledges ⟨s, c, a, s'⟩ req ack) := by
    rw [hm u req ack]
    constructor
    · rintro ⟨e, he, hu, hack⟩
      rcases List.mem_append.mp he with he | he
      · exact .inl ⟨e, he, hu, hack⟩
      · rw [List.mem_singleton] at he
        subst he
        exact .inr ⟨hu, hack⟩
    · rintro (⟨e, he, hu, hack⟩ | ⟨hu, hack⟩)
      · exact ⟨e, List.mem_append_left _ he, hu, hack⟩
      · exact ⟨_, List.mem_append_right _ (List.mem_singleton_self _), hu, hack⟩
  rw [hsplit]
  cases c with
  | venue c =>
    obtain ⟨⟨a', pb⟩, hcall, h⟩ := bind_eq_ok.mp h
    cases h
    exact ⟨.inl, fun h => h.resolve_right fun h' => not_acknowledges_venue h'.2⟩
  | submit att req₁ =>
    rcases submit_cases h with ⟨prev, ack₁, hk, rfl, -⟩ | ⟨hk, ack₁, hreply, -, hknown⟩ |
      ⟨hk, hreply, -, hknown⟩
    · -- the id was answered before, so this call acknowledges nothing
      refine ⟨.inl, fun h => h.resolve_right ?_⟩
      rintro ⟨-, ⟨att', hcall, -⟩, hfirst⟩
      cases hcall
      rw [OrderRouter.ackOf_eq_none] at hfirst
      cases hk.symm.trans hfirst
    · rw [hknown, Dict.get?_insert]
      split
      · -- the id of this call: its own reply is what is remembered
        rename_i hu
        subst hu
        constructor
        · rintro ⟨⟩
          exact .inr ⟨rfl, ⟨att, rfl, hreply⟩, OrderRouter.ackOf_eq_none.mpr hk⟩
        · rintro (hold | ⟨-, ⟨att', hcall, hreply'⟩, -⟩)
          · cases hk.symm.trans hold
          · cases hcall
            cases hreply.symm.trans hreply'
            rfl
      · rename_i hu
        refine ⟨.inl, fun h => h.resolve_right ?_⟩
        rintro ⟨hu', ⟨att', hcall, -⟩, -⟩
        cases hcall
        exact hu hu'
    · -- the failed call has no reply
      rw [hknown]
      refine ⟨.inl, fun h => h.resolve_right ?_⟩
      rintro ⟨-, ⟨att', hcall, hreply'⟩, -⟩
      cases hcall
      cases hreply.symm.trans hreply'

/-! ### The law -/

/-- What holds of the router and its broker after any sequence of calls. -/
structure RoutingLaw (s : RoutedBroker) (log : RouterLog) : Prop where
  /-- A client id waits in at most one queue of at most one instrument, once. -/
  live : ∀ x i st j st', s.broker.state.get? i = some st → s.broker.state.get? j = some st' →
    x ∈ st.marketQueue ++ st.stopOrders → x ∈ st'.marketQueue ++ st'.stopOrders →
    i = j ∧ (st.marketQueue ++ st.stopOrders).count x = 1
  /-- No client id is executed twice. -/
  once : (log.fills.map Fill.clientOrderId).Nodup
  /-- The remembered answers are those that some call brought first. -/
  remembered : ∀ u ack, s.router.ackOf u = some ack ↔
    ∃ e ∈ log, ∃ req, req.clientOrderId = u ∧ Acknowledges e req ack
  /-- That call returned the answer. -/
  acked : ∀ e ∈ log, ∀ req ack, Acknowledges e req ack → e.answer = .ack ack
  /-- After it the id does not reach the venue: the same request gets the first answer, any
      other one is refused, and neither the router nor the broker changes. -/
  repeated : ∀ pre e post, log = pre ++ e :: post → ∀ e₀ ∈ pre, ∀ req₀ ack,
    Acknowledges e₀ req₀ ack → ∀ att req, e.call = .submit att req →
    req.clientOrderId = req₀.clientOrderId → e.after = e.before ∧
    (req = req₀ → e.answer = .ack ack) ∧
    (req ≠ req₀ → e.answer = .ack (OrderRouter.refusal att.now req .duplicateClientId))
  /-- A submission of an unanswered id that brings nothing back leaves no answer behind. -/
  failed : ∀ e ∈ log, ∀ att req, e.call = .submit att req →
    e.before.router.ackOf req.clientOrderId = none → att.reply e.before.broker req = none →
    e.after.router.ackOf req.clientOrderId = none ∧
    e.answer = .ack (OrderRouter.refusal att.now req .venueError)

/-- The queues of a recorded broker hold no id twice. -/
theorem Recorded.live {pb : PaperBroker} {fills : List Fill} (h : Recorded pb fills) {x : Uuid}
    {i j : String} {st st' : InstState} (hst : pb.state.get? i = some st)
    (hst' : pb.state.get? j = some st') (hx : x ∈ st.marketQueue ++ st.stopOrders)
    (hx' : x ∈ st'.marketQueue ++ st'.stopOrders) :
    i = j ∧ (st.marketQueue ++ st.stopOrders).count x = 1 := by
  obtain ⟨g, blog, hb, -⟩ := h
  obtain ⟨o, ho, -, hi⟩ := (hb.book.live i st hst x).mpr (List.mem_append.mp hx)
  obtain ⟨o', ho', -, hj⟩ := (hb.book.live j st' hst' x).mpr (List.mem_append.mp hx')
  cases ho.symm.trans ho'
  exact ⟨hi.symm.trans hj, List.count_eq_one_of_mem (hb.book.nodup i st hst) hx⟩

/-- **The routing law.** Over any sequence of submissions through the router, whose calls of
    the venue may fail before or after the broker has taken the request, and of other calls of
    the broker: see `RoutingLaw`.  Only where levels are set, from which the broker makes
    orders of its own, must the clients use ids of their own. -/
theorem routing (cost : CostModel) (instruments : List Instrument) (ids : IdGenerator)
    (lam rate : Decimal) {s : RoutedBroker} {log : RouterLog}
    (h : Run RouterStep ⟨.new, .new cost instruments ids lam rate⟩ s log)
    (hid : log.SetsNoLevel ∨ log.OwnIds) : RoutingLaw s log := by
  have hrec := recorded_of_run h hid
  have hmem : ∀ {s log}, Run RouterStep ⟨.new, .new cost instruments ids lam rate⟩ s log →
      Memory s log := by
    intro s log h
    refine h.invariant Memory (fun u req ack => ?_) fun s log c a s' hm hs => memory_step hm hs
    constructor
    · rintro ⟨⟩
    · rintro ⟨e, he, -⟩
      exact (List.not_mem_nil he).elim
  -- the broker behind the router was driven by its own calls, and the router remembers the log
  constructor
  case live => exact fun x i st j st' => hrec.live
  case once =>
    obtain ⟨g, blog, hb, hf⟩ := hrec
    rw [← hf]
    exact hb.once
  case remembered =>
    intro u ack
    rw [OrderRouter.ackOf, Option.map_eq_some_iff]
    constructor
    · rintro ⟨⟨req, ack'⟩, hk, rfl⟩
      obtain ⟨e, he, hu, hack⟩ := (hmem h u req ack').mp hk
      exact ⟨e, he, req, hu, hack⟩
    · rintro ⟨e, he, req, hu, hack⟩
      exact ⟨(req, ack), (hmem h u req ack).mpr ⟨e, he, hu, hack⟩, rfl⟩
  case acked =>
    intro e he req ack hack
    obtain ⟨pre, post, rfl⟩ := List.append_of_mem he
    obtain ⟨⟨att, hcall, hreply⟩, hfirst⟩ := hack
    have hstep := (h.before_entry rfl).2
    rw [hcall] at hstep
    rw [OrderRouter.ackOf_eq_none] at hfirst
    rcases submit_cases hstep with ⟨prev, ack', hk, -⟩ | ⟨-, ack', hreply', ha, -⟩ | ⟨-, hreply', -⟩
    · cases hk.symm.trans hfirst
    · cases hreply.symm.trans hreply'
      exact ha
    · cases hreply.symm.trans hreply'
  case repeated =>
    rintro pre e post rfl e₀ he₀ req₀ ack hack att req hcall hu
    obtain ⟨hrun, hstep⟩ := h.before_entry rfl
    have hk : e.before.router.known.get? req.clientOrderId = some (req₀, ack) :=
      (hmem hrun _ _ _).mpr ⟨e₀, he₀, hu.symm, hack⟩
    rw [hcall] at hstep
    rcases submit_cases hstep with ⟨prev, ack', hk', hs, ha⟩ | ⟨hk', -⟩ | ⟨hk', -⟩
    · cases hk.symm.trans hk'
      refine ⟨hs, fun hreq => ?_, fun hreq => ?_⟩
      · rw [ha, if_pos hreq.symm]
      · rw [ha, if_neg (Ne.symm hreq)]
    · cases hk.symm.trans hk'
    · cases hk.symm.trans hk'
  case failed =>
    intro e he att req hcall hfirst hreply
    obtain ⟨pre, post, rfl⟩ := List.append_of_mem he
    have hstep := (h.before_entry rfl).2
    rw [hcall] at hstep
    rw [OrderRouter.ackOf_eq_none] at hfirst ⊢
    rcases submit_cases hstep with ⟨prev, ack', hk, -⟩ | ⟨-, ack', hreply', -⟩ | ⟨hk, -, ha, hknown⟩
    · cases hk.symm.trans hfirst
    · cases hreply.symm.trans hreply'
    · rw [hknown]
      exact ⟨hk, ha⟩

/-- An entry whose acceptance is lost on the way back and that is sent again, one that is
    repeated and changed after its answer, and the bar that fills both. -/
def sampleRouting : List RouterCall :=
  [.submit ⟨1, 1, .after (.valueError "connection lost"), none⟩ (sampleOrder 7 .long none),
    .submit ⟨1, 1, .none, none⟩ (sampleOrder 7 .long none),
    .submit ⟨1, 1, .none, none⟩ (sampleOrder 9 .long none),
    .submit ⟨2, 2, .none, none⟩ (sampleOrder 9 .long none),
    .submit ⟨2, 2, .none, none⟩ (sampleOrder 9 .short none),
    .venue (.onBar ⟨"BTC", 3, 100, 105, 95, 101, 7⟩)]

/-- The sample run fills each of the two entries once. -/
theorem routing_sample : ∃ s log,
    execE RoutedBroker.call ⟨.new, sampleBroker⟩ sampleRouting = .ok (s, log) ∧
      (RouterLog.fills log).map Fill.clientOrderId = [7, 9] ∧ s.router.venueCalls = 3 ∧
      RoutingLaw s log := by
  obtain ⟨s, log, hr, hseen⟩ := execE_any RoutedBroker.call ⟨.new, sampleBroker⟩ sampleRouting
    (fun r => decide ((RouterLog.fills r.2).map Fill.clientOrderId = [7, 9] ∧
      r.1.router.venueCalls = 3))
    (by decide +kernel)
  obtain ⟨hfills, hcalls⟩ := of_decide_eq_true hseen
  refine ⟨s, log, hr, hfills, hcalls, ?_⟩
  refine routing sampleCost [sampleInstrument] evenIds _ _ (Run.execE RoutedBroker.call hr)
    (.inl fun e he => ?_)
  have hmem : e.call ∈ sampleRouting := calls_execE _ hr ▸ List.mem_map_of_mem he
  have hnone : ∀ c ∈ sampleRouting, ¬c.SetsLevel := by
    simp [sampleRouting, RouterCall.SetsLevel, BrokerCall.SetsLevel]
  exact hnone _ hmem

end FuzzHelm
