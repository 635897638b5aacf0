import FuzzHelm.Backtest.Loop
import FuzzHelm.Backtest.PlanBar
import FuzzHelm.Execution.OrderBook

namespace FuzzHelm

open Lib

/-!
# The loop represents a plan

The representation of a plan by the state of the loop, and the parts of a step before the
bar: the clock, the funding rate and the latch.

* `Represents` — the broker carries the plan and the records of the loop describe it;
* `Represents.setLevels` — the levels of the instrument are not part of the plan;
* `Represents.cancelPendingIncreases` — the cancellation pass carries out `Plan.latch`;
* `Represents.beginBar` — the first part of a step.
-/

/-- **The loop represents the plan.**  The broker carries it for the one instrument there is,
    the account holds its position, and every order that is live is under the supervision of
    the loop, with a record that says what it is. -/
structure Represents (l : TradingLoop) (st : InstState) (p : Plan) : Prop where
  book : OrderBook l.broker
  inst : l.broker.state.get? l.sym = some st
  single : ∀ i s, l.broker.state.get? i = some s → i = l.sym
  spec : st.spec = l.instrument
  carries : Carries st l.broker.orders p
  qty : l.positionQty = p.position
  lots : p.Backed fun _ target _ => IsMultiple l.instrument.stepSize.1 target
  times : ∀ c o, l.broker.orders.get? c = some o → o.status = .new →
    o.req.tsCreatedNs ≤ l.clock.t
  supervised : ∀ c o, l.broker.orders.get? c = some o → o.status = .new →
    c ∈ l.openOrders ∧ ∃ r, l.orders.get? c = some r ∧ r.status.isFinal = false ∧
      r.request.otype = o.req.otype ∧ r.request.reduceOnly = o.req.reduceOnly
  stop : ∀ s ∈ p.stops, ∃ r, l.orders.get? s.coid = some r ∧ r.role = "stop" ∧
    r.decisionNs = some s.decisionNs
  close : ∀ c, p.pending = .close c → ∃ r, l.orders.get? c = some r ∧
    r.role ≠ Action.enter.role ∧ r.role ≠ Action.flip.role
  opening : ∀ c target s d, p.pending = .opening c target s d →
    (∃ r, l.orders.get? c = some r ∧ r.decisionNs = some d) ∧
      ∃ m, l.entries.get? c = some m ∧ m.decisionNs = d
  ids : ∀ u, l.broker.ids.Pending u →
    l.router.known.get? u = none ∧ l.orders.get? u = none
  openPos : p.position ≠ 0 → ∃ r, l.openPos = some r ∧ r.openingDecisionNs = p.opened

/-- What a part of a step leaves alone. -/
structure Keeps (l l' : TradingLoop) : Prop where
  instrument : l'.instrument = l.instrument
  cfg : l'.cfg = l.cfg
  clock : l'.clock = l.clock
  fsm : l'.fsm = l.fsm
  index : l'.index = l.index
  lastOpen : l'.lastOpen = l.lastOpen

namespace Keeps

/-- Nothing has changed. -/
theorem refl (l : TradingLoop) : Keeps l l := ⟨rfl, rfl, rfl, rfl, rfl, rfl⟩

/-- What two parts keep. -/
theorem trans {l l' l'' : TradingLoop} (h : Keeps l l') (h' : Keeps l' l'') : Keeps l l'' :=
  ⟨h'.instrument.trans h.instrument, h'.cfg.trans h.cfg, h'.clock.trans h.clock,
    h'.fsm.trans h.fsm, h'.index.trans h.index, h'.lastOpen.trans h.lastOpen⟩

end Keeps

namespace Represents

variable {l l' : TradingLoop} {st st' : InstState} {p : Plan}

/-! ### Live orders of the loop -/

/-- What is live waits for the instrument of the loop. -/
theorem live_cases (h : Represents l st p) {c : Uuid} {o : Order}
    (ho : l.broker.orders.get? c = some o) (hnew : o.status = .new) :
    o.req.instrument = l.sym ∧ (c ∈ p.pending.queue ∨ ∃ s ∈ p.stops, c = s.coid) := by
  obtain ⟨s, hs⟩ := h.book.known _ c ⟨o, ho, hnew, rfl⟩
  have hinst := h.single _ s hs
  refine ⟨hinst, ?_⟩
  rcases (h.book.live l.sym st h.inst c).mp ⟨o, ho, hnew, hinst⟩ with hq | hq
  · left
    rwa [← h.carries.queue]
  · right
    rw [h.carries.stops, List.mem_map] at hq
    obtain ⟨s, hmem, rfl⟩ := hq
    exact ⟨s, hmem, rfl⟩

/-- The orders of the stops of the plan are live stop orders. -/
theorem stop_live (h : Represents l st p) {s : Protection} (hs : s ∈ p.stops) :
    ∃ o, l.broker.orders.get? s.coid = some o ∧ o.status = .new ∧ o.req.otype = .stopMarket := by
  rw [Plan.stops, List.mem_append, Option.mem_toList, Option.mem_toList] at hs
  rcases hs with hs | hs
  · obtain ⟨o, ho, hnew, htype, -⟩ := h.carries.stop s hs
    exact ⟨o, ho, hnew, htype⟩
  · cases hp : p.pending with
    | idle => rw [hp] at hs; cases hs
    | close c => rw [hp] at hs; cases hs
    | opening c target s' d =>
      rw [hp] at hs
      obtain ⟨o, ho, hnew, htype, -⟩ := (h.carries.opening c target s' d hp).2 s hs
      exact ⟨o, ho, hnew, htype⟩

/-! ### Levels and the clock -/

/-- The levels and the statistics of the instrument are not part of the plan. -/
theorem setLevels (h : Represents l st p)
    (hspec : st'.spec = st.spec) (hpos : st'.position = st.position)
    (hqueue : st'.marketQueue = st.marketQueue) (hstops : st'.stopOrders = st.stopOrders) :
    Represents { l with broker := { l.broker with state := l.broker.state.insert l.sym st' } }
      st' p where
  book := (h.book.setLevels h.inst hspec hpos hqueue hstops).1
  inst := Dict.get?_insert_self ..
  single := by
    intro i s hs
    change (l.broker.state.insert l.sym st').get? i = some s at hs
    rw [Dict.get?_insert] at hs
    split at hs
    · rename_i heq
      exact heq.symm
    · exact h.single i s hs
  spec := hspec.trans h.spec
  carries := ⟨hpos.trans h.carries.position, hqueue.trans h.carries.queue,
    hstops.trans h.carries.stops, h.carries.stop, h.carries.close, h.carries.opening⟩
  qty := h.qty
  lots := h.lots
  times := h.times
  supervised := h.supervised
  stop := h.stop
  close := h.close
  opening := h.opening
  ids := h.ids
  openPos := h.openPos

/-- A take-profit keeps the representation. -/
theorem setTakeProfit (h : Represents l st p) {price : Option Decimal} {side : Option Side}
    {broker : PaperBroker} (hb : l.broker.setTakeProfit l.sym price side = .ok broker) :
    ∃ st', Represents { l with broker := broker } st' p ∧ st'.lastOpenNs = st.lastOpenNs := by
  rw [PaperBroker.setTakeProfit, bind_eq_ok] at hb
  obtain ⟨s, hs, hb⟩ := hb
  rw [PaperBroker.require_eq_ok, h.inst] at hs
  cases hs
  split at hb
  · cases hb
  · cases hb
    exact ⟨_, h.setLevels rfl rfl rfl rfl, rfl⟩

/-- A price of the liquidation keeps the representation. -/
theorem setLiquidationPrice (h : Represents l st p) {price : Option Decimal}
    {broker : PaperBroker} (hb : l.broker.setLiquidationPrice l.sym price = .ok broker) :
    ∃ st', Represents { l with broker := broker } st' p ∧ st'.lastOpenNs = st.lastOpenNs ∧
      st'.lastClose = st.lastClose := by
  rw [PaperBroker.setLiquidationPrice, bind_eq_ok] at hb
  obtain ⟨s, hs, hb⟩ := hb
  rw [PaperBroker.require_eq_ok, h.inst] at hs
  cases hs
  cases hb
  exact ⟨_, h.setLevels rfl rfl rfl rfl, rfl, rfl⟩

/-- A rate keeps the representation. -/
theorem setFundingRate (h : Represents l st p) {rate : Decimal} {broker : PaperBroker}
    (hb : l.broker.setFundingRate l.sym rate = .ok broker) :
    ∃ st', Represents { l with broker := broker } st' p ∧ st'.lastOpenNs = st.lastOpenNs := by
  rw [PaperBroker.setFundingRate, bind_eq_ok] at hb
  obtain ⟨s, hs, hb⟩ := hb
  rw [PaperBroker.require_eq_ok, h.inst] at hs
  cases hs
  cases hb
  exact ⟨_, h.setLevels rfl rfl rfl rfl, rfl⟩

/-- Time passes. -/
theorem setClock (h : Represents l st p) (clock : ManualClock) (hle : l.clock.t ≤ clock.t) :
    Represents { l with clock := clock } st p :=
  { h with times := fun c o ho hnew => (h.times c o ho hnew).trans hle }

/-! ### The funding rate -/

/-- The funding keeps the representation. -/
theorem applyFundingRate (h : Represents l st p) {tOpen closeNs : ℤ}
    (hl : l.applyFundingRate tOpen closeNs = .ok l') :
    ∃ st', Represents l' st' p ∧ Keeps l l' ∧ st'.lastOpenNs = st.lastOpenNs := by
  unfold TradingLoop.applyFundingRate at hl
  split at hl
  · cases hl
    exact ⟨st, h, .refl l, rfl⟩
  · rw [bind_eq_ok] at hl
    obtain ⟨broker, hb, hl⟩ := hl
    cases hl
    obtain ⟨st', hrep, hlast⟩ := h.setFundingRate hb
    exact ⟨st', { hrep with }, ⟨rfl, rfl, rfl, rfl, rfl, rfl⟩, hlast⟩

/-! ### The latch -/

/-- The order is not live at the broker. -/
def Dead (l : TradingLoop) (c : Uuid) : Prop :=
  ∀ o, l.broker.orders.get? c = some o → o.status ≠ .new

/-- The record of an order that is known is answered. -/
theorem recordOf_eq_ok {c : Uuid} {r : OrderRecord} :
    l.recordOf c = .ok r ↔ l.orders.get? c = some r := by
  unfold TradingLoop.recordOf
  cases l.orders.get? c <;> simp

/-- A record of an order that would open a position. -/
def IsEntry (r : OrderRecord) : Prop := r.request.otype = .market ∧ r.request.reduceOnly = false

/-- A record of a stop that was sent with one of the `cancelled` decisions. -/
def IsStopOf (cancelled : List (Option ℤ)) (r : OrderRecord) : Prop :=
  r.role = "stop" ∧ r.decisionNs ∈ cancelled

/-- A withdrawn order is dead, the others are what they were. -/
theorem withdraw_dead {c x : Uuid} {o : Order} (entries : Dict Uuid EntryMeta)
    (h : c = x ∨ Dead l x) :
    Dead { l with broker := l.broker.withdraw c o st, entries := entries } x := by
  intro ox hx
  change (l.broker.orders.insert c _).get? x = some ox at hx
  rw [Dict.get?_insert] at hx
  split at hx
  · cases hx
    simp
  · rename_i hne
    exact h.resolve_left hne ox hx

section Loops

variable {cs : List Uuid} {cancelled : List (Option ℤ)} {c : Uuid} {o : Order}
  {r : OrderRecord}

/-- An order that is no live entry is passed over. -/
theorem cancelEntries_pass {x : Uuid}
    (hx : ∀ r, l.orders.get? x = some r → IsEntry r → Dead l x)
    (h : TradingLoop.cancelEntries (x :: cs) l = .ok (cancelled, l')) :
    TradingLoop.cancelEntries cs l = .ok (cancelled, l') := by
  rw [TradingLoop.cancelEntries, bind_eq_ok] at h
  obtain ⟨r, hr, h⟩ := h
  rw [recordOf_eq_ok] at hr
  split at h
  · rename_i hentry
    rw [PaperBroker.cancel_dead (hx r hr hentry)] at h
    exact h
  · exact h

/-- Entries that are dead are not cancelled, and nothing changes. -/
theorem cancelEntries_dead
    (hdead : ∀ x ∈ cs, ∀ r, l.orders.get? x = some r → IsEntry r → Dead l x)
    (h : TradingLoop.cancelEntries cs l = .ok (cancelled, l')) : cancelled = [] ∧ l' = l := by
  induction cs with
  | nil =>
    cases h
    exact ⟨rfl, rfl⟩
  | cons x cs ih =>
    exact ih (fun y hy => hdead y (List.mem_cons_of_mem _ hy))
      (cancelEntries_pass (hdead x (List.mem_cons_self ..)) h)

/-- The one live entry is cancelled, once. -/
theorem cancelEntries_live (hmem : c ∈ cs) (ho : l.broker.orders.get? c = some o)
    (hnew : o.status = .new) (hst : l.broker.state.get? o.req.instrument = some st)
    (hr : l.orders.get? c = some r) (hentry : IsEntry r)
    (hdead : ∀ x ∈ cs, ∀ r, l.orders.get? x = some r → IsEntry r → x = c ∨ Dead l x)
    (h : TradingLoop.cancelEntries cs l = .ok (cancelled, l')) :
    cancelled = [r.decisionNs] ∧
      l' = { l with broker := l.broker.withdraw c o st, entries := l.entries.erase c } := by
  induction cs with
  | nil => cases hmem
  | cons x cs ih =>
    rcases eq_or_ne x c with rfl | hne
    · rw [TradingLoop.cancelEntries, bind_eq_ok] at h
      obtain ⟨rx, hrx, h⟩ := h
      rw [recordOf_eq_ok, hr] at hrx
      cases hrx
      rw [if_pos (And.intro hentry.1 hentry.2), PaperBroker.cancel_live ho hnew hst] at h
      change (TradingLoop.cancelEntries cs _ >>= _) = _ at h
      rw [bind_eq_ok] at h
      obtain ⟨⟨rest, l₁⟩, hrest, h⟩ := h
      cases h
      -- after that no entry is live
      obtain ⟨rfl, rfl⟩ := cancelEntries_dead (fun y hy ry hry hey => withdraw_dead _
        ((hdead y (List.mem_cons_of_mem _ hy) ry hry hey).imp_left Eq.symm)) hrest
      exact ⟨rfl, rfl⟩
    · have hmem' := (List.mem_cons.mp hmem).resolve_left (Ne.symm hne)
      exact ih hmem' (fun y hy => hdead y (List.mem_cons_of_mem _ hy))
        (cancelEntries_pass (fun rx hrx hex =>
          (hdead x (List.mem_cons_self ..) rx hrx hex).resolve_left hne) h)

/-- An order that is no live stop of those decisions is passed over. -/
theorem cancelStops_pass {x : Uuid}
    (hx : ∀ r, l.orders.get? x = some r → IsStopOf cancelled r → Dead l x)
    (h : TradingLoop.cancelStops cancelled (x :: cs) l = .ok l') :
    TradingLoop.cancelStops cancelled cs l = .ok l' := by
  rw [TradingLoop.cancelStops, bind_eq_ok] at h
  obtain ⟨r, hr, h⟩ := h
  rw [recordOf_eq_ok] at hr
  split at h
  · rename_i hstop
    rw [PaperBroker.cancel_dead (hx r hr hstop)] at h
    exact h
  · exact h

/-- Stops that are dead are not cancelled, and nothing changes. -/
theorem cancelStops_dead
    (hdead : ∀ x ∈ cs, ∀ r, l.orders.get? x = some r → IsStopOf cancelled r → Dead l x)
    (h : TradingLoop.cancelStops cancelled cs l = .ok l') : l' = l := by
  induction cs with
  | nil =>
    cases h
    rfl
  | cons x cs ih =>
    exact ih (fun y hy => hdead y (List.mem_cons_of_mem _ hy))
      (cancelStops_pass (hdead x (List.mem_cons_self ..)) h)

/-- The one live stop of those decisions is cancelled. -/
theorem cancelStops_live (hmem : c ∈ cs) (ho : l.broker.orders.get? c = some o)
    (hnew : o.status = .new) (hst : l.broker.state.get? o.req.instrument = some st)
    (hr : l.orders.get? c = some r) (hstop : IsStopOf cancelled r)
    (hdead : ∀ x ∈ cs, ∀ r, l.orders.get? x = some r → IsStopOf cancelled r →
      x = c ∨ Dead l x)
    (h : TradingLoop.cancelStops cancelled cs l = .ok l') :
    l' = { l with broker := l.broker.withdraw c o st } := by
  induction cs with
  | nil => cases hmem
  | cons x cs ih =>
    -- the stop itself is withdrawn, and those that come after it are dead already
    rcases eq_or_ne x c with rfl | hne
    · rw [TradingLoop.cancelStops, bind_eq_ok] at h
      obtain ⟨rx, hrx, h⟩ := h
      rw [recordOf_eq_ok, hr] at hrx
      cases hrx
      rw [if_pos (And.intro hstop.1 hstop.2), PaperBroker.cancel_live ho hnew hst] at h
      exact cancelStops_dead (fun y hy ry hry hey => withdraw_dead l.entries
        ((hdead y (List.mem_cons_of_mem _ hy) ry hry hey).imp_left Eq.symm)) h
    -- another one is dead, and passing it changes nothing
    · have hmem' := (List.mem_cons.mp hmem).resolve_left (Ne.symm hne)
      exact ih hmem' (fun y hy => hdead y (List.mem_cons_of_mem _ hy))
        (cancelStops_pass (fun rx hrx hex =>
          (hdead x (List.mem_cons_self ..) rx hrx hex).resolve_left hne) h)

end Loops

/-- Every live order is under supervision, so an entry that is live is the pending opening. -/
theorem entry_pending (h : Represents l st p) {c : Uuid} {o : Order} {r : OrderRecord}
    (ho : l.broker.orders.get? c = some o) (hnew : o.status = .new)
    (hr : l.orders.get? c = some r) (hentry : IsEntry r) :
    ∃ target s d, p.pending = .opening c target s d := by
  obtain ⟨-, r', hr', -, htype, hred⟩ := h.supervised c o ho hnew
  rw [hr] at hr'
  cases hr'
  rcases (h.live_cases ho hnew).2 with hq | ⟨s, hs, rfl⟩
  · cases hp : p.pending with
    | idle => rw [hp] at hq; cases hq
    | close c' =>
      -- a closing only reduces
      rw [hp, Pending.queue, List.mem_singleton] at hq
      subst hq
      obtain ⟨o', ho', -, -, hred', -⟩ := h.carries.close c hp
      rw [ho] at ho'
      cases ho'
      rw [← hred, hentry.2] at hred'
      cases hred'
    | opening c' target s d =>
      rw [hp, Pending.queue, List.mem_singleton] at hq
      subst hq
      exact ⟨target, s, d, rfl⟩
  · obtain ⟨o', ho', -, htype'⟩ := h.stop_live hs
    rw [ho] at ho'
    cases ho'
    rw [← htype, hentry.1] at htype'
    cases htype'

/-- The plan without what was pending, after its orders have been withdrawn. -/
theorem idled (h : Represents l st p) {broker : PaperBroker} {entries : Dict Uuid EntryMeta}
    (hbook : OrderBook broker) (hinst : broker.state.get? l.sym = some st')
    (hsingle : ∀ i s, broker.state.get? i = some s → i = l.sym)
    (hspec : st'.spec = st.spec) (hpos : st'.position = st.position)
    (hqueue : st'.marketQueue = []) (hstops : st'.stopOrders = p.stop.toList.map Protection.coid)
    (hnew : ∀ x o, broker.orders.get? x = some o → o.status = .new →
      l.broker.orders.get? x = some o)
    (hkeep : ∀ s, p.stop = some s →
      broker.orders.get? s.coid = l.broker.orders.get? s.coid)
    (hids : ∀ u, broker.ids.Pending u → l.broker.ids.Pending u) :
    Represents { l with broker := broker, entries := entries } st' p.idle where
  book := hbook
  inst := hinst
  single := hsingle
  spec := hspec.trans h.spec
  carries := {
    position := hpos.trans h.carries.position
    queue := hqueue
    stops := by
      rw [hstops, Plan.stops]
      exact congrArg _ (List.append_nil _).symm
    stop := fun s hs => (h.carries.stop s hs).congr (hkeep s hs)
    close := fun _ hp => by cases hp
    opening := fun _ _ _ _ hp => by cases hp }
  qty := h.qty
  lots := h.lots.idle
  times := fun c o ho hlive => h.times c o (hnew c o ho hlive) hlive
  supervised := fun c o ho hlive => h.supervised c o (hnew c o ho hlive) hlive
  stop := by
    intro s hs
    rw [Plan.stops, List.mem_append] at hs
    rcases hs with hs | hs
    · exact h.stop s (List.mem_append_left _ hs)
    · cases hs
  close := fun _ hp => by cases hp
  opening := fun _ _ _ _ hp => by cases hp
  ids := fun u hu => h.ids u (hids u hu)
  openPos := h.openPos

/-- What the withdrawal of a live order leaves. -/
theorem withdraw_new {pb : PaperBroker} {c x : Uuid} {o ox : Order}
    (hx : (pb.withdraw c o st).orders.get? x = some ox) (hnew : ox.status = .new) :
    pb.orders.get? x = some ox := by
  change (pb.orders.insert c _).get? x = some ox at hx
  rw [Dict.get?_insert] at hx
  split at hx
  · cases hx
    cases hnew
  · exact hx

/-- Withdrawing an order takes it out of the queues of its instrument. -/
theorem withdraw_state (st : InstState) {pb : PaperBroker} {c : Uuid} {o : Order} {i : String}
    (hinst : o.req.instrument = i) (hsingle : ∀ j s, pb.state.get? j = some s → j = i) :
    (pb.withdraw c o st).state.get? i = some { st with
        marketQueue := st.marketQueue.erase c, stopOrders := st.stopOrders.erase c } ∧
      ∀ j s, (pb.withdraw c o st).state.get? j = some s → j = i := by
  subst hinst
  refine ⟨Dict.get?_insert_self .., fun j s hs => ?_⟩
  change (pb.state.insert o.req.instrument _).get? j = some s at hs
  rw [Dict.get?_insert] at hs
  split at hs
  · rename_i heq
    exact heq.symm
  · exact hsingle j s hs

/-- A live stop of the decision that is pending is the stop of the pending opening. -/
theorem stop_pending (h : Represents l st p) (hd : p.Dated l.lastOpen) {c x : Uuid}
    {target : Decimal} {s : Option Protection} {d : ℤ} {o : Order} {r : OrderRecord}
    (hp : p.pending = .opening c target s d) (hx : x ≠ c)
    (ho : l.broker.orders.get? x = some o) (hnew : o.status = .new)
    (hr : l.orders.get? x = some r) (hstop : IsStopOf [some d] r) :
    ∃ y, s = some y ∧ x = y.coid := by
  -- a live order is in the queue or a stop of the plan
  rcases (h.live_cases ho hnew).2 with hq | ⟨y, hy, rfl⟩
  · rw [hp, Pending.queue, List.mem_singleton] at hq
    exact absurd hq hx
  · rw [Plan.stops, List.mem_append, Option.mem_toList, Option.mem_toList] at hy
    rcases hy with hy | hy
    · -- the stop of the position is older than the decision
      obtain ⟨r', hr', -, hdns⟩ := h.stop y (by
        rw [Plan.stops, List.mem_append, Option.mem_toList]
        exact .inl hy)
      rw [hr] at hr'
      cases hr'
      have hyd : y.decisionNs = d := by
        have hmem := hstop.2
        rw [hdns, List.mem_singleton] at hmem
        exact Option.some.inj hmem
      obtain ⟨t, ht, hlt⟩ := hd.held y hy
      have hlast := (hd.pending c target s d hp).1
      rw [ht] at hlast
      cases hlast
      omega
    · rw [hp] at hy
      exact ⟨y, hy, rfl⟩

/-- The cancellation pass withdraws a pending opening with its stop. -/
theorem latch_opening (h : Represents l st p) (hd : p.Dated l.lastOpen) {c : Uuid}
    {target : Decimal} {s : Option Protection} {d : ℤ}
    (hp : p.pending = .opening c target s d) {o : Order} {entries : Dict Uuid EntryMeta}
    (ho : l.broker.orders.get? c = some o) (hnew : o.status = .new)
    (hl : TradingLoop.cancelStops [some d] l.openOrders
      { l with broker := l.broker.withdraw c o st, entries := entries } = .ok l') :
    ∃ st', Represents l' st' p.idle ∧ Keeps l l' ∧ st'.lastOpenNs = st.lastOpenNs := by
  have hstop := (h.carries.opening c target s d hp).2
  have hinst := (h.live_cases ho hnew).1
  -- nothing else waits in the queue, and no identifier is there twice
  have hqueue : st.marketQueue = [c] := by
    rw [h.carries.queue, hp]
    rfl
  have hstops : st.stopOrders = p.stop.toList.map Protection.coid ++
      s.toList.map Protection.coid := by
    rw [h.carries.stops, Plan.stops, hp, List.map_append]
    rfl
  have hnd := h.book.nodup l.sym st h.inst
  rw [hqueue, List.singleton_append, List.nodup_cons] at hnd
  obtain ⟨hc, hnd⟩ := hnd
  have hbook := (h.book.cancel (PaperBroker.cancel_live ho hnew (hinst ▸ h.inst))).1
  obtain ⟨hget, hsingle⟩ := withdraw_state st hinst h.single
  rw [hqueue, List.erase_cons_head, List.erase_of_not_mem hc] at hget
  have hkeep : ∀ x, x ≠ c →
      (l.broker.withdraw c o st).orders.get? x = l.broker.orders.get? x :=
    fun x hx => Dict.get?_insert_of_ne _ _ hx.symm
  have hheld : ∀ x, p.stop = some x → x.coid ≠ c := by
    rintro x hx rfl
    refine hc ?_
    rw [hstops, hx]
    simp
  -- of the stops of this decision only the one of the plan can be live
  have hpending : ∀ x ∈ l.openOrders, ∀ rx, l.orders.get? x = some rx → IsStopOf [some d] rx →
      (∃ y, s = some y ∧ x = y.coid) ∨
        Dead { l with broker := l.broker.withdraw c o st, entries := entries } x := by
    intro x hx rx hrx hstopx
    by_cases hxs : ∃ y, s = some y ∧ x = y.coid
    · exact .inl hxs
    · refine .inr fun ox hox hxnew => hxs ?_
      have hxc : x ≠ c := by
        rintro rfl
        have hgone : (l.broker.withdraw x o st).orders.get? x =
          some { o with status := .canceled } := Dict.get?_insert_self ..
        rw [hgone] at hox
        cases hox
        cases hxnew
      exact h.stop_pending hd hp hxc (withdraw_new hox hxnew) hxnew hrx hstopx
  cases s with
  | none =>
    obtain rfl := cancelStops_dead
      (l := { l with broker := l.broker.withdraw c o st, entries := entries }) (h := hl)
      fun x hx rx hrx hsx => (hpending x hx rx hrx hsx).resolve_left (by
        rintro ⟨_, hy, _⟩
        cases hy)
    refine ⟨_, h.idled hbook hget hsingle rfl rfl rfl ?_ (fun _ _ => withdraw_new)
      (fun x hx => hkeep _ (hheld x hx)) (fun _ hu => hu), ⟨rfl, rfl, rfl, rfl, rfl, rfl⟩, rfl⟩
    rw [hstops]
    exact List.append_nil _
  | some y =>
    have hmem : y ∈ p.stops := by
      rw [Plan.stops, hp]
      simp [Pending.stop]
    obtain ⟨oy, hoy, hynew, -⟩ := hstop y rfl
    obtain ⟨ry, hry, hrole, hdns⟩ := h.stop y hmem
    have hyc : y.coid ≠ c := by
      rintro rfl
      refine hc ?_
      rw [hstops]
      simp
    have hyinst := (h.live_cases hoy hynew).1
    have hoy' := (hkeep _ hyc).trans hoy
    rw [(hd.pending c target _ d hp).2 y rfl] at hdns
    obtain rfl := cancelStops_live
      (l := { l with broker := l.broker.withdraw c o st, entries := entries }) (h := hl)
      (h.supervised _ oy hoy hynew).1 hoy' hynew
      (hyinst ▸ hget) hry ⟨hrole, by rw [hdns]; exact List.mem_singleton_self _⟩
      fun x hx rx hrx hsx => (hpending x hx rx hrx hsx).imp_left (by
        rintro ⟨z, hz, rfl⟩
        cases hz
        rfl)
    have hbook' := (hbook.cancel (PaperBroker.cancel_live hoy' hynew (hyinst ▸ hget))).1
    obtain ⟨hget', hsingle'⟩ := withdraw_state
      { st with marketQueue := [], stopOrders := st.stopOrders } hyinst hsingle (c := y.coid)
    refine ⟨_, h.idled hbook' hget' hsingle' rfl rfl rfl ?_
      (fun x ox hx hxnew => withdraw_new (withdraw_new hx hxnew) hxnew)
      (fun x hx => ?_) (fun _ hu => hu), ⟨rfl, rfl, rfl, rfl, rfl, rfl⟩, rfl⟩
    · -- the stop of the position is another one
      rw [hstops] at hnd ⊢
      have hnot : y.coid ∉ p.stop.toList.map Protection.coid := fun hin =>
        (List.nodup_append.mp hnd).2.2 _ hin _ (List.mem_singleton_self y.coid) rfl
      change (p.stop.toList.map Protection.coid ++ [y.coid]).erase y.coid = _
      rw [List.erase_append_right _ hnot, List.erase_cons_head, List.append_nil]
    · have hne : x.coid ≠ y.coid := by
        intro heq
        rw [hstops, hx] at hnd
        exact (List.nodup_append.mp hnd).2.2 _ (List.mem_singleton_self x.coid) _
          (List.mem_singleton_self y.coid) heq
      have hget_x : ((l.broker.withdraw c o st).withdraw y.coid oy
          { st with marketQueue := [], stopOrders := st.stopOrders }).orders.get? x.coid =
            (l.broker.withdraw c o st).orders.get? x.coid :=
        Dict.get?_insert_of_ne _ _ hne.symm
      exact hget_x.trans (hkeep _ (hheld x hx))

/-- The first loop of the pass withdraws the pending opening. -/
theorem cancelEntries_opening (h : Represents l st p) {c : Uuid} {target : Decimal}
    {s : Option Protection} {d : ℤ} (hp : p.pending = .opening c target s d)
    {cancelled : List (Option ℤ)}
    (hl : TradingLoop.cancelEntries l.openOrders l = .ok (cancelled, l')) :
    ∃ o, l.broker.orders.get? c = some o ∧ o.status = .new ∧ o.req.otype = .market ∧
      o.req.reduceOnly = false ∧ cancelled = [some d] ∧
      l' = { l with broker := l.broker.withdraw c o st, entries := l.entries.erase c } := by
  obtain ⟨o, ho, hnew, htype, hred, -⟩ := (h.carries.opening c target s d hp).1
  obtain ⟨hmem, r, hr, -, hrtype, hrred⟩ := h.supervised c o ho hnew
  obtain ⟨⟨r', hr', hdns⟩, -⟩ := h.opening c target s d hp
  rw [hr] at hr'
  cases hr'
  have hinst := (h.live_cases ho hnew).1
  -- no other entry is live
  obtain ⟨hcancelled, hl'⟩ := cancelEntries_live hmem ho hnew (hinst ▸ h.inst) hr
    ⟨hrtype.trans htype, hrred.trans hred⟩ (fun x hx rx hrx hentry => by
      by_cases hxc : x = c
      · exact .inl hxc
      · refine .inr fun ox hox hxnew => hxc ?_
        obtain ⟨target', s', d', hp'⟩ := h.entry_pending hox hxnew hrx hentry
        rw [hp] at hp'
        cases hp'
        rfl) hl
  rw [hdns] at hcancelled
  exact ⟨o, ho, hnew, htype, hred, hcancelled, hl'⟩

/-- **The latch.** The cancellation pass withdraws the pending opening with its stop, and
    nothing else. -/
theorem cancelPendingIncreases (h : Represents l st p) (hd : p.Dated l.lastOpen)
    (hl : l.cancelPendingIncreases = .ok l') :
    ∃ st', Represents l' st' p.latch ∧ Keeps l l' ∧ st'.lastOpenNs = st.lastOpenNs := by
  rw [TradingLoop.cancelPendingIncreases, bind_eq_ok] at hl
  obtain ⟨⟨cancelled, l₁⟩, hentries, hl⟩ := hl
  by_cases hopen : ∃ c target s d, p.pending = .opening c target s d
  · obtain ⟨c, target, s, d, hp⟩ := hopen
    obtain ⟨o, ho, hnew, -, -, rfl, rfl⟩ := h.cancelEntries_opening hp hentries
    dsimp only at hl
    rw [if_neg (List.cons_ne_nil _ _), bind_eq_ok] at hl
    obtain ⟨l₂, hstops, hl⟩ := hl
    rw [bind_eq_ok] at hl
    obtain ⟨broker, htp, hl⟩ := hl
    cases hl
    obtain ⟨st₂, hrep, hkeeps, hlast⟩ := h.latch_opening hd hp ho hnew hstops
    obtain ⟨st₃, hrep', hlast'⟩ := hrep.setTakeProfit htp
    have hlatch : p.latch = p.idle := by
      unfold Plan.latch
      rw [hp]
    rw [hlatch]
    exact ⟨st₃, hrep', hkeeps.trans ⟨rfl, rfl, rfl, rfl, rfl, rfl⟩, hlast'.trans hlast⟩
  -- none waits, so that nothing is cancelled
  · obtain ⟨rfl, rfl⟩ := cancelEntries_dead (fun x hx r hr hentry o ho hnew => by
      obtain ⟨target, s, d, hp⟩ := h.entry_pending ho hnew hr hentry
      exact hopen ⟨x, target, s, d, hp⟩) hentries
    dsimp only at hl
    rw [if_pos rfl] at hl
    cases hl
    have hlatch : p.latch = p := by
      unfold Plan.latch
      split
      · rename_i hp
        exact absurd ⟨_, _, _, _, hp⟩ hopen
      · rfl
      · rfl
    rw [hlatch]
    exact ⟨st, h, .refl _, rfl⟩

/-! ### The first part of a step -/

/-- **Before the bar**: the plan is latched when the step finds the loop latched. -/
theorem beginBar {inp : StepInput} (h : Represents l st p) (hd : p.Dated l.lastOpen)
    (hl : l.beginBar inp = .ok l') :
    ∃ st', Represents l' st' (if l.latched then p.latch else p) ∧
      Keeps { l with clock := l'.clock } l' ∧ l'.clock.t = inp.bar.openTimeNs ∧
      st'.lastOpenNs = st.lastOpenNs := by
  rw [TradingLoop.beginBar, bind_eq_ok] at hl
  obtain ⟨clock, hclock, hl⟩ := hl
  rw [ManualClock.set_eq_ok] at hclock
  obtain ⟨hle, rfl⟩ := hclock
  have h₁ := h.setClock ⟨inp.bar.openTimeNs⟩ hle
  dsimp only at hl
  -- the rate of the funding moves neither orders nor plan
  have hfunding : ∃ l₂ st', Represents l₂ st' p ∧
      Keeps { l with clock := ⟨inp.bar.openTimeNs⟩ } l₂ ∧ st'.lastOpenNs = st.lastOpenNs ∧
      (if l₂.latched then l₂.cancelPendingIncreases else .ok l₂) = .ok l' := by
    split at hl
    · exact ⟨_, st, h₁, .refl _, rfl, hl⟩
    · rw [bind_eq_ok] at hl
      obtain ⟨l₂, hrate, hl⟩ := hl
      obtain ⟨st₂, h₂, hkeeps, hlast⟩ := h₁.applyFundingRate hrate
      exact ⟨l₂, st₂, h₂, hkeeps, hlast, hl⟩
  obtain ⟨l₂, st₂, h₂, hkeeps, hlast, hl⟩ := hfunding
  have hlatched : l₂.latched = l.latched := by
    rw [TradingLoop.latched, hkeeps.fsm]
    rfl
  rw [hlatched] at hl
  -- the latch comes after it, on an account that is halted already
  split at hl
  · rename_i hl₀
    rw [if_pos hl₀]
    have hd₂ : p.Dated l₂.lastOpen := hkeeps.lastOpen ▸ hd
    obtain ⟨st₃, h₃, hkeeps₃, hlast₃⟩ := h₂.cancelPendingIncreases hd₂ hl
    have hclock : l'.clock = ⟨inp.bar.openTimeNs⟩ := hkeeps₃.clock.trans hkeeps.clock
    refine ⟨st₃, h₃, ?_, by rw [hclock], hlast₃.trans hlast⟩
    rw [hclock]
    exact hkeeps.trans hkeeps₃
  · rename_i hl₀
    rw [if_neg hl₀]
    cases hl
    refine ⟨st₂, h₂, ?_, by rw [hkeeps.clock], hlast⟩
    rw [hkeeps.clock]
    exact hkeeps

end Represents

end FuzzHelm
