import FuzzHelm.Backtest.BookBar

namespace FuzzHelm

open Lib

/-!
# The orders that the loop sends

An order that the broker accepts as it stands becomes a part of the plan.

* `Sendable` — such a request, under the next id of the generator;
* `Sent`, `send_spec` — what sending it changes, and what it leaves alone;
* `Extends` — what a decision leaves alone;
* `SentAs`, `Sends` — an order as it has just been sent, and what the orders of a decision change;
* `Represents.sent` — the loop then represents a plan with that order;
* `Represents.submitClose`, `submitOpen`, `submitStop` — the three orders that `_submit` sends.
-/

/-! ### Sending -/

/-- A request that the broker accepts as it stands. -/
structure Sendable (l : TradingLoop) (st : InstState) (req : OrderRequest) : Prop where
  id : req.clientOrderId = l.nextId
  instrument : req.instrument = l.sym
  pos : 0 < req.qty
  lot : IsMultiple l.instrument.stepSize.1 req.qty
  large : req.reduceOnly = true ∨
    ∀ c, st.lastClose = some c → l.instrument.minNotional ≤ req.qty * c
  stop : PaperBroker.quantizedStop l.instrument req = some req.stopPrice
  created : req.tsCreatedNs ≤ l.clock.t

/-- What sending an order does to the loop. -/
structure Sent (l : TradingLoop) (st : InstState) (req : OrderRequest) (d : ℤ) (role : String)
    (l' : TradingLoop) (st' : InstState) : Prop where
  keeps : Keeps l l'
  portfolio : l'.portfolio = l.portfolio
  openPos : l'.openPos = l.openPos
  entries : l'.entries = l.entries
  book : OrderBook l'.broker
  inst : l'.broker.state.get? l.sym = some st'
  single : ∀ i s, l'.broker.state.get? i = some s → i = l.sym
  spec : st'.spec = st.spec
  position : st'.position = st.position
  queue : st'.marketQueue =
    st.marketQueue ++ (if req.otype = .market then [req.clientOrderId] else [])
  stops : st'.stopOrders =
    st.stopOrders ++ (if req.otype = .market then [] else [req.clientOrderId])
  lastOpen : st'.lastOpenNs = st.lastOpenNs
  lastClose : st'.lastClose = st.lastClose
  order : ∃ n, l'.broker.orders.get? req.clientOrderId = some (Order.accepted req n l.clock.t)
  orders : ∀ x, x ≠ req.clientOrderId →
    l'.broker.orders.get? x = l.broker.orders.get? x
  record : ∃ r, l'.orders.get? req.clientOrderId = some r ∧ r.request = req ∧ r.role = role ∧
    r.decisionNs = some d ∧ r.status.isFinal = false
  records : ∀ x, x ≠ req.clientOrderId → l'.orders.get? x = l.orders.get? x
  supervised : req.clientOrderId ∈ l'.openOrders ∧ ∀ x ∈ l.openOrders, x ∈ l'.openOrders
  ids : ∀ u, l'.broker.ids.Pending u → u ≠ req.clientOrderId ∧ l.broker.ids.Pending u
  router : ∀ u, u ≠ req.clientOrderId → l.router.known.get? u = none →
    l'.router.known.get? u = none

/-- What a decision leaves alone: also the records that there are. -/
structure Extends (l l' : TradingLoop) : Prop extends Keeps l l' where
  records : ∀ x r, l.orders.get? x = some r → l'.orders.get? x = some r

/-- Nothing is sent. -/
theorem Extends.refl (l : TradingLoop) : Extends l l := ⟨.refl l, fun _ _ h => h⟩

/-- What two parts extend. -/
theorem Extends.trans {l l' l'' : TradingLoop} (h : Extends l l') (h' : Extends l' l'') :
    Extends l l'' :=
  ⟨h.toKeeps.trans h'.toKeeps, fun x r hr => h'.records x r (h.records x r hr)⟩

/-- The loop knows the order `c` as the decision `d` has just sent it: live at the broker, with
    the record of a new order, under supervision. -/
structure SentAs (l : TradingLoop) (d : ℤ) (c : Uuid) : Prop where
  record : ∃ req n t role venueOrderId reason, req.clientOrderId = c ∧
    l.orders.get? c = some (.new req (some d) role .new none venueOrderId reason) ∧
    l.broker.orders.get? c = some (Order.accepted req n t)
  supervised : c ∈ l.openOrders

/-- What the decision `d` changes that sends the orders `ids`. -/
structure Sends (l l' : TradingLoop) (d : ℤ) (ids : List Uuid) : Prop extends Extends l l' where
  others : ∀ x, x ∉ ids → l'.orders.get? x = l.orders.get? x ∧
    l'.broker.orders.get? x = l.broker.orders.get? x
  supervised : ∀ x, x ∈ l'.openOrders ↔ x ∈ l.openOrders ∨ x ∈ ids
  sent : ∀ x ∈ ids, SentAs l' d x
  fresh : ∀ x ∈ ids, l.orders.get? x = none
  nodup : ids.Nodup
  openPos : l'.openPos = l.openPos
  entries : ∀ x m, l'.entries.get? x = some m → l.entries.get? x = some m ∨ m.decisionNs = d

/-- Nothing is sent. -/
theorem Sends.refl (l : TradingLoop) (d : ℤ) : Sends l l d [] where
  toExtends := .refl l
  others := fun _ _ => ⟨rfl, rfl⟩
  supervised := by simp
  sent := fun _ hx => by cases hx
  fresh := fun _ hx => by cases hx
  nodup := List.nodup_nil
  openPos := rfl
  entries := fun _ _ hm => .inl hm

/-- What two parts send, the first before the second. -/
theorem Sends.trans {l l' l'' : TradingLoop} {d : ℤ} {ids ids' : List Uuid}
    (h : Sends l l' d ids) (h' : Sends l' l'' d ids') : Sends l l'' d (ids ++ ids') := by
  -- an order that the second part sends has no record after the first
  have hdisj : ∀ x ∈ ids, x ∉ ids' := by
    intro x hx hx'
    obtain ⟨_, _, _, _, _, _, -, hr, -⟩ := (h.sent x hx).record
    rw [h'.fresh x hx'] at hr
    cases hr
  refine
    { toExtends := h.toExtends.trans h'.toExtends
      others := fun x hx => ?_
      supervised := fun x => ?_
      sent := fun x hx => ?_
      fresh := fun x hx => ?_
      nodup := ?_
      openPos := h'.openPos.trans h.openPos
      entries := fun x m hm => ?_ }
  · rw [List.mem_append, not_or] at hx
    obtain ⟨horders, hbroker⟩ := h.others x hx.1
    obtain ⟨horders', hbroker'⟩ := h'.others x hx.2
    exact ⟨horders'.trans horders, hbroker'.trans hbroker⟩
  · rw [h'.supervised, h.supervised, List.mem_append, or_assoc]
  · rcases List.mem_append.mp hx with hx | hx
    · obtain ⟨⟨req, n, t, role, v, reason, hid, hr, ho⟩, hmem⟩ := h.sent x hx
      obtain ⟨horders, hbroker⟩ := h'.others x (hdisj x hx)
      exact ⟨⟨req, n, t, role, v, reason, hid, horders.trans hr, hbroker.trans ho⟩,
        (h'.supervised x).mpr (.inl hmem)⟩
    · exact h'.sent x hx
  · rcases List.mem_append.mp hx with hx | hx
    · exact h.fresh x hx
    · by_cases hmem : x ∈ ids
      · exact h.fresh x hmem
      · exact (h.others x hmem).1.symm.trans (h'.fresh x hx)
  · rw [List.nodup_append]
    refine ⟨h.nodup, h'.nodup, fun x hx y hy heq => hdisj x hx ?_⟩
    rw [heq]
    exact hy
  · rcases h'.entries x m hm with hold | hnew
    · exact h.entries x m hold
    · exact .inr hnew

/-- The levels of the instrument are not orders. -/
theorem Sends.setTakeProfit {l l' : TradingLoop} {d : ℤ} {ids : List Uuid} (h : Sends l l' d ids)
    {i : String} {price : Option Decimal} {side : Option Side} {broker : PaperBroker}
    (hb : l'.broker.setTakeProfit i price side = .ok broker) :
    Sends l { l' with broker := broker } d ids := by
  have horders : broker.orders = l'.broker.orders := by
    rw [PaperBroker.setTakeProfit, bind_eq_ok] at hb
    obtain ⟨s, -, hb⟩ := hb
    split at hb
    · cases hb
    · cases hb
      rfl
  refine { h with others := fun x hx => ?_, sent := fun x hx => ?_ }
  · show l'.orders.get? x = _ ∧ broker.orders.get? x = _
    rw [horders]
    exact h.others x hx
  · obtain ⟨⟨req, n, t, role, v, reason, hid, hr, ho⟩, hmem⟩ := h.sent x hx
    exact ⟨⟨req, n, t, role, v, reason, hid, hr, (congrArg (·.get? x) horders).trans ho⟩, hmem⟩

/-- Another entry of the decision. -/
theorem Sends.insert_entry {l l' : TradingLoop} {d : ℤ} {ids : List Uuid} (h : Sends l l' d ids)
    (c : Uuid) {m : EntryMeta} (hm : m.decisionNs = d) :
    Sends l { l' with entries := l'.entries.insert c m } d ids where
  toExtends := ⟨⟨h.instrument, h.cfg, h.clock, h.fsm, h.index, h.lastOpen⟩, h.records⟩
  others := h.others
  supervised := h.supervised
  sent := fun x hx => ⟨(h.sent x hx).record, (h.sent x hx).supervised⟩
  fresh := h.fresh
  nodup := h.nodup
  openPos := h.openPos
  entries := by
    intro x m' hm'
    change (l'.entries.insert c m).get? x = some m' at hm'
    rw [Dict.get?_insert] at hm'
    split at hm'
    · cases hm'
      exact .inr hm
    · exact h.entries x m' hm'

/-- The order book does not mind a draw of an id. -/
theorem OrderBook.drawId {l : TradingLoop} (h : OrderBook l.broker) : OrderBook l.drawId.broker :=
  ⟨h.spec, h.live, h.nodup, h.known, h.keys, fun u hu => h.fresh u hu.of_next⟩

section

variable {l l' : TradingLoop} {st st' : InstState} {p p' : Plan} {req : OrderRequest} {d : ℤ}
  {role : String}

/-- The loop after the broker has accepted an order. -/
theorem send_eq (h : Represents l st p) (hs : Sendable l st req) (d : ℤ) (role : String)
    (reason : Option ExitReason) :
    l.drawId.send req d role reason =
      { l.drawId with
        router := (l.router.submit (TradingLoop.paperVenue l.clock.t) l.drawId.broker l.clock.t
          req).2.1
        broker := l.drawId.broker.accept l.clock.t req st
        orders := l.orders.insert req.clientOrderId
          (.new req (some d) role .new none (some (l.drawId.broker.seq + 1)) reason)
        openOrders :=
          if req.clientOrderId ∈ l.openOrders then l.openOrders
          else l.openOrders ++ [req.clientOrderId]
        reason := (l.drawId.send req d role reason).reason } := by
  have hpending : l.broker.ids.Pending req.clientOrderId := by
    rw [hs.id]
    exact l.broker.ids.pending_next
  have hst : l.drawId.broker.state.get? req.instrument = some st := by
    rw [hs.instrument]
    exact h.inst
  -- so the order is accepted
  have hsubmit : l.drawId.broker.submit l.clock.t req = _ :=
    PaperBroker.submit_accept l.clock.t (h.book.fresh _ hpending) hst hs.pos (h.spec ▸ hs.lot)
      (h.spec ▸ hs.large) (h.spec ▸ hs.stop)
  have hsend : (TradingLoop.paperVenue l.clock.t).send l.drawId.broker req =
      (.ok ⟨req.clientOrderId, some (l.drawId.broker.seq + 1), .new, none, l.clock.t⟩,
        l.drawId.broker.accept l.clock.t req st) := by
    change (Except.ok (l.drawId.broker.submit l.clock.t req).1,
      (l.drawId.broker.submit l.clock.t req).2) = _
    rw [hsubmit]
  have hrouter := OrderRouter.submit_new l.router (TradingLoop.paperVenue l.clock.t)
    l.drawId.broker l.clock.t req (h.ids _ hpending).1 hsend
  unfold TradingLoop.send
  rw [show l.drawId.router.submit (TradingLoop.paperVenue l.drawId.clock.t) l.drawId.broker
    l.drawId.clock.t req = _ from hrouter, hrouter]
  simp [OrderStatus.isFinal, TradingLoop.drawId]

/-- **Sending an order that the broker accepts.** -/
theorem send_spec (h : Represents l st p) (hs : Sendable l st req) (d : ℤ) (role : String)
    (reason : Option ExitReason) :
    ∃ st', Sent l st req d role (l.drawId.send req d role reason) st' := by
  have hpending : l.broker.ids.Pending req.clientOrderId := by
    rw [hs.id]
    exact l.broker.ids.pending_next
  have hnone := h.book.fresh _ hpending
  have hst : l.drawId.broker.state.get? req.instrument = some st := by
    rw [hs.instrument]
    exact h.inst
  have hid : ¬l.drawId.broker.ids.Pending req.clientOrderId := by
    rw [hs.id]
    exact l.broker.ids.not_pending_nextUuid
  have hbook : OrderBook (l.drawId.broker.accept l.clock.t req st) :=
    (h.book.drawId.accept req hnone hid hst).1
  -- no other order changes
  have hothers : ∀ x, x ≠ req.clientOrderId →
      (l.drawId.broker.accept l.clock.t req st).orders.get? x = l.broker.orders.get? x :=
    fun x hx => Dict.get?_insert_of_ne _ _ hx.symm
  rw [send_eq h hs]
  refine ⟨if req.otype = .market then
      { st with marketQueue := st.marketQueue ++ [req.clientOrderId] }
    else { st with stopOrders := st.stopOrders ++ [req.clientOrderId] },
    { keeps := ⟨rfl, rfl, rfl, rfl, rfl, rfl⟩, portfolio := rfl, openPos := rfl, entries := rfl
      book := hbook, inst := hs.instrument ▸ Dict.get?_insert_self .., single := ?_
      spec := by split <;> rfl
      position := by split <;> rfl
      queue := by split <;> simp
      stops := by split <;> simp
      lastOpen := by split <;> rfl
      lastClose := by split <;> rfl
      order := ⟨_, Dict.get?_insert_self ..⟩, orders := hothers
      record := ⟨_, Dict.get?_insert_self .., rfl, rfl, rfl, rfl⟩
      records := fun x hx => Dict.get?_insert_of_ne _ _ hx.symm
      supervised := ?_, ids := fun u hu => ⟨?_, hu.of_next⟩
      router := fun u hu hrouter => OrderRouter.submit_unknown _ _ _ _ _ hrouter hu.symm }⟩
  · intro i s hi
    change (l.broker.state.insert req.instrument _).get? i = some s at hi
    rw [Dict.get?_insert] at hi
    split at hi
    · rename_i heq
      rw [← heq, hs.instrument]
    · exact h.single i s hi
  · dsimp only
    split
    · rename_i hmem
      exact ⟨hmem, fun _ hx => hx⟩
    · exact ⟨List.mem_append_right _ (List.mem_singleton_self _),
        fun _ hx => List.mem_append_left _ hx⟩
  · rintro rfl
    exact hid hu

/-- A new order is none of those that are known. -/
theorem Represents.coid_ne (h : Represents l st p) (hr : Sendable l st req) {x : Uuid} {o : Order}
    (ho : l.broker.orders.get? x = some o) : x ≠ req.clientOrderId := by
  rintro rfl
  have hnone := h.book.fresh _ l.broker.ids.pending_next
  rw [hr.id] at ho
  rw [show l.broker.orders.get? l.broker.ids.nextUuid.1 = some o from ho] at hnone
  cases hnone

/-- The stops of a plan keep their orders and their records. -/
theorem Represents.stop_ne (h : Represents l st p) (hr : Sendable l st req) {s : Protection}
    (hs : s ∈ p.stops) : s.coid ≠ req.clientOrderId := by
  obtain ⟨o, ho, -⟩ := h.stop_live hs
  exact h.coid_ne hr ho

/-- One order that the broker accepts is all that is sent. -/
theorem Represents.sends (h : Represents l st p) (hr : Sendable l st req) (d : ℤ) (role : String)
    (reason : Option ExitReason) :
    Sends l (l.drawId.send req d role reason) d [req.clientOrderId] := by
  have hnone : l.orders.get? req.clientOrderId = none := by
    rw [hr.id]
    exact (h.ids _ l.broker.ids.pending_next).2
  -- the open orders have one more
  have hmem (x : Uuid) : x ∈ (if req.clientOrderId ∈ l.openOrders then l.openOrders
      else l.openOrders ++ [req.clientOrderId]) ↔ x ∈ l.openOrders ∨ x = req.clientOrderId := by
    split
    · rename_i hin
      refine ⟨.inl, ?_⟩
      rintro (hx | rfl)
      · exact hx
      · exact hin
    · rw [List.mem_append, List.mem_singleton]
  rw [send_eq h hr]
  refine
    { toExtends := ⟨⟨rfl, rfl, rfl, rfl, rfl, rfl⟩, fun x r hx => ?_⟩
      others := fun x hx => ?_
      supervised := fun x => by rw [hmem, List.mem_singleton]
      sent := fun x hx => ?_
      fresh := fun x hx => ?_
      nodup := List.nodup_singleton _
      openPos := rfl
      entries := fun _ _ hm => .inl hm }
  -- the records of other orders are as they were
  · refine (Dict.get?_insert_of_ne _ _ ?_).trans hx
    rintro rfl
    rw [hnone] at hx
    cases hx
  · have hne : req.clientOrderId ≠ x := fun heq => hx (List.mem_singleton.mpr heq.symm)
    exact ⟨Dict.get?_insert_of_ne _ _ hne, Dict.get?_insert_of_ne _ _ hne⟩
  · rw [List.mem_singleton] at hx
    subst hx
    exact ⟨⟨req, _, _, role, _, reason, rfl, Dict.get?_insert_self .., Dict.get?_insert_self ..⟩,
      (hmem _).mpr (.inr rfl)⟩
  · rw [List.mem_singleton] at hx
    rw [hx, hnone]

/-- **The loop with one more order** represents a plan whose orders the broker carries. -/
theorem Represents.sent (h : Represents l st p) (hr : Sendable l st req)
    (hs : Sent l st req d role l' st') {entries : Dict Uuid EntryMeta}
    (hpos : p'.position = p.position) (hopened : p'.opened = p.opened)
    (hlots : p'.Backed fun _ target _ => IsMultiple l.instrument.stepSize.1 target)
    (hcarries : Carries st' l'.broker.orders p')
    (hstop : ∀ s ∈ p'.stops, s ∈ p.stops ∨
      (s.coid = req.clientOrderId ∧ s.decisionNs = d ∧ role = "stop"))
    (hclose : ∀ c, p'.pending = .close c → ∃ r, l'.orders.get? c = some r ∧
      r.role ≠ Action.enter.role ∧ r.role ≠ Action.flip.role)
    (hopening : ∀ c target s d, p'.pending = .opening c target s d →
      (∃ r, l'.orders.get? c = some r ∧ r.decisionNs = some d) ∧
        ∃ m, entries.get? c = some m ∧ m.decisionNs = d) :
    Represents { l' with entries := entries } st' p' := by
  have hsym : l'.sym = l.sym := congrArg Instrument.symbolCanon hs.keeps.instrument
  refine
    { book := hs.book
      inst := hsym ▸ hs.inst
      single := fun i s hi => (hs.single i s hi).trans hsym.symm
      spec := ?_
      carries := hcarries
      qty := ?_
      lots := ?_
      times := fun x o hx hnew => ?_
      supervised := fun x o hx hnew => ?_
      stop := fun s hmem => ?_
      close := hclose
      opening := hopening
      ids := fun u hu => ?_
      openPos := ?_ }
  · rw [hs.spec, h.spec]
    exact hs.keeps.instrument.symm
  · rw [hpos, ← h.qty]
    change l'.portfolio.positionQty l'.sym = l.portfolio.positionQty l.sym
    rw [hs.portfolio, hsym]
  · change p'.Backed fun _ target _ => IsMultiple l'.instrument.stepSize.1 target
    rw [hs.keeps.instrument]
    exact hlots
  -- a live order is the one that was sent, or it was live before
  · change o.req.tsCreatedNs ≤ l'.clock.t
    rw [hs.keeps.clock]
    rcases eq_or_ne x req.clientOrderId with rfl | hne
    · obtain ⟨n, ho⟩ := hs.order
      rw [show l'.broker.orders.get? req.clientOrderId = some o from hx] at ho
      cases ho
      exact hr.created
    · rw [show l'.broker.orders.get? x = l.broker.orders.get? x from hs.orders x hne] at hx
      exact h.times x o hx hnew
  · rcases eq_or_ne x req.clientOrderId with rfl | hne
    · obtain ⟨n, ho⟩ := hs.order
      rw [show l'.broker.orders.get? req.clientOrderId = some o from hx] at ho
      cases ho
      obtain ⟨r, hrec, hreq, -, -, hfinal⟩ := hs.record
      refine ⟨hs.supervised.1, r, hrec, hfinal, ?_, ?_⟩
      · rw [hreq]
        rfl
      · rw [hreq]
        rfl
    · rw [show l'.broker.orders.get? x = l.broker.orders.get? x from hs.orders x hne] at hx
      obtain ⟨hmem, r, hrec, hrest⟩ := h.supervised x o hx hnew
      exact ⟨hs.supervised.2 x hmem, r, (hs.records x hne).trans hrec, hrest⟩
  -- a protection of the plan is an older one, or the stop order that was sent
  · rcases hstop s hmem with hold | ⟨hid, hd, hrole⟩
    · obtain ⟨r, hrec, hrest⟩ := h.stop s hold
      exact ⟨r, (hs.records _ (h.stop_ne hr hold)).trans hrec, hrest⟩
    · obtain ⟨r, hrec, -, hrr, hrd, -⟩ := hs.record
      exact ⟨r, (congrArg _ hid).trans hrec, hrr.trans hrole, hrd.trans (congrArg _ hd.symm)⟩
  · obtain ⟨hne, hpending⟩ := hs.ids u hu
    obtain ⟨hrouter, hnone⟩ := h.ids u hpending
    exact ⟨hs.router u hne hrouter, (hs.records u hne).trans hnone⟩
  · rw [hpos, hopened]
    change p.position ≠ 0 → ∃ r, l'.openPos = some r ∧ _
    rw [hs.openPos]
    exact h.openPos

/-! ### The three orders -/

/-- The stop of the position keeps its order. -/
theorem Represents.held_stop (h : Represents l st p) (hr : Sendable l st req)
    (hs : Sent l st req d role l' st') {s : Protection} (hstop : p.stop = some s) :
    IsStop l'.broker.orders p.position s := by
  refine (h.carries.stop s hstop).congr (hs.orders _ (h.stop_ne hr ?_))
  rw [Plan.stops, List.mem_append, Option.mem_toList]
  exact .inl hstop

/-- **The order that closes the position.** -/
theorem Represents.submitClose (h : Represents l st p) (hidle : p.pending = .idle)
    (hr : Sendable l st req) (hs : Sent l st req d role l' st') (hpos : p.position ≠ 0)
    (htype : req.otype = .market) (hred : req.reduceOnly = true)
    (hside : req.side = Side.ofInt (-sign p.position)) (hqty : req.qty = |p.position|)
    (hrole : role ≠ Action.enter.role ∧ role ≠ Action.flip.role) :
    Represents l' st' (p.closing req.clientOrderId hpos) := by
  refine h.sent hr hs rfl rfl ⟨h.lots.held, fun _ _ _ _ hp => by cases hp⟩
    ⟨hs.position.trans h.carries.position, ?_, ?_, fun s => h.held_stop hr hs, fun c hc => ?_,
      fun _ _ _ _ hp => by cases hp⟩ (fun s hmem => .inl ?_) (fun c hc => ?_)
    (fun _ _ _ _ hp => by cases hp)
  -- the queue holds this order only, as nothing waited
  · rw [hs.queue, if_pos htype, h.carries.queue, hidle]
    rfl
  · rw [hs.stops, if_pos htype, h.carries.stops, Plan.stops, hidle]
    exact List.append_nil _
  · cases hc
    obtain ⟨n, ho⟩ := hs.order
    exact ⟨_, ho, rfl, htype, hred, hside, hqty⟩
  · rw [Plan.stops, hidle]
    exact hmem
  -- the record has the role of a close
  · cases hc
    obtain ⟨r, hrec, -, hrr, -⟩ := hs.record
    exact ⟨r, hrec, hrr ▸ hrole⟩

/-- **The order that opens a position**, before its stop is sent. -/
theorem Represents.submitOpen (h : Represents l st p) (hidle : p.pending = .idle)
    (hr : Sendable l st req) (hs : Sent l st req d role l' st') {target : Decimal}
    (hopp : target ≠ 0 ∧ (p.position = 0 ∨ sign target = -sign p.position))
    (hlot : IsMultiple l.instrument.stepSize.1 target)
    (htype : req.otype = .market) (hred : req.reduceOnly = false)
    (hside : req.side = Side.ofInt (sign (target - p.position)))
    (hqty : req.qty = |target - p.position|) (m : EntryMeta) (hm : m.decisionNs = d) :
    Represents { l' with entries := l'.entries.insert req.clientOrderId m } st'
      (p.opening req.clientOrderId target none d hopp) := by
  refine h.sent hr hs rfl rfl ⟨h.lots.held, fun c t s d' hp => ?_⟩
    ⟨hs.position.trans h.carries.position, ?_, ?_, fun s => h.held_stop hr hs,
      (fun _ hp => by cases hp), fun c t s d' hp => ?_⟩ (fun s hmem => .inl ?_)
    (fun _ hp => by cases hp) (fun c t s d' hp => ?_)
  · cases hp
    exact hlot
  · rw [hs.queue, if_pos htype, h.carries.queue, hidle]
    rfl
  · rw [hs.stops, if_pos htype, h.carries.stops, Plan.stops, hidle]
    exact List.append_nil _
  -- the order is for the whole difference, and not reduce-only
  · cases hp
    obtain ⟨n, ho⟩ := hs.order
    exact ⟨⟨_, ho, rfl, htype, hred, hside, hqty⟩, fun _ hx => by cases hx⟩
  · rw [Plan.stops, hidle]
    exact hmem
  · cases hp
    obtain ⟨r, hrec, -, -, hrd, -⟩ := hs.record
    exact ⟨⟨r, hrec, hrd⟩, m, Dict.get?_insert_self .., hm⟩

/-- **The stop of the position that is going to be opened.** -/
theorem Represents.submitStop {c : Uuid} {target : Decimal}
    {hopp : target ≠ 0 ∧ (p.position = 0 ∨ sign target = -sign p.position)}
    (h : Represents l st (p.opening c target none d hopp)) (hr : Sendable l st req)
    (hs : Sent l st req d "stop" l' st') (htype : req.otype = .stopMarket)
    (hred : req.reduceOnly = true) (hside : req.side = Side.ofInt (-sign target))
    (hqty : req.qty = |target|) {price : Decimal} (hprice : req.stopPrice = some price) :
    Represents l' st' (p.opening c target (some ⟨req.clientOrderId, price, d⟩) d hopp) := by
  have hmarket : req.otype ≠ .market := by
    rw [htype]
    exact fun hne => by cases hne
  obtain ⟨hopening, -⟩ := h.carries.opening c target none d rfl
  obtain ⟨hrecord, hentry⟩ := h.opening c target none d rfl
  have hcne : c ≠ req.clientOrderId := by
    obtain ⟨o, ho, -⟩ := hopening
    exact h.coid_ne hr ho
  refine h.sent hr hs rfl rfl
    ⟨h.lots.held, fun c t s d' hp => ?_⟩
    ⟨hs.position.trans h.carries.position, ?_, ?_, fun s => h.held_stop hr hs,
      (fun _ hp => by cases hp), fun c t s d' hp => ?_⟩ (fun s hmem => ?_)
    (fun _ hp => by cases hp) (fun c t s d' hp => ?_)
  · cases hp
    exact h.lots.pending c target none d rfl
  · rw [hs.queue, if_neg hmarket, h.carries.queue]
    rfl
  · rw [hs.stops, if_neg hmarket, h.carries.stops]
    simp [Plan.stops, Plan.opening, Pending.stop]
  · cases hp
    obtain ⟨o, ho, hrest⟩ := hopening
    obtain ⟨n, hso⟩ := hs.order
    refine ⟨⟨o, (hs.orders c hcne).trans ho, hrest⟩, fun x hx => ?_⟩
    cases hx
    exact ⟨_, hso, rfl, htype, hred, hside, hqty, hprice⟩
  · rw [Plan.stops, List.mem_append] at hmem
    rcases hmem with hmem | hmem
    · left
      rw [Plan.stops, List.mem_append]
      exact .inl hmem
    · right
      rw [Option.mem_toList] at hmem
      cases hmem
      exact ⟨rfl, rfl, rfl⟩
  · cases hp
    obtain ⟨r, hrec, hrd⟩ := hrecord
    obtain ⟨m, hm, hmd⟩ := hentry
    refine ⟨⟨r, (hs.records c hcne).trans hrec, hrd⟩, m, ?_, hmd⟩
    rw [hs.entries]
    exact hm

end

end FuzzHelm
