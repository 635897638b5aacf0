import FuzzHelm.Execution.BarOrders

namespace FuzzHelm

open Lib

/-!
# The order book of the broker

Any sequence of calls on any instruments keeps the orders and the queues consistent.

* `OrderBook` — the invariant of the broker;
* `Moves` — what one call may do to the orders and to the positions;
* `BrokerCall` / `PaperBroker.call` — one call, with the draws of the other users of the
  generator of ids;
* `order_book` — the law over whole runs.
-/

/-! ### The invariant -/

/-- **The order book is in order**: the live orders of an instrument are those in its queues,
    each once, and no order has an id that is still to be handed out. -/
structure OrderBook (pb : PaperBroker) : Prop where
  spec : ∀ i st, pb.state.get? i = some st → st.spec.symbolCanon = i
  live : ∀ i st, pb.state.get? i = some st →
    ∀ x, Live pb.orders i x ↔ x ∈ st.marketQueue ∨ x ∈ st.stopOrders
  nodup : ∀ i st, pb.state.get? i = some st → (st.marketQueue ++ st.stopOrders).Nodup
  known : ∀ i x, Live pb.orders i x → ∃ st, pb.state.get? i = some st
  keys : ∀ x o, pb.orders.get? x = some o → o.req.clientOrderId = x
  fresh : ∀ u, pb.ids.Pending u → pb.orders.get? u = none

/-- **What one call that emits `fills` may do**: requests and final orders stay, the fills are
    of distinct orders that were not final, and the positions follow the fills. -/
structure Moves (pb : PaperBroker) (fills : List Fill) (pb' : PaperBroker) : Prop where
  kept : ∀ x o, pb.orders.get? x = some o →
    ∃ o', pb'.orders.get? x = some o' ∧ o'.req = o.req ∧ (o.status ≠ .new → o' = o)
  nodup : (fills.map Fill.clientOrderId).Nodup
  filled : ∀ f ∈ fills,
    (∃ o, pb'.orders.get? f.clientOrderId = some o ∧ o.status = .filled) ∧
    ∀ o, pb.orders.get? f.clientOrderId = some o → o.status = .new
  position : ∀ i st', pb'.state.get? i = some st' → ∃ st, pb.state.get? i = some st ∧
    st'.position = st.position +
      ((fills.filter fun f => decide (f.instrument = i)).map Fill.dq).sum
  ids : ∀ u, pb'.ids.Pending u → pb.ids.Pending u

/-- Nothing has moved. -/
theorem Moves.refl (pb : PaperBroker) : Moves pb [] pb where
  kept := fun _ o h => ⟨o, h, rfl, fun _ => rfl⟩
  nodup := List.nodup_nil
  filled := fun f hf => by cases hf
  position := fun i st' h => ⟨st', h, by simp⟩
  ids := fun _ h => h

/-- An order of another instrument is as live as before. -/
theorem Evolves.live_iff_of_ne {i j : String} {os os' : Dict Uuid Order} (h : Evolves i os os')
    (hij : j ≠ i) (x : Uuid) : Live os' j x ↔ Live os j x := by
  constructor
  · rintro ⟨o', ho', hnew, hinst⟩
    cases ho : os.get? x with
    | none => exact absurd (hinst.symm.trans (h.born x o' ho' ho)) hij
    | some o =>
      obtain ⟨o₁, ho₁, hreq, hfinal⟩ := h.kept x o ho
      rw [ho'] at ho₁
      cases ho₁
      have hsame : o' = o := hfinal fun hlive => hij (by rw [← hinst, hreq, hlive.2])
      subst hsame
      exact ⟨o', ho, hnew, hinst⟩
  · rintro ⟨o, ho, hnew, hinst⟩
    obtain ⟨o', ho', -, hfinal⟩ := h.kept x o ho
    have hsame : o' = o := hfinal fun hlive => hij (hinst.symm.trans hlive.2)
    subst hsame
    exact ⟨o', ho', hnew, hinst⟩

namespace OrderBook

variable {pb pb' : PaperBroker} {i : String} {st st' : InstState}

/-- Work on one instrument keeps the order book, when it keeps the part of this instrument. -/
theorem update (h : OrderBook pb) (hst : pb.state.get? i = some st)
    (hstate : pb'.state = pb.state.insert i st') (hev : Evolves i pb.orders pb'.orders)
    (hspec : st'.spec = st.spec)
    (hlive : ∀ x, Live pb'.orders i x ↔ x ∈ st'.marketQueue ∨ x ∈ st'.stopOrders)
    (hnodup : (st'.marketQueue ++ st'.stopOrders).Nodup)
    (hkeys : ∀ x o, pb'.orders.get? x = some o → o.req.clientOrderId = x)
    (hfresh : ∀ u, pb'.ids.Pending u → pb'.orders.get? u = none) : OrderBook pb' := by
  have hget (j : String) : pb'.state.get? j = if i = j then some st' else pb.state.get? j := by
    rw [hstate, Dict.get?_insert]
  refine ⟨fun j sj hj => ?_, fun j sj hj => ?_, fun j sj hj => ?_, fun j x hx => ?_, hkeys,
    hfresh⟩
  · rw [hget] at hj
    split at hj
    · rename_i hij
      cases hj
      rw [hspec, ← hij]
      exact h.spec i st hst
    · exact h.spec j sj hj
  · rw [hget] at hj
    split at hj
    · rename_i hij
      cases hj
      rw [← hij]
      exact hlive
    · rename_i hij
      intro x
      rw [hev.live_iff_of_ne (Ne.symm hij)]
      exact h.live j sj hj x
  · rw [hget] at hj
    split at hj
    · cases hj
      exact hnodup
    · exact h.nodup j sj hj
  · rcases eq_or_ne i j with rfl | hij
    · exact ⟨st', by rw [hget, if_pos rfl]⟩
    · rw [hev.live_iff_of_ne hij.symm] at hx
      obtain ⟨sj, hj⟩ := h.known j x hx
      exact ⟨sj, by rw [hget, if_neg hij, hj]⟩

end OrderBook

/-- Work on one instrument that emits no fills moves nothing else. -/
theorem Moves.update {pb pb' : PaperBroker} {i : String} {st st' : InstState} {fills : List Fill}
    (hst : pb.state.get? i = some st) (hstate : pb'.state = pb.state.insert i st')
    (hev : Evolves i pb.orders pb'.orders) (hnodup : (fills.map Fill.clientOrderId).Nodup)
    (hfilled : ∀ f ∈ fills, f.instrument = i ∧
      (∃ o, pb'.orders.get? f.clientOrderId = some o ∧ o.status = .filled) ∧
      (pb.orders.get? f.clientOrderId = none ∨ Live pb.orders i f.clientOrderId))
    (hpos : st'.position = st.position + (fills.map Fill.dq).sum)
    (hids : ∀ u, pb'.ids.Pending u → pb.ids.Pending u) : Moves pb fills pb' where
  kept := by
    intro x o ho
    obtain ⟨o', ho', hreq, hfinal⟩ := hev.kept x o ho
    exact ⟨o', ho', hreq, fun hstatus => hfinal fun hlive => hstatus hlive.1⟩
  nodup := hnodup
  filled := by
    intro f hf
    obtain ⟨-, hdone, horigin⟩ := hfilled f hf
    refine ⟨hdone, fun o ho => ?_⟩
    -- what was filled was live before, or is an order that the bar made
    rcases horigin with hnone | ⟨o', ho', hnew, -⟩
    · rw [ho] at hnone
      cases hnone
    · rw [ho] at ho'
      cases ho'
      exact hnew
  position := by
    intro j sj hj
    rw [hstate, Dict.get?_insert] at hj
    split at hj
    · rename_i hij
      cases hj
      subst hij
      have hall : fills.filter (fun f => decide (f.instrument = i)) = fills :=
        List.filter_eq_self.mpr fun f hf => decide_eq_true (hfilled f hf).1
      exact ⟨st, hst, by rw [hall, hpos]⟩
    · rename_i hij
      have hnone : fills.filter (fun f => decide (f.instrument = j)) = [] :=
        List.filter_eq_nil_iff.mpr fun f hf => by
          rw [(hfilled f hf).1]
          simpa using hij
      exact ⟨sj, hj, by rw [hnone]; simp⟩
  ids := hids

/-! ### Submission -/

/-- The broker after an order with the request `req` has been accepted. -/
def PaperBroker.accept (pb : PaperBroker) (now : ℤ) (req : OrderRequest) (st : InstState) :
    PaperBroker :=
  { pb with
    seq := pb.seq + 1
    orders := pb.orders.insert req.clientOrderId (Order.accepted req (pb.seq + 1) now)
    state := pb.state.insert req.instrument
      (if req.otype = .market then
        { st with marketQueue := st.marketQueue ++ [req.clientOrderId] }
      else { st with stopOrders := st.stopOrders ++ [req.clientOrderId] }) }

section Submit

variable {pb : PaperBroker} {now : ℤ} {req : OrderRequest}

/-- A known id changes nothing. -/
theorem PaperBroker.submit_known (h : (pb.orders.get? req.clientOrderId).isSome) :
    (pb.submit now req).2 = pb := by
  rw [submit]
  exact congrArg Prod.snd (if_pos h)

/-- A new id is rejected or accepted; an accepted request has its quantity on the lot grid
    and its stop price on the tick grid. -/
theorem PaperBroker.submit_new (now : ℤ) (h : pb.orders.get? req.clientOrderId = none) :
    (∃ code, pb.submit now req = pb.reject req code now) ∨
    ∃ st sp, pb.state.get? req.instrument = some st ∧ 0 < floorQty req.qty st.spec.stepSize ∧
      quantizedStop st.spec req = some sp ∧
      pb.submit now req =
        (⟨req.clientOrderId, some (pb.seq + 1), .new, none, now⟩,
          pb.accept now { req with qty := floorQty req.qty st.spec.stepSize, stopPrice := sp }
            st) := by
  unfold submit
  simp only [h, Option.isSome_none, Bool.false_eq_true, if_false]
  -- refused for the instrument, the quantity, the notional or the price, in this order
  split
  · exact .inl ⟨_, rfl⟩
  · rename_i st hst
    split
    · exact .inl ⟨_, rfl⟩
    · rename_i hqty
      split
      · exact .inl ⟨_, rfl⟩
      · split
        · exact .inl ⟨_, rfl⟩
        · rename_i sp hsp
          exact .inr ⟨st, sp, hst, not_le.mp hqty, hsp, rfl⟩

/-- What the broker accepts as it stands: a whole number of lots, large enough unless it only
    reduces, with a stop price on the grid. -/
theorem PaperBroker.submit_accept (now : ℤ) {st : InstState}
    (hnone : pb.orders.get? req.clientOrderId = none)
    (hst : pb.state.get? req.instrument = some st) (hpos : 0 < req.qty)
    (hlot : IsMultiple st.spec.stepSize.1 req.qty)
    (hmin : req.reduceOnly = true ∨
      ∀ c, st.lastClose = some c → st.spec.minNotional ≤ req.qty * c)
    (hstop : quantizedStop st.spec req = some req.stopPrice) :
    pb.submit now req =
      (⟨req.clientOrderId, some (pb.seq + 1), .new, none, now⟩, pb.accept now req st) := by
  have hfloor : floorQty req.qty st.spec.stepSize = req.qty := floorQty_of_isMultiple hlot
  -- the notional is checked for orders that may open, once a close is known
  have hsmall : ¬(!req.reduceOnly ∧
      st.lastClose.any (fun c => decide (req.qty * c < st.spec.minNotional)) = true) := by
    rintro ⟨hred, hany⟩
    rw [Option.any_eq_true] at hany
    obtain ⟨c, hc, hlt⟩ := hany
    rcases hmin with h | h
    · rw [h] at hred
      cases hred
    · exact absurd (of_decide_eq_true hlt) (not_lt.mpr (h c hc))
  unfold submit
  simp only [hnone, hst, hfloor, hstop, Option.isSome_none, Bool.false_eq_true, if_false]
  rw [if_neg (not_le.mpr hpos), if_neg (by simpa using hsmall)]
  rfl

/-- An order that is recorded under its own id keeps the keys right. -/
theorem OrderBook.insert_keys (h : OrderBook pb) {c x : Uuid} (o : Order) {o' : Order}
    (ho : o.req.clientOrderId = c) (hx : (pb.orders.insert c o).get? x = some o') :
    o'.req.clientOrderId = x := by
  rcases eq_or_ne c x with rfl | hne
  · rw [Dict.get?_insert_self] at hx
    cases hx
    exact ho
  · rw [Dict.get?_insert_of_ne _ _ hne] at hx
    exact h.keys x o' hx

/-- An order under an id that is not to be handed out leaves the pending ids free. -/
theorem OrderBook.insert_fresh (h : OrderBook pb) {c u : Uuid} (o : Order)
    (hc : ¬pb.ids.Pending c) (hu : pb.ids.Pending u) : (pb.orders.insert c o).get? u = none := by
  have hne : c ≠ u := by
    rintro rfl
    exact hc hu
  rw [Dict.get?_insert_of_ne _ _ hne]
  exact h.fresh u hu

/-- A rejected order is recorded under an id that is not to be handed out. -/
theorem OrderBook.reject (h : OrderBook pb) (hnone : pb.orders.get? req.clientOrderId = none)
    (hid : ¬pb.ids.Pending req.clientOrderId) (code : RejectCode) :
    OrderBook (pb.reject req code now).2 ∧ Moves pb [] (pb.reject req code now).2 := by
  have hget (x : Uuid) (hx : req.clientOrderId ≠ x) :
      (pb.reject req code now).2.orders.get? x = pb.orders.get? x :=
    Dict.get?_insert_of_ne _ _ hx
  -- a rejected order is written down, and never lives
  have hlive (j : String) (x : Uuid) :
      Live (pb.reject req code now).2.orders j x ↔ Live pb.orders j x := by
    rcases eq_or_ne req.clientOrderId x with rfl | hx
    · constructor
      · rintro ⟨o, ho, hnew, -⟩
        have hself := Dict.get?_insert_self pb.orders req.clientOrderId
          (⟨req, none, .rejected, some code, now, 0, none, none⟩ : Order)
        obtain rfl := Option.some.inj (hself.symm.trans ho)
        cases hnew
      · rintro ⟨o, ho, -⟩
        rw [hnone] at ho
        cases ho
    · rw [Live, Live, hget x hx]
  refine ⟨⟨h.spec, fun i st hst x => ?_, h.nodup, fun i x hx => ?_, fun x o hx => ?_,
    fun u hu => ?_⟩, ⟨fun x o hx => ?_, List.nodup_nil, (fun f hf => by cases hf),
    (fun i st' hst' => ⟨st', hst', by simp⟩), fun _ hu => hu⟩⟩
  · rw [hlive]
    exact h.live i st hst x
  · exact h.known i x ((hlive i x).mp hx)
  · exact h.insert_keys ⟨req, none, .rejected, some code, now, 0, none, none⟩ rfl hx
  · exact h.insert_fresh _ hid hu
  · have hne : req.clientOrderId ≠ x := by
      rintro rfl
      rw [hnone] at hx
      cases hx
    exact ⟨o, (hget x hne).trans hx, rfl, fun _ => rfl⟩

/-- An accepted order waits in one queue of its instrument. -/
theorem OrderBook.accept (h : OrderBook pb) (req : OrderRequest)
    (hnone : pb.orders.get? req.clientOrderId = none)
    (hid : ¬pb.ids.Pending req.clientOrderId) {st : InstState}
    (hst : pb.state.get? req.instrument = some st) :
    OrderBook (pb.accept now req st) ∧ Moves pb [] (pb.accept now req st) := by
  -- the new number is in neither list
  have hdead : ¬Live pb.orders req.instrument req.clientOrderId := by
    rintro ⟨o, ho, -⟩
    rw [hnone] at ho
    cases ho
  have hev : Evolves req.instrument pb.orders (pb.accept now req st).orders :=
    .insert_fresh hnone rfl
  have hget (x : Uuid) (hx : req.clientOrderId ≠ x) :
      (pb.accept now req st).orders.get? x = pb.orders.get? x :=
    Dict.get?_insert_of_ne _ _ hx
  have hself : (pb.accept now req st).orders.get? req.clientOrderId =
      some (Order.accepted req (pb.seq + 1) now) := Dict.get?_insert_self ..
  -- one more order lives
  have hlive (x : Uuid) : Live (pb.accept now req st).orders req.instrument x ↔
      Live pb.orders req.instrument x ∨ x = req.clientOrderId := by
    rcases eq_or_ne req.clientOrderId x with rfl | hx
    · exact ⟨fun _ => .inr rfl, fun _ => ⟨_, hself, rfl, rfl⟩⟩
    · rw [Live, Live, hget x hx]
      simp [hx.symm]
  have hdeadq := hdead
  rw [h.live _ st hst] at hdeadq
  rw [not_or] at hdeadq
  refine ⟨h.update hst rfl hev ?_ (fun x => ?_) ?_ (fun x o hx => ?_) fun u hu => ?_,
    Moves.update hst rfl hev List.nodup_nil (fun f hf => by cases hf) ?_
      fun _ hu => hu⟩
  · split <;> rfl
  · rw [hlive, h.live _ st hst]
    split
    · simp only [List.mem_append, List.mem_singleton]
      tauto
    · simp only [List.mem_append, List.mem_singleton]
      tauto
  · have hnd := h.nodup _ st hst
    have hmid : (req.clientOrderId :: (st.marketQueue ++ st.stopOrders)).Nodup := by
      rw [List.nodup_cons, List.mem_append, not_or]
      exact ⟨hdeadq, hnd⟩
    split
    · simp only [List.append_assoc, List.singleton_append]
      exact List.nodup_middle.mpr hmid
    · rw [← List.append_assoc, List.nodup_append_comm, List.singleton_append]
      exact hmid
  · exact h.insert_keys (.accepted req (pb.seq + 1) now) rfl hx
  · exact h.insert_fresh _ hid hu
  · split <;> simp

/-- A submission keeps the book, and fills nothing by itself. -/
theorem OrderBook.submit (h : OrderBook pb) (hid : ¬pb.ids.Pending req.clientOrderId) :
    OrderBook (pb.submit now req).2 ∧ Moves pb [] (pb.submit now req).2 := by
  cases hnone : pb.orders.get? req.clientOrderId with
  | some o =>
    rw [PaperBroker.submit_known (by rw [hnone]; rfl)]
    exact ⟨h, .refl pb⟩
  | none =>
    rcases PaperBroker.submit_new now hnone with
      ⟨code, heq⟩ | ⟨st, sp, hst, -, -, heq⟩
    · rw [heq]
      exact h.reject hnone hid code
    · rw [heq]
      exact h.accept { req with qty := _, stopPrice := sp } hnone hid hst

end Submit

/-! ### Cancellation -/

section Cancel

variable {pb pb' : PaperBroker}

/-- Of the orders in the queue those that are new are cancelled, and the others stay. -/
theorem PaperBroker.cancelQueue_spec {cs : List Uuid} {orders orders' : Dict Uuid Order}
    (h : cancelQueue cs orders = .ok orders') (x : Uuid) :
    orders'.get? x = (orders.get? x).map
      fun o => if x ∈ cs ∧ o.status = .new then { o with status := .canceled } else o := by
  induction cs generalizing orders with
  | nil =>
    cases h
    simp
  | cons c cs ih =>
    rw [cancelQueue, bind_eq_ok] at h
    obtain ⟨o, ho, h⟩ := h
    rw [orderOf_eq_ok] at ho
    rw [ih h]
    -- the rest of the loop reads what this step has written
    split
    · rename_i hnew
      rcases eq_or_ne c x with rfl | hne
      · simp [ho, hnew]
      · simp [Dict.get?_insert_of_ne _ _ hne, hne.symm]
    · rename_i hold
      rcases eq_or_ne c x with rfl | hne
      · simp [ho, hold]
      · simp [hne.symm]

/-- Cancelling live orders of one instrument: `gone` are the orders to cancel. -/
theorem cancelled_evolves {i : String} {os os' : Dict Uuid Order} (gone : Uuid → Prop)
    [DecidablePred gone] (hgone : ∀ x, gone x → Live os i x)
    (hget : ∀ x, os'.get? x = (os.get? x).map
      fun o => if gone x then { o with status := .canceled } else o) :
    Evolves i os os' ∧ (∀ x, Live os' i x ↔ Live os i x ∧ ¬gone x) ∧
      ∀ x o', os'.get? x = some o' → ∃ o, os.get? x = some o ∧ o'.req = o.req := by
  -- an order is found again under its number, cancelled or as it was
  have hback : ∀ x o', os'.get? x = some o' → ∃ o, os.get? x = some o ∧
      o' = if gone x then { o with status := .canceled } else o := by
    intro x o' ho'
    rw [hget, Option.map_eq_some_iff] at ho'
    obtain ⟨o, ho, heq⟩ := ho'
    exact ⟨o, ho, heq.symm⟩
  refine ⟨⟨fun x o ho => ?_, fun x o' ho' hnone => ?_⟩, fun x => ?_, fun x o' ho' => ?_⟩
  · refine ⟨_, by rw [hget, ho, Option.map_some], by split <;> rfl, fun hfinal => if_neg ?_⟩
    intro hx
    obtain ⟨o₁, ho₁, hlive⟩ := hgone x hx
    rw [ho] at ho₁
    cases ho₁
    exact hfinal hlive
  · obtain ⟨o, ho, -⟩ := hback x o' ho'
    rw [hnone] at ho
    cases ho
  -- what lives now lived before and is not gone
  · constructor
    · rintro ⟨o', ho', hnew, hinst⟩
      obtain ⟨o, ho, rfl⟩ := hback x o' ho'
      by_cases hx : gone x
      · rw [if_pos hx] at hnew
        cases hnew
      · rw [if_neg hx] at hnew hinst
        exact ⟨⟨o, ho, hnew, hinst⟩, hx⟩
    · rintro ⟨⟨o, ho, hnew, hinst⟩, hx⟩
      exact ⟨o, by rw [hget, ho, Option.map_some, if_neg hx], hnew, hinst⟩
  · obtain ⟨o, ho, rfl⟩ := hback x o' ho'
    exact ⟨o, ho, by split <;> rfl⟩

/-- Cancelling all orders of an instrument keeps the book, and fills nothing. -/
theorem OrderBook.cancelAll (h : OrderBook pb) {i : String} (hc : pb.cancelAll i = .ok pb') :
    OrderBook pb' ∧ Moves pb [] pb' := by
  rw [PaperBroker.cancelAll] at hc
  split at hc
  · cases hc
    exact ⟨h, .refl pb⟩
  · rename_i st hst
    rw [bind_eq_ok] at hc
    obtain ⟨orders, horders, hc⟩ := hc
    cases hc
    have hlive := h.live i st hst
    -- all that was queued or a stop was live, so that all of it is cancelled
    have hget (x : Uuid) : orders.get? x = (pb.orders.get? x).map fun o =>
        if x ∈ st.marketQueue ++ st.stopOrders then { o with status := .canceled } else o := by
      rw [PaperBroker.cancelQueue_spec horders]
      refine Option.map_congr fun o ho => ?_
      by_cases hx : x ∈ st.marketQueue ++ st.stopOrders
      · obtain ⟨o₁, ho₁, hnew, -⟩ := (hlive x).mpr (List.mem_append.mp hx)
        rw [ho] at ho₁
        cases ho₁
        simp [hx, hnew]
      · simp [hx]
    -- and nothing else
    obtain ⟨hev, hlive', hback⟩ := cancelled_evolves (i := i)
      (fun x => x ∈ st.marketQueue ++ st.stopOrders)
      (fun x hx => (hlive x).mpr (List.mem_append.mp hx)) hget
    refine ⟨h.update hst rfl hev rfl (fun x => ?_) List.nodup_nil (fun x o hx => ?_)
      fun u hu => ?_, Moves.update hst rfl hev List.nodup_nil (fun f hf => by cases hf) (by simp)
        fun _ hu => hu⟩
    · change Live orders i x ↔ _
      rw [hlive', hlive, List.mem_append]
      simp [not_or, and_comm]
    · obtain ⟨o₁, ho₁, hreq⟩ := hback x o hx
      rw [hreq]
      exact h.keys x o₁ ho₁
    · change orders.get? u = none
      rw [hget, h.fresh u hu, Option.map_none]

/-- An instrument that is known is answered. -/
theorem PaperBroker.require_eq_ok {i : String} {st : InstState} :
    pb.require i = .ok st ↔ pb.state.get? i = some st := by
  unfold require
  cases pb.state.get? i <;> simp

/-- The broker after a live order has been cancelled. -/
def PaperBroker.withdraw (pb : PaperBroker) (c : Uuid) (o : Order) (st : InstState) :
    PaperBroker :=
  { pb with
    orders := pb.orders.insert c { o with status := .canceled }
    state := pb.state.insert o.req.instrument
      { st with
        marketQueue := st.marketQueue.erase c
        stopOrders := st.stopOrders.erase c } }

/-- A live order is withdrawn. -/
theorem PaperBroker.cancel_live {c : Uuid} {o : Order} {st : InstState}
    (ho : pb.orders.get? c = some o) (hnew : o.status = .new)
    (hst : pb.state.get? o.req.instrument = some st) :
    pb.cancel c = .ok (true, pb.withdraw c o st) := by
  rw [cancel, ho]
  simp only [hnew, ne_eq, not_true_eq_false, if_false]
  rw [require, hst]
  rfl

/-- An order that is not live is not cancelled, and nothing changes. -/
theorem PaperBroker.cancel_dead {c : Uuid}
    (h : ∀ o, pb.orders.get? c = some o → o.status ≠ .new) :
    pb.cancel c = .ok (false, pb) := by
  rw [cancel]
  split
  · rfl
  · rename_i o ho
    rw [if_pos (h o ho)]

/-- A cancelled order leaves its queue. -/
theorem OrderBook.cancel (h : OrderBook pb) {c : Uuid} {done : Bool}
    (hc : pb.cancel c = .ok (done, pb')) : OrderBook pb' ∧ Moves pb [] pb' := by
  rw [PaperBroker.cancel] at hc
  split at hc
  · cases hc
    exact ⟨h, .refl pb⟩
  · rename_i o ho
    split at hc
    · cases hc
      exact ⟨h, .refl pb⟩
    · rename_i hnew
      rw [not_not] at hnew
      rw [bind_eq_ok] at hc
      obtain ⟨st, hst, hc⟩ := hc
      rw [PaperBroker.require_eq_ok] at hst
      cases hc
      have hlive := h.live _ st hst
      have hnd := h.nodup _ st hst
      have hnd₁ : st.marketQueue.Nodup := (List.nodup_append.mp hnd).1
      have hnd₂ : st.stopOrders.Nodup := (List.nodup_append.mp hnd).2.1
      -- one order is cancelled
      have hget (x : Uuid) :
          (pb.orders.insert c { o with status := .canceled }).get? x = (pb.orders.get? x).map
            fun o => if x = c then { o with status := .canceled } else o := by
        rcases eq_or_ne c x with rfl | hne
        · rw [Dict.get?_insert_self, ho, Option.map_some, if_pos rfl]
        · simp [Dict.get?_insert_of_ne _ _ hne, hne.symm]
      obtain ⟨hev, hlive', hback⟩ := cancelled_evolves (i := o.req.instrument)
        (fun x => x = c) (fun x hx => hx ▸ ⟨o, ho, hnew, rfl⟩) hget
      refine ⟨h.update hst rfl hev rfl (fun x => ?_) ?_ (fun x o hx => ?_) fun u hu => ?_,
        Moves.update hst rfl hev List.nodup_nil (fun f hf => by cases hf) (by simp)
        fun _ hu => hu⟩
      -- and leaves both lists
      · change Live (pb.orders.insert c _) _ x ↔ _
        rw [hlive', hlive, hnd₁.mem_erase_iff, hnd₂.mem_erase_iff]
        tauto
      · exact hnd.sublist (.append List.erase_sublist List.erase_sublist)
      · obtain ⟨o₁, ho₁, hreq⟩ := hback x o hx
        rw [hreq]
        exact h.keys x o₁ ho₁
      · change (pb.orders.insert c _).get? u = none
        rw [hget, h.fresh u hu, Option.map_none]

/-- The setters change neither the orders nor the queues. -/
theorem OrderBook.setLevels (h : OrderBook pb) {i : String} {st st' : InstState}
    (hst : pb.state.get? i = some st) (hspec : st'.spec = st.spec)
    (hpos : st'.position = st.position) (hmarket : st'.marketQueue = st.marketQueue)
    (hstops : st'.stopOrders = st.stopOrders) :
    OrderBook { pb with state := pb.state.insert i st' } ∧
      Moves pb [] { pb with state := pb.state.insert i st' } := by
  refine ⟨h.update hst rfl (.refl i _) hspec (fun x => ?_) ?_ h.keys h.fresh,
    Moves.update hst rfl (.refl i _) List.nodup_nil (fun f hf => by cases hf) (by simp [hpos])
      fun _ hu => hu⟩
  · rw [hmarket, hstops]
    exact h.live i st hst x
  · rw [hmarket, hstops]
    exact h.nodup i st hst

/-- A take-profit keeps the book, and fills nothing. -/
theorem OrderBook.setTakeProfit (h : OrderBook pb) {i : String} {price : Option Decimal}
    {side : Option Side} (hc : pb.setTakeProfit i price side = .ok pb') :
    OrderBook pb' ∧ Moves pb [] pb' := by
  rw [PaperBroker.setTakeProfit, bind_eq_ok] at hc
  obtain ⟨st, hst, hc⟩ := hc
  rw [PaperBroker.require_eq_ok] at hst
  split at hc
  · cases hc
  · cases hc
    exact h.setLevels hst rfl rfl rfl rfl

/-- A price of the liquidation keeps the book, and fills nothing. -/
theorem OrderBook.setLiquidationPrice (h : OrderBook pb) {i : String} {price : Option Decimal}
    (hc : pb.setLiquidationPrice i price = .ok pb') : OrderBook pb' ∧ Moves pb [] pb' := by
  rw [PaperBroker.setLiquidationPrice, bind_eq_ok] at hc
  obtain ⟨st, hst, hc⟩ := hc
  rw [PaperBroker.require_eq_ok] at hst
  cases hc
  exact h.setLevels hst rfl rfl rfl rfl

/-- A rate of the funding keeps the book, and fills nothing. -/
theorem OrderBook.setFundingRate (h : OrderBook pb) {i : String} {rate : Decimal}
    (hc : pb.setFundingRate i rate = .ok pb') : OrderBook pb' ∧ Moves pb [] pb' := by
  rw [PaperBroker.setFundingRate, bind_eq_ok] at hc
  obtain ⟨st, hst, hc⟩ := hc
  rw [PaperBroker.require_eq_ok] at hst
  cases hc
  exact h.setLevels hst rfl rfl rfl rfl

end Cancel

/-! ### Bars -/

section Bars

variable {pb pb' : PaperBroker} {bar : DecBar} {fills : List Fill} {i : String} {st : InstState}

/-- The book that a bar of the instrument works on. -/
def PaperBroker.book (pb : PaperBroker) (st : InstState) : Book :=
  ⟨st, pb.orders, pb.ids, pb.seq, pb.cost, []⟩

/-- What a bar that returns has done. -/
theorem PaperBroker.onBar_eq_ok (h : pb.onBar bar = .ok (fills, pb')) :
    ∃ st b, pb.state.get? bar.instrument = some st ∧
      (∀ last, st.lastOpenNs = some last → last < bar.openTimeNs) ∧
      (pb.book st).runBar bar = .ok b ∧ fills = b.fills ∧
      pb' = { pb with
        cost := b.cost
        ids := b.ids
        seq := b.seq
        orders := b.orders
        funding := pb.funding ++ st.fundingCharges pb.cost bar
        state := pb.state.insert bar.instrument
          { b.st.updateStats pb.lam bar with lastOpenNs := some bar.openTimeNs } } := by
  unfold onBar at h
  split at h
  · cases h
  · rename_i st hst
    split at h
    · cases h
    · rename_i hlast
      rw [bind_eq_ok] at h
      obtain ⟨b, hb, h⟩ := h
      cases h
      refine ⟨st, b, hst, fun last hl => ?_, hb, rfl, rfl⟩
      rw [hl] at hlast
      simpa using hlast

/-- An order book in order is where a bar can begin. -/
theorem OrderBook.sound (h : OrderBook pb) (hst : pb.state.get? i = some st) :
    (pb.book st).Sound i st.marketQueue none (pb.book st) where
  live := fun x => (h.live i st hst x).trans (by simp [PaperBroker.book])
  nodup := h.nodup i st hst
  queue := .refl _
  stops := .refl _
  spec := rfl
  evolves := .refl i _
  keys := h.keys
  ids := fun u hu => ⟨hu, h.fresh u hu⟩
  fresh := fun u o ho hnone => by
    rw [show (pb.book st).orders.get? u = some o from ho] at hnone
    cases hnone
  fills_nodup := List.nodup_nil
  fills := fun f hf => by cases hf
  position := by simp [PaperBroker.book]

/-- **A bar keeps the book**, and what it fills is what it answers. -/
theorem OrderBook.onBar (h : OrderBook pb) (hc : pb.onBar bar = .ok (fills, pb')) :
    OrderBook pb' ∧ Moves pb fills pb' := by
  obtain ⟨st, b, hst, -, hb, rfl, rfl⟩ := PaperBroker.onBar_eq_ok hc
  have hs := (h.sound hst).runBar (h.spec _ st hst) hb
  refine ⟨h.update hst rfl hs.evolves hs.spec (fun x => ?_) hs.nodup hs.keys
    (fun u hu => (hs.ids u hu).2), Moves.update hst rfl hs.evolves hs.fills_nodup hs.fills
    hs.position fun u hu => (hs.ids u hu).1⟩
  exact (hs.live x).trans (by simp [InstState.updateStats])

end Bars

/-! ### Runs -/

/-- The calls of a client; `nextUuid` is a draw of another user of the generator of ids. -/
inductive BrokerCall where
  | submit (now : ℤ) (req : OrderRequest)
  | cancel (coid : Uuid)
  | cancelAll (instrument : String)
  | onBar (bar : DecBar)
  | setTakeProfit (instrument : String) (price : Option Decimal) (side : Option Side)
  | setLiquidationPrice (instrument : String) (price : Option Decimal)
  | setFundingRate (instrument : String) (rate : Decimal)
  | nextUuid

/-- What a call of the broker answers. -/
inductive BrokerAnswer where
  | ack (a : OrderAck)
  | cancelled (done : Bool)
  | fills (fs : List Fill)
  | id (u : Uuid)
  | done

/-- The fills that a call emits. -/
def BrokerAnswer.emitted : BrokerAnswer → List Fill
  | .fills fs => fs
  | .ack _ => []
  | .cancelled _ => []
  | .id _ => []
  | .done => []

/-- One call on the broker. -/
def PaperBroker.call (pb : PaperBroker) : BrokerCall → Except PyError (BrokerAnswer × PaperBroker)
  | .submit now req => .ok (.ack (pb.submit now req).1, (pb.submit now req).2)
  | .cancel coid => do
    let (done, pb') ← pb.cancel coid
    return (.cancelled done, pb')
  | .cancelAll instrument => do
    let pb' ← pb.cancelAll instrument
    return (.done, pb')
  | .onBar bar => do
    let (fs, pb') ← pb.onBar bar
    return (.fills fs, pb')
  | .setTakeProfit instrument price side => do
    let pb' ← pb.setTakeProfit instrument price side
    return (.done, pb')
  | .setLiquidationPrice instrument price => do
    let pb' ← pb.setLiquidationPrice instrument price
    return (.done, pb')
  | .setFundingRate instrument rate => do
    let pb' ← pb.setFundingRate instrument rate
    return (.done, pb')
  | .nextUuid => .ok (.id pb.ids.nextUuid.1, { pb with ids := pb.ids.nextUuid.2 })

/-- A call that returns. -/
def BrokerStep (pb : PaperBroker) (c : BrokerCall) (a : BrokerAnswer) (pb' : PaperBroker) : Prop :=
  pb.call c = .ok (a, pb')

/-- The log of a run of the broker. -/
abbrev BrokerLog := List (Entry PaperBroker BrokerCall BrokerAnswer)

/-- The fills emitted in a run. -/
def BrokerLog.fills (log : BrokerLog) : List Fill := log.flatMap fun e => e.answer.emitted

/-- A client does not submit an id that the generator has still to hand out. -/
def OwnId (e : Entry PaperBroker BrokerCall BrokerAnswer) : Prop :=
  ∀ now req, e.call = .submit now req → ¬e.before.ids.Pending req.clientOrderId

/-- **One call keeps the order book** and does no more than `Moves` says. -/
theorem OrderBook.call {pb pb' : PaperBroker} {c : BrokerCall} {a : BrokerAnswer}
    (h : OrderBook pb) (hc : pb.call c = .ok (a, pb'))
    (hid : OwnId ⟨pb, c, a, pb'⟩) : OrderBook pb' ∧ Moves pb a.emitted pb' := by
  cases c with
  | submit now req =>
    cases hc
    exact h.submit (hid now req rfl)
  | cancel coid =>
    rw [PaperBroker.call, bind_eq_ok] at hc
    obtain ⟨⟨done, pb₁⟩, hcall, hc⟩ := hc
    cases hc
    exact h.cancel hcall
  | cancelAll instrument =>
    rw [PaperBroker.call, bind_eq_ok] at hc
    obtain ⟨pb₁, hcall, hc⟩ := hc
    cases hc
    exact h.cancelAll hcall
  | onBar bar =>
    rw [PaperBroker.call, bind_eq_ok] at hc
    obtain ⟨⟨fs, pb₁⟩, hcall, hc⟩ := hc
    cases hc
    exact h.onBar hcall
  | setTakeProfit instrument price side =>
    rw [PaperBroker.call, bind_eq_ok] at hc
    obtain ⟨pb₁, hcall, hc⟩ := hc
    cases hc
    exact h.setTakeProfit hcall
  | setLiquidationPrice instrument price =>
    rw [PaperBroker.call, bind_eq_ok] at hc
    obtain ⟨pb₁, hcall, hc⟩ := hc
    cases hc
    exact h.setLiquidationPrice hcall
  | setFundingRate instrument rate =>
    rw [PaperBroker.call, bind_eq_ok] at hc
    obtain ⟨pb₁, hcall, hc⟩ := hc
    cases hc
    exact h.setFundingRate hcall
  | nextUuid =>
    cases hc
    refine ⟨⟨h.spec, h.live, h.nodup, h.known, h.keys, fun u hu => h.fresh u hu.of_next⟩, ?_⟩
    exact { Moves.refl pb with ids := fun u hu => hu.of_next }

/-- Every instrument of a new broker is flat, with empty queues, under its own symbol. -/
theorem PaperBroker.new_state {cost : CostModel} {instruments : List Instrument}
    {ids : IdGenerator} {lam rate : Decimal} {i : String} {st : InstState}
    (h : (new cost instruments ids lam rate).state.get? i = some st) :
    ∃ spec, spec.symbolCanon = i ∧ st = InstState.new spec rate := by
  have key (specs : List Instrument) : ∀ d : Dict String InstState,
      (∀ st, d.get? i = some st → ∃ spec, spec.symbolCanon = i ∧ st = InstState.new spec rate) →
      (specs.foldl (fun d s => d.insert s.symbolCanon (InstState.new s rate)) d).get? i =
        some st →
      ∃ spec, spec.symbolCanon = i ∧ st = InstState.new spec rate := by
    induction specs with
    | nil => exact fun d hd h => hd st h
    | cons s rest ih =>
      intro d hd h
      refine ih _ (fun sj hj => ?_) h
      rw [Dict.get?_insert] at hj
      split at hj
      · rename_i hs
        cases hj
        exact ⟨s, hs, rfl⟩
      · exact hd sj hj
  exact key instruments ∅ (fun st h => by cases h) h

/-- A broker begins with an order book in order. -/
theorem OrderBook.new (cost : CostModel) (instruments : List Instrument) (ids : IdGenerator)
    (lam rate : Decimal) : OrderBook (PaperBroker.new cost instruments ids lam rate) where
  spec := by
    intro i st hst
    obtain ⟨spec, hspec, rfl⟩ := PaperBroker.new_state hst
    exact hspec
  live := by
    intro i st hst x
    obtain ⟨spec, -, rfl⟩ := PaperBroker.new_state hst
    simp [Live, PaperBroker.new, InstState.new]
  nodup := by
    intro i st hst
    obtain ⟨spec, -, rfl⟩ := PaperBroker.new_state hst
    exact List.nodup_nil
  known := by
    rintro i x ⟨o, ho, -⟩
    cases ho
  keys := by
    intro x o ho
    cases ho
  fresh := fun _ _ => rfl

/-! ### The law -/

/-- What holds of the broker and of the log of its calls. -/
structure BookLaw (pb : PaperBroker) (log : BrokerLog) : Prop where
  /-- A new order waits in exactly one queue of its instrument, once. -/
  queued : ∀ x o, pb.orders.get? x = some o → o.status = .new →
    ∃ st, pb.state.get? o.req.instrument = some st ∧
      (st.marketQueue ++ st.stopOrders).count x = 1
  /-- Only new orders of the instrument wait in its queues. -/
  waiting : ∀ i st, pb.state.get? i = some st → ∀ x ∈ st.marketQueue ++ st.stopOrders,
    ∃ o, pb.orders.get? x = some o ∧ o.status = .new ∧ o.req.instrument = i
  /-- An order that a call found in a final state is still the same. -/
  final : ∀ e ∈ log, ∀ x o, e.before.orders.get? x = some o → o.status ≠ .new →
    pb.orders.get? x = some o
  /-- No client id is filled twice. -/
  once : (log.fills.map Fill.clientOrderId).Nodup
  /-- Submitting a known client id changes nothing. -/
  known : ∀ e ∈ log, ∀ now req, e.call = .submit now req →
    (e.before.orders.get? req.clientOrderId).isSome → e.after = e.before
  /-- The position is the signed sum of the fills of the instrument. -/
  position : ∀ i st, pb.state.get? i = some st →
    st.position = ((log.fills.filter fun f => decide (f.instrument = i)).map Fill.dq).sum

/-- What a run keeps, besides the order book: every emitted fill belongs to a filled order. -/
structure BookHistory (pb : PaperBroker) (log : BrokerLog) : Prop where
  book : OrderBook pb
  final : ∀ e ∈ log, ∀ x o, e.before.orders.get? x = some o → o.status ≠ .new →
    pb.orders.get? x = some o
  once : (log.fills.map Fill.clientOrderId).Nodup
  filled : ∀ f ∈ log.fills, ∃ o, pb.orders.get? f.clientOrderId = some o ∧ o.status = .filled
  position : ∀ i st, pb.state.get? i = some st →
    st.position = ((log.fills.filter fun f => decide (f.instrument = i)).map Fill.dq).sum

/-- A new broker has no history. -/
theorem BookHistory.new (cost : CostModel) (instruments : List Instrument) (ids : IdGenerator)
    (lam rate : Decimal) : BookHistory (PaperBroker.new cost instruments ids lam rate) [] where
  book := .new ..
  final := fun e he => (List.not_mem_nil he).elim
  once := List.nodup_nil
  filled := fun f hf => (List.not_mem_nil hf).elim
  position := by
    intro i st hst
    obtain ⟨spec, -, rfl⟩ := PaperBroker.new_state hst
    rfl

/-- One more call is followed by its fills. -/
theorem BrokerLog.fills_snoc (log : BrokerLog) (e : Entry PaperBroker BrokerCall BrokerAnswer) :
    BrokerLog.fills (log ++ [e]) = log.fills ++ e.answer.emitted := by
  simp [BrokerLog.fills]

/-- **Step lemma**: the history of the book goes on by one call. -/
theorem BookHistory.snoc {pb pb' : PaperBroker} {log : BrokerLog} {c : BrokerCall}
    {a : BrokerAnswer} (h : BookHistory pb log) (hc : pb.call c = .ok (a, pb'))
    (hid : OwnId ⟨pb, c, a, pb'⟩) : BookHistory pb' (log ++ [⟨pb, c, a, pb'⟩]) := by
  obtain ⟨hbook, hmoves⟩ := h.book.call hc hid
  -- what was final before the call is final after it
  have hfinal : ∀ x o, pb.orders.get? x = some o → o.status ≠ .new →
      pb'.orders.get? x = some o := by
    intro x o ho hstatus
    obtain ⟨o', ho', -, hsame⟩ := hmoves.kept x o ho
    rw [ho', hsame hstatus]
  refine ⟨hbook, fun e he x o ho hstatus => ?_, ?_, fun f hf => ?_, fun i st' hst' => ?_⟩
  · rcases List.mem_append.mp he with he | he
    · exact hfinal x o (h.final e he x o ho hstatus) hstatus
    · rw [List.mem_singleton] at he
      subst he
      exact hfinal x o ho hstatus
  · rw [BrokerLog.fills_snoc, List.map_append, List.nodup_append]
    refine ⟨h.once, hmoves.nodup, fun x hx y hy hxy => ?_⟩
    obtain ⟨f, hf, rfl⟩ := List.mem_map.mp hx
    obtain ⟨g, hg, rfl⟩ := List.mem_map.mp hy
    -- an earlier fill left its order filled, a fill of this call found its order new
    obtain ⟨o, ho, hdone⟩ := h.filled f hf
    have hnew := (hmoves.filled g hg).2 o (hxy ▸ ho)
    rw [hdone] at hnew
    cases hnew
  · rw [BrokerLog.fills_snoc, List.mem_append] at hf
    rcases hf with hf | hf
    · obtain ⟨o, ho, hdone⟩ := h.filled f hf
      exact ⟨o, hfinal _ o ho (by rw [hdone]; simp), hdone⟩
    · exact (hmoves.filled f hf).1
  · obtain ⟨st, hst, hpos⟩ := hmoves.position i st' hst'
    rw [BrokerLog.fills_snoc, List.filter_append, List.map_append, List.sum_append, hpos,
      h.position i st hst]

/-- **The order book law.** Over any sequence of calls that return, in which no client uses an
    id that the generator has still to hand out: new orders wait in exactly one queue of their
    instrument, queues hold only new orders, final orders never change, no client id is filled
    twice, a known client id changes nothing, and the positions are the sums of the fills. -/
theorem order_book (cost : CostModel) (instruments : List Instrument) (ids : IdGenerator)
    (lam rate : Decimal) {pb : PaperBroker} {log : BrokerLog}
    (h : Run BrokerStep (PaperBroker.new cost instruments ids lam rate) pb log)
    (hid : ∀ e ∈ log, OwnId e) : BookLaw pb log := by
  have hinv : (∀ e ∈ log, OwnId e) → BookHistory pb log := by
    refine h.invariant (fun pb log => (∀ e ∈ log, OwnId e) → BookHistory pb log) ?_ ?_
    · exact fun _ => .new ..
    · intro pb log c a pb' ih hc hall
      refine (ih fun e he => hall e (List.mem_append_left _ he)).snoc hc ?_
      exact hall _ (List.mem_append_right _ (List.mem_singleton_self _))
  obtain ⟨hbook, hfinal, honce, -, hpos⟩ := hinv hid
  refine ⟨fun x o ho hnew => ?_, fun i st hst x hx => ?_, hfinal, honce, fun e he => ?_, hpos⟩
  · obtain ⟨st, hst⟩ := hbook.known _ x ⟨o, ho, hnew, rfl⟩
    refine ⟨st, hst, List.count_eq_one_of_mem (hbook.nodup _ st hst) ?_⟩
    exact List.mem_append.mpr ((hbook.live _ st hst x).mp ⟨o, ho, hnew, rfl⟩)
  · exact (hbook.live i st hst x).mpr (List.mem_append.mp hx)
  · intro now req hcall hknown
    obtain ⟨pre, post, hlog⟩ := List.append_of_mem he
    have hstep : e.before.call e.call = .ok (e.answer, e.after) := (h.before_entry hlog).2
    rw [hcall] at hstep
    obtain ⟨-, hafter⟩ := Prod.mk.inj (Except.ok.inj hstep)
    rw [← hafter]
    exact PaperBroker.submit_known hknown

/-- Ids that the generator of the broker never hands out are safe to use throughout. -/
theorem ownId_of_reserved {cost : CostModel} {instruments : List Instrument} {ids : IdGenerator}
    {lam rate : Decimal} {pb : PaperBroker} {log : BrokerLog}
    (h : Run BrokerStep (PaperBroker.new cost instruments ids lam rate) pb log)
    (hown : ∀ e ∈ log, ∀ now req, e.call = .submit now req → ¬ids.Pending req.clientOrderId) :
    ∀ e ∈ log, OwnId e := by
  -- identifiers are only used up, so that one that was never to come is never drawn
  have hinv := h.invariant (fun pb log =>
    (∀ e ∈ log, ∀ now req, e.call = .submit now req → ¬ids.Pending req.clientOrderId) →
      OrderBook pb ∧ (∀ u, pb.ids.Pending u → ids.Pending u) ∧ ∀ e ∈ log, OwnId e) ?_ ?_
  · exact (hinv hown).2.2
  · exact fun _ => ⟨.new .., fun _ hu => hu, fun e he => (List.not_mem_nil he).elim⟩
  · intro pb log c a pb' ih hc hall
    obtain ⟨hbook, hids, hlog⟩ := ih fun e he => hall e (List.mem_append_left _ he)
    have hlast : OwnId ⟨pb, c, a, pb'⟩ := fun now req hcall hu =>
      hall ⟨pb, c, a, pb'⟩ (List.mem_append_right _ (List.mem_singleton_self _)) now req hcall
        (hids _ hu)
    obtain ⟨hbook', hmoves⟩ := hbook.call hc hlast
    refine ⟨hbook', fun u hu => hids u (hmoves.ids u hu), fun e he => ?_⟩
    rcases List.mem_append.mp he with he | he
    · exact hlog e he
    · rw [List.mem_singleton] at he
      subst he
      exact hlast

/-! ### A run, and a collision of ids -/

/-- The instrument of the samples. -/
def sampleInstrument : Instrument where
  symbolCanon := "BTC"
  tickSize := ⟨1, by norm_num⟩
  stepSize := ⟨1, by norm_num⟩
  minNotional := ⟨5, by norm_num⟩
  mmr := 1 / 200
  maintAmount := 0
  maxLeverage := 10

/-- The costs of the samples. -/
def sampleCost : CostModel where
  mode := .zero
  kS := ⟨0, by norm_num⟩
  taker := ⟨1 / 2000, by norm_num⟩
  maker := ⟨1 / 5000, by norm_num⟩
  noiseBps := ⟨0, by norm_num⟩
  spreadTicks := 1
  fundingHoursUtc := [0, 8, 16]
  fundingHoursUtc_ne := by simp
  fundingHoursUtc_sorted := by decide
  fundingHoursUtc_lt := by decide
  sqrt := fun x => x
  normal := fun _ => 0
  drawn := 0

/-- A generator that hands out the even numbers. -/
def evenIds : IdGenerator where
  uuid := fun k => 2 * k
  injective := fun a b h => by simpa using h
  n := 0

/-- The broker of the samples. -/
def sampleBroker : PaperBroker :=
  .new sampleCost [sampleInstrument] evenIds (94 / 100) (1 / 10000)

/-- An order of the samples. -/
def sampleOrder (coid : Uuid) (side : Side) (stop : Option Decimal) : OrderRequest :=
  ⟨coid, "BTC", side, if stop.isSome then .stopMarket else .market, 2, stop, stop.isSome, none, 1⟩

/-- A long with a stop and a take-profit that the second bar reaches. -/
def sampleBook (coid : Uuid) : List BrokerCall :=
  [.submit 1 (sampleOrder coid .long none),
    .submit 1 (sampleOrder (coid + 2) .short (some 90)),
    .onBar ⟨"BTC", 2, 100, 105, 95, 101, 7⟩,
    .submit 3 (sampleOrder (coid + 4) .long none),
    .setTakeProfit "BTC" (some 110) none,
    .onBar ⟨"BTC", 4, 101, 120, 100, 115, 7⟩]

/-- The sample run fills the two market orders and the take-profit. -/
theorem order_book_sample : ∃ pb log,
    execE PaperBroker.call sampleBroker (sampleBook 7) = .ok (pb, log) ∧
      (BrokerLog.fills log).length = 3 ∧ BookLaw pb log := by
  obtain ⟨pb, log, hr, hlen⟩ := execE_any PaperBroker.call sampleBroker (sampleBook 7)
    (fun r => decide ((BrokerLog.fills r.2).length = 3))
    (by decide +kernel)
  refine ⟨pb, log, hr, of_decide_eq_true hlen, ?_⟩
  have hrun := Run.execE PaperBroker.call hr
  refine order_book sampleCost [sampleInstrument] evenIds _ _ hrun (ownId_of_reserved hrun ?_)
  -- the client numbers its orders with odd numbers
  have hodd : ∀ c ∈ sampleBook 7, ∀ now req, c = .submit now req →
      ¬∃ k : ℕ, 2 * k = req.clientOrderId := by
    simp only [sampleBook, List.mem_cons, List.not_mem_nil, or_false]
    rintro c (rfl | rfl | rfl | rfl | rfl | rfl) now req hreq ⟨k, hk⟩ <;> cases hreq
    all_goals
      simp only [sampleOrder] at hk
      omega
  intro e he now req hcall
  have hmem : e.call ∈ sampleBook 7 := calls_execE _ hr ▸ List.mem_map_of_mem he
  rintro ⟨k, -, hk⟩
  exact hodd _ hmem now req hcall ⟨k, hk⟩

/-- **The law needs its hypothesis.** A client that submits the id which the generator hands
    out next is filled twice under it: by its own order and by the take-profit. -/
theorem synthetic_id_collides : ¬∀ (cost : CostModel) (instruments : List Instrument)
    (ids : IdGenerator) (lam rate : Decimal) (pb : PaperBroker) (log : BrokerLog),
    Run BrokerStep (PaperBroker.new cost instruments ids lam rate) pb log → BookLaw pb log := by
  intro hall
  obtain ⟨pb, log, hr, htwice⟩ := execE_any PaperBroker.call sampleBroker (sampleBook 0)
    (fun r => decide (¬((BrokerLog.fills r.2).map Fill.clientOrderId).Nodup))
    (by decide +kernel)
  exact of_decide_eq_true htwice (hall _ _ _ _ _ pb log (Run.execE _ hr)).once

end FuzzHelm
