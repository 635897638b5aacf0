import FuzzHelm.Execution.PaperBroker

namespace FuzzHelm

open Lib

/-!
# What one bar does to the orders

The specification of each piece of a bar, in terms that the callers can use without
unfolding it.

* `Live` / `Evolves` — the orders that still wait, and what may become of an order;
* `Book.sweep_spec` / `Book.execute_eq_ok` / `Book.fire_eq_ok` — one equation for each
  operation;
* `Book.walkTriggers_rule` — what every firing keeps, the walk along a bar keeps;
* `Book.walkAtOpen_fuel` / `Book.walkSegment_fuel` — the budget is enough for the two loops.
-/

/-! ### Live orders -/

/-- The order `c` of the instrument `i` has been accepted and still waits. -/
def Live (orders : Dict Uuid Order) (i : String) (c : Uuid) : Prop :=
  ∃ o, orders.get? c = some o ∧ o.status = .new ∧ o.req.instrument = i

/-- What work on the instrument `i` may do to the orders: no request changes, an order that
    is final or belongs to another instrument stays as it is, new orders belong to `i`. -/
structure Evolves (i : String) (os os' : Dict Uuid Order) : Prop where
  kept : ∀ c o, os.get? c = some o → ∃ o', os'.get? c = some o' ∧ o'.req = o.req ∧
    (¬(o.status = .new ∧ o.req.instrument = i) → o' = o)
  born : ∀ c o', os'.get? c = some o' → os.get? c = none → o'.req.instrument = i

namespace Evolves

variable {i : String} {os os' os'' : Dict Uuid Order}

/-- No order has moved. -/
theorem refl (i : String) (os : Dict Uuid Order) : Evolves i os os where
  kept := fun _ o h => ⟨o, h, rfl, fun _ => rfl⟩
  born := fun c o' h h' => by rw [h] at h'; cases h'

/-- One movement after another. -/
theorem trans (h : Evolves i os os') (h' : Evolves i os' os'') : Evolves i os os'' where
  kept := by
    intro c o hc
    obtain ⟨o₁, hc₁, hreq₁, hfinal₁⟩ := h.kept c o hc
    obtain ⟨o₂, hc₂, hreq₂, hfinal₂⟩ := h'.kept c o₁ hc₁
    refine ⟨o₂, hc₂, hreq₂.trans hreq₁, fun hfinal => ?_⟩
    have h₁ : o₁ = o := hfinal₁ hfinal
    subst h₁
    exact hfinal₂ hfinal
  born := by
    intro c o₂ hc₂ hc
    cases hc₁ : os'.get? c with
    | none => exact h'.born c o₂ hc₂ hc₁
    | some o₁ =>
      obtain ⟨o₂', hc₂', hreq, -⟩ := h'.kept c o₁ hc₁
      rw [hc₂] at hc₂'
      cases hc₂'
      rw [hreq]
      exact h.born c o₁ hc₁ hc

/-- A live order may be overwritten by any state of the same request. -/
theorem insert_live {c : Uuid} {o o' : Order} (hc : os.get? c = some o) (hnew : o.status = .new)
    (hinst : o.req.instrument = i) (hreq : o'.req = o.req) : Evolves i os (os.insert c o') where
  kept := by
    intro x ox hx
    by_cases h : c = x
    · subst h
      rw [hc] at hx
      cases hx
      exact ⟨o', Dict.get?_insert_self .., hreq, fun hn => absurd ⟨hnew, hinst⟩ hn⟩
    · exact ⟨ox, by rw [Dict.get?_insert_of_ne _ _ h, hx], rfl, fun _ => rfl⟩
  born := by
    intro x ox hx hnone
    by_cases h : c = x
    · subst h
      rw [hc] at hnone
      cases hnone
    · rw [Dict.get?_insert_of_ne _ _ h, hnone] at hx
      cases hx

/-- An order of the instrument may appear under a new id. -/
theorem insert_fresh {c : Uuid} {o' : Order} (hc : os.get? c = none)
    (hinst : o'.req.instrument = i) : Evolves i os (os.insert c o') where
  kept := by
    intro x ox hx
    have h : c ≠ x := by
      rintro rfl
      rw [hc] at hx
      cases hx
    exact ⟨ox, by rw [Dict.get?_insert_of_ne _ _ h, hx], rfl, fun _ => rfl⟩
  born := by
    intro x ox hx hnone
    by_cases h : c = x
    · subst h
      rw [Dict.get?_insert_self] at hx
      cases hx
      exact hinst
    · rw [Dict.get?_insert_of_ne _ _ h, hnone] at hx
      cases hx

end Evolves

/-- An order that is known is answered. -/
theorem orderOf_eq_ok {orders : Dict Uuid Order} {c : Uuid} {o : Order} :
    orderOf orders c = .ok o ↔ orders.get? c = some o := by
  unfold orderOf
  cases orders.get? c <;> simp

namespace Book

variable {b b' : Book} {t : ℤ}

/-! ### The loop over the stops -/

/-- **What a sweep does**: it keeps the new orders that it does not drop, in their order, and
    cancels the new orders that it drops. -/
theorem sweep_spec {drop : Order → Bool} {cancel : Order → Order} :
    ∀ {cs : List Uuid} {orders : Dict Uuid Order} {keep : List Uuid} {orders' : Dict Uuid Order},
      cs.Nodup → sweep drop cancel cs orders = .ok (keep, orders') →
        keep = cs.filter (fun c => (orders.get? c).any
          fun o => decide (o.status = .new) && !drop o) ∧
        ∀ c, orders'.get? c = (orders.get? c).map
          fun o => if c ∈ cs ∧ o.status = .new ∧ drop o = true then cancel o else o := by
  intro cs
  induction cs with
  | nil =>
    intro orders keep orders' _ h
    cases h
    exact ⟨rfl, fun c => by simp⟩
  | cons c cs ih =>
    intro orders keep orders' hnd h
    rw [List.nodup_cons] at hnd
    rw [sweep, bind_eq_ok] at h
    obtain ⟨o, ho, h⟩ := h
    rw [orderOf_eq_ok] at ho
    split at h
    · -- no longer new: it leaves the list as it is
      rename_i hstatus
      obtain ⟨hkeep, horders⟩ := ih hnd.2 h
      refine ⟨?_, fun x => ?_⟩
      · rw [hkeep, List.filter_cons, ho]
        simp [hstatus]
      · rw [horders x]
        rcases eq_or_ne x c with rfl | hx
        · simp [ho, hstatus]
        · simp [hx]
    · rename_i hstatus
      rw [not_not] at hstatus
      split at h
      · -- dropped: the rest of the loop sees the cancelled order only under `c`
        rename_i hdrop
        obtain ⟨hkeep, horders⟩ := ih hnd.2 h
        have hsame : ∀ x ∈ cs, (orders.insert c (cancel o)).get? x = orders.get? x :=
          fun x hx => Dict.get?_insert_of_ne _ _ (by rintro rfl; exact hnd.1 hx)
        refine ⟨?_, fun x => ?_⟩
        · rw [hkeep, List.filter_cons, ho]
          simp only [Option.any_some, hstatus, hdrop, decide_true, Bool.not_true, Bool.and_false,
            Bool.false_eq_true, if_false]
          exact List.filter_congr fun x hx => by rw [hsame x hx]
        · rw [horders x]
          rcases eq_or_ne x c with rfl | hx
          · simp [ho, hnd.1, hstatus, hdrop]
          · simp [Dict.get?_insert_of_ne _ _ hx.symm, hx]
      · -- kept
        rename_i hdrop
        rw [bind_eq_ok] at h
        obtain ⟨⟨keep', orders''⟩, hrest, h⟩ := h
        cases h
        obtain ⟨hkeep, horders⟩ := ih hnd.2 hrest
        refine ⟨?_, fun x => ?_⟩
        · rw [hkeep, List.filter_cons, ho]
          simp [hstatus, hdrop]
        · rw [horders x]
          rcases eq_or_ne x c with rfl | hx
          · simp [ho, hnd.1, hdrop]
          · simp [hx]

/-- A sweep leaves an order as it is or cancels it. -/
theorem sweep_back {drop : Order → Bool} {cancel : Order → Order}
    (hcancel : ∀ o, (cancel o).status = .canceled) {cs keep : List Uuid}
    {orders orders' : Dict Uuid Order} (h : sweep drop cancel cs orders = .ok (keep, orders'))
    (c : Uuid) (o : Order) (ho : orders'.get? c = some o) :
    orders.get? c = some o ∨ o.status = .canceled := by
  induction cs generalizing orders keep with
  | nil =>
    cases h
    exact .inl ho
  | cons x cs ih =>
    rw [sweep, bind_eq_ok] at h
    obtain ⟨ox, -, h⟩ := h
    split at h
    -- no longer new: nothing is written
    · exact ih h
    · split at h
      -- dropped: what is under this number now is cancelled
      · rcases ih h with hins | hdone
        · rw [Dict.get?_insert] at hins
          split at hins
          · cases hins
            exact .inr (hcancel ox)
          · exact .inl hins
        · exact .inr hdone
      · rw [bind_eq_ok] at h
        obtain ⟨⟨keep', orders''⟩, hrest, h⟩ := h
        cases h
        exact ih hrest

/-- What a sweep keeps is what it was given, in the same order. -/
theorem sweep_sublist {drop : Order → Bool} {cancel : Order → Order} {cs keep : List Uuid}
    {orders orders' : Dict Uuid Order} (h : sweep drop cancel cs orders = .ok (keep, orders')) :
    keep.Sublist cs := by
  induction cs generalizing orders keep with
  | nil => cases h; exact .slnil
  | cons c cs ih =>
    rw [sweep, bind_eq_ok] at h
    obtain ⟨o, -, h⟩ := h
    split at h
    · exact (ih h).cons c
    · split at h
      · exact (ih h).cons c
      · rw [bind_eq_ok] at h
        obtain ⟨⟨keep', orders''⟩, hrest, h⟩ := h
        cases h
        exact (ih hrest).cons_cons c

/-! ### One execution -/

/-- **A closed position, inverted**: the stops against it are swept, and its levels are taken away.
    -/
theorem onPositionClosed_eq_ok {old : Decimal} (h : b.onPositionClosed old = .ok b') :
    ∃ keep orders,
      sweep (fun o => o.req.reduceOnly && decide (o.req.side = Side.ofInt (-sign old)))
        (fun o => { o with status := .canceled }) b.st.stopOrders b.orders = .ok (keep, orders) ∧
      b' = { b with
        orders := orders
        st := { b.st with
          stopOrders := keep
          tpPrice := if b.st.tpSide = 0 ∨ b.st.tpSide = sign old then none else b.st.tpPrice
          tpSide := if b.st.tpSide = 0 ∨ b.st.tpSide = sign old then 0 else b.st.tpSide
          liqPrice := none } } := by
  rw [onPositionClosed, bind_eq_ok] at h
  obtain ⟨⟨keep, orders⟩, hs, h⟩ := h
  cases h
  exact ⟨keep, orders, hs, rfl⟩

/-- A reduce-only order for the whole position can execute it. -/
theorem executableQty_close {req : OrderRequest} (hpos : b.st.position ≠ 0)
    (hred : req.reduceOnly = true) (hside : req.side = Side.ofInt (-sign b.st.position))
    (hqty : req.qty = |b.st.position|) : b.executableQty req = |b.st.position| := by
  have hint : req.side.toInt = -sign b.st.position := by
    rw [hside, Side.toInt_ofInt_neg_sign]
  have hne : sign b.st.position ≠ req.side.toInt := by
    rw [hint]
    intro h
    have hzero : sign b.st.position = 0 := by omega
    exact hpos (sign_eq_zero_iff.mp hzero)
  unfold executableQty
  rw [hred, Bool.not_true, if_neg Bool.false_ne_true, if_neg (not_or.mpr ⟨hpos, hne⟩), hqty,
    min_self]

/-- **The two outcomes of an execution.** -/
theorem execute_eq_ok {coid : Uuid} {o : Order} {pRef : Decimal} {ts : ℤ}
    {reason : Option ExitReason} (h : b.execute coid o pRef ts reason = .ok b') :
    (b.executableQty o.req ≤ 0 ∧
      b' = { b with
        orders := b.orders.insert coid
          { o with status := .canceled, rejectCode := some .reduceOnly } }) ∨
    (0 < b.executableQty o.req ∧ o.req.side ≠ .flat ∧ ∃ fill cost,
      fill.clientOrderId = o.req.clientOrderId ∧ fill.instrument = o.req.instrument ∧
      fill.side = o.req.side ∧ fill.qty = b.executableQty o.req ∧ fill.tsFillNs = ts ∧
      if closes b.st.position (b.st.position + fill.dq) then
        (b.recordFill coid o fill cost (b.executionReason o.req reason)).onPositionClosed
          b.st.position = .ok b'
      else b' = b.recordFill coid o fill cost (b.executionReason o.req reason)) := by
  unfold execute at h
  -- nothing to execute: the order is cancelled
  by_cases hq : b.executableQty o.req ≤ 0
  · simp only [hq, if_true] at h
    cases h
    exact .inl ⟨hq, rfl⟩
  · simp only [hq, if_false] at h
    rw [bind_eq_ok] at h
    obtain ⟨⟨q, cost⟩, hquote, h⟩ := h
    rw [bind_eq_ok] at h
    obtain ⟨fill, hfill, h⟩ := h
    obtain ⟨hcoid, hinst, hside, hqty, -, -, hts⟩ := mkFill_eq_ok hfill
    refine .inr ⟨not_le.mp hq, (b.cost.quote_eq_ok hquote).1, fill, cost, hcoid, hinst, hside,
      hqty, hts, ?_⟩
    -- the fill may close the position, which clears its levels and its stops
    split at h
    · rename_i hcl
      have hcl' : closes b.st.position (b.st.position + fill.dq) = true := hcl
      rw [if_pos hcl']
      exact h
    · rename_i hcl
      have hcl' : ¬closes b.st.position (b.st.position + fill.dq) = true := hcl
      rw [if_neg hcl']
      cases h
      rfl

/-- An execution leaves the queue of the market orders alone. -/
theorem execute_marketQueue {coid : Uuid} {o : Order} {pRef : Decimal} {ts : ℤ}
    {reason : Option ExitReason} (h : b.execute coid o pRef ts reason = .ok b') :
    b'.st.marketQueue = b.st.marketQueue := by
  rcases execute_eq_ok h with ⟨-, rfl⟩ | ⟨-, -, fill, cost, -, -, -, -, -, h⟩
  · rfl
  · split at h
    · obtain ⟨keep, orders, -, rfl⟩ := onPositionClosed_eq_ok h
      rfl
    · rw [h]
      rfl

/-! ### Triggers -/

/-- What a trigger is made from. -/
inductive IsTrigger (b : Book) (t : ℤ) : Trigger → Prop
  | stop {c o level} (hc : c ∈ b.st.stopOrders) (ho : b.orders.get? c = some o)
      (hnew : o.status = .new) (hprice : o.req.stopPrice = some level)
      (hts : o.req.tsCreatedNs ≤ t) :
      IsTrigger b t ⟨.stop, level, decide (o.req.side = .long), some c, 1⟩
  | tp {level} (hprice : b.st.tpPrice = some level) (hpos : b.st.position ≠ 0)
      (hside : b.st.tpSide = 0 ∨ b.st.tpSide = sign b.st.position) :
      IsTrigger b t ⟨.tp, level, decide (0 < b.st.position), none, 2⟩
  | liq {level} (hprice : b.st.liqPrice = some level) (hpos : b.st.position ≠ 0) :
      IsTrigger b t ⟨.liq, level, decide (b.st.position < 0), none, 0⟩

/-- A trigger of the list is that of one of the stops. -/
theorem mem_stopTriggers {orders : Dict Uuid Order} {cs : List Uuid} {ts : List Trigger}
    (h : stopTriggers t orders cs = .ok ts) {tr : Trigger} (htr : tr ∈ ts) :
    ∃ c ∈ cs, ∃ o, orders.get? c = some o ∧ stopTrigger t c o = some tr := by
  induction cs generalizing ts with
  | nil => cases h; cases htr
  | cons c cs ih =>
    rw [stopTriggers, bind_eq_ok] at h
    obtain ⟨o, ho, h⟩ := h
    rw [bind_eq_ok] at h
    obtain ⟨ts', hts', h⟩ := h
    cases h
    rcases List.mem_append.mp htr with hhead | htail
    · exact ⟨c, List.mem_cons_self .., o, orderOf_eq_ok.mp ho, Option.mem_toList.mp hhead⟩
    · obtain ⟨c', hc', hrest⟩ := ih hts' htail
      exact ⟨c', List.mem_cons_of_mem _ hc', hrest⟩

/-- The triggers of a book are a stop order in the queue, its take-profit or its
    liquidation. -/
theorem isTrigger_of_mem {ts : List Trigger} (h : b.triggers t = .ok ts) {tr : Trigger}
    (htr : tr ∈ ts) : IsTrigger b t tr := by
  rw [triggers, bind_eq_ok] at h
  obtain ⟨stops, hstops, h⟩ := h
  cases h
  -- a stop, the take-profit or the liquidation, each under its own condition
  rcases List.mem_append.mp htr with htr | hliq
  · rcases List.mem_append.mp htr with hstop | htp
    · obtain ⟨c, hc, o, ho, htrig⟩ := mem_stopTriggers hstops hstop
      unfold stopTrigger at htrig
      split at htrig
      · cases htrig
      · rename_i level hprice
        split at htrig
        · rename_i hcond
          cases htrig
          exact .stop hc ho hcond.1 hprice hcond.2
        · cases htrig
    · rw [Option.mem_toList, tpTrigger] at htp
      split at htp
      · cases htp
      · rename_i level hprice
        split at htp
        · rename_i hcond
          cases htp
          exact .tp hprice hcond.1 hcond.2
        · cases htp
  · rw [Option.mem_toList, liqTrigger] at hliq
    split at hliq
    · cases hliq
    · rename_i level hprice
      split at hliq
      · rename_i hpos
        cases hliq
        exact .liq hprice hpos
      · cases hliq

/-- The fold over triggers answers one of them. -/
theorem foldl_min_mem (lt : Trigger → Trigger → Bool) (trs : List Trigger) (m : Trigger) :
    trs.foldl (fun m x => if lt x m then x else m) m ∈ m :: trs := by
  induction trs generalizing m with
  | nil => exact List.mem_cons_self ..
  | cons x trs ih =>
    rw [List.foldl_cons]
    rcases List.mem_cons.mp (ih (if lt x m then x else m)) with h | h
    · rw [h]
      split
      · exact List.mem_cons_of_mem _ (List.mem_cons_self ..)
      · exact List.mem_cons_self ..
    · exact List.mem_cons_of_mem _ (List.mem_cons_of_mem _ h)

/-- The first of the smallest is one of the triggers. -/
theorem firstMin_mem {lt : Trigger → Trigger → Bool} {trs : List Trigger} {tr : Trigger}
    (h : firstMin lt trs = some tr) : tr ∈ trs := by
  cases trs with
  | nil => cases h
  | cons m trs =>
    cases h
    exact foldl_min_mem lt trs m

/-- There is a smallest trigger unless there is none at all. -/
theorem firstMin_eq_none {lt : Trigger → Trigger → Bool} {trs : List Trigger} :
    firstMin lt trs = none ↔ trs = [] := by
  cases trs <;> simp [firstMin]

/-! ### One firing -/

/-- The book before the execution of a stop order that fires. -/
def takeStop (b : Book) (c : Uuid) : Book :=
  { b with st := { b.st with stopOrders := b.st.stopOrders.erase c } }

/-- The book before the execution of a synthetic order. -/
def takeSynthetic (b : Book) (tp : Bool) (order : Order) : Book :=
  { b with
    ids := b.ids.nextUuid.2
    seq := b.seq + 1
    orders := b.orders.insert b.ids.nextUuid.1 order
    st := { b.st with
      tpPrice := if tp then none else b.st.tpPrice
      tpSide := if tp then 0 else b.st.tpSide
      liqPrice := if tp then b.st.liqPrice else none } }

/-- A synthetic order closes the whole position under a new id. -/
structure IsSynthetic (b : Book) (t : ℤ) (order : Order) : Prop where
  coid : order.req.clientOrderId = b.ids.nextUuid.1
  instrument : order.req.instrument = b.st.spec.symbolCanon
  side : order.req.side = Side.ofInt (-sign b.st.position)
  qty : order.req.qty = |b.st.position|
  reduceOnly : order.req.reduceOnly = true
  status : order.status = .new
  decisionRef : order.req.decisionRef = some "TP" ∨ order.req.decisionRef = some "LIQUIDATION"
  ts : order.req.tsCreatedNs = t

/-- **A level without an order, inverted**: an order is made for it, and executed. -/
theorem fireSynthetic_eq_ok {level p : Decimal} {reason : ExitReason}
    (h : b.fireSynthetic level p reason t = .ok b') :
    ∃ order, IsSynthetic b t order ∧
      execute
        { b with
          ids := b.ids.nextUuid.2
          seq := b.seq + 1
          orders := b.orders.insert b.ids.nextUuid.1 order }
        b.ids.nextUuid.1 order p t (some reason) = .ok b' := by
  rw [fireSynthetic, bind_eq_ok] at h
  obtain ⟨req, hreq, h⟩ := h
  unfold syntheticRequest at hreq
  split at hreq
  · cases hreq
  · split at hreq
    · cases hreq
    · cases hreq
      refine ⟨_, ⟨rfl, rfl, rfl, rfl, rfl, rfl, ?_, rfl⟩, h⟩
      by_cases hr : reason = .tp
      · exact .inl (by simp [Order.accepted, hr])
      · exact .inr (by simp [Order.accepted, hr])

/-- **What a firing does**: the stop order leaves its queue and executes, or a synthetic
    order is accepted and executes. -/
theorem fire_eq_ok {tr : Trigger} {p : Decimal} (htr : IsTrigger b t tr)
    (h : b.fire tr p t = .ok b') :
    (∃ c o, c ∈ b.st.stopOrders ∧ b.orders.get? c = some o ∧ o.status = .new ∧
      o.req.tsCreatedNs ≤ t ∧ (b.takeStop c).execute c o p t none = .ok b') ∨
    (b.st.position ≠ 0 ∧ ∃ tp order reason, IsSynthetic b t order ∧
      (if tp then b.st.tpPrice.isSome else b.st.liqPrice.isSome) ∧
      (b.takeSynthetic tp order).execute b.ids.nextUuid.1 order p t reason = .ok b') := by
  cases htr with
  | stop hc ho hnew hprice hts =>
    rw [fire, bind_eq_ok] at h
    obtain ⟨o', ho', h⟩ := h
    rw [orderOf_eq_ok, ho] at ho'
    cases ho'
    exact .inl ⟨_, _, hc, ho, hnew, hts, h⟩
  -- the broker makes an order of its own, after the level is taken away
  | @tp level hprice hpos hside =>
    obtain ⟨order, hsyn, hexec⟩ := fireSynthetic_eq_ok
      (b := { b with st := { b.st with tpPrice := none, tpSide := 0 } }) h
    exact .inr ⟨hpos, true, order, _, ⟨hsyn.1, hsyn.2, hsyn.3, hsyn.4, hsyn.5, hsyn.6, hsyn.7,
      hsyn.8⟩, by simp [hprice], hexec⟩
  | @liq level hprice hpos =>
    obtain ⟨order, hsyn, hexec⟩ := fireSynthetic_eq_ok
      (b := { b with st := { b.st with liqPrice := none } }) h
    exact .inr ⟨hpos, false, order, _, ⟨hsyn.1, hsyn.2, hsyn.3, hsyn.4, hsyn.5, hsyn.6, hsyn.7,
      hsyn.8⟩, by simp [hprice], hexec⟩

/-- A firing leaves the queue of the market orders alone. -/
theorem fire_marketQueue {tr : Trigger} {p : Decimal} (htr : IsTrigger b t tr)
    (h : b.fire tr p t = .ok b') : b'.st.marketQueue = b.st.marketQueue := by
  rcases fire_eq_ok htr h with ⟨c, o, -, -, -, -, h⟩ | ⟨-, tp, o, reason, -, -, h⟩
  · rw [execute_marketQueue h]
    rfl
  · rw [execute_marketQueue h]
    rfl

/-- **The stops that are left over, inverted**: those without a position or an entry that they could
    protect are swept. -/
theorem expireOrphanStops_eq_ok (h : b.expireOrphanStops = .ok b') :
    ∃ sides keep orders, entrySides b.orders (b.st.marketQueue ++ b.st.stopOrders) = .ok sides ∧
      sweep (fun o => o.req.reduceOnly && decide (sign b.st.position ≠ -o.req.side.toInt ∧
          Side.ofInt (-o.req.side.toInt) ∉ sides))
        (fun o => { o with status := .canceled, rejectCode := some .reduceOnly })
        b.st.stopOrders b.orders = .ok (keep, orders) ∧
      b' = { b with orders := orders, st := { b.st with stopOrders := keep } } := by
  rw [expireOrphanStops, bind_eq_ok] at h
  obtain ⟨sides, hsides, h⟩ := h
  simp only [bind_eq_ok] at h
  obtain ⟨⟨keep, orders⟩, hsweep, h⟩ := h
  cases h
  exact ⟨sides, keep, orders, hsides, hsweep, rfl⟩

/-! ### Rules for the loops of a bar -/

/-- **One round at the open**: nothing lies behind the open any more, or what does fires. -/
theorem walkAtOpen_eq_ok {o : Decimal} {n : ℕ} (h : b.walkAtOpen o t (n + 1) = .ok b') :
    ∃ ts, b.triggers t = .ok ts ∧
      ((b' = b ∧ ∀ tr ∈ ts, ¬behind o tr = true) ∨
        ∃ tr b₁,
          firstMin (fun x m => decide (x.priority < m.priority)) (ts.filter (behind o)) =
            some tr ∧
          IsTrigger b t tr ∧ behind o tr = true ∧ b.fire tr o t = .ok b₁ ∧
          b₁.walkAtOpen o t n = .ok b') := by
  rw [walkAtOpen, bind_eq_ok] at h
  obtain ⟨ts, hts, h⟩ := h
  refine ⟨ts, hts, ?_⟩
  split at h
  · rename_i hnone
    cases h
    rw [firstMin_eq_none, List.filter_eq_nil_iff] at hnone
    exact .inl ⟨rfl, hnone⟩
  · rename_i tr hfirst
    rw [bind_eq_ok] at h
    obtain ⟨b₁, hb₁, h⟩ := h
    obtain ⟨hmem, hbehind⟩ := List.mem_filter.mp (firstMin_mem hfirst)
    exact .inr ⟨tr, b₁, hfirst, isTrigger_of_mem hts hmem, hbehind, hb₁, h⟩

/-- **One round of a segment**: its end is reached, or nothing lies on the way any more, or the
    nearest trigger on the way fires. -/
theorem walkSegment_eq_ok {dest cur : Decimal} {n : ℕ}
    (h : b.walkSegment t dest (n + 1) cur = .ok b') :
    (dest = cur ∧ b' = b) ∨ dest ≠ cur ∧ ∃ ts, b.triggers t = .ok ts ∧
      ((b' = b ∧ ∀ tr ∈ ts, ¬onTheWay cur dest tr = true) ∨
        ∃ tr b₁, firstMin (nearer cur dest) (ts.filter (onTheWay cur dest)) = some tr ∧
          IsTrigger b t tr ∧ onTheWay cur dest tr = true ∧ b.fire tr tr.level t = .ok b₁ ∧
          b₁.walkSegment t dest n tr.level = .ok b') := by
  rw [walkSegment] at h
  split at h
  · rename_i heq
    cases h
    exact .inl ⟨heq, rfl⟩
  · rename_i hne
    rw [bind_eq_ok] at h
    obtain ⟨ts, hts, h⟩ := h
    refine .inr ⟨hne, ts, hts, ?_⟩
    -- no level lies on the way, and the segment is over
    split at h
    · rename_i hnone
      cases h
      rw [firstMin_eq_none, List.filter_eq_nil_iff] at hnone
      exact .inl ⟨rfl, hnone⟩
    -- the nearest one fires, and the walk goes on from its level
    · rename_i tr hfirst
      rw [bind_eq_ok] at h
      obtain ⟨b₁, hb₁, h⟩ := h
      obtain ⟨hmem, hway⟩ := List.mem_filter.mp (firstMin_mem hfirst)
      exact .inr ⟨tr, b₁, hfirst, isTrigger_of_mem hts hmem, hway, hb₁, h⟩

section Rules

variable {P : Book → Prop}

/-- What every firing keeps, the gap at the open keeps. -/
theorem walkAtOpen_rule
    (hfire : ∀ b tr p b', P b → IsTrigger b t tr → b.fire tr p t = .ok b' → P b')
    {o : Decimal} {n : ℕ} (hb : P b) (h : b.walkAtOpen o t n = .ok b') : P b' := by
  induction n generalizing b with
  | zero => cases h; exact hb
  | succ n ih =>
    obtain ⟨ts, -, ⟨rfl, -⟩ | ⟨tr, b₁, -, htrig, -, hb₁, h⟩⟩ := walkAtOpen_eq_ok h
    · exact hb
    · exact ih (hfire b tr o b₁ hb htrig hb₁) h

/-- What every firing keeps, a segment of the path keeps. -/
theorem walkSegment_rule
    (hfire : ∀ b tr p b', P b → IsTrigger b t tr → b.fire tr p t = .ok b' → P b')
    {dest cur : Decimal} {n : ℕ} (hb : P b) (h : b.walkSegment t dest n cur = .ok b') :
    P b' := by
  induction n generalizing b cur with
  | zero => cases h; exact hb
  | succ n ih =>
    obtain ⟨-, rfl⟩ | ⟨-, ts, -, ⟨rfl, -⟩ | ⟨tr, b₁, -, htrig, -, hb₁, h⟩⟩ := walkSegment_eq_ok h
    · exact hb
    · exact hb
    · exact ih (hfire b tr tr.level b₁ hb htrig hb₁) h

/-- **The path**, for a property that every firing keeps, by induction on the points. -/
theorem walkPath_rule
    (hfire : ∀ b tr p b', P b → IsTrigger b t tr → b.fire tr p t = .ok b' → P b')
    {rest : List Decimal} {cur : Decimal} (hb : P b) (h : walkPath t rest b cur = .ok b') :
    P b' := by
  induction rest generalizing b cur with
  | nil => cases h; exact hb
  | cons dest rest ih =>
    rw [walkPath, bind_eq_ok] at h
    obtain ⟨b₁, hb₁, h⟩ := h
    exact ih (walkSegment_rule hfire hb hb₁) h

/-- **Rule for the walk.** What every firing keeps, the triggers of a bar keep. -/
theorem walkTriggers_rule {bar : DecBar}
    (hfire : ∀ b tr p b', P b → IsTrigger b bar.openTimeNs tr →
      b.fire tr p bar.openTimeNs = .ok b' → P b')
    (hb : P b) (h : b.walkTriggers bar = .ok b') : P b' := by
  rw [walkTriggers, bind_eq_ok] at h
  obtain ⟨ts, -, h⟩ := h
  split at h
  · cases h; exact hb
  · rw [bind_eq_ok] at h
    obtain ⟨b₁, hb₁, h⟩ := h
    exact walkPath_rule hfire (walkAtOpen_rule hfire hb hb₁) h

/-- **The whole walk**, for a property that every firing keeps. -/
theorem walkPhase_rule {bar : DecBar}
    (hfire : ∀ b tr p b', P b → IsTrigger b bar.openTimeNs tr →
      b.fire tr p bar.openTimeNs = .ok b' → P b')
    (hb : P b) (h : b.walkPhase bar = .ok b') : P b' := by
  rw [walkPhase] at h
  split at h
  · exact walkTriggers_rule hfire hb h
  · cases h
    exact hb

end Rules

/-- A bar fills the market orders, walks the path and sweeps what is left over. -/
theorem runBar_eq_ok {bar : DecBar} (h : b.runBar bar = .ok b') :
    ∃ b₁ b₂, b.fillMarketOrders bar = .ok b₁ ∧ b₁.walkPhase bar = .ok b₂ ∧
      b₂.expirePhase = .ok b' := by
  rw [runBar, bind_eq_ok] at h
  obtain ⟨b₁, hb₁, h⟩ := h
  rw [bind_eq_ok] at h
  obtain ⟨b₂, hb₂, h⟩ := h
  exact ⟨b₁, b₂, hb₁, hb₂, h⟩

/-! ### The budget of the loops -/

/-- Closing a position leaves no more to be closed than there was. -/
theorem onPositionClosed_budget {old : Decimal} (h : b.onPositionClosed old = .ok b') :
    b'.budget ≤ b.budget := by
  obtain ⟨keep, orders, hs, rfl⟩ := onPositionClosed_eq_ok h
  have hlen : keep.length ≤ b.st.stopOrders.length := (sweep_sublist hs).length_le
  have htp : (if (if b.st.tpSide = 0 ∨ b.st.tpSide = sign old then none
      else b.st.tpPrice).isSome then 1 else 0) ≤ if b.st.tpPrice.isSome then 1 else 0 := by
    split <;> simp
  simp only [budget, Option.isSome_none, Bool.false_eq_true, if_false]
  omega

/-- An execution leaves no more to be closed than there was. -/
theorem execute_budget {coid : Uuid} {o : Order} {p : Decimal} {reason : Option ExitReason}
    (h : b.execute coid o p t reason = .ok b') : b'.budget ≤ b.budget := by
  rcases execute_eq_ok h with ⟨-, rfl⟩ | ⟨-, -, fill, cost, -, -, -, -, -, h⟩
  · exact le_rfl
  · split at h
    · exact le_trans (onPositionClosed_budget h) le_rfl
    · rw [h]
      exact le_rfl

/-- Every firing uses up a stop order, the take-profit or the liquidation. -/
theorem fire_budget {tr : Trigger} {p : Decimal} (htr : IsTrigger b t tr)
    (h : b.fire tr p t = .ok b') : b'.budget < b.budget := by
  rcases fire_eq_ok htr h with ⟨c, o, hc, -, -, -, h⟩ | ⟨-, tp, order, reason, -, hsome, h⟩
  · refine lt_of_le_of_lt (execute_budget h) ?_
    have hlen := List.length_erase_of_mem hc
    have hpos := List.length_pos_of_mem hc
    have hlt : (b.st.stopOrders.erase c).length < b.st.stopOrders.length := by omega
    exact Nat.add_lt_add_right (Nat.add_lt_add_right hlt _) _
  · refine lt_of_le_of_lt (execute_budget h) ?_
    cases tp with
    | true =>
      rw [if_pos rfl] at hsome
      simp only [takeSynthetic, budget, hsome, if_true, Option.isSome_none, Bool.false_eq_true,
        if_false]
      omega
    | false =>
      rw [if_neg Bool.false_ne_true] at hsome
      simp only [takeSynthetic, budget, hsome, if_true, Option.isSome_none, Bool.false_eq_true,
        if_false]
      omega

/-- Where nothing is left to be closed, nothing can fire. -/
theorem triggers_of_budget (hb : b.budget = 0) : b.triggers t = .ok [] := by
  unfold budget at hb
  have hstops : b.st.stopOrders = [] := List.eq_nil_of_length_eq_zero (by omega)
  have htp : b.st.tpPrice = none := by
    cases h : b.st.tpPrice with
    | none => rfl
    | some level => simp [h] at hb
  have hliq : b.st.liqPrice = none := by
    cases h : b.st.liqPrice with
    | none => rfl
    | some level => simp [h] at hb
  simp [triggers, hstops, stopTriggers, tpTrigger, htp, liqTrigger, hliq, bind, Except.bind, pure,
    Except.pure]

/-- **The budget is enough at the open**: more fuel changes nothing. -/
theorem walkAtOpen_fuel (o : Decimal) (n : ℕ) (hn : b.budget ≤ n) :
    b.walkAtOpen o t (n + 1) = b.walkAtOpen o t n := by
  induction n generalizing b with
  | zero =>
    rw [walkAtOpen, walkAtOpen, triggers_of_budget (Nat.le_zero.mp hn)]
    rfl
  | succ n ih =>
    rw [walkAtOpen, walkAtOpen]
    cases hts : b.triggers t with
    | error e => rfl
    | ok ts =>
      simp only [bind, Except.bind]
      split
      · rfl
      · rename_i tr htr
        cases hfire : b.fire tr o t with
        | error e => rfl
        | ok b₁ =>
          have hmem := (List.mem_filter.mp (firstMin_mem htr)).1
          have hlt := fire_budget (isTrigger_of_mem hts hmem) hfire
          exact ih (by omega)

/-- **The budget is enough on a segment**: more fuel changes nothing. -/
theorem walkSegment_fuel (dest cur : Decimal) (n : ℕ) (hn : b.budget ≤ n) :
    b.walkSegment t dest (n + 1) cur = b.walkSegment t dest n cur := by
  induction n generalizing b cur with
  -- without budget there is no trigger left
  | zero =>
    rw [walkSegment, walkSegment, triggers_of_budget (Nat.le_zero.mp hn)]
    split <;> rfl
  | succ n ih =>
    rw [walkSegment, walkSegment]
    split
    · rfl
    · cases hts : b.triggers t with
      | error e => rfl
      | ok ts =>
        simp only [bind, Except.bind]
        split
        · rfl
        · rename_i tr htr
          cases hfire : b.fire tr tr.level t with
          | error e => rfl
          | ok b₁ =>
            -- a trigger that fires uses up budget
            have hmem := (List.mem_filter.mp (firstMin_mem htr)).1
            have hlt := fire_budget (isTrigger_of_mem hts hmem) hfire
            exact ih tr.level (by omega)

end Book

end FuzzHelm
