import FuzzHelm.Backtest.BookBar

namespace FuzzHelm

open Lib

/-!
# The records of orders

What the fills of a bar and the synchronisation after them do to the records of the loop.

* `Carries.fill_qty` — a fill executes its order in full;
* `TradingLoop.Watches` — the records against the orders of the broker;
* `TradingLoop.Refers` — the decisions that the loop still refers to;
* `TradingLoop.Booked` — the records after the fills;
* `TradingLoop.syncOrders_get` — the records after the synchronisation.
-/

/-! ### Fills are full -/

/-- The quantity of an order that takes a position by `x`, read off the fill. -/
theorem Fill.abs_dq {f : Fill} (hside : f.side ≠ .flat) (hqty : 0 < f.qty) : |f.dq| = f.qty := by
  unfold Fill.dq
  rw [abs_mul, abs_of_pos hqty]
  cases hs : f.side with
  | flat => exact absurd hs hside
  | short => simp [Side.toInt]
  | long => simp [Side.toInt]

section Full

variable {st : InstState} {orders : Dict Uuid Order} {p p' : Plan} {fs : List Fill} {f : Fill}

/-- The stop of a position has its size. -/
theorem IsStop.qty {pos : Decimal} {s : Protection} (h : IsStop orders pos s) :
    ∃ o, orders.get? s.coid = some o ∧ o.req.qty = |pos| := by
  obtain ⟨o, ho, -, -, -, -, hqty, -⟩ := h
  exact ⟨o, ho, hqty⟩

/-- The open executes what is pending in full. -/
theorem Carries.market_qty (hc : Carries st orders p) (hm : Plan.Market p fs p') (hf : f ∈ fs) :
    ∃ o, orders.get? f.clientOrderId = some o ∧ o.req.qty = |f.dq| := by
  cases hm with
  | idle hidle => cases hf
  | close hclose hid hdq =>
    obtain ⟨o, ho, -, -, -, -, hqty⟩ := hc.close _ hclose
    rw [List.mem_singleton] at hf
    subst hf
    exact ⟨o, by rw [hid]; exact ho, by rw [hqty, hdq, abs_neg]⟩
  | opening hopen hid hdq htarget =>
    obtain ⟨o, ho, -, -, -, -, hqty⟩ := (hc.opening _ _ _ _ hopen).1
    rw [List.mem_singleton] at hf
    subst hf
    exact ⟨o, by rw [hid]; exact ho, by rw [hqty, hdq]⟩

/-- The stop of the position after the open protects all of it. -/
theorem Carries.market_stop (hc : Carries st orders p) (hm : Plan.Market p fs p')
    {s : Protection} (hs : p'.stop = some s) : IsStop orders p'.position s := by
  cases hm with
  | idle hidle => exact hc.stop s hs
  | close hclose hid hdq => cases hs
  | opening hopen hid hdq htarget => exact (hc.opening _ _ _ _ hopen).2 s hs

/-- **A bar fills in full** what it fills of the orders that it found. -/
theorem Carries.fill_qty {synthetic : Uuid → Prop} (hc : Carries st orders p)
    (hb : Plan.Bar synthetic p fs p') (hf : f ∈ fs) :
    (∃ o, orders.get? f.clientOrderId = some o ∧ o.req.qty = |f.dq|) ∨
      synthetic f.clientOrderId := by
  obtain ⟨p₁, fs₁, fs₂, hm, ht, rfl⟩ := hb
  rcases List.mem_append.mp hf with hf | hf
  · exact .inl (hc.market_qty hm hf)
  · cases ht with
    | hold => cases hf
    | exit hpos hdq hid =>
      rw [List.mem_singleton] at hf
      subst hf
      rcases hid with ⟨s, hs, heq⟩ | hsyn
      · obtain ⟨o, ho, hqty⟩ := (hc.market_stop hm hs).qty
        exact .inl ⟨o, by rw [heq]; exact ho, by rw [hqty, hdq, abs_neg]⟩
      · exact .inr hsyn

end Full

/-! ### Records and orders -/

/-- Nothing of the order has been filled. -/
structure OrderRecord.Unfilled (r : OrderRecord) : Prop where
  qty : r.filledQty = 0
  price : r.avgFillPrice = none
  fee : r.fee = 0
  time : r.tsFilledNs = none

/-- The record `r` is that of the order `o` of the broker. -/
structure OrderRecord.IsOf (r : OrderRecord) (c : Uuid) (o : Order) : Prop where
  coid : r.request.clientOrderId = c
  request : o.req = r.request
  state : r.status = .new ∨ r.status = .filled ∨ r.status = .canceled
  unfilled : r.status ≠ .filled → r.Unfilled

/-- The record says of the order what the broker says. -/
def OrderRecord.Agrees (r : OrderRecord) (o : Order) : Prop :=
  o.status = r.status ∧ (r.status ≠ .filled → o.rejectCode = r.rejectCode)

/-- The fill executes the order of the record in full. -/
structure OrderRecord.FullBy (r : OrderRecord) (f : Fill) : Prop where
  pos : 0 < f.qty
  full : r.request.qty = f.qty
  unfilled : r.Unfilled

/-- The last fill that an order was waiting for fills it. -/
theorem OrderRecord.FullBy.status {r : OrderRecord} {f : Fill} (h : r.FullBy f) :
    (r.addFill f).status = .filled := by
  unfold OrderRecord.addFill
  dsimp only
  rw [h.unfilled.qty, zero_add, if_pos h.full.le]

namespace TradingLoop

/-- **The loop watches its orders**: every record is that of an order of the broker, and what
    the record takes for new is under supervision.  `exact` says that the records are up to
    date; else the broker may have canceled what is new. -/
structure Watches (l : TradingLoop) (exact : Bool) : Prop where
  order : ∀ c r, l.orders.get? c = some r → ∃ o, l.broker.orders.get? c = some o ∧ r.IsOf c o ∧
    (r.Agrees o ∨ (exact = false ∧ r.status = .new ∧ o.status = .canceled))
  supervised : ∀ c r, l.orders.get? c = some r → r.status = .new → c ∈ l.openOrders

/-- Every decision that the loop still refers to was made at `t` or before. -/
structure Refers (l : TradingLoop) (t : ℤ) : Prop where
  entries : ∀ c m, l.entries.get? c = some m → m.decisionNs ≤ t
  openPos : ∀ r d, l.openPos = some r → r.openingDecisionNs = some d → d ≤ t
  orders : ∀ c r d, l.orders.get? c = some r → r.decisionNs = some d → d ≤ t

variable {l l' : TradingLoop}

/-- What is known at a time is known later. -/
theorem Refers.mono {t t' : ℤ} (h : l.Refers t) (ht : t ≤ t') : l.Refers t' where
  entries := fun c m hm => (h.entries c m hm).trans ht
  openPos := fun r d hr hd => (h.openPos r d hr hd).trans ht
  orders := fun c r d hr hd => (h.orders c r d hr hd).trans ht

/-! ### The fills of a bar -/

/-- The record that the loop makes for the fill of an order that it does not know. -/
structure Made (l : TradingLoop) (f : Fill) (r : OrderRecord) : Prop where
  request : l.broker.orderRequest f.clientOrderId = some r.request
  status : r.status = .new
  unfilled : r.Unfilled

/-- The record that a fill finds. -/
def Found (l : TradingLoop) (f : Fill) (r : OrderRecord) : Prop :=
  l.orders.get? f.clientOrderId = some r ∨
    (l.orders.get? f.clientOrderId = none ∧ l.Made f r)

/-- The record of the order that a fill names is found, with the decision it came from. -/
theorem orderRecordForFill_found {f : Fill} {r : OrderRecord} {t : ℤ}
    (h : l.orderRecordForFill f = .ok r) (ht : l.Refers t) :
    l.Found f r ∧ ∀ d, r.decisionNs = some d → d ≤ t := by
  unfold orderRecordForFill at h
  split at h
  · rename_i record hrecord
    cases h
    exact ⟨.inl hrecord, fun d hd => ht.orders _ _ d hrecord hd⟩
  · rename_i hnone
    split at h
    · cases h
    · rename_i req hreq
      cases h
      refine ⟨.inr ⟨hnone, hreq, rfl, rfl, rfl, rfl, rfl⟩, fun d hd => ?_⟩
      obtain ⟨r, hr, hrd⟩ := Option.bind_eq_some_iff.mp hd
      exact ht.openPos r d hr hrd

/-- **One fill**, on the records. -/
theorem applyFill_record {f : Fill} {acc acc' : Collected} {t : ℤ} (ht : l.Refers t)
    (h : l.applyFill f acc = .ok (acc', l')) :
    ∃ r, l.Found f r ∧ l'.orders = l.orders.insert f.clientOrderId (r.addFill f) ∧
      l'.touched = l.touched ++ [f.clientOrderId] ∧ l'.broker = l.broker ∧
      l'.openOrders = l.openOrders ∧ l'.Refers t ∧
      acc'.newOrders = acc.newOrders ++
        (if l.orders.get? f.clientOrderId = none then [f.clientOrderId] else []) := by
  obtain ⟨record, reason, happ⟩ := applyFill_eq_ok h
  obtain ⟨hfound, hdate⟩ := orderRecordForFill_found happ.found ht
  -- of the records only that of the order changes, and it keeps its decision
  have horders : l'.orders = l.orders.insert f.clientOrderId (record.addFill f) := by
    rw [happ.state]
    rfl
  have hdates : ∀ c r d, l'.orders.get? c = some r → r.decisionNs = some d → d ≤ t := by
    intro c r d hr hd
    rw [horders, Dict.get?_insert] at hr
    split at hr
    · cases hr
      exact hdate d hd
    · exact ht.orders c r d hr hd
  have hnew : acc'.newOrders = acc.newOrders ++
      (if l.orders.get? f.clientOrderId = none then [f.clientOrderId] else []) := by
    rw [happ.newOrders]
    cases l.orders.get? f.clientOrderId <;> simp
  have hrefers : l'.Refers t := by
    rcases happ.position with ⟨hentries, r, hr, hrd⟩ | ⟨hentries, hsame | hnone, -⟩
    · -- the position was opened by the entry that the fill executes
      refine ⟨fun c m hm => ht.entries c m ?_, fun r' d hr' hd => ?_, hdates⟩
      · rw [hentries, Dict.get?_erase] at hm
        split at hm
        · cases hm
        · exact hm
      · rw [hr] at hr'
        cases hr'
        rw [hrd, Option.map_eq_some_iff] at hd
        obtain ⟨m, hm, rfl⟩ := hd
        exact ht.entries _ m hm
    · exact ⟨fun c m hm => ht.entries c m (hentries ▸ hm),
        fun r d hr hd => ht.openPos r d (hsame.symm.trans hr) hd, hdates⟩
    · refine ⟨fun c m hm => ht.entries c m (hentries ▸ hm), fun r d hr _ => ?_, hdates⟩
      rw [hnone] at hr
      cases hr
  have hframe : l'.touched = l.touched ++ [f.clientOrderId] ∧ l'.broker = l.broker ∧
      l'.openOrders = l.openOrders := by
    rw [happ.state]
    exact ⟨rfl, rfl, rfl⟩
  exact ⟨record, hfound, horders, hframe.1, hframe.2.1, hframe.2.2, hrefers, hnew⟩

/-- What the fills of a bar do to the records; `new` and `new'` are the ids of the orders that
    have appeared, before and after. -/
structure Booked (l : TradingLoop) (fs : List Fill) (l' : TradingLoop) (new new' : List Uuid) :
    Prop where
  others : ∀ x, x ∉ fs.map Fill.clientOrderId → l'.orders.get? x = l.orders.get? x
  filled : ∀ f ∈ fs, ∃ r, l.Found f r ∧ l'.orders.get? f.clientOrderId = some (r.addFill f)
  appeared : new' = new ++
    (fs.map Fill.clientOrderId).filter fun c => (l.orders.get? c).isNone
  touched : l'.touched = l.touched ++ fs.map Fill.clientOrderId
  broker : l'.broker = l.broker
  openOrders : l'.openOrders = l.openOrders

/-- What is found stays found where the record and the broker are as they were. -/
theorem Found.congr {f : Fill} {r : OrderRecord} (h : l'.Found f r)
    (horders : l'.orders.get? f.clientOrderId = l.orders.get? f.clientOrderId)
    (hbroker : l'.broker = l.broker) : l.Found f r := by
  unfold Found at h ⊢
  rw [horders] at h
  refine h.imp_right fun hmade => ⟨hmade.1, ?_, hmade.2.status, hmade.2.unfilled⟩
  rw [← hbroker]
  exact hmade.2.request

/-- **The fills of a bar**, on the records. -/
theorem applyFills_booked {fs : List Fill} {acc acc' : Collected} {t : ℤ}
    (hnd : (fs.map Fill.clientOrderId).Nodup) (ht : l.Refers t)
    (h : applyFills fs l acc = .ok (acc', l')) :
    Booked l fs l' acc.newOrders acc'.newOrders ∧ l'.Refers t := by
  induction fs generalizing l acc with
  | nil =>
    cases h
    exact ⟨⟨fun _ _ => rfl, (fun _ hf => by cases hf), by simp, by simp, rfl, rfl⟩, ht⟩
  | cons f fs ih =>
    rw [applyFills, bind_eq_ok] at h
    obtain ⟨⟨acc₁, l₁⟩, hone, h⟩ := h
    rw [List.map_cons, List.nodup_cons] at hnd
    obtain ⟨r, hfound, horders, htouched, hbroker, hopen, ht₁, hnew⟩ := applyFill_record ht hone
    obtain ⟨hbooked, ht'⟩ := ih hnd.2 ht₁ h
    have hsame : ∀ x, x ≠ f.clientOrderId → l₁.orders.get? x = l.orders.get? x := by
      intro x hx
      rw [horders, Dict.get?_insert_of_ne _ _ hx.symm]
    have hother : ∀ g ∈ fs, g.clientOrderId ≠ f.clientOrderId := by
      intro g hg heq
      exact hnd.1 (heq ▸ List.mem_map_of_mem hg)
    refine ⟨⟨fun x hx => ?_, fun g hg => ?_, ?_, ?_, hbooked.broker.trans hbroker,
      hbooked.openOrders.trans hopen⟩, ht'⟩
    · rw [List.map_cons, List.mem_cons, not_or] at hx
      exact (hbooked.others x hx.2).trans (hsame x hx.1)
    · rcases List.mem_cons.mp hg with rfl | hg
      · refine ⟨r, hfound, (hbooked.others _ hnd.1).trans ?_⟩
        rw [horders, Dict.get?_insert_self]
      · obtain ⟨r', hfound', hr'⟩ := hbooked.filled g hg
        exact ⟨r', hfound'.congr (hsame _ (hother g hg)) hbroker, hr'⟩
    · rw [hbooked.appeared, hnew, List.append_assoc, List.map_cons, List.filter_cons]
      have hrest : (fs.map Fill.clientOrderId).filter
          (fun c => (l₁.orders.get? c).isNone) =
            (fs.map Fill.clientOrderId).filter fun c => (l.orders.get? c).isNone := by
        refine List.filter_congr fun x hx => ?_
        obtain ⟨g, hg, rfl⟩ := List.mem_map.mp hx
        rw [hsame _ (hother g hg)]
      rw [hrest]
      by_cases hnone : l.orders.get? f.clientOrderId = none
      · simp [hnone]
      · simp [hnone]
    · rw [hbooked.touched, htouched, List.append_assoc]
      rfl

/-! ### The synchronisation -/

/-- A record that the broker has corrected is up to date. -/
theorem synced_idem (c : Uuid) (r : OrderRecord) : l.synced c (l.synced c r) = l.synced c r := by
  by_cases hfinal : r.status.isFinal = true
  · have hsame : l.synced c r = r := by
      unfold synced
      rw [if_pos hfinal]
    rw [hsame, hsame]
  · cases hack : l.broker.orderAck c with
    | none => simp [synced, hfinal, hack]
    | some ack =>
      by_cases heq : ack.status = r.status
      · simp [synced, hfinal, hack, heq]
      · simp [synced, hfinal, hack, heq]

/-- An order at its end is not looked up again. -/
theorem synced_final {c : Uuid} {r : OrderRecord} (h : r.status.isFinal = true) :
    l.synced c r = r := by
  unfold synced
  rw [if_pos h]

/-- A new record, set to what the broker says. -/
theorem synced_new {c : Uuid} {r : OrderRecord} {o : Order} (hr : r.status = .new)
    (ho : l.broker.orders.get? c = some o) :
    l.synced c r = if o.status = .new then r
      else { r with status := o.status, rejectCode := o.rejectCode } := by
  unfold synced PaperBroker.orderAck
  simp [hr, ho, OrderStatus.isFinal]

/-- Looking an order up does not change its request. -/
@[simp] theorem synced_request (c : Uuid) (r : OrderRecord) :
    (l.synced c r).request = r.request := (l.synced_spec c r).request

/-- **The synchronisation**, on the records: those under supervision are set to what the broker
    says, and what has been touched or has changed is reported. -/
theorem syncOrders_get {cs keep : List Uuid} {out : List OrderRecord}
    (h : syncOrders cs l = .ok (keep, out, l')) :
    (∀ x, l'.orders.get? x =
      if x ∈ cs then (l.orders.get? x).map (l.synced x) else l.orders.get? x) ∧
    (∀ x r, x ∈ cs → l.orders.get? x = some r → (l.synced x r).status.isFinal = false →
      x ∈ keep) ∧
    (∀ u ∈ out, ∃ x ∈ cs, ∃ r, l.orders.get? x = some r ∧ u = l.synced x r ∧
      (x ∈ l.touched ∨ u.status ≠ r.status)) ∧
    ∀ x r, x ∈ cs → l.orders.get? x = some r → (l.synced x r).status ≠ r.status →
      l.synced x r ∈ out := by
  induction cs generalizing l keep out with
  | nil =>
    cases h
    exact ⟨by simp, (fun _ _ hx => by cases hx), (fun _ hu => by cases hu),
      fun _ _ hx => by cases hx⟩
  | cons c cs ih =>
    obtain ⟨record, keep', out', hrecord, hrest, rfl, rfl⟩ := syncOrders_cons_eq_ok h
    obtain ⟨hget, hkeep, hout, hchanged⟩ := ih hrest
    -- the rest of the loop finds the record of `c` up to date, and the others as they were
    have hsyn (x : Uuid) : synced { l with
        orders := l.orders.insert c (l.synced c record) } x = l.synced x := rfl
    have hins (x : Uuid) : (l.orders.insert c (l.synced c record)).get? x =
        if c = x then some (l.synced c record) else l.orders.get? x := Dict.get?_insert ..
    simp only [hsyn, hins] at hget hkeep hout hchanged
    refine ⟨fun x => ?_, fun x r hx hr hfinal => ?_, fun u hu => ?_, fun x r hx hr hne => ?_⟩
    · rw [hget]
      by_cases hcx : c = x
      · subst hcx
        simp [hrecord, synced_idem]
      · simp [hcx, Ne.symm hcx]
    · by_cases hcx : c = x
      · subst hcx
        rw [hrecord] at hr
        cases hr
        rw [if_neg (by simp [hfinal])]
        exact List.mem_cons_self ..
      · have hin := hkeep x r ((List.mem_cons.mp hx).resolve_left (Ne.symm hcx))
          ((if_neg hcx).trans hr) hfinal
        split
        · exact hin
        · exact List.mem_cons_of_mem _ hin
    · have hsplit : u = l.synced c record ∧
          (c ∈ l.touched ∨ (l.synced c record).status ≠ record.status) ∨ u ∈ out' := by
        split at hu
        · rename_i hchange
          exact (List.mem_cons.mp hu).imp_left fun heq => ⟨heq, hchange⟩
        · exact .inr hu
      rcases hsplit with ⟨rfl, hchange⟩ | hu
      · exact ⟨c, List.mem_cons_self, record, hrecord, rfl, hchange⟩
      · obtain ⟨x, hx, r, hr, heq, hchange⟩ := hout u hu
        by_cases hcx : c = x
        · subst hcx
          rw [if_pos rfl] at hr
          cases hr
          rw [synced_idem] at heq
          refine ⟨c, List.mem_cons_self, record, hrecord, heq, .inl ?_⟩
          exact hchange.resolve_right (not_not.mpr (congrArg OrderRecord.status heq))
        · rw [if_neg hcx] at hr
          exact ⟨x, List.mem_cons_of_mem _ hx, r, hr, heq, hchange⟩
    · by_cases hcx : c = x
      · subst hcx
        rw [hrecord] at hr
        cases hr
        rw [if_pos (by simp [hne])]
        exact List.mem_cons_self ..
      · have hin := hchanged x r ((List.mem_cons.mp hx).resolve_left (Ne.symm hcx))
          ((if_neg hcx).trans hr) hne
        split
        · exact List.mem_cons_of_mem _ hin
        · exact hin

end TradingLoop

end FuzzHelm
