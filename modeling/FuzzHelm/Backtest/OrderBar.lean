import FuzzHelm.Backtest.OrderRecords

namespace FuzzHelm

open Lib

/-!
# The record of an order on a bar

A bar leaves the record of an order alone, fills it in full, learns that the broker has canceled
it, or makes it with the fill of an order of the broker's own.

* `Traded` — what may happen to a record;
* `Represents.fate` — what becomes of an order of the broker;
* `Closing` — the books between the fills of a bar and its end;
* `Closing.ends` — every record is traded, and agrees with the broker after the bar.
-/

/-! ### One order on a bar -/

/-- The fills of one order. -/
def fillsOf (fs : List Fill) (c : Uuid) : List Fill :=
  fs.filter fun f => decide (f.clientOrderId = c)

/-- An order that no fill names has no fills. -/
theorem fillsOf_eq_nil {fs : List Fill} {c : Uuid} (h : c ∉ fs.map Fill.clientOrderId) :
    fillsOf fs c = [] := by
  apply List.filter_eq_nil_iff.mpr
  intro f hf heq
  exact h (of_decide_eq_true heq ▸ List.mem_map_of_mem hf)

/-- An order that is filled once has one fill. -/
theorem fillsOf_eq_singleton {fs : List Fill} (hnd : (fs.map Fill.clientOrderId).Nodup) {f : Fill}
    (hf : f ∈ fs) : fillsOf fs f.clientOrderId = [f] := by
  induction fs with
  | nil => cases hf
  | cons g fs ih =>
    rw [List.map_cons, List.nodup_cons] at hnd
    unfold fillsOf at ih ⊢
    rcases List.mem_cons.mp hf with rfl | hf
    · rw [List.filter_cons_of_pos (by simp)]
      exact congrArg _ (fillsOf_eq_nil hnd.1)
    · have hne : g.clientOrderId ≠ f.clientOrderId := by
        intro heq
        exact hnd.1 (heq ▸ List.mem_map_of_mem hf)
      rw [List.filter_cons_of_neg (by simpa using hne)]
      exact ih hnd.2 hf

/-- The updates report that the order was canceled. -/
def Cancels (updates : List OrderRecord) (c : Uuid) : Prop :=
  ∃ u ∈ updates, u.request.clientOrderId = c ∧ u.status = .canceled

/-- **What a bar may do to the record of one order**: nothing; fill it, in full; learn that the
    broker has canceled it; or make it, with the fill of an order of the broker's own. -/
inductive Traded (fs : List Fill) (updates : List OrderRecord) (new : List Uuid) (c : Uuid) :
    Option OrderRecord → Option OrderRecord → Prop
  | same {x : Option OrderRecord} (hf : fillsOf fs c = []) (hu : ¬Cancels updates c)
      (hn : c ∉ new) : Traded fs updates new c x x
  | filled {r : OrderRecord} {f : Fill} (hr : r.status = .new) (hfull : r.FullBy f)
      (hf : fillsOf fs c = [f]) (hu : ¬Cancels updates c) (hn : c ∉ new) :
      Traded fs updates new c (some r) (some (r.addFill f))
  | canceled {r : OrderRecord} (code : Option RejectCode) (hr : r.status = .new)
      (hf : fillsOf fs c = []) (hu : Cancels updates c) (hn : c ∉ new) :
      Traded fs updates new c (some r)
        (some { r with status := .canceled, rejectCode := code })
  | made {r : OrderRecord} {f : Fill} (hr : r.status = .new) (hfull : r.FullBy f)
      (hf : fillsOf fs c = [f]) (hu : ¬Cancels updates c) (hn : c ∈ new) :
      Traded fs updates new c none (some (r.addFill f))

namespace Traded

variable {fs : List Fill} {updates : List OrderRecord} {new : List Uuid} {c : Uuid}
  {x y : Option OrderRecord} {r : OrderRecord}

/-- What the bar has made had no record, and has one. -/
theorem of_mem_new (h : Traded fs updates new c x y) (hc : c ∈ new) :
    x = none ∧ ∃ r, y = some r := by
  cases h with
  | same hf hu hn => exact absurd hc hn
  | filled hr hfull hf hu hn => exact absurd hc hn
  | canceled code hr hf hu hn => exact absurd hc hn
  | made hr hfull hf hu hn => exact ⟨rfl, _, rfl⟩

/-- The bar makes a record for what it has made, and for nothing else. -/
theorem isSome_eq (h : Traded fs updates new c x y) (hc : c ∉ new) : y.isSome = x.isSome := by
  cases h with
  | same hf hu hn => rfl
  | filled hr hfull hf hu hn => rfl
  | canceled code hr hf hu hn => rfl
  | made hr hfull hf hu hn => exact absurd hn hc

/-- A record that was canceled before the bar stays as it is. -/
theorem stays (h : Traded fs updates new c (some r) y) (hs : r.status = .canceled) :
    y = some r := by
  cases h with
  | same => rfl
  | filled hr =>
    rw [hs] at hr
    cases hr
  | canceled code hr =>
    rw [hs] at hr
    cases hr

/-- A record that is canceled after the bar was so before, or is reported. -/
theorem cancels (h : Traded fs updates new c x (some r)) (hs : r.status = .canceled) :
    x = some r ∨ Cancels updates c := by
  cases h with
  | same => exact .inl rfl
  | filled hr hfull =>
    rw [hfull.status] at hs
    cases hs
  | canceled code hr hf hu => exact .inr hu
  | made hr hfull =>
    rw [hfull.status] at hs
    cases hs

end Traded

/-- What becomes of one order of the broker on a bar. -/
inductive Fate (fs : List Fill) (c : Uuid) (o o' : Order) : Prop
  | kept (h : o' = o) (hf : c ∉ fs.map Fill.clientOrderId)
  | canceled (h : o.status = .new) (h' : o'.status = .canceled)
      (hf : c ∉ fs.map Fill.clientOrderId)
  | filled (h : o.status = .new) (h' : o'.status = .filled)
      (hf : c ∈ fs.map Fill.clientOrderId)

namespace Represents

variable {l l' : TradingLoop} {st st' : InstState} {p p' : Plan} {b : Book}
  {broker : PaperBroker} {c : Uuid} {o o' : Order} {f : Fill}

/-- The fill of a bar executes in full the order that it fills. -/
theorem filled_full (h : Represents l st p) (hd : BarDone l st p b broker st' p')
    (ht : (l.broker.book st).Traced none b) (hf : f ∈ b.fills) :
    ∃ o, broker.orders.get? f.clientOrderId = some o ∧ o.status = .filled ∧
      0 < f.qty ∧ o.req.qty = f.qty := by
  obtain ⟨-, ⟨o, ho, hfilled⟩, horigin⟩ := hd.sound.fills f hf
  refine ⟨o, hd.orders ▸ ho, hfilled, ?_⟩
  -- filled before, cancelled or filled by this bar
  rcases ht _ o (by simp) ho with hold | hcancel | ⟨-, g, hg, hexec⟩
  · -- an order that was filled before is not filled again
    rcases horigin with hnone | ⟨o', ho', hnew, -⟩
    · rw [hnone] at hold
      cases hold
    · rw [hold] at ho'
      cases ho'
      rw [hfilled] at hnew
      cases hnew
  · rw [hfilled] at hcancel
    cases hcancel
  · have hgf : g = f := by
      refine List.inj_on_of_nodup_map hd.sound.fills_nodup hg hf ?_
      rw [hexec.coid, hd.sound.keys _ o ho]
    subst hgf
    refine ⟨hexec.pos, ?_⟩
    -- the quantity is that of the order, or all that the broker made it for
    rcases h.carries.fill_qty hd.bar hg with ⟨o₀, ho₀, hqty⟩ | ⟨hnone, -⟩
    · obtain ⟨o', ho', hreq, -⟩ := hd.sound.evolves.kept _ o₀ ho₀
      rw [ho] at ho'
      cases ho'
      rw [hreq, hqty, Fill.abs_dq hexec.side hexec.pos]
    · exact (hexec.full hnone).symm

/-- **The fate of an order** that was there before the bar. -/
theorem fate (hd : BarDone l st p b broker st' p') (ht : (l.broker.book st).Traced none b)
    (ho : l.broker.orders.get? c = some o) :
    ∃ o', broker.orders.get? c = some o' ∧ o'.req = o.req ∧ Fate b.fills c o o' := by
  obtain ⟨o', ho', hreq, hfinal⟩ := hd.sound.evolves.kept c o ho
  refine ⟨o', hd.orders ▸ ho', hreq, ?_⟩
  -- what a fill names was live before it and is filled after it
  have hfills : c ∈ b.fills.map Fill.clientOrderId → o.status = .new ∧ o'.status = .filled := by
    intro hmem
    obtain ⟨f, hf, rfl⟩ := List.mem_map.mp hmem
    obtain ⟨-, ⟨o₁, ho₁, hfilled⟩, horigin⟩ := hd.sound.fills f hf
    rw [ho'] at ho₁
    cases ho₁
    rcases horigin with hnone | ⟨o₂, ho₂, hnew, -⟩
    · rw [show (l.broker.book st).orders.get? f.clientOrderId = some o from ho] at hnone
      cases hnone
    · rw [show (l.broker.book st).orders.get? f.clientOrderId = some o from ho] at ho₂
      cases ho₂
      exact ⟨hnew, hfilled⟩
  by_cases hmem : c ∈ b.fills.map Fill.clientOrderId
  · exact .filled (hfills hmem).1 (hfills hmem).2 hmem
  · rcases ht c o' (by simp) ho' with hold | hcancel | ⟨hfilled, g, hg, hexec⟩
    · rw [show (l.broker.book st).orders.get? c = some o from ho] at hold
      cases hold
      exact .kept rfl hmem
    · by_cases hnew : o.status = .new
      · exact .canceled hnew hcancel hmem
      · exact .kept (hfinal fun hlive => hnew hlive.1) hmem
    · refine absurd ?_ hmem
      rw [← hd.sound.keys c o' ho', ← hexec.coid]
      exact List.mem_map_of_mem hg

/-- What the end of a bar leaves of the record of one order, against what the broker says. -/
structure Ends (l l' : TradingLoop) (fs : List Fill) (updates : List OrderRecord)
    (new : List Uuid) (c : Uuid) : Prop where
  traded : Traded fs updates new c (l.orders.get? c) (l'.orders.get? c)
  order : ∀ r, l'.orders.get? c = some r → ∃ o, l'.broker.orders.get? c = some o ∧
    r.IsOf c o ∧ r.Agrees o
  supervised : ∀ r, l'.orders.get? c = some r → r.status = .new → c ∈ l'.openOrders

/-- The books between the fills of a bar and its end: what the fills have done, and what the
    synchronisation does then. -/
structure Closing (l l₂ l' : TradingLoop) (st : InstState) (p : Plan) (b : Book)
    (broker : PaperBroker) (st' : InstState) (p' : Plan) (updates : List OrderRecord)
    (new : List Uuid) : Prop where
  done : BarDone l st p b broker st' p'
  traced : (l.broker.book st).Traced none b
  watches : l.Watches false
  others : ∀ x, x ∉ b.fills.map Fill.clientOrderId → l₂.orders.get? x = l.orders.get? x
  filled : ∀ f ∈ b.fills, ∃ r, l₂.orders.get? f.clientOrderId = some (r.addFill f) ∧
    (l.orders.get? f.clientOrderId = some r ∨ (l.orders.get? f.clientOrderId = none ∧
      r.status = .new ∧ r.Unfilled ∧
      ∃ o, broker.orders.get? f.clientOrderId = some o ∧ r.request = o.req))
  appeared : new = (b.fills.map Fill.clientOrderId).filter fun c => (l.orders.get? c).isNone
  touched : l₂.touched = b.fills.map Fill.clientOrderId
  orders : ∀ x, l₂.broker.orders.get? x = broker.orders.get? x
  orders' : ∀ x, l'.broker.orders.get? x = broker.orders.get? x
  openOrders : l₂.openOrders = l.openOrders
  get : ∀ x, l'.orders.get? x =
    if x ∈ l.openOrders then (l₂.orders.get? x).map (l₂.synced x) else l₂.orders.get? x
  kept : ∀ x r, x ∈ l.openOrders → l₂.orders.get? x = some r →
    (l₂.synced x r).status.isFinal = false → x ∈ l'.openOrders
  reported : ∀ u ∈ updates, ∃ x ∈ l.openOrders, ∃ r, l₂.orders.get? x = some r ∧
    u = l₂.synced x r ∧ (x ∈ l₂.touched ∨ u.status ≠ r.status)
  changed : ∀ x r, x ∈ l.openOrders → l₂.orders.get? x = some r →
    (l₂.synced x r).status ≠ r.status → l₂.synced x r ∈ updates

namespace Closing

variable {l₂ : TradingLoop} {new : List Uuid} {updates : List OrderRecord}

/-- What the synchronisation finds as it is. -/
theorem get_of_synced (hc : Closing l l₂ l' st p b broker st' p' updates new) {r : OrderRecord}
    (hr : l₂.orders.get? c = some r) (hsame : l₂.synced c r = r) :
    l'.orders.get? c = some r := by
  rw [hc.get, hr]
  split
  · rw [Option.map_some, hsame]
  · rfl

/-- An order that is reported as canceled has been changed by the synchronisation, or filled. -/
theorem not_cancels (hc : Closing l l₂ l' st p b broker st' p' updates new) {r : OrderRecord}
    (hkeys : ∀ x r, l₂.orders.get? x = some r → r.request.clientOrderId = x)
    (hr : l₂.orders.get? c = some r) (hsame : l₂.synced c r = r)
    (hnot : r.status ≠ .canceled ∨ c ∉ b.fills.map Fill.clientOrderId) :
    ¬Cancels updates c := by
  rintro ⟨u, hu, hid, hcancel⟩
  obtain ⟨x, -, rx, hx, rfl, hchange⟩ := hc.reported u hu
  rw [TradingLoop.synced_request, hkeys x rx hx] at hid
  subst hid
  rw [hr] at hx
  cases hx
  rw [hsame] at hcancel hchange
  rw [hc.touched] at hchange
  rcases hnot with hne | hmem
  · exact hne hcancel
  · exact hchange.elim hmem fun hne => hne rfl

/-- Every record after the fills is that of its order. -/
theorem keys (hc : Closing l l₂ l' st p b broker st' p' updates new) :
    ∀ x r, l₂.orders.get? x = some r → r.request.clientOrderId = x := by
  intro x r hr
  by_cases hmem : x ∈ b.fills.map Fill.clientOrderId
  · obtain ⟨f, hf, rfl⟩ := List.mem_map.mp hmem
    obtain ⟨r₀, hr₀, hfound⟩ := hc.filled f hf
    rw [hr] at hr₀
    cases hr₀
    show r₀.request.clientOrderId = f.clientOrderId
    rcases hfound with hold | ⟨-, -, -, o, ho, hreq⟩
    · obtain ⟨o, -, hof, -⟩ := hc.watches.order _ r₀ hold
      exact hof.coid
    · rw [hreq]
      rw [hc.done.orders] at ho
      exact hc.done.sound.keys _ o ho
  · rw [hc.others x hmem] at hr
    obtain ⟨o, -, hof, -⟩ := hc.watches.order x r hr
    exact hof.coid

/-- The record of an order that the bar has filled. -/
theorem ends_filled (h : Represents l st p)
    (hc : Closing l l₂ l' st p b broker st' p' updates new) (hf : f ∈ b.fills) :
    Ends l l' b.fills updates new f.clientOrderId := by
  obtain ⟨r, hr, hfound⟩ := hc.filled f hf
  obtain ⟨o', ho', hfilled, hpos, hqty⟩ := h.filled_full hc.done hc.traced hf
  have hone := fillsOf_eq_singleton hc.done.sound.fills_nodup hf
  have hmem : f.clientOrderId ∈ b.fills.map Fill.clientOrderId := List.mem_map_of_mem hf
  -- the record that the fill found was new, and is filled in full
  have hrecord : r.status = .new ∧ r.FullBy f ∧ r.request = o'.req := by
    rcases hfound with hold | ⟨-, hnew, hun, o, ho, hreq⟩
    · obtain ⟨o, ho, hof, hagree⟩ := hc.watches.order _ r hold
      obtain ⟨o₁, ho₁, hreq₁, hfate⟩ := fate hc.done hc.traced ho
      rw [ho'] at ho₁
      cases ho₁
      have hreq : r.request = o'.req := by rw [hreq₁, hof.request]
      have hlive : o.status = .new := by
        cases hfate with
        | kept _ hno => exact absurd hmem hno
        | canceled _ _ hno => exact absurd hmem hno
        | filled hlive _ _ => exact hlive
      have hnew : r.status = .new := by
        rcases hagree with hagree | ⟨-, hnew, -⟩
        · rw [← hagree.1]
          exact hlive
        · exact hnew
      refine ⟨hnew, ⟨hpos, by rw [hreq, hqty], hof.unfilled ?_⟩, hreq⟩
      rw [hnew]
      decide
    · rw [ho'] at ho
      cases ho
      exact ⟨hnew, ⟨hpos, by rw [hreq, hqty], hun⟩, hreq⟩
  obtain ⟨hnew, hfull, hreq⟩ := hrecord
  have hstatus := hfull.status
  have hsame : l₂.synced f.clientOrderId (r.addFill f) = r.addFill f :=
    TradingLoop.synced_final (by rw [hstatus]; rfl)
  have hget := hc.get_of_synced hr hsame
  have hnot : ¬Cancels updates f.clientOrderId := by
    refine hc.not_cancels hc.keys hr hsame (.inl ?_)
    rw [hstatus]
    decide
  refine ⟨?_, fun r' hr' => ?_, fun r' hr' hnew' => ?_⟩
  · rw [hget]
    rcases hfound with hold | ⟨hnone, -⟩
    · rw [hold]
      refine .filled hnew hfull hone hnot ?_
      rw [hc.appeared]
      simp [hold]
    · rw [hnone]
      refine .made hnew hfull hone hnot ?_
      rw [hc.appeared]
      simp only [List.mem_filter, hnone, Option.isNone_none, and_true]
      exact hmem
  · rw [hget] at hr'
    cases hr'
    refine ⟨o', (hc.orders' _).trans ho', ⟨?_, hreq.symm, .inr (.inl hstatus), ?_⟩, ?_, ?_⟩
    · exact hc.keys _ _ hr
    · exact fun hne => absurd hstatus hne
    · rw [hfilled, hstatus]
    · exact fun hne => absurd hstatus hne
  · rw [hget] at hr'
    cases hr'
    rw [hstatus] at hnew'
    cases hnew'

/-- The record of an order that the bar has not filled. -/
theorem ends_unfilled (hc : Closing l l₂ l' st p b broker st' p' updates new)
    (hmem : c ∉ b.fills.map Fill.clientOrderId) : Ends l l' b.fills updates new c := by
  have hnone := fillsOf_eq_nil hmem
  have hold := hc.others c hmem
  have hno : c ∉ new := by
    rw [hc.appeared]
    exact fun hin => hmem (List.mem_of_mem_filter hin)
  cases hr : l.orders.get? c with
  | none =>
    rw [hr] at hold
    have hget : l'.orders.get? c = none := by
      rw [hc.get, hold]
      simp
    refine ⟨?_, fun r hr' => ?_, fun r hr' _ => ?_⟩
    · rw [hr, hget]
      refine .same hnone ?_ hno
      rintro ⟨u, hu, hid, -⟩
      obtain ⟨x, -, rx, hx, rfl, -⟩ := hc.reported u hu
      rw [TradingLoop.synced_request, hc.keys x rx hx] at hid
      rw [hid, hold] at hx
      cases hx
    · rw [hget] at hr'
      cases hr'
    · rw [hget] at hr'
      cases hr'
  | some r =>
    rw [hr] at hold
    obtain ⟨o, ho, hof, hagree⟩ := hc.watches.order c r hr
    obtain ⟨o', ho', hreq, hfate⟩ := fate hc.done hc.traced ho
    have ho₂ : l₂.broker.orders.get? c = some o' := (hc.orders c).trans ho'
    have hof' : r.IsOf c o' := ⟨hof.coid, hreq.trans hof.request, hof.state, hof.unfilled⟩
    -- either the record says what the broker says, or the broker has canceled what is new
    have hcases : r.Agrees o' ∨ (r.status = .new ∧ o'.status = .canceled) := by
      cases hfate with
      | kept heq _ =>
        subst heq
        exact hagree.imp_right fun h => h.2
      | canceled hlive hcancel _ =>
        right
        rcases hagree with hagree | ⟨-, hnew, -⟩
        · exact ⟨hagree.1.symm.trans hlive, hcancel⟩
        · exact ⟨hnew, hcancel⟩
      | filled _ _ hin => exact absurd hin hmem
    rcases hcases with hagree | ⟨hnew, hcancel⟩
    · have hsame : l₂.synced c r = r := by
        by_cases hfinal : r.status.isFinal = true
        · exact TradingLoop.synced_final hfinal
        · have hnew : r.status = .new := by
            rcases hof.state with hnew | hfilled | hcanceled
            · exact hnew
            · rw [hfilled] at hfinal
              exact absurd rfl hfinal
            · rw [hcanceled] at hfinal
              exact absurd rfl hfinal
          rw [TradingLoop.synced_new hnew ho₂, if_pos (hagree.1.trans hnew)]
      have hget := hc.get_of_synced hold hsame
      refine ⟨?_, fun r' hr' => ?_, fun r' hr' hnew' => ?_⟩
      · rw [hr, hget]
        exact .same hnone (hc.not_cancels hc.keys hold hsame (.inr hmem)) hno
      · rw [hget] at hr'
        cases hr'
        exact ⟨o', (hc.orders' c).trans ho', hof', hagree⟩
      · rw [hget] at hr'
        cases hr'
        refine hc.kept c r (hc.watches.supervised c r hr hnew') hold ?_
        rw [hsame, hnew']
        rfl
    · have hopen := hc.watches.supervised c r hr hnew
      have hsyn : l₂.synced c r = { r with status := .canceled, rejectCode := o'.rejectCode } := by
        rw [TradingLoop.synced_new hnew ho₂, if_neg (by rw [hcancel]; decide), hcancel]
      have hget : l'.orders.get? c =
          some { r with status := .canceled, rejectCode := o'.rejectCode } := by
        rw [hc.get, if_pos hopen, hold, Option.map_some, hsyn]
      have hun := hof.unfilled (by rw [hnew]; decide)
      refine ⟨?_, fun r' hr' => ?_, fun r' hr' hnew' => ?_⟩
      · rw [hr, hget]
        refine .canceled _ hnew hnone ⟨_, hc.changed c r hopen hold ?_, ?_, ?_⟩ hno
        · rw [hsyn, hnew]
          show OrderStatus.canceled ≠ .new
          decide
        · rw [hsyn]
          exact hof.coid
        · rw [hsyn]
      · rw [hget] at hr'
        cases hr'
        exact ⟨o', (hc.orders' c).trans ho', ⟨hof.coid, hof'.request, .inr (.inr rfl),
          fun _ => ⟨hun.qty, hun.price, hun.fee, hun.time⟩⟩, hcancel, fun _ => rfl⟩
      · rw [hget] at hr'
        cases hr'
        cases hnew'

/-- **What the end of a bar leaves of every record.** -/
theorem ends (h : Represents l st p) (hc : Closing l l₂ l' st p b broker st' p' updates new)
    (c : Uuid) : Ends l l' b.fills updates new c := by
  by_cases hmem : c ∈ b.fills.map Fill.clientOrderId
  · obtain ⟨f, hf, rfl⟩ := List.mem_map.mp hmem
    exact hc.ends_filled h hf
  · exact hc.ends_unfilled hmem

/-- What is reported are records as they are after the bar. -/
theorem reports (hc : Closing l l₂ l' st p b broker st' p' updates new) :
    ∀ u ∈ updates, l'.orders.get? u.request.clientOrderId = some u := by
  intro u hu
  obtain ⟨x, hx, r, hr, rfl, -⟩ := hc.reported u hu
  rw [TradingLoop.synced_request, hc.keys x r hr, hc.get, if_pos hx, hr, Option.map_some]

end Closing

/-- **The books of a bar** are closed by the fills and the synchronisation. -/
theorem closing (hd : BarDone l st p b broker st' p') (ht : (l.broker.book st).Traced none b)
    (hw : l.Watches false) {t : ℤ} (href : l.Refers t) {l₁ l₂ : TradingLoop}
    {funding : List FundingCharge} {portfolio : Portfolio} {acc : TradingLoop.Collected}
    {updates : List OrderRecord}
    (hl₁ : l₁ = { l with
      broker := { broker with funding := funding }
      portfolio := portfolio
      touched := [] })
    (hfills : TradingLoop.applyFills b.fills l₁ ⟨[], []⟩ = .ok (acc, l₂))
    (hsync : l₂.syncOpenOrders = .ok (updates, l')) :
    Closing l l₂ l' st p b broker st' p' updates acc.newOrders ∧ l'.Refers t := by
  have href₁ : l₁.Refers t := by
    rw [hl₁]
    exact ⟨href.entries, href.openPos, href.orders⟩
  obtain ⟨hbooked, href₂⟩ := TradingLoop.applyFills_booked hd.sound.fills_nodup href₁ hfills
  rw [TradingLoop.syncOpenOrders, bind_eq_ok] at hsync
  obtain ⟨⟨keep, out, l₃⟩, hsync, heq⟩ := hsync
  cases heq
  obtain ⟨orders, hl₃, -⟩ := TradingLoop.syncOrders_spec hsync
  obtain ⟨hget, hkeep, hreported, hchanged⟩ := TradingLoop.syncOrders_get hsync
  have hbroker := hbooked.broker
  have hopen := hbooked.openOrders
  rw [hopen] at hget hkeep hreported hchanged
  subst hl₁
  refine ⟨⟨hd, ht, hw, hbooked.others, fun f hf => ?_, hbooked.appeared, hbooked.touched,
    fun x => by rw [hbroker], fun x => ?_, hopen, hget, hkeep, hreported, hchanged⟩, ?_⟩
  · obtain ⟨r, hfound, hr⟩ := hbooked.filled f hf
    refine ⟨r, hr, hfound.imp_right fun hmade => ⟨hmade.1, hmade.2.status, hmade.2.unfilled, ?_⟩⟩
    obtain ⟨o, ho, hreq⟩ := Option.map_eq_some_iff.mp hmade.2.request
    exact ⟨o, ho, hreq.symm⟩
  · show l₃.broker.orders.get? x = _
    rw [hl₃]
    exact congrArg (·.orders.get? x) hbroker
  · -- the synchronisation touches no reference to a decision
    refine ⟨?_, ?_, fun c r d hr hd => ?_⟩
    · rw [hl₃]
      exact href₂.entries
    · rw [hl₃]
      exact href₂.openPos
    · change l₃.orders.get? c = some r at hr
      rw [hget] at hr
      split at hr
      · obtain ⟨r₀, hr₀, rfl⟩ := Option.map_eq_some_iff.mp hr
        exact href₂.orders c r₀ d hr₀ ((l₂.synced_spec c r₀).decision.symm.trans hd)
      · exact href₂.orders c r d hr hd

end Represents

end FuzzHelm
