import FuzzHelm.Backtest.LoopRun
import FuzzHelm.Backtest.OrderBar

namespace FuzzHelm

open Lib

/-!
# The record of an order on a step

The parts of a step around the bar: the latch may withdraw orders at the broker, and the decision
sends new ones.

* `Withdraws` — what the latch does; `Watches.withdraws` — the loop watches its orders still;
* `Represents.bookBar_ends` — the bar;
* `TradingLoop.Watches.sends` — the decision;
* `StepOrders` — what a step does to the records of orders.
-/

/-! ### The latch -/

/-- What comes before the bar leaves the records alone; the broker may cancel what is new. -/
structure Withdraws (l l' : TradingLoop) : Prop where
  orders : l'.orders = l.orders
  openOrders : l'.openOrders = l.openOrders
  openPos : l'.openPos = l.openPos
  entries : ∀ c m, l'.entries.get? c = some m → l.entries.get? c = some m
  broker : ∀ c o, l.broker.orders.get? c = some o → ∃ o', l'.broker.orders.get? c = some o' ∧
    o'.req = o.req ∧ (o' = o ∨ (o.status = .new ∧ o'.status = .canceled))

namespace Withdraws

variable {l l' l'' : TradingLoop}

/-- A part that leaves the orders, the position and the entries alone. -/
theorem of_orders (horders : l'.orders = l.orders) (hopen : l'.openOrders = l.openOrders)
    (hpos : l'.openPos = l.openPos) (hentries : l'.entries = l.entries)
    (hbroker : l'.broker.orders = l.broker.orders) : Withdraws l l' where
  orders := horders
  openOrders := hopen
  openPos := hpos
  entries := by
    rw [hentries]
    exact fun _ _ h => h
  broker := by
    rw [hbroker]
    exact fun c o ho => ⟨o, ho, rfl, .inl rfl⟩

/-- Nothing is withdrawn. -/
theorem refl (l : TradingLoop) : Withdraws l l := of_orders rfl rfl rfl rfl rfl

/-- What two parts withdraw. -/
theorem trans (h : Withdraws l l') (h' : Withdraws l' l'') : Withdraws l l'' where
  orders := h'.orders.trans h.orders
  openOrders := h'.openOrders.trans h.openOrders
  openPos := h'.openPos.trans h.openPos
  entries := fun c m hm => h.entries c m (h'.entries c m hm)
  broker := by
    intro c o ho
    obtain ⟨o', ho', hreq, hstep⟩ := h.broker c o ho
    obtain ⟨o'', ho'', hreq', hstep'⟩ := h'.broker c o' ho'
    refine ⟨o'', ho'', hreq'.trans hreq, ?_⟩
    rcases hstep with rfl | ⟨hnew, hcancel⟩
    · exact hstep'
    · -- what has been canceled stays canceled
      rcases hstep' with rfl | ⟨hnew', -⟩
      · exact .inr ⟨hnew, hcancel⟩
      · rw [hcancel] at hnew'
        cases hnew'

/-- One order canceled at the broker, and perhaps an entry forgotten. -/
theorem cancel {c : Uuid} {done : Bool} {broker : PaperBroker} {entries : Dict Uuid EntryMeta}
    (h : l.broker.cancel c = .ok (done, broker))
    (hentries : ∀ x m, entries.get? x = some m → l.entries.get? x = some m) :
    Withdraws l { l with broker := broker, entries := entries } := by
  refine ⟨rfl, rfl, rfl, hentries, fun x ox hx => ?_⟩
  rw [PaperBroker.cancel] at h
  -- no order under the number, or one that is final: nothing changes
  split at h
  · cases h
    exact ⟨ox, hx, rfl, .inl rfl⟩
  · rename_i o ho
    split at h
    · cases h
      exact ⟨ox, hx, rfl, .inl rfl⟩
    -- a live one is cancelled, and no other changes
    · rename_i hlive
      rw [bind_eq_ok] at h
      obtain ⟨st, -, h⟩ := h
      cases h
      by_cases hcx : c = x
      · subst hcx
        rw [ho] at hx
        cases hx
        exact ⟨_, Dict.get?_insert_self .., rfl, .inr ⟨not_not.mp hlive, rfl⟩⟩
      · exact ⟨ox, (Dict.get?_insert_of_ne _ _ hcx).trans hx, rfl, .inl rfl⟩

/-- A take-profit touches no order. -/
theorem setTakeProfit {i : String} {price : Option Decimal} {side : Option Side}
    {broker : PaperBroker} (h : l.broker.setTakeProfit i price side = .ok broker) :
    Withdraws l { l with broker := broker } := by
  rw [PaperBroker.setTakeProfit, bind_eq_ok] at h
  obtain ⟨s, -, h⟩ := h
  split at h
  · cases h
  · cases h
    exact of_orders rfl rfl rfl rfl rfl

/-- Cancelling what would increase the position only withdraws. -/
theorem cancelPendingIncreases (h : l.cancelPendingIncreases = .ok l') : Withdraws l l' := by
  refine TradingLoop.cancelPendingIncreases_invariant
    (fun l₁ c done broker entries h₁ hcancel hentries => ?_)
    (fun l₁ i broker h₁ htp => h₁.trans (setTakeProfit htp)) (.refl l) h
  refine h₁.trans (cancel hcancel fun x m hm => ?_)
  rcases hentries with rfl | rfl
  · exact hm
  · -- what is left of the entries was there before
    rw [Dict.get?_erase] at hm
    split at hm
    · cases hm
    · exact hm

/-- The rate of the funding touches no order. -/
theorem applyFundingRate {tOpen closeNs : ℤ} (h : l.applyFundingRate tOpen closeNs = .ok l') :
    Withdraws l l' := by
  unfold TradingLoop.applyFundingRate at h
  split at h
  · cases h
    exact .refl l
  · obtain ⟨broker, hb, h⟩ := bind_eq_ok.mp h
    cases h
    rw [PaperBroker.setFundingRate, bind_eq_ok] at hb
    obtain ⟨st, -, hb⟩ := hb
    cases hb
    exact of_orders rfl rfl rfl rfl rfl

/-- **Before the bar.** -/
theorem beginBar {inp : StepInput} (h : l.beginBar inp = .ok l') : Withdraws l l' := by
  obtain ⟨clock, -, h⟩ := bind_eq_ok.mp h
  have hclock : Withdraws l { l with clock := clock } := of_orders rfl rfl rfl rfl rfl
  have hlatch : ∀ l₂ : TradingLoop,
      (if l₂.latched then l₂.cancelPendingIncreases else .ok l₂) = .ok l' →
        Withdraws l₂ l' := by
    intro l₂ hl₂
    split at hl₂
    · exact cancelPendingIncreases hl₂
    · cases hl₂
      exact .refl _
  dsimp only at h
  split at h
  · exact hclock.trans (hlatch _ h)
  · obtain ⟨l₂, hrate, h⟩ := bind_eq_ok.mp h
    exact (hclock.trans (applyFundingRate hrate)).trans (hlatch l₂ h)

end Withdraws

namespace TradingLoop

variable {l l' : TradingLoop}

/-- What is watched is watched after a withdrawal, with more cancelled than was noted. -/
theorem Watches.withdraws {exact : Bool} (h : l.Watches exact) (hw : Withdraws l l') :
    l'.Watches false where
  order := by
    intro c r hr
    rw [hw.orders] at hr
    obtain ⟨o, ho, hof, hagree⟩ := h.order c r hr
    obtain ⟨o', ho', hreq, hstep⟩ := hw.broker c o ho
    refine ⟨o', ho', ⟨hof.coid, hreq.trans hof.request, hof.state, hof.unfilled⟩, ?_⟩
    rcases hstep with rfl | ⟨hnew, hcancel⟩
    · exact hagree.imp_right fun h => ⟨rfl, h.2⟩
    · rcases hagree with hagree | ⟨-, hnew', -⟩
      · exact .inr ⟨rfl, hagree.1.symm.trans hnew, hcancel⟩
      · exact .inr ⟨rfl, hnew', hcancel⟩
  supervised := by
    rw [hw.orders, hw.openOrders]
    exact h.supervised

/-- What the records refer to is still there after a withdrawal. -/
theorem Refers.withdraws {t : ℤ} (h : l.Refers t) (hw : Withdraws l l') : l'.Refers t where
  entries := fun c m hm => h.entries c m (hw.entries c m hm)
  openPos := by
    rw [hw.openPos]
    exact h.openPos
  orders := by
    rw [hw.orders]
    exact h.orders

end TradingLoop

/-! ### The bar -/

/-- The liquidation price is no order. -/
theorem TradingLoop.refreshLiquidation_orders {l l' : TradingLoop}
    (h : l.refreshLiquidation = .ok l') :
    l'.orders = l.orders ∧ l'.openOrders = l.openOrders ∧ l'.entries = l.entries ∧
      l'.broker.orders = l.broker.orders ∧
      ∀ r', l'.openPos = some r' → ∃ r, l.openPos = some r ∧
        r'.openingDecisionNs = r.openingDecisionNs := by
  unfold refreshLiquidation at h
  -- without a position, or without a price, nothing is told to the broker
  split at h
  · cases h
  · split at h
    · cases h
      exact ⟨rfl, rfl, rfl, rfl, fun r hr => ⟨r, hr, rfl⟩⟩
    -- otherwise only the level of the liquidation moves
    · obtain ⟨raw, -, h⟩ := bind_eq_ok.mp h
      obtain ⟨broker, hb, h⟩ := bind_eq_ok.mp h
      cases h
      rw [PaperBroker.setLiquidationPrice, bind_eq_ok] at hb
      obtain ⟨st, -, hb⟩ := hb
      cases hb
      refine ⟨rfl, rfl, rfl, rfl, fun r' hr' => ?_⟩
      obtain ⟨r, hr, rfl⟩ := Option.map_eq_some_iff.mp hr'
      refine ⟨r, hr, ?_⟩
      split
      · rfl
      · rfl

namespace Represents

variable {l l' : TradingLoop} {st : InstState} {p : Plan}

/-- **The bar**, on the records. -/
theorem bookBar_ends (h : Represents l st p) {bar : DecBar} (hclock : l.clock.t ≤ bar.openTimeNs)
    (hw : l.Watches false) {t : ℤ} (href : l.Refers t) {fills : List Fill}
    {charges : List FundingCharge} {acc : TradingLoop.Collected} {updates : List OrderRecord}
    (hl : l.bookBar bar = .ok (fills, charges, acc, updates, l')) :
    (∀ c, Ends l l' fills updates acc.newOrders c) ∧ l'.Refers t ∧
      (fills.map Fill.clientOrderId).Nodup ∧
      (∃ keep : Uuid → Bool, acc.newOrders = (fills.map Fill.clientOrderId).filter keep) ∧
      ∀ u ∈ updates, l'.orders.get? u.request.clientOrderId = some u := by
  obtain ⟨⟨fills', broker⟩, hbar, hl⟩ := bind_eq_ok.mp hl
  obtain ⟨b, st', p', hd, rfl, ht, -, -, -⟩ := h.onBar hclock hbar
  dsimp only [PaperBroker.drainFunding] at hl
  obtain ⟨⟨acc₁, l₂⟩, hfills, hl⟩ := bind_eq_ok.mp hl
  obtain ⟨⟨out, l₃⟩, hsync, hl⟩ := bind_eq_ok.mp hl
  obtain ⟨hclosing, href₃⟩ := closing hd ht hw href rfl hfills hsync
  have hends : (∀ c, Ends l l₃ b.fills out acc₁.newOrders c) ∧ l₃.Refers t ∧
      (b.fills.map Fill.clientOrderId).Nodup ∧
      (∃ keep : Uuid → Bool, acc₁.newOrders = (b.fills.map Fill.clientOrderId).filter keep) ∧
      ∀ u ∈ out, l₃.orders.get? u.request.clientOrderId = some u :=
    ⟨hclosing.ends h, href₃, hd.sound.fills_nodup, ⟨_, hclosing.appeared⟩, hclosing.reports⟩
  dsimp only at hl
  split at hl
  · obtain ⟨l₄, hrefresh, hl⟩ := bind_eq_ok.mp hl
    cases hl
    obtain ⟨horders, hopen, hentries, hbroker, hpos⟩ :=
      TradingLoop.refreshLiquidation_orders hrefresh
    obtain ⟨hall, href₃, hnd, happ, hrep⟩ := hends
    refine ⟨fun c => ⟨?_, ?_, ?_⟩, ⟨?_, fun r d hr hd => ?_, ?_⟩, hnd, happ, ?_⟩
    · rw [horders]
      exact (hall c).traded
    · rw [horders, hbroker]
      exact (hall c).order
    · rw [horders, hopen]
      exact (hall c).supervised
    · rw [hentries]
      exact href₃.entries
    · obtain ⟨r₀, hr₀, hsame⟩ := hpos r hr
      exact href₃.openPos r₀ d hr₀ (hsame.symm.trans hd)
    · rw [horders]
      exact href₃.orders
    · rw [horders]
      exact hrep
  · cases hl
    exact hends

end Represents

/-! ### The decision -/

namespace TradingLoop

variable {l l' : TradingLoop} {d : ℤ} {ids : List Uuid}

/-- The loop watches what it has just sent. -/
theorem Watches.sends (h : l.Watches true) (hs : Sends l l' d ids) : l'.Watches true where
  order := by
    intro c r hr
    by_cases hmem : c ∈ ids
    · obtain ⟨req, n, t, role, v, reason, hid, hr', ho⟩ := (hs.sent c hmem).record
      rw [hr] at hr'
      cases hr'
      exact ⟨_, ho, ⟨hid, rfl, .inl rfl, fun _ => ⟨rfl, rfl, rfl, rfl⟩⟩, .inl ⟨rfl, fun _ => rfl⟩⟩
    · obtain ⟨horders, hbroker⟩ := hs.others c hmem
      rw [horders] at hr
      rw [hbroker]
      exact h.order c r hr
  supervised := by
    intro c r hr hnew
    rw [hs.supervised]
    by_cases hmem : c ∈ ids
    · exact .inr hmem
    · rw [(hs.others c hmem).1] at hr
      exact .inl (h.supervised c r hr hnew)

/-- What the records refer to is still there after a submission. -/
theorem Refers.sends (h : l.Refers d) (hs : Sends l l' d ids) : l'.Refers d where
  entries := by
    intro c m hm
    rcases hs.entries c m hm with hold | hnew
    · exact h.entries c m hold
    · exact hnew.le
  openPos := by
    rw [hs.openPos]
    exact h.openPos
  orders := by
    intro c r d' hr hd
    by_cases hmem : c ∈ ids
    · obtain ⟨req, n, t, role, v, reason, -, hr', -⟩ := (hs.sent c hmem).record
      rw [hr] at hr'
      cases hr'
      cases hd
      exact le_refl _
    · rw [(hs.others c hmem).1] at hr
      exact h.orders c r d' hr hd

end TradingLoop

/-! ### The step -/

/-- **What a step does to the records of orders**: `mid` are the records after the bar, `made` the
    orders that appeared on it, `sent` those of the decision. -/
structure StepOrders (l : TradingLoop) (r : StepResult) (l' : TradingLoop)
    (mid : Dict Uuid OrderRecord) (made sent : List Uuid) : Prop where
  traded : ∀ c, Traded r.fills r.orderUpdates made c (l.orders.get? c) (mid.get? c)
  known : ∀ c rec, mid.get? c = some rec → rec.request.clientOrderId = c ∧
    (rec.status = .new ∨ rec.status = .filled ∨ rec.status = .canceled)
  fills : (r.fills.map Fill.clientOrderId).Nodup
  appeared : ∃ keep : Uuid → Bool, made = (r.fills.map Fill.clientOrderId).filter keep
  reports : ∀ u ∈ r.orderUpdates, mid.get? u.request.clientOrderId = some u
  sends : ∀ c ∈ sent, mid.get? c = none ∧ ∃ req role v reason, req.clientOrderId = c ∧
    l'.orders.get? c = some (.new req (some r.openTimeNs) role .new none v reason)
  others : ∀ c, c ∉ sent → l'.orders.get? c = mid.get? c
  nodup : sent.Nodup
  orders : r.orders = (made ++ sent).filterMap l'.orders.get?
  decision : ∀ D, r.decision = some D → D.openTimeNs = r.openTimeNs ∧ sent = D.orderIds
  quiet : r.decision = none → sent = []

namespace StepOrders

variable {l l' : TradingLoop} {r : StepResult} {mid : Dict Uuid OrderRecord}
  {made sent : List Uuid} {c : Uuid}

/-- What the decision has sent has a record after it, and had none before the bar. -/
theorem of_sent (h : StepOrders l r l' mid made sent) (hc : c ∈ sent) :
    c ∉ made ∧ l.orders.get? c = none ∧ mid.get? c = none := by
  have hmid := (h.sends c hc).1
  have hno : c ∉ made := by
    intro hmade
    obtain ⟨-, record, hr⟩ := (h.traded c).of_mem_new hmade
    rw [hmid] at hr
    cases hr
  refine ⟨hno, ?_, hmid⟩
  have hsame := (h.traded c).isSome_eq hno
  rw [hmid] at hsame
  exact Option.not_isSome_iff_eq_none.mp (by simp [← hsame])

/-- The orders that appear on a step are new. -/
theorem fresh (h : StepOrders l r l' mid made sent) (hc : c ∈ made ++ sent) :
    l.orders.get? c = none := by
  rcases List.mem_append.mp hc with hc | hc
  · exact ((h.traded c).of_mem_new hc).1
  · exact (h.of_sent hc).2.1

/-- The orders that appear on a step have records. -/
theorem present (h : StepOrders l r l' mid made sent) (hc : c ∈ made ++ sent) :
    ∃ record, l'.orders.get? c = some record ∧ record.request.clientOrderId = c := by
  by_cases hsent : c ∈ sent
  · obtain ⟨-, req, role, v, reason, hid, hr⟩ := h.sends c hsent
    exact ⟨_, hr, hid⟩
  · have hmade := (List.mem_append.mp hc).resolve_right hsent
    obtain ⟨-, record, hr⟩ := (h.traded c).of_mem_new hmade
    exact ⟨record, (h.others c hsent).trans hr, (h.known c record hr).1⟩

/-- Looked up, ids give the records of those ids. -/
theorem filterMap_ids {d : Dict Uuid OrderRecord} {ids : List Uuid}
    (h : ∀ c ∈ ids, ∃ record, d.get? c = some record ∧ record.request.clientOrderId = c) :
    (ids.filterMap d.get?).map (fun o => o.request.clientOrderId) = ids := by
  induction ids with
  | nil => rfl
  | cons c ids ih =>
    obtain ⟨record, hr, hid⟩ := h c List.mem_cons_self
    rw [List.filterMap_cons_some hr, List.map_cons, hid,
      ih fun c' hc' => h c' (List.mem_cons_of_mem _ hc')]

/-- The step reports the orders that have appeared. -/
theorem ids (h : StepOrders l r l' mid made sent) :
    r.orders.map (fun o => o.request.clientOrderId) = made ++ sent := by
  rw [h.orders]
  exact filterMap_ids fun c hc => h.present hc

/-- The orders that a step makes and those it sends have different identifiers. -/
theorem nodup_ids (h : StepOrders l r l' mid made sent) : (made ++ sent).Nodup := by
  obtain ⟨keep, hmade⟩ := h.appeared
  have hnd : made.Nodup := by
    rw [hmade]
    exact h.fills.filter keep
  exact List.nodup_append.mpr
    ⟨hnd, h.nodup, fun c hc c' hc' heq => (h.of_sent hc').1 (heq ▸ hc)⟩

/-- The orders after a step are those before it and those that have appeared. -/
theorem isSome_iff (h : StepOrders l r l' mid made sent) :
    (l'.orders.get? c).isSome ↔ (l.orders.get? c).isSome ∨ c ∈ made ++ sent := by
  by_cases hc : c ∈ made ++ sent
  · obtain ⟨record, hr, -⟩ := h.present hc
    simp [hr, hc]
  · rw [List.mem_append, not_or] at hc
    rw [h.others c hc.2, (h.traded c).isSome_eq hc.1]
    simp [hc.1, hc.2]

end StepOrders

/-- The records of a loop between two bars are up to date, and refer to past decisions. -/
structure Kept (l : TradingLoop) : Prop where
  watches : l.Watches true
  refers : ∀ t, (∀ last, l.lastOpen = some last → last ≤ t) → l.Refers t

/-- **One step**, on the records of orders. -/
theorem Follows.stepOrders {l l' : TradingLoop} {p : Plan} {inp : StepInput} {r : StepResult}
    (h : Follows l p) (hk : Kept l) (hl : l.step inp = .ok (r, l')) :
    (∃ mid made sent, StepOrders l r l' mid made sent) ∧ Kept l' ∧ l'.Refers r.openTimeNs := by
  obtain ⟨st, hrep, hlast⟩ := h.represents
  obtain ⟨l₁, hbegin, hl⟩ := bind_eq_ok.mp hl
  obtain ⟨⟨fills, charges, acc, updates, l₂⟩, hbook, hl⟩ := bind_eq_ok.mp hl
  obtain ⟨⟨equity, tr, l₃⟩, hvalue, hl⟩ := bind_eq_ok.mp hl
  obtain ⟨⟨decision, l₄⟩, hdecide, hl⟩ := bind_eq_ok.mp hl
  cases hl
  obtain ⟨st₁, h₁, hk₁, hclock₁, hlast₁⟩ := hrep.beginBar h.dated hbegin
  obtain ⟨synthetic, st₂, p₂, hbar, h₂, hk₂, hlater, hopen₂, hclose₂, -⟩ :=
    h₁.bookBar hclock₁.le hbook
  obtain ⟨h₃, hk₃, horders₃, hclock₃⟩ := h₂.valueBar hvalue
  obtain ⟨st₄, p', h₄, hsends, hstate, hlast₄, hdec, hopen, hopening, hasks⟩ :=
    h₃.decideBar hbar.pending hclose₂ hclock₃.ge hdecide
  have hwithdraws := Withdraws.beginBar hbegin
  have hpast : l.Refers inp.bar.openTimeNs := by
    refine hk.refers _ fun last hlast' => (hlater last ?_).le
    rw [hlast₁, hlast, hlast']
  obtain ⟨hends, href₂, hfills, happ, hreports⟩ := h₁.bookBar_ends hclock₁.le
    (hk.watches.withdraws hwithdraws) (hpast.withdraws hwithdraws) hbook
  obtain ⟨-, -, fsm, haltIndex, rfl⟩ := TradingLoop.valueBar_account hvalue
  -- the records that the decision finds are those after the bar
  have hwatch₂ : l₂.Watches true := by
    refine ⟨fun c rec hr => ?_, fun c rec hr hnew => (hends c).supervised rec hr hnew⟩
    obtain ⟨o, ho, hof, hagree⟩ := (hends c).order rec hr
    exact ⟨o, ho, hof, .inl hagree⟩
  have hwatch₄ : l₄.Watches true := by
    refine TradingLoop.Watches.sends ?_ hsends
    exact ⟨hwatch₂.order, hwatch₂.supervised⟩
  have href₄ : l₄.Refers inp.bar.openTimeNs := by
    refine TradingLoop.Refers.sends ?_ hsends
    exact ⟨href₂.entries, href₂.openPos, href₂.orders⟩
  have href₅ : TradingLoop.Refers { l₄ with
      index := l.index + 1, lastOpen := some inp.bar.openTimeNs } inp.bar.openTimeNs :=
    ⟨href₄.entries, href₄.openPos, href₄.orders⟩
  refine ⟨⟨l₂.orders, acc.newOrders, decision.elim [] DecisionEntry.orderIds,
    { traded := fun c => ?_
      known := fun c rec hr => ?_
      fills := hfills
      appeared := happ
      reports := hreports
      sends := fun c hc => ⟨hsends.fresh c hc, ?_⟩
      others := fun c hc => (hsends.others c hc).1
      nodup := hsends.nodup
      orders := rfl
      decision := fun D hD => ⟨hopen D hD, ?_⟩
      quiet := fun hD => ?_ }⟩, ⟨⟨hwatch₄.order, hwatch₄.supervised⟩, fun t ht => ?_⟩, href₅⟩
  · have htraded := (hends c).traded
    rwa [hwithdraws.orders] at htraded
  · obtain ⟨o, -, hof, -⟩ := (hends c).order rec hr
    exact ⟨hof.coid, hof.state⟩
  · obtain ⟨req, n, t, role, v, reason, hid, hr, -⟩ := (hsends.sent c hc).record
    exact ⟨req, role, v, reason, hid, hr⟩
  · change decision = some D at hD
    rw [hD]
    rfl
  · change decision = none at hD
    rw [hD]
    rfl
  · exact href₅.mono (ht _ rfl)

/-- The other calls touch no record. -/
theorem Kept.call {l l' : TradingLoop} {c : LoopCall} {a : LoopAnswer} (h : Kept l)
    (hl : l.call c = .ok (a, l')) :
    (∃ inp r, c = .step inp ∧ a = .stepped r ∧ l.step inp = .ok (r, l')) ∨
      (a = .done ∧ Kept l' ∧ l'.orders = l.orders ∧ l'.lastOpen = l.lastOpen) := by
  -- a call that leaves these fields alone keeps what is said of them
  have hsame : ∀ l₁ : TradingLoop, l₁.orders = l.orders → l₁.openOrders = l.openOrders →
      l₁.broker = l.broker → l₁.entries = l.entries → l₁.openPos = l.openPos →
      l₁.lastOpen = l.lastOpen → Kept l₁ := by
    intro l₁ horders hopen hbroker hentries hpos hlast
    refine ⟨⟨?_, ?_⟩, fun t ht => ?_⟩
    · rw [horders, hbroker]
      exact h.watches.order
    · rw [horders, hopen]
      exact h.watches.supervised
    · rw [hlast] at ht
      have href := h.refers t ht
      refine ⟨?_, ?_, ?_⟩
      · rw [hentries]
        exact href.entries
      · rw [hpos]
        exact href.openPos
      · rw [horders]
        exact href.orders
  -- only a step works on orders
  cases c with
  | step inp =>
    obtain ⟨⟨r, l₁⟩, hstep, hl⟩ := bind_eq_ok.mp hl
    cases hl
    exact .inl ⟨inp, r, rfl, rfl, hstep⟩
  | trip reason tsNs =>
    cases hl
    exact .inr ⟨rfl, hsame _ rfl rfl rfl rfl rfl rfl, rfl, rfl⟩
  | releaseSwitch actorRole actor tsNs =>
    rw [TradingLoop.call] at hl
    obtain ⟨answer, -, hl⟩ := bind_eq_ok.mp hl
    cases hl
    exact .inr ⟨rfl, hsame _ rfl rfl rfl rfl rfl rfl, rfl, rfl⟩
  | releaseHalt actorRole actor =>
    rw [TradingLoop.call] at hl
    obtain ⟨answer, -, hl⟩ := bind_eq_ok.mp hl
    cases hl
    exact .inr ⟨rfl, hsame _ rfl rfl rfl rfl rfl rfl, rfl, rfl⟩
  | applyRiskLimits limits stateMachine =>
    cases hl
    exact .inr ⟨rfl, hsame _ rfl rfl rfl rfl rfl rfl, rfl, rfl⟩
  | setFundingSeries series =>
    cases hl
    exact .inr ⟨rfl, hsame _ rfl rfl rfl rfl rfl rfl, rfl, rfl⟩

/-- A new loop has no records. -/
theorem Kept.new {instrument : Instrument} {cfg : LoopCfg} {riskCfg : RiskConfig}
    {clock : ManualClock} {ids : IdGenerator} {cost : CostModel} {equity : NonNegDec}
    {l₀ : TradingLoop}
    (h : TradingLoop.new instrument cfg riskCfg clock ids cost equity = .ok l₀) : Kept l₀ := by
  obtain ⟨broker, -, h⟩ := bind_eq_ok.mp h
  cases h
  refine ⟨⟨?_, ?_⟩, fun _ _ => ⟨?_, ?_, ?_⟩⟩
  · exact fun _ _ hr => by cases hr
  · exact fun _ _ hr => by cases hr
  · exact fun _ _ hm => by cases hm
  · exact fun _ _ hr => by cases hr
  · exact fun _ _ _ hr => by cases hr

end FuzzHelm
