import FuzzHelm.Workers.Persist

namespace FuzzHelm

open Lib

/-!
# One step of the persister

What a step writes, order by order, and what it shows of the record of the order.

* `LivePersister.writeStep_spec` — the row of every order after a step;
* `Mirrors` — what the row of an order shows of its record;
* `Written.writeStep` — a step of the loop, written, keeps the table a mirror of the records.
-/

/-! ### The rows -/

namespace LivePersister

variable {p : LivePersister} {t : OrderTable} {r : StepResult} {mode : RecordMode}

/-- What a step makes of the row of the order `c`: its fills, then its final states. -/
def finish (r : StepResult) (c : Uuid) (row : SimOrderRow) : SimOrderRow :=
  through (applyUpdate r.closeTimeNs)
    (r.orderUpdates.filter fun u => decide (u.request.clientOrderId = c) &&
      decide (u.status = .canceled ∨ u.status = .rejected))
    (through (fun f row => SimOrderRow.applyFill row f) (fillsOf r.fills c) row)

/-- A new row has the identifier of its order. -/
theorem newRow_coid {fills : List Fill} {o : OrderRecord} {row : SimOrderRow}
    (h : p.newRow fills o = some row) : row.clientOrderId = o.request.clientOrderId := by
  obtain ⟨d, -, rfl⟩ := Option.map_eq_some_iff.mp h
  rfl

/-- A decision that is noted leaves the orders alone. -/
@[simp] theorem noteDecision_orders (d : Option DecisionEntry) :
    (p.noteDecision mode d).orders = p.orders := by
  cases d with
  | none => rfl
  | some D =>
    unfold noteDecision
    dsimp only
    split
    · rfl
    · rfl

/-- The orders that appear are inserted, and no other row changes. -/
theorem insertNew_spec (hnd : (r.orders.map fun o => o.request.clientOrderId).Nodup)
    (hfree : ∀ o ∈ r.orders, t.get? o.request.clientOrderId = none)
    (hp : ∀ c, c ∈ p.orders ↔ (t.get? c).isSome) :
    ∃ t', OrderRepo.insertMany (r.orders.filterMap (p.newRow r.fills)) t = .ok t' ∧
      (∀ c, c ∈ (p.noteOrders r).orders ↔ (t'.get? c).isSome) ∧
      (∀ o ∈ r.orders, t'.get? o.request.clientOrderId = p.newRow r.fills o) ∧
      ∀ c, c ∉ r.orders.map (fun o => o.request.clientOrderId) → t'.get? c = t.get? c := by
  obtain ⟨t', hinsert, hin, hout⟩ := insertRows_filterMap
    (fun o row (hrow : p.newRow r.fills o = some row) => newRow_coid hrow) hnd hfree
  rw [← OrderRepo.insertMany_eq] at hinsert
  refine ⟨t', hinsert, fun c => ?_, hin, fun c hc => hout c fun hmem => hc ?_⟩
  -- known are those of before and those of the inserted rows
  · unfold noteOrders
    rw [List.mem_append]
    by_cases hc : c ∈ (r.orders.filterMap (p.newRow r.fills)).map SimOrderRow.clientOrderId
    · obtain ⟨row, hrow, rfl⟩ := List.mem_map.mp hc
      obtain ⟨o, ho, hnew⟩ := List.mem_filterMap.mp hrow
      have hget := hin o ho
      rw [← newRow_coid hnew, hnew] at hget
      simp [hget, hc]
    · rw [hout c hc, ← hp c]
      exact or_iff_left hc
  · obtain ⟨row, hrow, rfl⟩ := List.mem_map.mp hmem
    obtain ⟨o, ho, hnew⟩ := List.mem_filterMap.mp hrow
    rw [newRow_coid hnew]
    exact List.mem_map_of_mem ho

/-- The fills and the updates of a step reach the rows that there are. -/
theorem finish_spec (hp : ∀ c, c ∈ p.orders ↔ (t.get? c).isSome) :
    ∃ t' t'', OrderRepo.applyFills (r.fills.filter fun f => decide (f.clientOrderId ∈ p.orders)) t =
        .ok t' ∧
      updateRows (fun u => u.request.clientOrderId) (applyUpdate r.closeTimeNs)
        (r.orderUpdates.filter p.reports) t' = .ok t'' ∧
      ∀ c, t''.get? c = (t.get? c).map (finish r c) := by
  have htaken : ∀ f ∈ r.fills.filter fun f => decide (f.clientOrderId ∈ p.orders),
      (t.get? f.clientOrderId).isSome := by
    intro f hf
    exact (hp _).mp (of_decide_eq_true (List.mem_filter.mp hf).2)
  obtain ⟨t', hfills, hget'⟩ := updateRows_spec
    (g := fun f row => SimOrderRow.applyFill row f) htaken
  have htaken' : ∀ u ∈ r.orderUpdates.filter p.reports,
      (t'.get? u.request.clientOrderId).isSome := by
    intro u hu
    rw [hget', Option.isSome_map]
    exact (hp _).mp (of_decide_eq_true (List.mem_filter.mp hu).2).1
  obtain ⟨t'', hupdates, hget''⟩ := updateRows_spec (g := applyUpdate r.closeTimeNs) htaken'
  refine ⟨t', t'', hfills, hupdates, fun c => ?_⟩
  rw [hget'', hget', Option.map_map]
  cases hc : t.get? c with
  | none => rfl
  | some row =>
    -- what is said of an order that has a row is not filtered out
    have hmem : c ∈ p.orders := by
      rw [hp, hc]
      rfl
    have hfs : (r.fills.filter fun f => decide (f.clientOrderId ∈ p.orders)).filter
        (fun f => decide (f.clientOrderId = c)) = fillsOf r.fills c := by
      rw [List.filter_filter]
      refine List.filter_congr fun f _ => ?_
      by_cases hf : f.clientOrderId = c
      · simp [hf, hmem]
      · simp [hf]
    have hus : (r.orderUpdates.filter p.reports).filter
        (fun u => decide (u.request.clientOrderId = c)) =
          r.orderUpdates.filter fun u => decide (u.request.clientOrderId = c) &&
            decide (u.status = .canceled ∨ u.status = .rejected) := by
      rw [List.filter_filter]
      refine List.filter_congr fun u _ => ?_
      by_cases hu : u.request.clientOrderId = c
      · simp [hu, hmem, reports]
      · simp [hu]
    rw [Option.map_some, Option.map_some, Function.comp_apply, hfs, hus]
    rfl

/-- **One step, written.** The row of an order that has appeared is created and finished, and the
    rows that were there are finished. -/
theorem writeStep_spec (mode : RecordMode)
    (hnd : (r.orders.map fun o => o.request.clientOrderId).Nodup)
    (hfree : ∀ o ∈ r.orders, t.get? o.request.clientOrderId = none)
    (hp : ∀ c, c ∈ p.orders ↔ (t.get? c).isSome) :
    ∃ p' t', writeStep mode r p t = .ok (p', t') ∧
      p'.decisionIds = (p.noteDecision mode r.decision).decisionIds ∧
      (∀ c, c ∈ p'.orders ↔ (t'.get? c).isSome) ∧
      (∀ o ∈ r.orders, t'.get? o.request.clientOrderId =
        ((p.noteDecision mode r.decision).newRow r.fills o).map
          (finish r o.request.clientOrderId)) ∧
      ∀ c, c ∉ r.orders.map (fun o => o.request.clientOrderId) →
        t'.get? c = (t.get? c).map (finish r c) := by
  obtain ⟨t₁, hinsert, hknown, hnew, hkept⟩ :=
    insertNew_spec (p := p.noteDecision mode r.decision) hnd hfree (by simpa using hp)
  obtain ⟨t₂, t₃, hfills, hupdates, hget⟩ := finish_spec (r := r) hknown
  refine ⟨(p.noteDecision mode r.decision).noteOrders r, t₃, ?_, rfl, fun c => ?_,
    fun o ho => ?_, fun c hc => ?_⟩
  · unfold writeStep
    dsimp only
    rw [hinsert]
    show (OrderRepo.applyFills _ t₁ >>= _) = _
    rw [hfills]
    show (updateRows _ _ _ t₂ >>= _) = _
    rw [hupdates]
    rfl
  · rw [hget, Option.isSome_map, hknown]
  · rw [hget, hnew o ho]
  · rw [hget, hkept c hc]

/-! ### What becomes of one row -/

section Finish

variable {c : Uuid} {row : SimOrderRow}

/-- Cancellations at the close of the bar are one cancellation. -/
theorem through_cancel {es : List OrderRecord} (h : ∀ u ∈ es, u.status = .canceled) (t : ℤ) :
    through (applyUpdate t) es row = if es = [] then row else row.cancel (some t) := by
  induction es generalizing row with
  | nil => rfl
  | cons u es ih =>
    have hone : applyUpdate t u row = row.cancel (some t) := by
      unfold applyUpdate
      rw [if_pos (h u List.mem_cons_self)]
    rw [if_neg (List.cons_ne_nil u es)]
    show through (applyUpdate t) es (applyUpdate t u row) = _
    rw [ih fun u' hu' => h u' (List.mem_cons_of_mem _ hu'), hone]
    split
    · rfl
    · rfl

/-- The steps of the loop reject nothing, so that a row is finished by fills and by what cancels
    its order. -/
theorem finish_eq (hrej : ∀ u ∈ r.orderUpdates, u.status ≠ .rejected) (row : SimOrderRow) :
    (¬Cancels r.orderUpdates c → finish r c row =
      through (fun f row => SimOrderRow.applyFill row f) (fillsOf r.fills c) row) ∧
    (Cancels r.orderUpdates c → finish r c row =
      (through (fun f row => SimOrderRow.applyFill row f) (fillsOf r.fills c) row).cancel
        (some r.closeTimeNs)) := by
  -- without rejections the updates of an order are cancellations
  have hall : ∀ u ∈ r.orderUpdates.filter fun u => decide (u.request.clientOrderId = c) &&
      decide (u.status = .canceled ∨ u.status = .rejected), u.status = .canceled := by
    intro u hu
    rw [List.mem_filter, Bool.and_eq_true, decide_eq_true_iff, decide_eq_true_iff] at hu
    exact hu.2.2.resolve_right (hrej u hu.1)
  -- and there is none exactly when the order was not cancelled
  have hnil : (r.orderUpdates.filter fun u => decide (u.request.clientOrderId = c) &&
      decide (u.status = .canceled ∨ u.status = .rejected)) = [] ↔
        ¬Cancels r.orderUpdates c := by
    rw [List.filter_eq_nil_iff]
    constructor
    · rintro h ⟨u, hu, hid, hcancel⟩
      exact h u hu (by simp [hid, hcancel])
    · intro h u hu hin
      rw [Bool.and_eq_true, decide_eq_true_iff, decide_eq_true_iff] at hin
      exact h ⟨u, hu, hin.1, hin.2.resolve_right (hrej u hu)⟩
  unfold finish
  rw [through_cancel hall]
  constructor
  · intro h
    rw [if_pos (hnil.mpr h)]
  · intro h
    rw [if_neg fun heq => hnil.mp heq h]

end Finish

end LivePersister

/-! ### Rows and records -/

/-- The row of an order of which nothing is filled. -/
structure Unexecuted (d : ℤ) (o : OrderRecord) (row : SimOrderRow) : Prop where
  decision : row.decisionNs = d
  coid : row.clientOrderId = o.request.clientOrderId
  side : row.side = o.request.side.toInt
  otype : row.otype = o.request.otype
  qty : row.qty = o.request.qty
  filledQty : row.filledQty = 0
  fee : row.fee = 0
  rejectCode : row.rejectCode = o.rejectCode
  tsCreated : row.tsCreated = nsToDt o.request.tsCreatedNs

/-- **What the row of an order shows** of its record: all of it, but for an order that was
    canceled, whose row has the time of that for the time of a fill. -/
inductive Shows (d : ℤ) (o : OrderRecord) (row : SimOrderRow) : Prop
  | settled (hs : o.status ≠ .canceled) (h : row.withoutVenue = (orderRow o d).withoutVenue)
  | canceled (hs : o.status = .canceled) (t : ℤ) (h : row.tsFilled = some t)

/-- The row of an order mirrors its record, if the decision of the order has been written. -/
inductive Mirrors (known : List ℤ) : Option OrderRecord → Option SimOrderRow → Prop
  | nothing : Mirrors known none none
  | skipped {o : OrderRecord} (h : o.decisionAmong known = none) : Mirrors known (some o) none
  | written {o : OrderRecord} {row : SimOrderRow} {d : ℤ} (h : o.decisionAmong known = some d)
      (hs : Shows d o row) : Mirrors known (some o) (some row)

/-- An order without a record has no row. -/
theorem Mirrors.eq_none {known : List ℤ} {row : Option SimOrderRow}
    (h : Mirrors known none row) : row = none := by
  cases h
  rfl

section Rows

variable {d : ℤ} {o : OrderRecord} {row : SimOrderRow} {f : Fill} {known : List ℤ}

/-- **A fill in full** makes of the row what it makes of the record. -/
theorem Unexecuted.applyFill (h : Unexecuted d o row) (hf : o.FullBy f) :
    (row.applyFill f).withoutVenue = (orderRow (o.addFill f) d).withoutVenue := by
  have hprice : (row.avgFillPrice.getD 0 * row.filledQty + f.price * f.qty) /
      (row.filledQty + f.qty) = f.price := by
    rw [h.filledQty, mul_zero, zero_add, zero_add, mul_div_assoc, div_self hf.pos.ne', mul_one]
  unfold SimOrderRow.withoutVenue SimOrderRow.applyFill orderRow orderValues OrderRecord.addFill
  dsimp only
  rw [hprice, hf.unfilled.price, hf.unfilled.qty, hf.unfilled.fee, h.decision, h.coid, h.side,
    h.otype, h.qty, h.filledQty, h.fee, h.rejectCode, h.tsCreated]
  rfl

/-- The row that shows an order without a fill. -/
theorem Unexecuted.of_settled (h : row.withoutVenue = (orderRow o d).withoutVenue)
    (ho : o.Unfilled) : Unexecuted d o row where
  decision := congrArg SimOrderRow.decisionNs h
  coid := congrArg SimOrderRow.clientOrderId h
  side := congrArg SimOrderRow.side h
  otype := congrArg SimOrderRow.otype h
  qty := congrArg SimOrderRow.qty h
  filledQty := (congrArg SimOrderRow.filledQty h).trans ho.qty
  fee := (congrArg SimOrderRow.fee h).trans ho.fee
  rejectCode := congrArg SimOrderRow.rejectCode h
  tsCreated := congrArg SimOrderRow.tsCreated h

/-- A new decision is none that an older order refers to. -/
theorem OrderRecord.decisionAmong_append {t : ℤ} (ho : ∀ d, o.decisionNs = some d → d < t)
    {new : List ℤ} (hnew : ∀ d ∈ new, d = t) :
    o.decisionAmong (known ++ new) = o.decisionAmong known := by
  unfold decisionAmong
  cases hd : o.decisionNs with
  | none => rfl
  | some d =>
    have hno : d ∉ new := fun hmem => (ho d hd).ne (hnew d hmem)
    simp [Option.filter, hno]

/-- The row of an order that has just been created. -/
theorem LivePersister.newRow_unexecuted {p : LivePersister} {fills : List Fill}
    (h : p.newRow fills (o.addFill f) = some row) :
    ∃ d, o.decisionAmong p.decisionIds = some d ∧ Unexecuted d o row := by
  obtain ⟨d, hd, rfl⟩ := Option.map_eq_some_iff.mp h
  exact ⟨d, hd, ⟨rfl, rfl, rfl, rfl, rfl, rfl, rfl, rfl, rfl⟩⟩

end Rows

/-! ### A step -/

/-- **The table of orders** mirrors the records of the loop. -/
structure Written (l : TradingLoop) (p : LivePersister) (t : OrderTable) : Prop where
  orders : ∀ c, c ∈ p.orders ↔ (t.get? c).isSome
  rows : ∀ c, Mirrors p.decisionIds (l.orders.get? c) (t.get? c)

namespace LivePersister

/-- A decision is noted when it is traced. -/
theorem noteDecision_ids {p : LivePersister} {mode : RecordMode} (d : Option DecisionEntry) :
    (p.noteDecision mode d).decisionIds =
      p.decisionIds ++ (d.toList.filter fun D => D.traced mode).map DecisionEntry.openTimeNs := by
  cases d with
  | none => simp [noteDecision]
  | some D =>
    by_cases hD : D.traced mode = true
    · simp [noteDecision, hD]
    · simp [noteDecision, hD]

end LivePersister

section Step

variable {l l' : TradingLoop} {r : StepResult} {mid : Dict Uuid OrderRecord}
  {made sent : List Uuid} {mode : RecordMode} {p p' : LivePersister} {t : OrderTable} {c : Uuid}

/-- The steps of the loop report no rejections. -/
theorem StepOrders.not_rejected (h : StepOrders l r l' mid made sent) :
    ∀ u ∈ r.orderUpdates, u.status ≠ .rejected := by
  intro u hu hrej
  rcases (h.known _ u (h.reports u hu)).2 with hs | hs | hs
  · rw [hs] at hrej
    cases hrej
  · rw [hs] at hrej
    cases hrej
  · rw [hs] at hrej
    cases hrej

/-- An order that the step reports is its record after the step. -/
theorem StepOrders.mem_orders (h : StepOrders l r l' mid made sent) (hc : c ∈ made ++ sent)
    {o : OrderRecord} (ho : l'.orders.get? c = some o) : o ∈ r.orders := by
  rw [h.orders]
  exact List.mem_filterMap.mpr ⟨c, hc, ho⟩

/-- An order of the decision has no fill on the step, and is not canceled on it. -/
theorem StepOrders.quiet_sent (h : StepOrders l r l' mid made sent) (hc : c ∈ sent) :
    fillsOf r.fills c = [] ∧ ¬Cancels r.orderUpdates c := by
  obtain ⟨-, hold, hmid⟩ := h.of_sent hc
  have ht := h.traded c
  rw [hold, hmid] at ht
  cases ht with
  | same hf hu hn => exact ⟨hf, hu⟩

/-- The row of an order of the decision. -/
theorem Mirrors.of_sent (h : StepOrders l r l' mid made sent) (hc : c ∈ sent) {o : OrderRecord}
    (ho : l'.orders.get? c = some o) :
    Mirrors p.decisionIds (some o)
      ((p.newRow r.fills o).map (LivePersister.finish r c)) := by
  obtain ⟨-, req, role, v, reason, -, hr⟩ := h.sends c hc
  rw [ho] at hr
  obtain rfl := Option.some.inj hr
  obtain ⟨hfills, hcancels⟩ := h.quiet_sent hc
  -- without a decision the order is not written
  cases hd : (OrderRecord.new req (some r.openTimeNs) role .new none v reason).decisionAmong
      p.decisionIds with
  | none =>
    have hnone : p.newRow r.fills
        (.new req (some r.openTimeNs) role .new none v reason) = none := by
      unfold LivePersister.newRow
      rw [hd]
      rfl
    rw [hnone]
    exact .skipped hd
  | some d =>
    unfold LivePersister.newRow
    rw [hd, Option.map_some, Option.map_some,
      (LivePersister.finish_eq h.not_rejected _).1 hcancels, hfills]
    refine .written hd (.settled (fun hs => by cases hs) ?_)
    show SimOrderRow.withoutVenue (orderValues _ d (if _ then _ else _) _ _ _ _ _ _ _ _) = _
    split
    · rfl
    · rfl

/-- The row of an order that the bar has made. -/
theorem Mirrors.of_made (h : StepOrders l r l' mid made sent) (hc : c ∈ made)
    (hno : c ∉ sent) {o : OrderRecord} (ho : l'.orders.get? c = some o) :
    Mirrors p.decisionIds (some o)
      ((p.newRow r.fills o).map (LivePersister.finish r c)) := by
  have ht := h.traded c
  rw [(ht.of_mem_new hc).1, ← h.others c hno, ho] at ht
  cases ht with
  | @made o₀ f hr hfull hfills hcancels hn =>
    cases hrow : p.newRow r.fills (o₀.addFill f) with
    | none =>
      refine .skipped ?_
      exact Option.map_eq_none_iff.mp hrow
    | some row =>
      obtain ⟨d, hd, hun⟩ := LivePersister.newRow_unexecuted hrow
      rw [Option.map_some, (LivePersister.finish_eq h.not_rejected _).1 hcancels, hfills]
      refine .written hd (.settled ?_ (hun.applyFill hfull))
      rw [hfull.status]
      decide

/-- The row of an order that was there before the step. -/
theorem Mirrors.of_old (hm : Mirrors p.decisionIds (l.orders.get? c) (t.get? c))
    (h : StepOrders l r l' mid made sent) (hc : c ∉ made ++ sent)
    (hids : ∀ o, l.orders.get? c = some o →
      o.decisionAmong p'.decisionIds = o.decisionAmong p.decisionIds) :
    Mirrors p'.decisionIds (l'.orders.get? c) ((t.get? c).map (LivePersister.finish r c)) := by
  rw [List.mem_append, not_or] at hc
  have hfinish := LivePersister.finish_eq (c := c) h.not_rejected
  have ht := h.traded c
  rw [← h.others c hc.2] at ht
  revert ht hm hids
  generalize l.orders.get? c = x
  generalize l'.orders.get? c = y
  generalize t.get? c = row
  intro hm hids ht
  cases ht with
  | same hfills hcancels hn =>
    cases hm with
    | nothing => exact .nothing
    | skipped hd => exact .skipped ((hids _ rfl).trans hd)
    | written hd hs =>
      rw [Option.map_some, (hfinish _).1 hcancels, hfills]
      exact .written ((hids _ rfl).trans hd) hs
  | @filled o f hr hfull hfills hcancels hn =>
    cases hm with
    | skipped hd => exact .skipped ((hids _ rfl).trans hd)
    | written hd hs =>
      rw [Option.map_some, (hfinish _).1 hcancels, hfills]
      refine .written ((hids _ rfl).trans hd) (.settled ?_ ?_)
      · rw [hfull.status]
        decide
      · cases hs with
        | settled hs hrow => exact (Unexecuted.of_settled hrow hfull.unfilled).applyFill hfull
        | canceled hs t hrow =>
          rw [hr] at hs
          cases hs
  | canceled code hr hfills hcancels hn =>
    cases hm with
    | skipped hd => exact .skipped ((hids _ rfl).trans hd)
    | written hd hs =>
      rw [Option.map_some, (hfinish _).2 hcancels, hfills]
      exact .written ((hids _ rfl).trans hd) (.canceled rfl (nsToDt r.closeTimeNs) rfl)
  | made hr hfull hfills hcancels hn => exact absurd hn hc.1

/-- **A step of the loop, written**, keeps the table a mirror of the records. -/
theorem Written.writeStep (hw : Written l p t) (mode : RecordMode)
    (h : StepOrders l r l' mid made sent)
    (hdates : ∀ c o d, l.orders.get? c = some o → o.decisionNs = some d → d < r.openTimeNs) :
    ∃ p' t', LivePersister.writeStep mode r p t = .ok (p', t') ∧ Written l' p' t' ∧
      p'.decisionIds = p.decisionIds ++
        (r.decision.toList.filter fun D => D.traced mode).map DecisionEntry.openTimeNs := by
  -- the orders of the step have new identifiers
  have hnd : (r.orders.map fun o => o.request.clientOrderId).Nodup := by
    rw [h.ids]
    exact h.nodup_ids
  have hfree : ∀ o ∈ r.orders, t.get? o.request.clientOrderId = none := by
    intro o ho
    have hmem : o.request.clientOrderId ∈ made ++ sent := by
      rw [← h.ids]
      exact List.mem_map_of_mem ho
    have hm := hw.rows o.request.clientOrderId
    rw [h.fresh hmem] at hm
    exact hm.eq_none
  obtain ⟨p', t', hwrite, hids, hknown, hnew, hkept⟩ :=
    LivePersister.writeStep_spec mode hnd hfree hw.orders
  rw [LivePersister.noteDecision_ids] at hids
  refine ⟨p', t', hwrite, ⟨hknown, fun c => ?_⟩, hids⟩
  -- an order of this step, sent or made by a protection, or an older one
  by_cases hc : c ∈ made ++ sent
  · obtain ⟨o, ho, hid⟩ := h.present hc
    have hrow := hnew o (h.mem_orders hc ho)
    rw [hid] at hrow
    rw [hrow, ho, hids, ← LivePersister.noteDecision_ids]
    by_cases hsent : c ∈ sent
    · exact .of_sent h hsent ho
    · exact .of_made h ((List.mem_append.mp hc).resolve_right hsent) hsent ho
  · rw [hkept c (by rwa [h.ids])]
    refine (hw.rows c).of_old h hc fun o ho => ?_
    rw [hids]
    refine OrderRecord.decisionAmong_append (hdates c o · ho) fun d hd => ?_
    obtain ⟨D, hD, rfl⟩ := List.mem_map.mp hd
    exact (h.decision D (Option.mem_toList.mp (List.mem_of_mem_filter hD))).1

end Step

end FuzzHelm
