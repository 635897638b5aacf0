import FuzzHelm.Workers.PersistStep

namespace FuzzHelm

open Lib

/-!
# The orders of a run, written in two ways

A run that is written step by step and one that is written when it is over leave the same rows,
but for the orders that were canceled.

* `OrderHistory` — what a run keeps of its orders, and of the table that its steps write;
* `persistBacktest_spec` — the table that the batch writes;
* `live_equals_batch` — the tables are the same exactly when no order of a written decision has
  been reported as canceled.
-/

/-- The decisions of a run that are written, by the opens of their bars. -/
def LoopLog.known (mode : RecordMode) (log : LoopLog) : List ℤ :=
  (log.decisions.filter fun D => D.traced mode).map DecisionEntry.openTimeNs

/-- **What a run keeps of its orders**: the steps can be written and mirror the records; every
    order has appeared on one step; canceled are those that a step has reported so. -/
structure OrderHistory (mode : RecordMode) (l : TradingLoop) (log : LoopLog) : Prop where
  written : ∃ p t, LivePersister.writeSteps mode log.steps .new ∅ = .ok (p, t) ∧
    Written l p t ∧ p.decisionIds = log.known mode
  kept : Kept l
  nodup : log.orderIds.Nodup
  ids : ∀ c, c ∈ log.orderIds ↔ (l.orders.get? c).isSome
  canceled : ∀ c o, l.orders.get? c = some o → o.status = .canceled →
    ∃ r ∈ log.steps, Cancels r.orderUpdates c
  reported : ∀ r ∈ log.steps, ∀ u ∈ r.orderUpdates, u.status = .canceled →
    ∃ o, l.orders.get? u.request.clientOrderId = some o ∧ o.status = .canceled ∧
      o.decisionNs = u.decisionNs

section History

variable {l l' : TradingLoop} {log : LoopLog} {c : LoopCall} {a : LoopAnswer} {r : StepResult}
  {mode : RecordMode} {mid : Dict Uuid OrderRecord} {made sent : List Uuid} {x : Uuid}
  {o : OrderRecord}

/-- One step more makes its orders known. -/
theorem LoopLog.orderIds_snoc : LoopLog.orderIds (log ++ [⟨l, c, .stepped r, l'⟩]) =
    log.orderIds ++ r.orders.map fun o => o.request.clientOrderId := by
  rw [LoopLog.orderIds, LoopLog.steps_snoc_stepped, List.flatMap_append]
  simp [LoopLog.orderIds]

/-- One step more makes its decision known, when it is traced. -/
theorem LoopLog.known_snoc : LoopLog.known mode (log ++ [⟨l, c, .stepped r, l'⟩]) =
    log.known mode ++
      (r.decision.toList.filter fun D => D.traced mode).map DecisionEntry.openTimeNs := by
  rw [LoopLog.known, LoopLog.decisions_snoc, List.filter_append, List.map_append]
  rfl

/-- A record that was canceled before a step stays as it is. -/
theorem StepOrders.stays (h : StepOrders l r l' mid made sent) (ho : l.orders.get? x = some o)
    (hs : o.status = .canceled) : l'.orders.get? x = some o := by
  have hno : x ∉ sent := by
    intro hmem
    rw [(h.of_sent hmem).2.1] at ho
    cases ho
  have ht := h.traded x
  rw [ho] at ht
  rw [h.others x hno]
  exact ht.stays hs

/-- A record that is canceled after a step was so before, or is reported by the step. -/
theorem StepOrders.cancels (h : StepOrders l r l' mid made sent) (ho : l'.orders.get? x = some o)
    (hs : o.status = .canceled) : l.orders.get? x = some o ∨ Cancels r.orderUpdates x := by
  have hno : x ∉ sent := by
    intro hmem
    obtain ⟨-, req, role, v, reason, -, hr⟩ := h.sends x hmem
    rw [ho] at hr
    rw [Option.some.inj hr] at hs
    cases hs
  have ht := h.traded x
  rw [← h.others x hno, ho] at ht
  exact ht.cancels hs

/-- What a step reports is a record after the step. -/
theorem StepOrders.report (h : StepOrders l r l' mid made sent) {u : OrderRecord}
    (hu : u ∈ r.orderUpdates) : l'.orders.get? u.request.clientOrderId = some u := by
  have hr := h.reports u hu
  rw [h.others _ fun hmem => ?_, hr]
  rw [(h.of_sent hmem).2.2] at hr
  cases hr

/-- A step keeps the history of the orders. -/
theorem OrderHistory.step {inp : StepInput} (h : OrderHistory mode l log)
    (hist : LoopHistory l log) (hl : l.step inp = .ok (r, l')) :
    OrderHistory mode l' (log ++ [⟨l, .step inp, .stepped r, l'⟩]) := by
  obtain ⟨p, hfollows, -⟩ := hist.plan
  obtain ⟨p', hlaw⟩ := hfollows.step hl
  obtain ⟨⟨mid, made, sent, horders⟩, hkept, -⟩ := hfollows.stepOrders h.kept hl
  obtain ⟨per, t, hsteps, hw, hids⟩ := h.written
  -- the decisions that the records refer to are older than this bar
  have hdates : ∀ c o d, l.orders.get? c = some o → o.decisionNs = some d →
      d < r.openTimeNs := by
    intro c o d ho hd
    have hpast := h.kept.refers (r.openTimeNs - 1) fun last hlast => by
      have := hlaw.later last hlast
      omega
    have := hpast.orders c o d ho hd
    omega
  obtain ⟨per', t', hwrite, hw', hids'⟩ := hw.writeStep mode horders hdates
  refine ⟨⟨per', t', ?_, hw', ?_⟩, hkept, ?_, fun x => ?_, fun x o ho hs => ?_, ?_⟩
  · rw [LoopLog.steps_snoc_stepped, LivePersister.writeSteps_snoc hsteps]
    exact hwrite
  · rw [LoopLog.known_snoc, hids', hids]
  · rw [LoopLog.orderIds_snoc, horders.ids]
    refine List.nodup_append.mpr ⟨h.nodup, horders.nodup_ids, fun x hx y hy heq => ?_⟩
    have hsome := (h.ids x).mp hx
    rw [heq, horders.fresh hy] at hsome
    cases hsome
  · rw [LoopLog.orderIds_snoc, horders.ids, List.mem_append, h.ids, horders.isSome_iff]
  · rw [LoopLog.steps_snoc_stepped]
    rcases horders.cancels ho hs with hold | hnew
    · obtain ⟨r', hr', hc⟩ := h.canceled x o hold hs
      exact ⟨r', List.mem_append_left _ hr', hc⟩
    · exact ⟨r, List.mem_append_right _ (List.mem_singleton_self r), hnew⟩
  · rw [LoopLog.steps_snoc_stepped]
    intro r' hr' u hu hs
    rcases List.mem_append.mp hr' with hr' | hr'
    · obtain ⟨o, ho, hcancel, hd⟩ := h.reported r' hr' u hu hs
      exact ⟨o, horders.stays ho hcancel, hcancel, hd⟩
    · rw [List.mem_singleton] at hr'
      subst hr'
      exact ⟨u, horders.report hu, hs, rfl⟩

/-- **One call keeps the history of the orders.** -/
theorem OrderHistory.snoc (h : OrderHistory mode l log) (hist : LoopHistory l log)
    (hc : l.call c = .ok (a, l')) : OrderHistory mode l' (log ++ [⟨l, c, a, l'⟩]) := by
  -- a step writes its rows; the other calls leave orders and rows alone
  rcases h.kept.call hc with ⟨inp, r, rfl, rfl, hstep⟩ | ⟨rfl, hkept, horders, -⟩
  · exact h.step hist hstep
  · have hsteps : LoopLog.steps (log ++ [⟨l, c, .done, l'⟩]) = log.steps :=
      LoopLog.steps_snoc_done
    obtain ⟨p, t, hwrite, hw, hids⟩ := h.written
    refine ⟨⟨p, t, ?_, ⟨hw.orders, ?_⟩, ?_⟩, hkept, ?_, ?_, ?_, ?_⟩
    · rw [hsteps]
      exact hwrite
    · rw [horders]
      exact hw.rows
    · rw [LoopLog.known, LoopLog.decisions, hsteps]
      exact hids
    · rw [LoopLog.orderIds, hsteps]
      exact h.nodup
    · rw [LoopLog.orderIds, hsteps, horders]
      exact h.ids
    · rw [hsteps, horders]
      exact h.canceled
    · rw [hsteps, horders]
      exact h.reported

end History

/-! ### The batch -/

namespace TradingLoop

variable {l : TradingLoop}

/-- Records that are up to date are not refreshed. -/
theorem refreshOrderStatuses_of_watches (h : l.Watches true) : l.refreshOrderStatuses = l := by
  have hsame : l.orders.mapValues l.refreshed = l.orders := by
    refine Dict.mapValues_eq_self fun c record hr => ?_
    obtain ⟨o, ho, -, hagree⟩ := h.order c record hr
    have hagree := hagree.resolve_right fun hno => by cases hno.1
    unfold refreshed PaperBroker.orderAck
    rw [ho]
    dsimp only [Option.map_some]
    split
    · rfl
    · rename_i hne
      rw [hagree.1, hagree.2 hne]
  unfold refreshOrderStatuses
  rw [hsame]

end TradingLoop

section Batch

variable {l : TradingLoop} {log : LoopLog} {mode : RecordMode}

/-- The plan knows the decisions that are written. -/
theorem planBacktest_keys (orders : List OrderRecord) :
    (planBacktest mode (log.keptDecisions mode) orders).decisionKeys = log.known mode := by
  show ((log.keptDecisions mode).filter _).map _ = _
  rw [LoopLog.keptDecisions, List.filter_filter, LoopLog.known]
  refine congrArg _ (List.filter_congr fun D _ => ?_)
  cases hD : D.traced mode with
  | false => rfl
  | true => rw [DecisionEntry.kept_of_traced hD]; rfl

/-- **The batch** writes the final record of every order whose decision is written. -/
theorem persistBacktest_spec (h : OrderHistory mode l log) :
    ∃ t, persistBacktest mode log l = .ok t ∧ ∀ c, t.get? c =
      (l.orders.get? c).bind fun o => (o.decisionAmong (log.known mode)).map (orderRow o) := by
  have hpresent : ∀ c ∈ log.orderIds, ∃ record, l.orders.get? c = some record ∧
      record.request.clientOrderId = c := by
    intro c hc
    obtain ⟨record, hr⟩ := Option.isSome_iff_exists.mp ((h.ids c).mp hc)
    obtain ⟨o, -, hof, -⟩ := h.kept.watches.order c record hr
    exact ⟨record, hr, hof.coid⟩
  have hcoids : (log.keptOrders l).map (fun o => o.request.clientOrderId) = log.orderIds :=
    StepOrders.filterMap_ids hpresent
  have hnd : ((log.keptOrders l).map fun o => o.request.clientOrderId).Nodup := by
    rw [hcoids]
    exact h.nodup
  have hcoid : ∀ (o : OrderRecord) (row : SimOrderRow),
      (o.decisionAmong (log.known mode)).map (orderRow o) = some row →
        row.clientOrderId = o.request.clientOrderId := by
    intro o row hrow
    obtain ⟨d, -, rfl⟩ := Option.map_eq_some_iff.mp hrow
    rfl
  obtain ⟨t, hinsert, hin, hout⟩ := insertRows_filterMap (t := ∅) hcoid hnd fun _ _ => rfl
  refine ⟨t, ?_, fun c => ?_⟩
  · rw [persistBacktest, TradingLoop.refreshOrderStatuses_of_watches h.kept.watches, writePlan,
      OrderRepo.insertMany_eq, ← hinsert]
    refine congrArg (fun rows => insertRows SimOrderRow.clientOrderId rows ∅) ?_
    show List.map _ (List.filterMap _ _) = _
    rw [List.map_filterMap]
    refine congrArg (fun g => List.filterMap g (log.keptOrders l)) (funext fun o => ?_)
    rw [Option.map_map, ← planBacktest_keys (log.keptOrders l)]
    rfl
  · cases ho : l.orders.get? c with
    | some o =>
      have hc : c ∈ log.orderIds := (h.ids c).mpr (by rw [ho]; rfl)
      have hmem : o ∈ log.keptOrders l := List.mem_filterMap.mpr ⟨c, hc, ho⟩
      obtain ⟨record, hr, hid⟩ := hpresent c hc
      rw [ho] at hr
      obtain rfl := Option.some.inj hr
      rw [← hid]
      exact hin o hmem
    | none =>
      rw [hout, Option.bind_none]
      · rfl
      · -- an order without a record is not among the rows
        intro hmem
        obtain ⟨row, hrow, rfl⟩ := List.mem_map.mp hmem
        obtain ⟨o, hmem, hrow⟩ := List.mem_filterMap.mp hrow
        rw [hcoid o row hrow] at ho
        have hc : o.request.clientOrderId ∈ log.orderIds := by
          rw [← hcoids]
          exact List.mem_map_of_mem hmem
        have hsome := (h.ids _).mp hc
        rw [ho] at hsome
        cases hsome

end Batch

/-! ### Both ways -/

section Agreement

variable {instrument : Instrument} {cfg : LoopCfg} {riskCfg : RiskConfig} {clock : ManualClock}
  {ids : IdGenerator} {cost : CostModel} {equity : NonNegDec} {l₀ l : TradingLoop}
  {log : LoopLog} {mode : RecordMode}

/-- **The history of the orders of every run.** -/
theorem orderHistory (h₀ : TradingLoop.new instrument cfg riskCfg clock ids cost equity = .ok l₀)
    (h : Run LoopStep l₀ l log) : OrderHistory mode l log := by
  have horders : l₀.orders = ∅ := by
    obtain ⟨broker, -, h₀⟩ := bind_eq_ok.mp h₀
    cases h₀
    rfl
  induction h with
  | nil =>
    refine ⟨⟨.new, ∅, rfl, ⟨fun c => by simp [LivePersister.new], fun c => ?_⟩, rfl⟩, .new h₀,
      .nil, fun c => ?_, fun c o ho => ?_, fun r hr => by cases hr⟩
    · rw [horders]
      exact .nothing
    · rw [horders]
      simp [LoopLog.orderIds, LoopLog.steps]
    · rw [horders] at ho
      cases ho
  | snoc hrun hcall ih => exact ih.snoc (loopHistory h₀ hrun) hcall

/-- The row of a live table and that of the batch agree unless the order was canceled. -/
theorem Mirrors.agrees_iff {known : List ℤ} {o : OrderRecord} {row : Option SimOrderRow}
    (h : Mirrors known (some o) row) (hun : o.status = .canceled → o.tsFilledNs = none) :
    row.map SimOrderRow.withoutVenue =
        ((o.decisionAmong known).map (orderRow o)).map SimOrderRow.withoutVenue ↔
      (o.status = .canceled → o.decisionAmong known = none) := by
  cases h with
  | skipped hd => simp [hd]
  | @written _ row d hd hs =>
    rw [hd, Option.map_some, Option.map_some, Option.map_some, Option.some_inj]
    cases hs with
    | settled hne hrow => simp [hrow, hne]
    | canceled hs t ht =>
      refine ⟨fun heq => ?_, fun hno => by cases hno hs⟩
      -- one row has the time of the cancellation, the other has none
      have htime : row.tsFilled = o.tsFilledNs.map nsToDt := congrArg SimOrderRow.tsFilled heq
      rw [ht, hun hs] at htime
      cases htime

/-- **Step by step as in one batch.** A run can be written both ways, and the rows are the same
    exactly when no order of a decision that is written has been reported as canceled. -/
theorem live_equals_batch (mode : RecordMode)
    (h₀ : TradingLoop.new instrument cfg riskCfg clock ids cost equity = .ok l₀)
    (h : Run LoopStep l₀ l log) :
    ∃ p live batch, LivePersister.writeSteps mode log.steps .new ∅ = .ok (p, live) ∧
      persistBacktest mode log l = .ok batch ∧
      ((∀ c, (live.get? c).map SimOrderRow.withoutVenue =
          (batch.get? c).map SimOrderRow.withoutVenue) ↔
        ∀ r ∈ log.steps, ∀ u ∈ r.orderUpdates, u.status = .canceled →
          ∀ D ∈ log.decisions, D.traced mode = true → u.decisionNs ≠ some D.openTimeNs) := by
  have hist : OrderHistory mode l log := orderHistory h₀ h
  obtain ⟨p, live, hlive, hw, hids⟩ := hist.written
  obtain ⟨batch, hbatch, hget⟩ := persistBacktest_spec hist
  refine ⟨p, live, batch, hlive, hbatch, ?_⟩
  -- order by order
  have hone : ∀ c o, l.orders.get? c = some o →
      ((live.get? c).map SimOrderRow.withoutVenue = (batch.get? c).map SimOrderRow.withoutVenue ↔
        (o.status = .canceled → o.decisionAmong (log.known mode) = none)) := by
    intro c o ho
    have hm := hw.rows c
    rw [ho, hids] at hm
    rw [hget, ho]
    refine hm.agrees_iff fun hs => ?_
    obtain ⟨b, -, hof, -⟩ := hist.kept.watches.order c o ho
    exact (hof.unfilled (by rw [hs]; decide)).time
  constructor
  · intro hall r hr u hu hs D hD htraced hd
    obtain ⟨o, ho, hcancel, hsame⟩ := hist.reported r hr u hu hs
    have hnone := (hone _ o ho).mp (hall _) hcancel
    have hmem : D.openTimeNs ∈ log.known mode :=
      List.mem_map_of_mem (List.mem_filter.mpr ⟨hD, htraced⟩)
    rw [OrderRecord.decisionAmong, hsame, hd] at hnone
    simp [Option.filter, hmem] at hnone
  · intro hall c
    cases ho : l.orders.get? c with
    | none =>
      have hm := hw.rows c
      rw [ho] at hm
      rw [hget, ho, hm.eq_none]
      rfl
    | some o =>
      refine (hone c o ho).mpr fun hs => ?_
      obtain ⟨r, hr, u, hu, hid, hcancel⟩ := hist.canceled c o ho hs
      obtain ⟨o', ho', -, hsame⟩ := hist.reported r hr u hu hcancel
      rw [hid, ho] at ho'
      obtain rfl := Option.some.inj ho'
      refine Option.filter_eq_none_iff.mpr fun d hd hmem => ?_
      obtain ⟨D, hD, rfl⟩ := List.mem_map.mp (of_decide_eq_true hmem)
      rw [List.mem_filter] at hD
      exact hall r hr u hu hcancel D hD.1 hD.2 (hsame.symm.trans hd)

end Agreement

/-- The first two bars of the sample run: an entry and its stop are sent, and the entry is
    filled. -/
theorem live_equals_batch_sample : ∃ (l₀ l : TradingLoop) (log : LoopLog),
    sampleLoop = .ok l₀ ∧ Run LoopStep l₀ l log ∧ log.orderIds = [0, 2] ∧
    ∃ p live batch, LivePersister.writeSteps .trades log.steps .new ∅ = .ok (p, live) ∧
      persistBacktest .trades log l = .ok batch ∧
      ∀ c, (live.get? c).map SimOrderRow.withoutVenue =
        (batch.get? c).map SimOrderRow.withoutVenue := by
  obtain ⟨l₀, l, log, hnew, hrun, hp⟩ := sampleRun_any 2
    (fun run => decide (run.2.orderIds = [0, 2]) &&
      run.2.steps.all fun r => r.orderUpdates.all fun u => decide (u.status ≠ .canceled))
    (by decide +kernel)
  obtain ⟨hids, hp⟩ := Bool.and_eq_true_iff.mp hp
  obtain ⟨p, live, batch, hlive, hbatch, hiff⟩ := live_equals_batch .trades hnew hrun
  refine ⟨l₀, l, log, hnew, hrun, of_decide_eq_true hids, p, live, batch, hlive, hbatch,
    hiff.mpr fun r hr u hu hs => ?_⟩
  have hno := List.all_eq_true.mp (List.all_eq_true.mp hp r hr) u hu
  exact absurd hs (of_decide_eq_true hno)

/-- The sixth call closes the position and with it cancels its stop, the order 2.  The live row
    says when; the batch has nothing to say. -/
theorem canceled_stop_differs : ∃ (l₀ l : TradingLoop) (log : LoopLog),
    sampleLoop = .ok l₀ ∧ Run LoopStep l₀ l log ∧
    ∃ p live batch, LivePersister.writeSteps .trades log.steps .new ∅ = .ok (p, live) ∧
      persistBacktest .trades log l = .ok batch ∧
      (live.get? 2).map (fun row => (row.status, row.tsFilled)) = some (.canceled, some 0) ∧
      (batch.get? 2).map (fun row => (row.status, row.tsFilled)) = some (.canceled, none) := by
  obtain ⟨l₀, l, log, hnew, hrun, hp⟩ := sampleRun_any 6
    (fun run => match LivePersister.writeSteps .trades run.2.steps .new ∅,
        persistBacktest .trades run.2 run.1 with
      | .ok (_, live), .ok batch =>
        decide ((live.get? 2).map (fun row => (row.status, row.tsFilled)) =
          some (OrderStatus.canceled, some 0)) &&
        decide ((batch.get? 2).map (fun row => (row.status, row.tsFilled)) =
          some (OrderStatus.canceled, none))
      | _, _ => false)
    (by decide +kernel)
  dsimp only at hp
  split at hp
  · rename_i p live batch hlive hbatch
    obtain ⟨hlate, hnever⟩ := Bool.and_eq_true_iff.mp hp
    exact ⟨l₀, l, log, hnew, hrun, p, live, batch, hlive, hbatch, of_decide_eq_true hlate,
      of_decide_eq_true hnever⟩
  · cases hp

end FuzzHelm
