import FuzzHelm.Execution.Walk

namespace FuzzHelm

open Lib

/-!
# The stop comes before the take-profit

A position that opens the bar between its stop and its take-profit leaves the market against
itself: the walk goes to the adverse extreme first.

* `Book.Protected` — a position behind a stop and a take-profit, which firings keep until the
  position is closed (`Protected.fire`);
* `Book.ExitsBy` — the firing that closes it, with the reason that its order carries;
* `stop_before_take` — every walk over the stop has such a firing, by a stop or by the
  liquidation.
-/

/-- The end of the bar's range in a direction. -/
def DecBar.extreme (bar : DecBar) (up : Bool) : Decimal := if up then bar.h else bar.l

namespace Book

variable {b b' : Book} {bar : DecBar} {t : ℤ} {c : Uuid} {o : Order} {s p q : Decimal}
  {tr : Trigger}

/-! ### A protected position -/

/-- The direction of the price that hurts the position. -/
def adverse (b : Book) : Bool := decide (b.st.position < 0)

/-- **A position protected on the bar**: a reduce-only stop `c` for its whole size at `s` and a
    take-profit at `p`, with the open between them and `s` inside the range.  Other stops may
    wait as well, but none that has joined the position at the open, and no second one at `s`
    when that is the extreme itself. -/
structure Protected (b : Book) (bar : DecBar) (c : Uuid) (o : Order) (s p : Decimal) : Prop where
  nonzero : b.st.position ≠ 0
  stop : LiveStop b bar.openTimeNs c o s
  reduceOnly : o.req.reduceOnly = true
  side : o.req.side = Side.ofInt (-sign b.st.position)
  full : |b.st.position| ≤ o.req.qty
  take : b.st.tpPrice = some p
  stop_beyond : Beyond b.adverse bar.o s
  take_beyond : Beyond (!b.adverse) bar.o p
  inRange : Ahead b.adverse s (bar.extreme b.adverse)
  stopMarket : ∀ c' ∈ b.st.stopOrders, ∀ o', b.orders.get? c' = some o' →
    o'.req.otype = .stopMarket
  unjoined : ∀ c' o' level, LiveStop b bar.openTimeNs c' o' level → o'.req.reduceOnly = false →
    o'.req.side = Side.ofInt (sign b.st.position) → Beyond (!b.adverse) bar.o level
  untied : ∀ c' o', LiveStop b bar.openTimeNs c' o' s →
    decide (o'.req.side = .long) = decide (o.req.side = .long) →
    c' = c ∨ Beyond b.adverse s (bar.extreme b.adverse)

/-- The stops of a direction that is adverse are those that trade against the position. -/
theorem opposite_of_adverse {side : Side} (hpos : b.st.position ≠ 0) (hside : side ≠ .flat)
    (hdir : decide (side = .long) = b.adverse) : side.toInt = -sign b.st.position := by
  unfold adverse at hdir
  rcases sign_cases b.st.position with ⟨hneg, hs⟩ | ⟨hzero, -⟩ | ⟨hlong, hs⟩
  · cases side <;> simp_all
  · exact absurd hzero hpos
  · rw [decide_eq_false (not_lt.mpr hlong.le)] at hdir
    cases side <;> simp_all

/-- A side against the position is adverse. -/
theorem adverse_of_opposite {side : Side} (hpos : b.st.position ≠ 0)
    (hside : side.toInt = -sign b.st.position) : decide (side = .long) = b.adverse := by
  unfold adverse
  rcases sign_cases b.st.position with ⟨hneg, hs⟩ | ⟨hzero, -⟩ | ⟨hlong, hs⟩
  · cases side <;> simp_all
  · exact absurd hzero hpos
  · rw [decide_eq_false (not_lt.mpr hlong.le)]
    cases side <;> simp_all

/-- The other stops trade on the position's own side. -/
theorem own_of_not_adverse {side : Side} (hpos : b.st.position ≠ 0) (hside : side ≠ .flat)
    (hdir : decide (side = .long) ≠ b.adverse) : side = Side.ofInt (sign b.st.position) := by
  unfold adverse at hdir
  rcases sign_cases b.st.position with ⟨hneg, hs⟩ | ⟨hzero, -⟩ | ⟨hlong, hs⟩
  · rw [hs]
    cases side <;> simp_all [Side.ofInt]
  · exact absurd hzero hpos
  · rw [decide_eq_false (not_lt.mpr hlong.le)] at hdir
    rw [hs]
    cases side <;> simp_all [Side.ofInt]

/-- Only an order against the position executes as reduce-only. -/
theorem opposite_of_reduceOnly {req : OrderRequest} (hred : req.reduceOnly = true)
    (hpos : 0 < b.executableQty req) (hside : req.side ≠ .flat) :
    req.side.toInt = -sign b.st.position := by
  unfold executableQty at hpos
  simp only [hred, Bool.not_true, Bool.false_eq_true, if_false] at hpos
  split at hpos
  · exact absurd hpos (lt_irrefl 0)
  · rename_i hopp
    rw [not_or] at hopp
    rcases sign_cases b.st.position with ⟨-, hs⟩ | ⟨hzero, -⟩ | ⟨-, hs⟩
    · cases hc : req.side <;> simp_all
    · exact absurd hzero hopp.1
    · cases hc : req.side <;> simp_all

/-- A trade against the position that does not close it leaves less of it. -/
theorem shrinks_of_not_closes {pos qty : Decimal} {side : ℤ} (hpos : pos ≠ 0) (hqty : 0 < qty)
    (hside : side = -sign pos) (hcl : closes pos (pos + side * qty) = false) :
    sign (pos + side * qty) = sign pos ∧ |pos + side * qty| ≤ |pos| := by
  -- not closed means the same side as before
  have hkeep : sign (pos + side * qty) = sign pos := by
    by_contra hne
    simp [closes, hpos, hne] at hcl
  refine ⟨hkeep, ?_⟩
  -- a short is reduced by buying, a long by selling
  rcases sign_cases pos with ⟨hneg, hs⟩ | ⟨hzero, -⟩ | ⟨hlong, hs⟩
  · rw [hs] at hside hkeep
    have hside' : (side : Decimal) = 1 := by rw [hside]; norm_num
    rw [hside', one_mul] at hkeep ⊢
    rcases sign_cases (pos + qty) with ⟨hneg', -⟩ | ⟨-, hs'⟩ | ⟨-, hs'⟩
    · rw [abs_of_neg hneg', abs_of_neg hneg]
      linarith
    · rw [hs'] at hkeep
      cases hkeep
    · rw [hs'] at hkeep
      cases hkeep
  · exact absurd hzero hpos
  · rw [hs] at hside hkeep
    have hside' : (side : Decimal) = -1 := by rw [hside]; norm_num
    rw [hside', neg_one_mul] at hkeep ⊢
    rcases sign_cases (pos + -qty) with ⟨-, hs'⟩ | ⟨-, hs'⟩ | ⟨hlong', -⟩
    · rw [hs'] at hkeep
      cases hkeep
    · rw [hs'] at hkeep
      cases hkeep
    · rw [abs_of_pos hlong', abs_of_pos hlong]
      linarith

/-- A trade against the position for its whole size closes it. -/
theorem add_opposite_full {pos : Decimal} {side : ℤ} (hside : side = -sign pos) :
    pos + side * |pos| = 0 := by
  rcases sign_cases pos with ⟨hneg, hs⟩ | ⟨hzero, -⟩ | ⟨hlong, hs⟩
  · rw [hside, hs, abs_of_neg hneg]
    push_cast
    ring
  · simp [hzero]
  · rw [hside, hs, abs_of_pos hlong]
    push_cast
    ring

/-! ### One execution, and the order that it leaves -/

/-- A sweep does not touch an order that is no longer new. -/
theorem sweep_final {drop : Order → Bool} {cancel : Order → Order} {cs keep : List Uuid}
    {orders orders' : Dict Uuid Order} (h : sweep drop cancel cs orders = .ok (keep, orders'))
    (ho : orders.get? c = some o) (hfinal : o.status ≠ .new) : orders'.get? c = some o := by
  induction cs generalizing orders keep with
  | nil =>
    cases h
    exact ho
  | cons x cs ih =>
    rw [sweep, bind_eq_ok] at h
    obtain ⟨ox, hox, h⟩ := h
    split at h
    · exact ih h ho
    · rename_i hnew
      -- an order that is final is not the one that is swept
      have hne : x ≠ c := by
        rintro rfl
        rw [orderOf_eq_ok, ho] at hox
        cases hox
        exact hnew hfinal
      split at h
      · exact ih h (by rw [Dict.get?_insert_of_ne _ _ hne]; exact ho)
      · rw [bind_eq_ok] at h
        obtain ⟨⟨keep', orders''⟩, hrest, h⟩ := h
        cases h
        exact ih hrest ho

/-- An execution that fills: its fill, its order and, unless the position closes, the rest. -/
structure Fills (b : Book) (coid : Uuid) (o : Order) (reason : Option ExitReason) (b' : Book) :
    Prop where
  qty : 0 < b.executableQty o.req
  side : o.req.side ≠ .flat
  position : b'.st.position = b.st.position + o.req.side.toInt * b.executableQty o.req
  booked : ∃ f ord, b'.fills = b.fills ++ [f] ∧ b'.orders.get? coid = some ord ∧
    ord.status = .filled ∧ f.clientOrderId = ord.req.clientOrderId ∧
    ord.exitReason = b.executionReason o.req reason ∧ ord.req = o.req
  kept : closes b.st.position b'.st.position = false →
    (∀ x, x ≠ coid → b'.orders.get? x = b.orders.get? x) ∧
      b'.st = { b.st with position := b'.st.position }

/-- **An execution, inverted**: nothing can be filled, or one fill reduces what it is against. -/
theorem execute_fills {coid : Uuid} {reason : Option ExitReason}
    (h : b.execute coid o q t reason = .ok b') :
    (b.executableQty o.req ≤ 0 ∧ (∀ x, x ≠ coid → b'.orders.get? x = b.orders.get? x) ∧
      (∃ ord, b'.orders.get? coid = some ord ∧ ord.req = o.req) ∧ b'.st = b.st) ∨
    Fills b coid o reason b' := by
  rcases execute_eq_ok h with ⟨hq, rfl⟩ | ⟨hq, hside, f, cost, hcoid, -, hfside, hqty, -, h⟩
  · exact .inl ⟨hq, fun x hx => Dict.get?_insert_of_ne _ _ hx.symm,
      ⟨_, Dict.get?_insert_self .., rfl⟩, rfl⟩
  · right
    -- the fill moves the position by its signed quantity
    have hdq : f.dq = o.req.side.toInt * b.executableQty o.req := by
      rw [Fill.dq, hfside, hqty]
    -- where it closes the position, the sweep leaves the order itself alone
    split at h
    · rename_i hcl
      obtain ⟨hfills, hpos, -⟩ := onPositionClosed_keeps h
      obtain ⟨keep, orders, hs, rfl⟩ := onPositionClosed_eq_ok h
      refine ⟨hq, hside, by rw [← hdq]; exact hpos, ⟨f, _, hfills, sweep_final hs
        (Dict.get?_insert_self ..) (by simp), rfl, hcoid, rfl, rfl⟩, fun hnot => ?_⟩
      have hnot' : closes b.st.position (b.st.position + f.dq) = false := hnot
      rw [hcl] at hnot'
      cases hnot'
    · rw [h]
      exact ⟨hq, hside, by rw [← hdq]; rfl, ⟨f, _, rfl, Dict.get?_insert_self .., rfl, hcoid,
        rfl, rfl⟩, fun _ => ⟨fun x hx => Dict.get?_insert_of_ne _ _ hx.symm, rfl⟩⟩

/-! ### Firings of a protected position -/

/-- A firing of a stop that leaves the position on its side. -/
inductive Holds (bar : DecBar) (b b' : Book) : Prop
  | intro (tr : Trigger) (q : Decimal) (trigger : IsTrigger b bar.openTimeNs tr)
      (kind : tr.kind = .stop) (fires : b.fire tr q bar.openTimeNs = .ok b')
      (side : sign b'.st.position = sign b.st.position)

/-- **The exit.**  The firing of `tr` closes the position or turns it over, with a fill whose
    order carries the reason. -/
structure ExitsBy (bar : DecBar) (b : Book) (tr : Trigger) (reason : ExitReason) (b' : Book) :
    Prop where
  trigger : IsTrigger b bar.openTimeNs tr
  fires : ∃ q, b.fire tr q bar.openTimeNs = .ok b'
  closes : closes b.st.position b'.st.position = true
  booked : ∃ f coid ord, b'.fills = b.fills ++ [f] ∧ b'.orders.get? coid = some ord ∧
    ord.status = .filled ∧ f.clientOrderId = ord.req.clientOrderId ∧ ord.exitReason = some reason

/-- What a firing that does not close the position leaves as it was. -/
structure Untouched (c : Uuid) (b b' : Book) : Prop where
  side : sign b'.st.position = sign b.st.position
  size : |b'.st.position| ≤ |b.st.position|
  levels : b'.st.tpPrice = b.st.tpPrice ∧ b'.st.liqPrice = b.st.liqPrice
  queued : c ∈ b'.st.stopOrders
  queue : b'.st.stopOrders ⊆ b.st.stopOrders
  orders : ∀ x ∈ b'.st.stopOrders, ∀ o', b'.orders.get? x = some o' →
    ∃ o, b.orders.get? x = some o ∧ o'.req = o.req
  order : b'.orders.get? c = b.orders.get? c

/-- Positions of the same sign have the same adverse side. -/
theorem adverse_congr (h : sign b'.st.position = sign b.st.position) : b'.adverse = b.adverse := by
  have hiff : ∀ x : Decimal, x < 0 ↔ sign x = -1 := by
    intro x
    rcases sign_cases x with ⟨hx, hs⟩ | ⟨hx, hs⟩ | ⟨hx, hs⟩
    · simp [hx, hs]
    · simp [hx]
    · simp [hs, hx.le]
  unfold adverse
  rw [decide_eq_decide, hiff, hiff, h]

/-- What is left as it was stays protected. -/
theorem Protected.of_untouched (hp : Protected b bar c o s p)
    (hlive : ∀ x ox level, LiveStop b' bar.openTimeNs x ox level →
      LiveStop b bar.openTimeNs x ox level)
    (hu : Untouched c b b') : Protected b' bar c o s p := by
  have hadv := adverse_congr hu.side
  refine ⟨fun hzero => ?_, ⟨hu.queued, ?_, hp.stop.new, hp.stop.price, hp.stop.created⟩,
    hp.reduceOnly, ?_, hu.size.trans hp.full, ?_, ?_, ?_, ?_, ?_, ?_, ?_⟩
  -- the position is still there, on its side
  · have hs := hu.side
    rw [hzero, sign_zero] at hs
    exact hp.nonzero (sign_eq_zero_iff.mp hs.symm)
  · rw [hu.order]
    exact hp.stop.order
  · rw [hu.side]
    exact hp.side
  · rw [hu.levels.1]
    exact hp.take
  · rw [hadv]
    exact hp.stop_beyond
  · rw [hadv]
    exact hp.take_beyond
  · rw [hadv]
    exact hp.inRange
  -- the other stops are those that were there
  · intro c' hc' o' ho'
    obtain ⟨o₀, ho₀, hreq⟩ := hu.orders c' hc' o' ho'
    rw [hreq]
    exact hp.stopMarket c' (hu.queue hc') o₀ ho₀
  · intro c' o' level hl hred hside
    rw [hu.side] at hside
    rw [hadv]
    exact hp.unjoined c' o' level (hlive _ _ _ hl) hred hside
  · intro c' o' hl hside
    rw [hadv]
    exact hp.untied c' o' (hlive _ _ _ hl) hside

/-- The protecting stop executes the whole position. -/
theorem Protected.executableQty (hp : Protected b bar c o s p) :
    b.executableQty o.req = |b.st.position| := by
  have hint : o.req.side.toInt = -sign b.st.position := by
    rw [hp.side, Side.toInt_ofInt_neg_sign]
  have hne : ¬(b.st.position = 0 ∨ sign b.st.position = o.req.side.toInt) := by
    rw [hint, not_or]
    refine ⟨hp.nonzero, fun heq => hp.nonzero (sign_eq_zero_iff.mp ?_)⟩
    omega
  unfold Book.executableQty
  simp only [hp.reduceOnly, Bool.not_true, Bool.false_eq_true, if_false, if_neg hne]
  exact min_eq_right hp.full

/-- The rest of a book after an execution that does not close the position. -/
theorem untouched_of_execute {c₀ : Uuid} {o₀ : Order} (hc : c ∈ b.st.stopOrders) (hne : c ≠ c₀)
    (ho : b.orders.get? c₀ = some o₀)
    (hothers : ∀ x, x ≠ c₀ → b'.orders.get? x = b.orders.get? x)
    (hown : ∃ ord, b'.orders.get? c₀ = some ord ∧ ord.req = o₀.req)
    (hst : b'.st = { (b.takeStop c₀).st with position := b'.st.position })
    (hside : sign b'.st.position = sign b.st.position)
    (hsize : |b'.st.position| ≤ |b.st.position|) : Untouched c b b' := by
  refine ⟨hside, hsize, ?_, ?_, ?_, ?_, hothers c hne⟩
  · rw [hst]
    exact ⟨rfl, rfl⟩
  · rw [hst]
    exact (List.mem_erase_of_ne hne).mpr hc
  · rw [hst]
    exact List.erase_subset
  -- only the order that was executed has changed, and it keeps its request
  · intro x hx o' ho'
    by_cases hxc : x = c₀
    · subst hxc
      obtain ⟨ord, hord, hreq⟩ := hown
      rw [hord] at ho'
      cases ho'
      exact ⟨o₀, ho, hreq⟩
    · rw [hothers x hxc] at ho'
      exact ⟨o', ho', rfl⟩

/-- **One firing of a protected position**, by any trigger but its take-profit: the position
    stays protected, or it leaves the market by a stop or by the liquidation. -/
theorem Protected.fire (hp : Protected b bar c o s p) (htr : IsTrigger b bar.openTimeNs tr)
    (htp : tr.kind ≠ .tp)
    (hopp : ∀ c' o', tr.coid = some c' → b.orders.get? c' = some o' →
      0 < b.executableQty o'.req → o'.req.side ≠ .flat →
      o'.req.side.toInt = -sign b.st.position)
    (hf : b.fire tr q bar.openTimeNs = .ok b') :
    (tr.kind = .stop ∧ tr.coid ≠ some c ∧ Protected b' bar c o s p ∧
      b'.st.liqPrice = b.st.liqPrice ∧ b'.adverse = b.adverse ∧ Holds bar b b') ∨
    (tr.firesUp = b.adverse ∧
      ExitsBy bar b tr (if tr.kind = .liq then .liquidation else .stop) b') := by
  have hlive := fun x ox level => (fun hl => (fire_liveStop htr hf hl).1 :
    LiveStop b' bar.openTimeNs x ox level → LiveStop b bar.openTimeNs x ox level)
  have hsize : 0 < |b.st.position| := abs_pos.mpr hp.nonzero
  have htrig := htr
  cases htr with
  | @stop c₀ o₀ level hc ho hnew hprice hts =>
    have hexec : (b.takeStop c₀).execute c₀ o₀ q bar.openTimeNs none = .ok b' := by
      obtain ⟨o', ho', hexec⟩ := bind_eq_ok.mp hf
      rw [orderOf_eq_ok, ho] at ho'
      cases ho'
      exact hexec
    -- the position stays on its side: everything else is as it was
    have hstays : c ≠ c₀ → sign b'.st.position = sign b.st.position →
        Untouched c b b' → (TriggerKind.stop = .stop ∧ some c₀ ≠ some c ∧
          Protected b' bar c o s p ∧ b'.st.liqPrice = b.st.liqPrice ∧ b'.adverse = b.adverse ∧
          Holds bar b b') := fun hne hsame hu =>
      ⟨rfl, fun heq => hne (Option.some.inj heq).symm, hp.of_untouched hlive hu, hu.levels.2,
        adverse_congr hsame, ⟨_, q, htrig, rfl, hf, hsame⟩⟩
    have hown : c = c₀ → o₀ = o := by
      rintro rfl
      rw [hp.stop.order] at ho
      exact (Option.some.inj ho).symm
    rcases execute_fills hexec with ⟨hq, hothers, hreq, hst⟩ | hfill
    · left
      have hne : c ≠ c₀ := by
        intro heq
        rw [hown heq] at hq
        have hq' : b.executableQty o.req ≤ 0 := hq
        rw [hp.executableQty] at hq'
        linarith
      have hpos : b'.st.position = b.st.position := by rw [hst]; rfl
      exact hstays hne (by rw [hpos]) (untouched_of_execute hp.stop.queued hne ho hothers hreq
        (by rw [hst]) (by rw [hpos]) (by rw [hpos]))
    · have hside : o₀.req.side.toInt = -sign b.st.position :=
        hopp c₀ o₀ rfl ho hfill.qty hfill.side
      have hpos : b'.st.position = b.st.position + o₀.req.side.toInt * b.executableQty o₀.req :=
        hfill.position
      by_cases hcl : closes b.st.position b'.st.position = true
      · right
        obtain ⟨f, ord, hfills, hord, hstatus, hid, hreason, -⟩ := hfill.booked
        refine ⟨adverse_of_opposite hp.nonzero hside, htrig, ⟨q, hf⟩, hcl, f, c₀, ord, hfills,
          hord, hstatus, hid, ?_⟩
        have hne : sign b.st.position ≠ o₀.req.side.toInt := by
          intro heq
          have hzero : sign b.st.position = 0 := by omega
          exact hp.nonzero (sign_eq_zero_iff.mp hzero)
        rw [hreason, executionReason, if_pos ⟨rfl, hp.stopMarket c₀ hc o₀ ho, hp.nonzero, hne⟩]
        rfl
      · left
        have hcl' := eq_false_of_ne_true hcl
        have hne : c ≠ c₀ := by
          intro heq
          rw [hown heq] at hside hpos
          rw [hp.executableQty, add_opposite_full hside] at hpos
          rw [hpos] at hcl'
          simp [Book.closes, hp.nonzero] at hcl'
        obtain ⟨hothers, hst⟩ := hfill.kept hcl'
        rw [hpos] at hcl'
        have hshrink := shrinks_of_not_closes hp.nonzero hfill.qty hside hcl'
        have hq' : (b.takeStop c₀).executableQty o₀.req = b.executableQty o₀.req := rfl
        rw [hq', ← hpos] at hshrink
        obtain ⟨f, ord, -, hord, -, -, -, hreq⟩ := hfill.booked
        exact hstays hne hshrink.1 (untouched_of_execute hp.stop.queued hne ho hothers
          ⟨ord, hord, hreq⟩ hst hshrink.1 hshrink.2)
  | tp hprice => exact absurd rfl htp
  | @liq level hprice hpos =>
    right
    obtain ⟨order, hsyn, hexec⟩ := fireSynthetic_eq_ok
      (b := { b with st := { b.st with liqPrice := none } }) hf
    have hqty := executableQty_close
      (b := { b with
        st := { b.st with liqPrice := none }
        ids := b.ids.nextUuid.2
        seq := b.seq + 1
        orders := b.orders.insert b.ids.nextUuid.1 order })
      hpos hsyn.reduceOnly hsyn.side hsyn.qty
    rcases execute_fills hexec with ⟨hq, -⟩ | hfill
    · rw [hqty] at hq
      exact absurd hq (not_le.mpr hsize)
    · have hint : order.req.side.toInt = -sign b.st.position := by
        rw [hsyn.side, Side.toInt_ofInt_neg_sign]
      have hzero : b'.st.position = 0 := by
        rw [hfill.position, hqty]
        exact add_opposite_full hint
      obtain ⟨f, ord, hfills, hord, hstatus, hid, hreason, -⟩ := hfill.booked
      refine ⟨rfl, htrig, ⟨q, hf⟩, ?_, f, _, ord, hfills, hord, hstatus, hid, ?_⟩
      · rw [hzero]
        simp [Book.closes, hp.nonzero]
      · rw [hreason]
        simp [executionReason]

/-! ### The way to the exit -/

/-- **The position leaves the market against itself**: stops may take from it until one closes
    it, before any liquidation level on the way, or until the liquidation does; either lies no
    further than `s`. -/
def LeavesAgainst (bar : DecBar) (s : Decimal) (b b' : Book) : Prop :=
  ∃ b₁ b₂ tr, Relation.ReflTransGen (Holds bar) b b₁ ∧ Firings bar b₂ b' ∧
    Ahead b.adverse tr.level s ∧
    ((tr.kind = .stop ∧ ExitsBy bar b₁ tr .stop b₂ ∧
        ∀ L, b.st.liqPrice = some L → Beyond b.adverse tr.level L) ∨
      (tr.kind = .liq ∧ ExitsBy bar b₁ tr .liquidation b₂ ∧ b.st.liqPrice = some tr.level))

/-- What is left against the position at the end was left at each step before it. -/
theorem LeavesAgainst.head {b₁ : Book} (hstep : Holds bar b b₁) (hadv : b₁.adverse = b.adverse)
    (hliq : b₁.st.liqPrice = b.st.liqPrice) (h : LeavesAgainst bar s b₁ b') :
    LeavesAgainst bar s b b' := by
  obtain ⟨b₂, b₃, tr, hholds, hrest, hlevel, hexit⟩ := h
  rw [hadv] at hlevel hexit
  rw [hliq] at hexit
  exact ⟨b₂, b₃, tr, .head hstep hholds, hrest, hlevel, hexit⟩

/-- Firings after a part that leaves something against it leave it too. -/
theorem LeavesAgainst.tail {b₁ : Book} (h : LeavesAgainst bar s b b₁)
    (hrest : Firings bar b₁ b') : LeavesAgainst bar s b b' := by
  obtain ⟨b₂, b₃, tr, hholds, hmid, hlevel, hexit⟩ := h
  exact ⟨b₂, b₃, tr, hholds, hmid.trans hrest, hlevel, hexit⟩

/-- An exit whose trigger comes no later than `s`, and before the liquidation if it is a
    stop. -/
theorem LeavesAgainst.exit {b₁ : Book} (htp : tr.kind ≠ .tp)
    (hexit : ExitsBy bar b tr (if tr.kind = .liq then .liquidation else .stop) b₁)
    (hrest : Firings bar b₁ b') (hlevel : Ahead b.adverse tr.level s)
    (hliq : tr.kind = .stop → ∀ L, b.st.liqPrice = some L → Beyond b.adverse tr.level L) :
    LeavesAgainst bar s b b' := by
  refine ⟨b, b₁, tr, .refl, hrest, hlevel, ?_⟩
  cases hkind : tr.kind with
  | stop =>
    rw [hkind] at hexit
    exact .inl ⟨rfl, hexit, hliq hkind⟩
  | tp => exact absurd hkind htp
  | liq =>
    rw [hkind] at hexit
    refine .inr ⟨rfl, hexit, ?_⟩
    have htrig := hexit.trigger
    cases htrig with
    | stop => cases hkind
    | tp => cases hkind
    | liq hprice => exact hprice

/-- The liquidation of an open position is among the triggers. -/
theorem liq_mem_triggers {ts : List Trigger} {L : Decimal} (hts : b.triggers t = .ok ts)
    (hpos : b.st.position ≠ 0) (hL : b.st.liqPrice = some L) :
    (⟨.liq, L, b.adverse, none, 0⟩ : Trigger) ∈ ts := by
  rw [triggers, bind_eq_ok] at hts
  obtain ⟨stops, -, hts⟩ := hts
  cases hts
  refine List.mem_append_right _ (Option.mem_toList.mpr ?_)
  simp [liqTrigger, hL, hpos, adverse]

/-- A position that is protected has something to lose. -/
theorem Protected.budget_pos (hp : Protected b bar c o s p) : 0 < b.budget := by
  have hlen := List.length_pos_of_mem hp.stop.queued
  unfold budget
  omega

/-- The direction of the take-profit is not the adverse one. -/
theorem favourable_eq (hpos : b.st.position ≠ 0) : decide (0 < b.st.position) = !b.adverse := by
  unfold adverse
  rcases lt_or_gt_of_ne hpos with hneg | hlong
  · simp [hneg, hneg.le]
  · simp [hlong, hlong.le]

/-- A trigger that is behind the price is at its level or past it. -/
theorem behind_iff {x : Decimal} : behind x tr = true ↔ Ahead tr.firesUp tr.level x := by
  unfold behind Ahead
  cases tr.firesUp <;> simp

/-- **At the open** a protected position is left as it is, or it leaves against itself. -/
theorem Protected.walkAtOpen {n : ℕ} (hp : Protected b bar c o s p) (hn : b.budget ≤ n)
    (hlo : bar.l ≤ bar.o) (hoh : bar.o ≤ bar.h)
    (h : b.walkAtOpen bar.o bar.openTimeNs n = .ok b') :
    LeavesAgainst bar s b b' ∨
      (Protected b' bar c o s p ∧ b'.adverse = b.adverse ∧ b'.st.liqPrice = b.st.liqPrice ∧
        Relation.ReflTransGen (Holds bar) b b' ∧
        ∀ L, b'.st.liqPrice = some L → Beyond b'.adverse bar.o L) := by
  induction n generalizing b with
  | zero =>
    have := hp.budget_pos
    omega
  | succ n ih =>
    obtain ⟨ts, hts, h⟩ := walkAtOpen_eq_ok h
    -- a liquidation that is not a candidate has not been passed
    have hliq : ∀ L, b.st.liqPrice = some L →
        (⟨.liq, L, b.adverse, none, 0⟩ : Trigger) ∈ ts.filter (behind bar.o) ∨
          Beyond b.adverse bar.o L := by
      intro L hL
      by_cases hpassed : Ahead b.adverse L bar.o
      · exact .inl (List.mem_filter.mpr ⟨liq_mem_triggers hts hp.nonzero hL,
          behind_iff.mpr hpassed⟩)
      · exact .inr (not_ahead.mp hpassed)
    obtain ⟨rfl, hnone⟩ | ⟨tr, b₁, htr, htrig, hbehind, hb₁, h⟩ := h
    · refine .inr ⟨hp, rfl, rfl, .refl, fun L hL => (hliq L hL).resolve_left fun hmem => ?_⟩
      obtain ⟨hmem, hbehind⟩ := List.mem_filter.mp hmem
      exact hnone _ hmem hbehind
    · have hlt := fire_budget htrig hb₁
      rw [behind_iff] at hbehind
      have htp : tr.kind ≠ .tp := by
        intro hkind
        cases htrig with
        | stop => cases hkind
        | liq => cases hkind
        | tp hprice =>
          rw [hp.take] at hprice
          cases hprice
          have hnot := hp.take_beyond
          rw [← favourable_eq hp.nonzero, ← not_ahead] at hnot
          exact hnot hbehind
      have hopp : ∀ c' o', tr.coid = some c' → b.orders.get? c' = some o' →
          0 < b.executableQty o'.req → o'.req.side ≠ .flat →
          o'.req.side.toInt = -sign b.st.position := by
        intro c' o' hcoid ho' hqty hflat
        by_cases hred : o'.req.reduceOnly = true
        · exact opposite_of_reduceOnly hred hqty hflat
        cases htrig with
        | tp => cases hcoid
        | liq => cases hcoid
        | @stop c₀ o₀ level hc ho hnew hprice hcreated =>
          cases hcoid
          rw [ho] at ho'
          cases ho'
          refine opposite_of_adverse hp.nonzero hflat ?_
          by_contra hdir
          -- an entry on the position's own side has not been passed by the open
          have hnot := hp.unjoined _ _ level ⟨hc, ho, hnew, hprice, hcreated⟩
            (eq_false_of_ne_true hred) (own_of_not_adverse hp.nonzero hflat hdir)
          rw [← Bool.eq_not.mpr hdir, ← not_ahead] at hnot
          exact hnot hbehind
      rcases hp.fire htrig htp hopp hb₁ with ⟨-, -, hp₁, hliq₁, hadv₁, hholds⟩ | ⟨hup, hexit⟩
      · rcases ih hp₁ (by omega) h with hleave | ⟨hp', hadv', hliq', hmany, hbeyond⟩
        · exact .inl (hleave.head hholds hadv₁ hliq₁)
        · exact .inr ⟨hp', hadv'.trans hadv₁, hliq'.trans hliq₁, .head hholds hmany, hbeyond⟩
      · left
        rw [hup] at hbehind
        refine .exit htp hexit (walkAtOpen_firings hlo hoh h)
          (hbehind.trans hp.stop_beyond.ahead) fun hkind L hL => ?_
        -- the liquidation has priority, so it has not been passed
        rcases hliq L hL with hcand | hbeyond
        · have hle :=
            firstMin_le (fun x m => decide_eq_true_iff (p := x.priority < m.priority)) htr hcand
          have hone : tr.priority = 1 := by
            cases htrig with
            | stop => rfl
            | tp => cases hkind
            | liq => cases hkind
          rw [hone] at hle
          exact absurd hle (by norm_num)
        · exact hbehind.trans_beyond hbeyond

/-- **To the adverse extreme**: on the way the position leaves against itself. -/
theorem Protected.walkSegment {n : ℕ} {cur dest : Decimal} (hp : Protected b bar c o s p)
    (hn : b.budget ≤ n) (hdest : dest = bar.extreme b.adverse)
    (hcur : bar.l ≤ cur ∧ cur ≤ bar.h) (hrange : bar.l ≤ dest ∧ dest ≤ bar.h)
    (hahead : Ahead b.adverse cur s) (hne : dest ≠ cur)
    (hliq : ∀ L, b.st.liqPrice = some L → Ahead b.adverse cur L)
    (h : b.walkSegment bar.openTimeNs dest n cur = .ok b') : LeavesAgainst bar s b b' := by
  induction n generalizing b cur with
  | zero =>
    have := hp.budget_pos
    omega
  | succ n ih =>
    have hreach : Ahead b.adverse s dest := by
      rw [hdest]
      exact hp.inRange
    have hside := hahead.trans hreach
    obtain ⟨ts, hts, h⟩ := ((walkSegment_eq_ok h).resolve_left fun hend => hne hend.1).2
    -- the protecting stop is on the way
    have hdirc : decide (o.req.side = .long) = b.adverse := by
      refine adverse_of_opposite hp.nonzero ?_
      rw [hp.side, Side.toInt_ofInt_neg_sign]
    have hcand : ofStop c o s ∈ ts.filter (onTheWay cur dest) :=
      List.mem_filter.mpr ⟨hp.stop.mem_triggers hts, (onTheWay_iff hside hne).mpr
        ⟨hdirc, hahead, hreach⟩⟩
    obtain ⟨-, hnone⟩ | ⟨tr, b₁, htr, htrig, hway, hb₁, h⟩ := h
    · obtain ⟨hmem, hway⟩ := List.mem_filter.mp hcand
      exact absurd hway (hnone _ hmem)
    · have hlt := fire_budget htrig hb₁
      have hlevel := onTheWay_range hway hcur hrange
      rw [onTheWay_iff hside hne] at hway
      obtain ⟨hdir, -, hend⟩ := hway
      have hfirst := (ahead_of_firstMin hside hne htr hcand).1
      -- the liquidation comes after what fires, and not at its level when that is a stop
      have hafter : ∀ L, b.st.liqPrice = some L → Ahead b.adverse tr.level L ∧
          (tr.kind = .stop → Beyond b.adverse tr.level L) := by
        intro L hL
        by_cases hon : Ahead b.adverse L dest
        · have hcandL : (⟨.liq, L, b.adverse, none, 0⟩ : Trigger) ∈
              ts.filter (onTheWay cur dest) :=
            List.mem_filter.mpr ⟨liq_mem_triggers hts hp.nonzero hL,
              (onTheWay_iff hside hne).mpr ⟨rfl, hliq L hL, hon⟩⟩
          obtain ⟨hle, htie⟩ := ahead_of_firstMin hside hne htr hcandL
          refine ⟨hle, fun hkind => hle.beyond fun heq => ?_⟩
          have hone : tr.priority = 1 := by
            cases htrig with
            | stop => rfl
            | tp => cases hkind
            | liq => cases hkind
          have hprio := htie heq.symm
          rw [hone] at hprio
          exact absurd hprio (by norm_num)
        · have hbeyond := hend.trans_beyond (not_ahead.mp hon)
          exact ⟨hbeyond.ahead, fun _ => hbeyond⟩
      have htp : tr.kind ≠ .tp := by
        intro hkind
        cases htrig with
        | stop => cases hkind
        | liq => cases hkind
        | tp =>
          have hfav := favourable_eq hp.nonzero
          have hsame : decide (0 < b.st.position) = b.adverse := hdir
          rw [hsame] at hfav
          simp at hfav
      have hopp : ∀ c' o', tr.coid = some c' → b.orders.get? c' = some o' →
          0 < b.executableQty o'.req → o'.req.side ≠ .flat →
          o'.req.side.toInt = -sign b.st.position := by
        intro c' o' hcoid ho' _ hflat
        cases htrig with
        | tp => cases hcoid
        | liq => cases hcoid
        | stop hc ho =>
          cases hcoid
          rw [ho] at ho'
          cases ho'
          exact opposite_of_adverse hp.nonzero hflat hdir
      rcases hp.fire htrig htp hopp hb₁ with
        ⟨hkind, hother, hp₁, hliq₁, hadv₁, hholds⟩ | ⟨-, hexit⟩
      · refine (ih hp₁ (by omega) (by rw [hadv₁]; exact hdest) hlevel
          (by rw [hadv₁]; exact hfirst) ?_ ?_ h).head hholds hadv₁ hliq₁
        · -- at the end itself no second stop shares the level of the protecting one
          intro heq
          have hs : tr.level = s := by
            refine Classical.byContradiction fun hne' => ?_
            have hb := hfirst.beyond (Ne.symm hne')
            rw [← heq, ← not_ahead] at hb
            exact hb hreach
          cases htrig with
          | tp => cases hkind
          | liq => cases hkind
          | @stop c' o' level hc ho hnew hprice hcreated =>
            have hlevel : level = s := hs
            subst hlevel
            rcases hp.untied c' o' ⟨hc, ho, hnew, hprice, hcreated⟩
                (hdir.trans hdirc.symm) with heqc | hbeyond
            · exact hother (congrArg some heqc)
            · rw [← hdest, heq] at hbeyond
              have hlt : Beyond b.adverse level level := hbeyond
              rw [← not_ahead] at hlt
              exact hlt ahead_refl
        · intro L hL
          rw [hliq₁] at hL
          rw [hadv₁]
          exact (hafter L hL).1
      · exact .exit htp hexit (walkSegment_firings hlevel hrange h) hfirst fun hkind L hL =>
          (hafter L hL).2 hkind

end Book

/-- **Stop before take.**  A protected position does not survive the bar, and does not leave
    it by its take-profit: however the bar closes, and whatever else it reaches, the walk
    takes the position out by a stop or by the liquidation, each no further from the open than
    the stop `s`; by a stop only where the liquidation level lies beyond it.  With known stops
    above one tick there is such a walk. -/
theorem stop_before_take {b : Book} {bar : DecBar} {c : Uuid} {o : Order} {s p : Decimal}
    (hp : b.Protected bar c o s p) (hlo : bar.l ≤ bar.o) (hoh : bar.o ≤ bar.h)
    (hlc : bar.l ≤ bar.c) (hch : bar.c ≤ bar.h) :
    (b.Known → 0 ≤ bar.openTimeNs → b.st.spec.tickSize.1 ≤ bar.l →
      ∃ b', b.walkTriggers bar = .ok b') ∧
    ∀ b', b.walkTriggers bar = .ok b' → Book.LeavesAgainst bar s b b' := by
  refine ⟨fun hk ht hl => Book.walkTriggers_ok hk ht hl hlo hoh hlc, fun b' h => ?_⟩
  rw [Book.walkTriggers, bind_eq_ok] at h
  obtain ⟨ts, hts, h⟩ := h
  -- the stop closes the position, so that it lies on the adverse side
  have hdir : decide (o.req.side = .long) = b.adverse := by
    refine Book.adverse_of_opposite hp.nonzero ?_
    rw [hp.side, Side.toInt_ofInt_neg_sign]
  -- it lies in the range of the bar, so that there is something to walk
  have hreach : Book.reachable bar ts = true := by
    unfold Book.reachable
    rw [List.any_eq_true]
    refine ⟨_, hp.stop.mem_triggers hts, ?_⟩
    have hrange := hp.inRange
    rw [← hdir] at hrange
    unfold Book.ofStop
    split
    · rename_i hup
      rw [show decide (o.req.side = .long) = true from hup] at hrange
      simpa [Book.Ahead, DecBar.extreme] using hrange
    · rename_i hup
      rw [show decide (o.req.side = .long) = false from eq_false_of_ne_true hup] at hrange
      simpa [Book.Ahead, DecBar.extreme] using hrange
  rw [hreach] at h
  simp only [Bool.not_true, Bool.false_eq_true, if_false] at h
  rw [bind_eq_ok] at h
  obtain ⟨b₁, hb₁, h⟩ := h
  have hopen : bar.l ≤ bar.o ∧ bar.o ≤ bar.h := ⟨hlo, hoh⟩
  have hl : bar.l ≤ bar.l ∧ bar.l ≤ bar.h := ⟨le_rfl, hlo.trans hoh⟩
  have hh : bar.l ≤ bar.h ∧ bar.h ≤ bar.h := ⟨hlo.trans hoh, le_rfl⟩
  have hc : bar.l ≤ bar.c ∧ bar.c ≤ bar.h := ⟨hlc, hch⟩
  have hrest : ∀ x ∈ b₁.path bar, bar.l ≤ x ∧ x ≤ bar.h := by
    intro x hx
    rcases Book.path_cases b₁ bar with hpath | hpath <;> rw [hpath] at hx <;>
      simp only [List.mem_cons, List.not_mem_nil, or_false] at hx <;>
      rcases hx with rfl | rfl | rfl
    exacts [hl, hh, hc, hh, hl, hc]
  -- at the open the position may be gone already
  rcases hp.walkAtOpen le_rfl hlo hoh hb₁ with hleave | ⟨hp₁, hadv, hliq, hholds, hbeyond⟩
  · exact hleave.tail (Book.walkPath_firings hopen hrest h)
  · -- the position is still there, and its path begins with the adverse extreme
    obtain ⟨rest, hpath⟩ : ∃ rest, b₁.path bar = bar.extreme b₁.adverse :: rest := by
      unfold Book.path Book.adverse DecBar.extreme
      rcases lt_or_gt_of_ne hp₁.nonzero with hneg | hlong
      · exact ⟨[bar.l, bar.c], by simp [hneg, hneg.le]⟩
      · exact ⟨[bar.h, bar.c], by simp [hlong, hlong.le]⟩
    rw [hpath] at h hrest
    rw [Book.walkPath, bind_eq_ok] at h
    obtain ⟨b₂, hb₂, h⟩ := h
    have hdest := hrest _ (List.mem_cons_self ..)
    have hne : bar.extreme b₁.adverse ≠ bar.o := by
      intro heq
      have hrange := hp₁.inRange
      rw [heq] at hrange
      exact (Book.not_ahead.mpr hp₁.stop_beyond) hrange
    have hleave := (hp₁.walkSegment le_rfl rfl hopen hdest hp₁.stop_beyond.ahead hne
      (fun L hL => (hbeyond L hL).ahead) hb₂).tail
        (Book.walkPath_firings hdest (fun x hx => hrest x (List.mem_cons_of_mem _ hx)) h)
    obtain ⟨b₃, b₄, tr, hmany, hend, hlevel, hexit⟩ := hleave
    rw [hadv] at hlevel hexit
    rw [hliq] at hexit
    exact ⟨b₃, b₄, tr, hholds.trans hmany, hend, hlevel, hexit⟩

/-- A long behind its stop at 90 and its take-profit at 120. -/
def protectedLong : Book where
  st := { InstState.new sampleInstrument 0 with
    position := 1
    tpPrice := some 120
    stopOrders := [3] }
  orders := (∅ : Dict Uuid Order).insert 3 (stopAtNinety 3)
  ids := evenIds
  seq := 1
  cost := sampleCost
  fills := []

/-- The long position of the samples is protected. -/
theorem protectedLong_protected :
    protectedLong.Protected ⟨"BTC", 4, 100, 120, 90, 105, 7⟩ 3 (stopAtNinety 3) 90 120 := by
  have hone : ∀ c o, c ∈ protectedLong.st.stopOrders → protectedLong.orders.get? c = some o →
      c = 3 ∧ o = stopAtNinety 3 := by
    intro c o hc ho
    have hc3 : c = 3 := by simpa [protectedLong] using hc
    subst hc3
    rw [show protectedLong.orders.get? 3 = some (stopAtNinety 3) by decide +kernel] at ho
    exact ⟨rfl, (Option.some.inj ho).symm⟩
  refine ⟨by decide +kernel, ⟨by decide, by decide +kernel, rfl, rfl, by decide⟩, rfl,
    by decide +kernel, by decide +kernel, rfl, by decide +kernel, by decide +kernel,
    by decide +kernel, ?_, ?_, ?_⟩
  · intro c hc o ho
    rw [(hone c o hc ho).2]
    rfl
  · intro c o level hl hred
    rw [(hone c o hl.queued hl.order).2] at hred
    cases hred
  · intro c o hl _
    exact .inl (hone c o hl.queued hl.order).1

/-- The bar reaches both levels, and its low is the stop: the long leaves by its stop. -/
theorem stop_before_take_protectedLong : ∃ b',
    protectedLong.walkTriggers ⟨"BTC", 4, 100, 120, 90, 105, 7⟩ = .ok b' ∧
      Book.LeavesAgainst ⟨"BTC", 4, 100, 120, 90, 105, 7⟩ 90 protectedLong b' := by
  have hlaw := stop_before_take protectedLong_protected (by decide +kernel) (by decide +kernel)
    (by decide +kernel) (by decide +kernel)
  have hknown : protectedLong.Known := by
    intro c hc
    have hc3 : c = 3 := by simpa [protectedLong] using hc
    subst hc3
    exact ⟨stopAtNinety 3, by decide +kernel, by decide⟩
  obtain ⟨b', hb'⟩ := hlaw.1 hknown (by decide) (by decide +kernel)
  exact ⟨b', hb', hlaw.2 b' hb'⟩

end FuzzHelm
