import FuzzHelm.Backtest.Send
import FuzzHelm.Risk.GuardBounds

namespace FuzzHelm

open Lib

/-!
# The decision

The last part of a step: the intent goes through the guard, and what is left of it extends
the plan by a closing or by an opening with its stop.

* `intend_eq_ok`, `evaluate_eq_ok` — what the intent asks for and what the guard leaves;
* `approved_lot` — what is approved on a new side is a whole number of lots;
* `Asks` — the plan waits for what the decision has sent;
* `Represents.submit` — the orders of a decision;
* `Represents.decideBar` — the decision carries out `Plan.Decide`.
-/

/-! ### Sides and sizes -/

/-- What has a sign is not zero. -/
theorem sign_ne_of_ne_zero {x : ℚ} (h : sign x ≠ 0) : x ≠ 0 := by
  rintro rfl
  exact h sign_zero

/-- The side of an order that moves a position by `x`. -/
theorem side_of_sign {x : ℚ} (hx : x ≠ 0) :
    (if 0 < x then Side.long else .short) = Side.ofInt (sign x) := by
  rcases sign_cases x with ⟨hneg, hs⟩ | ⟨h0, -⟩ | ⟨hpos, hs⟩
  · rw [if_neg (not_lt.mpr hneg.le), hs]
    rfl
  · exact absurd h0 hx
  · rw [if_pos hpos, hs]
    rfl

/-- A target on another side than the position lies further from it than from zero. -/
theorem abs_le_abs_sub {x y : ℚ} (hx : x ≠ 0) (h : sign x ≠ sign y) : |x| ≤ |x - y| := by
  rcases sign_cases x with ⟨hxneg, hsx⟩ | ⟨h0, -⟩ | ⟨hxpos, hsx⟩
  · have hy : 0 ≤ y := by
      by_contra hy
      rw [hsx, sign_of_neg (not_le.mp hy)] at h
      exact h rfl
    rw [abs_of_neg hxneg, abs_of_neg (by linarith)]
    linarith
  · exact absurd h0 hx
  · have hy : y ≤ 0 := by
      by_contra hy
      rw [hsx, sign_of_pos (not_le.mp hy)] at h
      exact h rfl
    rw [abs_of_pos hxpos, abs_of_pos (by linarith)]
    linarith

/-- Another side is the opposite side, unless the position is flat. -/
theorem opposite_of_ne {x y : ℚ} (hx : x ≠ 0) (h : sign x ≠ sign y) :
    y = 0 ∨ sign x = -sign y := by
  rcases sign_cases x with ⟨-, hsx⟩ | ⟨h0, -⟩ | ⟨-, hsx⟩
  · rcases sign_cases y with ⟨-, hsy⟩ | ⟨h0, -⟩ | ⟨-, hsy⟩
    · exact absurd (hsx.trans hsy.symm) h
    · exact .inl h0
    · exact .inr (by omega)
  · exact absurd h0 hx
  · rcases sign_cases y with ⟨-, hsy⟩ | ⟨h0, -⟩ | ⟨-, hsy⟩
    · exact .inr (by omega)
    · exact .inl h0
    · exact absurd (hsx.trans hsy.symm) h

/-! ### What the guard leaves -/

/-- A target on a new side keeps nothing of the position. -/
theorem RiskContext.baseQty_of_ne {ctx : RiskContext}
    (h : ctx.targetQty = 0 ∨ sign ctx.targetQty ≠ sign ctx.currentQty) : ctx.baseQty = 0 := by
  unfold baseQty
  split
  · rfl
  · rename_i hq
    split
    · rfl
    · rename_i hflip
      rcases opposite_of_ne hq (h.resolve_left hq) with hcur | hopp
      · rw [hcur, abs_zero]
        exact min_eq_left (abs_nonneg _)
      · -- opposite sides are a flip
        refine absurd ?_ hflip
        have hne : sign ctx.targetQty ≠ 0 := fun hs => hq (sign_eq_zero_iff.mp hs)
        have hcur : sign ctx.currentQty = -sign ctx.targetQty := by omega
        rw [isFlip, hcur, neg_mul, neg_lt_zero]
        exact mul_self_pos.mpr hne

/-- **What is approved on a new side is a whole number of lots.** -/
theorem approved_lot {g : RiskGuard} {k k' : Option KillSwitch} {ctx : RiskContext}
    {res : GuardResult} {step : PosDec} (h : g.evaluate k ctx = .ok (res, k'))
    (hstep : ctx.stepSize = some step.1)
    (hside : ctx.targetQty = 0 ∨ sign ctx.targetQty ≠ sign ctx.currentQty) :
    IsMultiple step.1 res.approvedQty := by
  obtain ⟨inc, -, hinc, -, -, -, happ, -⟩ := RiskGuard.evaluate_eq_ok h
  rw [happ]
  split
  · exact .zero _
  · rw [RiskContext.baseQty_of_ne hside, zero_add, mul_comm]
    refine IsMultiple.intMul _ ?_
    rw [RiskGuard.approvedIncrease, bind_eq_ok] at hinc
    obtain ⟨approved, -, hinc⟩ := hinc
    rw [hstep] at hinc
    obtain ⟨-, rfl⟩ := quantizeStep_eq_ok.mp hinc
    exact quantize_isMultiple _ _ _

namespace TradingLoop

variable {l l' : TradingLoop} {inp : StepInput} {equity : Decimal} {it : Intent}
  {sz : SizingResult} {res : GuardResult}

/-- **The intent.**  A latched loop wants to be flat; a size is there whenever the side that is
    wanted is not the side of the position. -/
theorem intend_eq_ok (h : l.intend inp equity = .ok (it, l')) :
    ∃ gate side, l' = { l with gate := gate } ∧ it.cur = l.positionQty ∧
      it.desired = (if l.latched then 0 else Side.toInt side) ∧
      (it.sizing = none → it.desired = it.curSide) ∧
      ∀ sz, it.sizing = some sz →
        PositionSizer.size l.cfg.sizing (l.sizingInput inp equity) = .ok sz ∧
        it.requested = (if it.desired = 0 then 0 else sz.qty * it.desired) := by
  unfold intend at h
  dsimp only at h
  generalize hdesired : (if l.latched = true then (0 : ℤ)
    else (l.syncedGate.update inp.uFinal).1.toInt) = desired at h
  split at h
  · rw [bind_eq_ok] at h
    obtain ⟨sizing, hsizing, h⟩ := h
    cases h
    cases hsize : PositionSizer.size l.cfg.sizing (l.sizingInput inp equity) with
    | error e =>
      rw [hsize] at hsizing
      cases hsizing
    | ok sz =>
      rw [hsize] at hsizing
      cases hsizing
      refine ⟨_, _, rfl, rfl, hdesired.symm, (fun h => by cases h), fun sz' hsz' => ?_⟩
      cases hsz'
      exact ⟨rfl, rfl⟩
  · rename_i hside
    rw [bind_eq_ok] at h
    obtain ⟨sizing, hsizing, h⟩ := h
    cases hsizing
    cases h
    rw [not_or, not_not] at hside
    exact ⟨_, _, rfl, rfl, hdesired.symm, fun _ => hside.1, fun _ h => by cases h⟩

/-- **The evaluation** sees the position, the request and the lot step of the loop, and trips
    at most the switch. -/
theorem evaluate_eq_ok (h : l.evaluate inp it sz = .ok (res, l')) :
    ∃ ctx k killswitch, 0 < inp.bar.c ∧ ctx.currentQty = it.cur ∧ ctx.targetQty = it.requested ∧
      ctx.stepSize = some l.instrument.stepSize.1 ∧
      l.guard.evaluate (some l.fsm.killswitch) ctx = .ok (res, k) ∧
      l' = { l with fsm := { l.fsm with killswitch := killswitch } } := by
  unfold evaluate at h
  split at h
  · cases h
  · rw [bind_eq_ok] at h
    obtain ⟨ctx, hctx, h⟩ := h
    rw [bind_eq_ok] at h
    obtain ⟨⟨res', k⟩, hres, h⟩ := h
    cases h
    obtain ⟨hprice, hcur, htarget, -, hstep⟩ := RiskContext.fromSnapshot_eq_ok hctx
    exact ⟨ctx, k, _, hprice, hcur, htarget, hstep, hres, rfl⟩

/-- What is requested is on the side that is wanted, or nothing. -/
theorem requested_side {side : Side} {halted : Bool} {qty requested : Decimal} {desired : ℤ}
    (hqty : 0 ≤ qty) (hdesired : desired = if halted then 0 else side.toInt)
    (hreq : requested = if desired = 0 then 0 else qty * desired) :
    requested = 0 ∨ sign requested = desired := by
  rcases hqty.eq_or_lt with rfl | hpos
  -- no quantity at all, or a side that is wanted
  · left
    rw [hreq]
    split
    · rfl
    · exact zero_mul _
  · by_cases h0 : desired = 0
    · left
      rw [hreq, if_pos h0]
    · right
      rw [hreq, if_neg h0]
      have hside : desired = side.toInt := by
        rw [hdesired] at h0 ⊢
        split
        · rename_i hh
          rw [if_pos hh] at h0
          exact absurd rfl h0
        · rfl
      cases side with
      | short =>
        rw [hside]
        exact sign_of_neg (by simpa using hpos)
      | flat => exact absurd hside h0
      | long =>
        rw [hside]
        exact sign_of_pos (by simpa using hpos)

/-- A target that is too small is given up. -/
theorem largeEnough_cases (approved price : Decimal) :
    l.largeEnough approved price = 0 ∨
      l.largeEnough approved price = approved ∧ l.instrument.minNotional ≤ |approved| * price := by
  unfold largeEnough
  split
  · exact .inl rfl
  · rename_i hsmall
    by_cases h0 : approved = 0
    · exact .inl h0
    · exact .inr ⟨rfl, not_lt.mp fun hlt => hsmall ⟨h0, hlt⟩⟩

/-- The levels of a new position lie on the tick grid. -/
theorem exitLevels_stop {price : Decimal} {s : ℤ} {dist : Option ℚ} {x : Decimal}
    (h : (l.exitLevels price s dist).1 = some x) :
    0 < x ∧ quantizePrice x l.instrument.tickSize = x := by
  unfold exitLevels at h
  split at h
  · cases h
  · dsimp only at h
    split at h
    · split at h
      · rename_i hpos
        cases h
        exact ⟨hpos, quantizePrice_idem _ _⟩
      · cases h
    · cases h

/-- A decision that closes a position is no entry and no flip. -/
theorem actionOf_close {flattenAll : Bool} {cur requested : Decimal} (hcur : cur ≠ 0) :
    (actionOf flattenAll cur requested 0).1.role ≠ Action.enter.role ∧
      (actionOf flattenAll cur requested 0).1.role ≠ Action.flip.role := by
  have hs : sign cur ≠ 0 := fun h => hcur (sign_eq_zero_iff.mp h)
  have hopens : opensNew cur 0 = false := by simp [opensNew]
  unfold actionOf
  split
  · exact ⟨by decide, by decide⟩
  · split
    · exact ⟨by decide, by decide⟩
    · rw [if_pos ⟨hs, by rw [sign_zero]; exact hs⟩, hopens, if_neg Bool.false_ne_true]
      exact ⟨by decide, by decide⟩

/-- **What a decision with an order consists of.** -/
theorem act_eq_ok {D : DecisionEntry} (h : l.act inp equity it sz = .ok (D, l')) :
    ∃ res l₁ target stop tp ids, l.evaluate inp it sz = .ok (res, l₁) ∧
      target = l₁.largeEnough res.approvedQty inp.bar.c ∧
      l₁.submit inp.bar.openTimeNs inp.closeNs it.cur target
        (actionOf res.flattenAll it.cur it.requested target).1
        (actionOf res.flattenAll it.cur it.requested target).2 stop tp = .ok (ids, l') ∧
      (∀ x, stop = some x → 0 < x ∧ quantizePrice x l₁.instrument.tickSize = x) ∧
      D.openTimeNs = inp.bar.openTimeNs ∧ D.stopPrice = stop ∧ D.targetSide = sign target ∧
      D.targetQty = |target| ∧ D.orderIds = ids := by
  rw [act, bind_eq_ok] at h
  obtain ⟨⟨res, l₁⟩, heval, h⟩ := h
  dsimp only at h
  -- the levels of the exit are computed for a new side only
  split at h
  · rw [bind_eq_ok] at h
    obtain ⟨liq, -, h⟩ := h
    rw [bind_eq_ok] at h
    obtain ⟨⟨ids, l₂⟩, hsubmit, h⟩ := h
    cases h
    exact ⟨res, l₁, _, _, _, ids, heval, rfl, hsubmit, fun x => exitLevels_stop, rfl, rfl, rfl, rfl,
      rfl⟩
  · rw [bind_eq_ok] at h
    obtain ⟨liq, -, h⟩ := h
    rw [bind_eq_ok] at h
    obtain ⟨⟨ids, l₂⟩, hsubmit, h⟩ := h
    cases h
    exact ⟨res, l₁, _, none, none, ids, heval, rfl, hsubmit, (fun x hx => by cases hx), rfl, rfl,
      rfl, rfl, rfl⟩

/-- **What a decision consists of**: the intent, which moves the gate, and nothing more or an
    order that goes through the guard. -/
theorem decide_eq_ok {D : DecisionEntry} (h : l.decide inp equity = .ok (D, l')) :
    ∃ it gate, l.intend inp equity = .ok (it, { l with gate := gate }) ∧
      ((D = holdEntry inp it ∧ l' = { l with gate := gate } ∧
          ∀ sz, it.sizing = some sz → it.desired = it.curSide ∨ it.requested = it.cur) ∨
        ∃ sz, it.sizing = some sz ∧ it.desired ≠ it.curSide ∧
          TradingLoop.act { l with gate := gate } inp equity it sz = .ok (D, l')) := by
  rw [decide, bind_eq_ok] at h
  obtain ⟨⟨it, l₁⟩, hintend, h⟩ := h
  obtain ⟨gate, side, rfl, -⟩ := intend_eq_ok hintend
  refine ⟨it, gate, hintend, ?_⟩
  dsimp only at h
  -- no size means that the side stays, and the decision is to hold
  split at h
  · rename_i hnone
    cases h
    exact .inl ⟨rfl, rfl, fun sz hsz => by rw [hnone] at hsz; cases hsz⟩
  · rename_i sz hsome
    -- a size that changes nothing is held as well
    split at h
    · rename_i hstay
      cases h
      exact .inl ⟨rfl, rfl, fun _ _ => hstay⟩
    · rename_i hmove
      exact .inr ⟨sz, hsome, (not_or.mp hmove).1, h⟩

/-- The orders of a decision touch neither the account nor the risk machine. -/
theorem submit_untouched {d closeNs : ℤ} {cur approved : Decimal} {action : Action}
    {reason : ExitReason} {stop tp : Option Decimal} {ids : List Uuid}
    (h : l.submit d closeNs cur approved action reason stop tp = .ok (ids, l')) :
    l'.portfolio = l.portfolio ∧ l'.fsm = l.fsm := by
  unfold submit at h
  split at h
  · cases h
    exact ⟨rfl, rfl⟩
  · dsimp only at h
    split at h
    · rw [bind_eq_ok] at h
      obtain ⟨broker, -, h⟩ := h
      cases h
      cases stop <;> exact ⟨rfl, rfl⟩
    · cases h
      exact ⟨rfl, rfl⟩

/-- A decision does not touch the account, and trips at most the switch. -/
theorem decide_untouched {D : DecisionEntry} (h : l.decide inp equity = .ok (D, l')) :
    l'.portfolio = l.portfolio ∧ l'.fsm.kappaMode = l.fsm.kappaMode := by
  obtain ⟨it, gate, -, ⟨-, rfl, -⟩ | ⟨sz, -, -, hact⟩⟩ := decide_eq_ok h
  · exact ⟨rfl, rfl⟩
  · obtain ⟨res, l₂, target, stop, tp, ids, heval, -, hsubmit, -⟩ := act_eq_ok hact
    obtain ⟨ctx, k, switch, -, -, -, -, -, rfl⟩ := evaluate_eq_ok heval
    obtain ⟨hportfolio, hfsm⟩ := submit_untouched hsubmit
    rw [hportfolio, hfsm]
    exact ⟨rfl, rfl⟩

end TradingLoop

/-! ### The orders of a decision -/

/-- A target that the broker takes: it is flat or on another side than the position, a whole
    number of lots, and large enough at the last close. -/
structure Target (l : TradingLoop) (st : InstState) (p : Plan) (target : Decimal) : Prop where
  side : target ≠ 0 → sign target ≠ sign p.position
  lot : IsMultiple l.instrument.stepSize.1 target
  large : target ≠ 0 → ∀ c, st.lastClose = some c → l.instrument.minNotional ≤ |target| * c
  price : ∀ c, st.lastClose = some c → 0 ≤ c

/-- **The plan waits for what was sent**: nothing without an order; else the market order, the
    first of the ids, closes the position or takes it to the target. -/
inductive Asks (p : Plan) (ids : List Uuid) (target : Decimal) : Prop
  | nothing (hids : ids = []) (hp : p.pending = .idle)
  | close {c : Uuid} (hids : ids.head? = some c) (hp : p.pending = .close c) (h0 : target = 0)
  | opening {c : Uuid} {s : Option Protection} {d : ℤ} (hids : ids.head? = some c)
      (hp : p.pending = .opening c target s d)

namespace Represents

variable {l l' : TradingLoop} {st : InstState} {p : Plan} {target : Decimal} {d closeNs : ℤ}

/-- The position is a multiple of the lot. -/
theorem lot_position (h : Represents l st p) : IsMultiple l.instrument.stepSize.1 p.position := by
  by_cases hpos : p.position = 0
  · rw [hpos]
    exact .zero _
  · obtain ⟨_, -, hlot⟩ := h.lots.held hpos
    exact hlot

/-- The market order of a decision moves the position to its target, and is sendable. -/
theorem marketRequest_sendable (h : Represents l st p) (ht : Target l st p target)
    (hne : target - p.position ≠ 0) (hclock : closeNs ≤ l.clock.t) :
    Sendable l st (l.marketRequest d closeNs p.position target) ∧
      (l.marketRequest d closeNs p.position target).qty = |target - p.position| := by
  have hlot := (ht.lot.sub h.lot_position).abs
  have hqty : (l.marketRequest d closeNs p.position target).qty = |target - p.position| :=
    floorQty_of_isMultiple hlot
  refine ⟨⟨rfl, rfl, ?_, ?_, ?_, rfl, hclock⟩, hqty⟩
  · rw [hqty]
    exact abs_pos.mpr hne
  · rw [hqty]
    exact hlot
  · by_cases h0 : target = 0
    · left
      exact decide_eq_true (.inl (sign_eq_zero_iff.mpr h0))
    · right
      intro c hc
      rw [hqty]
      exact (ht.large h0 c hc).trans
        (mul_le_mul_of_nonneg_right (abs_le_abs_sub h0 (ht.side h0)) (ht.price c hc))

/-- The stop order of a new position is sendable. -/
theorem stopRequest_sendable (ht : Target l st p target) (h0 : target ≠ 0) {stop : Decimal}
    (hstop : 0 < stop ∧ quantizePrice stop l.instrument.tickSize = stop)
    (hclock : closeNs ≤ l.clock.t) : Sendable l st (l.stopRequest d closeNs target stop) where
  id := rfl
  instrument := rfl
  pos := abs_pos.mpr h0
  lot := ht.lot.abs
  large := .inl rfl
  stop := by
    unfold PaperBroker.quantizedStop TradingLoop.stopRequest
    dsimp only
    rw [hstop.2, if_neg (not_le.mpr hstop.1)]
  created := hclock

/-- A flat target closes the position. -/
theorem submit_close (h : Represents l st p) (hidle : p.pending = .idle)
    (ht : Target l st p 0) (hclock : closeNs ≤ l.clock.t) (hpos : p.position ≠ 0)
    {action : Action} (reason : ExitReason)
    (hrole : action.role ≠ Action.enter.role ∧ action.role ≠ Action.flip.role) :
    ∃ st', Represents (l.submitMarket d closeNs p.position 0 action reason) st'
        (p.closing l.nextId hpos) ∧
      Sends l (l.submitMarket d closeNs p.position 0 action reason) d [l.nextId] ∧
      st'.lastOpenNs = st.lastOpenNs := by
  have hne : (0 : Decimal) - p.position ≠ 0 := by
    rw [zero_sub]
    exact neg_ne_zero.mpr hpos
  obtain ⟨hr, hqty⟩ := h.marketRequest_sendable (d := d) ht hne hclock
  obtain ⟨st', hs⟩ := send_spec h hr d action.role
    (if sign p.position ≠ 0 then some reason else none)
  refine ⟨st', h.submitClose hidle hr hs hpos rfl ?_ ?_ ?_ hrole, h.sends hr d _ _,
    hs.lastOpen⟩
  · simp [TradingLoop.marketRequest]
  · change (if 0 < 0 - p.position then Side.long else .short) = _
    rw [side_of_sign hne, zero_sub, sign_neg]
  · rw [hqty, zero_sub, abs_neg]

/-- A target on a new side opens a position, with its stop. -/
theorem submit_open (h : Represents l st p) (hidle : p.pending = .idle)
    (ht : Target l st p target) (hclock : closeNs ≤ l.clock.t) (h0 : target ≠ 0)
    (action : Action) (reason : ExitReason) {stop : Option Decimal} (tp : Option Decimal)
    (hstop : ∀ x, stop = some x → 0 < x ∧ quantizePrice x l.instrument.tickSize = x)
    {l₂ : TradingLoop}
    (hl₂ : l₂ = { l.submitMarket d closeNs p.position target action reason with
      entries := (l.submitMarket d closeNs p.position target action reason).entries.insert
        l.nextId ⟨d, stop, tp⟩ }) :
    ∃ st' s, Represents (l₂.submitStop d closeNs target stop) st'
        (p.opening l.nextId target s d ⟨h0, opposite_of_ne h0 (ht.side h0)⟩) ∧
      Sends l (l₂.submitStop d closeNs target stop) d
        (l.nextId :: if stop.isSome then [l₂.nextId] else []) ∧ st'.lastOpenNs = st.lastOpenNs ∧
      s.map Protection.price = stop ∧ ∀ x ∈ s, x.decisionNs = d := by
  have hne : target - p.position ≠ 0 := by
    intro hzero
    exact ht.side h0 (congrArg sign (sub_eq_zero.mp hzero))
  have hside := ht.side h0
  have hsign : sign target ≠ 0 := fun hs => h0 (sign_eq_zero_iff.mp hs)
  obtain ⟨hr, hqty⟩ := h.marketRequest_sendable (d := d) ht hne hclock
  obtain ⟨st₁, hs⟩ := send_spec h hr d action.role
    (if sign p.position ≠ 0 then some reason else none)
  have hopp := opposite_of_ne h0 hside
  have h₂ : Represents l₂ st₁ (p.opening l.nextId target none d ⟨h0, hopp⟩) := by
    rw [hl₂]
    refine h.submitOpen hidle hr hs ⟨h0, hopp⟩ ht.lot rfl ?_ ?_ hqty ⟨d, stop, tp⟩ rfl
    · refine decide_eq_false ?_
      rintro (hz | ⟨hsame, -⟩)
      · exact hsign hz
      · exact hside hsame
    · exact side_of_sign hne
  have hk₂ : Sends l l₂ d [l.nextId] := by
    rw [hl₂]
    exact (h.sends hr d action.role _).insert_entry l.nextId rfl
  unfold TradingLoop.submitStop
  cases stop with
  | none => exact ⟨st₁, none, h₂, hk₂, hs.lastOpen, rfl, fun _ hx => by cases hx⟩
  | some x =>
    have ht₂ : Target l₂ st₁ (p.opening l.nextId target none d ⟨h0, hopp⟩) target :=
      ⟨ht.side, hk₂.instrument ▸ ht.lot, fun h0 c hc => by
        rw [hk₂.instrument]
        exact ht.large h0 c (hs.lastClose ▸ hc), fun c hc => ht.price c (hs.lastClose ▸ hc)⟩
    have hr₂ : Sendable l₂ st₁ (l₂.stopRequest d closeNs target x) :=
      stopRequest_sendable ht₂ h0 (by rw [hk₂.instrument]; exact hstop x rfl)
        (by rw [hk₂.clock]; exact hclock)
    obtain ⟨st', hs₂⟩ := send_spec h₂ hr₂ d "stop" (some .stop)
    exact ⟨st', some ⟨l₂.nextId, x, d⟩, h₂.submitStop hr₂ hs₂ rfl rfl rfl rfl rfl,
      hk₂.trans (h₂.sends hr₂ d _ _), hs₂.lastOpen.trans hs.lastOpen, rfl,
      fun y hy => by cases hy; rfl⟩

/-- **The orders of a decision** take the plan to the one that was decided. -/
theorem submit (h : Represents l st p) (hidle : p.pending = .idle) (ht : Target l st p target)
    (hclock : closeNs ≤ l.clock.t) {halted : Bool} (hhalted : halted = true → target = 0)
    {action : Action} {reason : ExitReason} {stop tp : Option Decimal} {ids : List Uuid}
    (hrole : target = 0 → p.position ≠ 0 →
      action.role ≠ Action.enter.role ∧ action.role ≠ Action.flip.role)
    (hstop : ∀ x, stop = some x → 0 < x ∧ quantizePrice x l.instrument.tickSize = x)
    (hl : l.submit d closeNs p.position target action reason stop tp = .ok (ids, l')) :
    ∃ st' p', Represents l' st' p' ∧ Sends l l' d ids ∧ st'.lastOpenNs = st.lastOpenNs ∧
      Plan.Decide halted d p p' ∧
      (∀ c t s d', p'.pending = .opening c t s d' → t = target ∧ s.map Protection.price = stop) ∧
      Asks p' ids target := by
  unfold TradingLoop.submit at hl
  split at hl
  -- nothing to be done: the target is the position, so that both are zero
  · rename_i hzero
    cases hl
    have heq : target = p.position := sub_eq_zero.mp hzero
    have hpos : p.position = 0 := by
      by_contra hpos
      rw [← heq] at hpos
      exact ht.side hpos (congrArg sign heq)
    refine ⟨st, p, h, .refl l d, rfl, .nothing fun _ => hpos, fun c t s d' hp => ?_,
      .nothing rfl hidle⟩
    rw [hidle] at hp
    cases hp
  · rename_i hne
    dsimp only at hl
    split at hl
    · rename_i hopens
      unfold TradingLoop.opensNew at hopens
      have h0 : target ≠ 0 := sign_ne_of_ne_zero (of_decide_eq_true hopens).1
      rw [bind_eq_ok] at hl
      obtain ⟨broker, htp, hl⟩ := hl
      cases hl
      obtain ⟨st₁, s, h₁, hk₁, hlast₁, hprice, hdns⟩ :=
        h.submit_open hidle ht hclock h0 action reason tp hstop rfl
      obtain ⟨st₂, h₂, hlast₂⟩ := h₁.setTakeProfit htp
      refine ⟨st₂, _, h₂, hk₁.setTakeProfit htp,
        hlast₂.trans hlast₁, .opening ?_ _ hdns, fun c t s' d' hp => ?_, .opening rfl rfl⟩
      · -- a halted decision has no target
        by_contra hh
        exact h0 (hhalted (by simpa using hh))
      · cases hp
        exact ⟨rfl, hprice⟩
    -- no new side: the target can only be zero, and the position is closed
    · rename_i hopens
      cases hl
      have h0 : target = 0 := by
        by_contra h0
        refine hopens (decide_eq_true ⟨?_, ht.side h0⟩)
        exact fun hs => h0 (sign_eq_zero_iff.mp hs)
      subst h0
      have hpos : p.position ≠ 0 := by
        rintro hpos
        exact hne (by rw [hpos, sub_zero])
      obtain ⟨st₁, h₁, hk₁, hlast₁⟩ := h.submit_close hidle ht hclock hpos reason
        (hrole rfl hpos)
      exact ⟨st₁, _, h₁, hk₁, hlast₁, .close hpos, (fun c t s d' hp => by cases hp),
        .close rfl rfl rfl⟩

/-! ### The fourth part of a step -/

/-- The intent of a loop that represents the plan: which side it wants, and how much of it. -/
theorem act (h : Represents l st p) (hidle : p.pending = .idle) {inp : StepInput}
    {equity : Decimal} {it : TradingLoop.Intent} {sz : SizingResult} {side : Side} {halted : Bool}
    {D : DecisionEntry} (hclose : st.lastClose = some inp.bar.c)
    (hclock : inp.closeNs ≤ l.clock.t) (hcur : it.cur = p.position)
    (hqty : 0 ≤ sz.qty) (hdesired : it.desired = if halted then 0 else side.toInt)
    (hreq : it.requested = if it.desired = 0 then 0 else sz.qty * it.desired)
    (hside : it.desired ≠ it.curSide) (hl : l.act inp equity it sz = .ok (D, l')) :
    ∃ st' p', Represents l' st' p' ∧
      Sends { l with fsm := l'.fsm } l' inp.bar.openTimeNs D.orderIds ∧
      l'.fsm.state = l.fsm.state ∧ st'.lastOpenNs = st.lastOpenNs ∧
      Plan.Decide halted inp.bar.openTimeNs p p' ∧ D.openTimeNs = inp.bar.openTimeNs ∧
      (∀ c t s d, p'.pending = .opening c t s d →
        D.stopPrice = s.map Protection.price ∧ t = D.targetSide * D.targetQty) ∧
      Asks p' D.orderIds (D.targetSide * D.targetQty) := by
  obtain ⟨res, l₁, target, stop, tp, ids, heval, htarget, hsubmit, hstop, hopen, hDstop, hDside,
    hDqty, hDids⟩ := TradingLoop.act_eq_ok hl
  obtain ⟨ctx, k, switch, hprice, hctxcur, hctxtarget, hstep, hres, hl₁⟩ :=
    TradingLoop.evaluate_eq_ok heval
  have h₁ : Represents l₁ st p := by
    rw [hl₁]
    exact { h with }
  have hk₁ : Sends { l with fsm := l₁.fsm } l₁ inp.bar.openTimeNs [] := by
    rw [hl₁]
    exact .refl _ _
  have hstate : l₁.fsm.state = l.fsm.state := by rw [hl₁]
  -- the request is on the side that is wanted, and what is approved is on its side
  have hrequested := TradingLoop.requested_side hqty hdesired hreq
  obtain ⟨happ, hbound⟩ := approved_bounds hres
  rw [hctxtarget] at happ hbound
  have hnew : ctx.targetQty = 0 ∨ sign ctx.targetQty ≠ sign ctx.currentQty := by
    rw [hctxtarget, hctxcur]
    refine hrequested.imp_right fun hs => ?_
    rw [hs]
    exact hside
  have hlot := approved_lot hres hstep hnew
  have hcases := l₁.largeEnough_cases res.approvedQty inp.bar.c
  rw [← htarget] at hcases
  have ht : Target l₁ st p target := by
    refine ⟨fun h0 => ?_, ?_, fun h0 c hc => ?_, fun c hc => ?_⟩
    · obtain ⟨heq, -⟩ := hcases.resolve_left h0
      rw [heq] at h0 ⊢
      have hs := happ.resolve_left h0
      have hreq0 : it.requested ≠ 0 := fun hz => h0 (sign_eq_zero_iff.mp (by
        rw [hs, hz, sign_zero]))
      rw [hs, hrequested.resolve_left hreq0, ← hcur]
      exact hside
    · rcases hcases with hz | ⟨heq, -⟩
      · rw [hz]
        exact .zero _
      · rw [heq, hk₁.instrument]
        exact hlot
    · rw [hclose] at hc
      cases hc
      obtain ⟨heq, hlarge⟩ := hcases.resolve_left h0
      rw [heq]
      exact hlarge
    · rw [hclose] at hc
      cases hc
      exact hprice.le
  have hhalted : halted = true → target = 0 := by
    intro hh
    have hdes : it.desired = 0 := by rw [hdesired, if_pos hh]
    rw [if_pos hdes] at hreq
    rw [hreq, abs_zero] at hbound
    have hzero : res.approvedQty = 0 := abs_eq_zero.mp (le_antisymm hbound (abs_nonneg _))
    rcases hcases with hz | ⟨heq, -⟩
    · exact hz
    · exact heq.trans hzero
  rw [hcur] at hsubmit
  obtain ⟨st', p', h', hk', hlast, hdec, hpending, hasks⟩ := h₁.submit hidle ht
    (by rw [hk₁.clock]; exact hclock) hhalted
    (fun h0 hpos => by
      rw [h0]
      exact TradingLoop.actionOf_close hpos) hstop hsubmit
  refine ⟨st', p', h', ?_, ?_, hlast, hdec, hopen, fun c t s d hp => ?_, ?_⟩
  · rw [hk'.fsm, hDids]
    exact hk₁.trans hk'
  · rw [hk'.fsm]
    exact hstate
  · obtain ⟨rfl, hs⟩ := hpending c t s d hp
    refine ⟨hDstop.trans hs.symm, ?_⟩
    rw [hDside, hDqty, sign_mul_abs]
  · rw [hDids, hDside, hDqty, sign_mul_abs]
    exact hasks

/-- **The decision** carries out `Plan.Decide`, and says what it opens. -/
theorem decide (h : Represents l st p) (hidle : p.pending = .idle) {inp : StepInput}
    {equity : Decimal} {D : DecisionEntry} (hclose : st.lastClose = some inp.bar.c)
    (hclock : inp.closeNs ≤ l.clock.t) (hl : l.decide inp equity = .ok (D, l')) :
    ∃ st' p', Represents l' st' p' ∧
      Sends { l with fsm := l'.fsm } l' inp.bar.openTimeNs D.orderIds ∧
      l'.fsm.state = l.fsm.state ∧ st'.lastOpenNs = st.lastOpenNs ∧
      Plan.Decide l.latched inp.bar.openTimeNs p p' ∧ D.openTimeNs = inp.bar.openTimeNs ∧
      (∀ c t s d, p'.pending = .opening c t s d →
        D.stopPrice = s.map Protection.price ∧ t = D.targetSide * D.targetQty) ∧
      Asks p' D.orderIds (D.targetSide * D.targetQty) := by
  obtain ⟨it, gate, hintend, hl⟩ := TradingLoop.decide_eq_ok hl
  obtain ⟨_, side, -, hcur, hdesired, hnone, hsome⟩ := TradingLoop.intend_eq_ok hintend
  rw [h.qty] at hcur
  have h₁ : Represents { l with gate := gate } st p := { h with }
  -- without an order nothing changes; a latched loop sends none only when it is flat
  have hhold : (l.latched = true → p.position = 0) → D = TradingLoop.holdEntry inp it →
      l' = { l with gate := gate } → ∃ st' p', Represents l' st' p' ∧
        Sends { l with fsm := l'.fsm } l' inp.bar.openTimeNs D.orderIds ∧
        l'.fsm.state = l.fsm.state ∧
        st'.lastOpenNs = st.lastOpenNs ∧ Plan.Decide l.latched inp.bar.openTimeNs p p' ∧
        D.openTimeNs = inp.bar.openTimeNs ∧ (∀ c t s d, p'.pending = .opening c t s d →
          D.stopPrice = s.map Protection.price ∧ t = D.targetSide * D.targetQty) ∧
        Asks p' D.orderIds (D.targetSide * D.targetQty) := by
    rintro hflat rfl rfl
    refine ⟨st, p, h₁, { Sends.refl l inp.bar.openTimeNs with
        sent := fun _ hx => by cases hx }, rfl, rfl, .nothing hflat, rfl, fun c t s d hp => ?_,
      .nothing rfl hidle⟩
    rw [hidle] at hp
    cases hp
  have hflat : it.desired = it.curSide → l.latched = true → p.position = 0 := by
    intro hside hlatched
    rw [hdesired, if_pos hlatched, TradingLoop.Intent.curSide, hcur] at hside
    exact sign_eq_zero_iff.mp hside.symm
  rcases hl with ⟨hD, hl', hstay⟩ | ⟨sz, hsz, hmove, hl⟩
  · refine hhold (fun hlatched => ?_) hD hl'
    cases hsz : it.sizing with
    | none => exact hflat (hnone hsz) hlatched
    | some sz =>
      rcases hstay sz hsz with hside | hsame
      · exact hflat hside hlatched
      · have hreq := (hsome sz hsz).2
        rw [hdesired, if_pos hlatched, if_pos rfl, hsame, hcur] at hreq
        exact hreq
  · obtain ⟨hsize, hreq⟩ := hsome sz hsz
    obtain ⟨st', p', h', hk, hrest⟩ := h₁.act hidle hclose hclock hcur
      (PositionSizer.size_eq_ok hsize).1 hdesired hreq hmove hl
    exact ⟨st', p', h', { hk with }, hrest⟩

/-- **The fourth part of a step**: a decision, from the first index on that allows one. -/
theorem decideBar (h : Represents l st p) (hidle : p.pending = .idle) {inp : StepInput}
    {equity : Decimal} {decision : Option DecisionEntry} (hclose : st.lastClose = some inp.bar.c)
    (hclock : inp.closeNs ≤ l.clock.t) (hl : l.decideBar inp equity = .ok (decision, l')) :
    ∃ st' p', Represents l' st' p' ∧
      Sends { l with fsm := l'.fsm } l' inp.bar.openTimeNs
        (decision.elim [] DecisionEntry.orderIds) ∧
      l'.fsm.state = l.fsm.state ∧ st'.lastOpenNs = st.lastOpenNs ∧
      Plan.Decide (l.latched && decision.isSome) inp.bar.openTimeNs p p' ∧
      (∀ D, decision = some D → D.openTimeNs = inp.bar.openTimeNs) ∧
      (∀ c t s d, p'.pending = .opening c t s d → ∃ D, decision = some D ∧
        D.stopPrice = s.map Protection.price ∧ t = D.targetSide * D.targetQty) ∧
      ∀ D, decision = some D → Asks p' D.orderIds (D.targetSide * D.targetQty) := by
  unfold TradingLoop.decideBar at hl
  -- a decision was asked for
  split at hl
  · rw [bind_eq_ok] at hl
    obtain ⟨⟨D, l₁⟩, hdecide, hl⟩ := hl
    cases hl
    obtain ⟨st', p', h', hk, hstate, hlast, hdec, hopen, hpending, hasks⟩ :=
      h.decide hidle hclose hclock hdecide
    refine ⟨st', p', h', hk, hstate, hlast, ?_, fun D' hD' => ?_, fun c t s d hp =>
      ⟨D, rfl, hpending c t s d hp⟩, fun D' hD' => ?_⟩
    · rw [Option.isSome_some, Bool.and_true]
      exact hdec
    · cases hD'
      exact hopen
    · cases hD'
      exact hasks
  -- before the first decision the plan stays as it is
  · cases hl
    refine ⟨st, p, h, .refl l _, rfl, rfl, .nothing fun hh => ?_, (fun D hD => by cases hD),
      fun c t s d hp => ?_, fun D hD => by cases hD⟩
    · simp at hh
    · rw [hidle] at hp
      cases hp

end Represents

end FuzzHelm
