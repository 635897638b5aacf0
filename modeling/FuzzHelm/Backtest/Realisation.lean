import FuzzHelm.Backtest.FundingRate
import FuzzHelm.Backtest.LoopRun

namespace FuzzHelm

open Lib

/-!
# Execution realises the target

What a decision approves passes through an order, the queue of the broker and the open of the
next bar.  The position after the market orders of that bar is the one that was approved.

* `TradingLoop.marketPosition` — the position right after the market orders of a bar;
* `Awaited` — the plan behind a run waits for what its last decision has sent;
* `SizedBy` — a new position is no larger than its size;
* `target_realised` — the law.
-/

/-! ### The market orders of a bar -/

namespace TradingLoop

/-- **The position right after the market orders** of the next bar: what comes before the bar,
    and the first part of what the broker does on it. -/
def marketPosition (l : TradingLoop) (inp : StepInput) : Except PyError Decimal := do
  let l₁ ← l.beginBar inp
  let st ← l₁.broker.require inp.bar.instrument
  let b ← (l₁.broker.book st).fillMarketOrders inp.bar
  return b.st.position

/-- The latch has cancelled the market order of the decision, the first of its orders, at the
    loop `l₁` that a step sends to the bar. -/
def Cancelled (l₁ : TradingLoop) (D : DecisionEntry) : Prop :=
  ∃ c o, D.orderIds.head? = some c ∧ l₁.broker.orders.get? c = some o ∧ o.status = .canceled ∧
    o.req.otype = .market ∧ o.req.reduceOnly = false

end TradingLoop

/-- **What the decision `D` has become** when the position after the market orders of the next
    bar, which finds the loop `l` and sends `l₁` to the broker, is `x`. -/
structure Realised (D : DecisionEntry) (l l₁ : TradingLoop) (x : Decimal) : Prop where
  unsent : D.orderIds = [] → x = l.positionQty
  cancelled : l₁.Cancelled D → l.latched = true ∧ x = l.positionQty
  executed : D.orderIds ≠ [] → ¬l₁.Cancelled D → x = D.targetSide * D.targetQty

namespace PaperBroker

variable {pb pb' : PaperBroker} {c x : Uuid} {o : Order}

/-- A cancellation leaves an order alone that is final. -/
theorem cancel_final {done : Bool} (ho : pb.orders.get? c = some o) (hfinal : o.status ≠ .new)
    (h : pb.cancel x = .ok (done, pb')) : pb'.orders.get? c = some o := by
  unfold cancel at h
  split at h
  · cases h
    exact ho
  · rename_i ox hx
    split at h
    · cases h
      exact ho
    · rename_i hnew
      obtain ⟨st, -, h⟩ := bind_eq_ok.mp h
      cases h
      refine (Dict.get?_insert_of_ne _ _ ?_).trans ho
      rintro rfl
      rw [ho] at hx
      cases hx
      exact hnew hfinal

end PaperBroker

namespace TradingLoop

variable {l l' : TradingLoop} {c : Uuid} {o : Order}

/-- An order at its end is not cancelled with the stops. -/
theorem cancelStops_final {cancelled : List (Option ℤ)} {cs : List Uuid}
    (ho : l.broker.orders.get? c = some o) (hfinal : o.status ≠ .new)
    (h : cancelStops cancelled cs l = .ok l') : l'.broker.orders.get? c = some o := by
  induction cs generalizing l with
  | nil =>
    cases h
    exact ho
  | cons x cs ih =>
    rw [cancelStops] at h
    obtain ⟨record, -, h⟩ := bind_eq_ok.mp h
    split at h
    · obtain ⟨⟨done, broker⟩, hcancel, h⟩ := bind_eq_ok.mp h
      have hkept := PaperBroker.cancel_final ho hfinal hcancel
      exact ih (l := { l with broker := broker }) hkept h
    · exact ih ho h

end TradingLoop

namespace Represents

variable {l l' : TradingLoop} {st : InstState} {p : Plan}

/-- **The latch cancels** the market order of a pending opening. -/
theorem latch_cancels (h : Represents l st p) {c : Uuid} {target : Decimal}
    {s : Option Protection} {d : ℤ} (hp : p.pending = .opening c target s d)
    (hl : l.cancelPendingIncreases = .ok l') :
    ∃ o, l'.broker.orders.get? c = some o ∧ o.status = .canceled ∧ o.req.otype = .market ∧
      o.req.reduceOnly = false := by
  obtain ⟨⟨cancelled, l₁⟩, hentries, hl⟩ := bind_eq_ok.mp hl
  obtain ⟨o, ho, hnew, htype, hred, rfl, rfl⟩ := h.cancelEntries_opening hp hentries
  dsimp only at hl
  rw [if_neg (List.cons_ne_nil _ _)] at hl
  obtain ⟨l₂, hstops, hl⟩ := bind_eq_ok.mp hl
  obtain ⟨broker, htp, hl⟩ := bind_eq_ok.mp hl
  cases hl
  have hkept := TradingLoop.cancelStops_final (c := c) (o := { o with status := .canceled })
    (Dict.get?_insert_self ..) (by simp) hstops
  obtain ⟨st₂, -, htp⟩ := bind_eq_ok.mp htp
  split at htp
  · cases htp
  · cases htp
    exact ⟨_, hkept, rfl, htype, hred⟩

/-- The first part of a latched step cancels a pending opening. -/
theorem beginBar_cancels (h : Represents l st p) (hlatched : l.latched = true) {c : Uuid}
    {target : Decimal} {s : Option Protection} {d : ℤ}
    (hp : p.pending = .opening c target s d) {inp : StepInput} (hl : l.beginBar inp = .ok l') :
    ∃ o, l'.broker.orders.get? c = some o ∧ o.status = .canceled ∧ o.req.otype = .market ∧
      o.req.reduceOnly = false := by
  obtain ⟨clock, hclock, hl⟩ := bind_eq_ok.mp hl
  obtain ⟨hle, rfl⟩ := ManualClock.set_eq_ok.mp hclock
  have h₁ := h.setClock ⟨inp.bar.openTimeNs⟩ hle
  have hpass : ∃ l₂ st₂, Represents l₂ st₂ p ∧ l₂.latched = true ∧
      (if l₂.latched then l₂.cancelPendingIncreases else .ok l₂) = .ok l' := by
    dsimp only at hl
    split at hl
    · exact ⟨_, st, h₁, hlatched, hl⟩
    · obtain ⟨l₂, hrate, hl⟩ := bind_eq_ok.mp hl
      obtain ⟨st₂, h₂, hkeeps, -⟩ := h₁.applyFundingRate hrate
      refine ⟨l₂, st₂, h₂, ?_, hl⟩
      rw [TradingLoop.latched, hkeeps.fsm]
      exact hlatched
  obtain ⟨l₂, st₂, h₂, hlatched₂, hl⟩ := hpass
  rw [if_pos hlatched₂] at hl
  exact h₂.latch_cancels hp hl

/-- **The market orders of a bar** carry out what is pending. -/
theorem market (h : Represents l st p) {bar : DecBar} (hclock : l.clock.t ≤ bar.openTimeNs)
    {b : Book} (hb : (l.broker.book st).fillMarketOrders bar = .ok b) :
    ∃ p' fs, Plan.Market p fs p' ∧ b.st.position = p'.position := by
  obtain ⟨p', fs, hmarket, hcarries, -⟩ := Carries.fillMarketOrders (b := l.broker.book st)
    h.carries (h.book.sound h.inst) (fun c hq o ho => by
      -- what waits in the market queue is live, so it is not younger than the bar
      obtain ⟨o', ho', hnew, -⟩ := (h.book.live _ st h.inst c).mpr (.inl hq)
      rw [show l.broker.orders.get? c = some o from ho] at ho'
      cases ho'
      exact (h.times c o ho hnew).trans hclock) hb
  exact ⟨p', fs, hmarket, hcarries.position⟩

end Represents

/-! ### The target is executed -/

section

variable {l l' : TradingLoop} {p : Plan} {inp : StepInput} {r : StepResult} {D : DecisionEntry}

/-- **One step** realises what the plan has been asked for. -/
theorem Follows.realised (h : Follows l p)
    (hasks : Asks p D.orderIds (D.targetSide * D.targetQty)) (hl : l.step inp = .ok (r, l')) :
    ∃ l₁ x, l.beginBar inp = .ok l₁ ∧ l.marketPosition inp = .ok x ∧ Realised D l l₁ x := by
  have hqty := h.qty
  obtain ⟨st, hrep, -⟩ := h.represents
  obtain ⟨-, -, -, -, l₁, l₂, broker, hbegin, hbar, -⟩ := TradingLoop.step_eq_ok hl
  obtain ⟨st₁, h₁, -, hclock, -⟩ := hrep.beginBar h.dated hbegin
  obtain ⟨st₀, b, hst, -, hb, -⟩ := PaperBroker.onBar_eq_ok hbar
  have hsym := h₁.single _ st₀ hst
  have hst₁ : l₁.broker.state.get? inp.bar.instrument = some st₁ := by
    rw [hsym]
    exact h₁.inst
  rw [hst₁] at hst
  cases hst
  obtain ⟨b₁, -, hb₁, -⟩ := Book.runBar_eq_ok hb
  obtain ⟨p₁, fs, hmarket, hx⟩ := h₁.market hclock.le hb₁
  have hposition : l.marketPosition inp = .ok b₁.st.position :=
    bind_eq_ok.mpr ⟨l₁, hbegin, bind_eq_ok.mpr ⟨st₁, PaperBroker.require_eq_ok.mpr hst₁,
      bind_eq_ok.mpr ⟨b₁, hb₁, rfl⟩⟩⟩
  refine ⟨l₁, b₁.st.position, hbegin, hposition, ?_⟩
  rw [hx]
  -- a market order that is still live has not been cancelled
  have hlive : ∀ {c o}, D.orderIds.head? = some c → l₁.broker.orders.get? c = some o →
      o.status = .new → ¬l₁.Cancelled D := by
    rintro c o hc ho hnew ⟨c', o', hc', ho', hgone, -⟩
    rw [hc] at hc'
    cases hc'
    rw [ho] at ho'
    cases ho'
    rw [hnew] at hgone
    cases hgone
  cases hasks with
  | nothing hids hp =>
    have hlatch : (if l.latched then p.latch else p) = p := by
      simp [Plan.latch, hp]
    rw [hlatch] at hmarket
    have hkept : p₁.position = l.positionQty := by
      rw [hqty]
      cases hmarket with
      | idle => rfl
      | close h' => rw [hp] at h'; cases h'
      | opening h' => rw [hp] at h'; cases h'
    refine ⟨fun _ => hkept, fun ⟨c, o, hc, _⟩ => ?_, fun hne _ => absurd hids hne⟩
    rw [hids] at hc
    cases hc
  | @close c hids hp h0 =>
    have hlatch : (if l.latched then p.latch else p) = p := by
      simp [Plan.latch, hp]
    rw [hlatch] at hmarket h₁
    obtain ⟨o, ho, hnew, -⟩ := h₁.carries.close c hp
    refine ⟨fun hnil => ?_, fun hc => absurd hc (hlive hids ho hnew), fun _ _ => ?_⟩
    · rw [hnil] at hids
      cases hids
    · rw [h0]
      cases hmarket with
      | idle h' => rw [hp] at h'; cases h'
      | close => rfl
      | opening h' => rw [hp] at h'; cases h'
  | @opening c s d hids hp =>
    have hsent : D.orderIds = [] → p₁.position = l.positionQty := by
      intro hnil
      rw [hnil] at hids
      cases hids
    by_cases hlatched : l.latched = true
    · -- the latch has cancelled the entry, and the bar finds nothing to do
      obtain ⟨o, ho, hgone, htype, hred⟩ := hrep.beginBar_cancels hlatched hp hbegin
      have hkept : p₁.position = l.positionQty := by
        rw [if_pos hlatched, Plan.latch, hp] at hmarket
        rw [hqty]
        cases hmarket with
        | idle => rfl
        | close h' => cases h'
        | opening h' => cases h'
      exact ⟨hsent, fun _ => ⟨hlatched, hkept⟩,
        fun _ hno => absurd ⟨c, o, hids, ho, hgone, htype, hred⟩ hno⟩
    · rw [if_neg hlatched] at hmarket h₁
      obtain ⟨o, ho, hnew, -⟩ := (h₁.carries.opening c _ s d hp).1
      refine ⟨hsent, fun hc => absurd hc (hlive hids ho hnew), fun _ _ => ?_⟩
      cases hmarket with
      | idle h' => rw [hp] at h'; cases h'
      | close h' => rw [hp] at h'; cases h'
      | opening h' =>
        rw [hp] at h'
        cases h'
        rfl

/-! ### The size of a new position -/

/-- **A quantity within its size**: the sizer gives a quantity that is no smaller, and itself no
    larger than the floored bound. -/
def SizedBy (cfg : SizingCfg) (inp : SizingInput) (qty : Decimal) : Prop :=
  ∃ sz, PositionSizer.size cfg inp = .ok sz ∧ qty ≤ sz.qty ∧
    sz.qty ≤ floorQty (inp.kappaMode * min (min sz.qAtr sz.qVt) sz.qLev) inp.stepSize

/-- The decision opens a position on a new side. -/
def DecisionEntry.Opens (D : DecisionEntry) : Prop :=
  D.targetSide ≠ 0 ∧ D.targetSide ≠ sign D.currentQty

namespace TradingLoop

variable {it : Intent} {sz : SizingResult} {equity : Decimal}

/-- What is approved is no larger than what was requested. -/
theorem act_le_requested (h : l.act inp equity it sz = .ok (D, l')) :
    D.targetQty ≤ |it.requested| := by
  obtain ⟨res, l₁, target, stop, tp, ids, heval, htarget, -, -, -, -, -, hqty, -⟩ := act_eq_ok h
  obtain ⟨ctx, k, switch, -, -, hrequested, -, hres, -⟩ := evaluate_eq_ok heval
  have hbound := (approved_bounds hres).2
  rw [hrequested] at hbound
  rw [hqty]
  rcases l₁.largeEnough_cases res.approvedQty inp.bar.c with hz | ⟨heq, -⟩
  · rw [htarget, hz, abs_zero]
    exact abs_nonneg _
  · rw [htarget, heq]
    exact hbound

/-- The side that is wanted is a side. -/
theorem abs_desired_le {halted : Bool} {side : Side} {desired : ℤ}
    (h : desired = if halted then 0 else side.toInt) : |(desired : ℚ)| ≤ 1 := by
  subst h
  cases halted <;> cases side <;> norm_num [Side.toInt]

/-- **A decision that opens a position** stays within its size. -/
theorem decide_sized (h : l.decide inp equity = .ok (D, l')) (hopens : D.Opens) :
    SizedBy l.cfg.sizing (l.sizingInput inp equity) D.targetQty := by
  obtain ⟨it, gate, hintend, ⟨rfl, -⟩ | ⟨sz, hsz, -, hact⟩⟩ := decide_eq_ok h
  · -- a decision without an order opens nothing
    exact absurd rfl hopens.2
  · obtain ⟨_, side, -, -, hdesired, hnone, hsome⟩ := intend_eq_ok hintend
    obtain ⟨hsize, hrequested⟩ := hsome sz hsz
    have hqty := (PositionSizer.size_eq_ok hsize).1
    refine ⟨sz, hsize, (act_le_requested hact).trans ?_, PositionSizer.size_le_floored hsize⟩
    rw [hrequested]
    split
    · rw [abs_zero]
      exact hqty
    · rw [abs_mul, abs_of_nonneg hqty]
      exact mul_le_of_le_one_right hqty (abs_desired_le hdesired)

/-- **The decision of a step** that opens a position stays within its size, at the risk mode of
    the step. -/
theorem step_sized (h : l.step inp = .ok (r, l')) (hD : r.decision = some D)
    (hopens : D.Opens) : SizedBy l'.cfg.sizing (l'.sizingInput inp r.equity) D.targetQty := by
  -- only the last part of the step sizes, and it reads the account of the valued bar
  obtain ⟨l₁, -, h⟩ := bind_eq_ok.mp h
  obtain ⟨⟨fills, charges, acc, updates, l₂⟩, -, h⟩ := bind_eq_ok.mp h
  obtain ⟨⟨equity, tr, l₃⟩, -, h⟩ := bind_eq_ok.mp h
  obtain ⟨⟨decision, l₄⟩, hdecide, h⟩ := bind_eq_ok.mp h
  cases h
  dsimp only at hD
  subst hD
  unfold decideBar at hdecide
  split at hdecide
  · obtain ⟨⟨D', l₅⟩, hd, hdecide⟩ := bind_eq_ok.mp hdecide
    cases hdecide
    have hworks := decide_works hd
    have hsized := decide_sized hd hopens
    -- what comes after the decision is not read by the sizer
    have hinput : (TradingLoop.sizingInput { l₄ with index := l.index + 1
                                                     lastOpen := some inp.bar.openTimeNs }
        inp equity) = l₃.sizingInput inp equity := by
      unfold sizingInput
      simp only [hworks.instrument, (decide_untouched hd).2]
    rw [hinput]
    rw [← hworks.cfg] at hsized
    exact hsized
  · cases hdecide

end TradingLoop

/-! ### Whole runs -/

/-- **The plan behind a run** waits for what its last decision has sent. -/
def Awaited (l : TradingLoop) (log : LoopLog) : Prop :=
  ∃ p, Follows l p ∧ ∀ last D, log.steps.getLast? = some last → last.decision = some D →
    Asks p D.orderIds (D.targetSide * D.targetQty)

/-- **Step lemma**: what is awaited after one call more. -/
theorem Awaited.snoc {log : LoopLog} {c : LoopCall} {a : LoopAnswer} (h : Awaited l log)
    (hc : l.call c = .ok (a, l')) : Awaited l' (log ++ [⟨l, c, a, l'⟩]) := by
  obtain ⟨p, hfollows, hasks⟩ := h
  rcases hfollows.call hc with ⟨inp, r, rfl, rfl, hstep⟩ | ⟨rfl, hfollows', -⟩
  · obtain ⟨p', hlaw⟩ := hfollows.step hstep
    refine ⟨p', hlaw.follows, fun last D hlast hD => ?_⟩
    rw [LoopLog.steps_snoc_stepped, List.getLast?_concat] at hlast
    cases hlast
    exact hlaw.asks D hD
  · refine ⟨p, hfollows', ?_⟩
    rw [LoopLog.steps_snoc_done]
    exact hasks

/-- **Execution realises the target.**  In every run, the position right after the market orders
    of a step is the one that the step before has approved, or the position before it when that
    decision has sent no order or the latch has cancelled it; and a decision that opens a
    position stays within its size. -/
theorem target_realised {instrument : Instrument} {cfg : LoopCfg} {riskCfg : RiskConfig}
    {clock : ManualClock} {ids : IdGenerator} {cost : CostModel} {equity : NonNegDec}
    {l₀ : TradingLoop} {log : LoopLog}
    (hnew : TradingLoop.new instrument cfg riskCfg clock ids cost equity = .ok l₀)
    (hrun : Run LoopStep l₀ l log) {pre post : LoopLog} {e : LoopEntry}
    (hlog : log = pre ++ e :: post) (hstep : stepOf e = some (inp, r)) :
    (∀ last D, pre.steps.getLast? = some last → last.decision = some D →
      ∃ l₁ x, e.before.beginBar inp = .ok l₁ ∧ e.before.marketPosition inp = .ok x ∧
        Realised D e.before l₁ x) ∧
    ∀ D, r.decision = some D → D.Opens →
      SizedBy e.after.cfg.sizing (e.after.sizingInput inp r.equity) D.targetQty := by
  obtain ⟨hpre, hcall⟩ := hrun.before_entry hlog
  obtain ⟨p, hfollows, hasks⟩ : Awaited e.before pre := by
    refine hpre.invariant Awaited ?_ fun l log c a l' ih hc => ih.snoc hc
    obtain ⟨st, hrep, hlast⟩ := Represents.new hnew
    exact ⟨.flat, ⟨⟨st, hrep, hlast⟩, .flat⟩, fun last D h => by cases h⟩
  obtain ⟨hc, ha⟩ := stepOf_eq_some hstep
  rw [LoopStep, hc, ha] at hcall
  obtain ⟨⟨r', l'⟩, hstep', hcall⟩ := bind_eq_ok.mp hcall
  cases hcall
  exact ⟨fun last D hlast hD => hfollows.realised (hasks last D hlast hD) hstep',
    fun D hD hopens => TradingLoop.step_sized hstep' hD hopens⟩

end

/-! ### An entry and its bar -/

/-- Whether a decision opens a position can be computed. -/
instance (D : DecisionEntry) : Decidable D.Opens := inferInstanceAs (Decidable (_ ∧ _))

/-- A step that decides on 25 contracts, and a second step. -/
def opensThenSteps : LoopLog → Bool
  | [e₀, e₁] => (stepOf e₀).any fun x₀ => (stepOf e₁).isSome && x₀.2.decision.any
      fun (D : DecisionEntry) => decide (D.targetSide * D.targetQty = 25) && decide D.Opens
  | _ => false

/-- The entry of the run is decided on the first bar, and filled at the open of the second. -/
theorem target_realised_sample : ∃ (l₀ l : TradingLoop) (e₀ e₁ : LoopEntry),
    sampleLoop = .ok l₀ ∧ Run LoopStep l₀ l [e₀, e₁] ∧
    ∃ inp₀ r₀ inp₁ r₁ D, stepOf e₀ = some (inp₀, r₀) ∧ stepOf e₁ = some (inp₁, r₁) ∧
      r₀.decision = some D ∧ D.targetSide * D.targetQty = 25 ∧
      SizedBy e₀.after.cfg.sizing (e₀.after.sizingInput inp₀ r₀.equity) D.targetQty ∧
      ∃ l₁ x, e₁.before.beginBar inp₁ = .ok l₁ ∧ e₁.before.marketPosition inp₁ = .ok x ∧
        Realised D e₁.before l₁ x := by
  obtain ⟨l₀, l, log, hnew, hrun, hp⟩ := sampleRun_any 2
    (fun run => opensThenSteps run.2) (by decide +kernel)
  dsimp only [opensThenSteps] at hp
  split at hp
  · rename_i e₀ e₁
    obtain ⟨⟨inp₀, r₀⟩, hstep₀, hp⟩ := (Option.any_eq_true _ _).mp hp
    obtain ⟨hsome, hp⟩ := Bool.and_eq_true_iff.mp hp
    obtain ⟨⟨inp₁, r₁⟩, hstep₁⟩ := Option.isSome_iff_exists.mp hsome
    obtain ⟨D, hD, hp⟩ := (Option.any_eq_true _ _).mp hp
    rw [Bool.and_eq_true, decide_eq_true_iff, decide_eq_true_iff] at hp
    have hfirst : [e₀, e₁] = [] ++ e₀ :: [e₁] := rfl
    have hsecond : [e₀, e₁] = [e₀] ++ e₁ :: [] := rfl
    have hsized := (target_realised hnew hrun hfirst hstep₀).2 D hD hp.2
    have hlast : LoopLog.steps [e₀] = [r₀] := by
      simp [LoopLog.steps, (stepOf_eq_some hstep₀).2, LoopAnswer.result]
    have hrealised := (target_realised hnew hrun hsecond hstep₁).1 r₀ D
      (by rw [hlast]; rfl) hD
    exact ⟨l₀, l, e₀, e₁, hnew, hrun, inp₀, r₀, inp₁, r₁, D, hstep₀, hstep₁, hD, hp.1, hsized,
      hrealised⟩
  · cases hp

end FuzzHelm
