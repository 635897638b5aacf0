import FuzzHelm.Backtest.Plan
import FuzzHelm.Execution.BarOrders

namespace FuzzHelm

open Lib

/-!
# A bar of the broker carries out the plan

The queues and the orders of an instrument represent a plan, and a bar that finds them so
leaves them representing a plan one `Plan.Bar` later, with the fills of that bar.

* `IsStop`, `IsClose`, `IsOpening` — the orders that stand for the parts of a plan;
* `Carries` — the representation;
* `Book.Sound.execute_filled` — what an execution does to position, fills and stops;
* `Carries.runBar` — the refinement.
-/

/-! ### The representation -/

/-- The order of `s` is live and protects a position of size `pos` at the price of `s`. -/
def IsStop (orders : Dict Uuid Order) (pos : Decimal) (s : Protection) : Prop :=
  ∃ o, orders.get? s.coid = some o ∧ o.status = .new ∧ o.req.otype = .stopMarket ∧
    o.req.reduceOnly = true ∧ o.req.side = Side.ofInt (-sign pos) ∧ o.req.qty = |pos| ∧
    o.req.stopPrice = some s.price

/-- The order `c` is live and closes a position of size `pos` at the market. -/
def IsClose (orders : Dict Uuid Order) (pos : Decimal) (c : Uuid) : Prop :=
  ∃ o, orders.get? c = some o ∧ o.status = .new ∧ o.req.otype = .market ∧
    o.req.reduceOnly = true ∧ o.req.side = Side.ofInt (-sign pos) ∧ o.req.qty = |pos|

/-- The order `c` is live and takes the position from `pos` to `target` at the market. -/
def IsOpening (orders : Dict Uuid Order) (pos target : Decimal) (c : Uuid) : Prop :=
  ∃ o, orders.get? c = some o ∧ o.status = .new ∧ o.req.otype = .market ∧
    o.req.reduceOnly = false ∧ o.req.side = Side.ofInt (sign (target - pos)) ∧
    o.req.qty = |target - pos|

/-- **The instrument carries the plan**: its position, its queues and its orders are those
    that the plan asks for, and no others wait. -/
structure Carries (st : InstState) (orders : Dict Uuid Order) (p : Plan) : Prop where
  position : st.position = p.position
  queue : st.marketQueue = p.pending.queue
  stops : st.stopOrders = p.stops.map Protection.coid
  stop : ∀ s, p.stop = some s → IsStop orders p.position s
  close : ∀ c, p.pending = .close c → IsClose orders p.position c
  opening : ∀ c target s d, p.pending = .opening c target s d →
    IsOpening orders p.position target c ∧ ∀ x, s = some x → IsStop orders target x

/-- A stop that protects `pos`, seen as the sweep sees it. -/
def protectsAs (orders : Dict Uuid Order) (pos : Decimal) (c : Uuid) : Bool :=
  (orders.get? c).any fun o => o.req.reduceOnly && decide (o.req.side = Side.ofInt (-sign pos))

/-- The stop of a position protects it. -/
theorem IsStop.protectsAs {orders : Dict Uuid Order} {pos : Decimal} {s : Protection}
    (h : IsStop orders pos s) : protectsAs orders pos s.coid = true := by
  obtain ⟨o, ho, -, -, hred, hside, -⟩ := h
  simp [FuzzHelm.protectsAs, ho, hred, hside]

/-- The stop of a position on the other side does not protect. -/
theorem IsStop.not_protectsAs {orders : Dict Uuid Order} {pos target : Decimal} {s : Protection}
    (h : IsStop orders target s) (hpos : pos ≠ 0) (hside : sign target = -sign pos) :
    FuzzHelm.protectsAs orders pos s.coid = false := by
  obtain ⟨o, ho, -, -, -, hs, -⟩ := h
  have hne : o.req.side ≠ Side.ofInt (-sign pos) := by
    intro heq
    have hint := congrArg Side.toInt (hs.symm.trans heq)
    rw [Side.toInt_ofInt_neg_sign, Side.toInt_ofInt_neg_sign, hside] at hint
    have hzero : sign pos = 0 := by omega
    exact hpos (sign_eq_zero_iff.mp hzero)
  simp [FuzzHelm.protectsAs, ho, hne]

/-- A stop is one as long as its order has not changed. -/
theorem IsStop.congr {orders orders' : Dict Uuid Order} {pos : Decimal} {s : Protection}
    (h : IsStop orders pos s) (heq : orders'.get? s.coid = orders.get? s.coid) :
    IsStop orders' pos s := by
  obtain ⟨o, ho, hrest⟩ := h
  exact ⟨o, heq.trans ho, hrest⟩

namespace Book

variable {b₀ b b' : Book} {i : String} {q : List Uuid} {c : Uuid} {o : Order} {t : ℤ}
  {p : Decimal} {reason : Option ExitReason}

/-! ### Executions -/

/-- **What an order that can execute does**: its fill moves the position by the executable
    quantity, and when that closes or flips the position, the stops that protected it go. -/
theorem Sound.execute_filled (hs : Sound b₀ i q (some c) b) (hc : b.orders.get? c = some o)
    (hqty : 0 < b.executableQty o.req) (h : b.execute c o p t reason = .ok b') :
    ∃ f, f.clientOrderId = c ∧ f.dq = o.req.side.toInt * b.executableQty o.req ∧
      b'.fills = b.fills ++ [f] ∧ b'.st.position = b.st.position + f.dq ∧
      b'.st.stopOrders = b.st.stopOrders.filter (fun x =>
        !(closes b.st.position (b.st.position + f.dq) && protectsAs b.orders b.st.position x)) ∧
      (∀ x ∈ b'.st.stopOrders, b'.orders.get? x = b.orders.get? x) ∧
      ∃ o', b'.orders.get? c = some o' ∧ o'.req = o.req := by
  obtain ⟨hcq, hcs⟩ := hs.hand_not_mem
  rcases execute_eq_ok h with ⟨hle, -⟩ | ⟨-, -, f, cost, hcoid, -, hside, hq, -, h⟩
  · exact absurd hqty (not_lt.mpr hle)
  have hne : ∀ x ∈ b.st.stopOrders, c ≠ x := by
    rintro x hx rfl
    exact hcs hx
  refine ⟨f, hcoid.trans (hs.keys c o hc), by rw [Fill.dq, hside, hq], ?_⟩
  split at h
  · rename_i hcl
    obtain ⟨keep, orders, hsweep, rfl⟩ := onPositionClosed_eq_ok h
    have hnd : b.st.stopOrders.Nodup :=
      (List.nodup_append.mp (List.nodup_append.mp hs.nodup).2.1).2.1
    obtain ⟨hkeep, horders⟩ := sweep_spec hnd hsweep
    -- the fill has changed the order `c` only, and every stop was live
    have hsame : ∀ x ∈ b.st.stopOrders, ∃ ox,
        (b.recordFill c o f cost (b.executionReason o.req reason)).orders.get? x = some ox ∧
          b.orders.get? x = some ox ∧ ox.status = .new := by
      intro x hx
      obtain ⟨ox, hox, hnew, -⟩ := (hs.live x).mpr (.inr (.inl hx))
      exact ⟨ox, (Dict.get?_insert_of_ne _ _ (hne x hx)).trans hox, hox, hnew⟩
    refine ⟨rfl, rfl, ?_, fun x hx => ?_, ?_⟩
    · change keep = _
      rw [hkeep]
      refine List.filter_congr fun x hx => ?_
      obtain ⟨ox, hox, hox', hnew⟩ := hsame x hx
      rw [hox, hcl, protectsAs, hox']
      simp [hnew]
    · change x ∈ keep at hx
      rw [hkeep, List.mem_filter] at hx
      obtain ⟨ox, hox, hox', hnew⟩ := hsame x hx.1
      have hdrop := hx.2
      rw [hox, Option.any_some, Bool.and_eq_true, Bool.not_eq_true'] at hdrop
      change orders.get? x = _
      rw [horders x, hox, hox', Option.map_some]
      simp only [hdrop.2, Bool.false_eq_true, and_false, if_false]
    · refine ⟨_, (horders c).trans (congrArg (Option.map _) (Dict.get?_insert_self ..)), ?_⟩
      dsimp only
      split
      · rename_i hdrop
        cases hdrop.2.1
      · rfl
  · rename_i hcl
    rw [Bool.not_eq_true] at hcl
    subst h
    refine ⟨rfl, rfl, ?_, fun x hx => ?_, _, Dict.get?_insert_self .., rfl⟩
    · simp only [hcl, Bool.false_and, Bool.not_false, List.filter_true]
      rfl
    · exact Dict.get?_insert_of_ne _ _ (hne x hx)

/-- **A closing order leaves nothing**: no position, and no stop of those that protected it. -/
theorem Sound.execute_close (hs : Sound b₀ i q (some c) b) (hc : b.orders.get? c = some o)
    (hpos : b.st.position ≠ 0) (hred : o.req.reduceOnly = true)
    (hside : o.req.side = Side.ofInt (-sign b.st.position)) (hqty : o.req.qty = |b.st.position|)
    (hstops : ∀ x ∈ b.st.stopOrders, protectsAs b.orders b.st.position x = true)
    (h : b.execute c o p t reason = .ok b') :
    ∃ f, f.clientOrderId = c ∧ f.dq = -b.st.position ∧ b'.fills = b.fills ++ [f] ∧
      b'.st.position = 0 ∧ b'.st.stopOrders = [] ∧
      ∃ o', b'.orders.get? c = some o' ∧ o'.req = o.req := by
  have hexec := executableQty_close hpos hred hside hqty
  obtain ⟨f, hid, hdq, hfills, hposition, hleft, -, hreq⟩ :=
    hs.execute_filled hc (by rw [hexec]; exact abs_pos.mpr hpos) h
  have hdq' : f.dq = -b.st.position := by
    rw [hdq, hexec, hside, Side.toInt_ofInt_neg_sign]
    push_cast
    rw [neg_mul, sign_mul_abs]
  rw [hdq', add_neg_cancel] at hposition hleft
  refine ⟨f, hid, hdq', hfills, hposition, ?_, hreq⟩
  rw [hleft]
  refine List.filter_eq_nil_iff.mpr fun x hx => ?_
  simp [closes, hpos, hstops x hx]

/-- **An opening order takes the position to its target**; the stops of a flipped position
    go, the others stay. -/
theorem Sound.execute_opening {target : Decimal} (hs : Sound b₀ i q (some c) b)
    (hc : b.orders.get? c = some o) (hred : o.req.reduceOnly = false)
    (htarget : target ≠ 0 ∧ (b.st.position = 0 ∨ sign target = -sign b.st.position))
    (hside : o.req.side = Side.ofInt (sign (target - b.st.position)))
    (hqty : o.req.qty = |target - b.st.position|) (h : b.execute c o p t reason = .ok b') :
    ∃ f, f.clientOrderId = c ∧ f.dq = target - b.st.position ∧ b'.fills = b.fills ++ [f] ∧
      b'.st.position = target ∧
      b'.st.stopOrders = b.st.stopOrders.filter (fun x =>
        !(decide (b.st.position ≠ 0) && protectsAs b.orders b.st.position x)) ∧
      ∀ x ∈ b'.st.stopOrders, b'.orders.get? x = b.orders.get? x := by
  -- the order is not reduce-only, so that all of it is executed
  have hexec : b.executableQty o.req = |target - b.st.position| := by
    rw [executableQty, hred, Bool.not_false, if_pos rfl, hqty]
  -- and it is for something, because the target lies on another side
  have hne : target - b.st.position ≠ 0 := by
    intro hzero
    have heq : target = b.st.position := sub_eq_zero.mp hzero
    rcases htarget.2 with h0 | hopp
    · exact htarget.1 (heq.trans h0)
    · rw [heq] at hopp
      have hz : sign b.st.position = 0 := by omega
      exact htarget.1 (heq.trans (sign_eq_zero_iff.mp hz))
  obtain ⟨f, hid, hdq, hfills, hposition, hleft, hkeep, -⟩ :=
    hs.execute_filled hc (by rw [hexec]; exact abs_pos.mpr hne) h
  have hdq' : f.dq = target - b.st.position := by
    rw [hdq, hexec, hside, Side.toInt_ofInt_sign, sign_mul_abs]
  rw [hdq', add_sub_cancel] at hposition hleft
  refine ⟨f, hid, hdq', hfills, hposition, ?_, hkeep⟩
  rw [hleft]
  refine List.filter_congr fun x _ => ?_
  -- the fill leaves the old side just where there was one, so its stops go
  have hcl : closes b.st.position target = decide (b.st.position ≠ 0) := by
    rcases htarget.2 with h0 | hopp
    · simp [closes, h0]
    · by_cases hpos : b.st.position = 0
      · simp [closes, hpos]
      · have hsign : sign target ≠ sign b.st.position := by
          intro heq
          have hz : sign b.st.position = 0 := by omega
          exact hpos (sign_eq_zero_iff.mp hz)
        simp [closes, hpos, hsign]
  rw [hcl]

end Book

/-! ### The open of a bar -/

namespace Carries

variable {b₀ b b' : Book} {i : String} {t : ℤ} {plan : Plan}

/-- Without a pending opening the stops are those of the position, and protect it. -/
theorem stops_held {st : InstState} {orders : Dict Uuid Order} (h : Carries st orders plan)
    (hpending : plan.pending.stop = none) :
    st.stopOrders = (plan.stop.map Protection.coid).toList ∧
      ∀ x ∈ st.stopOrders, protectsAs orders st.position x = true := by
  have hstops : st.stopOrders = (plan.stop.map Protection.coid).toList := by
    rw [h.stops, Plan.stops, hpending]
    cases plan.stop <;> simp
  refine ⟨hstops, fun x hx => ?_⟩
  rw [hstops, Option.mem_toList, Option.map_eq_some_iff] at hx
  obtain ⟨s, hs, rfl⟩ := hx
  rw [h.position]
  exact (h.stop s hs).protectsAs

/-- A flat instrument with empty queues carries the flat plan. -/
theorem flat {st : InstState} {orders : Dict Uuid Order} (hpos : st.position = 0)
    (hqueue : st.marketQueue = []) (hstops : st.stopOrders = []) :
    Carries st orders Plan.flat where
  position := hpos
  queue := hqueue
  stops := hstops
  stop := fun _ h => by cases h
  close := fun _ h => by cases h
  opening := fun _ _ _ _ h => by cases h

/-- The loop over one market order is one execution, after which nothing waits. -/
theorem fillLoop_single {c : Uuid} {o : Order} {p : Decimal} {keep : List Uuid}
    (ho : b.orders.get? c = some o) (hnew : o.status = .new) (hts : o.req.tsCreatedNs ≤ t)
    (h : Book.fillLoop p t [c] b = .ok (keep, b')) :
    keep = [] ∧ b.execute c o p t none = .ok b' := by
  rw [Book.fillLoop, bind_eq_ok] at h
  obtain ⟨o', ho', h⟩ := h
  rw [orderOf_eq_ok, ho] at ho'
  cases ho'
  rw [if_neg (not_not.mpr hnew), if_neg (not_lt.mpr hts), bind_eq_ok] at h
  obtain ⟨b₁, hb₁, h⟩ := h
  cases h
  exact ⟨rfl, hb₁⟩

/-- **The open of a bar carries out what is pending.** -/
theorem fillMarketOrders {bar : DecBar} (hc : Carries b.st b.orders plan)
    (hs : b₀.Sound i b.st.marketQueue none b)
    (hts : ∀ c ∈ b.st.marketQueue, ∀ o, b.orders.get? c = some o →
      o.req.tsCreatedNs ≤ bar.openTimeNs)
    (h : b.fillMarketOrders bar = .ok b') :
    ∃ plan' fs, Plan.Market plan fs plan' ∧ Carries b'.st b'.orders plan' ∧
      b'.fills = b.fills ++ fs := by
  rw [Book.fillMarketOrders, bind_eq_ok] at h
  obtain ⟨⟨keep, b₁⟩, hloop, h⟩ := h
  cases h
  have hqueue := hc.queue
  cases hp : plan.pending with
  | idle =>
    rw [hp, Pending.queue] at hqueue
    rw [hqueue] at hloop
    cases hloop
    refine ⟨plan, [], .idle hp, ⟨hc.position, ?_, hc.stops, hc.stop, hc.close, hc.opening⟩,
      (List.append_nil _).symm⟩
    rw [hp]
    rfl
  | close c =>
    rw [hp, Pending.queue] at hqueue
    obtain ⟨o, ho, hnew, -, hred, hside, hqty⟩ := hc.close c hp
    have hto := hts c (by rw [hqueue]; exact List.mem_singleton_self c) o ho
    rw [hqueue] at hloop hs
    obtain ⟨rfl, hexec⟩ := fillLoop_single ho hnew hto hloop
    have hstops := (hc.stops_held (by rw [hp]; rfl)).2
    have hpos : b.st.position ≠ 0 := by
      rw [hc.position]
      exact plan.close_held c hp
    rw [← hc.position] at hside hqty
    obtain ⟨f, hid, hdq, hfills, hposition, hleft, -⟩ :=
      (Book.Sound.takeMarket (k := []) hs).execute_close ho hpos hred hside hqty hstops hexec
    rw [hc.position] at hdq
    exact ⟨.flat, [f], .close hp hid hdq, .flat hposition rfl hleft, hfills⟩
  | opening c target s d =>
    rw [hp, Pending.queue] at hqueue
    obtain ⟨⟨o, ho, hnew, -, hred, hside, hqty⟩, hstop⟩ := hc.opening c target s d hp
    have hto := hts c (by rw [hqueue]; exact List.mem_singleton_self c) o ho
    rw [hqueue] at hloop hs
    obtain ⟨rfl, hexec⟩ := fillLoop_single ho hnew hto hloop
    have htarget := plan.opening_side c target s d hp
    rw [← hc.position] at hside hqty htarget
    obtain ⟨f, hid, hdq, hfills, hposition, hleft, hkeep⟩ :=
      (Book.Sound.takeMarket (k := []) hs).execute_opening ho hred htarget hside hqty hexec
    -- the stop of the old position goes with it, the stop of the new one stays
    have hstops : b₁.st.stopOrders = (s.map Protection.coid).toList := by
      rw [hleft, hc.stops, Plan.stops, hp, List.map_append, List.filter_append]
      have hold : (plan.stop.toList.map Protection.coid).filter (fun x =>
          !(decide (b.st.position ≠ 0) && protectsAs b.orders b.st.position x)) = [] := by
        refine List.filter_eq_nil_iff.mpr fun x hx => ?_
        obtain ⟨y, hy, rfl⟩ := List.mem_map.mp hx
        rw [Option.mem_toList] at hy
        have hpos : b.st.position ≠ 0 := by
          rw [hc.position]
          intro hzero
          rw [plan.stop_flat hzero] at hy
          cases hy
        have hprot := (hc.stop y hy).protectsAs
        rw [← hc.position] at hprot
        simp [hpos, hprot]
      have hnew : (s.toList.map Protection.coid).filter (fun x =>
          !(decide (b.st.position ≠ 0) && protectsAs b.orders b.st.position x)) =
            s.toList.map Protection.coid := by
        refine List.filter_eq_self.mpr fun x hx => ?_
        obtain ⟨y, hy, rfl⟩ := List.mem_map.mp hx
        rw [Option.mem_toList] at hy
        by_cases hpos : b.st.position = 0
        · simp [hpos]
        · have hopp := htarget.2.resolve_left hpos
          rw [(hstop y hy).not_protectsAs hpos hopp]
          simp
      rw [hold]
      change [] ++ (s.toList.map Protection.coid).filter _ = _
      rw [hnew]
      cases s <;> rfl
    rw [hc.position] at hdq
    refine ⟨.held target htarget.1 d s, [f], .opening hp hid hdq htarget.1,
      ⟨hposition, rfl, ?_, fun x hx => ?_, (fun _ h => by cases h),
        (fun _ _ _ _ h => by cases h)⟩,
      hfills⟩
    · change b₁.st.stopOrders = _
      rw [hstops]
      cases s <;> rfl
    · change s = some x at hx
      refine (hstop x hx).congr (hkeep x.coid ?_)
      rw [hstops, hx]
      simp

/-! ### The range of a bar -/

/-- The fill of an order that the broker made itself during the bar. -/
def Synthetic (b₀ b : Book) (u : Uuid) : Prop :=
  b₀.orders.get? u = none ∧ b₀.ids.Pending u ∧
    ∃ o, b.orders.get? u = some o ∧
      (o.req.decisionRef = some "TP" ∨ o.req.decisionRef = some "LIQUIDATION")

/-- **A firing closes the position** that an idle plan holds. -/
theorem fire {tr : Book.Trigger} {p : Decimal} (hc : Carries b.st b.orders plan)
    (hidle : plan.pending = .idle) (hs : b₀.Sound i [] none b)
    (hi : b₀.st.spec.symbolCanon = i) (htr : Book.IsTrigger b t tr)
    (h : b.fire tr p t = .ok b') :
    plan.position ≠ 0 ∧ Carries b'.st b'.orders .flat ∧ ∃ f, b'.fills = b.fills ++ [f] ∧
      f.dq = -plan.position ∧
      ((∃ s, plan.stop = some s ∧ f.clientOrderId = s.coid) ∨
        Synthetic b₀ b' f.clientOrderId) := by
  obtain ⟨hstops, hprot⟩ := hc.stops_held (by rw [hidle]; rfl)
  have hqueue : b'.st.marketQueue = [] := by
    rw [Book.fire_marketQueue htr h, hc.queue, hidle]
    rfl
  rcases Book.fire_eq_ok htr h with ⟨c, o, hmem, ho, -, -, h⟩ | ⟨hpos, tp, o, reason, hsyn, -, h⟩
  · -- the only stop there is protects the position
    rw [hstops, Option.mem_toList, Option.map_eq_some_iff] at hmem
    obtain ⟨s, hstop, rfl⟩ := hmem
    obtain ⟨o', ho', -, -, hred, hside, hqty, -⟩ := hc.stop s hstop
    rw [ho] at ho'
    cases ho'
    have hpos : plan.position ≠ 0 := by
      intro hzero
      rw [plan.stop_flat hzero] at hstop
      cases hstop
    have hmem' : s.coid ∈ b.st.stopOrders := by
      rw [hstops, hstop]
      simp
    have hnone : (b.takeStop s.coid).st.stopOrders = [] := by
      change b.st.stopOrders.erase s.coid = []
      rw [hstops, hstop]
      simp
    rw [← hc.position] at hpos hside hqty
    obtain ⟨f, hid, hdq, hfills, hposition, hleft, -⟩ :=
      (hs.takeStop hmem').execute_close ho hpos hred hside hqty
        (fun x hx => by rw [hnone] at hx; cases hx) h
    rw [hc.position] at hpos
    exact ⟨hpos, .flat hposition hqueue hleft, f, hfills, hdq.trans (by rw [← hc.position]; rfl),
      .inl ⟨s, hstop, hid⟩⟩
  · obtain ⟨hpending, hnone⟩ := hs.ids _ b.ids.pending_next
    -- the new order changes none of the stops
    have hprot' : ∀ x ∈ (b.takeSynthetic tp o).st.stopOrders,
        protectsAs (b.takeSynthetic tp o).orders b.st.position x = true := by
      intro x hx
      have hne : b.ids.nextUuid.1 ≠ x := by
        rintro rfl
        obtain ⟨o', ho', -⟩ := (hs.live _).mpr (.inr (.inl hx))
        rw [hnone] at ho'
        cases ho'
      have hget : (b.takeSynthetic tp o).orders.get? x = b.orders.get? x :=
        Dict.get?_insert_of_ne _ _ hne
      rw [protectsAs, hget]
      exact hprot x hx
    obtain ⟨f, hid, hdq, hfills, hposition, hleft, o', ho', hreq⟩ :=
      (hs.takeSynthetic hi hsyn).execute_close (Dict.get?_insert_self ..) hpos hsyn.reduceOnly
        hsyn.side hsyn.qty hprot' h
    have horigin : b₀.orders.get? b.ids.nextUuid.1 = none := by
      cases h₀ : b₀.orders.get? b.ids.nextUuid.1 with
      | none => rfl
      | some o₀ =>
        obtain ⟨o₁, ho₁, -⟩ := hs.evolves.kept _ o₀ h₀
        rw [hnone] at ho₁
        cases ho₁
    refine ⟨hc.position ▸ hpos, .flat hposition hqueue hleft, f, hfills,
      hdq.trans (by rw [← hc.position]; rfl), .inr ?_⟩
    rw [hid]
    exact ⟨horigin, hpending, o', ho', by rw [hreq]; exact hsyn.decisionRef⟩

/-- **The range of a bar** leaves the position with its stop, or closes it. -/
theorem walkPhase {bar : DecBar} (hc : Carries b.st b.orders plan)
    (hidle : plan.pending = .idle) (hs : b₀.Sound i [] none b)
    (hi : b₀.st.spec.symbolCanon = i) (h : b.walkPhase bar = .ok b') :
    ∃ plan' fs, Plan.Trigger (Synthetic b₀ b') plan fs plan' ∧
      Carries b'.st b'.orders plan' ∧ b'.fills = b.fills ++ fs ∧ plan'.pending = .idle := by
  -- before the firing that closes the position everything is as it was, after it nothing fires
  have hinv : b₀.Sound i [] none b' ∧
      ((Carries b'.st b'.orders plan ∧ b'.fills = b.fills) ∨
        (Carries b'.st b'.orders .flat ∧ ∃ f, b'.fills = b.fills ++ [f] ∧
          Plan.Trigger (Synthetic b₀ b') plan [f] .flat)) := by
    refine Book.walkPhase_rule (P := fun x => b₀.Sound i [] none x ∧
      ((Carries x.st x.orders plan ∧ x.fills = b.fills) ∨
        (Carries x.st x.orders .flat ∧ ∃ f, x.fills = b.fills ++ [f] ∧
          Plan.Trigger (Synthetic b₀ x) plan [f] .flat))) ?_ ⟨hs, .inl ⟨hc, rfl⟩⟩ h
    rintro x tr p x' ⟨hx, hcase⟩ htr hfire
    refine ⟨hx.fire hi htr hfire, ?_⟩
    rcases hcase with ⟨hcarry, hfills⟩ | ⟨hcarry, -⟩
    · obtain ⟨hpos, hflat, f, hf, hdq, hid⟩ := hcarry.fire hidle hx hi htr hfire
      exact .inr ⟨hflat, f, by rw [hf, hfills], .exit hpos hdq hid⟩
    · exact absurd rfl (hcarry.fire rfl hx hi htr hfire).1
  rcases hinv.2 with ⟨hcarry, hfills⟩ | ⟨hcarry, f, hfills, htrigger⟩
  · exact ⟨plan, [], .hold, hcarry, by rw [hfills, List.append_nil], hidle⟩
  · exact ⟨.flat, [f], htrigger, hcarry, hfills, rfl⟩

/-! ### The end of a bar -/

/-- **No stop of an idle plan is an orphan.** -/
theorem expirePhase (hc : Carries b.st b.orders plan) (hidle : plan.pending = .idle)
    (hs : b₀.Sound i [] none b) (h : b.expirePhase = .ok b') :
    Carries b'.st b'.orders plan ∧ b'.fills = b.fills ∧
      ∀ x o, b.orders.get? x = some o → ∃ o', b'.orders.get? x = some o' ∧ o'.req = o.req := by
  rw [Book.expirePhase] at h
  split at h
  · obtain ⟨sides, keep, orders, -, hsweep, rfl⟩ := Book.expireOrphanStops_eq_ok h
    obtain ⟨hstops, -⟩ := hc.stops_held (by rw [hidle]; rfl)
    have hnd : b.st.stopOrders.Nodup := (List.nodup_append.mp hs.nodup').2.1
    obtain ⟨hkeep, horders⟩ := Book.sweep_spec hnd hsweep
    -- the stop of the plan is on the side that protects the position
    have hlive : ∀ x, plan.stop = some x → ∃ o, b.orders.get? x.coid = some o ∧
        o.status = .new ∧ sign b.st.position = -o.req.side.toInt := by
      intro x hx
      obtain ⟨o, ho, hnew, -, -, hside, -⟩ := hc.stop x hx
      refine ⟨o, ho, hnew, ?_⟩
      rw [hside, Side.toInt_ofInt_neg_sign, neg_neg, hc.position]
    have hall : keep = b.st.stopOrders := by
      rw [hkeep]
      refine List.filter_eq_self.mpr fun x hx => ?_
      rw [hstops, Option.mem_toList, Option.map_eq_some_iff] at hx
      obtain ⟨s, hstop, rfl⟩ := hx
      obtain ⟨o, ho, hnew, hsign⟩ := hlive s hstop
      simp [ho, hnew, hsign]
    refine ⟨⟨hc.position, hc.queue, hall.trans hc.stops, fun x hx => ?_, fun c hcl => ?_,
      fun c target s d hop => ?_⟩, rfl, fun x o ho => ?_⟩
    · refine (hc.stop x hx).congr ?_
      obtain ⟨o, ho, -, hsign⟩ := hlive x hx
      change orders.get? x.coid = _
      rw [horders, ho]
      simp [hsign]
    · rw [hidle] at hcl
      cases hcl
    · rw [hidle] at hop
      cases hop
    · refine ⟨_, (horders x).trans (congrArg _ ho), ?_⟩
      dsimp only
      split <;> rfl
  · cases h
    exact ⟨hc, rfl, fun x o ho => ⟨o, ho, rfl⟩⟩

/-- **A bar carries out the plan.** When every market order was created before the bar opened,
    the bar takes a book that carries a plan to one that carries the plan after the bar. -/
theorem runBar {bar : DecBar} (hc : Carries b.st b.orders plan)
    (hs : b₀.Sound i b.st.marketQueue none b) (hi : b₀.st.spec.symbolCanon = i)
    (hts : ∀ c ∈ b.st.marketQueue, ∀ o, b.orders.get? c = some o →
      o.req.tsCreatedNs ≤ bar.openTimeNs)
    (hfills : b.fills = []) (h : b.runBar bar = .ok b') :
    ∃ plan', Plan.Bar (Synthetic b₀ b') plan b'.fills plan' ∧ Carries b'.st b'.orders plan' := by
  obtain ⟨b₁, b₂, hb₁, hb₂, h⟩ := Book.runBar_eq_ok h
  obtain ⟨plan₁, fs₁, hmarket, hc₁, hf₁⟩ := hc.fillMarketOrders hs hts hb₁
  have hidle := hmarket.pending
  have hqueue : b₁.st.marketQueue = [] := by
    rw [hc₁.queue, hidle]
    rfl
  have hs₁ := hs.fillMarketOrders hb₁
  rw [hqueue] at hs₁
  obtain ⟨plan₂, fs₂, htrigger, hc₂, hf₂, hidle₂⟩ := hc₁.walkPhase hidle hs₁ hi hb₂
  have hs₂ : b₀.Sound i [] none b₂ := by
    have hqueue₂ : b₂.st.marketQueue = [] := by
      rw [hc₂.queue, hidle₂]
      rfl
    rw [← hqueue] at hs₁
    have hs₂ := hs₁.walkPhase hi hb₂
    rwa [hqueue₂] at hs₂
  obtain ⟨hc₃, hf₃, hreqs⟩ := hc₂.expirePhase hidle₂ hs₂ h
  refine ⟨plan₂, ⟨plan₁, fs₁, fs₂, hmarket, ?_, by rw [hf₃, hf₂, hf₁, hfills, List.nil_append]⟩,
    hc₃⟩
  -- the end of the bar keeps the requests, so a synthetic order is still one
  cases htrigger with
  | hold => exact .hold
  | exit hpos hdq hid =>
    refine .exit hpos hdq (hid.imp_right ?_)
    rintro ⟨hnone, hpending, o, ho, href⟩
    obtain ⟨o', ho', hreq⟩ := hreqs _ o ho
    exact ⟨hnone, hpending, o', ho', by rw [hreq]; exact href⟩

end Carries

end FuzzHelm
