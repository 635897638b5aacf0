import FuzzHelm.Execution.OrderBook
import FuzzHelm.Lib.Enumeration
import Mathlib.Tactic.Linarith

namespace FuzzHelm

open Lib

/-!
# The schedule of funding

The moments of funding are the same hours of every day.  The enumerator lists each of them
once, the shortcut of a bar agrees with it, and so a bar charges what its interval holds.

* `CostModel.fundingTimes_enumerates` — the enumerator lists the moments of an interval;
* `CostModel.nextFundingTime_first` — the next moment is the first one after a time;
* `InstState.fundingCharges_times` — a bar charges every moment since the bar before it;
* `funding_schedule` — the law of the schedule and of every run of the broker.
-/

namespace CostModel

variable (m : CostModel)

/-- `is_funding_time`: the time of the day is one of the moments. -/
def isFundingTime (tNs : ℤ) : Bool := decide (tNs % nsPerDay ∈ m.fundingOffsetsNs)

/-- The offsets of the hours of a day. -/
theorem fundingOffsetsNs_eq :
    m.fundingOffsetsNs = m.fundingHoursUtc.map fun hour : ℕ => (hour : ℤ) * nsPerHour := by
  simp [fundingOffsetsNs, List.map_eq_flatMap, List.flatMap_assoc]

/-- The offsets lie inside the day. -/
theorem offset_range {off : ℤ} (h : off ∈ m.fundingOffsetsNs) : 0 ≤ off ∧ off < nsPerDay := by
  rw [fundingOffsetsNs_eq, List.mem_map] at h
  obtain ⟨hour, hmem, rfl⟩ := h
  have hle := m.fundingHoursUtc_lt hour hmem
  simp only [nsPerHour, nsPerDay, nsPerSec]
  omega

/-- The offsets of a day are in order. -/
theorem offsets_sorted : m.fundingOffsetsNs.Pairwise (· < ·) := by
  rw [fundingOffsetsNs_eq, List.pairwise_map]
  refine m.fundingHoursUtc_sorted.imp ?_
  intro x y hxy
  simp only [nsPerHour]
  omega

/-- There is at least one moment in a day. -/
theorem offsets_ne : m.fundingOffsetsNs ≠ [] := by
  rw [fundingOffsetsNs_eq, Ne, List.map_eq_nil_iff]
  exact m.fundingHoursUtc_ne

/-- The moments of the interval, day by day. -/
theorem fundingTimes_eq {a b : ℤ} (h : a < b) : m.fundingTimes a b =
    (List.range ((b - (a - a % nsPerDay)) / nsPerDay + 1).toNat).flatMap fun n : ℕ =>
      (m.fundingOffsetsNs.map fun off => a - a % nsPerDay + n * nsPerDay + off).filter fun t =>
        decide (a < t ∧ t ≤ b) := by
  rw [fundingTimes, if_neg (not_le.mpr h)]
  simp [List.flatMap_assoc]

/-- The moments of one day. -/
theorem isFundingTime_iff {tNs : ℤ} :
    m.isFundingTime tNs = true ↔ ∃ off ∈ m.fundingOffsetsNs, tNs = tNs - tNs % nsPerDay + off := by
  rw [isFundingTime, decide_eq_true_iff]
  constructor
  · intro h
    exact ⟨_, h, by omega⟩
  · rintro ⟨off, hoff, heq⟩
    have hmod : tNs % nsPerDay = off := by omega
    rwa [hmod]

/-- **The enumerator** lists the moments of funding in the interval. -/
theorem fundingTimes_enumerates (a b : ℤ) :
    Enumerates (fun t => m.isFundingTime t = true) a b (m.fundingTimes a b) := by
  -- no moment in an empty interval
  rcases le_or_gt b a with hle | hlt
  · rw [fundingTimes, if_pos hle]
    exact .nil hle
  · rw [m.fundingTimes_eq hlt]
    refine ⟨?_, fun t => ?_⟩
    · rw [List.pairwise_flatMap]
      refine ⟨fun n _ => ?_, List.pairwise_lt_range.imp ?_⟩
      · refine List.Pairwise.filter _ (List.pairwise_map.mpr (m.offsets_sorted.imp ?_))
        intro x y hxy
        omega
      · -- a later day begins after the earlier one has ended
        intro n k hnk x hx y hy
        obtain ⟨hx, -⟩ := List.mem_filter.mp hx
        obtain ⟨hy, -⟩ := List.mem_filter.mp hy
        obtain ⟨offx, hoffx, rfl⟩ := List.mem_map.mp hx
        obtain ⟨offy, hoffy, rfl⟩ := List.mem_map.mp hy
        have hrx := m.offset_range hoffx
        have hry := m.offset_range hoffy
        simp only [nsPerDay, nsPerSec] at hrx hry ⊢
        omega
    · simp only [List.mem_flatMap, List.mem_filter, List.mem_map, List.mem_range,
        decide_eq_true_eq]
      rw [m.isFundingTime_iff]
      constructor
      · rintro ⟨n, hn, ⟨off, hoff, rfl⟩, hat, htb⟩
        refine ⟨hat, htb, off, hoff, ?_⟩
        have hr := m.offset_range hoff
        simp only [nsPerDay, nsPerSec] at hr ⊢
        omega
      · rintro ⟨hat, htb, off, hoff, heq⟩
        have hr := m.offset_range hoff
        refine ⟨((t - t % nsPerDay - (a - a % nsPerDay)) / nsPerDay).toNat, ?_,
          ⟨off, hoff, ?_⟩, hat, htb⟩
        · simp only [nsPerDay, nsPerSec] at hr heq ⊢
          omega
        · simp only [nsPerDay, nsPerSec] at hr heq ⊢
          omega

/-- **The next moment** is a moment of funding, after the time, and the first such. -/
theorem nextFundingTime_first (a : ℤ) :
    m.isFundingTime (m.nextFundingTime a) = true ∧ a < m.nextFundingTime a ∧
      ∀ t, a < t → m.isFundingTime t = true → m.nextFundingTime a ≤ t := by
  have hsorted := m.offsets_sorted
  unfold nextFundingTime
  simp only
  split
  · rename_i off hfind
    obtain ⟨hlt, before, rest, hoffs, hbefore⟩ := List.find?_eq_some_iff_append.mp hfind
    have hmem : off ∈ m.fundingOffsetsNs := by
      rw [hoffs]
      exact List.mem_append_right _ (List.mem_cons_self ..)
    have hr := m.offset_range hmem
    rw [decide_eq_true_iff] at hlt
    refine ⟨?_, hlt, fun t hat ht => ?_⟩
    · rw [m.isFundingTime_iff]
      refine ⟨off, hmem, ?_⟩
      simp only [nsPerDay, nsPerSec] at hr ⊢
      omega
    · obtain ⟨off', hoff', heq⟩ := m.isFundingTime_iff.mp ht
      have hr' := m.offset_range hoff'
      -- on a later day there is nothing to show; on the same day the offset comes later
      have hle : off ≤ off' ∨ a - a % nsPerDay + off' ≤ a := by
        rw [hoffs] at hoff' hsorted
        rcases List.mem_append.mp hoff' with h | h
        · right
          simpa using hbefore off' h
        · left
          rcases List.mem_cons.mp h with rfl | h
          · exact le_rfl
          · exact ((List.pairwise_cons.mp (List.pairwise_append.mp hsorted).2.1).1 off' h).le
      simp only [nsPerDay, nsPerSec] at hr hr' hle heq ⊢
      omega
  · rename_i hfind
    rw [List.find?_eq_none] at hfind
    obtain ⟨off, rest, hoffs⟩ := List.exists_cons_of_ne_nil m.offsets_ne
    have hmem : off ∈ m.fundingOffsetsNs := by
      rw [hoffs]
      exact List.mem_cons_self ..
    have hr := m.offset_range hmem
    rw [hoffs, List.headD_cons]
    refine ⟨?_, ?_, fun t hat ht => ?_⟩
    · rw [m.isFundingTime_iff]
      refine ⟨off, hmem, ?_⟩
      simp only [nsPerDay, nsPerSec] at hr ⊢
      omega
    · simp only [nsPerDay, nsPerSec] at hr ⊢
      omega
    · obtain ⟨off', hoff', heq⟩ := m.isFundingTime_iff.mp ht
      have hr' := m.offset_range hoff'
      have hpast : a - a % nsPerDay + off' ≤ a := by
        simpa using hfind off' hoff'
      have hle : off ≤ off' := by
        rw [hoffs] at hoff' hsorted
        rcases List.mem_cons.mp hoff' with rfl | h
        · exact le_rfl
        · exact ((List.pairwise_cons.mp hsorted).1 off' h).le
      simp only [nsPerDay, nsPerSec] at hr hr' hle heq hpast ⊢
      omega

/-- **The shortcut agrees with the enumerator**: there is nothing to charge before the next
    moment. -/
theorem fundingTimes_eq_nil {a b : ℤ} (h : b < m.nextFundingTime a) : m.fundingTimes a b = [] := by
  rw [(m.fundingTimes_enumerates a b).eq_nil_iff]
  intro t hat htb ht
  have hle := (m.nextFundingTime_first a).2.2 t hat ht
  omega

/-- Two states of one cost model: the draws move on, the mode and the hours stay. -/
structure SameSchedule (m m' : CostModel) : Prop where
  mode : m'.mode = m.mode
  hours : m'.fundingHoursUtc = m.fundingHoursUtc

namespace SameSchedule

variable {m m' m'' : CostModel}

/-- A model has its own schedule. -/
theorem refl (m : CostModel) : SameSchedule m m := ⟨rfl, rfl⟩

/-- One schedule after another. -/
theorem trans (h : SameSchedule m m') (h' : SameSchedule m' m'') : SameSchedule m m'' :=
  ⟨h'.mode.trans h.mode, h'.hours.trans h.hours⟩

/-- Models of one schedule charge together, or not at all. -/
theorem chargesFunding (h : SameSchedule m m') : m'.chargesFunding = m.chargesFunding := by
  rw [CostModel.chargesFunding, CostModel.chargesFunding, h.mode]

/-- Models of one schedule have the same moments. -/
theorem fundingTimes (h : SameSchedule m m') (a b : ℤ) :
    m'.fundingTimes a b = m.fundingTimes a b := by
  unfold CostModel.fundingTimes fundingOffsetsNs
  rw [h.hours]

/-- A quote changes the noise of the model, not its schedule. -/
theorem quote {side : Side} {pRef qty sigma vBar : Decimal} {tick : PosDec} {q : FillQuote}
    (h : m.quote side pRef qty sigma vBar tick = .ok (q, m')) : SameSchedule m m' := by
  unfold CostModel.quote at h
  split at h
  · cases h
  · split at h
    · cases h
    · split at h
      · cases h
        exact .refl m
      · cases h
        exact ⟨rfl, rfl⟩

end SameSchedule

end CostModel

/-! ### The charges of a bar -/

/-- **A bar charges every moment since the bar before it**, once, when there is a position
    and the cost model charges at all. -/
theorem InstState.fundingCharges_times (st : InstState) (cost : CostModel) (bar : DecBar) :
    (st.fundingCharges cost bar).map FundingCharge.tsNs =
      if st.position ≠ 0 ∧ cost.chargesFunding = true then
        st.lastOpenNs.elim [] fun last => cost.fundingTimes last bar.openTimeNs
      else [] := by
  unfold fundingCharges
  cases hlast : st.lastOpenNs with
  | none => simp
  | some last =>
    simp only [Option.elim_some]
    by_cases hcharges : st.position ≠ 0 ∧ cost.chargesFunding = true
    · rw [if_pos hcharges]
      by_cases hnext : cost.nextFundingTime last ≤ bar.openTimeNs
      · rw [if_pos ⟨hcharges.1, hcharges.2, hnext⟩, List.map_map]
        exact List.map_id _
      · rw [if_neg fun h => hnext h.2.2, cost.fundingTimes_eq_nil (not_le.mp hnext)]
        rfl
    · rw [if_neg hcharges, if_neg fun h => hcharges ⟨h.1, h.2.1⟩]
      rfl

/-- A charge carries the position and the rate that it was made with. -/
theorem InstState.fundingCharges_data {st : InstState} {cost : CostModel} {bar : DecBar}
    {ch : FundingCharge} (h : ch ∈ st.fundingCharges cost bar) :
    ch.instrument = st.spec.symbolCanon ∧ ch.positionQty = st.position ∧
      ch.rate = st.fundingRate := by
  unfold fundingCharges at h
  cases hlast : st.lastOpenNs with
  | none =>
    rw [hlast] at h
    cases h
  | some last =>
    rw [hlast] at h
    simp only at h
    split at h
    · obtain ⟨t, -, rfl⟩ := List.mem_map.mp h
      exact ⟨rfl, rfl, rfl⟩
    · cases h

/-! ### What the calls of the broker do to it -/

namespace Book

open CostModel (SameSchedule)

variable {b b' : Book} {t : ℤ}

/-- The terms of funding, which a bar leaves alone. -/
structure SameTerms (b b' : Book) : Prop where
  schedule : SameSchedule b.cost b'.cost
  rate : b'.st.fundingRate = b.st.fundingRate

/-- The terms have not changed. -/
theorem SameTerms.refl (b : Book) : SameTerms b b := ⟨.refl _, rfl⟩

/-- One part after another. -/
theorem SameTerms.trans {b'' : Book} (h : SameTerms b b') (h' : SameTerms b' b'') :
    SameTerms b b'' := ⟨h.schedule.trans h'.schedule, h'.rate.trans h.rate⟩

/-- An execution keeps the terms of the funding. -/
theorem execute_terms {coid : Uuid} {o : Order} {p : Decimal} {reason : Option ExitReason}
    (h : b.execute coid o p t reason = .ok b') : SameTerms b b' := by
  unfold execute at h
  by_cases hq : b.executableQty o.req ≤ 0
  · simp only [hq, if_true] at h
    cases h
    exact ⟨.refl _, rfl⟩
  · simp only [hq, if_false] at h
    rw [bind_eq_ok] at h
    obtain ⟨⟨q, cost⟩, hquote, h⟩ := h
    rw [bind_eq_ok] at h
    obtain ⟨fill, -, h⟩ := h
    have hkeep : b'.cost = cost ∧ b'.st.fundingRate = b.st.fundingRate := by
      split at h
      · obtain ⟨keep, orders, -, rfl⟩ := onPositionClosed_eq_ok h
        exact ⟨rfl, rfl⟩
      · cases h
        exact ⟨rfl, rfl⟩
    refine ⟨?_, hkeep.2⟩
    rw [hkeep.1]
    exact SameSchedule.quote hquote

/-- A firing keeps the terms of the funding. -/
theorem fire_terms {tr : Trigger} {p : Decimal} (htr : IsTrigger b t tr)
    (h : b.fire tr p t = .ok b') : SameTerms b b' := by
  rcases fire_eq_ok htr h with ⟨c, o, -, -, -, -, h⟩ | ⟨-, tp, o, reason, -, -, h⟩
  · have hkept := execute_terms h
    exact ⟨hkept.schedule, hkept.rate⟩
  · have hkept := execute_terms h
    refine ⟨hkept.schedule, hkept.rate.trans ?_⟩
    cases tp <;> rfl

/-- The loop over the market orders keeps the terms, by induction on the queue. -/
theorem fillLoop_terms {o : Decimal} {cs keep : List Uuid}
    (h : fillLoop o t cs b = .ok (keep, b')) : SameTerms b b' := by
  induction cs generalizing b keep with
  | nil =>
    cases h
    exact .refl _
  | cons c cs ih =>
    rw [fillLoop, bind_eq_ok] at h
    obtain ⟨ord, -, h⟩ := h
    split at h
    · exact ih h
    · split at h
      · rw [bind_eq_ok] at h
        obtain ⟨⟨keep', b₁⟩, hloop, h⟩ := h
        cases h
        exact ih hloop
      · rw [bind_eq_ok] at h
        obtain ⟨b₁, hexec, h⟩ := h
        exact (execute_terms hexec).trans (ih h)

/-- A bar draws from the cost model and leaves the terms alone. -/
theorem runBar_terms {bar : DecBar} (h : b.runBar bar = .ok b') : SameTerms b b' := by
  obtain ⟨b₁, b₂, hb₁, hb₂, h⟩ := runBar_eq_ok h
  have h₁ : SameTerms b b₁ := by
    rw [fillMarketOrders, bind_eq_ok] at hb₁
    obtain ⟨⟨keep, b₀⟩, hloop, hb₁⟩ := hb₁
    cases hb₁
    have hkept := fillLoop_terms hloop
    exact ⟨hkept.schedule, hkept.rate⟩
  have h₂ : SameTerms b b₂ := by
    refine walkPhase_rule (P := fun x => SameTerms b x) ?_ h₁ hb₂
    intro x tr p x' hx htr hfire
    exact hx.trans (fire_terms htr hfire)
  rw [expirePhase] at h
  split at h
  · obtain ⟨sides, keep, orders, -, -, rfl⟩ := expireOrphanStops_eq_ok h
    exact ⟨h₂.schedule, h₂.rate⟩
  · cases h
    exact h₂

end Book

/-- The open time of the bar that a call brings for the instrument `i`. -/
def BrokerCall.openOf (i : String) : BrokerCall → Option ℤ
  | .onBar bar => if bar.instrument = i then some bar.openTimeNs else none
  | .submit _ _ => none
  | .cancel _ => none
  | .cancelAll _ => none
  | .setTakeProfit _ _ _ => none
  | .setLiquidationPrice _ _ => none
  | .setFundingRate _ _ => none
  | .nextUuid => none

/-- The funding rate that a call sets for the instrument `i`. -/
def BrokerCall.rateOf (i : String) : BrokerCall → Option Decimal
  | .setFundingRate j rate => if j = i then some rate else none
  | .submit _ _ => none
  | .cancel _ => none
  | .cancelAll _ => none
  | .onBar _ => none
  | .setTakeProfit _ _ _ => none
  | .setLiquidationPrice _ _ => none
  | .nextUuid => none

/-- What a call adds to the charges. -/
def PaperBroker.charged (pb : PaperBroker) : BrokerCall → List FundingCharge
  | .onBar bar => (pb.state.get? bar.instrument).elim [] fun st => st.fundingCharges pb.cost bar
  | .submit _ _ => []
  | .cancel _ => []
  | .cancelAll _ => []
  | .setTakeProfit _ _ _ => []
  | .setLiquidationPrice _ _ => []
  | .setFundingRate _ _ => []
  | .nextUuid => []

/-- **What a call does to the terms of funding**: only a bar charges, only a bar moves the time
    of its instrument, and only its setter moves the rate. -/
structure KeepsTime (pb : PaperBroker) (c : BrokerCall) (pb' : PaperBroker) : Prop where
  schedule : CostModel.SameSchedule pb.cost pb'.cost
  funding : pb'.funding = pb.funding ++ pb.charged c
  state : ∀ i st', pb'.state.get? i = some st' → ∃ st, pb.state.get? i = some st ∧
    st'.lastOpenNs = (c.openOf i).or st.lastOpenNs ∧
    st'.fundingRate = (c.rateOf i).getD st.fundingRate

namespace KeepsTime

variable {pb pb' : PaperBroker} {c : BrokerCall} {i : String} {st st' : InstState}

/-- A call that writes the state of one instrument, and not its time. -/
theorem write (hst : pb.state.get? i = some st) (hcost : pb'.cost = pb.cost)
    (hfunding : pb'.funding = pb.funding) (hstate : pb'.state = pb.state.insert i st')
    (hlast : st'.lastOpenNs = st.lastOpenNs)
    (hrate : st'.fundingRate = (c.rateOf i).getD st.fundingRate) (hc : ∀ j, c.openOf j = none)
    (hother : ∀ j, j ≠ i → c.rateOf j = none) (hcharged : pb.charged c = []) :
    KeepsTime pb c pb' where
  schedule := hcost ▸ .refl _
  funding := by rw [hfunding, hcharged, List.append_nil]
  state := by
    intro j sj hj
    rw [hstate, Dict.get?_insert] at hj
    simp only [hc, Option.none_or]
    split at hj
    · rename_i hij
      cases hj
      subst hij
      exact ⟨st, hst, hlast, hrate⟩
    · rename_i hij
      refine ⟨sj, hj, rfl, ?_⟩
      rw [hother j (Ne.symm hij)]
      rfl

/-- A call that writes no instrument. -/
theorem same (hcost : pb'.cost = pb.cost) (hfunding : pb'.funding = pb.funding)
    (hstate : pb'.state = pb.state) (hc : ∀ j, c.openOf j = none) (hr : ∀ j, c.rateOf j = none)
    (hcharged : pb.charged c = []) : KeepsTime pb c pb' where
  schedule := hcost ▸ .refl _
  funding := by rw [hfunding, hcharged, List.append_nil]
  state := by
    intro j sj hj
    rw [hstate] at hj
    simp only [hc, hr, Option.none_or]
    exact ⟨sj, hj, rfl, rfl⟩

/-- A submission keeps the times. -/
theorem submit (now : ℤ) (req : OrderRequest) :
    KeepsTime pb (.submit now req) (pb.submit now req).2 := by
  cases hget : pb.orders.get? req.clientOrderId with
  | some o =>
    rw [PaperBroker.submit_known (by rw [hget]; rfl)]
    exact .same rfl rfl rfl (fun _ => rfl) (fun _ => rfl) rfl
  | none =>
    rcases PaperBroker.submit_new now hget with ⟨code, heq⟩ | ⟨st, sp, hst, -, -, heq⟩
    · rw [heq]
      exact .same rfl rfl rfl (fun _ => rfl) (fun _ => rfl) rfl
    · rw [heq]
      refine .write hst rfl rfl rfl ?_ ?_ (fun _ => rfl) (fun _ _ => rfl) rfl
      · split <;> rfl
      · split <;> rfl

/-- A cancellation keeps the times. -/
theorem cancel {coid : Uuid} {done : Bool} (h : pb.cancel coid = .ok (done, pb')) :
    KeepsTime pb (.cancel coid) pb' := by
  unfold PaperBroker.cancel at h
  split at h
  · cases h
    exact .same rfl rfl rfl (fun _ => rfl) (fun _ => rfl) rfl
  · split at h
    · cases h
      exact .same rfl rfl rfl (fun _ => rfl) (fun _ => rfl) rfl
    · rw [bind_eq_ok] at h
      obtain ⟨st, hst, h⟩ := h
      cases h
      exact .write (PaperBroker.require_eq_ok.mp hst) rfl rfl rfl rfl rfl
        (fun _ => rfl) (fun _ _ => rfl) rfl

/-- Cancelling all orders keeps the times. -/
theorem cancelAll (h : pb.cancelAll i = .ok pb') : KeepsTime pb (.cancelAll i) pb' := by
  unfold PaperBroker.cancelAll at h
  split at h
  · cases h
    exact .same rfl rfl rfl (fun _ => rfl) (fun _ => rfl) rfl
  · rename_i st hst
    rw [bind_eq_ok] at h
    obtain ⟨orders, -, h⟩ := h
    cases h
    exact .write hst rfl rfl rfl rfl rfl
        (fun _ => rfl) (fun _ _ => rfl) rfl

/-- A take-profit keeps the times. -/
theorem setTakeProfit {price : Option Decimal} {side : Option Side}
    (h : pb.setTakeProfit i price side = .ok pb') :
    KeepsTime pb (.setTakeProfit i price side) pb' := by
  rw [PaperBroker.setTakeProfit, bind_eq_ok] at h
  obtain ⟨st, hst, h⟩ := h
  split at h
  · cases h
  · cases h
    exact .write (PaperBroker.require_eq_ok.mp hst) rfl rfl rfl rfl rfl
        (fun _ => rfl) (fun _ _ => rfl) rfl

/-- A price of the liquidation keeps the times. -/
theorem setLiquidationPrice {price : Option Decimal}
    (h : pb.setLiquidationPrice i price = .ok pb') :
    KeepsTime pb (.setLiquidationPrice i price) pb' := by
  rw [PaperBroker.setLiquidationPrice, bind_eq_ok] at h
  obtain ⟨st, hst, h⟩ := h
  cases h
  exact .write (PaperBroker.require_eq_ok.mp hst) rfl rfl rfl rfl rfl
        (fun _ => rfl) (fun _ _ => rfl) rfl

/-- A rate keeps the times. -/
theorem setFundingRate {rate : Decimal} (h : pb.setFundingRate i rate = .ok pb') :
    KeepsTime pb (.setFundingRate i rate) pb' := by
  rw [PaperBroker.setFundingRate, bind_eq_ok] at h
  obtain ⟨st, hst, h⟩ := h
  cases h
  refine .write (PaperBroker.require_eq_ok.mp hst) rfl rfl rfl rfl ?_ (fun _ => rfl) ?_ rfl
  · show rate = (if i = i then some rate else none).getD _
    rw [if_pos rfl]
    rfl
  · intro j hj
    exact if_neg (Ne.symm hj)

/-- A bar moves the time of its instrument, and no other. -/
theorem onBar {bar : DecBar} {fills : List Fill} (h : pb.onBar bar = .ok (fills, pb')) :
    KeepsTime pb (.onBar bar) pb' := by
  unfold PaperBroker.onBar at h
  split at h
  · cases h
  · rename_i st hst
    split at h
    · cases h
    · rw [bind_eq_ok] at h
      obtain ⟨b, hrun, h⟩ := h
      cases h
      -- the bar charges its moments, and sets its own open as the last one
      have hterms := Book.runBar_terms hrun
      refine ⟨hterms.schedule, ?_, fun j sj hj => ?_⟩
      · rw [PaperBroker.charged, hst]
        rfl
      · simp only [Dict.get?_insert] at hj
        rw [BrokerCall.openOf]
        split at hj
        · rename_i hij
          cases hj
          rw [if_pos hij]
          exact ⟨st, hij ▸ hst, rfl, hterms.rate⟩
        · rename_i hij
          rw [if_neg hij]
          exact ⟨sj, hj, rfl, rfl⟩

end KeepsTime

/-- One call of the broker. -/
theorem KeepsTime.call {pb pb' : PaperBroker} {c : BrokerCall} {a : BrokerAnswer}
    (h : pb.call c = .ok (a, pb')) : KeepsTime pb c pb' := by
  -- only the bar charges, and only `setFundingRate` moves a rate
  cases c with
  | submit now req =>
    cases h
    exact .submit now req
  | cancel coid =>
    rw [PaperBroker.call, bind_eq_ok] at h
    obtain ⟨⟨done, pb₁⟩, hcall, h⟩ := h
    cases h
    exact .cancel hcall
  | cancelAll instrument =>
    rw [PaperBroker.call, bind_eq_ok] at h
    obtain ⟨pb₁, hcall, h⟩ := h
    cases h
    exact .cancelAll hcall
  | onBar bar =>
    rw [PaperBroker.call, bind_eq_ok] at h
    obtain ⟨⟨fs, pb₁⟩, hcall, h⟩ := h
    cases h
    exact .onBar hcall
  | setTakeProfit instrument price side =>
    rw [PaperBroker.call, bind_eq_ok] at h
    obtain ⟨pb₁, hcall, h⟩ := h
    cases h
    exact .setTakeProfit hcall
  | setLiquidationPrice instrument price =>
    rw [PaperBroker.call, bind_eq_ok] at h
    obtain ⟨pb₁, hcall, h⟩ := h
    cases h
    exact .setLiquidationPrice hcall
  | setFundingRate instrument rate =>
    rw [PaperBroker.call, bind_eq_ok] at h
    obtain ⟨pb₁, hcall, h⟩ := h
    cases h
    exact .setFundingRate hcall
  | nextUuid =>
    cases h
    exact .same rfl rfl rfl (fun _ => rfl) (fun _ => rfl) rfl

/-! ### The law -/

/-- The open time of the last bar of the instrument `i` in a run. -/
def BrokerLog.lastOpen (log : BrokerLog) (i : String) : Option ℤ :=
  (log.filterMap fun e => e.call.openOf i).getLast?

/-- A broker that has lived through `log`, with the cost model it began with. -/
structure TimeHistory (cost : CostModel) (pb : PaperBroker) (log : BrokerLog) : Prop where
  schedule : CostModel.SameSchedule cost pb.cost
  lastOpen : ∀ i st, pb.state.get? i = some st → st.lastOpenNs = log.lastOpen i

/-- One more call may open an instrument later than before. -/
theorem BrokerLog.lastOpen_snoc (log : BrokerLog)
    (e : Entry PaperBroker BrokerCall BrokerAnswer) (i : String) :
    BrokerLog.lastOpen (log ++ [e]) i = (e.call.openOf i).or (BrokerLog.lastOpen log i) := by
  unfold BrokerLog.lastOpen
  rw [List.filterMap_append]
  cases h : e.call.openOf i <;> simp [h]

/-- **Step lemma**: the history of the times goes on by one call. -/
theorem TimeHistory.snoc {cost : CostModel} {pb pb' : PaperBroker} {log : BrokerLog}
    {c : BrokerCall} {a : BrokerAnswer} (h : TimeHistory cost pb log)
    (hc : pb.call c = .ok (a, pb')) : TimeHistory cost pb' (log ++ [⟨pb, c, a, pb'⟩]) := by
  have hkeeps := KeepsTime.call hc
  refine ⟨h.schedule.trans hkeeps.schedule, fun i st' hst' => ?_⟩
  obtain ⟨st, hst, hlast, -⟩ := hkeeps.state i st' hst'
  rw [BrokerLog.lastOpen_snoc, hlast, h.lastOpen i st hst]

/-- What the schedule of a cost model promises. -/
structure ScheduleLaw (m : CostModel) : Prop where
  /-- The steps of a chain of times have the moments of the whole. -/
  additive : ∀ t₀ ts, List.IsChain (· < ·) (t₀ :: ts) →
    joined m.fundingTimes t₀ ts = m.fundingTimes t₀ (chainEnd t₀ ts)
  sorted : ∀ a b, (m.fundingTimes a b).Pairwise (· < ·)
  mem : ∀ a b t, t ∈ m.fundingTimes a b ↔ a < t ∧ t ≤ b ∧ m.isFundingTime t = true
  /-- The next moment is the first one after a time. -/
  next : ∀ a, m.isFundingTime (m.nextFundingTime a) = true ∧ a < m.nextFundingTime a ∧
    ∀ t, a < t → m.isFundingTime t = true → m.nextFundingTime a ≤ t

/-- The schedule of a model obeys the laws that the additivity rests on. -/
theorem CostModel.scheduleLaw (m : CostModel) : ScheduleLaw m where
  additive := by
    intro t₀ ts h
    exact (Enumerates.chain m.fundingTimes_enumerates h).unique (m.fundingTimes_enumerates _ _)
  sorted := fun a b => (m.fundingTimes_enumerates a b).sorted
  mem := fun a b => (m.fundingTimes_enumerates a b).mem
  next := m.nextFundingTime_first

/-- **Every bar of a run charges each moment of funding once**: those after the bar before it
    of the same instrument, up to its own open, when there is a position at the open. -/
def ChargedOnce (m : CostModel) (log : BrokerLog) : Prop :=
  ∀ pre e post bar, log = pre ++ e :: post → e.call = .onBar bar →
    ∃ st charges, e.before.state.get? bar.instrument = some st ∧
      e.after.funding = e.before.funding ++ charges ∧
      charges.map FundingCharge.tsNs =
        (if st.position = 0 then []
        else (BrokerLog.lastOpen pre bar.instrument).elim [] fun last =>
          m.fundingTimes last bar.openTimeNs) ∧
      ∀ ch ∈ charges, ch.positionQty = st.position

/-- **The schedule of funding** is additive, and every run of a broker that charges funding
    charges it once. -/
theorem funding_schedule (m : CostModel) : ScheduleLaw m ∧
    ∀ instruments ids lam rate pb log, m.chargesFunding = true →
      Run BrokerStep (PaperBroker.new m instruments ids lam rate) pb log → ChargedOnce m log := by
  refine ⟨m.scheduleLaw, fun instruments ids lam rate pb log hfull hrun => ?_⟩
  intro pre e post bar hlog hcall
  obtain ⟨hpre, hstep⟩ := hrun.before_entry hlog
  have hist : TimeHistory m e.before pre := by
    refine hpre.invariant (TimeHistory m) ⟨.refl m, fun i st hst => ?_⟩ ?_
    · obtain ⟨spec, -, rfl⟩ := PaperBroker.new_state hst
      rfl
    · intro pb log c a pb' ih hc
      exact ih.snoc hc
  have hkeeps := KeepsTime.call hstep
  rw [hcall] at hkeeps hstep
  -- a bar that returns has found its instrument
  have hknown : ∃ st, e.before.state.get? bar.instrument = some st := by
    cases hst : e.before.state.get? bar.instrument with
    | some st => exact ⟨st, rfl⟩
    | none =>
      rw [BrokerStep, PaperBroker.call, PaperBroker.onBar, hst] at hstep
      cases hstep
  obtain ⟨st, hst⟩ := hknown
  have hfunding := hkeeps.funding
  rw [PaperBroker.charged, hst, Option.elim_some] at hfunding
  refine ⟨st, _, hst, hfunding, ?_, fun ch hch => (InstState.fundingCharges_data hch).2.1⟩
  rw [InstState.fundingCharges_times, hist.lastOpen _ st hst, hist.schedule.chargesFunding, hfull]
  simp only [and_true, hist.schedule.fundingTimes]
  by_cases hpos : st.position = 0
  · rw [if_neg (not_not.mpr hpos), if_pos hpos]
  · rw [if_pos hpos, if_neg hpos]

/-! ### A position over two nights -/

/-- The sample cost model, charging everything. -/
def fullCost : CostModel := { sampleCost with mode := .full }

/-- A long that is held from the first bar on; the last bar opens the next day at one. -/
def heldCalls : List BrokerCall :=
  [.submit 1 (sampleOrder 7 .long none),
    .onBar ⟨"BTC", 1, 100, 105, 95, 101, 7⟩,
    .onBar ⟨"BTC", 9 * nsPerHour, 100, 105, 95, 101, 7⟩,
    .onBar ⟨"BTC", 25 * nsPerHour, 100, 105, 95, 101, 7⟩]

/-- The last bar charges the afternoon and the midnight. -/
theorem funding_schedule_sample : ∃ pb log,
    execE PaperBroker.call (.new fullCost [sampleInstrument] evenIds (94 / 100) (1 / 10000))
      heldCalls = .ok (pb, log) ∧
    pb.funding.map FundingCharge.tsNs = [8, 16, 24].map (fun h => h * nsPerHour) ∧
    ChargedOnce fullCost log := by
  obtain ⟨pb, log, hr, htimes⟩ := execE_any PaperBroker.call
    (.new fullCost [sampleInstrument] evenIds (94 / 100) (1 / 10000)) heldCalls
    (fun r => decide (r.1.funding.map FundingCharge.tsNs =
      [8, 16, 24].map (fun h => h * nsPerHour)))
    (by decide +kernel)
  exact ⟨pb, log, hr, of_decide_eq_true htimes,
    (funding_schedule fullCost).2 _ _ _ _ pb log rfl (Run.execE _ hr)⟩

end FuzzHelm
