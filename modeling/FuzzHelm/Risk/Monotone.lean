import FuzzHelm.Risk.State
import Mathlib.Algebra.Order.Ring.Star
import Mathlib.Data.Rat.Star

namespace FuzzHelm

/-!
# The risk machine is monotone in the observation

Of two observations that the same machine may be given at the same time, the one with less equity
and more volatility never leaves it in a less severe state.

* `EquitySnapshot.Worse`, `EquityTracker.observe_worse` — less equity is a deeper drawdown and a
  lower return of the day, whatever peak and opening capital the tracker holds;
* `haltDemand_of_worse`, `coolDemand_of_worse`, `warnDemand_of_worse` — the demands are monotone;
* `classify_worse` — and the recoveries are antitone, so that the target is monotone;
* `worse_observation` — the law for an update.
-/

/-- `v₂ ≤ v₁`, where an unknown ratio counts as the lowest. -/
def VolRatioLe (v₂ v₁ : Option ℚ) : Prop := ∀ x ∈ v₂, ∃ y ∈ v₁, x ≤ y

/-- The first observation is no better than the second one, made at the same time. -/
structure RiskObservation.Worse (obs₁ obs₂ : RiskObservation) : Prop where
  tsNs : obs₁.tsNs = obs₂.tsNs
  equity : obs₁.equity ≤ obs₂.equity
  volRatio : VolRatioLe obs₂.volRatio obs₁.volRatio

/-! ### The snapshots -/

/-- A deeper drawdown and a lower return of the day. -/
structure EquitySnapshot.Worse (s₁ s₂ : EquitySnapshot) : Prop where
  drawdown : s₂.drawdown ≤ s₁.drawdown
  dayReturn : s₁.dayReturn ≤ s₂.dayReturn

namespace EquityTracker

/-- The running peak is the larger of the old one and the equity. -/
theorem nextPeak_some {tr : EquityTracker} {p : Decimal} (hp : tr.peak = some p) (e : Decimal) :
    tr.nextPeak e = max p e := by
  unfold nextPeak
  rw [hp]
  dsimp only
  split
  · rename_i hlt
    exact (max_eq_right hlt.le).symm
  · rename_i hge
    exact (max_eq_left (not_lt.mp hge)).symm

/-- Without a peak the first equity is one. -/
theorem nextPeak_none {tr : EquityTracker} (hp : tr.peak = none) (e : Decimal) :
    tr.nextPeak e = e := by
  unfold nextPeak
  rw [hp]

/-- The drawdown is against the peak, and everything where there is none. -/
theorem observe_drawdown (tr : EquityTracker) (ts : ℤ) (e : Decimal) :
    ((tr.observe ts e).make ts e).drawdown =
      if 0 < tr.nextPeak e then 1 - e / tr.nextPeak e else 1 := rfl

/-- At a new peak there is no drawdown, unless the equity is lost. -/
theorem observe_drawdown_peak (tr : EquityTracker) (ts : ℤ) {e : Decimal}
    (hpeak : tr.nextPeak e = e) :
    ((tr.observe ts e).make ts e).drawdown = if 0 < e then 0 else 1 := by
  rw [observe_drawdown, hpeak]
  split
  · rename_i he
    rw [div_self he.ne', sub_self]
  · rfl

/-- At a new peak less equity is no smaller drawdown. -/
theorem peak_drawdown_anti {e₁ e₂ : Decimal} (he : e₁ ≤ e₂) :
    (if 0 < e₂ then (0 : Decimal) else 1) ≤ if 0 < e₁ then 0 else 1 := by
  by_cases h₁ : 0 < e₁
  · rw [if_pos h₁, if_pos (h₁.trans_le he)]
  · rw [if_neg h₁]
    split <;> norm_num

/-- **Less equity is a deeper drawdown.** -/
theorem observe_drawdown_anti (tr : EquityTracker) (ts : ℤ) {e₁ e₂ : Decimal} (he : e₁ ≤ e₂) :
    ((tr.observe ts e₂).make ts e₂).drawdown ≤ ((tr.observe ts e₁).make ts e₁).drawdown := by
  -- without a peak both values become one
  cases hp : tr.peak with
  | none =>
    rw [observe_drawdown_peak tr ts (nextPeak_none hp e₁),
      observe_drawdown_peak tr ts (nextPeak_none hp e₂)]
    exact peak_drawdown_anti he
  | some p =>
    have hbelow : ∀ e, e ≤ p → tr.nextPeak e = p := fun e h => by
      rw [nextPeak_some hp, max_eq_left h]
    have habove : ∀ e, p ≤ e → tr.nextPeak e = e := fun e h => by
      rw [nextPeak_some hp, max_eq_right h]
    -- where the two values stand against the peak
    rcases le_total e₂ p with h₂ | h₂
    · -- both stay under the old peak
      rw [observe_drawdown, observe_drawdown, hbelow _ h₂, hbelow _ (he.trans h₂)]
      split
      · rename_i hpos
        have hdiv : e₁ / p ≤ e₂ / p := div_le_div_of_nonneg_right he hpos.le
        linarith
      · exact le_refl _
    · rw [observe_drawdown_peak tr ts (habove _ h₂)]
      rcases le_total e₁ p with h₁ | h₁
      · -- only the better one is a new peak
        rw [observe_drawdown, hbelow _ h₁]
        by_cases hpos : 0 < p
        · have hdiv : e₁ / p ≤ 1 := div_le_one_of_le₀ h₁ hpos.le
          rw [if_pos hpos, if_pos (hpos.trans_le h₂)]
          linarith
        · rw [if_neg hpos]
          split <;> norm_num
      -- both are new peaks
      · rw [observe_drawdown_peak tr ts (habove _ h₁)]
        exact peak_drawdown_anti he

/-- The day opened with a capital of its own, or with the equity of the observation. -/
theorem nextDayOpen_cases (tr : EquityTracker) (day : ℤ) :
    (∃ c, ∀ e, tr.nextDayOpen day e = c) ∨ ∀ e, tr.nextDayOpen day e = e := by
  unfold nextDayOpen
  cases tr.day with
  | none => exact .inr fun e => rfl
  | some d =>
    dsimp only
    split
    · cases tr.lastEquity with
      | none => exact .inr fun e => rfl
      | some c => exact .inl ⟨c, fun e => rfl⟩
    · exact .inl ⟨_, fun e => rfl⟩

/-- **Less equity is a lower return of the day.** -/
theorem observe_dayReturn_mono (tr : EquityTracker) (ts : ℤ) {e₁ e₂ : Decimal} (he : e₁ ≤ e₂) :
    ((tr.observe ts e₁).make ts e₁).dayReturn ≤ ((tr.observe ts e₂).make ts e₂).dayReturn := by
  have hreturn : ∀ e, ((tr.observe ts e).make ts e).dayReturn =
      if tr.nextDayOpen (utcDayStartNs ts) e ≤ 0 then 0
      else (e - tr.nextDayOpen (utcDayStartNs ts) e) / tr.nextDayOpen (utcDayStartNs ts) e :=
    fun e => rfl
  rw [hreturn, hreturn]
  rcases tr.nextDayOpen_cases (utcDayStartNs ts) with ⟨c, hc⟩ | hown
  · rw [hc, hc]
    split
    · exact le_refl _
    · rename_i hpos
      exact div_le_div_of_nonneg_right (sub_le_sub_right he c) (not_le.mp hpos).le
  · -- the first observation makes no profit
    simp [hown]

/-- **Less equity makes a worse snapshot.** -/
theorem observe_worse (tr : EquityTracker) (ts : ℤ) {e₁ e₂ : Decimal} (he : e₁ ≤ e₂) :
    ((tr.observe ts e₁).make ts e₁).Worse ((tr.observe ts e₂).make ts e₂) :=
  ⟨tr.observe_drawdown_anti ts he, tr.observe_dayReturn_mono ts he⟩

end EquityTracker

/-! ### The demands and the events -/

namespace RiskStateMachine

section Demands

variable {s₁ s₂ : EquitySnapshot} (hs : s₁.Worse s₂) {v₁ v₂ : Option ℚ} (hv : VolRatioLe v₂ v₁)
  (c : StateMachineCfg)

include hs

/-- A worse snapshot demands a halt where the better one does. -/
theorem haltDemand_of_worse (h : haltDemand c s₂) : haltDemand c s₁ :=
  h.imp (fun hdd => hdd.trans hs.drawdown) fun hday => hs.dayReturn.trans hday

/-- A worse snapshot demands a cool-down where the better one does. -/
theorem coolDemand_of_worse (h : coolDemand c s₂) : coolDemand c s₁ :=
  h.imp (fun hdd => hdd.trans hs.drawdown) fun hday => hs.dayReturn.trans hday

include hv in
/-- A worse snapshot warns where the better one does. -/
theorem warnDemand_of_worse (h : warnDemand c s₂ v₂) : warnDemand c s₁ v₁ := by
  refine h.imp (fun hdd => hdd.trans hs.drawdown) ?_
  rintro ⟨x, hx, hlt⟩
  obtain ⟨y, hy, hle⟩ := hv x hx
  exact ⟨y, hy, hlt.trans_le hle⟩

end Demands

variable (m : RiskStateMachine)

/-- The state in which the classification of a snapshot leaves the machine. -/
def target (snap : EquitySnapshot) (volRatio : Option ℚ) : RiskState :=
  transitionTable m.state (m.classify snap volRatio)

/-- No state is more severe than the halt. -/
theorem severity_le_halted (s : RiskState) : s.severity ≤ RiskState.halted.severity := by
  cases s <;> decide

/-- Below `HALTED` only a halt breach leads above `COOLDOWN`. -/
theorem severity_le_cooldown {s : RiskState} {e : RiskEvent} (hs : s ≠ .halted)
    (he : e ≠ .haltBreach) :
    (transitionTable s e).severity ≤ RiskState.cooldown.severity := by
  cases s <;> cases e <;> first | decide | exact absurd rfl hs | exact absurd rfl he

/-- Below `COOLDOWN` an event that is no breach of the two upper limits leads to `WARNING` at
    most. -/
theorem severity_le_warning {s : RiskState} {e : RiskEvent} (hs : s ≠ .halted ∧ s ≠ .cooldown)
    (he : e ≠ .haltBreach ∧ e ≠ .coolBreach) :
    (transitionTable s e).severity ≤ RiskState.warning.severity := by
  cases s <;> cases e <;>
    first | decide | exact absurd rfl hs.1 | exact absurd rfl hs.2 | exact absurd rfl he.1 |
      exact absurd rfl he.2

/-- **The target of a worse snapshot is no less severe.** -/
theorem target_of_worse {s₁ s₂ : EquitySnapshot} (hs : s₁.Worse s₂) {v₁ v₂ : Option ℚ}
    (hv : VolRatioLe v₂ v₁) : (m.target s₂ v₂).severity ≤ (m.target s₁ v₁).severity := by
  have hhalt := haltDemand_of_worse hs m.cfg
  have hcool := coolDemand_of_worse hs m.cfg
  have hwarn := warnDemand_of_worse hs hv m.cfg
  unfold target classify
  by_cases h₁ : m.killswitch.tripped = true ∨ haltDemand m.cfg s₁
  · have htarget : transitionTable m.state .haltBreach = .halted := by cases m.state <;> rfl
    rw [if_pos h₁, htarget]
    exact severity_le_halted _
  rw [if_neg h₁, if_neg fun h => h₁ (h.imp_right hhalt)]
  by_cases hhalted : m.state = .halted
  · rw [if_pos hhalted, if_pos hhalted]
  rw [if_neg hhalted, if_neg hhalted]
  by_cases hc₁ : coolDemand m.cfg s₁
  · have htarget : transitionTable m.state .coolBreach = .cooldown := by
      cases hstate : m.state <;> first | rfl | exact absurd hstate hhalted
    rw [if_pos hc₁, htarget]
    refine severity_le_cooldown hhalted ?_
    split
    · decide
    · split
      · split <;> decide
      · split
        · decide
        · split <;> decide
  rw [if_neg hc₁, if_neg fun h => hc₁ (hcool h)]
  by_cases hcooldown : m.state = .cooldown
  · rw [if_pos hcooldown, if_pos hcooldown, hcooldown]
    by_cases hr₁ : s₁.drawdown ≤ m.cfg.coolExit ∧ m.cfg.coolDwell ≤ m.dwell
    · -- where the worse snapshot recovers the better one does
      rw [if_pos hr₁, if_pos ⟨hs.drawdown.trans hr₁.1, hr₁.2⟩]
    · rw [if_neg hr₁]
      split <;> decide
  rw [if_neg hcooldown, if_neg hcooldown]
  by_cases hw₁ : warnDemand m.cfg s₁ v₁
  · have htarget : transitionTable m.state .warnBreach = .warning := by
      cases hstate : m.state <;>
        first | rfl | exact absurd hstate hhalted | exact absurd hstate hcooldown
    rw [if_pos hw₁, htarget]
    refine severity_le_warning ⟨hhalted, hcooldown⟩ ?_
    split
    · decide
    · split <;> decide
  rw [if_neg hw₁, if_neg fun h => hw₁ (hwarn h)]
  by_cases hr₁ : m.state = .warning ∧ s₁.drawdown ≤ m.cfg.warnExit ∧ m.cfg.warnDwell ≤ m.dwell
  · rw [if_pos hr₁, if_pos ⟨hr₁.1, hs.drawdown.trans hr₁.2.1, hr₁.2.2⟩]
  · rw [if_neg hr₁]
    -- a steady event keeps the state, and a recovery does not raise it
    have hsteady : transitionTable m.state .steady = m.state := by cases m.state <;> rfl
    have hrecover : (transitionTable m.state .recovery).severity ≤ m.state.severity := by
      cases m.state <;> decide
    rw [hsteady]
    split
    · exact hrecover
    · rw [hsteady]

/-- The state that a move leaves. -/
theorem move_state (snap : EquitySnapshot) (volRatio : Option ℚ) :
    (m.move snap volRatio).2.state =
      if m.state = .halted ∧ m.killswitch.tripped = false then .cooldown
      else m.target snap volRatio := by
  obtain ⟨-, ⟨hs, hopen, hstate, -⟩ | ⟨hnot, hstate, -⟩⟩ := m.move_spec snap volRatio
  · rw [if_pos ⟨hs, hopen⟩, hstate]
  · rw [if_neg hnot, hstate]
    rfl

end RiskStateMachine

/-- **The machine is monotone in the observation.**  In every state of the machine, reachable or
    not, of two observations made at the same time the worse one is accepted exactly when the
    better one is, and never leaves the machine in a less severe state. -/
theorem worse_observation (m : RiskStateMachine) {obs₁ obs₂ : RiskObservation}
    (h : obs₁.Worse obs₂) :
    (m.update obs₁).1.isOk = (m.update obs₂).1.isOk ∧
      (m.update obs₂).2.state.severity ≤ (m.update obs₁).2.state.severity := by
  unfold RiskStateMachine.update EquityTracker.update
  rw [h.tsNs]
  by_cases hlate : (m.tracker.lastTs.any fun last => obs₂.tsNs < last) = true
  · rw [if_pos hlate, if_pos hlate]
    exact ⟨rfl, le_refl _⟩
  · rw [if_neg hlate, if_neg hlate]
    refine ⟨rfl, ?_⟩
    show ((m.observed obs₂ _).move _ obs₂.volRatio).2.state.severity ≤
      ((m.observed obs₁ _).move _ obs₁.volRatio).2.state.severity
    rw [RiskStateMachine.move_state, RiskStateMachine.move_state]
    show (if m.state = .halted ∧ m.killswitch.tripped = false then _ else _ : RiskState).severity ≤
      (if m.state = .halted ∧ m.killswitch.tripped = false then _ else _ : RiskState).severity
    split
    · exact le_refl _
    · have hworse := m.tracker.observe_worse obs₂.tsNs h.equity
      exact (m.observed obs₂ m.tracker).target_of_worse hworse h.volRatio

/-- After a first observation of 100, a fall to 97.5 with an unknown volatility is a `COOLDOWN`,
    and a fall to 85 with a high one a `HALTED`. -/
theorem worse_observation_sample :
    let m := (RiskStateMachine.update
      (.new .default .new .new) ⟨10, 100, none, by simp⟩).2
    (m.update ⟨20, 85, some 2, by simp⟩).2.state = .halted ∧
    (m.update ⟨20, 195 / 2, none, by simp⟩).2.state = .cooldown ∧
    (m.update ⟨20, 85, some 2, by simp⟩).1.isOk = (m.update ⟨20, 195 / 2, none, by simp⟩).1.isOk ∧
    (m.update ⟨20, 195 / 2, none, by simp⟩).2.state.severity ≤
      (m.update ⟨20, 85, some 2, by simp⟩).2.state.severity :=
  ⟨by decide +kernel, by decide +kernel,
    worse_observation _ ⟨rfl, by norm_num, fun x hx => by cases hx⟩⟩

end FuzzHelm
