import FuzzHelm.Risk.Config
import FuzzHelm.Risk.Context
import FuzzHelm.Risk.KillSwitch

namespace FuzzHelm

open Lib

/-!
# The risk state machine

`NORMAL → WARNING → COOLDOWN → HALTED` with hysteresis and dwell times.  One observation is
classified into exactly one of six events, and the event moves the state along a total
table.  The machine and the kill-switch hold the latch together: `HALTED` trips the switch,
and a switch that was released directly is noticed by the next update.

* `transition_severity_le` — no event other than an administrator's release takes the
  machine down by more than one level;
* `update_cases` — everything one accepted observation can do: follow a direct release of
  the switch, stay, or move along the table;
* `release_cases` — everything a release can do.
-/

/-! ### Events and the table -/

/-- `RiskEvent`: what moves the state. -/
inductive RiskEvent where
  | haltBreach
  | coolBreach
  | warnBreach
  | recovery
  | steady
  | adminRelease
  deriving DecidableEq, Repr

/-- The string value of an event. -/
def RiskEvent.value : RiskEvent → String
  | .haltBreach => "HALT_BREACH"
  | .coolBreach => "COOL_BREACH"
  | .warnBreach => "WARN_BREACH"
  | .recovery => "RECOVERY"
  | .steady => "STEADY"
  | .adminRelease => "ADMIN_RELEASE"

/-- `TRANSITIONS`: the total table of 4 states and 6 events. -/
def transitionTable : RiskState → RiskEvent → RiskState
  | .normal, .haltBreach => .halted
  | .normal, .coolBreach => .cooldown
  | .normal, .warnBreach => .warning
  | .normal, .recovery => .normal
  | .normal, .steady => .normal
  | .normal, .adminRelease => .normal
  | .warning, .haltBreach => .halted
  | .warning, .coolBreach => .cooldown
  | .warning, .warnBreach => .warning
  | .warning, .recovery => .normal
  | .warning, .steady => .warning
  | .warning, .adminRelease => .warning
  | .cooldown, .haltBreach => .halted
  | .cooldown, .coolBreach => .cooldown
  | .cooldown, .warnBreach => .cooldown
  | .cooldown, .recovery => .warning
  | .cooldown, .steady => .cooldown
  | .cooldown, .adminRelease => .cooldown
  | .halted, .haltBreach => .halted
  | .halted, .coolBreach => .halted
  | .halted, .warnBreach => .halted
  | .halted, .recovery => .halted
  | .halted, .steady => .halted
  | .halted, .adminRelease => .cooldown

/-- `SEVERITY`: the order of the states. -/
def RiskState.severity : RiskState → ℕ
  | .normal => 0
  | .warning => 1
  | .cooldown => 2
  | .halted => 3

/-- A move to lower severity is a recovery by one level, or the release of `HALTED`. -/
theorem transition_severity_lt {s : RiskState} {e : RiskEvent}
    (h : (transitionTable s e).severity < s.severity) :
    (e = .recovery ∧ s = .warning ∧ transitionTable s e = .normal) ∨
      (e = .recovery ∧ s = .cooldown ∧ transitionTable s e = .warning) ∨
      (e = .adminRelease ∧ s = .halted ∧ transitionTable s e = .cooldown) := by
  cases s <;> cases e <;> simp_all [transitionTable, RiskState.severity]

/-! ### Observations and transitions -/

/-- The observation of one bar; an unknown volatility ratio is `none`. -/
structure RiskObservation where
  tsNs : ℤ
  equity : Decimal
  volRatio : Option ℚ
  volRatio_nonneg : ∀ v ∈ volRatio, 0 ≤ v
  deriving DecidableEq

/-- `Transition`: the states before and after, the event, and who asked for it. -/
structure Transition where
  tsNs : ℤ
  stateFrom : RiskState
  stateTo : RiskState
  event : RiskEvent
  dwellBars : ℕ
  drawdown : Decimal
  dayReturn : Decimal
  volRatio : Option ℚ
  actor : Option String
  deriving DecidableEq, Repr

/-- The state of the machine as the audit log sees it. -/
structure RiskAuditState where
  state : RiskState
  kappaMode : Decimal
  dwellBars : ℕ
  peak : Option Decimal
  drawdown : Option Decimal
  killswitch : KillSwitchState
  deriving DecidableEq, Repr

/-- `RiskStateMachine`: the state with its dwell, the tracker and the switch. -/
structure RiskStateMachine where
  cfg : StateMachineCfg
  killswitch : KillSwitch
  tracker : EquityTracker
  state : RiskState
  dwell : ℕ
  lastTs : ℤ
  lastVol : Option ℚ
  transitions : List Transition
  audit : List (AuditRecord RiskAuditState)

/-! ### The machine -/

namespace RiskStateMachine

/-- `RiskStateMachine(cfg, killswitch=…, tracker=…)`: calm, unless the switch is tripped. -/
def new (cfg : StateMachineCfg) (killswitch : KillSwitch) (tracker : EquityTracker) :
    RiskStateMachine :=
  ⟨cfg, killswitch, tracker, .normal, 0, 0, none, [], []⟩

variable (m : RiskStateMachine)

/-- `kappa_mode`: the factor of the state. -/
def kappaMode : Decimal := m.cfg.kappaMode m.state

/-- The demand of a snapshot that the machine be `HALTED`. -/
def haltDemand (c : StateMachineCfg) (snap : EquitySnapshot) : Prop :=
  c.haltEnter ≤ snap.drawdown ∨ snap.dayReturn ≤ -c.haltDailyLoss

/-- What demands a cool-down. -/
def coolDemand (c : StateMachineCfg) (snap : EquitySnapshot) : Prop :=
  c.coolEnter ≤ snap.drawdown ∨ snap.dayReturn ≤ -c.coolDailyLoss

/-- What demands a warning. -/
def warnDemand (c : StateMachineCfg) (snap : EquitySnapshot) (volRatio : Option ℚ) : Prop :=
  c.warnEnter ≤ snap.drawdown ∨ ∃ v ∈ volRatio, c.warnVolRatio < v

/-- Whether a halt is demanded can be computed. -/
instance (c : StateMachineCfg) (snap : EquitySnapshot) : Decidable (haltDemand c snap) :=
  inferInstanceAs (Decidable (_ ∨ _))

/-- Whether a cool-down is demanded can be computed. -/
instance (c : StateMachineCfg) (snap : EquitySnapshot) : Decidable (coolDemand c snap) :=
  inferInstanceAs (Decidable (_ ∨ _))

/-- Whether a warning is demanded can be computed. -/
instance (c : StateMachineCfg) (snap : EquitySnapshot) (volRatio : Option ℚ) :
    Decidable (warnDemand c snap volRatio) :=
  inferInstanceAs (Decidable (_ ∨ _))

/-- `classify`: exactly one event for an observation, by falling priority. -/
def classify (snap : EquitySnapshot) (volRatio : Option ℚ) : RiskEvent :=
  if m.killswitch.tripped ∨ haltDemand m.cfg snap then .haltBreach
  else if m.state = .halted then .steady
  else if coolDemand m.cfg snap then .coolBreach
  else if m.state = .cooldown then
    if snap.drawdown ≤ m.cfg.coolExit ∧ m.cfg.coolDwell ≤ m.dwell then .recovery else .steady
  else if warnDemand m.cfg snap volRatio then .warnBreach
  else if m.state = .warning ∧ snap.drawdown ≤ m.cfg.warnExit ∧ m.cfg.warnDwell ≤ m.dwell then
    .recovery
  else .steady

/-- `_apply`: move along the table; entering `HALTED` trips the kill-switch. -/
def apply (event : RiskEvent) (snap : EquitySnapshot) (volRatio : Option ℚ)
    (actor : Option String) : Option Transition × RiskStateMachine :=
  let target := transitionTable m.state event
  if target = m.state then (none, m)
  else
    let tr : Transition :=
      { tsNs := snap.tsNs
        stateFrom := m.state
        stateTo := target
        event := event
        dwellBars := m.dwell
        drawdown := snap.drawdown
        dayReturn := snap.dayReturn
        volRatio := volRatio
        actor := actor }
    (some tr, { m with
      state := target
      dwell := 0
      killswitch :=
        if target = .halted then
          (m.killswitch.trip none ("risk_state:" ++ event.value) (some snap.tsNs)).2
        else m.killswitch
      transitions := m.transitions ++ [tr] })

/-- `_release_transition`: rebase the tracker and apply the administrator's release. -/
def releaseTransition (actor : Option String) : Option Transition × RiskStateMachine :=
  let (snap, tracker) := m.tracker.rebase
  let snap := snap.getD ⟨m.lastTs, 0, 0, 0, 0, 0, 0⟩
  apply { m with tracker := tracker } .adminRelease snap m.lastVol actor

/-- The machine that has taken in an observation and not yet moved. -/
def observed (obs : RiskObservation) (tracker : EquityTracker) : RiskStateMachine :=
  { m with
    tracker := tracker
    lastTs := obs.tsNs
    lastVol := obs.volRatio
    dwell := m.dwell + 1 }

/-- The move that follows an observation: a switch that was released directly takes the
    machine out of `HALTED`, anything else goes through the classification. -/
def move (snap : EquitySnapshot) (volRatio : Option ℚ) : Option Transition × RiskStateMachine :=
  if m.state = .halted ∧ m.killswitch.tripped = false then
    m.releaseTransition (some "kill_switch")
  else m.apply (m.classify snap volRatio) snap volRatio none

/-- `update`: observe, lengthen the dwell, classify and move. -/
def update (obs : RiskObservation) : Except PyError (Option Transition) × RiskStateMachine :=
  match m.tracker.update obs.tsNs obs.equity with
  | .error e => (.error e, m)
  | .ok (snap, tracker) =>
    let (tr, m') := (m.observed obs tracker).move snap obs.volRatio
    (.ok tr, m')

/-- `_audit_state`: what the log is told of the state. -/
def auditState : RiskAuditState where
  state := m.state
  kappaMode := m.kappaMode
  dwellBars := m.dwell
  peak := m.tracker.snapshot.map EquitySnapshot.peak
  drawdown := m.tracker.snapshot.map EquitySnapshot.drawdown
  killswitch := m.killswitch.state

/-- `actor or str(actor_role)`: an empty name counts as none. -/
def actorOr (actor : Option String) (actorRole : Role) : String :=
  match actor with
  | none => actorRole
  | some a => if a = "" then actorRole else a

/-- `release`: only an administrator.  Outside `HALTED` it opens a switch that is already
    tripped; in `HALTED` it opens the switch, rebases the tracker and moves to `COOLDOWN`. -/
def release (clock : Option ℤ) (actorRole : Role) (actor : Option String) :
    Except PyError (Option Transition) × RiskStateMachine :=
  if actorRole ≠ Role.admin then
    (.error (.permissionDenied "HALTED release requires role admin"), m)
  else
    let ts := clock.getD m.lastTs
    let opened := (m.killswitch.release clock actorRole actor (some ts)).2
    -- outside HALTED only the switch is released
    if m.state ≠ .halted then
      if m.killswitch.tripped then (.ok none, { m with killswitch := opened })
      else (.ok none, m)
    else
      let before := m.auditState
      let (tr, m') := releaseTransition { m with killswitch := opened }
        (some (actorOr actor actorRole))
      (.ok tr, { m' with
        audit := m'.audit ++ [{
          tsNs := ts
          action := "risk.release"
          target := "risk_state"
          actorRole := actorRole
          actor := actor
          before := before
          after := m'.auditState }] })

/-! ### What one move can do -/

/-- A move along the table changes the state to the table's target and restarts the dwell
    exactly when the target differs. -/
theorem apply_state (event : RiskEvent) (snap : EquitySnapshot) (volRatio : Option ℚ)
    (actor : Option String) :
    (m.apply event snap volRatio actor).2.state = transitionTable m.state event := by
  simp only [apply]
  split
  · rename_i h
    exact h.symm
  · rfl

/-- A transition keeps the configuration. -/
@[simp] theorem apply_cfg (event : RiskEvent) (snap : EquitySnapshot) (volRatio : Option ℚ)
    (actor : Option String) : (m.apply event snap volRatio actor).2.cfg = m.cfg := by
  simp only [apply]
  split <;> rfl

/-- A transition keeps the tracker. -/
@[simp] theorem apply_tracker (event : RiskEvent) (snap : EquitySnapshot)
    (volRatio : Option ℚ) (actor : Option String) :
    (m.apply event snap volRatio actor).2.tracker = m.tracker := by
  simp only [apply]
  split <;> rfl

/-- A transition into another state starts the dwell afresh. -/
theorem apply_dwell (event : RiskEvent) (snap : EquitySnapshot) (volRatio : Option ℚ)
    (actor : Option String) :
    (m.apply event snap volRatio actor).2.dwell =
      if transitionTable m.state event = m.state then m.dwell else 0 := by
  simp only [apply]
  split <;> rfl

/-- A transition into the halt trips the switch, and none releases it. -/
theorem apply_killswitch (event : RiskEvent) (snap : EquitySnapshot) (volRatio : Option ℚ)
    (actor : Option String) :
    (m.apply event snap volRatio actor).2.killswitch.tripped =
      (m.killswitch.tripped ||
        decide (transitionTable m.state event = .halted ∧ m.state ≠ .halted)) := by
  simp only [apply]
  by_cases hsame : transitionTable m.state event = m.state
  · rw [if_pos hsame, hsame]
    simp
  · rw [if_neg hsame]
    by_cases hh : transitionTable m.state event = .halted
    · have hne : m.state ≠ .halted := fun h => hsame (hh.trans h.symm)
      simp [hh, hne]
    · simp [hh]

/-- The administrator's release takes `HALTED` to `COOLDOWN` and leaves every other state. -/
theorem releaseTransition_spec (actor : Option String) :
    (m.releaseTransition actor).2.state =
        (if m.state = .halted then .cooldown else m.state) ∧
      (m.releaseTransition actor).2.tracker = m.tracker.rebase.2 ∧
      (m.releaseTransition actor).2.killswitch.tripped = m.killswitch.tripped ∧
      (m.releaseTransition actor).2.cfg = m.cfg := by
  simp only [releaseTransition]
  refine ⟨?_, apply_tracker _ _ _ _ _, ?_, apply_cfg _ _ _ _ _⟩
  · rw [apply_state]
    cases hs : m.state <;> rfl
  · rw [apply_killswitch]
    cases hs : m.state <;> simp [transitionTable]

/-- **Everything a move can do.** Out of `HALTED` only along a released switch, and then to
    `COOLDOWN` with a rebased tracker; otherwise to the target of the classified event, with
    the switch tripped on entering `HALTED`. -/
theorem move_spec (snap : EquitySnapshot) (volRatio : Option ℚ) :
    (m.move snap volRatio).2.cfg = m.cfg ∧
    ((m.state = .halted ∧ m.killswitch.tripped = false ∧
        (m.move snap volRatio).2.state = .cooldown ∧
        (m.move snap volRatio).2.tracker = m.tracker.rebase.2 ∧
        (m.move snap volRatio).2.dwell = 0 ∧
        (m.move snap volRatio).2.killswitch.tripped = false) ∨
      (¬ (m.state = .halted ∧ m.killswitch.tripped = false) ∧
        (m.move snap volRatio).2.state = transitionTable m.state (m.classify snap volRatio) ∧
        (m.move snap volRatio).2.tracker = m.tracker ∧
        (m.move snap volRatio).2.dwell =
          (if transitionTable m.state (m.classify snap volRatio) = m.state then m.dwell
            else 0) ∧
        (m.move snap volRatio).2.killswitch.tripped =
          (m.killswitch.tripped ||
            decide (transitionTable m.state (m.classify snap volRatio) = .halted ∧
              m.state ≠ .halted)))) := by
  unfold move
  -- the switch released directly, or the table
  split
  · rename_i h
    obtain ⟨hs, ht, hk, hc⟩ := m.releaseTransition_spec (some "kill_switch")
    refine ⟨hc, .inl ⟨h.1, h.2, ?_, ht, ?_, hk.trans h.2⟩⟩
    · rw [hs, if_pos h.1]
    -- the move to COOLDOWN changes the state, so the dwell starts anew
    · simp only [releaseTransition]
      rw [apply_dwell, if_neg]
      show ¬ transitionTable m.state .adminRelease = m.state
      rw [h.1]
      decide
  · rename_i h
    exact ⟨apply_cfg _ _ _ _ _, .inr ⟨h, apply_state _ _ _ _ _, apply_tracker _ _ _ _ _,
      apply_dwell _ _ _ _ _, apply_killswitch _ _ _ _ _⟩⟩

/-- An update that raises leaves the machine as it was; an accepted one observes and
    moves. -/
theorem update_cases {obs : RiskObservation} {a : Except PyError (Option Transition)}
    {m' : RiskStateMachine} (h : m.update obs = (a, m')) :
    ((∃ e, a = .error e) ∧ m' = m) ∨
      ∃ tr snap tracker, a = .ok tr ∧
        m.tracker.update obs.tsNs obs.equity = .ok (snap, tracker) ∧
        (m.observed obs tracker).move snap obs.volRatio = (tr, m') := by
  unfold update at h
  split at h
  · rename_i e _
    rw [Prod.mk.injEq] at h
    exact .inl ⟨⟨e, h.1.symm⟩, h.2.symm⟩
  · rename_i snap tracker hu
    rw [Prod.mk.injEq] at h
    exact .inr ⟨_, snap, tracker, h.1.symm, hu, Prod.ext rfl h.2⟩

/-- **Everything a release can do.** Refuse and change nothing; open a tripped switch
    outside `HALTED`; or leave `HALTED` for `COOLDOWN` with the switch open. -/
theorem release_cases {clock : Option ℤ} {role : Role} {actor : Option String}
    {a : Except PyError (Option Transition)} {m' : RiskStateMachine}
    (h : m.release clock role actor = (a, m')) :
    (role ≠ Role.admin ∧ a = .error (.permissionDenied "HALTED release requires role admin") ∧
        m' = m) ∨
      (role = Role.admin ∧ m.state ≠ .halted ∧ m'.state = m.state ∧ m'.dwell = m.dwell ∧
        m'.tracker = m.tracker ∧ m'.cfg = m.cfg ∧ m'.killswitch.tripped = false) ∨
      (role = Role.admin ∧ m.state = .halted ∧ m'.state = .cooldown ∧ m'.dwell = 0 ∧
        m'.cfg = m.cfg ∧ m'.killswitch.tripped = false) := by
  -- denied, or in HALTED, or elsewhere
  by_cases hrole : role = Role.admin
  · right
    subst hrole
    simp only [release, ne_eq, not_true_eq_false, if_false, ite_not] at h
    split at h
    · rename_i hs
      rw [Prod.mk.injEq] at h
      obtain ⟨-, rfl⟩ := h
      refine .inr ⟨rfl, hs, ?_⟩
      obtain ⟨h1, -, h3, h4⟩ := releaseTransition_spec
        { m with killswitch := (m.killswitch.release clock Role.admin actor
            (some (clock.getD m.lastTs))).2 } (some (actorOr actor Role.admin))
      refine ⟨?_, ?_, h4, ?_⟩
      · exact h1.trans (if_pos hs)
      · simp only [releaseTransition]
        rw [apply_dwell, if_neg]
        show ¬ transitionTable m.state .adminRelease = m.state
        rw [hs]
        decide
      · exact h3.trans (KillSwitch.release_admin_tripped _ _ _ _)
    · rename_i hs
      refine .inl ⟨rfl, hs, ?_⟩
      -- the switch is opened only where it was tripped
      split at h
      · rw [Prod.mk.injEq] at h
        obtain ⟨-, rfl⟩ := h
        exact ⟨rfl, rfl, rfl, rfl, KillSwitch.release_admin_tripped _ _ _ _⟩
      · rename_i ht
        rw [Prod.mk.injEq] at h
        obtain ⟨-, rfl⟩ := h
        exact ⟨rfl, rfl, rfl, rfl, by simpa using ht⟩
  · left
    rw [release, if_pos hrole, Prod.mk.injEq] at h
    exact ⟨hrole, h.1.symm, h.2.symm⟩

end RiskStateMachine

end FuzzHelm
