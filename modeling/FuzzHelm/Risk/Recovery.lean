import FuzzHelm.Risk.Latch

namespace FuzzHelm

open Lib

/-!
# Severity floor and staged recovery

How far down an observation lets the machine be, and how it comes back up.

* `demand` — the state that the snapshot of an observation calls for;
* `move_floor` — one classified move ends at least there;
* `dwellInv_step` — the dwell counter is the number of updates spent in the current state;
* `severity_floor_fails` — a switch released by hand on an account without capital is the one
  update after which the floor does not hold;
* `staged_recovery` — the floor over whole runs, and the way back, one level at a time.
-/

/-! ### What an observation demands -/

open RiskStateMachine in
/-- The state that a snapshot and a volatility ratio call for. -/
def demand (c : StateMachineCfg) (snap : EquitySnapshot) (volRatio : Option ℚ) : RiskState :=
  if haltDemand c snap then .halted
  else if coolDemand c snap then .cooldown
  else if warnDemand c snap volRatio then .warning
  else .normal

/-- **One classified move.** Unless the machine follows a released switch, it ends at least
    as severe as its observation demands. -/
theorem move_floor (m : RiskStateMachine) (snap : EquitySnapshot) (volRatio : Option ℚ)
    (hlatch : ¬ (m.state = .halted ∧ m.killswitch.tripped = false)) :
    (demand m.cfg snap volRatio).severity ≤
      (transitionTable m.state (m.classify snap volRatio)).severity := by
  unfold demand RiskStateMachine.classify
  by_cases htrip : m.killswitch.tripped = true ∨ RiskStateMachine.haltDemand m.cfg snap
  · -- a breach of the last level: every row of the table goes to HALTED
    rw [if_pos htrip]
    have hrow : transitionTable m.state .haltBreach = .halted := by cases m.state <;> rfl
    rw [hrow]
    split
    · exact le_rfl
    · split
      · decide
      · split <;> decide
  -- no breach of the last level, and the state is not HALTED
  · rw [if_neg htrip]
    rw [not_or] at htrip
    have hnot : m.state ≠ .halted := fun hs => hlatch ⟨hs, by simpa using htrip.1⟩
    rw [if_neg htrip.2, if_neg hnot]
    -- COOLDOWN is demanded, or WARNING, or nothing
    by_cases hcool : RiskStateMachine.coolDemand m.cfg snap
    · rw [if_pos hcool, if_pos hcool]
      cases hs : m.state <;> first | exact absurd hs hnot | decide
    · rw [if_neg hcool, if_neg hcool]
      cases hs : m.state with
      | halted => exact absurd hs hnot
      | cooldown =>
        rw [if_pos rfl]
        split <;> split <;> decide
      | normal =>
        rw [if_neg (show ¬ RiskState.normal = .cooldown by decide)]
        split
        · decide
        · exact Nat.zero_le _
      | warning =>
        rw [if_neg (show ¬ RiskState.warning = .cooldown by decide)]
        split
        · decide
        · exact Nat.zero_le _

/-- **A classified recovery** has met the exit threshold and the dwell of its state. -/
theorem classify_recovery {m : RiskStateMachine} {snap : EquitySnapshot} {volRatio : Option ℚ}
    (h : m.classify snap volRatio = .recovery) :
    (m.state = .cooldown ∧ snap.drawdown ≤ m.cfg.coolExit ∧ m.cfg.coolDwell ≤ m.dwell) ∨
      (m.state = .warning ∧ snap.drawdown ≤ m.cfg.warnExit ∧ m.cfg.warnDwell ≤ m.dwell) := by
  -- the breaches come first, so a recovery has passed them
  unfold RiskStateMachine.classify at h
  split at h
  · cases h
  · split at h
    · cases h
    · split at h
      · cases h
      · split at h
        · rename_i hs
          split at h
          · rename_i hexit
            exact .inl ⟨hs, hexit⟩
          · cases h
        · split at h
          · cases h
          · split at h
            · rename_i hexit
              exact .inr hexit
            · cases h

/-- No observation is classified as an administrator's release. -/
theorem classify_ne_adminRelease (m : RiskStateMachine) (snap : EquitySnapshot)
    (volRatio : Option ℚ) : m.classify snap volRatio ≠ .adminRelease := by
  unfold RiskStateMachine.classify
  intro h
  split at h
  · cases h
  · split at h
    · cases h
    · split at h
      · cases h
      · split at h
        · split at h <;> cases h
        · split at h
          · cases h
          · split at h <;> cases h

/-! ### The dwell counter -/

/-- The call was an update that went through. -/
def isObservation (e : Entry RiskStateMachine RiskCall RiskAnswer) : Bool :=
  e.call.observation.isSome && e.answer.isOk

/-- The number of accepted updates in the longest tail of the log whose calls all found the
    machine in the state `st`. -/
def updatesSpent (st : RiskState) (log : RiskLog) : ℕ :=
  (log.reverse.takeWhile (fun x => x.before.state = st)).countP isObservation

/-- The updates that were spent in a state since it was entered. -/
theorem updatesSpent_snoc (st : RiskState) (log : RiskLog)
    (e : Entry RiskStateMachine RiskCall RiskAnswer) :
    updatesSpent st (log ++ [e]) =
      if e.before.state = st then updatesSpent st log + (if isObservation e then 1 else 0)
      else 0 := by
  unfold updatesSpent
  rw [List.reverse_append, List.reverse_singleton, List.singleton_append]
  by_cases h : e.before.state = st
  · rw [List.takeWhile_cons_of_pos (by simpa using h), List.countP_cons, if_pos h]
  · rw [List.takeWhile_cons_of_neg (by simpa using h), if_neg h, List.countP_nil]

/-- A call keeps the configuration; the dwell counts the accepted updates that stay in the
    state and restarts with every change. -/
theorem call_dwell {m m' : RiskStateMachine} {c : RiskCall} {a : RiskAnswer}
    (h : m.call c = (a, m')) :
    m'.cfg = m.cfg ∧
      m'.dwell =
        if m'.state = m.state then m.dwell + (if isObservation ⟨m, c, a, m'⟩ then 1 else 0)
        else 0 := by
  -- the state is left or kept; each kept observation adds one to the dwell
  cases c with
  | update obs =>
    obtain ⟨r, rfl, hu⟩ := call_update h
    rcases m.update_cases hu with ⟨⟨e, rfl⟩, rfl⟩ | ⟨tr, snap, tracker, rfl, -, hmove⟩
    · exact ⟨rfl, by rw [if_pos rfl]; rfl⟩
    · have hm' : m' = ((m.observed obs tracker).move snap obs.volRatio).2 := by rw [hmove]
      obtain ⟨hcfg, hspec⟩ := (m.observed obs tracker).move_spec snap obs.volRatio
      rw [← hm'] at hcfg hspec
      refine ⟨hcfg, ?_⟩
      have hstate : (m.observed obs tracker).state = m.state := rfl
      have hdwell : (m.observed obs tracker).dwell = m.dwell + 1 := rfl
      rw [hstate, hdwell] at hspec
      rcases hspec with ⟨hs, -, hs', -, hd, -⟩ | ⟨-, hs', -, hd, -⟩
      · rw [hd, if_neg]
        rw [hs, hs']
        decide
      · rw [hd, hs']
        rfl
  | release clock role actor =>
    obtain ⟨r, rfl, hr⟩ := call_release h
    rcases m.release_cases hr with ⟨-, -, rfl⟩ | ⟨-, -, hs, hd, -, hc, -⟩ |
      ⟨-, hs, hs', hd, hc, -⟩
    · exact ⟨rfl, by rw [if_pos rfl]; rfl⟩
    · exact ⟨hc, by rw [if_pos hs, hd]; rfl⟩
    -- the release moves to COOLDOWN, which starts a new dwell
    · refine ⟨hc, ?_⟩
      rw [hd, if_neg]
      rw [hs, hs']
      decide
  | trip clock reason ts =>
    obtain ⟨new, k, -, rfl, -⟩ := call_tripSwitch h
    exact ⟨rfl, by rw [if_pos rfl]; rfl⟩
  | releaseSwitch clock role actor ts =>
    obtain ⟨r, k, -, rfl, -⟩ := call_switch h
    exact ⟨rfl, by rw [if_pos rfl]; rfl⟩

/-- The invariant of recovery: the configuration is the one given, the latch holds, and the
    dwell is the number of updates spent in the state. -/
structure RecoveryInv (cfg : StateMachineCfg) (m : RiskStateMachine) (log : RiskLog) : Prop where
  cfg_eq : m.cfg = cfg
  latch : LatchInv m log
  dwell : m.dwell = updatesSpent m.state log

/-- **Step lemma**: the staged recovery. -/
theorem recoveryInv_step (cfg : StateMachineCfg) (m : RiskStateMachine) (log : RiskLog)
    (c : RiskCall) (a : RiskAnswer) (m' : RiskStateMachine) (hinv : RecoveryInv cfg m log)
    (h : RiskStep m c a m') : RecoveryInv cfg m' (log ++ [⟨m, c, a, m'⟩]) := by
  obtain ⟨hcfg, hdwell⟩ := call_dwell h
  refine ⟨hcfg.trans hinv.cfg_eq, latchInv_step m log c a m' hinv.latch h, ?_⟩
  rw [hdwell, updatesSpent_snoc, hinv.dwell]
  by_cases hs : m'.state = m.state
  · rw [if_pos hs, if_pos hs.symm, hs]
  · rw [if_neg hs, if_neg (Ne.symm hs)]

/-! ### The law over runs -/

/-- After an accepted update the state is at least as severe as the snapshot that the update
    left demands. -/
def SeverityFloor (cfg : StateMachineCfg) (e : Entry RiskStateMachine RiskCall RiskAnswer) :
    Prop :=
  ∀ obs, e.call = .update obs → e.answer.isOk = true →
    ∃ snap, e.after.tracker.snapshot = some snap ∧
      (demand cfg snap obs.volRatio).severity ≤ e.after.state.severity

/-- The update follows a release of the switch on an account without capital. -/
def ReleasesBroke (e : Entry RiskStateMachine RiskCall RiskAnswer) : Prop :=
  e.before.state = .halted ∧ e.before.killswitch.tripped = false ∧
    ∃ obs, e.call = .update obs ∧ obs.equity ≤ 0

/-- The way back: one level down, by a recovery that has met the exit threshold and the
    dwell of its state, or by an administrator's release of `HALTED`. -/
def StagedRecovery (cfg : StateMachineCfg) (pre : RiskLog)
    (e : Entry RiskStateMachine RiskCall RiskAnswer) : Prop :=
  e.after.state.severity < e.before.state.severity →
    (e.before.state = .warning ∧ e.after.state = .normal ∧
        (∃ obs snap, e.call = .update obs ∧ e.after.tracker.snapshot = some snap ∧
          snap.drawdown ≤ cfg.warnExit) ∧
        cfg.warnDwell ≤ updatesSpent .warning (pre ++ [e])) ∨
      (e.before.state = .cooldown ∧ e.after.state = .warning ∧
        (∃ obs snap, e.call = .update obs ∧ e.after.tracker.snapshot = some snap ∧
          snap.drawdown ≤ cfg.coolExit) ∧
        cfg.coolDwell ≤ updatesSpent .cooldown (pre ++ [e])) ∨
      (e.before.state = .halted ∧ e.after.state = .cooldown ∧ ReleasedSinceTrip (pre ++ [e]))

/-- An account that loses everything and whose switch is released by hand. -/
def brokeCalls : List RiskCall :=
  [.update ⟨0, 100, none, nonneg_of_mem_none_rat⟩, .update ⟨1, -5, none, nonneg_of_mem_none_rat⟩,
    .releaseSwitch none Role.admin none none, .update ⟨2, -5, none, nonneg_of_mem_none_rat⟩]

/-- The floor does not hold after every update: the tracker is rebased on a negative equity,
    which still counts as a full drawdown, while the machine goes to `COOLDOWN`. -/
theorem severity_floor_fails :
    ¬ ∀ (cfg : StateMachineCfg) (k : KillSwitch) (tr : EquityTracker) (m : RiskStateMachine)
      (log : RiskLog), Run RiskStep (RiskStateMachine.new cfg k tr) m log →
        ∀ e ∈ log, SeverityFloor cfg e := by
  intro h
  obtain ⟨snap, hsnap, hle⟩ := h StateMachineCfg.default KillSwitch.new EquityTracker.new _ _
    (Run.exec RiskStateMachine.call _ brokeCalls) _ (List.mem_of_getElem? (i := 3) rfl) _ rfl
    (by decide +kernel)
  have hlast : some snap = some ⟨2, -5, -5, 1, 0, -5, 0⟩ := by
    rw [← hsnap]
    decide +kernel
  rw [Option.some.inj hlast] at hle
  exact absurd hle (by decide +kernel)

/-- A rebased snapshot at a positive equity demands at most `WARNING`. -/
theorem demand_rebased (c : StateMachineCfg) (tr : EquityTracker) {ts : ℤ} {e : Decimal}
    (he : 0 < e) (volRatio : Option ℚ) {snap : EquitySnapshot}
    (h : (tr.observe ts e).rebase.2.snapshot = some snap) :
    (demand c snap volRatio).severity ≤ RiskState.cooldown.severity := by
  obtain ⟨snap', -, hsnap, -, -, -, -, hpnl, hdd⟩ := tr.rebase_observe ts e
  obtain rfl : snap' = snap := Option.some.inj (hsnap.symm.trans h)
  rw [if_pos he] at hdd
  have hday : snap'.dayReturn = 0 := by
    rw [EquitySnapshot.dayReturn, hpnl, zero_div, ite_self]
  have hhalt : ¬ RiskStateMachine.haltDemand c snap' := by
    rintro (hd | hd)
    · rw [hdd] at hd
      exact absurd c.haltEnter_range.1 (not_lt.mpr hd)
    · rw [hday] at hd
      linarith [c.haltDailyLoss_range.1]
  rw [demand, if_neg hhalt]
  split
  · exact le_rfl
  · split <;> decide

/-- **The floor after one update.** -/
theorem update_floor {m m' : RiskStateMachine} {obs : RiskObservation} {a : RiskAnswer}
    (h : m.call (.update obs) = (a, m')) (ha : a.isOk = true)
    (hbroke : ¬ (m.state = .halted ∧ m.killswitch.tripped = false ∧ obs.equity ≤ 0)) :
    ∃ snap, m'.tracker.snapshot = some snap ∧
      (demand m.cfg snap obs.volRatio).severity ≤ m'.state.severity := by
  obtain ⟨r, rfl, hu⟩ := call_update h
  -- a refused observation is not asked about
  rcases m.update_cases hu with ⟨⟨e, rfl⟩, -⟩ | ⟨tr, snap, tracker, rfl, htr, hmove⟩
  · cases ha
  · obtain ⟨-, htracker, hsnap⟩ := EquityTracker.update_eq_ok htr
    have hm' : m' = ((m.observed obs tracker).move snap obs.volRatio).2 := by rw [hmove]
    obtain ⟨-, hspec⟩ := (m.observed obs tracker).move_spec snap obs.volRatio
    rw [← hm'] at hspec
    rcases hspec with ⟨hs, hopen, hs', htr', -, -⟩ | ⟨hnot, hs', htr', -, -⟩
    · -- the switch was released directly: the tracker is rebased on a positive equity
      have hpos : 0 < obs.equity := not_le.mp fun hle => hbroke ⟨hs, hopen, hle⟩
      have htr'' : m'.tracker = (m.tracker.observe obs.tsNs obs.equity).rebase.2 := by
        rw [htr', ← htracker]
        rfl
      obtain ⟨snap', -, hsnap', -⟩ := m.tracker.rebase_observe obs.tsNs obs.equity
      refine ⟨snap', htr'' ▸ hsnap', ?_⟩
      rw [hs']
      exact demand_rebased m.cfg m.tracker hpos obs.volRatio hsnap'
    -- else the table moves the state, at least as far as demanded
    · refine ⟨snap, ?_, ?_⟩
      · rw [htr']
        exact hsnap
      · rw [hs']
        exact move_floor (m.observed obs tracker) snap obs.volRatio hnot

/-- **The way back in one call.** -/
theorem call_recovery {cfg : StateMachineCfg} {m m' : RiskStateMachine} {log : RiskLog}
    {c : RiskCall} {a : RiskAnswer} (hinv : RecoveryInv cfg m log) (h : m.call c = (a, m')) :
    StagedRecovery cfg log ⟨m, c, a, m'⟩ := by
  intro hlt
  by_cases hs : m.state = .halted
  · -- down from HALTED: the latch says how
    have hs' : m'.state ≠ .halted := by
      intro hs'
      rw [hs, hs'] at hlt
      exact lt_irrefl _ hlt
    obtain ⟨hcool, hrel | ⟨htrip, hopen, hopen'⟩⟩ := call_leaves_halted h hs hs'
    · exact .inr (.inr ⟨hs, hcool, .of_last log hrel⟩)
    · refine .inr (.inr ⟨hs, hcool, ((hinv.latch hs).resolve_left ?_).snoc ?_⟩)
      · rw [hopen]
        exact Bool.false_ne_true
      · rintro (ht | ⟨-, ht⟩)
        · exact absurd (ht.symm.trans htrip) (by decide)
        · exact absurd (ht.symm.trans hopen') (by decide)
  -- down from another state: only an observation does that
  · cases c with
    | update obs =>
      obtain ⟨r, rfl, hu⟩ := call_update h
      rcases m.update_cases hu with ⟨-, rfl⟩ | ⟨tr, snap, tracker, rfl, htr, hmove⟩
      · exact absurd hlt (lt_irrefl _)
      · obtain ⟨-, -, hsnap⟩ := EquityTracker.update_eq_ok htr
        have hm' : m' = ((m.observed obs tracker).move snap obs.volRatio).2 := by rw [hmove]
        obtain ⟨-, hspec⟩ := (m.observed obs tracker).move_spec snap obs.volRatio
        rw [← hm'] at hspec
        rcases hspec with ⟨hs', -⟩ | ⟨-, hs', htr', -, -⟩
        · exact absurd hs' hs
        · have hstate : (m.observed obs tracker).state = m.state := rfl
          have hspent : updatesSpent m.state (log ++ [⟨m, .update obs, .transition (.ok tr), m'⟩])
              = m.dwell + 1 := by
            rw [updatesSpent_snoc, if_pos rfl, ← hinv.dwell]
            rfl
          have hsnap' : m'.tracker.snapshot = some snap := by
            rw [htr']
            exact hsnap
          rw [hstate] at hs'
          have hlt' : (transitionTable m.state
              ((m.observed obs tracker).classify snap obs.volRatio)).severity <
                m.state.severity := hs' ▸ hlt
          -- one step down: WARNING to NORMAL or COOLDOWN to WARNING
          rcases transition_severity_lt hlt' with ⟨he, hw, hn⟩ | ⟨he, hc, hw⟩ | ⟨he, -⟩
          · rcases classify_recovery he with ⟨hcool, -⟩ | ⟨-, hexit, hdwell⟩
            · exact absurd (hw.symm.trans hcool) (by decide)
            · refine .inl ⟨hw, hs'.trans hn, ⟨obs, snap, rfl, hsnap', ?_⟩, ?_⟩
              · rw [← hinv.cfg_eq]
                exact hexit
              · rw [hw] at hspent
                rw [hspent, ← hinv.cfg_eq]
                exact hdwell
          · rcases classify_recovery he with ⟨-, hexit, hdwell⟩ | ⟨hwarn, -⟩
            · refine .inr (.inl ⟨hc, hs'.trans hw, ⟨obs, snap, rfl, hsnap', ?_⟩, ?_⟩)
              · rw [← hinv.cfg_eq]
                exact hexit
              · rw [hc] at hspent
                rw [hspent, ← hinv.cfg_eq]
                exact hdwell
            · exact absurd (hc.symm.trans hwarn) (by decide)
          · exact absurd he (classify_ne_adminRelease _ _ _)
    | release clock role actor =>
      obtain ⟨r, rfl, hr⟩ := call_release h
      rcases m.release_cases hr with ⟨-, -, rfl⟩ | ⟨-, -, heq, -⟩ | ⟨-, hh, -⟩
      · exact absurd hlt (lt_irrefl _)
      · exact absurd hlt (by rw [show m'.state = m.state from heq]; exact lt_irrefl _)
      · exact absurd hh hs
    | trip clock reason ts =>
      obtain ⟨new, k, -, rfl, -⟩ := call_tripSwitch h
      exact absurd hlt (lt_irrefl _)
    | releaseSwitch clock role actor ts =>
      obtain ⟨r, k, -, rfl, -⟩ := call_switch h
      exact absurd hlt (lt_irrefl _)

/-- **Severity floor and staged recovery.** In every run, from a machine with any switch and
    tracker: after each accepted update the state is at least as severe as its snapshot
    demands, unless the update follows a direct release of the switch on an account without
    capital; and every move down goes one level, by a recovery that has met its exit
    threshold and dwell or by an administrator's release. -/
theorem staged_recovery (cfg : StateMachineCfg) (k : KillSwitch) (tr : EquityTracker)
    {m : RiskStateMachine} {log : RiskLog}
    (h : Run RiskStep (RiskStateMachine.new cfg k tr) m log) :
    ∀ pre e post, log = pre ++ e :: post →
      (¬ ReleasesBroke e → SeverityFloor cfg e) ∧ StagedRecovery cfg pre e := by
  intro pre e post hlog
  have h0 : RecoveryInv cfg (RiskStateMachine.new cfg k tr) [] :=
    ⟨rfl, (fun hs => by cases hs), rfl⟩
  refine h.log_forall (RecoveryInv cfg) h0 (recoveryInv_step cfg) (P := fun pre e =>
    (¬ ReleasesBroke e → SeverityFloor cfg e) ∧ StagedRecovery cfg pre e) ?_ hlog
  intro m log c a m' hinv hstep
  refine ⟨fun hbroke obs hc ha => ?_, call_recovery hinv hstep⟩
  cases hc
  obtain ⟨snap, hsnap, hfloor⟩ := update_floor hstep ha
    (fun hb => hbroke ⟨hb.1, hb.2.1, obs, rfl, hb.2.2⟩)
  exact ⟨snap, hsnap, hinv.cfg_eq ▸ hfloor⟩

/-- The run of `latchCalls`: its last update is the release of `HALTED`, one level down. -/
theorem staged_recovery_calls :
    let log := (exec RiskStateMachine.call
      (RiskStateMachine.new StateMachineCfg.default KillSwitch.new EquityTracker.new)
      latchCalls).2
    ∃ e, log = log.take 4 ++ [e] ∧ SeverityFloor StateMachineCfg.default e ∧
      StagedRecovery StateMachineCfg.default (log.take 4) e := by
  obtain ⟨hfloor, hstaged⟩ := staged_recovery StateMachineCfg.default KillSwitch.new
    EquityTracker.new (Run.exec RiskStateMachine.call _ latchCalls)
    ((exec RiskStateMachine.call _ latchCalls).2.take 4) _ [] rfl
  refine ⟨_, rfl, hfloor ?_, hstaged⟩
  rintro ⟨-, -, obs, hobs, hle⟩
  cases hobs
  exact absurd hle (by decide +kernel)

end FuzzHelm
