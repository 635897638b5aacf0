import FuzzHelm.Lib.Literals
import FuzzHelm.Lib.Run
import FuzzHelm.Risk.State

namespace FuzzHelm

open Lib

/-!
# The latch

The machine and the kill-switch over any sequence of calls: observations, releases of the
machine, trips and releases of the switch, in any order and by any role.

* `RiskCall` / `RiskStateMachine.call` — one call and what it answers and leaves;
* `call_leaves_halted`, `call_enters_halted`, `call_opens`, `call_denied` — what one call can
  do to the latch;
* `latch` — the law over whole runs.
-/

/-! ### The calls -/

/-- The calls of the state of the risk. -/
inductive RiskCall where
  | update (obs : RiskObservation)
  | release (clock : Option ℤ) (role : Role) (actor : Option String)
  | trip (clock : Option ℤ) (reason : String) (tsNs : Option ℤ)
  | releaseSwitch (clock : Option ℤ) (role : Role) (actor : Option String) (tsNs : Option ℤ)

/-- What the calls of the state of the risk answer. -/
inductive RiskAnswer where
  | transition (r : Except PyError (Option Transition))
  | tripped (new : Bool)
  | record (r : Except PyError (Option (AuditRecord KillSwitchState)))

namespace RiskCall

/-- The role of a release, of the machine or of the switch. -/
def releaseRole : RiskCall → Option Role
  | .release _ role _ => some role
  | .releaseSwitch _ role _ _ => some role
  | .update _ => none
  | .trip _ _ _ => none

/-- The observation of an update. -/
def observation : RiskCall → Option RiskObservation
  | .update obs => some obs
  | .release _ _ _ => none
  | .trip _ _ _ => none
  | .releaseSwitch _ _ _ _ => none

/-- The call asks the switch to trip. -/
def isTrip : RiskCall → Bool
  | .trip _ _ _ => true
  | .update _ => false
  | .release _ _ _ => false
  | .releaseSwitch _ _ _ _ => false

end RiskCall

/-- The call was refused for lack of rights. -/
def RiskAnswer.denied : RiskAnswer → Prop
  | .transition r => ∃ msg, r = .error (.permissionDenied msg)
  | .record r => ∃ msg, r = .error (.permissionDenied msg)
  | .tripped _ => False

/-- The call went through without an exception. -/
def RiskAnswer.isOk : RiskAnswer → Bool
  | .transition r => r.isOk
  | .record r => r.isOk
  | .tripped _ => true

/-- One call on the machine and its switch. -/
def RiskStateMachine.call (m : RiskStateMachine) : RiskCall → RiskAnswer × RiskStateMachine
  | .update obs =>
    let (r, m') := m.update obs
    (.transition r, m')
  | .release clock role actor =>
    let (r, m') := m.release clock role actor
    (.transition r, m')
  | .trip clock reason tsNs =>
    let (new, k) := m.killswitch.trip clock reason tsNs
    (.tripped new, { m with killswitch := k })
  | .releaseSwitch clock role actor tsNs =>
    let (r, k) := m.killswitch.release clock role actor tsNs
    (.record r, { m with killswitch := k })

/-- The step relation of the machine. -/
def RiskStep (m : RiskStateMachine) (c : RiskCall) (a : RiskAnswer) (m' : RiskStateMachine) :
    Prop :=
  m.call c = (a, m')

/-- The log of a run of the machine. -/
abbrev RiskLog := List (Entry RiskStateMachine RiskCall RiskAnswer)

/-! ### What one call can do to the latch -/

section OneCall

variable {m m' : RiskStateMachine} {c : RiskCall} {a : RiskAnswer}

/-- An update answers a transition. -/
theorem call_update {obs : RiskObservation} (h : m.call (.update obs) = (a, m')) :
    ∃ r, a = .transition r ∧ m.update obs = (r, m') := by
  rw [RiskStateMachine.call, Prod.mk.injEq] at h
  exact ⟨_, h.1.symm, Prod.ext_iff.mpr ⟨rfl, h.2⟩⟩

/-- A release answers a transition. -/
theorem call_release {clock : Option ℤ} {role : Role} {actor : Option String}
    (h : m.call (.release clock role actor) = (a, m')) :
    ∃ r, a = .transition r ∧ m.release clock role actor = (r, m') := by
  rw [RiskStateMachine.call, Prod.mk.injEq] at h
  exact ⟨_, h.1.symm, Prod.ext_iff.mpr ⟨rfl, h.2⟩⟩

/-- A release of the switch changes the switch alone. -/
theorem call_switch {clock ts : Option ℤ} {role : Role} {actor : Option String}
    (h : m.call (.releaseSwitch clock role actor ts) = (a, m')) :
    ∃ r k, a = .record r ∧ m' = { m with killswitch := k } ∧
      m.killswitch.release clock role actor ts = (r, k) := by
  rw [RiskStateMachine.call, Prod.mk.injEq] at h
  exact ⟨_, _, h.1.symm, h.2.symm, rfl⟩

/-- Tripping the switch changes the switch alone. -/
theorem call_tripSwitch {clock ts : Option ℤ} {reason : String}
    (h : m.call (.trip clock reason ts) = (a, m')) :
    ∃ new k, a = .tripped new ∧ m' = { m with killswitch := k } ∧
      m.killswitch.trip clock reason ts = (new, k) := by
  rw [RiskStateMachine.call, Prod.mk.injEq] at h
  exact ⟨_, _, h.1.symm, h.2.symm, rfl⟩

/-- An accepted update never opens the switch, trips it on entering `HALTED`, and leaves
    `HALTED` only along an open switch. -/
theorem update_latch {obs : RiskObservation} {r : Except PyError (Option Transition)}
    (h : m.update obs = (r, m')) :
    (m.state = .halted → m'.state ≠ .halted →
        m'.state = .cooldown ∧ m.killswitch.tripped = false ∧ m'.killswitch.tripped = false) ∧
      (m.state ≠ .halted → m'.state = .halted → m'.killswitch.tripped = true) ∧
      (m.killswitch.tripped = true → m'.killswitch.tripped = true) := by
  -- refused observations change nothing
  rcases m.update_cases h with ⟨-, rfl⟩ | ⟨tr, snap, tracker, -, -, hmove⟩
  · exact ⟨fun hs hs' => absurd hs hs', fun hs hs' => absurd hs' hs, id⟩
  · have hm' : m' = ((m.observed obs tracker).move snap obs.volRatio).2 := by rw [hmove]
    obtain ⟨-, hspec⟩ := (m.observed obs tracker).move_spec snap obs.volRatio
    rw [← hm'] at hspec
    have hstate : (m.observed obs tracker).state = m.state := rfl
    have hswitch : (m.observed obs tracker).killswitch = m.killswitch := rfl
    rw [hstate, hswitch] at hspec
    -- released directly and now rebased, or moved by the table
    rcases hspec with ⟨hs, hopen, hs', -, -, hopen'⟩ | ⟨hnot, hs', -, -, htrip⟩
    · refine ⟨fun _ _ => ⟨hs', hopen, hopen'⟩, fun hne => absurd hs hne, fun ht => ?_⟩
      rw [hopen] at ht
      cases ht
    · refine ⟨fun hs hne => ?_, fun hne hs'' => ?_, fun ht => ?_⟩
      · -- in HALTED with a tripped switch every observation is a breach
        have htripped : m.killswitch.tripped = true := by
          by_contra hopen
          exact hnot ⟨hs, by simpa using hopen⟩
        have hclass : (m.observed obs tracker).classify snap obs.volRatio = .haltBreach := by
          rw [RiskStateMachine.classify, if_pos (.inl htripped)]
        rw [hclass, hs] at hs'
        exact absurd hs' hne
      -- HALTED is entered by tripping the switch
      · rw [htrip, ← hs', hs'']
        simp [hne]
      · rw [htrip, ht, Bool.true_or]

/-- A call leaves `HALTED` only for `COOLDOWN`: by an administrator's release, or by an
    update that finds the switch open and does not trip it. -/
theorem call_leaves_halted (h : m.call c = (a, m')) (hs : m.state = .halted)
    (hs' : m'.state ≠ .halted) :
    m'.state = .cooldown ∧
      (c.releaseRole = some Role.admin ∨
        (c.isTrip = false ∧ m.killswitch.tripped = false ∧ m'.killswitch.tripped = false)) := by
  -- only an observation or a release moves the state
  cases c with
  | update obs =>
    obtain ⟨r, -, hu⟩ := call_update h
    obtain ⟨hcool, hopen, hopen'⟩ := (update_latch hu).1 hs hs'
    exact ⟨hcool, .inr ⟨rfl, hopen, hopen'⟩⟩
  | release clock role actor =>
    obtain ⟨r, -, hr⟩ := call_release h
    rcases m.release_cases hr with ⟨-, -, rfl⟩ | ⟨-, hne, -⟩ | ⟨rfl, -, hc, -⟩
    · exact absurd hs hs'
    · exact absurd hs hne
    · exact ⟨hc, .inl rfl⟩
  -- the switch itself leaves the state as it is
  | trip clock reason ts =>
    obtain ⟨new, k, -, rfl, -⟩ := call_tripSwitch h
    exact absurd hs hs'
  | releaseSwitch clock role actor ts =>
    obtain ⟨r, k, -, rfl, -⟩ := call_switch h
    exact absurd hs hs'

/-- A call that enters `HALTED` leaves the switch tripped. -/
theorem call_enters_halted (h : m.call c = (a, m')) (hs : m.state ≠ .halted)
    (hs' : m'.state = .halted) : m'.killswitch.tripped = true := by
  cases c with
  | update obs =>
    obtain ⟨r, -, hu⟩ := call_update h
    exact (update_latch hu).2.1 hs hs'
  | release clock role actor =>
    obtain ⟨r, -, hr⟩ := call_release h
    rcases m.release_cases hr with ⟨-, -, rfl⟩ | ⟨-, -, heq, -⟩ | ⟨-, hh, -⟩
    · exact absurd hs' hs
    · exact absurd (heq.symm.trans hs') hs
    · exact absurd hh hs
  | trip clock reason ts =>
    obtain ⟨new, k, -, rfl, -⟩ := call_tripSwitch h
    exact absurd hs' hs
  | releaseSwitch clock role actor ts =>
    obtain ⟨r, k, -, rfl, -⟩ := call_switch h
    exact absurd hs' hs

/-- Only an administrator's release opens a tripped switch. -/
theorem call_opens (h : m.call c = (a, m')) (ht : m.killswitch.tripped = true)
    (ht' : m'.killswitch.tripped = false) : c.releaseRole = some Role.admin := by
  cases c with
  -- an observation never opens the switch
  | update obs =>
    obtain ⟨r, -, hu⟩ := call_update h
    have hstill := (update_latch hu).2.2 ht
    rw [hstill] at ht'
    cases ht'
  | release clock role actor =>
    obtain ⟨r, -, hr⟩ := call_release h
    -- a release that was not denied was the administrator's
    rcases m.release_cases hr with ⟨-, -, rfl⟩ | ⟨rfl, -⟩ | ⟨rfl, -⟩
    · rw [ht] at ht'
      cases ht'
    · rfl
    · rfl
  | trip clock reason ts =>
    obtain ⟨new, k, -, rfl, hk⟩ := call_tripSwitch h
    have hk' := KillSwitch.trip_tripped m.killswitch clock reason ts
    rw [hk] at hk'
    rw [hk'] at ht'
    cases ht'
  | releaseSwitch clock role actor ts =>
    obtain ⟨r, k, -, rfl, hk⟩ := call_switch h
    by_cases hrole : role = Role.admin
    · rw [hrole]
      rfl
    · rw [KillSwitch.release_denied hrole, Prod.mk.injEq] at hk
      obtain ⟨-, rfl⟩ := hk
      rw [ht] at ht'
      cases ht'

/-- A release by any other role is refused and changes nothing. -/
theorem call_denied (h : m.call c = (a, m')) {role : Role} (hc : c.releaseRole = some role)
    (hrole : role ≠ Role.admin) : a.denied ∧ m' = m := by
  cases c with
  | update obs => cases hc
  | trip clock reason ts => cases hc
  | release clock role' actor =>
    cases hc
    obtain ⟨r, rfl, hr⟩ := call_release h
    rw [RiskStateMachine.release, if_pos hrole, Prod.mk.injEq] at hr
    exact ⟨⟨_, hr.1.symm⟩, hr.2.symm⟩
  | releaseSwitch clock role' actor ts =>
    cases hc
    obtain ⟨r, k, rfl, rfl, hk⟩ := call_switch h
    rw [KillSwitch.release_denied hrole, Prod.mk.injEq] at hk
    obtain ⟨rfl, rfl⟩ := hk
    exact ⟨⟨_, rfl⟩, rfl⟩

/-- A trip leaves the switch tripped. -/
theorem call_trip (h : m.call c = (a, m')) (hc : c.isTrip = true) :
    m'.killswitch.tripped = true := by
  cases c with
  | trip clock reason ts =>
    obtain ⟨new, k, -, rfl, hk⟩ := call_tripSwitch h
    have hk' := KillSwitch.trip_tripped m.killswitch clock reason ts
    rwa [hk] at hk'
  | update obs => cases hc
  | release clock role actor => cases hc
  | releaseSwitch clock role actor ts => cases hc

end OneCall

/-! ### The law over runs -/

/-- The call trips the switch: it asks for it, or it finds the switch open and leaves it
    tripped. -/
def Trips (e : Entry RiskStateMachine RiskCall RiskAnswer) : Prop :=
  e.call.isTrip = true ∨
    (e.before.killswitch.tripped = false ∧ e.after.killswitch.tripped = true)

/-- The log contains an administrator's release after which nothing has tripped the
    switch. -/
def ReleasedSinceTrip (log : RiskLog) : Prop :=
  ∃ pre r post, log = pre ++ r :: post ∧ r.call.releaseRole = some Role.admin ∧
    ∀ x ∈ post, ¬ Trips x

/-- A release stays the last word as long as nothing trips the switch. -/
theorem ReleasedSinceTrip.snoc {log : RiskLog} (h : ReleasedSinceTrip log)
    {e : Entry RiskStateMachine RiskCall RiskAnswer} (he : ¬ Trips e) :
    ReleasedSinceTrip (log ++ [e]) := by
  obtain ⟨pre, r, post, rfl, hr, hpost⟩ := h
  refine ⟨pre, r, post ++ [e], by rw [List.append_assoc, List.cons_append], hr, ?_⟩
  intro x hx
  rcases List.mem_append.mp hx with hx | hx
  · exact hpost x hx
  · rw [List.mem_singleton.mp hx]
    exact he

/-- An administrator's release that has just been made. -/
theorem ReleasedSinceTrip.of_last (log : RiskLog)
    {e : Entry RiskStateMachine RiskCall RiskAnswer}
    (he : e.call.releaseRole = some Role.admin) : ReleasedSinceTrip (log ++ [e]) :=
  ⟨log, e, [], rfl, he, by simp⟩

/-- The invariant of the latch: in `HALTED` the switch is tripped, or it has been released
    since. -/
def LatchInv (m : RiskStateMachine) (log : RiskLog) : Prop :=
  m.state = .halted → m.killswitch.tripped = true ∨ ReleasedSinceTrip log

/-- **Step lemma**: the latch. -/
theorem latchInv_step (m : RiskStateMachine) (log : RiskLog) (c : RiskCall) (a : RiskAnswer)
    (m' : RiskStateMachine) (hinv : LatchInv m log) (h : RiskStep m c a m') :
    LatchInv m' (log ++ [⟨m, c, a, m'⟩]) := by
  intro hs'
  by_cases ht' : m'.killswitch.tripped = true
  · exact .inl ht'
  · right
    rw [Bool.not_eq_true] at ht'
    by_cases hs : m.state = .halted
    · by_cases ht : m.killswitch.tripped = true
      · exact .of_last log (call_opens h ht ht')
      · -- the switch was open and still is: an older release covers this call
        refine ((hinv hs).resolve_left ht).snoc ?_
        rintro (htrip | ⟨-, hnow⟩)
        · rw [call_trip h htrip] at ht'
          cases ht'
        · rw [ht'] at hnow
          cases hnow
    · rw [call_enters_halted h hs hs'] at ht'
      cases ht'

/-- While `HALTED` lasts and no administrator has released it, the switch stays tripped. -/
def HaltedInv (m : RiskStateMachine) (log : RiskLog) : Prop :=
  ∀ pre e post, log = pre ++ e :: post → e.before.state ≠ .halted →
    (∀ x ∈ e :: post, x.after.state = .halted) →
    (∀ x ∈ post, x.call.releaseRole ≠ some Role.admin) → m.killswitch.tripped = true

/-- **Step lemma**: the halt. -/
theorem haltedInv_step (m : RiskStateMachine) (log : RiskLog) (c : RiskCall) (a : RiskAnswer)
    (m' : RiskStateMachine) (hinv : HaltedInv m log) (h : RiskStep m c a m') :
    HaltedInv m' (log ++ [⟨m, c, a, m'⟩]) := by
  intro pre e post hlog he hstay hno
  -- the entry is the last one, or a later call left the state HALTED
  rcases List.eq_nil_or_concat post with rfl | ⟨post', x, rfl⟩
  · obtain ⟨-, hlast⟩ := List.append_inj' hlog rfl
    rw [List.cons.injEq] at hlast
    obtain ⟨rfl, -⟩ := hlast
    exact call_enters_halted h he (hstay _ (List.mem_cons_self ..))
  · rw [List.concat_eq_append] at hlog hstay hno
    rw [← List.cons_append, ← List.append_assoc] at hlog
    obtain ⟨hpre, hlast⟩ := List.append_inj' hlog rfl
    rw [List.cons.injEq] at hlast
    obtain ⟨rfl, -⟩ := hlast
    -- before the last call the switch was tripped
    have ht : m.killswitch.tripped = true := by
      refine hinv pre e post' hpre he (fun x hx => hstay x ?_) (fun x hx => hno x ?_)
      · rw [← List.cons_append]
        exact List.mem_append_left _ hx
      · exact List.mem_append_left _ hx
    -- opening it would have been a release, and none was called
    by_contra hopen
    rw [Bool.not_eq_true] at hopen
    exact hno _ (List.mem_append_right _ (List.mem_singleton_self _)) (call_opens h ht hopen)

/-- **The latch.** Over any sequence of calls, from a machine with any switch and tracker:
    the machine leaves `HALTED` only for `COOLDOWN` and only after an administrator's release
    made since the switch was last tripped; a release by any other role is refused and
    changes nothing; and as long as no administrator has released since `HALTED` was
    entered, the switch is tripped. -/
theorem latch (cfg : StateMachineCfg) (k : KillSwitch) (tr : EquityTracker)
    {m : RiskStateMachine} {log : RiskLog}
    (h : Run RiskStep (RiskStateMachine.new cfg k tr) m log) :
    (∀ pre e post, log = pre ++ e :: post → e.before.state = .halted →
        e.after.state ≠ .halted →
        e.after.state = .cooldown ∧ ReleasedSinceTrip (pre ++ [e])) ∧
      (∀ e ∈ log, ∀ role, e.call.releaseRole = some role → role ≠ Role.admin →
        e.answer.denied ∧ e.after = e.before) ∧
      (∀ pre e post, log = pre ++ e :: post → e.before.state ≠ .halted →
        (∀ x ∈ e :: post, x.after.state = .halted) →
        (∀ x ∈ post, x.call.releaseRole ≠ some Role.admin) →
        m.killswitch.tripped = true) := by
  refine ⟨?_, ?_, ?_⟩
  · intro pre e post hlog
    have h0 : LatchInv (RiskStateMachine.new cfg k tr) [] := fun hs => by cases hs
    refine h.log_forall LatchInv h0 latchInv_step (P := fun pre e =>
      e.before.state = .halted → e.after.state ≠ .halted →
        e.after.state = .cooldown ∧ ReleasedSinceTrip (pre ++ [e])) ?_ hlog
    intro m log c a m' hinv hstep hs hs'
    -- how HALTED was left: by a release, or after one of the switch
    obtain ⟨hcool, hrel | ⟨htrip, hopen, hopen'⟩⟩ := call_leaves_halted hstep hs hs'
    · exact ⟨hcool, .of_last log hrel⟩
    · refine ⟨hcool, ((hinv hs).resolve_left ?_).snoc ?_⟩
      · rw [hopen]
        exact Bool.false_ne_true
      · rintro (ht | ⟨-, ht⟩)
        · exact absurd (ht.symm.trans htrip) (by decide)
        · exact absurd (ht.symm.trans hopen') (by decide)
  -- a denied release changes nothing
  · intro e he role hrole hne
    obtain ⟨pre, post, hlog⟩ := List.append_of_mem he
    exact call_denied (h.before_entry hlog).2 hrole hne
  · refine h.invariant HaltedInv ?_ haltedInv_step
    intro pre e post hlog
    simp at hlog

/-- An account that halves, is refused a release by a viewer and granted one by the
    administrator, on the switch itself. -/
def latchCalls : List RiskCall :=
  [.update ⟨0, 100, none, nonneg_of_mem_none_rat⟩, .update ⟨1, 50, none, nonneg_of_mem_none_rat⟩,
    .releaseSwitch none "viewer" none none, .releaseSwitch none Role.admin none none,
    .update ⟨2, 50, none, nonneg_of_mem_none_rat⟩]

/-- The run of `latchCalls`: the last update leaves `HALTED` after the release. -/
theorem latch_calls :
    let log := (exec RiskStateMachine.call
      (RiskStateMachine.new StateMachineCfg.default KillSwitch.new EquityTracker.new)
      latchCalls).2
    ReleasedSinceTrip log ∧
      (∃ x ∈ log, x.call.releaseRole = some "viewer" ∧ x.answer.denied ∧ x.after = x.before) := by
  have hlatch := latch StateMachineCfg.default KillSwitch.new EquityTracker.new
    (Run.exec RiskStateMachine.call _ latchCalls)
  refine ⟨?_, ?_⟩
  · exact (hlatch.1 ((exec RiskStateMachine.call _ latchCalls).2.take 4) _ [] rfl
      (by decide +kernel) (by decide +kernel)).2
  · refine ⟨_, List.mem_of_getElem? (i := 2) rfl, rfl, ?_⟩
    exact hlatch.2.1 _ (List.mem_of_getElem? (i := 2) rfl) "viewer" rfl (by decide)

end FuzzHelm
