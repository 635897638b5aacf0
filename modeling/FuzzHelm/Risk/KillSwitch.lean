import FuzzHelm.Core.Enums

namespace FuzzHelm

/-!
# The kill-switch

The latch of the risk contour: it trips automatically or by hand, keeps its first reason,
and only an administrator releases it.

* `KillSwitch.trip_tripped` — after a trip the switch is tripped, whoever came first;
* `KillSwitch.release_denied` — any other role is refused and nothing changes;
* `KillSwitch.release_admin` — an administrator always leaves it open.
-/

/-- `KillSwitch.state()`: what others are shown of a switch. -/
structure KillSwitchState where
  tripped : Bool
  reason : Option String
  trippedAtNs : Option ℤ
  deriving DecidableEq, Repr

/-- A row of the audit log: who did what, with the state before and after. -/
structure AuditRecord (β : Type) where
  tsNs : ℤ
  action : String
  target : String
  actorRole : Role
  actor : Option String
  before : β
  after : β
  deriving DecidableEq, Repr

/-- `KillSwitch`: whether it is tripped, why and since when, and what was recorded. -/
structure KillSwitch where
  tripped : Bool
  reason : Option String
  trippedAtNs : Option ℤ
  tripCount : ℕ
  audit : List (AuditRecord KillSwitchState)
  deriving DecidableEq, Repr

namespace KillSwitch

/-- `KillSwitch()`: not tripped, and nothing recorded. -/
def new : KillSwitch := ⟨false, none, none, 0, []⟩

/-- `state`: whether it is tripped, why, and since when. -/
def state (k : KillSwitch) : KillSwitchState := ⟨k.tripped, k.reason, k.trippedAtNs⟩

/-- `_now`: the explicit stamp, else the injected clock, else the stamp of the last trip. -/
def now (k : KillSwitch) (clock tsNs : Option ℤ) : ℤ :=
  match tsNs, clock with
  | some t, _ => t
  | none, some t => t
  | none, none => k.trippedAtNs.getD 0

/-- `trip`: true when the switch was open; a second trip keeps the first reason. -/
def trip (k : KillSwitch) (clock : Option ℤ) (reason : String) (tsNs : Option ℤ) :
    Bool × KillSwitch :=
  if k.tripped then (false, k)
  else
    (true, { k with
      tripped := true
      reason := some reason
      trippedAtNs := some (k.now clock tsNs)
      tripCount := k.tripCount + 1 })

/-- `release`: only an administrator; a switch that is open stays as it is, without a
    record. -/
def release (k : KillSwitch) (clock : Option ℤ) (actorRole : Role) (actor : Option String)
    (tsNs : Option ℤ) : Except PyError (Option (AuditRecord KillSwitchState)) × KillSwitch :=
  if actorRole ≠ Role.admin then
    (.error (.permissionDenied "kill-switch release requires role admin"), k)
  else if !k.tripped then (.ok none, k)
  else
    let opened : KillSwitch := { k with tripped := false, reason := none, trippedAtNs := none }
    let record : AuditRecord KillSwitchState :=
      { tsNs := k.now clock tsNs
        action := "killswitch.release"
        target := "kill_switch"
        actorRole := actorRole
        actor := actor
        before := k.state
        after := opened.state }
    (.ok (some record), { opened with audit := k.audit ++ [record] })

/-- Tripping a switch leaves it tripped. -/
@[simp] theorem trip_tripped (k : KillSwitch) (clock : Option ℤ) (reason : String)
    (ts : Option ℤ) : (k.trip clock reason ts).2.tripped = true := by
  unfold trip
  split
  · assumption
  · rfl

/-- A role other than the administrator is refused and changes nothing. -/
theorem release_denied {k : KillSwitch} {role : Role} (hrole : role ≠ Role.admin)
    (clock : Option ℤ) (actor : Option String) (ts : Option ℤ) :
    k.release clock role actor ts =
      (.error (.permissionDenied "kill-switch release requires role admin"), k) := by
  rw [release, if_pos hrole]

/-- After an administrator's release the switch is open. -/
@[simp] theorem release_admin_tripped (k : KillSwitch) (clock : Option ℤ)
    (actor : Option String) (ts : Option ℤ) :
    (k.release clock Role.admin actor ts).2.tripped = false := by
  unfold release
  rw [if_neg (not_not.mpr rfl)]
  split
  · rename_i h
    simpa using h
  · rfl

end KillSwitch

end FuzzHelm
