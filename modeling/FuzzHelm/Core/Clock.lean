import FuzzHelm.Core.Enums

namespace FuzzHelm

/-!
# Clocks and identifiers

The deterministic ports: event time in nanoseconds since the epoch, the manual clock that
the engine moves, and the generator of client order ids.
-/

/-- `NS_PER_SEC`, the nanoseconds of a second. -/
def nsPerSec : ℤ := 1000000000
/-- `NS_PER_MIN`, the nanoseconds of a minute. -/
def nsPerMin : ℤ := 60 * nsPerSec
/-- `NS_PER_DAY`, the nanoseconds of a day. -/
def nsPerDay : ℤ := 86400 * nsPerSec

/-- The start of the UTC day of `tNs`. -/
def utcDayStartNs (tNs : ℤ) : ℤ := tNs - tNs % nsPerDay

/-- The clock that the engine moves along the event times. -/
structure ManualClock where
  t : ℤ
  deriving DecidableEq, Repr

/-- Move the clock; it never goes backwards. -/
def ManualClock.set (c : ManualClock) (tNs : ℤ) : Except PyError ManualClock :=
  if tNs < c.t then .error (.valueError "clock cannot go backwards") else .ok ⟨tNs⟩

/-- `set`: a manual clock never goes back. -/
theorem ManualClock.set_eq_ok {c c' : ManualClock} {tNs : ℤ} :
    c.set tNs = .ok c' ↔ c.t ≤ tNs ∧ c' = ⟨tNs⟩ := by
  unfold ManualClock.set
  split
  · rename_i h
    simp [not_le.mpr h]
  · rename_i h
    simp [not_lt.mp h, eq_comm]

/-- Client order ids, as the number behind the UUID. -/
abbrev Uuid := ℕ

/-- The port that hands out identifiers: the `n`-th one is `uuid n`, and no identifier is
    handed out twice. -/
structure IdGenerator where
  uuid : ℕ → Uuid
  injective : Function.Injective uuid
  n : ℕ

namespace IdGenerator

/-- `next_uuid()`: the identifier and the generator after it. -/
def nextUuid (g : IdGenerator) : Uuid × IdGenerator := (g.uuid g.n, { g with n := g.n + 1 })

/-- The identifiers still to be handed out. -/
def Pending (g : IdGenerator) (u : Uuid) : Prop := ∃ k, g.n ≤ k ∧ g.uuid k = u

/-- The identifier that comes next has not been given out. -/
theorem pending_next (g : IdGenerator) : g.Pending g.nextUuid.1 := ⟨g.n, le_rfl, rfl⟩

/-- What is handed out is no longer pending. -/
theorem not_pending_nextUuid (g : IdGenerator) : ¬ g.nextUuid.2.Pending g.nextUuid.1 := by
  rintro ⟨k, hk, hu⟩
  have hkn : k = g.n := g.injective hu
  simp only [nextUuid] at hk
  omega

/-- Handing out an identifier makes nothing else pending. -/
theorem Pending.of_next {g : IdGenerator} {u : Uuid} (h : g.nextUuid.2.Pending u) :
    g.Pending u := by
  obtain ⟨k, hk, hu⟩ := h
  exact ⟨k, by simp only [nextUuid] at hk; omega, hu⟩

end IdGenerator

end FuzzHelm
