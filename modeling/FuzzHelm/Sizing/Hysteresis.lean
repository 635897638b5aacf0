import FuzzHelm.Core.Enums
import FuzzHelm.Risk.Config

namespace FuzzHelm

/-!
# The Schmitt trigger on intents

A position is entered at a strong signal and left only when the signal has faded, so that
the position does not chatter around one threshold.

* `HysteresisGate.update` — the machine on flat, long and short;
* `update_side` — the side after a signal lies between the thresholds: it is entered only at
  `enter` and kept only from `exit` on.
-/

/-- The gate; the order of its thresholds is checked by the constructor. -/
structure HysteresisGate where
  enter : ℚ
  exit : ℚ
  side : Side
  flips : ℕ
  exit_nonneg : 0 ≤ exit
  exit_le : exit ≤ enter
  enter_le : enter ≤ 1

namespace HysteresisGate

/-- `HysteresisGate(enter, exit)` of a validated configuration. -/
def new (cfg : HysteresisCfg) : HysteresisGate :=
  ⟨cfg.enter, cfg.exit, .flat, 0, cfg.exit_nonneg, cfg.band, cfg.enter_le⟩

variable (g : HysteresisGate) (u : ℚ)

/-- `reset`: the gate is put on a side, and the flips stay counted. -/
def reset (side : Side) : HysteresisGate := { g with side := side }

/-- The side after the signal `u`. -/
def next : Side :=
  match g.side with
  | .flat => if g.enter ≤ u then .long else if u ≤ -g.enter then .short else .flat
  | .long => if u ≤ -g.enter then .short else if u < g.exit then .flat else .long
  | .short => if g.enter ≤ u then .long else if -g.exit < u then .flat else .short

/-- `update`: the side after the signal, and the gate that remembers it. -/
def update : Side × HysteresisGate :=
  (g.next u,
    { g with
      side := g.next u
      flips := if g.next u = g.side then g.flips else g.flips + 1 })

/-- **The band.** After any signal the gate is long only if the signal is at least `exit`, and
    newly long only if it is at least `enter`; short likewise. -/
theorem update_side :
    ((g.update u).1 = .long → g.exit ≤ u ∧ (g.side ≠ .long → g.enter ≤ u)) ∧
      ((g.update u).1 = .short → u ≤ -g.exit ∧ (g.side ≠ .short → u ≤ -g.enter)) := by
  have hband := g.exit_le
  cases hs : g.side with
  | flat =>
    simp only [update, next, hs]
    constructor
    · intro h
      split at h
      · rename_i hu
        exact ⟨hband.trans hu, fun _ => hu⟩
      · split at h <;> cases h
    · intro h
      split at h
      · cases h
      · split at h
        · rename_i hu
          exact ⟨hu.trans (neg_le_neg hband), fun _ => hu⟩
        · cases h
  | long =>
    simp only [update, next, hs]
    constructor
    · intro h
      split at h
      · cases h
      · split at h
        · cases h
        · rename_i hu
          exact ⟨not_lt.mp hu, fun hne => absurd rfl hne⟩
    · intro h
      split at h
      · rename_i hu
        exact ⟨hu.trans (neg_le_neg hband), fun _ => hu⟩
      · split at h <;> cases h
  | short =>
    simp only [update, next, hs]
    constructor
    · intro h
      split at h
      · rename_i hu
        exact ⟨hband.trans hu, fun _ => hu⟩
      · split at h <;> cases h
    · intro h
      split at h
      · cases h
      · split at h
        · cases h
        · rename_i hu
          exact ⟨not_lt.mp hu, fun hne => absurd rfl hne⟩

end HysteresisGate

end FuzzHelm
