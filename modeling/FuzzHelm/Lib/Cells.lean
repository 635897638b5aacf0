import Mathlib.Logic.Basic

namespace Lib

/-!
# Tables of cells

A table holds a cell for some of its keys.  A call of the table creates cells and moves others; what
one cell may do is a small machine of its own, and its invariants are those of every table.

* `CellStep` — what a call may do to the cell of one key;
* `CellStep.forall_mem` — an invariant of the cell;
* `Creates` — a call that only creates cells, and `CellStep.creates` — after another call.
-/

variable {ρ : Type*} {born : ρ → Prop} {move move' : ρ → ρ → Prop}

/-- What a call may do to the cell of one key, where `none` is a key without a cell. -/
inductive CellStep (born : ρ → Prop) (move : ρ → ρ → Prop) : Option ρ → Option ρ → Prop
  | absent : CellStep born move none none
  | created {r : ρ} : born r → CellStep born move none (some r)
  | kept (r : ρ) : CellStep born move (some r) (some r)
  | moved {r r' : ρ} : move r r' → CellStep born move (some r) (some r')

namespace CellStep

variable {o o' : Option ρ}

/-- Nothing has happened to the cell. -/
theorem refl (born : ρ → Prop) (move : ρ → ρ → Prop) (o : Option ρ) : CellStep born move o o := by
  cases o with
  | none => exact .absent
  | some r => exact .kept r

/-- The cell is as it was. -/
theorem of_eq (h : o' = o) : CellStep born move o o' := h ▸ .refl born move o

/-- A step by fewer moves is a step by more. -/
theorem mono (h : CellStep born move o o') (hmove : ∀ r r', move r r' → move' r r') :
    CellStep born move' o o' := by
  cases h with
  | absent => exact .absent
  | created hr => exact .created hr
  | kept r => exact .kept r
  | moved hr => exact .moved (hmove _ _ hr)

/-- **Invariant rule.** What holds of new cells and is kept by the moves holds of the cell after
    the call. -/
theorem forall_mem {P : ρ → Prop} (h : CellStep born move o o') (hborn : ∀ r, born r → P r)
    (hmove : ∀ r r', move r r' → P r → P r') (ho : ∀ r ∈ o, P r) : ∀ r ∈ o', P r := by
  intro r hr
  cases h with
  | absent => cases hr
  | created hnew =>
    cases hr
    exact hborn r hnew
  | kept => exact ho r hr
  | moved hm =>
    cases hr
    exact hmove _ _ hm (ho _ rfl)

end CellStep

/-- A call that creates the cell of a key or leaves it alone. -/
def Creates (born : ρ → Prop) (o o' : Option ρ) : Prop := o' = o ∨ (o = none ∧ ∃ r ∈ o', born r)

namespace Creates

variable {o o' o'' : Option ρ}

/-- A cell that is created, or not, over two parts. -/
theorem trans (h : Creates born o o') (h' : Creates born o' o'') : Creates born o o'' := by
  rcases h with rfl | ⟨hnone, r, hr, hborn⟩
  · exact h'
  · rcases h' with rfl | ⟨hnone', -⟩
    · exact .inr ⟨hnone, r, hr, hborn⟩
    · rw [hnone'] at hr
      cases hr

/-- A cell that is there stays. -/
theorem eq_some (h : Creates born o o') {r : ρ} (ho : o = some r) : o' = some r := by
  rcases h with rfl | ⟨hnone, -⟩
  · exact ho
  · rw [ho] at hnone
    cases hnone

end Creates

/-- After a call that moves cells, one that only creates some. -/
theorem CellStep.creates {o o' o'' : Option ρ} (h : CellStep born move o o')
    (h' : Creates born o' o'') : CellStep born move o o'' := by
  rcases h' with rfl | ⟨hnone, r, hr, hborn⟩
  · exact h
  · rw [Option.mem_def] at hr
    rw [hr]
    cases h with
    | absent => exact .created hborn
    | created => cases hnone
    | kept => cases hnone
    | moved => cases hnone

end Lib
