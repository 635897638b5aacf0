import Mathlib.Data.Int.Order.Basic
import Mathlib.Data.List.Sort
import Mathlib.Order.RelIso.Basic

namespace FuzzHelm

/-!
# The audit log

Rows that say who did what, with the state before and after.  The identifier of a row is taken
from a sequence when it is inserted, so a transaction that is rolled back leaves a hole and one
that commits late has a smaller identifier than rows that are seen before it.

* `AuditRepo.list` — the newest rows, as the repository selects them;
* `AuditRepo.le_list` — a row that is not among them is older than one that is.
-/

/-- A row of `audit_log`; what is kept before and after depends on the action. -/
structure AuditRow (β γ : Type) where
  id : ℤ
  userId : Option ℤ
  action : String
  target : String
  before : β
  after : γ
  ip : Option String

variable {β γ : Type}

/-- The action of a party is not the one that it is at. -/
inductive NotNext where
  | notNext
  deriving DecidableEq, Repr

/-- `WHERE action = … ORDER BY id DESC LIMIT limit`, over the committed rows. -/
def AuditRepo.list (rows : List (AuditRow β γ)) (action : String) (limit : ℕ) :
    List (AuditRow β γ) :=
  ((rows.filter fun r => r.action = action).insertionSort fun r r' => r'.id ≤ r.id).take limit

/-- The order of the identifiers is transitive. -/
instance : IsTrans (AuditRow β γ) fun r r' => r.id ≤ r'.id := ⟨fun _ _ _ h h' => h.trans h'⟩

/-- The order of the identifiers is total. -/
instance : Std.Total fun r r' : AuditRow β γ => r.id ≤ r'.id := ⟨fun r r' => le_total r.id r'.id⟩

/-- The order from the newest on is transitive. -/
instance : IsTrans (AuditRow β γ) fun r r' => r'.id ≤ r.id := ⟨fun _ _ _ h h' => h'.trans h⟩

/-- The order from the newest on is total. -/
instance : Std.Total fun r r' : AuditRow β γ => r'.id ≤ r.id := ⟨fun r r' => le_total r'.id r.id⟩

variable {rows : List (AuditRow β γ)} {action : String} {limit : ℕ} {r : AuditRow β γ}

/-- What is listed is in the log, under the action that was asked for. -/
theorem AuditRepo.mem_list (h : r ∈ AuditRepo.list rows action limit) :
    r ∈ rows ∧ r.action = action := by
  have hmem := (List.mem_insertionSort _).mp (List.mem_of_mem_take h)
  rw [List.mem_filter, decide_eq_true_iff] at hmem
  exact hmem

/-- A row of the action that is not among the newest is older than one that is. -/
theorem AuditRepo.le_list (hlimit : 0 < limit) (hr : r ∈ rows) (haction : r.action = action) :
    ∃ r' ∈ AuditRepo.list rows action limit, r.id ≤ r'.id := by
  have hsorted : ((rows.filter fun r => r.action = action).insertionSort
      fun r r' => r'.id ≤ r.id).Pairwise fun r r' => r'.id ≤ r.id := List.pairwise_insertionSort _ _
  have hmem : r ∈ (rows.filter fun r => r.action = action).insertionSort
      fun r r' => r'.id ≤ r.id := by
    rw [List.mem_insertionSort, List.mem_filter]
    exact ⟨hr, decide_eq_true haction⟩
  show ∃ r' ∈ List.take limit _, _
  generalize (rows.filter fun r => decide (r.action = action)).insertionSort
    (fun r r' => r'.id ≤ r.id) = sorted at hsorted hmem
  cases sorted with
  | nil => cases hmem
  | cons newest older =>
    obtain ⟨n, rfl⟩ := Nat.exists_eq_succ_of_ne_zero hlimit.ne'
    refine ⟨newest, by simp, ?_⟩
    rcases List.mem_cons.mp hmem with rfl | hmem
    · exact le_refl _
    · exact (List.pairwise_cons.mp hsorted).1 r hmem

end FuzzHelm
