import FuzzHelm.Core.Enums
import FuzzHelm.Lib.Keyset
import Mathlib.Data.Int.Order.Basic
import Mathlib.Data.Prod.Lex
import Mathlib.Data.String.Basic

namespace FuzzHelm

open Lib

/-!
# The repository of risk events

The times of the domain are nanoseconds, the column holds microseconds.  The bounds of a query
are rounded up to whole microseconds, which does not change what lies between them.

* `RiskEventRepo.pageForRun` — a page of a run, the newest first, below a cursor;
* `selects_iff` — what a query selects, in nanoseconds;
* `pageForRun_eq` — a page is that of a listing by time and id, whatever the cursor.
-/

/-- The columns of `risk_event` that the queries read; the time is in microseconds. -/
structure RiskEventRow where
  id : ℤ
  runId : Option String
  tsUs : Option ℤ
  rule : String
  verdict : Option String
  deriving DecidableEq, Repr

/-- The nanoseconds of a microsecond. -/
def NS_PER_US : ℤ := 1000

/-- `STATE_RULE`: the rule of the transitions of the risk state. -/
def STATE_RULE : String := "risk_state"

/-- `ns_to_dt`, in microseconds from the epoch. -/
def nsToDt (ns : ℤ) : ℤ := ns / NS_PER_US

/-- `dt_to_ns`: the time of a column in nanoseconds. -/
def dtToNs (us : ℤ) : ℤ := us * NS_PER_US

/-- `ceil_us_ns`: the next time that a column can hold. -/
def ceilUsNs (ns : ℤ) : ℤ := ns + (-ns) % NS_PER_US

/-- `RiskEventRow.ts_ns`: the time of the row, where it has one. -/
def RiskEventRow.tsNs (r : RiskEventRow) : Option ℤ := r.tsUs.map dtToNs

/-- The arguments of `page_for_run` but for the limit. -/
structure RiskEventQuery where
  runId : String
  sinceNs : Option ℤ
  untilNs : Option ℤ
  rule : Option String
  verdict : Option String
  before : Option (ℤ × ℤ)

namespace RiskEventQuery

variable (q : RiskEventQuery)

/-- `WHERE`, but for the cursor. -/
def Selects (r : RiskEventRow) : Prop :=
  r.runId = some q.runId ∧ ∃ ts ∈ r.tsUs,
    (∀ s ∈ q.sinceNs, nsToDt (ceilUsNs s) ≤ ts) ∧ (∀ u ∈ q.untilNs, ts < nsToDt (ceilUsNs u)) ∧
    (∀ x ∈ q.rule, r.rule = x) ∧ ∀ v ∈ q.verdict, r.verdict = some v

/-- Whether a query selects a row can be computed. -/
instance (r : RiskEventRow) : Decidable (q.Selects r) :=
  inferInstanceAs (Decidable (r.runId = some q.runId ∧ ∃ ts ∈ r.tsUs,
    (∀ s ∈ q.sinceNs, nsToDt (ceilUsNs s) ≤ ts) ∧ (∀ u ∈ q.untilNs, ts < nsToDt (ceilUsNs u)) ∧
    (∀ x ∈ q.rule, r.rule = x) ∧ ∀ v ∈ q.verdict, r.verdict = some v))

/-- The cursor: a time that is no whole microsecond is that of no row. -/
def Before (r : RiskEventRow) : Prop :=
  ∀ b ∈ q.before, ∃ ts ∈ r.tsUs,
    if b.1 % NS_PER_US ≠ 0 then ts < nsToDt (ceilUsNs b.1)
    else ts < nsToDt b.1 ∨ (ts = nsToDt b.1 ∧ r.id < b.2)

/-- Whether a row lies before the cursor can be computed. -/
instance (r : RiskEventRow) : Decidable (q.Before r) :=
  inferInstanceAs (Decidable (∀ b ∈ q.before, ∃ ts ∈ r.tsUs,
    if b.1 % NS_PER_US ≠ 0 then ts < nsToDt (ceilUsNs b.1)
    else ts < nsToDt b.1 ∨ (ts = nsToDt b.1 ∧ r.id < b.2)))

end RiskEventQuery

/-- `ORDER BY ts DESC, id DESC`: the rows of a page have a time. -/
def RiskEventRow.key (r : RiskEventRow) : ℤ ×ₗ ℤ := toLex (r.tsNs.getD 0, r.id)

/-- `page_for_run`: the rows of a query below the cursor, the newest first, and at most so many. -/
def RiskEventRepo.pageForRun (table : List RiskEventRow) (q : RiskEventQuery) (limit : ℤ) :
    Except PyError (List RiskEventRow) :=
  if limit < 1 then .error (.valueError "limit must be >= 1")
  else .ok (((table.filter fun r => decide (q.Selects r ∧ q.Before r)).insertionSort
    fun r r' => r'.key ≤ r.key).take limit.toNat)

/-! ### Nanoseconds -/

/-- A time is at most a microsecond just when its ceiling is. -/
theorem ceil_le_iff (ns us : ℤ) : nsToDt (ceilUsNs ns) ≤ us ↔ ns ≤ dtToNs us := by
  unfold nsToDt ceilUsNs dtToNs NS_PER_US
  omega

/-- A time is behind a microsecond just when its ceiling is. -/
theorem lt_ceil_iff (ns us : ℤ) : us < nsToDt (ceilUsNs ns) ↔ dtToNs us < ns := by
  unfold nsToDt ceilUsNs dtToNs NS_PER_US
  omega

/-- **What a query selects**, in nanoseconds. -/
theorem selects_iff (q : RiskEventQuery) (r : RiskEventRow) :
    q.Selects r ↔ r.runId = some q.runId ∧ ∃ ts ∈ r.tsNs,
      (∀ s ∈ q.sinceNs, s ≤ ts) ∧ (∀ u ∈ q.untilNs, ts < u) ∧
      (∀ x ∈ q.rule, r.rule = x) ∧ ∀ v ∈ q.verdict, r.verdict = some v := by
  unfold RiskEventQuery.Selects RiskEventRow.tsNs
  simp only [ceil_le_iff, lt_ceil_iff, Option.mem_def, Option.map_eq_some_iff,
    exists_exists_and_eq_and]

/-- **The cursor** is a bound on the time and the id, also where its time is no whole
    microsecond. -/
theorem before_iff (q : RiskEventQuery) {r : RiskEventRow} {ts : ℤ} (hts : r.tsUs = some ts) :
    q.Before r ↔ Below RiskEventRow.key (q.before.map toLex) r := by
  have hkey : r.key = toLex (dtToNs ts, r.id) := by
    rw [RiskEventRow.key, RiskEventRow.tsNs, hts]
    rfl
  unfold RiskEventQuery.Before Below
  rw [hkey, hts]
  cases hb : q.before with
  | none => simp
  | some b =>
    obtain ⟨bts, bid⟩ := b
    simp only [Option.mem_def, Option.some.injEq, forall_eq', exists_eq_left', Option.map_some,
      Prod.Lex.toLex_lt_toLex]
    split_ifs with hwhole
    · unfold nsToDt ceilUsNs dtToNs NS_PER_US at *
      omega
    · unfold nsToDt dtToNs NS_PER_US at *
      omega

/-- **A page** is that of the listing of what the query selects. -/
theorem RiskEventRepo.pageForRun_eq (table : List RiskEventRow) (q : RiskEventQuery) {limit : ℤ}
    (hlimit : 1 ≤ limit) :
    RiskEventRepo.pageForRun table q limit = .ok ((listing RiskEventRow.key (q.before.map toLex)
      (table.filter fun r => decide (q.Selects r))).take limit.toNat) := by
  have hfilter : (table.filter fun r => decide (q.Selects r ∧ q.Before r)) =
      (table.filter fun r => decide (q.Selects r)).filter fun r =>
        decide (Below RiskEventRow.key (q.before.map toLex) r) := by
    rw [List.filter_filter]
    apply List.filter_congr
    intro r _
    by_cases hsel : q.Selects r
    · have hbefore : q.Before r ↔ Below RiskEventRow.key (q.before.map toLex) r := by
        obtain ⟨-, ts, hts, -⟩ := hsel
        exact before_iff q hts
      simp [hsel, hbefore]
    · simp [hsel]
  unfold RiskEventRepo.pageForRun listing
  rw [if_neg (by omega), hfilter]

end FuzzHelm
