import FuzzHelm.Lib.Dict
import FuzzHelm.Lib.Run
import Mathlib.Algebra.Order.Group.Nat
import Mathlib.Algebra.Order.BigOperators.Group.List

namespace FuzzHelm

open Lib

/-!
# Backtests in the background

The service keeps a registry of its jobs and a task for each that is not over; a task waits for
one of the places, prepares its run, writes the row of the run, computes, and writes the results
and the end of the run together.  What goes wrong on the way is written into the row where there
is one.  A transaction is committed before its task goes on, and a cancellation or an error can
come between the two.

* `BacktestService` — registry, tasks, the table of the runs, and the writes nobody waits for;
* `BacktestService.Step` — what can happen, in any order, the end of the process included;
* `evict` — the oldest jobs that are over make room;
* `Agrees` — the job, the task and the row of one identifier;
* `Sound` — the service in any state that it comes to, kept by each step.
-/

/-! ### Jobs and runs -/

/-- Where a job of the registry is; a job that is over never changes again. -/
inductive JobStatus where
  | pending
  | running
  | done
  | failed
  deriving DecidableEq, Repr

/-- The job is over. -/
def JobStatus.isOver : JobStatus → Bool
  | done | failed => true
  | pending | running => false

/-- A job as the registry keeps it: who submitted it, and how far it has come. -/
structure BacktestJob where
  actor : String
  status : JobStatus
  error : Option String

/-- What the table of the runs says of a run. -/
inductive RunStatus where
  | running
  | done
  | failed
  deriving DecidableEq, Repr

/-- What makes two runs the same, `ux_run_identity`. -/
structure RunIdentity where
  configHash : String
  datasetHash : String
  seed : ℤ
  engine : String
  gitSha : Option String
  deriving DecidableEq

/-- The row of a run, and the rows of other tables that are written with its end. -/
structure RunRow (ρ : Type*) where
  identity : RunIdentity
  gitDirty : Option Bool
  status : RunStatus
  error : Option String
  journalHead : Option String
  equityHash : Option String
  results : Option ρ

/-- What is known of a run before it is computed. -/
structure PreparedBacktest where
  identity : RunIdentity
  gitDirty : Option Bool

/-- What the engine answers: its manifest and the rows to store. -/
structure Computed (ρ : Type*) where
  configHash : String
  datasetHash : String
  journalHead : String
  equityHash : String
  rows : ρ

/-- Where a task is.  In `recorded`, `stored` and `failed` it has committed the passport, the
    results or its error and has not gone on yet; `failing` writes the error of an exception,
    `cancelling` that of a cancellation, behind `asyncio.shield`. -/
inductive RunPhase (ρ : Type*) where
  | waiting
  | preparing
  | checked (p : PreparedBacktest)
  | recorded (p : PreparedBacktest)
  | computing (p : PreparedBacktest)
  | storing (p : PreparedBacktest) (r : Computed ρ)
  | stored (p : PreparedBacktest) (r : Computed ρ)
  | failing (p : PreparedBacktest) (error : String)
  | cancelling (p : PreparedBacktest)
  | failed (p : PreparedBacktest) (error : String)

/-- The status of the job of a task. -/
def RunPhase.status {ρ : Type*} : RunPhase ρ → JobStatus
  | waiting => .pending
  | _ => .running

/-- The task has no row yet. -/
def RunPhase.isEarly {ρ : Type*} : RunPhase ρ → Bool
  | waiting | preparing | checked _ => true
  | _ => false

/-- The task has committed its results and not gone on. -/
def RunPhase.isStored {ρ : Type*} : RunPhase ρ → Bool
  | stored _ _ => true
  | _ => false

/-- How much of the text of an error is kept. -/
def ERROR_MAX_CHARS : ℕ := 500

/-- The first `ERROR_MAX_CHARS` characters. -/
def publicText (text : String) : String := String.ofList (text.toList.take ERROR_MAX_CHARS)

/-- `public_error`, for an exception of this type with this text. -/
def publicError (type text : String) : String := publicText (type ++ ": " ++ text)

/-- The error of a task that was cancelled. -/
def cancelledText : String := "cancelled on shutdown"

/-! ### The service -/

/-- The service and the table of the runs; `issued` are the identifiers given so far, and
    `orphans` those whose task is over while the write it had shielded is still under way. -/
structure BacktestService (ρ : Type*) where
  maxConcurrent : ℕ
  maxPending : ℤ
  maxJobs : ℤ
  jobs : Dict String BacktestJob
  tasks : Dict String (RunPhase ρ)
  runs : Dict String (RunRow ρ)
  issued : List String
  orphans : List String

namespace BacktestService

variable {ρ : Type*}

/-- `EngineBacktestService(...)` over a table without runs. -/
def new (maxConcurrent : ℕ) (maxPending maxJobs : ℤ) : BacktestService ρ :=
  ⟨maxConcurrent, maxPending, maxJobs, ∅, ∅, ∅, [], []⟩

/-- The jobs, each counted by its status. -/
def tally (w : JobStatus → ℕ) (jobs : Dict String BacktestJob) : ℕ := jobs.sum fun _ j => w j.status

/-- One for a job that is not over. -/
def isOpen (st : JobStatus) : ℕ := if st.isOver then 0 else 1

/-- One for a job that runs. -/
def isRunning (st : JobStatus) : ℕ := if st = .running then 1 else 0

/-- The loop of `_evict`: the oldest job that is over leaves, until the registry is short enough
    or holds no such job; a round for each job is enough. -/
def evictLoop (maxJobs : ℤ) : ℕ → Dict String BacktestJob → Dict String BacktestJob
  | 0, jobs => jobs
  | n + 1, jobs =>
    if maxJobs < jobs.entries.length then
      match jobs.entries.find? fun e => e.2.status.isOver with
      | none => jobs
      | some victim => evictLoop maxJobs n (jobs.erase victim.1)
    else jobs

/-- `_evict`: the registry, cut to `maxJobs` as far as jobs that are over allow it. -/
def evict (maxJobs : ℤ) (jobs : Dict String BacktestJob) : Dict String BacktestJob :=
  evictLoop maxJobs jobs.entries.length jobs

variable (s : BacktestService ρ)

/-- `_unfinished`: the jobs that wait or run. -/
def unfinished : ℕ := tally isOpen s.jobs

/-- The places of the semaphore that are taken. -/
def placesTaken : ℕ := s.tasks.sum fun _ ph => isRunning ph.status

/-- `job.status, job.error = …`, where the registry still has the job. -/
def setJob (id : String) (status : JobStatus) (error : Option String) : BacktestService ρ :=
  match s.jobs.get? id with
  | none => s
  | some j => { s with jobs := s.jobs.insert id { j with status := status, error := error } }

/-- The task goes on. -/
def goOn (id : String) (ph : RunPhase ρ) : BacktestService ρ :=
  { s with tasks := s.tasks.insert id ph }

/-- The task is over. -/
def endTask (id : String) : BacktestService ρ := { s with tasks := s.tasks.erase id }

/-- The task ends with an error. -/
def failTask (id : String) (error : String) : BacktestService ρ :=
  (s.setJob id .failed (some error)).endTask id

/-- `submit`, where there is room: a job, after which others may have to leave, and its task. -/
def accept (id actor : String) : BacktestService ρ :=
  { s with
    jobs := evict s.maxJobs (s.jobs.insert id ⟨actor, .pending, none⟩)
    tasks := s.tasks.insert id .waiting
    issued := id :: s.issued }

/-- `find_by_identity`: the newest row of this identity, whatever its status. -/
def findByIdentity (identity : RunIdentity) : Option String :=
  (s.runs.entries.reverse.find? fun e => e.2.identity = identity).map Prod.fst

/-- The row violates a unique index: of the identifier, or of the identity, where a missing
    `git_sha` is never equal to another. -/
def conflicts (id : String) (identity : RunIdentity) : Bool :=
  (s.runs.get? id).isSome ||
    (identity.gitSha.isSome && s.runs.entries.any fun e => e.2.identity = identity)

/-- The passport of a run, before anything is known of its end. -/
def startedRow (p : PreparedBacktest) : RunRow ρ :=
  ⟨p.identity, p.gitDirty, .running, none, none, none, none⟩

/-- `create`: the passport is written. -/
def insertRun (id : String) (p : PreparedBacktest) : BacktestService ρ :=
  { s with runs := s.runs.insert id (startedRow p) }

/-- `finish`: the row of a run is changed, and no other. -/
def finishRun (id : String) (f : RunRow ρ → RunRow ρ) : BacktestService ρ :=
  match s.runs.get? id with
  | none => s
  | some row => { s with runs := s.runs.insert id (f row) }

/-- What the last transaction of a run writes: the results and `finish(DONE)`. -/
def storedRow (r : Computed ρ) (row : RunRow ρ) : RunRow ρ :=
  { row with
    status := .done
    error := none
    journalHead := some r.journalHead
    equityHash := some r.equityHash
    results := some r.rows }

/-- `finish(FAILED)`: no hash is given, so those that the row has stay, and so do results. -/
def failedRow (error : String) (row : RunRow ρ) : RunRow ρ :=
  { row with status := .failed, error := some (publicText error) }

/-- The task is over, and the write that it had shielded goes on without it. -/
def abandon (id : String) : BacktestService ρ :=
  { s.failTask id cancelledText with orphans := id :: s.orphans }

/-- The end of a write that nobody waits for. -/
def settle (id : String) : BacktestService ρ :=
  { s with orphans := s.orphans.filter fun o => o ≠ id }

/-- A write of this run is under way that nobody waits for. -/
def isOrphan (id : String) : Bool := decide (id ∈ s.orphans)

end BacktestService

/-- What happens next; an exception has the text that `public_error` gives.  `inserted`,
    `stored` and `reported` are the ends of transactions, `resumed` is the task that goes on
    after one, and `settled` the end of a write that nobody waits for. -/
inductive BacktestEvent (ρ : Type*) where
  | submit (id actor : String)
  | start (id : String)
  | prepared (id : String) (p : PreparedBacktest)
  | raised (id : String) (error : String)
  | inserted (id : String)
  | computed (id : String) (r : Computed ρ)
  | stored (id : String)
  | reported (id : String) (written : Bool)
  | resumed (id : String)
  | settled (id : String) (written : Bool)
  | cancel (id : String)
  | crash

namespace BacktestService

variable {ρ : Type*}

/-- The error of a run that has an equal one in the table. -/
def duplicateText (dup : String) : String :=
  publicError "DuplicateRunError" ("identical run already stored as " ++ dup ++
    " (same config_hash, dataset_hash, seed, engine, git_sha)")

/-- The error of a run whose passport violates a unique index. -/
def concurrentText : String :=
  publicError "FuzzHelmError" "identical run is being stored concurrently"

/-- The error of a run whose engine answers under other hashes than the passport has. -/
def mismatchText : String :=
  publicError "FuzzHelmError" "engine manifest does not match the stored passport"

/-- What can happen; `false` is the answer of `submit` when the queue is full.  A cancellation
    while the error of an exception is written rolls that write back; one that comes while the
    error of a cancellation is written leaves the write to itself. -/
inductive Step : BacktestService ρ → BacktestEvent ρ → Bool → BacktestService ρ → Prop
  | refuse {s : BacktestService ρ} {id actor : String} (hfull : s.maxPending ≤ s.unfinished) :
      Step s (.submit id actor) false s
  | accept {s : BacktestService ρ} {id actor : String} (hroom : s.unfinished < s.maxPending)
      (hnew : id ∉ s.issued) : Step s (.submit id actor) true (s.accept id actor)
  | start {s : BacktestService ρ} {id : String} (h : s.tasks.get? id = some .waiting)
      (hplace : s.placesTaken < s.maxConcurrent) :
      Step s (.start id) true ((s.setJob id .running none).goOn id .preparing)
  | duplicate {s : BacktestService ρ} {id : String} {p : PreparedBacktest} {dup : String}
      (h : s.tasks.get? id = some .preparing) (hdup : s.findByIdentity p.identity = some dup) :
      Step s (.prepared id p) true (s.failTask id (duplicateText dup))
  | prepared {s : BacktestService ρ} {id : String} {p : PreparedBacktest}
      (h : s.tasks.get? id = some .preparing) (hdup : s.findByIdentity p.identity = none) :
      Step s (.prepared id p) true (s.goOn id (.checked p))
  | conflict {s : BacktestService ρ} {id : String} {p : PreparedBacktest}
      (h : s.tasks.get? id = some (.checked p)) (hconflict : s.conflicts id p.identity = true) :
      Step s (.inserted id) true (s.failTask id concurrentText)
  | inserted {s : BacktestService ρ} {id : String} {p : PreparedBacktest}
      (h : s.tasks.get? id = some (.checked p)) (hconflict : s.conflicts id p.identity = false) :
      Step s (.inserted id) true ((s.insertRun id p).goOn id (.recorded p))
  | begun {s : BacktestService ρ} {id : String} {p : PreparedBacktest}
      (h : s.tasks.get? id = some (.recorded p)) :
      Step s (.resumed id) true (s.goOn id (.computing p))
  | mismatch {s : BacktestService ρ} {id : String} {p : PreparedBacktest} {r : Computed ρ}
      (h : s.tasks.get? id = some (.computing p))
      (hother : (r.configHash, r.datasetHash) ≠ (p.identity.configHash, p.identity.datasetHash)) :
      Step s (.computed id r) true (s.goOn id (.failing p mismatchText))
  | computed {s : BacktestService ρ} {id : String} {p : PreparedBacktest} {r : Computed ρ}
      (h : s.tasks.get? id = some (.computing p))
      (hsame : (r.configHash, r.datasetHash) = (p.identity.configHash, p.identity.datasetHash)) :
      Step s (.computed id r) true (s.goOn id (.storing p r))
  | stored {s : BacktestService ρ} {id : String} {p : PreparedBacktest} {r : Computed ρ}
      (h : s.tasks.get? id = some (.storing p r)) :
      Step s (.stored id) true ((s.finishRun id (storedRow r)).goOn id (.stored p r))
  | finished {s : BacktestService ρ} {id : String} {p : PreparedBacktest} {r : Computed ρ}
      (h : s.tasks.get? id = some (.stored p r)) :
      Step s (.resumed id) true ((s.setJob id .done none).endTask id)
  -- outside of the `try` of `__call__`: the row, where there is one, stays as it is
  | raised {s : BacktestService ρ} {id error : String} {ph : RunPhase ρ}
      (h : s.tasks.get? id = some ph)
      (hearly : ph = .preparing ∨ ∃ p, ph = .checked p ∨ ph = .recorded p) :
      Step s (.raised id error) true (s.failTask id error)
  -- inside: also while the session of committed results is closed
  | failed {s : BacktestService ρ} {id error : String} {ph : RunPhase ρ} {p : PreparedBacktest}
      (h : s.tasks.get? id = some ph)
      (hlate : ph = .computing p ∨ ∃ r, ph = .storing p r ∨ ph = .stored p r) :
      Step s (.raised id error) true (s.goOn id (.failing p error))
  | reported {s : BacktestService ρ} {id error : String} {ph : RunPhase ρ} {p : PreparedBacktest}
      (h : s.tasks.get? id = some ph)
      (hwrites : ph = .failing p error ∨ ph = .cancelling p ∧ error = cancelledText) :
      Step s (.reported id true) true
        ((s.finishRun id (failedRow error)).goOn id (.failed p error))
  | unreported {s : BacktestService ρ} {id error : String} {ph : RunPhase ρ}
      {p : PreparedBacktest} (h : s.tasks.get? id = some ph)
      (hwrites : ph = .failing p error ∨ ph = .cancelling p ∧ error = cancelledText) :
      Step s (.reported id false) true (s.failTask id error)
  | ended {s : BacktestService ρ} {id error : String} {p : PreparedBacktest}
      (h : s.tasks.get? id = some (.failed p error)) :
      Step s (.resumed id) true (s.failTask id error)
  | cancelWaiting {s : BacktestService ρ} {id : String} (h : s.tasks.get? id = some .waiting) :
      Step s (.cancel id) true (s.endTask id)
  -- no handler of `__call__` is entered: before the `try`, or in one already
  | cancelOut {s : BacktestService ρ} {id : String} {ph : RunPhase ρ}
      (h : s.tasks.get? id = some ph)
      (hout : ph = .preparing ∨ ∃ p, ph = .checked p ∨ ph = .recorded p ∨
        ∃ error, ph = .failing p error ∨ ph = .failed p error) :
      Step s (.cancel id) true (s.failTask id cancelledText)
  | cancelIn {s : BacktestService ρ} {id : String} {ph : RunPhase ρ} {p : PreparedBacktest}
      (h : s.tasks.get? id = some ph)
      (hlate : ph = .computing p ∨ ∃ r, ph = .storing p r ∨ ph = .stored p r) :
      Step s (.cancel id) true (s.goOn id (.cancelling p))
  | cancelAgain {s : BacktestService ρ} {id : String} {p : PreparedBacktest}
      (h : s.tasks.get? id = some (.cancelling p)) : Step s (.cancel id) true (s.abandon id)
  | settled {s : BacktestService ρ} {id : String} (h : s.isOrphan id = true) :
      Step s (.settled id true) true ((s.finishRun id (failedRow cancelledText)).settle id)
  | unsettled {s : BacktestService ρ} {id : String} (h : s.isOrphan id = true) :
      Step s (.settled id false) true (s.settle id)
  | crash {s : BacktestService ρ} :
      Step s .crash true { s with jobs := ∅, tasks := ∅, orphans := [] }

/-- The service over time. -/
abbrev BacktestRun (ρ : Type*) := Run (@Step ρ)

/-- What has happened so far. -/
abbrev BacktestLog (ρ : Type*) := List (Entry (BacktestService ρ) (BacktestEvent ρ) Bool)

/-! ### Making room -/

/-- What `_evict` takes away. -/
structure Evicts (maxJobs : ℤ) (jobs jobs' : Dict String BacktestJob) : Prop where
  get? : ∀ id, jobs'.get? id = jobs.get? id ∨
    jobs'.get? id = none ∧ ∃ j, jobs.get? id = some j ∧ j.status.isOver = true
  tally_eq : ∀ w, (∀ st : JobStatus, st.isOver = true → w st = 0) → tally w jobs' = tally w jobs
  length : (jobs'.entries.length : ℤ) ≤ maxJobs ∨ jobs'.entries.length = tally isOpen jobs'

/-- When no job is over, all of them are open. -/
theorem tally_isOpen_of_find? {jobs : Dict String BacktestJob}
    (h : jobs.entries.find? (fun e => e.2.status.isOver) = none) :
    jobs.entries.length = tally isOpen jobs := by
  rw [List.find?_eq_none] at h
  rw [tally, Dict.sum]
  have hone : jobs.entries.map (fun e => isOpen e.2.status) = jobs.entries.map fun _ => 1 := by
    refine List.map_congr_left fun e he => ?_
    rw [isOpen, if_neg (h e he)]
  rw [hone]
  simp

/-- **The loop of the eviction**, by induction on the jobs: it takes the oldest that is over, and
    stops where there is none or enough are gone. -/
theorem evictLoop_spec (maxJobs : ℤ) (n : ℕ) (jobs : Dict String BacktestJob)
    (hn : jobs.entries.length ≤ n) : Evicts maxJobs jobs (evictLoop maxJobs n jobs) := by
  induction n generalizing jobs with
  | zero =>
    have hnil : jobs.entries = [] := List.length_eq_zero_iff.mp (Nat.le_zero.mp hn)
    refine ⟨fun _ => .inl rfl, fun _ _ => rfl, .inr ?_⟩
    rw [evictLoop, tally, Dict.sum, hnil]
    rfl
  | succ n ih =>
    unfold evictLoop
    split
    · split
      · rename_i hfind
        exact ⟨fun _ => .inl rfl, fun _ _ => rfl, .inr (tally_isOpen_of_find? hfind)⟩
      · rename_i victim hfind
        -- the oldest job that is over goes, and the rest of the loop sees a shorter registry
        have hmem := List.mem_of_find?_eq_some hfind
        have hover : victim.2.status.isOver = true := by simpa using List.find?_some hfind
        have hget : jobs.get? victim.1 = some victim.2 := (jobs.mem_entries_iff _ _).mp hmem
        have hlength := jobs.length_erase_lt hget
        obtain ⟨hrest, htally, hshort⟩ := ih (jobs.erase victim.1) (by omega)
        refine ⟨fun id => ?_, fun w hw => ?_, hshort⟩
        · rcases hrest id with hid | ⟨hid, j, hj, hjover⟩
          · rw [hid, Dict.get?_erase]
            by_cases heq : victim.1 = id
            · rw [if_pos heq, ← heq]
              exact .inr ⟨rfl, victim.2, hget, hover⟩
            · exact .inl (if_neg heq)
          · rw [Dict.get?_erase] at hj
            split at hj
            · cases hj
            · exact .inr ⟨hid, j, hj, hjover⟩
        · have herase := jobs.sum_erase (fun _ j => w j.status) victim.1
          rw [hget, Option.elim_some, hw _ hover, Nat.add_zero] at herase
          exact (htally w hw).trans herase
    · rename_i hfits
      exact ⟨fun _ => .inl rfl, fun _ _ => rfl, .inl (not_lt.mp hfits)⟩

/-- `_evict` takes as few jobs as the bound asks for, and only such as are over. -/
theorem evict_spec (maxJobs : ℤ) (jobs : Dict String BacktestJob) :
    Evicts maxJobs jobs (evict maxJobs jobs) := evictLoop_spec maxJobs _ jobs le_rfl

/-! ### One identifier -/

/-- A row before anything has gone wrong: the passport alone, or with the results. -/
inductive Written (p : PreparedBacktest) : RunRow ρ → Prop
  | started : Written p (startedRow p)
  | stored {r : Computed ρ} (hsame : (r.configHash, r.datasetHash) =
      (p.identity.configHash, p.identity.datasetHash)) : Written p (storedRow r (startedRow p))

/-- The row of a task that has one. -/
inductive Row (p : PreparedBacktest) : RunPhase ρ → RunRow ρ → Prop
  | recorded : Row p (.recorded p) (startedRow p)
  | computing : Row p (.computing p) (startedRow p)
  | storing {r : Computed ρ} (hsame : (r.configHash, r.datasetHash) =
      (p.identity.configHash, p.identity.datasetHash)) : Row p (.storing p r) (startedRow p)
  | stored {r : Computed ρ} (hsame : (r.configHash, r.datasetHash) =
      (p.identity.configHash, p.identity.datasetHash)) :
      Row p (.stored p r) (storedRow r (startedRow p))
  | failing (error : String) {row : RunRow ρ} (hrow : Written p row) : Row p (.failing p error) row
  | cancelling {row : RunRow ρ} (hrow : Written p row) : Row p (.cancelling p) row
  | failed (error : String) {row : RunRow ρ} (hrow : Written p row) :
      Row p (.failed p error) (failedRow error row)

/-- The rows that a task can leave behind that ends with this error.  A text in the row is the
    error of the job, unless a cancellation came after it was written. -/
inductive Ended (error : String) : Option (RunRow ρ) → Prop
  | none : Ended error none
  | kept {p : PreparedBacktest} {row : RunRow ρ} (hrow : Written p row) : Ended error (some row)
  | failed {p : PreparedBacktest} {row : RunRow ρ} (hrow : Written p row) {text : String}
      (htext : text = error ∨ error = cancelledText) : Ended error (some (failedRow text row))

/-- The rows that a run can leave behind. -/
inductive Left : Option (RunRow ρ) → Prop
  | none : Left none
  | kept {p : PreparedBacktest} {row : RunRow ρ} (hrow : Written p row) : Left (some row)
  | failed {p : PreparedBacktest} {row : RunRow ρ} (hrow : Written p row) (error : String) :
      Left (some (failedRow error row))

/-- The job, the task and the row of one identifier, and whether it has an orphaned write. -/
inductive Agrees :
    Option BacktestJob → Option (RunPhase ρ) → Option (RunRow ρ) → Bool → Prop
  | waiting (actor : String) : Agrees (some ⟨actor, .pending, none⟩) (some .waiting) none false
  | leaked (actor : String) : Agrees (some ⟨actor, .pending, none⟩) none none false
  | preparing (actor : String) :
      Agrees (some ⟨actor, .running, none⟩) (some .preparing) none false
  | checked (actor : String) (p : PreparedBacktest) :
      Agrees (some ⟨actor, .running, none⟩) (some (.checked p)) none false
  | started (actor : String) {p : PreparedBacktest} {ph : RunPhase ρ} {row : RunRow ρ}
      (h : Row p ph row) : Agrees (some ⟨actor, .running, none⟩) (some ph) (some row) false
  | done (actor : String) (p : PreparedBacktest) {r : Computed ρ}
      (hsame : (r.configHash, r.datasetHash) =
        (p.identity.configHash, p.identity.datasetHash)) :
      Agrees (some ⟨actor, .done, none⟩) none (some (storedRow r (startedRow p))) false
  | failed (actor error : String) {row : Option (RunRow ρ)} (hrow : Ended error row) :
      Agrees (some ⟨actor, .failed, some error⟩) none row false
  | orphaned (actor : String) {p : PreparedBacktest} {row : RunRow ρ} (hrow : Written p row) :
      Agrees (some ⟨actor, .failed, some cancelledText⟩) none (some row) true
  | gone {row : Option (RunRow ρ)} (h : Left row) : Agrees none none row false
  | goneOrphan {p : PreparedBacktest} {row : RunRow ρ} (hrow : Written p row) :
      Agrees none none (some row) true

/-- All four of an identifier. -/
def AgreesAt (s : BacktestService ρ) (id : String) : Prop :=
  Agrees (s.jobs.get? id) (s.tasks.get? id) (s.runs.get? id) (s.isOrphan id)

/-- A task that has ended with an error has left no row of its own that runs. -/
theorem Ended.left {error : String} {row : Option (RunRow ρ)} (h : Ended error row) :
    Left row := by
  cases h with
  | none => exact .none
  | kept hrow => exact .kept hrow
  | failed hrow htext => exact .failed hrow _

/-- A row of a task is one that can be left behind. -/
theorem Row.left {p : PreparedBacktest} {ph : RunPhase ρ} {row : RunRow ρ} (h : Row p ph row) :
    Left (some row) := by
  cases h with
  | recorded | computing => exact .kept .started
  | storing => exact .kept .started
  | stored hsame => exact .kept (.stored hsame)
  | failing error hrow | cancelling hrow => exact .kept hrow
  | failed error hrow => exact .failed hrow error

/-- Every row is one that can be left behind, so the process may end at any time. -/
theorem Agrees.left {job : Option BacktestJob} {task : Option (RunPhase ρ)}
    {row : Option (RunRow ρ)} {orphan : Bool} (h : Agrees job task row orphan) : Left row := by
  cases h with
  | waiting | leaked | preparing | checked => exact .none
  | started actor hrow => exact hrow.left
  | done actor p hsame => exact .kept (.stored hsame)
  | failed actor error hrow => exact hrow.left
  | orphaned actor hrow | goneOrphan hrow => exact .kept hrow
  | gone h => exact h

/-- A task that has a row runs. -/
theorem Row.status {p : PreparedBacktest} {ph : RunPhase ρ} {row : RunRow ρ} (h : Row p ph row) :
    ph.status = .running := by
  cases h with
  | recorded | computing | storing | stored | failing | cancelling | failed => rfl

/-- A task has a job, with the status of the task. -/
theorem Agrees.job {job : Option BacktestJob} {ph : RunPhase ρ} {row : Option (RunRow ρ)}
    {orphan : Bool} (h : Agrees job (some ph) row orphan) :
    ∃ actor, job = some ⟨actor, ph.status, none⟩ := by
  cases h with
  | waiting actor | preparing actor | checked actor => exact ⟨actor, rfl⟩
  | started actor hrow =>
    rw [hrow.status]
    exact ⟨actor, rfl⟩

/-- A job that is over may leave the registry. -/
theorem Agrees.evicted {job : BacktestJob} {task : Option (RunPhase ρ)}
    {row : Option (RunRow ρ)} {orphan : Bool} (h : Agrees (some job) task row orphan)
    (hover : job.status.isOver = true) : Agrees none task row orphan := by
  cases h with
  | waiting | leaked | preparing | checked | started => cases hover
  | done actor p hsame => exact .gone (.kept (.stored hsame))
  | failed actor error hrow => exact .gone hrow.left
  | orphaned actor hrow => exact .goneOrphan hrow

/-- A task writes no error of an orphan, and it has a row or is in one of the first phases. -/
theorem Agrees.row {job : Option BacktestJob} {ph : RunPhase ρ} {row : Option (RunRow ρ)}
    {orphan : Bool} (h : Agrees job (some ph) row orphan) : orphan = false ∧
      ((∃ p w, Row p ph w ∧ row = some w) ∨ ph.isEarly = true ∧ row = none) := by
  cases h with
  | waiting | preparing | checked => exact ⟨rfl, .inr ⟨rfl, rfl⟩⟩
  | started actor hrow => exact ⟨rfl, .inl ⟨_, _, hrow, rfl⟩⟩

/-- An orphaned write leaves the row alone or writes the error of its job there. -/
theorem Agrees.settled {job : Option BacktestJob} {task : Option (RunPhase ρ)}
    {row : Option (RunRow ρ)} (h : Agrees job task row true) : ∃ p w, Written p w ∧
      row = some w ∧ task = none ∧ Agrees job (none : Option (RunPhase ρ)) (some w) false ∧
      Agrees job (none : Option (RunPhase ρ)) (some (failedRow cancelledText w)) false := by
  cases h with
  | orphaned actor hrow =>
    exact ⟨_, _, hrow, rfl, rfl, .failed actor _ (.kept hrow),
      .failed actor _ (.failed hrow (.inl rfl))⟩
  | goneOrphan hrow =>
    exact ⟨_, _, hrow, rfl, rfl, .gone (.kept hrow), .gone (.failed hrow _)⟩

section Moves

variable (s : BacktestService ρ) (id : String)

/-- The job that is known takes the new status and error, under the same actor. -/
theorem setJob_of_get? {id : String} {j : BacktestJob} (h : s.jobs.get? id = some j)
    (status : JobStatus) (error : Option String) :
    s.setJob id status error = { s with jobs := s.jobs.insert id ⟨j.actor, status, error⟩ } := by
  rw [setJob, h]

/-- The row that is known is changed in its place. -/
theorem finishRun_of_get? {id : String} {row : RunRow ρ} (h : s.runs.get? id = some row)
    (f : RunRow ρ → RunRow ρ) :
    s.finishRun id f = { s with runs := s.runs.insert id (f row) } := by
  rw [finishRun, h]

/-- The end of an orphaned write is the end of that one only. -/
theorem isOrphan_settle (id' : String) :
    (s.settle id).isOrphan id' = (s.isOrphan id' && decide (id ≠ id')) := by
  unfold isOrphan settle
  rw [← Bool.decide_and]
  refine decide_eq_decide.mpr ?_
  rw [List.mem_filter, decide_eq_true_eq]
  exact and_congr_right fun _ => ne_comm

/-- A step on one identifier says nothing of the others. -/
structure Only (id : String) (s s' : BacktestService ρ) : Prop where
  jobs : ∀ id', id ≠ id' → s'.jobs.get? id' = s.jobs.get? id'
  tasks : ∀ id', id ≠ id' → s'.tasks.get? id' = s.tasks.get? id'
  runs : ∀ id', id ≠ id' → s'.runs.get? id' = s.runs.get? id'
  orphans : ∀ id', id ≠ id' → s'.isOrphan id' = s.isOrphan id'

/-- What is true of another identifier stays true of it. -/
theorem Only.agrees {id id' : String} {s s' : BacktestService ρ} (h : Only id s s')
    (hid : id ≠ id') (hs : AgreesAt s id') : AgreesAt s' id' := by
  rw [AgreesAt, h.jobs id' hid, h.tasks id' hid, h.runs id' hid, h.orphans id' hid]
  exact hs

/-- Nothing has changed. -/
theorem Only.refl : Only id s s :=
  ⟨fun _ _ => rfl, fun _ _ => rfl, fun _ _ => rfl, fun _ _ => rfl⟩

/-- Two changes of one identifier are one. -/
theorem Only.trans {id : String} {s₁ s₂ s₃ : BacktestService ρ} (h₁ : Only id s₁ s₂)
    (h₂ : Only id s₂ s₃) : Only id s₁ s₃ :=
  ⟨fun j hj => (h₂.jobs j hj).trans (h₁.jobs j hj),
    fun j hj => (h₂.tasks j hj).trans (h₁.tasks j hj),
    fun j hj => (h₂.runs j hj).trans (h₁.runs j hj),
    fun j hj => (h₂.orphans j hj).trans (h₁.orphans j hj)⟩

/-- A job changes its status. -/
theorem only_setJob (status : JobStatus) (error : Option String) :
    Only id s (s.setJob id status error) := by
  unfold setJob
  split
  · exact Only.refl s id
  · exact ⟨fun j hj => Dict.get?_insert_of_ne _ _ hj, fun _ _ => rfl, fun _ _ => rfl,
      fun _ _ => rfl⟩

/-- A task goes on to its next phase. -/
theorem only_goOn (ph : RunPhase ρ) : Only id s (s.goOn id ph) :=
  ⟨fun _ _ => rfl, fun _ hj => Dict.get?_insert_of_ne _ _ hj, fun _ _ => rfl, fun _ _ => rfl⟩

/-- A task ends. -/
theorem only_endTask : Only id s (s.endTask id) :=
  ⟨fun _ _ => rfl, fun j hj => (s.tasks.get?_erase id j).trans (if_neg hj), fun _ _ => rfl,
    fun _ _ => rfl⟩

/-- `_fail` touches one job and one task. -/
theorem only_failTask (error : String) : Only id s (s.failTask id error) :=
  (only_setJob s id .failed (some error)).trans (only_endTask _ id)

/-- A row is inserted under one identifier. -/
theorem only_insertRun (p : PreparedBacktest) : Only id s (s.insertRun id p) :=
  ⟨fun _ _ => rfl, fun _ _ => rfl, fun _ hj => Dict.get?_insert_of_ne _ _ hj, fun _ _ => rfl⟩

/-- A row is finished under one identifier. -/
theorem only_finishRun (f : RunRow ρ → RunRow ρ) : Only id s (s.finishRun id f) := by
  unfold finishRun
  split
  · exact Only.refl s id
  · exact ⟨fun _ _ => rfl, fun _ _ => rfl, fun j hj => Dict.get?_insert_of_ne _ _ hj,
      fun _ _ => rfl⟩

/-- A slot is handed on; jobs, rows and tasks stay. -/
theorem only_settle : Only id s (s.settle id) :=
  ⟨fun _ _ => rfl, fun _ _ => rfl, fun _ _ => rfl, fun j hj => by
    rw [isOrphan_settle, decide_eq_true hj, Bool.and_true]⟩

/-- A task is given up, and its row is left as it is. -/
theorem only_abandon : Only id s (s.abandon id) := by
  have hfail := only_failTask s id cancelledText
  refine ⟨hfail.jobs, hfail.tasks, hfail.runs, fun j hj => ?_⟩
  show decide (j ∈ id :: s.orphans) = decide (j ∈ s.orphans)
  refine decide_eq_decide.mpr ?_
  rw [List.mem_cons]
  exact or_iff_right (Ne.symm hj)

/-- What `setJob` leaves alone. -/
theorem setJob_frame (status : JobStatus) (error : Option String) :
    (s.setJob id status error).runs = s.runs ∧ (s.setJob id status error).tasks = s.tasks ∧
      (s.setJob id status error).issued = s.issued ∧
      (s.setJob id status error).orphans = s.orphans := by
  unfold setJob
  split
  · exact ⟨rfl, rfl, rfl, rfl⟩
  · exact ⟨rfl, rfl, rfl, rfl⟩

/-- What `finishRun` leaves alone. -/
theorem finishRun_frame (f : RunRow ρ → RunRow ρ) :
    (s.finishRun id f).jobs = s.jobs ∧ (s.finishRun id f).tasks = s.tasks ∧
      (s.finishRun id f).issued = s.issued ∧ (s.finishRun id f).orphans = s.orphans := by
  unfold finishRun
  split
  · exact ⟨rfl, rfl, rfl, rfl⟩
  · exact ⟨rfl, rfl, rfl, rfl⟩

/-- `_fail` leaves the rows, the identifiers that were issued and the orphans alone. -/
theorem failTask_frame (error : String) : (s.failTask id error).runs = s.runs ∧
    (s.failTask id error).issued = s.issued ∧ (s.failTask id error).orphans = s.orphans := by
  obtain ⟨hruns, -, hissued, horphans⟩ := setJob_frame s id .failed (some error)
  exact ⟨hruns, hissued, horphans⟩

end Moves

/-! ### All identifiers -/

/-- The service in any state that it comes to. -/
structure Sound (s : BacktestService ρ) : Prop where
  agrees : ∀ id, AgreesAt s id
  fresh : ∀ id, id ∉ s.issued → s.jobs.get? id = none ∧ s.tasks.get? id = none ∧
    s.runs.get? id = none ∧ s.isOrphan id = false
  identity : ∀ id₁ id₂ r₁ r₂, s.runs.get? id₁ = some r₁ → s.runs.get? id₂ = some r₂ →
    id₁ ≠ id₂ → r₁.identity = r₂.identity → r₁.identity.gitSha = none

/-- What is known of an identifier that has a task. -/
structure TaskAt (s : BacktestService ρ) (id : String) (ph : RunPhase ρ) : Prop where
  job : ∃ actor, s.jobs.get? id = some ⟨actor, ph.status, none⟩
  orphan : s.isOrphan id = false
  row : (∃ p w, Row p ph w ∧ s.runs.get? id = some w) ∨
    ph.isEarly = true ∧ s.runs.get? id = none

namespace Sound

variable {s s' : BacktestService ρ} {id : String}

/-- A new service has no jobs, no tasks and no rows. -/
theorem new (maxConcurrent : ℕ) (maxPending maxJobs : ℤ) :
    Sound (BacktestService.new maxConcurrent maxPending maxJobs : BacktestService ρ) where
  agrees _ := .gone .none
  fresh _ _ := ⟨rfl, rfl, rfl, rfl⟩
  identity _ _ _ _ h := by cases h

/-- Only identifiers that were issued have tasks. -/
theorem issued (h : Sound s) {ph : RunPhase ρ} (htask : s.tasks.get? id = some ph) :
    id ∈ s.issued := by
  by_contra hnew
  rw [(h.fresh id hnew).2.1] at htask
  cases htask

/-- A step on an identifier that was issued. -/
theorem only (h : Sound s) (honly : Only id s s') (hagrees : AgreesAt s' id)
    (hissued : s'.issued = s.issued) (hmem : id ∈ s.issued)
    (hruns : ∀ r', s'.runs.get? id = some r' →
      (∃ r, s.runs.get? id = some r ∧ r.identity = r'.identity) ∨
      ∀ id' r, s.runs.get? id' = some r → r.identity = r'.identity → r.identity.gitSha = none) :
    Sound s' where
  agrees id' := by
    by_cases hid : id = id'
    · rwa [← hid]
    · exact honly.agrees hid (h.agrees id')
  fresh id' hid' := by
    rw [hissued] at hid'
    have hne : id ≠ id' := fun heq => hid' (heq ▸ hmem)
    rw [honly.jobs id' hne, honly.tasks id' hne, honly.runs id' hne, honly.orphans id' hne]
    exact h.fresh id' hid'
  identity := by
    -- the row of `id` against the row of another identifier
    have hone (id' : String) (r r' : RunRow ρ) (hne : id ≠ id') (hr : s'.runs.get? id = some r)
        (hr' : s'.runs.get? id' = some r') (heq : r'.identity = r.identity) :
        r'.identity.gitSha = none := by
      rw [honly.runs id' hne] at hr'
      rcases hruns r hr with ⟨old, hold, hsame⟩ | hall
      · exact h.identity id' id r' old hr' hold (Ne.symm hne) (heq.trans hsame.symm)
      · exact hall id' r' hr' heq
    intro id₁ id₂ r₁ r₂ h₁ h₂ hne heq
    by_cases hid₁ : id = id₁
    · subst hid₁
      rw [heq]
      exact hone id₂ r₁ r₂ hne h₁ h₂ heq.symm
    · by_cases hid₂ : id = id₂
      · subst hid₂
        exact hone id₁ r₂ r₁ hid₁ h₂ h₁ heq
      · rw [honly.runs id₁ hid₁] at h₁
        rw [honly.runs id₂ hid₂] at h₂
        exact h.identity id₁ id₂ r₁ r₂ h₁ h₂ hne heq

/-- A step that writes no row. -/
theorem sameRuns (h : Sound s) (honly : Only id s s') (hagrees : AgreesAt s' id)
    (hissued : s'.issued = s.issued) (hmem : id ∈ s.issued)
    (hruns : s'.runs.get? id = s.runs.get? id) : Sound s' :=
  h.only honly hagrees hissued hmem fun r' hr' => .inl ⟨r', hruns ▸ hr', rfl⟩

/-- A task of the service is at the phase that its job and its row say. -/
theorem taskAt (h : Sound s) {ph : RunPhase ρ} (htask : s.tasks.get? id = some ph) :
    TaskAt s id ph := by
  have hagrees := h.agrees id
  rw [AgreesAt, htask] at hagrees
  exact ⟨hagrees.job, hagrees.row.1, hagrees.row.2⟩

/-- The row of a task that is past the first phases. -/
theorem row_of_task (h : Sound s) {ph : RunPhase ρ} (htask : s.tasks.get? id = some ph)
    (hlate : ph.isEarly = false) : ∃ p w, Row p ph w ∧ s.runs.get? id = some w := by
  rcases (h.taskAt htask).row with hrow | ⟨hearly, -⟩
  · exact hrow
  · rw [hlate] at hearly
    cases hearly

/-- A task fails, and what it has done stays as it is. -/
theorem failTask (h : Sound s) {ph : RunPhase ρ} (htask : s.tasks.get? id = some ph)
    (error : String) (hrow : Ended error (s.runs.get? id)) : Sound (s.failTask id error) := by
  obtain ⟨⟨actor, hjob⟩, horphan, -⟩ := h.taskAt htask
  obtain ⟨hruns, hissued, -⟩ := failTask_frame s id error
  refine h.sameRuns (only_failTask s id error) ?_ hissued (h.issued htask) (by rw [hruns])
  rw [AgreesAt, BacktestService.failTask, setJob_of_get? s hjob]
  show Agrees ((s.jobs.insert id ⟨actor, .failed, some error⟩).get? id)
    ((s.tasks.erase id).get? id) (s.runs.get? id) (s.isOrphan id)
  rw [Dict.get?_insert_self, Dict.get?_erase, if_pos rfl, horphan]
  exact .failed actor error hrow

/-- A task fails that is outside of the `try`, where no error is written into a row. -/
theorem failOut (h : Sound s) {ph : RunPhase ρ} (htask : s.tasks.get? id = some ph)
    (hout : ph = .preparing ∨ ∃ p, ph = .checked p ∨ ph = .recorded p) (error : String) :
    Sound (s.failTask id error) := by
  refine h.failTask htask error ?_
  rcases (h.taskAt htask).row with ⟨p, w, hp, hrow⟩ | ⟨-, hrow⟩
  · rw [hrow]
    rcases hout with rfl | ⟨p', rfl | rfl⟩
    · cases hp
    · cases hp
    · cases hp with
      | recorded => exact .kept .started
  · rw [hrow]
    exact .none

/-- A task that has a row goes on, and the row stays as it is. -/
theorem goOn (h : Sound s) {ph ph' : RunPhase ρ} {p : PreparedBacktest} {row : RunRow ρ}
    (htask : s.tasks.get? id = some ph) (hrow : s.runs.get? id = some row) (hold : Row p ph row)
    (hnew : Row p ph' row) : Sound (s.goOn id ph') := by
  obtain ⟨⟨actor, hjob⟩, horphan, -⟩ := h.taskAt htask
  refine h.sameRuns (only_goOn s id ph') ?_ rfl (h.issued htask) rfl
  rw [AgreesAt, BacktestService.goOn]
  show Agrees (s.jobs.get? id) ((s.tasks.insert id ph').get? id) (s.runs.get? id) (s.isOrphan id)
  rw [Dict.get?_insert_self, hrow, hjob, horphan, hold.status]
  exact .started actor hnew

/-- A task that has a row goes on, and changes the row. -/
theorem writes (h : Sound s) {ph ph' : RunPhase ρ} {p : PreparedBacktest} {row : RunRow ρ}
    (htask : s.tasks.get? id = some ph) (hrow : s.runs.get? id = some row) (hold : Row p ph row)
    {f : RunRow ρ → RunRow ρ} (hnew : Row p ph' (f row))
    (hf : (f row).identity = row.identity) : Sound ((s.finishRun id f).goOn id ph') := by
  obtain ⟨⟨actor, hjob⟩, horphan, -⟩ := h.taskAt htask
  have hfinish := finishRun_of_get? s hrow f
  have hself : ((s.finishRun id f).goOn id ph').runs.get? id = some (f row) := by
    rw [hfinish]
    exact Dict.get?_insert_self _ _ _
  refine h.only ((only_finishRun s id f).trans (only_goOn _ id ph')) ?_ ?_ (h.issued htask)
    fun r' hr' => ?_
  · rw [AgreesAt, hself, hfinish]
    show Agrees (s.jobs.get? id) ((s.tasks.insert id ph').get? id) _ (s.isOrphan id)
    rw [Dict.get?_insert_self, hjob, horphan, hold.status]
    exact .started actor hnew
  · exact (finishRun_frame s id f).2.2.1
  · rw [hself, Option.some.injEq] at hr'
    exact .inl ⟨row, hrow, hr' ▸ hf.symm⟩

/-- A task gets a place. -/
theorem start (h : Sound s) (htask : s.tasks.get? id = some .waiting) :
    Sound ((s.setJob id .running none).goOn id .preparing) := by
  have honly := (only_setJob s id .running none).trans (only_goOn _ id .preparing)
  obtain ⟨hruns, -, hissued, -⟩ := setJob_frame s id .running none
  obtain ⟨⟨actor, hjob⟩, horphan, hrow⟩ := h.taskAt htask
  rcases hrow with ⟨p, w, hp, -⟩ | ⟨-, hrow⟩
  · cases hp
  refine h.sameRuns honly ?_ hissued (h.issued htask) ?_
  · rw [setJob_of_get? s hjob, AgreesAt]
    show Agrees ((s.jobs.insert id ⟨actor, .running, none⟩).get? id)
      ((s.tasks.insert id .preparing).get? id) (s.runs.get? id) (s.isOrphan id)
    rw [Dict.get?_insert_self, Dict.get?_insert_self, hrow, horphan]
    exact .preparing actor
  · show (s.setJob id .running none).runs.get? id = _
    rw [hruns]

/-- A task has found no equal run. -/
theorem prepared (h : Sound s) (htask : s.tasks.get? id = some .preparing)
    (p : PreparedBacktest) : Sound (s.goOn id (.checked p)) := by
  obtain ⟨⟨actor, hjob⟩, horphan, hrow⟩ := h.taskAt htask
  rcases hrow with ⟨p, w, hp, -⟩ | ⟨-, hrow⟩
  · cases hp
  refine h.sameRuns (only_goOn s id _) ?_ rfl (h.issued htask) rfl
  rw [AgreesAt]
  show Agrees (s.jobs.get? id) ((s.tasks.insert id (.checked p)).get? id) (s.runs.get? id)
    (s.isOrphan id)
  rw [Dict.get?_insert_self, hrow, hjob, horphan]
  exact .checked actor p

/-- The passport of a run. -/
theorem inserted (h : Sound s) {p : PreparedBacktest}
    (htask : s.tasks.get? id = some (.checked p)) (hconflict : s.conflicts id p.identity = false) :
    Sound ((s.insertRun id p).goOn id (.recorded p)) := by
  obtain ⟨⟨actor, hjob⟩, horphan, -⟩ := h.taskAt htask
  refine h.only ((only_insertRun s id p).trans (only_goOn _ id _)) ?_ rfl (h.issued htask) ?_
  · rw [AgreesAt]
    show Agrees (s.jobs.get? id) ((s.tasks.insert id (.recorded p)).get? id)
      ((s.runs.insert id (startedRow p)).get? id) (s.isOrphan id)
    rw [Dict.get?_insert_self, Dict.get?_insert_self, hjob, horphan]
    exact .started actor .recorded
  · intro r' hr'
    have hr' : (s.runs.insert id (startedRow p)).get? id = some r' := hr'
    rw [Dict.get?_insert_self, Option.some.injEq] at hr'
    subst hr'
    refine .inr fun id' r hr heq => ?_
    rw [conflicts, Bool.or_eq_false_iff, Bool.and_eq_false_iff] at hconflict
    rcases hconflict.2 with hnull | hnone
    · rw [heq]
      exact Option.not_isSome_iff_eq_none.mp (by simpa [startedRow] using hnull)
    · rw [List.any_eq_false] at hnone
      exact absurd (decide_eq_true heq) (hnone _ ((s.runs.mem_entries_iff id' r).mpr hr))

/-- The task goes on after its passport is committed. -/
theorem begun (h : Sound s) {p : PreparedBacktest}
    (htask : s.tasks.get? id = some (.recorded p)) : Sound (s.goOn id (.computing p)) := by
  obtain ⟨p', w, hp, hrow⟩ := h.row_of_task htask rfl
  cases hp with
  | recorded => exact h.goOn htask hrow .recorded .computing

/-- The rows of a task that computes, stores, or has stored. -/
theorem written_of_late (h : Sound s) {ph : RunPhase ρ} {p : PreparedBacktest}
    (htask : s.tasks.get? id = some ph)
    (hlate : ph = .computing p ∨ ∃ r, ph = .storing p r ∨ ph = .stored p r) :
    ∃ w, Row p ph w ∧ Written p w ∧ s.runs.get? id = some w := by
  rcases hlate with rfl | ⟨r, rfl | rfl⟩
  · obtain ⟨p', w, hp, hrow⟩ := h.row_of_task htask rfl
    cases hp with
    | computing => exact ⟨_, .computing, .started, hrow⟩
  · obtain ⟨p', w, hp, hrow⟩ := h.row_of_task htask rfl
    cases hp with
    | storing hsame => exact ⟨_, .storing hsame, .started, hrow⟩
  · obtain ⟨p', w, hp, hrow⟩ := h.row_of_task htask rfl
    cases hp with
    | stored hsame => exact ⟨_, .stored hsame, .stored hsame, hrow⟩

/-- The rows of a task that writes an error. -/
theorem written_of_writes (h : Sound s) {ph : RunPhase ρ} {p : PreparedBacktest} {error : String}
    (htask : s.tasks.get? id = some ph)
    (hwrites : ph = .failing p error ∨ ph = .cancelling p ∧ error = cancelledText) :
    ∃ w, Row p ph w ∧ Written p w ∧ s.runs.get? id = some w := by
  rcases hwrites with rfl | ⟨rfl, -⟩
  · obtain ⟨p', w, hp, hrow⟩ := h.row_of_task htask rfl
    cases hp with
    | failing _ hw => exact ⟨w, .failing error hw, hw, hrow⟩
  · obtain ⟨p', w, hp, hrow⟩ := h.row_of_task htask rfl
    cases hp with
    | cancelling hw => exact ⟨w, .cancelling hw, hw, hrow⟩

/-- The engine answers. -/
theorem computed (h : Sound s) {p : PreparedBacktest} {r : Computed ρ}
    (htask : s.tasks.get? id = some (.computing p)) (hsame : (r.configHash, r.datasetHash) =
      (p.identity.configHash, p.identity.datasetHash)) : Sound (s.goOn id (.storing p r)) := by
  obtain ⟨w, hp, -, hrow⟩ := h.written_of_late htask (.inl rfl)
  cases hp with
  | computing => exact h.goOn htask hrow .computing (.storing hsame)

/-- The results of a run are stored. -/
theorem stored (h : Sound s) {p : PreparedBacktest} {r : Computed ρ}
    (htask : s.tasks.get? id = some (.storing p r)) :
    Sound ((s.finishRun id (storedRow r)).goOn id (.stored p r)) := by
  obtain ⟨w, hp, -, hrow⟩ := h.written_of_late htask (.inr ⟨r, .inl rfl⟩)
  cases hp with
  | storing hsame => exact h.writes htask hrow (.storing hsame) (.stored hsame) rfl

/-- The task goes on after its results are committed, and is over. -/
theorem finished (h : Sound s) {p : PreparedBacktest} {r : Computed ρ}
    (htask : s.tasks.get? id = some (.stored p r)) :
    Sound ((s.setJob id .done none).endTask id) := by
  obtain ⟨w, hp, -, hrow⟩ := h.written_of_late htask (.inr ⟨r, .inr rfl⟩)
  obtain ⟨⟨actor, hjob⟩, horphan, -⟩ := h.taskAt htask
  obtain ⟨hruns, -, hissued, -⟩ := setJob_frame s id .done none
  refine h.sameRuns ((only_setJob s id .done none).trans (only_endTask _ id)) ?_ hissued
    (h.issued htask) (congrArg (fun d => d.get? id) hruns)
  rw [AgreesAt, setJob_of_get? s hjob]
  show Agrees ((s.jobs.insert id ⟨actor, .done, none⟩).get? id) ((s.tasks.erase id).get? id)
    (s.runs.get? id) (s.isOrphan id)
  rw [Dict.get?_insert_self, Dict.get?_erase, if_pos rfl, hrow, horphan]
  cases hp with
  | stored hsame => exact .done actor p hsame

/-- A task that has a row is about to write an error there. -/
theorem failIn (h : Sound s) {ph ph' : RunPhase ρ} {p : PreparedBacktest}
    (htask : s.tasks.get? id = some ph)
    (hlate : ph = .computing p ∨ ∃ r, ph = .storing p r ∨ ph = .stored p r)
    (hnew : ∀ w : RunRow ρ, Written p w → Row p ph' w) : Sound (s.goOn id ph') := by
  obtain ⟨w, hp, hw, hrow⟩ := h.written_of_late htask hlate
  exact h.goOn htask hrow hp (hnew w hw)

/-- The error of a run is written into its row. -/
theorem reported (h : Sound s) {ph : RunPhase ρ} {p : PreparedBacktest} {error : String}
    (htask : s.tasks.get? id = some ph)
    (hwrites : ph = .failing p error ∨ ph = .cancelling p ∧ error = cancelledText) :
    Sound ((s.finishRun id (failedRow error)).goOn id (.failed p error)) := by
  obtain ⟨w, hp, hw, hrow⟩ := h.written_of_writes htask hwrites
  exact h.writes htask hrow hp (.failed error hw) rfl

/-- The error of a run cannot be written. -/
theorem unreported (h : Sound s) {ph : RunPhase ρ} {p : PreparedBacktest} {error : String}
    (htask : s.tasks.get? id = some ph)
    (hwrites : ph = .failing p error ∨ ph = .cancelling p ∧ error = cancelledText) :
    Sound (s.failTask id error) := by
  obtain ⟨w, -, hw, hrow⟩ := h.written_of_writes htask hwrites
  exact h.failTask htask error (hrow ▸ .kept hw)

/-- A task whose error is written fails with it, or is cancelled before it can. -/
theorem ended (h : Sound s) {p : PreparedBacktest} {error error' : String}
    (htask : s.tasks.get? id = some (.failed p error))
    (herror : error = error' ∨ error' = cancelledText) : Sound (s.failTask id error') := by
  obtain ⟨p', w, hp, hrow⟩ := h.row_of_task htask rfl
  cases hp with
  | failed _ hw => exact h.failTask htask error' (hrow ▸ .failed hw herror)

/-- A task is cancelled where no handler takes the cancellation. -/
theorem cancelOut (h : Sound s) {ph : RunPhase ρ} (htask : s.tasks.get? id = some ph)
    (hout : ph = .preparing ∨ ∃ p, ph = .checked p ∨ ph = .recorded p ∨
      ∃ error, ph = .failing p error ∨ ph = .failed p error) :
    Sound (s.failTask id cancelledText) := by
  rcases hout with hph | ⟨p, hph | hph | ⟨error, hph | hph⟩⟩
  · exact h.failOut htask (.inl hph) _
  · exact h.failOut htask (.inr ⟨p, .inl hph⟩) _
  · exact h.failOut htask (.inr ⟨p, .inr hph⟩) _
  · obtain ⟨w, -, hw, hrow⟩ := h.written_of_writes htask (.inl hph)
    exact h.failTask htask _ (hrow ▸ .kept hw)
  · subst hph
    exact h.ended htask (.inr rfl)

/-- A task that is cancelled while it waits. -/
theorem cancelWaiting (h : Sound s) (htask : s.tasks.get? id = some .waiting) :
    Sound (s.endTask id) := by
  obtain ⟨⟨actor, hjob⟩, horphan, hrow⟩ := h.taskAt htask
  rcases hrow with ⟨p, w, hp, -⟩ | ⟨-, hrow⟩
  · cases hp
  refine h.sameRuns (only_endTask s id) ?_ rfl (h.issued htask) rfl
  rw [AgreesAt]
  show Agrees (s.jobs.get? id) ((s.tasks.erase id).get? id) (s.runs.get? id) (s.isOrphan id)
  rw [Dict.get?_erase, if_pos rfl, hjob, hrow, horphan]
  exact .leaked actor

/-- A task is cancelled again, and leaves its write behind. -/
theorem cancelAgain (h : Sound s) {p : PreparedBacktest}
    (htask : s.tasks.get? id = some (.cancelling p)) : Sound (s.abandon id) := by
  obtain ⟨w, -, hw, hrow⟩ := h.written_of_writes htask (.inr ⟨rfl, rfl⟩)
  obtain ⟨⟨actor, hjob⟩, -, -⟩ := h.taskAt htask
  obtain ⟨hruns, hissued, -⟩ := failTask_frame s id cancelledText
  refine h.sameRuns (only_abandon s id) ?_ hissued (h.issued htask)
    (congrArg (fun d => d.get? id) hruns)
  have horphan : (s.abandon id).isOrphan id = true := decide_eq_true List.mem_cons_self
  rw [AgreesAt, horphan, abandon, BacktestService.failTask, setJob_of_get? s hjob]
  show Agrees ((s.jobs.insert id ⟨actor, .failed, some cancelledText⟩).get? id)
    ((s.tasks.erase id).get? id) (s.runs.get? id) true
  rw [Dict.get?_insert_self, Dict.get?_erase, if_pos rfl, hrow]
  exact .orphaned actor hw

/-- An identifier that has an orphaned write was issued, and its row is still a good one. -/
theorem orphan (h : Sound s) (horphan : s.isOrphan id = true) : id ∈ s.issued ∧
    ∃ p w, Written p w ∧ s.runs.get? id = some w ∧ s.tasks.get? id = none ∧
      Agrees (s.jobs.get? id) (none : Option (RunPhase ρ)) (some w) false ∧
      Agrees (s.jobs.get? id) (none : Option (RunPhase ρ)) (some (failedRow cancelledText w))
        false := by
  have hagrees := h.agrees id
  rw [AgreesAt, horphan] at hagrees
  refine ⟨?_, hagrees.settled⟩
  by_contra hnew
  rw [(h.fresh id hnew).2.2.2] at horphan
  cases horphan

/-- The orphaned write of a run writes its error after all. -/
theorem settled (h : Sound s) (horphan : s.isOrphan id = true) :
    Sound ((s.finishRun id (failedRow cancelledText)).settle id) := by
  obtain ⟨hmem, p, w, -, hrow, htask, -, hagrees⟩ := h.orphan horphan
  have hfinish := finishRun_of_get? s hrow (failedRow cancelledText)
  have hself : ((s.finishRun id (failedRow cancelledText)).settle id).runs.get? id =
      some (failedRow cancelledText w) := by
    rw [hfinish]
    exact Dict.get?_insert_self _ _ _
  refine h.only ((only_finishRun s id _).trans (only_settle _ id)) ?_
    (finishRun_frame s id (failedRow cancelledText)).2.2.1 hmem fun r' hr' => ?_
  · rw [AgreesAt, hself, isOrphan_settle, decide_eq_false (not_not_intro rfl), Bool.and_false,
      hfinish]
    show Agrees (s.jobs.get? id) (s.tasks.get? id) _ _
    rw [htask]
    exact hagrees
  · rw [hself, Option.some.injEq] at hr'
    exact .inl ⟨w, hrow, hr' ▸ rfl⟩

/-- The orphaned write of a run fails. -/
theorem unsettled (h : Sound s) (horphan : s.isOrphan id = true) : Sound (s.settle id) := by
  obtain ⟨hmem, p, w, -, hrow, htask, hagrees, -⟩ := h.orphan horphan
  refine h.sameRuns (only_settle s id) ?_ rfl hmem rfl
  rw [AgreesAt, isOrphan_settle, decide_eq_false (not_not_intro rfl), Bool.and_false]
  show Agrees (s.jobs.get? id) (s.tasks.get? id) (s.runs.get? id) false
  rw [htask, hrow]
  exact hagrees

/-- A new job. -/
theorem accept (h : Sound s) {actor : String} (hnew : id ∉ s.issued) :
    Sound (s.accept id actor) := by
  obtain ⟨hjob, htask, hrow, horphan⟩ := h.fresh id hnew
  have hevict := evict_spec s.maxJobs (s.jobs.insert id ⟨actor, .pending, none⟩)
  refine ⟨fun id' => ?_, fun id' hid' => ?_, h.identity⟩
  · show Agrees ((evict s.maxJobs _).get? id') ((s.tasks.insert id .waiting).get? id')
      (s.runs.get? id') (s.isOrphan id')
    by_cases hid : id = id'
    · subst hid
      -- so the new job is still there
      have hkept : (evict s.maxJobs (s.jobs.insert id ⟨actor, .pending, none⟩)).get? id =
          some ⟨actor, .pending, none⟩ := by
        rcases hevict.get? id with hget | ⟨-, j, hj, hover⟩
        · rw [hget, Dict.get?_insert_self]
        · rw [Dict.get?_insert_self, Option.some.injEq] at hj
          subst hj
          cases hover
      rw [hkept, Dict.get?_insert_self, hrow, horphan]
      exact .waiting actor
    · have hagrees := h.agrees id'
      rw [AgreesAt] at hagrees
      rw [Dict.get?_insert_of_ne _ _ hid]
      rcases hevict.get? id' with hget | ⟨hget, j, hj, hover⟩
      · rw [hget, Dict.get?_insert_of_ne _ _ hid]
        exact hagrees
      · rw [Dict.get?_insert_of_ne _ _ hid] at hj
        rw [hj] at hagrees
        rw [hget]
        exact hagrees.evicted hover
  · have hne : id ≠ id' := fun heq => hid' (heq ▸ List.mem_cons_self)
    obtain ⟨hjob', htask', hrow', horphan'⟩ :=
      h.fresh id' fun hmem => hid' (List.mem_cons_of_mem _ hmem)
    refine ⟨?_, ?_, hrow', horphan'⟩
    · show (evict s.maxJobs _).get? id' = none
      rcases hevict.get? id' with hget | ⟨hget, -⟩
      · rw [hget, Dict.get?_insert_of_ne _ _ hne, hjob']
      · exact hget
    · show (s.tasks.insert id .waiting).get? id' = none
      rw [Dict.get?_insert_of_ne _ _ hne, htask']

/-- The process ends, and the table stays. -/
theorem crash (h : Sound s) : Sound { s with jobs := ∅, tasks := ∅, orphans := [] } :=
  ⟨fun id => .gone (h.agrees id).left, fun id hid => ⟨rfl, rfl, (h.fresh id hid).2.2.1, rfl⟩,
    h.identity⟩

/-- **One thing that happens.** -/
theorem step (h : Sound s) {ev : BacktestEvent ρ} {answer : Bool} (hstep : Step s ev answer s') :
    Sound s' := by
  cases hstep with
  | refuse => exact h
  | accept hroom hnew => exact h.accept hnew
  | start htask hplace => exact h.start htask
  | duplicate htask hdup => exact h.failOut htask (.inl rfl) _
  | prepared htask hdup => exact h.prepared htask _
  | conflict htask hconflict => exact h.failOut htask (.inr ⟨_, .inl rfl⟩) _
  | inserted htask hconflict => exact h.inserted htask hconflict
  | begun htask => exact h.begun htask
  | mismatch htask hother => exact h.failIn htask (.inl rfl) fun _ hw => .failing _ hw
  | computed htask hsame => exact h.computed htask hsame
  | stored htask => exact h.stored htask
  | finished htask => exact h.finished htask
  | raised htask hearly => exact h.failOut htask hearly _
  | failed htask hlate => exact h.failIn htask hlate fun _ hw => .failing _ hw
  | reported htask hwrites => exact h.reported htask hwrites
  | unreported htask hwrites => exact h.unreported htask hwrites
  | ended htask => exact h.ended htask (.inl rfl)
  | cancelWaiting htask => exact h.cancelWaiting htask
  | cancelOut htask hout => exact h.cancelOut htask hout
  | cancelIn htask hlate => exact h.failIn htask hlate fun _ hw => .cancelling hw
  | cancelAgain htask => exact h.cancelAgain htask
  | settled horphan => exact h.settled horphan
  | unsettled horphan => exact h.unsettled horphan
  | crash => exact h.crash

end Sound

end BacktestService

end FuzzHelm
