import FuzzHelm.Api.BacktestQueue

namespace FuzzHelm

open Lib

/-!
# The rows of the backtests

What the table of the runs says of a run, and what is never undone there.  Between the commit of
the results and the end of the task a cancellation, or an error of the session, still reaches the
handlers of `__call__`, which write `FAILED` over a row that says `DONE`.

* `RowKept`, `Keeps` — what comes after leaves what is over as it is;
* `Answered` — results are answers of the engine;
* `Interrupts`, `Spared` — what comes between the commit and the end, and the runs it spares;
* `run_rows_exact` — the rows of the runs, and what they have to do with the jobs;
* `run_rows_final` — what is never undone, and the one way in which the row of a run that is done
  can still become one of a run that failed.
-/

namespace BacktestService

variable {ρ : Type*}

/-! ### What is never undone -/

/-- What a row keeps: its passport and its results for ever, all of itself once it says `FAILED`,
    and all but its status and error once it says `DONE`. -/
structure RowKept (row row' : RunRow ρ) : Prop where
  identity : row'.identity = row.identity
  gitDirty : row'.gitDirty = row.gitDirty
  results : row.results.isSome = true → row'.results = row.results ∧
    row'.journalHead = row.journalHead ∧ row'.equityHash = row.equityHash
  failed : row.status = .failed → row' = row
  done : row.status = .done → row' = row ∨ ∃ error, row' = failedRow error row

/-- Nothing has happened to the row. -/
theorem RowKept.refl (row : RunRow ρ) : RowKept row row :=
  ⟨rfl, rfl, fun _ => ⟨rfl, rfl, rfl⟩, fun _ => rfl, fun _ => .inl rfl⟩

/-- A row that is kept twice is kept. -/
theorem RowKept.trans {row row' row'' : RunRow ρ} (h : RowKept row row')
    (h' : RowKept row' row'') : RowKept row row'' where
  identity := h'.identity.trans h.identity
  gitDirty := h'.gitDirty.trans h.gitDirty
  results hresults := by
    obtain ⟨hres, hhead, hequity⟩ := h.results hresults
    obtain ⟨hres', hhead', hequity'⟩ := h'.results (hres ▸ hresults)
    exact ⟨hres'.trans hres, hhead'.trans hhead, hequity'.trans hequity⟩
  failed hfailed := by
    have heq := h.failed hfailed
    rw [← heq] at hfailed
    exact (h'.failed hfailed).trans heq
  done hdone := by
    rcases h.done hdone with heq | ⟨error, heq⟩
    · subst heq
      exact h'.done hdone
    · exact .inr ⟨error, (h'.failed (heq ▸ rfl)).trans heq⟩

/-- The error of a run whose row says `RUNNING` or `DONE`. -/
theorem RowKept.failedRow {p : PreparedBacktest} {row : RunRow ρ} (h : Written p row)
    (error : String) : RowKept row (failedRow error row) where
  identity := rfl
  gitDirty := rfl
  results _ := ⟨rfl, rfl, rfl⟩
  failed hfailed := by
    cases h with
    | started | stored => cases hfailed
  done _ := .inr ⟨error, rfl⟩

/-- The results of a run whose row is its passport. -/
theorem RowKept.storedRow (p : PreparedBacktest) (r : Computed ρ) :
    RowKept (startedRow p) (storedRow r (startedRow p)) :=
  ⟨rfl, rfl, Bool.noConfusion, RunStatus.noConfusion, RunStatus.noConfusion⟩

/-- What comes after keeps what is over: every row as `RowKept` says, the whole row of a run that
    has neither a task nor an orphaned write, and a job that is over until it has to make room. -/
structure Keeps (s s' : BacktestService ρ) : Prop where
  issued : ∀ id ∈ s.issued, id ∈ s'.issued
  rows : ∀ id row, s.runs.get? id = some row →
    ∃ row', s'.runs.get? id = some row' ∧ RowKept row row'
  quiet : ∀ id ∈ s.issued, s.tasks.get? id = none → s.isOrphan id = false →
    s'.runs.get? id = s.runs.get? id ∧ s'.tasks.get? id = none ∧ s'.isOrphan id = false
  jobs : ∀ id ∈ s.issued, (∀ j, s.jobs.get? id = some j → j.status.isOver = true) →
    s'.jobs.get? id = s.jobs.get? id ∨ s'.jobs.get? id = none

namespace Keeps

variable {s s' s'' : BacktestService ρ} {id : String}

/-- Nothing has happened. -/
theorem refl (s : BacktestService ρ) : Keeps s s where
  issued _ h := h
  rows _ row h := ⟨row, h, RowKept.refl row⟩
  quiet _ _ htask horphan := ⟨rfl, htask, horphan⟩
  jobs _ _ _ := .inl rfl

/-- What two steps keep, one after the other, both together keep. -/
theorem trans (h : Keeps s s') (h' : Keeps s' s'') : Keeps s s'' where
  issued id hid := h'.issued id (h.issued id hid)
  rows id row hrow := by
    obtain ⟨row', hrow', hkept⟩ := h.rows id row hrow
    obtain ⟨row'', hrow'', hkept'⟩ := h'.rows id row' hrow'
    exact ⟨row'', hrow'', hkept.trans hkept'⟩
  quiet id hid htask horphan := by
    obtain ⟨hrow, htask', horphan'⟩ := h.quiet id hid htask horphan
    obtain ⟨hrow', hrest⟩ := h'.quiet id (h.issued id hid) htask' horphan'
    exact ⟨hrow'.trans hrow, hrest⟩
  jobs id hid hdone := by
    have hmem := h.issued id hid
    rcases h.jobs id hid hdone with hsame | hnone
    · rw [← hsame] at hdone ⊢
      exact h'.jobs id hmem hdone
    · rcases h'.jobs id hmem (fun j hj => by rw [hnone] at hj; cases hj) with hsame | hgone
      · exact .inr (hsame.trans hnone)
      · exact .inr hgone

/-- A step on an identifier that has a task or an orphaned write. -/
theorem only (honly : Only id s s') (hissued : s'.issued = s.issued)
    (hrows : ∀ row, s.runs.get? id = some row →
      ∃ row', s'.runs.get? id = some row' ∧ RowKept row row')
    (hbusy : s.tasks.get? id = none → s.isOrphan id = true)
    (hjob : s'.jobs.get? id = s.jobs.get? id ∨
      ∃ j, s.jobs.get? id = some j ∧ j.status.isOver = false) : Keeps s s' where
  issued id' hid' := hissued ▸ hid'
  rows id' row hrow := by
    by_cases hid : id = id'
    · subst hid
      exact hrows row hrow
    · exact ⟨row, (honly.runs id' hid).trans hrow, RowKept.refl row⟩
  quiet id' _ htask horphan := by
    by_cases hid : id = id'
    · subst hid
      rw [hbusy htask] at horphan
      cases horphan
    · rw [honly.runs id' hid, honly.tasks id' hid, honly.orphans id' hid]
      exact ⟨rfl, htask, horphan⟩
  jobs id' _ hdone := by
    by_cases hid : id = id'
    · subst hid
      rcases hjob with hsame | ⟨j, hj, hopen⟩
      · exact .inl hsame
      · rw [hdone j hj] at hopen
        cases hopen
    · exact .inl (honly.jobs id' hid)

end Keeps

namespace Sound

variable {s s' : BacktestService ρ} {id : String}

/-- The job of a task is not over. -/
theorem job_open (h : Sound s) {ph : RunPhase ρ} (htask : s.tasks.get? id = some ph) :
    ∃ j, s.jobs.get? id = some j ∧ j.status.isOver = false := by
  obtain ⟨actor, hjob⟩ := (h.taskAt htask).job
  refine ⟨_, hjob, ?_⟩
  cases ph with
  | waiting => rfl
  | _ => rfl

/-- A step of a task on its row. -/
theorem keepsRow (h : Sound s) {ph : RunPhase ρ} (htask : s.tasks.get? id = some ph)
    (honly : Only id s s') (hissued : s'.issued = s.issued)
    (hrows : ∀ row, s.runs.get? id = some row →
      ∃ row', s'.runs.get? id = some row' ∧ RowKept row row') : Keeps s s' :=
  Keeps.only honly hissued hrows (fun hnone => by rw [htask] at hnone; cases hnone)
    (.inr (h.job_open htask))

/-- A step of a task that writes no row. -/
theorem keeps (h : Sound s) {ph : RunPhase ρ} (htask : s.tasks.get? id = some ph)
    (honly : Only id s s') (hissued : s'.issued = s.issued) (hruns : s'.runs = s.runs) :
    Keeps s s' :=
  h.keepsRow htask honly hissued fun row hrow => ⟨row, hruns ▸ hrow, RowKept.refl row⟩

/-- A task that fails leaves the rows of the others alone. -/
theorem keeps_failTask (h : Sound s) {ph : RunPhase ρ} (htask : s.tasks.get? id = some ph)
    (error : String) : Keeps s (s.failTask id error) :=
  h.keeps htask (only_failTask s id error) (failTask_frame s id error).2.1
    (failTask_frame s id error).1

/-- A task that goes on leaves all rows alone. -/
theorem keeps_goOn (h : Sound s) {ph : RunPhase ρ} (htask : s.tasks.get? id = some ph)
    (ph' : RunPhase ρ) : Keeps s (s.goOn id ph') := h.keeps htask (only_goOn s id ph') rfl rfl

/-- A step of a task that changes its row. -/
theorem keeps_writes (h : Sound s) {ph : RunPhase ρ} (htask : s.tasks.get? id = some ph)
    (ph' : RunPhase ρ) {f : RunRow ρ → RunRow ρ}
    (hf : ∀ row, s.runs.get? id = some row → RowKept row (f row)) :
    Keeps s ((s.finishRun id f).goOn id ph') := by
  refine h.keepsRow htask ((only_finishRun s id f).trans (only_goOn _ id ph'))
    (finishRun_frame s id f).2.2.1 fun row hrow => ⟨f row, ?_, hf row hrow⟩
  rw [finishRun_of_get? s hrow]
  exact Dict.get?_insert_self _ _ _

/-- The results of a run are stored. -/
theorem keeps_stored (h : Sound s) {p : PreparedBacktest} {r : Computed ρ}
    (htask : s.tasks.get? id = some (.storing p r)) :
    Keeps s ((s.finishRun id (storedRow r)).goOn id (.stored p r)) := by
  refine h.keeps_writes htask _ fun row hrow => ?_
  obtain ⟨w, hp, -, hw⟩ := h.written_of_late htask (.inr ⟨r, .inl rfl⟩)
  rw [hrow, Option.some.injEq] at hw
  subst hw
  cases hp with
  | storing hsame => exact RowKept.storedRow p r

/-- The error of a run is written into its row, whether it has results or not. -/
theorem keeps_reported (h : Sound s) {ph : RunPhase ρ} {p : PreparedBacktest} {error : String}
    (htask : s.tasks.get? id = some ph)
    (hwrites : ph = .failing p error ∨ ph = .cancelling p ∧ error = cancelledText) :
    Keeps s ((s.finishRun id (failedRow error)).goOn id (.failed p error)) := by
  refine h.keeps_writes htask _ fun row hrow => ?_
  obtain ⟨w, -, hwritten, hw⟩ := h.written_of_writes htask hwrites
  rw [hrow, Option.some.injEq] at hw
  subst hw
  exact RowKept.failedRow hwritten error

/-- A row enters under an identifier that had none. -/
theorem keeps_insertRun (h : Sound s) {p : PreparedBacktest}
    (htask : s.tasks.get? id = some (.checked p)) (ph' : RunPhase ρ) :
    Keeps s ((s.insertRun id p).goOn id ph') := by
  refine h.keepsRow htask ((only_insertRun s id p).trans (only_goOn _ id _)) rfl fun row hrow => ?_
  rcases (h.taskAt htask).row with ⟨p', w, hp', -⟩ | ⟨-, hnone⟩
  · cases hp'
  · rw [hrow] at hnone
    cases hnone

/-- A job is accepted under an identifier that was never issued. -/
theorem keeps_accept {actor : String} (hnew : id ∉ s.issued) :
    Keeps s (s.accept id actor) where
  issued id' hid' := List.mem_cons_of_mem _ hid'
  rows _ row hrow := ⟨row, hrow, RowKept.refl row⟩
  quiet id' hid' htask horphan := by
    have hne : id ≠ id' := fun heq => hnew (heq ▸ hid')
    exact ⟨rfl, (Dict.get?_insert_of_ne _ _ hne).trans htask, horphan⟩
  jobs id' hid' _ := by
    have hne : id ≠ id' := fun heq => hnew (heq ▸ hid')
    have hevict := evict_spec s.maxJobs (s.jobs.insert id ⟨actor, .pending, none⟩)
    rcases hevict.get? id' with hsame | ⟨hnone, -⟩
    · exact .inl (hsame.trans (Dict.get?_insert_of_ne _ _ hne))
    · exact .inr hnone

/-- The end of an orphaned write. -/
theorem keeps_settled (h : Sound s) (horphan : s.isOrphan id = true) :
    Keeps s ((s.finishRun id (failedRow cancelledText)).settle id) := by
  obtain ⟨-, p, w, hwritten, hw, -⟩ := h.orphan horphan
  obtain ⟨hjobs, -, hissued, -⟩ := finishRun_frame s id (failedRow cancelledText)
  refine Keeps.only ((only_finishRun s id _).trans (only_settle _ id)) hissued
    (fun row hrow => ⟨failedRow cancelledText row, ?_, ?_⟩) (fun _ => horphan)
    (.inl (congrArg (fun d => d.get? id) hjobs))
  · rw [finishRun_of_get? s hrow]
    exact Dict.get?_insert_self _ _ _
  · rw [hrow, Option.some.injEq] at hw
    subst hw
    exact RowKept.failedRow hwritten _

/-- **One thing that happens** undoes nothing. -/
theorem keeps_step (h : Sound s) {ev : BacktestEvent ρ} {answer : Bool}
    (hstep : Step s ev answer s') : Keeps s s' := by
  cases hstep with
  | refuse => exact Keeps.refl s
  | accept hroom hnew => exact keeps_accept hnew
  | @start id htask hplace =>
    obtain ⟨hruns, -, hissued, -⟩ := setJob_frame s id .running none
    exact h.keeps htask ((only_setJob s id .running none).trans (only_goOn _ id _)) hissued hruns
  | duplicate htask hdup => exact h.keeps_failTask htask _
  | prepared htask hdup => exact h.keeps_goOn htask _
  | conflict htask hconflict => exact h.keeps_failTask htask _
  | inserted htask hconflict => exact h.keeps_insertRun htask _
  | begun htask => exact h.keeps_goOn htask _
  | mismatch htask hother => exact h.keeps_goOn htask _
  | computed htask hsame => exact h.keeps_goOn htask _
  | stored htask => exact h.keeps_stored htask
  | @finished id p r htask =>
    obtain ⟨hruns, -, hissued, -⟩ := setJob_frame s id .done none
    exact h.keeps htask ((only_setJob s id .done none).trans (only_endTask _ id)) hissued hruns
  | raised htask hearly => exact h.keeps_failTask htask _
  | failed htask hlate => exact h.keeps_goOn htask _
  | reported htask hwrites => exact h.keeps_reported htask hwrites
  | unreported htask hwrites => exact h.keeps_failTask htask _
  | ended htask => exact h.keeps_failTask htask _
  | @cancelWaiting id htask => exact h.keeps htask (only_endTask s id) rfl rfl
  | cancelOut htask hout => exact h.keeps_failTask htask _
  | cancelIn htask hlate => exact h.keeps_goOn htask _
  | @cancelAgain id p htask =>
    obtain ⟨hruns, hissued, -⟩ := failTask_frame s id cancelledText
    exact h.keeps htask (only_abandon s id) hissued hruns
  | settled horphan => exact h.keeps_settled horphan
  | @unsettled id horphan =>
    exact Keeps.only (only_settle s id) rfl (fun row hrow => ⟨row, hrow, RowKept.refl row⟩)
      (fun _ => horphan) (.inl rfl)
  -- the table of the runs survives the process; jobs and tasks do not
  | crash =>
    exact ⟨fun _ hid => hid, fun _ row hrow => ⟨row, hrow, RowKept.refl row⟩,
      fun _ _ _ _ => ⟨rfl, rfl, rfl⟩, fun _ _ _ => .inr rfl⟩

/-- Everything that happens after. -/
theorem run (h : Sound s) {log : BacktestLog ρ} (hrun : BacktestRun ρ s s' log) :
    Sound s' ∧ Keeps s s' := by
  induction hrun with
  | nil => exact ⟨h, Keeps.refl s⟩
  | snoc _ hstep ih => exact ⟨ih.1.step hstep, ih.2.trans (ih.1.keeps_step hstep)⟩

end Sound

/-! ### The end of a row -/

/-- A row without an error says `DONE` just where it has results. -/
theorem Written.done {p : PreparedBacktest} {row : RunRow ρ} (h : Written p row) :
    (row.status = .done ↔ row.results.isSome = true) ∧ row.status ≠ .failed ∧ row.error = none := by
  cases h with
  | started =>
    exact ⟨iff_of_false RunStatus.noConfusion Bool.noConfusion, RunStatus.noConfusion, rfl⟩
  | stored hsame => exact ⟨iff_of_true rfl rfl, RunStatus.noConfusion, rfl⟩

/-- A row has an error just where it says `FAILED`. -/
theorem Left.failed_iff {row : RunRow ρ} (h : Left (some row)) :
    row.status = .failed ↔ row.error.isSome = true := by
  generalize hr : some row = r at h
  cases h with
  | none => cases hr
  | kept hrow =>
    cases hr
    obtain ⟨-, hstatus, herror⟩ := hrow.done
    rw [herror]
    exact iff_of_false hstatus Bool.noConfusion
  | failed hrow error =>
    cases hr
    exact iff_of_true rfl rfl

/-- A row that does not say `FAILED` says `DONE` just where it has results. -/
theorem Left.done_iff {row : RunRow ρ} (h : Left (some row)) (hfailed : row.status ≠ .failed) :
    row.status = .done ↔ row.results.isSome = true := by
  generalize hr : some row = r at h
  cases h with
  | none => cases hr
  | kept hrow =>
    cases hr
    exact hrow.done.1
  | failed hrow error =>
    cases hr
    exact absurd rfl hfailed

/-- A job that is done has a row that says so, and neither a task nor an orphaned write. -/
theorem Agrees.done_row {j : BacktestJob} {task : Option (RunPhase ρ)} {row : Option (RunRow ρ)}
    {orphan : Bool} (h : Agrees (some j) task row orphan) (hdone : j.status = .done) :
    task = none ∧ orphan = false ∧ ∃ r, row = some r ∧ r.status = .done := by
  cases h with
  | done => exact ⟨rfl, rfl, _, rfl, rfl⟩
  | waiting | leaked | preparing | checked | started | failed | orphaned => cases hdone

/-- The job of a run whose row says `FAILED` still runs, or has failed with the error of the row
    unless it was cancelled. -/
theorem Agrees.failed_row {j : BacktestJob} {task : Option (RunPhase ρ)} {row : RunRow ρ}
    {orphan : Bool} (h : Agrees (some j) task (some row) orphan) (hfailed : row.status = .failed) :
    j.status = .running ∨
      j.status = .failed ∧ (row.error = j.error.map publicText ∨ j.error = some cancelledText) := by
  generalize hr : some row = r at h
  cases h with
  | waiting | leaked | preparing | checked => cases hr
  | started actor hrow => exact .inl rfl
  | done actor p hsame =>
    cases hr
    cases hfailed
  | failed actor error hrow =>
    subst hr
    cases hrow with
    | kept hrow => exact absurd hfailed hrow.done.2.1
    | failed hrow htext =>
      rcases htext with rfl | rfl
      · exact .inr ⟨rfl, .inl rfl⟩
      · exact .inr ⟨rfl, .inr rfl⟩
  | orphaned actor hrow => exact .inr ⟨rfl, .inr rfl⟩

/-- A job that has a row does not wait. -/
theorem Agrees.status_of_row {j : BacktestJob} {task : Option (RunPhase ρ)} {row : RunRow ρ}
    {orphan : Bool} (h : Agrees (some j) task (some row) orphan) :
    j.status = .done ∨ j.status = .running ∨ j.status = .failed := by
  generalize hr : some row = r at h
  cases h with
  | waiting | leaked | preparing | checked => cases hr
  | started actor hrow => exact .inr (.inl rfl)
  | done actor p hsame => exact .inl rfl
  | failed actor error hrow => exact .inr (.inr rfl)
  | orphaned actor hrow => exact .inr (.inr rfl)

/-! ### A task that nothing disturbs -/

/-- The service after a task has come from its place in the queue to the commit of its results. -/
def storeRun (s : BacktestService ρ) (id : String) (p : PreparedBacktest) (r : Computed ρ) :
    BacktestService ρ :=
  let s := ((s.setJob id .running none).goOn id .preparing).goOn id (.checked p)
  let s := ((s.insertRun id p).goOn id (.recorded p)).goOn id (.computing p)
  ((s.goOn id (.storing p r)).finishRun id (storedRow r)).goOn id (.stored p r)

/-- A task that gets a place, and finds no equal run, comes to the commit of its results. -/
theorem exists_run_storeRun {s₀ s : BacktestService ρ} {log : BacktestLog ρ}
    (hrun : BacktestRun ρ s₀ s log) (id : String) (p : PreparedBacktest) (r : Computed ρ)
    (hwaiting : s.tasks.get? id = some .waiting) (hplace : s.placesTaken < s.maxConcurrent)
    (hdup : s.findByIdentity p.identity = none) (hconflict : s.conflicts id p.identity = false)
    (hsame : (r.configHash, r.datasetHash) = (p.identity.configHash, p.identity.datasetHash)) :
    ∃ log', BacktestRun ρ s₀ (s.storeRun id p r) log' := by
  have hself (s : BacktestService ρ) (ph : RunPhase ρ) : (s.goOn id ph).tasks.get? id = some ph :=
    Dict.get?_insert_self _ _ _
  -- the table is that of the start until the passport is written
  obtain ⟨hruns, -⟩ := setJob_frame s id .running none
  have hdup' : ((s.setJob id .running none).goOn id .preparing).findByIdentity p.identity =
      none := by
    show (((s.setJob id .running none).runs.entries.reverse.find? _).map Prod.fst) = none
    rw [hruns]
    exact hdup
  have hconflict' : (((s.setJob id .running none).goOn id .preparing).goOn id
      (.checked p)).conflicts id p.identity = false := by
    show (((s.setJob id .running none).runs.get? id).isSome ||
      (p.identity.gitSha.isSome && (s.setJob id .running none).runs.entries.any _)) = false
    rw [hruns]
    exact hconflict
  have hstart := (hrun.snoc (Step.start hwaiting hplace)).snoc (.prepared (hself _ _) hdup')
  have hbegun := (hstart.snoc (.inserted (hself _ _) hconflict')).snoc (.begun (hself _ _))
  exact ⟨_, (hbegun.snoc (.computed (hself _ _) hsame)).snoc (.stored (hself _ _))⟩

/-- The passport of a run with this seed. -/
def passport (seed : ℤ) : PreparedBacktest :=
  ⟨⟨"c0", "d0", seed, "mamdani", some "a1b2"⟩, some false⟩

/-- An answer of the engine under the hashes of these passports. -/
def engineAnswer : Computed ℕ := ⟨"c0", "d0", "j0", "e0", 5⟩

/-- The first of two runs is done, and the second has committed its results and goes on later. -/
def halfDone : BacktestService ℕ :=
  let s := ((small.accept "r0" "op").accept "r1" "op").storeRun "r0" (passport 7) engineAnswer
  ((s.setJob "r0" .done none).endTask "r0").storeRun "r1" (passport 8) engineAnswer

/-- The service comes to this state. -/
theorem exists_run_halfDone : ∃ log, BacktestRun ℕ small halfDone log := by
  have htwo := (Run.nil.snoc (@Step.accept ℕ small "r0" "op" (by decide) (by decide))).snoc
    (@Step.accept ℕ _ "r1" "op" (by decide +kernel) (by decide))
  obtain ⟨log, hfirst⟩ := exists_run_storeRun htwo "r0" (passport 7) engineAnswer rfl
    (by decide +kernel) rfl rfl rfl
  have hdone := hfirst.snoc (@Step.finished ℕ _ "r0" (passport 7) engineAnswer rfl)
  exact exists_run_storeRun hdone "r1" (passport 8) engineAnswer rfl (by decide +kernel) rfl
    (by decide +kernel) rfl

/-- The second run is cancelled there. -/
theorem halfDone_cancel : Step halfDone (.cancel "r1") true
    (halfDone.goOn "r1" (.cancelling (passport 8))) :=
  .cancelIn (by rfl) (.inr ⟨engineAnswer, .inr rfl⟩)

/-! ### Whole runs -/

section Runs

variable {maxConcurrent : ℕ} {maxPending maxJobs : ℤ} {s : BacktestService ρ}
  {log : BacktestLog ρ}

/-! ### Where results come from -/

/-- This row has what the engine has answered for this run. -/
def FromEngine (log : BacktestLog ρ) (id : String) (row : RunRow ρ) : Prop :=
  ∀ x, row.results = some x → ∃ r : Computed ρ, (∃ e ∈ log, e.call = .computed id r) ∧
    x = r.rows ∧ row.journalHead = some r.journalHead ∧ row.equityHash = some r.equityHash ∧
    (r.configHash, r.datasetHash) = (row.identity.configHash, row.identity.datasetHash)

/-- What the engine has answered stays answered. -/
theorem FromEngine.concat {id : String} {row : RunRow ρ} (h : FromEngine log id row)
    (e : Entry (BacktestService ρ) (BacktestEvent ρ) Bool) : FromEngine (log ++ [e]) id row := by
  intro x hx
  obtain ⟨r, ⟨e', he', hcall⟩, hrest⟩ := h x hx
  exact ⟨r, ⟨e', List.mem_append_left _ he', hcall⟩, hrest⟩

/-- The results that are stored, and those that are about to be, are answers of the engine. -/
structure Answered (s : BacktestService ρ) (log : BacktestLog ρ) : Prop where
  storing : ∀ id p r, s.tasks.get? id = some (.storing p r) → ∃ e ∈ log, e.call = .computed id r
  results : ∀ id row, s.runs.get? id = some row → FromEngine log id row

namespace Answered

variable {s' : BacktestService ρ} {id : String}
  {e : Entry (BacktestService ρ) (BacktestEvent ρ) Bool}

/-- A step on one identifier, after which its task stores an answer that is in the log, and its
    row has one. -/
theorem only (h : Answered s log) (honly : Only id s s')
    (htask : ∀ p r, s'.tasks.get? id = some (.storing p r) →
      ∃ e' ∈ log ++ [e], e'.call = .computed id r)
    (hrow : ∀ row, s'.runs.get? id = some row → FromEngine (log ++ [e]) id row) :
    Answered s' (log ++ [e]) where
  storing id' p r hstoring := by
    by_cases hid : id = id'
    · subst hid
      exact htask p r hstoring
    · rw [honly.tasks id' hid] at hstoring
      obtain ⟨e', he', hcall⟩ := h.storing id' p r hstoring
      exact ⟨e', List.mem_append_left _ he', hcall⟩
  results id' row hget := by
    by_cases hid : id = id'
    · subst hid
      exact hrow row hget
    · rw [honly.runs id' hid] at hget
      exact (h.results id' row hget).concat e

/-- A step that writes no row, and after which the task does not store. -/
theorem sameRuns (h : Answered s log) (honly : Only id s s') (hruns : s'.runs = s.runs)
    (htask : ∀ p r, s'.tasks.get? id ≠ some (.storing p r)) : Answered s' (log ++ [e]) :=
  h.only honly (fun p r hstoring => absurd hstoring (htask p r)) fun row hrow =>
    (h.results id row (hruns ▸ hrow)).concat e

/-- The end of a task. -/
theorem failTask (h : Answered s log) (id error : String) :
    Answered (s.failTask id error) (log ++ [e]) := by
  refine h.sameRuns (only_failTask s id error) (failTask_frame s id error).1 fun p r hget => ?_
  have hnone : (s.failTask id error).tasks.get? id = none :=
    (Dict.get?_erase _ _ _).trans (if_pos rfl)
  rw [hnone] at hget
  cases hget

/-- A task goes on, and does not store. -/
theorem goOn (h : Answered s log) (id : String) {ph : RunPhase ρ}
    (hph : ∀ p r, ph ≠ .storing p r) : Answered (s.goOn id ph) (log ++ [e]) := by
  refine h.sameRuns (only_goOn s id ph) rfl fun p r hget => ?_
  have hself : (s.goOn id ph).tasks.get? id = some ph := Dict.get?_insert_self _ _ _
  rw [hself, Option.some.injEq] at hget
  exact hph p r hget

/-- A row that is changed, where what it has then is an answer of the engine. -/
theorem finishRun (h : Answered s log) {row : RunRow ρ} (hrow : s.runs.get? id = some row)
    {f : RunRow ρ → RunRow ρ} (honly : Only id s s') (hruns : s'.runs = (s.finishRun id f).runs)
    (htask : ∀ p r, s'.tasks.get? id ≠ some (.storing p r))
    (hf : FromEngine log id (f row)) : Answered s' (log ++ [e]) := by
  refine h.only honly (fun p r hstoring => absurd hstoring (htask p r)) fun row' hrow' => ?_
  rw [hruns, finishRun_of_get? s hrow] at hrow'
  have hself : (s.runs.insert id (f row)).get? id = some row' := hrow'
  rw [Dict.get?_insert_self, Option.some.injEq] at hself
  exact hself ▸ hf.concat e

/-- The results of a run are stored. -/
theorem stored (h : Answered s log) (hsound : Sound s) {p : PreparedBacktest} {r : Computed ρ}
    (htask : s.tasks.get? id = some (.storing p r)) :
    Answered ((s.finishRun id (storedRow r)).goOn id (.stored p r)) (log ++ [e]) := by
  obtain ⟨w, hp, -, hrow⟩ := hsound.written_of_late htask (.inr ⟨r, .inl rfl⟩)
  refine h.finishRun hrow ((only_finishRun s id _).trans (only_goOn _ id _)) rfl
    (fun p' r' hget => ?_) fun x hx => ?_
  · have hself : ((s.finishRun id (storedRow r)).goOn id (.stored p r)).tasks.get? id =
        some (.stored p r) := Dict.get?_insert_self _ _ _
    rw [hself] at hget
    cases hget
  · cases hp with
    | storing hsame =>
      exact ⟨r, h.storing id p r htask, (Option.some.inj hx).symm, rfl, rfl, hsame⟩

/-- An error is written into a row, and the results there stay. -/
theorem failedRow (h : Answered s log) {row : RunRow ρ} (hrow : s.runs.get? id = some row)
    (error : String) (honly : Only id s s')
    (hruns : s'.runs = (s.finishRun id (failedRow error)).runs)
    (htask : ∀ p r, s'.tasks.get? id ≠ some (.storing p r)) : Answered s' (log ++ [e]) :=
  h.finishRun hrow honly hruns htask fun x hx => h.results id row hrow x hx

/-- The passport of a run has no results. -/
theorem inserted (h : Answered s log) (p : PreparedBacktest) :
    Answered ((s.insertRun id p).goOn id (.recorded p)) (log ++ [e]) := by
  refine h.only ((only_insertRun s id p).trans (only_goOn _ id _)) (fun p' r hget => ?_)
    fun row hget x hx => ?_
  · have hself : ((s.insertRun id p).goOn id (.recorded p)).tasks.get? id =
        some (.recorded p) := Dict.get?_insert_self _ _ _
    rw [hself] at hget
    cases hget
  · have hself : ((s.insertRun id p).goOn id (.recorded p)).runs.get? id =
        some (startedRow p) := Dict.get?_insert_self _ _ _
    rw [hself, Option.some.injEq] at hget
    subst hget
    cases hx

/-- The engine answers, and its answer is in the log. -/
theorem computed (h : Answered s log) (p : PreparedBacktest) (r : Computed ρ) {answer : Bool} :
    Answered (s.goOn id (.storing p r)) (log ++ [⟨s, .computed id r, answer, s'⟩]) := by
  refine h.only (only_goOn s id _) (fun p' r' hget => ?_) fun row hget =>
    (h.results id row hget).concat _
  have hself : (s.goOn id (.storing p r)).tasks.get? id = some (.storing p r) :=
    Dict.get?_insert_self _ _ _
  rw [hself] at hget
  cases hget
  exact ⟨_, List.mem_append_right _ (List.mem_singleton_self _), rfl⟩

/-- No task is new, and no row. -/
theorem same (h : Answered s log)
    (htasks : ∀ id ph, s'.tasks.get? id = some ph → s.tasks.get? id = some ph ∨ ph = .waiting)
    (hruns : s'.runs = s.runs) : Answered s' (log ++ [e]) where
  storing id p r hstoring := by
    rcases htasks id _ hstoring with hold | hno
    · obtain ⟨e', he', hcall⟩ := h.storing id p r hold
      exact ⟨e', List.mem_append_left _ he', hcall⟩
    · cases hno
  results id row hget := (h.results id row (hruns ▸ hget)).concat e

/-- **One thing that happens.** -/
theorem step (h : Answered s log) (hsound : Sound s) {ev : BacktestEvent ρ} {answer : Bool}
    (hstep : Step s ev answer s') : Answered s' (log ++ [⟨s, ev, answer, s'⟩]) := by
  cases hstep with
  | refuse => exact h.same (fun _ _ hget => .inl hget) rfl
  | @accept id actor hroom hnew =>
    refine h.same (fun id' ph hget => ?_) rfl
    -- the new task waits, so that it holds no answer of the engine
    have hget : (s.tasks.insert id .waiting).get? id' = some ph := hget
    rw [Dict.get?_insert] at hget
    split at hget
    · exact .inr (Option.some.inj hget).symm
    · exact .inl hget
  | @start id htask hplace =>
    refine h.sameRuns ((only_setJob s id .running none).trans (only_goOn _ id .preparing))
      (setJob_frame s id .running none).1 fun p r hget => ?_
    have hself : ((s.setJob id .running none).goOn id .preparing).tasks.get? id =
        some .preparing := Dict.get?_insert_self _ _ _
    rw [hself] at hget
    cases hget
  | duplicate htask hdup => exact h.failTask _ _
  | prepared htask hdup => exact h.goOn _ fun _ _ hno => by cases hno
  | conflict htask hconflict => exact h.failTask _ _
  | inserted htask hconflict => exact h.inserted _
  | begun htask => exact h.goOn _ fun _ _ hno => by cases hno
  | mismatch htask hother => exact h.goOn _ fun _ _ hno => by cases hno
  | computed htask hsame => exact h.computed _ _
  | stored htask => exact h.stored hsound htask
  | @finished id p r htask =>
    refine h.sameRuns ((only_setJob s id .done none).trans (only_endTask _ id))
      (setJob_frame s id .done none).1 fun p r hget => ?_
    have hnone : ((s.setJob id .done none).endTask id).tasks.get? id = none :=
      (Dict.get?_erase _ _ _).trans (if_pos rfl)
    rw [hnone] at hget
    cases hget
  | raised htask hearly => exact h.failTask _ _
  | failed htask hlate => exact h.goOn _ fun _ _ hno => by cases hno
  | @reported id error ph p htask hwrites =>
    obtain ⟨w, -, -, hrow⟩ := hsound.written_of_writes htask hwrites
    refine h.failedRow hrow error ((only_finishRun s id _).trans (only_goOn _ id _)) rfl
      fun p' r hget => ?_
    have hself : ((s.finishRun id (BacktestService.failedRow error)).goOn id
        (.failed p error)).tasks.get? id = some (.failed p error) := Dict.get?_insert_self _ _ _
    rw [hself] at hget
    cases hget
  | unreported htask hwrites => exact h.failTask _ _
  | ended htask => exact h.failTask _ _
  | @cancelWaiting id htask =>
    refine h.same (fun id' ph hget => ?_) rfl
    have hget : (s.tasks.erase id).get? id' = some ph := hget
    rw [Dict.get?_erase] at hget
    split at hget
    · cases hget
    · exact .inl hget
  | cancelOut htask hout => exact h.failTask _ _
  | cancelIn htask hlate => exact h.goOn _ fun _ _ hno => by cases hno
  | @cancelAgain id p htask =>
    have hfail := h.failTask (e := ⟨s, .cancel id, true, s.abandon id⟩) id cancelledText
    exact ⟨hfail.storing, hfail.results⟩
  | @settled id horphan =>
    obtain ⟨-, p, w, -, hrow, htask, -⟩ := hsound.orphan horphan
    refine h.failedRow hrow cancelledText ((only_finishRun s id _).trans (only_settle _ id)) rfl
      fun p' r hget => ?_
    have hnone : ((s.finishRun id (BacktestService.failedRow cancelledText)).settle
        id).tasks.get? id = none := by
      show (s.finishRun id _).tasks.get? id = none
      rw [(finishRun_frame s id _).2.1, htask]
    rw [hnone] at hget
    cases hget
  | unsettled horphan => exact h.same (fun _ _ hget => .inl hget) rfl
  | crash => exact h.same (fun _ _ hget => by cases hget) rfl

/-- **Run lemma**: what has been answered stays so over every step. -/
theorem run (hrun : BacktestRun ρ (new maxConcurrent maxPending maxJobs) s log) :
    Answered s log := by
  induction hrun with
  | nil => exact ⟨fun _ _ _ h => (by cases h), fun _ _ h => (by cases h)⟩
  | snoc hrun hstep ih => exact ih.step (counts_run hrun).1 hstep

end Answered

/-! ### Between the commit of the results and the end of the task -/

/-- A cancellation, or an error of the session, comes after the results are committed and before
    the task goes on. -/
def Interrupts (id : String) (e : Entry (BacktestService ρ) (BacktestEvent ρ) Bool) : Prop :=
  (∃ p r, e.before.tasks.get? id = some (.stored p r)) ∧
    (e.call = .cancel id ∨ ∃ error, e.call = .raised id error)

/-- This run has its results, and nothing has come between. -/
structure Whole (s : BacktestService ρ) (id : String) (row : RunRow ρ) : Prop where
  done : row.status = .done
  orphan : s.isOrphan id = false
  task : ∀ ph, s.tasks.get? id = some ph → ph.isStored = true
  job : ∀ j, s.jobs.get? id = some j → j.status ≠ .failed

/-- Runs that have their results are whole, unless something came between. -/
def Spared (s : BacktestService ρ) (log : BacktestLog ρ) : Prop :=
  ∀ id row, s.runs.get? id = some row → row.results.isSome = true →
    Whole s id row ∨ ∃ e ∈ log, Interrupts id e

namespace Spared

variable {s' : BacktestService ρ} {id : String}
  {e : Entry (BacktestService ρ) (BacktestEvent ρ) Bool}

/-- A step on one identifier: its run is whole afterwards, or something comes between now, or its
    row had results before and was not whole then. -/
theorem only (h : Spared s log) (honly : Only id s s')
    (hrow : ∀ row, s'.runs.get? id = some row → row.results.isSome = true →
      Whole s' id row ∨ Interrupts id e ∨ ∃ row', s.runs.get? id = some row' ∧
        row'.results.isSome = true ∧ ¬ Whole s id row') : Spared s' (log ++ [e]) := by
  intro id' row hget hresults
  by_cases hid : id = id'
  · subst hid
    rcases hrow row hget hresults with hwhole | hnow | ⟨row', hget', hresults', hnot⟩
    · exact .inl hwhole
    · exact .inr ⟨e, List.mem_append_right _ (List.mem_singleton_self _), hnow⟩
    · obtain ⟨e', he', hinterrupts⟩ := (h id row' hget' hresults').resolve_left hnot
      exact .inr ⟨e', List.mem_append_left _ he', hinterrupts⟩
  · rw [honly.runs id' hid] at hget
    rcases h id' row hget hresults with hwhole | ⟨e', he', hinterrupts⟩
    · refine .inl ⟨hwhole.done, (honly.orphans id' hid).trans hwhole.orphan, fun ph hph => ?_,
        fun j hj => ?_⟩
      · exact hwhole.task ph ((honly.tasks id' hid) ▸ hph)
      · exact hwhole.job j ((honly.jobs id' hid) ▸ hj)
    · exact .inr ⟨e', List.mem_append_left _ he', hinterrupts⟩

/-- A step of a task that is not between commit and end, and brings no results. -/
theorem task (h : Spared s log) (honly : Only id s s') {ph : RunPhase ρ}
    (htask : s.tasks.get? id = some ph) (hph : ph.isStored = false)
    (hrow : ∀ row, s'.runs.get? id = some row → row.results.isSome = true →
      ∃ row', s.runs.get? id = some row' ∧ row'.results.isSome = true) :
    Spared s' (log ++ [e]) := by
  refine h.only honly fun row hget hresults => .inr (.inr ?_)
  obtain ⟨row', hget', hresults'⟩ := hrow row hget hresults
  refine ⟨row', hget', hresults', fun hwhole => ?_⟩
  rw [hwhole.task ph htask] at hph
  cases hph

/-- The same, where no row changes. -/
theorem taskSame (h : Spared s log) (honly : Only id s s') {ph : RunPhase ρ}
    (htask : s.tasks.get? id = some ph) (hph : ph.isStored = false)
    (hruns : s'.runs = s.runs) : Spared s' (log ++ [e]) :=
  h.task honly htask hph fun row hget hresults => ⟨row, hruns ▸ hget, hresults⟩

/-- A task fails that is not between commit and end. -/
theorem failTask (h : Spared s log) {ph : RunPhase ρ} (htask : s.tasks.get? id = some ph)
    (hph : ph.isStored = false) (error : String) :
    Spared (s.failTask id error) (log ++ [e]) :=
  h.taskSame (only_failTask s id error) htask hph (failTask_frame s id error).1

/-- A task goes on that is not between commit and end. -/
theorem goOn (h : Spared s log) {ph : RunPhase ρ} (htask : s.tasks.get? id = some ph)
    (hph : ph.isStored = false) (ph' : RunPhase ρ) :
    Spared (s.goOn id ph') (log ++ [e]) := h.taskSame (only_goOn s id ph') htask hph rfl

/-- The row that an error is written into had its results before. -/
theorem results_of_failedRow {error : String} {row : RunRow ρ}
    (hget : (s.finishRun id (failedRow error)).runs.get? id = some row)
    (hresults : row.results.isSome = true) :
    ∃ row', s.runs.get? id = some row' ∧ row'.results.isSome = true := by
  cases hold : s.runs.get? id with
  | none =>
    rw [finishRun, hold] at hget
    dsimp only at hget
    rw [hold] at hget
    cases hget
  | some row' =>
    rw [finishRun_of_get? s hold] at hget
    have hself : (s.runs.insert id (failedRow error row')).get? id = some row := hget
    rw [Dict.get?_insert_self, Option.some.injEq] at hself
    subst hself
    exact ⟨row', rfl, hresults⟩

/-- The results of a run are committed: it is whole, since its job runs. -/
theorem stored (h : Spared s log) (hsound : Sound s) {p : PreparedBacktest} {r : Computed ρ}
    (htask : s.tasks.get? id = some (.storing p r)) :
    Spared ((s.finishRun id (storedRow r)).goOn id (.stored p r)) (log ++ [e]) := by
  obtain ⟨w, -, -, hrow⟩ := hsound.written_of_late htask (.inr ⟨r, .inl rfl⟩)
  obtain ⟨⟨actor, hjob⟩, horphan, -⟩ := hsound.taskAt htask
  refine h.only ((only_finishRun s id _).trans (only_goOn _ id _)) fun row hget hresults =>
    .inl ?_
  rw [finishRun_of_get? s hrow] at hget ⊢
  have hself : (s.runs.insert id (storedRow r w)).get? id = some row := hget
  rw [Dict.get?_insert_self, Option.some.injEq] at hself
  subst hself
  refine ⟨rfl, horphan, fun ph hph => ?_, fun j hj => ?_⟩
  · have hph : (s.tasks.insert id (.stored p r)).get? id = some ph := hph
    rw [Dict.get?_insert_self, Option.some.injEq] at hph
    exact hph ▸ rfl
  · have hj : s.jobs.get? id = some j := hj
    rw [hjob, Option.some.injEq] at hj
    subst hj
    exact JobStatus.noConfusion

/-- The task of a run goes on after its results are committed: the run stays whole. -/
theorem finished (h : Spared s log) (hsound : Sound s) {p : PreparedBacktest} {r : Computed ρ}
    (htask : s.tasks.get? id = some (.stored p r)) :
    Spared ((s.setJob id .done none).endTask id) (log ++ [e]) := by
  obtain ⟨⟨actor, hjob⟩, horphan, -⟩ := hsound.taskAt htask
  refine h.only ((only_setJob s id .done none).trans (only_endTask _ id))
    fun row hget hresults => ?_
  rw [setJob_of_get? s hjob] at hget ⊢
  have hget : s.runs.get? id = some row := hget
  by_cases hwhole : Whole s id row
  · refine .inl ⟨hwhole.done, horphan, fun ph hph => ?_, fun j hj => ?_⟩
    · have hph : (s.tasks.erase id).get? id = some ph := hph
      rw [Dict.get?_erase, if_pos rfl] at hph
      cases hph
    · have hj : (s.jobs.insert id ⟨actor, .done, none⟩).get? id = some j := hj
      rw [Dict.get?_insert_self, Option.some.injEq] at hj
      subst hj
      exact JobStatus.noConfusion
  · exact .inr (.inr ⟨row, hget, hresults, hwhole⟩)

/-- A cancellation or an error takes a task to a handler: it comes between, or the task was
    not there yet. -/
theorem handled (h : Spared s log) {ph : RunPhase ρ} {p : PreparedBacktest}
    (htask : s.tasks.get? id = some ph)
    (hlate : ph = .computing p ∨ ∃ r, ph = .storing p r ∨ ph = .stored p r)
    (ph' : RunPhase ρ) {ev : BacktestEvent ρ} {answer : Bool}
    (hev : ev = .cancel id ∨ ∃ error, ev = .raised id error) :
    Spared (s.goOn id ph') (log ++ [⟨s, ev, answer, s'⟩]) := by
  rcases hlate with rfl | ⟨r, rfl | rfl⟩
  · exact h.goOn htask rfl ph'
  · exact h.goOn htask rfl ph'
  · exact h.only (only_goOn s id ph') fun _ _ _ => .inr (.inl ⟨⟨p, r, htask⟩, hev⟩)

/-- The end of an orphaned write, which a whole run does not have. -/
theorem orphan (h : Spared s log) (honly : Only id s s') (horphan : s.isOrphan id = true)
    (hrow : ∀ row, s'.runs.get? id = some row → row.results.isSome = true →
      ∃ row', s.runs.get? id = some row' ∧ row'.results.isSome = true) :
    Spared s' (log ++ [e]) := by
  refine h.only honly fun row hget hresults => .inr (.inr ?_)
  obtain ⟨row', hget', hresults'⟩ := hrow row hget hresults
  refine ⟨row', hget', hresults', fun hwhole => ?_⟩
  rw [hwhole.orphan] at horphan
  cases horphan

/-- A new job, for which others may have to leave. -/
theorem accept (h : Spared s log) (hsound : Sound s) {actor : String} (hnew : id ∉ s.issued) :
    Spared (s.accept id actor) (log ++ [e]) := by
  intro id' row hget hresults
  have hget : s.runs.get? id' = some row := hget
  have hne : id ≠ id' := by
    rintro rfl
    rw [(hsound.fresh id hnew).2.2.1] at hget
    cases hget
  rcases h id' row hget hresults with hwhole | ⟨e', he', hinterrupts⟩
  · refine .inl ⟨hwhole.done, hwhole.orphan, fun ph hph => ?_, fun j hj => ?_⟩
    · exact hwhole.task ph ((Dict.get?_insert_of_ne _ _ hne).symm.trans hph)
    · have hevict := evict_spec s.maxJobs (s.jobs.insert id ⟨actor, .pending, none⟩)
      have hj : (evict s.maxJobs (s.jobs.insert id ⟨actor, .pending, none⟩)).get? id' =
        some j := hj
      rcases hevict.get? id' with hsame | ⟨hnone, -⟩
      · rw [hsame, Dict.get?_insert_of_ne _ _ hne] at hj
        exact hwhole.job j hj
      · rw [hnone] at hj
        cases hj
  · exact .inr ⟨e', List.mem_append_left _ he', hinterrupts⟩

/-- The end of the process: a run that is whole stays so, without its task and its job. -/
theorem crash (h : Spared s log) :
    Spared { s with jobs := ∅, tasks := ∅, orphans := [] } (log ++ [e]) := by
  intro id row hget hresults
  rcases h id row hget hresults with hwhole | ⟨e', he', hinterrupts⟩
  · exact .inl ⟨hwhole.done, rfl, fun ph hph => (by cases hph), fun j hj => (by cases hj)⟩
  · exact .inr ⟨e', List.mem_append_left _ he', hinterrupts⟩

/-- A task outside of the handlers is not between commit and end. -/
theorem not_stored_of_out {ph : RunPhase ρ} (h : ph = .preparing ∨ ∃ p, ph = .checked p ∨
    ph = .recorded p ∨ ∃ error, ph = .failing p error ∨ ph = .failed p error) :
    ph.isStored = false := by
  rcases h with rfl | ⟨p, rfl | rfl | ⟨error, rfl | rfl⟩⟩
  all_goals rfl

/-- A task that writes its error is not between commit and end. -/
theorem not_stored_of_writes {ph : RunPhase ρ} {p : PreparedBacktest} {error : String}
    (h : ph = .failing p error ∨ ph = .cancelling p ∧ error = cancelledText) :
    ph.isStored = false := by
  rcases h with rfl | ⟨rfl, -⟩
  · rfl
  · rfl

/-- **One thing that happens.** -/
theorem step (h : Spared s log) (hsound : Sound s) {ev : BacktestEvent ρ} {answer : Bool}
    (hstep : Step s ev answer s') : Spared s' (log ++ [⟨s, ev, answer, s'⟩]) := by
  cases hstep with
  -- a refused submission changes nothing, so each row is spared or lost as it was
  | @refuse id actor hfull =>
    exact h.only (Only.refl s id) fun row hget hresults => by
      by_cases hwhole : Whole s id row
      · exact .inl hwhole
      · exact .inr (.inr ⟨row, hget, hresults, hwhole⟩)
  | accept hroom hnew => exact h.accept hsound hnew
  | @start id htask hplace =>
    exact h.taskSame ((only_setJob s id .running none).trans (only_goOn _ id .preparing)) htask
      rfl (setJob_frame s id .running none).1
  | duplicate htask hdup => exact h.failTask htask rfl _
  | prepared htask hdup => exact h.goOn htask rfl _
  | conflict htask hconflict => exact h.failTask htask rfl _
  | @inserted id p htask hconflict =>
    refine h.task ((only_insertRun s id p).trans (only_goOn _ id _)) htask rfl
      fun row hget hresults => ?_
    have hself : (s.runs.insert id (startedRow p)).get? id = some row := hget
    rw [Dict.get?_insert_self, Option.some.injEq] at hself
    subst hself
    cases hresults
  | begun htask => exact h.goOn htask rfl _
  | mismatch htask hother => exact h.goOn htask rfl _
  | computed htask hsame => exact h.goOn htask rfl _
  | stored htask => exact h.stored hsound htask
  | finished htask => exact h.finished hsound htask
  | raised htask hearly =>
    refine h.failTask htask (not_stored_of_out ?_) _
    rcases hearly with hph | ⟨p, hph | hph⟩
    · exact .inl hph
    · exact .inr ⟨p, .inl hph⟩
    · exact .inr ⟨p, .inr (.inl hph)⟩
  | failed htask hlate => exact h.handled htask hlate _ (.inr ⟨_, rfl⟩)
  -- `finish(FAILED)` writes over a row with results only where they came before it
  | @reported id error ph p htask hwrites =>
    exact h.task ((only_finishRun s id _).trans (only_goOn _ id _)) htask
      (not_stored_of_writes hwrites) fun _ hget hresults => results_of_failedRow hget hresults
  | unreported htask hwrites => exact h.failTask htask (not_stored_of_writes hwrites) _
  | ended htask => exact h.failTask htask rfl _
  | @cancelWaiting id htask =>
    exact h.taskSame (only_endTask s id) htask rfl rfl
  | cancelOut htask hout => exact h.failTask htask (not_stored_of_out hout) _
  | cancelIn htask hlate => exact h.handled htask hlate _ (.inl rfl)
  | @cancelAgain id p htask =>
    exact h.taskSame (only_abandon s id) htask rfl
      (failTask_frame s id cancelledText).1
  | @settled id horphan =>
    exact h.orphan ((only_finishRun s id _).trans (only_settle _ id)) horphan
      fun _ hget hresults => results_of_failedRow hget hresults
  | @unsettled id horphan =>
    exact h.orphan (only_settle s id) horphan fun row hget hresults => ⟨row, hget, hresults⟩
  | crash => exact h.crash

/-- **Run lemma**: no step spoils the row of another task. -/
theorem run (hrun : BacktestRun ρ (new maxConcurrent maxPending maxJobs) s log) :
    Spared s log := by
  induction hrun with
  | nil => exact fun _ _ hget => by cases hget
  | snoc hrun hstep ih => exact ih.step (counts_run hrun).1 hstep

end Spared

/-- What has come between has left results behind. -/
theorem Interrupts.results (hrun : BacktestRun ρ (new maxConcurrent maxPending maxJobs) s log)
    {id : String} (h : ∃ e ∈ log, Interrupts id e) :
    ∃ row, s.runs.get? id = some row ∧ row.results.isSome = true := by
  obtain ⟨e, he, ⟨p, r, htask⟩, -⟩ := h
  obtain ⟨pre, post, hlog⟩ := List.append_of_mem he
  obtain ⟨hbefore, hstep⟩ := hrun.before_entry hlog
  obtain ⟨hsound, -⟩ := counts_run hbefore
  obtain ⟨w, hp, -, hrow⟩ := hsound.written_of_late htask (.inr ⟨r, .inr rfl⟩)
  have hkeeps := (hsound.keeps_step hstep).trans
    ((hsound.step hstep).run (hlog ▸ hrun).after_entry).2
  obtain ⟨row, hget, hkept⟩ := hkeeps.rows id w hrow
  have hresults : w.results.isSome = true := by
    cases hp with
    | stored hsame => rfl
  exact ⟨row, hget, (hkept.results hresults).1 ▸ hresults⟩

/-- **The rows of the runs.**  After every run of the service: a row has results just where it
    says `DONE`, or says `FAILED` because a cancellation or an error came after they were
    committed and before its task went on; these are what the engine answered for this run, under
    the hashes of its passport.  It has an error just where it says `FAILED`.  Its job, while the
    registry has it: one that is `DONE` has a row that is; the row of a run that is `DONE` has a
    job that is too, or still runs, or has failed because something came between; and a run that
    is `FAILED` has a job that still runs, or has failed with the same error or as cancelled.  Two
    runs are equal only where the commit of the code is unknown. -/
theorem run_rows_exact (hrun : BacktestRun ρ (new maxConcurrent maxPending maxJobs) s log) :
    (∀ id row, s.runs.get? id = some row →
      (row.results.isSome = true ↔
        row.status = .done ∨ row.status = .failed ∧ ∃ e ∈ log, Interrupts id e) ∧
      (row.status = .failed ↔ row.error.isSome = true) ∧
      FromEngine log id row ∧
      ∀ j, s.jobs.get? id = some j →
        (row.status = .done → j.status = .done ∨ j.status = .running ∨
          j.status = .failed ∧ ∃ e ∈ log, Interrupts id e) ∧
        (row.status = .failed → j.status = .running ∨ j.status = .failed ∧
          (row.error = j.error.map publicText ∨ j.error = some cancelledText))) ∧
    (∀ id j, s.jobs.get? id = some j → j.status = .done →
      ∃ row, s.runs.get? id = some row ∧ row.status = .done) ∧
    ∀ id id' row row', s.runs.get? id = some row → s.runs.get? id' = some row' → id ≠ id' →
      row.identity = row'.identity → row.identity.gitSha = none := by
  obtain ⟨hsound, -⟩ := counts_run hrun
  have hspared := Spared.run hrun
  refine ⟨fun id row hrow => ?_, fun id j hj hdone => ?_, hsound.identity⟩
  · have hagrees := hsound.agrees id
    rw [AgreesAt, hrow] at hagrees
    -- results, and what came between where the row does not say so
    have hresults : row.results.isSome = true ↔
        row.status = .done ∨ row.status = .failed ∧ ∃ e ∈ log, Interrupts id e := by
      by_cases hfailed : row.status = .failed
      · rw [hfailed]
        refine ⟨fun hsome => .inr ⟨rfl, ?_⟩, fun h => ?_⟩
        · refine (hspared id row hrow hsome).resolve_left fun hwhole => ?_
          rw [hwhole.done] at hfailed
          cases hfailed
        · rcases h with hno | ⟨-, hbetween⟩
          · cases hno
          · obtain ⟨row', hget, hsome⟩ := Interrupts.results hrun hbetween
            rw [hrow, Option.some.injEq] at hget
            exact hget ▸ hsome
      · rw [← hagrees.left.done_iff hfailed]
        exact ⟨.inl, fun h => h.resolve_right fun hno => hfailed hno.1⟩
    refine ⟨hresults, hagrees.left.failed_iff, (Answered.run hrun).results id row hrow,
      fun j hj => ?_⟩
    rw [hj] at hagrees
    refine ⟨fun hdone => ?_, hagrees.failed_row⟩
    rcases hagrees.status_of_row with hjdone | hrunning | hfailed
    · exact .inl hjdone
    · exact .inr (.inl hrunning)
    · refine .inr (.inr ⟨hfailed, ?_⟩)
      exact (hspared id row hrow (hresults.mpr (.inl hdone))).resolve_left
        fun hwhole => hwhole.job j hj hfailed
  · have hagrees := hsound.agrees id
    rw [AgreesAt, hj] at hagrees
    exact (hagrees.done_row hdone).2.2

/-- One run is done; the other is cancelled between the commit of its results and its end, and its
    row says `FAILED` over them. -/
theorem run_rows_exact_overwritten : ∃ (s : BacktestService ℕ) (log : BacktestLog ℕ),
    BacktestRun ℕ small s log ∧
    (∃ row, s.runs.get? "r0" = some row ∧ row.status = .done ∧ row.results = some 5) ∧
    ∃ row, s.runs.get? "r1" = some row ∧ row.status = .failed ∧ row.results = some 5 ∧
      ∃ e ∈ log, Interrupts "r1" e := by
  obtain ⟨log, hhalf⟩ := exists_run_halfDone
  have hrun := ((hhalf.snoc halfDone_cancel).snoc
    (@Step.reported ℕ _ "r1" cancelledText _ (passport 8) rfl (.inr ⟨rfl, rfl⟩))).snoc
    (@Step.ended ℕ _ "r1" cancelledText (passport 8) rfl)
  obtain ⟨hrows, hdone, -⟩ := run_rows_exact hrun
  obtain ⟨row, hrow, hstatus⟩ := hdone "r0" ⟨"op", .done, none⟩ rfl rfl
  refine ⟨_, _, hrun, ⟨row, hrow, hstatus, ?_⟩, _, rfl, rfl, rfl, ?_⟩
  · exact congrArg RunRow.results (Option.some.inj hrow).symm
  · exact (((hrows "r1" _ rfl).1.mp rfl).resolve_left RunStatus.noConfusion).2

/-- **What is over stays.**  Whatever happens after: a run keeps its passport and its results, one
    that is `FAILED` its whole row, and so does one that has neither a task nor an orphaned write.
    One that is `DONE` keeps its row, or gets an error there because a cancellation or an error
    came after its results were committed and before its task went on.  A job that is over stays
    as it is until it leaves the registry, and the row of one that is `DONE` as well. -/
theorem run_rows_final (hrun : BacktestRun ρ (new maxConcurrent maxPending maxJobs) s log)
    {pre post : BacktestLog ρ} {e : Entry (BacktestService ρ) (BacktestEvent ρ) Bool}
    (hlog : log = pre ++ e :: post) (id : String) :
    (∀ row, e.before.runs.get? id = some row → ∃ row', s.runs.get? id = some row' ∧
      row'.identity = row.identity ∧ row'.gitDirty = row.gitDirty ∧
      (row.results.isSome = true → row'.results = row.results ∧
        row'.journalHead = row.journalHead ∧ row'.equityHash = row.equityHash) ∧
      (row.status = .failed → row' = row) ∧
      (e.before.tasks.get? id = none → e.before.isOrphan id = false → row' = row) ∧
      (row.status = .done → row' = row ∨
        (∃ error, row' = failedRow error row) ∧ ∃ i ∈ log, Interrupts id i)) ∧
    ∀ j, e.before.jobs.get? id = some j → j.status.isOver = true →
      (s.jobs.get? id = some j ∨ s.jobs.get? id = none) ∧
      (j.status = .done → s.runs.get? id = e.before.runs.get? id) := by
  obtain ⟨hbefore, hstep⟩ := hrun.before_entry hlog
  obtain ⟨hsound, -⟩ := counts_run hbefore
  have hkeeps := (hsound.keeps_step hstep).trans
    ((hsound.step hstep).run (hlog ▸ hrun).after_entry).2
  refine ⟨fun row hrow => ?_, fun j hj hover => ?_⟩
  · obtain ⟨row', hrow', hkept⟩ := hkeeps.rows id row hrow
    refine ⟨row', hrow', hkept.identity, hkept.gitDirty, hkept.results, hkept.failed,
      fun htask horphan => ?_, fun hdone => ?_⟩
    · have hissued : id ∈ e.before.issued := by
        by_contra hnew
        rw [(hsound.fresh id hnew).2.2.1] at hrow
        cases hrow
      have hsame := (hkeeps.quiet id hissued htask horphan).1
      rw [hrow', hrow, Option.some.injEq] at hsame
      exact hsame
    · rcases hkept.done hdone with hsame | ⟨error, hfailed⟩
      · exact .inl hsame
      -- a row that says `FAILED` and has results is not whole
      · have hagrees := hsound.agrees id
        rw [AgreesAt, hrow] at hagrees
        have hsome : row.results.isSome = true :=
          (hagrees.left.done_iff (by rw [hdone]; exact RunStatus.noConfusion)).mp hdone
        refine .inr ⟨⟨error, hfailed⟩, (Spared.run hrun id row' hrow' ?_).resolve_left ?_⟩
        · rw [hfailed]
          exact hsome
        · intro hwhole
          have hno := hwhole.done
          rw [hfailed] at hno
          cases hno
  · have hissued : id ∈ e.before.issued := by
      by_contra hnew
      rw [(hsound.fresh id hnew).1] at hj
      cases hj
    refine ⟨?_, fun hdone => ?_⟩
    · rcases hkeeps.jobs id hissued (fun j' hj' => by
        rw [hj, Option.some.injEq] at hj'
        rwa [← hj']) with hsame | hnone
      · exact .inl (hsame.trans hj)
      · exact .inr hnone
    · have hagrees := hsound.agrees id
      rw [AgreesAt, hj] at hagrees
      obtain ⟨htask, horphan, -⟩ := hagrees.done_row hdone
      exact (hkeeps.quiet id hissued htask horphan).1

/-- A task is cancelled twice after the commit of its results, its orphaned write ends after it,
    and then the process does: the run that was done before keeps its row, and the other has its
    error over its results. -/
theorem run_rows_final_crash : ∃ (s : BacktestService ℕ) (log : BacktestLog ℕ),
    BacktestRun ℕ small s log ∧ s.jobs.get? "r0" = none ∧
    s.runs.get? "r0" = halfDone.runs.get? "r0" ∧
    ∃ row row', halfDone.runs.get? "r1" = some row ∧ s.runs.get? "r1" = some row' ∧
      row.status = .done ∧ row'.status = .failed ∧ row'.results = row.results ∧
      ∃ i ∈ log, Interrupts "r1" i := by
  obtain ⟨log, hhalf⟩ := exists_run_halfDone
  have hrun := (((hhalf.snoc halfDone_cancel).snoc
    (@Step.cancelAgain ℕ _ "r1" (passport 8) rfl)).snoc
    (@Step.settled ℕ _ "r1" (by decide +kernel))).snoc .crash
  -- from the first cancellation on
  have hlater := run_rows_final hrun (by simp only [List.append_assoc]; rfl)
  obtain ⟨row', hrow', -, -, hresults, -, -, hdone⟩ := (hlater "r1").1 _ rfl
  refine ⟨_, _, hrun, rfl, ((hlater "r0").2 ⟨"op", .done, none⟩ rfl rfl).2 rfl, _, row', rfl,
    hrow', rfl, ?_, (hresults rfl).1, ?_⟩
  · exact congrArg RunRow.status (Option.some.inj hrow').symm
  · refine ((hdone rfl).resolve_left fun hsame => ?_).2
    have hno := congrArg RunRow.status (Option.some.inj hrow')
    rw [hsame] at hno
    exact RunStatus.noConfusion hno

end Runs

end BacktestService

end FuzzHelm
