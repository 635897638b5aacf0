import FuzzHelm.Api.Backtests

namespace FuzzHelm

open Lib

/-!
# What the queue of backtests keeps

* `Counts` — jobs, tasks and places, counted against each other;
* `queue_bounds` — how many jobs there are of each kind, and when a new one is refused;
* `slots_leak` — a task that is cancelled while it waits keeps its slot for ever.
-/

namespace BacktestService

variable {ρ : Type*}

/-- One call more: a task that is cancelled while it waits is counted, until the process ends. -/
def leakStep (n : ℕ) (e : Entry (BacktestService ρ) (BacktestEvent ρ) Bool) : ℕ :=
  match e.call with
  | .crash => 0
  | .cancel id =>
    match e.before.tasks.get? id with
    | some .waiting => n + 1
    | _ => n
  | _ => n

/-- The tasks that this process has cancelled while they waited. -/
def leakedSlots (log : BacktestLog ρ) : ℕ := log.foldl leakStep 0

/-- The count goes on with the log. -/
theorem leakedSlots_concat (log : BacktestLog ρ)
    (e : Entry (BacktestService ρ) (BacktestEvent ρ) Bool) :
    leakedSlots (log ++ [e]) = leakStep (leakedSlots log) e := by
  rw [leakedSlots, List.foldl_append]
  rfl

/-! ### Counting -/

section Effects

variable (s : BacktestService ρ) {id : String} (w : JobStatus → ℕ) (g : RunPhase ρ → ℕ)

/-- A job leaves one status and comes to another. -/
theorem tally_setJob {j : BacktestJob} (hjob : s.jobs.get? id = some j) (status : JobStatus)
    (error : Option String) :
    tally w (s.setJob id status error).jobs + w j.status = tally w s.jobs + w status := by
  have hinsert := s.jobs.sum_insert (fun _ j => w j.status) id ⟨j.actor, status, error⟩
  rw [hjob, Option.elim_some] at hinsert
  rw [setJob_of_get? s hjob]
  exact hinsert

/-- A job that changes makes the registry no longer. -/
theorem length_setJob (id : String) (status : JobStatus) (error : Option String) :
    (s.setJob id status error).jobs.entries.length = s.jobs.entries.length := by
  unfold setJob
  split
  · rfl
  · rename_i j hjob
    have hkeys := s.jobs.keys_insert_of_mem ⟨j.actor, status, error⟩
      ((s.jobs.mem_keys_iff_get? id).mpr ⟨j, hjob⟩)
    have hlength := congrArg List.length hkeys
    rwa [Dict.keys, Dict.keys, List.length_map, List.length_map] at hlength

/-- A task leaves one phase and comes to another. -/
theorem sum_goOn {ph : RunPhase ρ} (htask : s.tasks.get? id = some ph) (ph' : RunPhase ρ) :
    ((s.goOn id ph').tasks.sum fun _ ph => g ph) + g ph =
      (s.tasks.sum fun _ ph => g ph) + g ph' := by
  have hinsert := s.tasks.sum_insert (fun _ ph => g ph) id ph'
  rw [htask, Option.elim_some] at hinsert
  exact hinsert

/-- A task that is over is counted no more. -/
theorem sum_endTask {ph : RunPhase ρ} (htask : s.tasks.get? id = some ph) :
    ((s.endTask id).tasks.sum fun _ ph => g ph) + g ph = s.tasks.sum fun _ ph => g ph := by
  have herase := s.tasks.sum_erase (fun _ ph => g ph) id
  rw [htask, Option.elim_some] at herase
  exact herase

end Effects

/-- The three settings are kept. -/
def SameSettings (s s' : BacktestService ρ) : Prop :=
  s'.maxConcurrent = s.maxConcurrent ∧ s'.maxPending = s.maxPending ∧ s'.maxJobs = s.maxJobs

/-- A job that changes leaves the settings alone. -/
theorem settings_setJob (s : BacktestService ρ) (id : String) (status : JobStatus)
    (error : Option String) : SameSettings s (s.setJob id status error) := by
  unfold setJob
  split
  · exact ⟨rfl, rfl, rfl⟩
  · exact ⟨rfl, rfl, rfl⟩

/-- A row that changes leaves the settings, the jobs and the tasks alone. -/
theorem settings_finishRun (s : BacktestService ρ) (id : String) (f : RunRow ρ → RunRow ρ) :
    SameSettings s (s.finishRun id f) ∧ (s.finishRun id f).jobs = s.jobs ∧
      (s.finishRun id f).tasks = s.tasks := by
  unfold finishRun
  split
  · exact ⟨⟨rfl, rfl, rfl⟩, rfl, rfl⟩
  · exact ⟨⟨rfl, rfl, rfl⟩, rfl, rfl⟩

/-- The service and its log, counted. -/
structure Counts (maxConcurrent : ℕ) (maxPending maxJobs : ℤ) (s : BacktestService ρ)
    (log : BacktestLog ρ) : Prop where
  maxConcurrent_eq : s.maxConcurrent = maxConcurrent
  maxPending_eq : s.maxPending = maxPending
  maxJobs_eq : s.maxJobs = maxJobs
  balance : ∀ w : JobStatus → ℕ, (∀ st, st.isOver = true → w st = 0) →
    tally w s.jobs = (s.tasks.sum fun _ ph => w ph.status) + w .pending * leakedSlots log
  places : s.placesTaken ≤ maxConcurrent
  unfinished : (s.unfinished : ℤ) ≤ max maxPending 0
  registry : (s.jobs.entries.length : ℤ) ≤ max maxJobs (max maxPending 0)

/-- A job that is over is not open. -/
theorem isOpen_over (st : JobStatus) (h : st.isOver = true) : isOpen st = 0 := if_pos h

/-- A job that is over does not run. -/
theorem isRunning_over (st : JobStatus) (h : st.isOver = true) : isRunning st = 0 := by
  cases st with
  | done | failed => rfl
  | pending | running => cases h

/-- A task that prepares its run, or has its passport ready or written, runs. -/
theorem status_of_early {ph : RunPhase ρ}
    (h : ph = .preparing ∨ ∃ p, ph = .checked p ∨ ph = .recorded p) : ph.status = .running := by
  rcases h with rfl | ⟨p, rfl | rfl⟩
  · rfl
  · rfl
  · rfl

/-- A task in which no handler takes a cancellation runs. -/
theorem status_of_out {ph : RunPhase ρ} (h : ph = .preparing ∨ ∃ p, ph = .checked p ∨
    ph = .recorded p ∨ ∃ error, ph = .failing p error ∨ ph = .failed p error) :
    ph.status = .running := by
  rcases h with h | ⟨p, h | h | ⟨error, rfl | rfl⟩⟩
  · exact status_of_early (.inl h)
  · exact status_of_early (.inr ⟨p, .inl h⟩)
  · exact status_of_early (.inr ⟨p, .inr h⟩)
  · rfl
  · rfl

/-- A task that computes, stores or has stored runs. -/
theorem status_of_late {ph : RunPhase ρ} {p : PreparedBacktest}
    (h : ph = .computing p ∨ ∃ r, ph = .storing p r ∨ ph = .stored p r) :
    ph.status = .running := by
  rcases h with rfl | ⟨r, rfl | rfl⟩
  · rfl
  · rfl
  · rfl

/-- A task that writes its error runs. -/
theorem status_of_writes {ph : RunPhase ρ} {p : PreparedBacktest} {error : String}
    (h : ph = .failing p error ∨ ph = .cancelling p ∧ error = cancelledText) :
    ph.status = .running := by
  rcases h with rfl | ⟨rfl, -⟩
  · rfl
  · rfl

namespace Counts

variable {maxConcurrent : ℕ} {maxPending maxJobs : ℤ} {s s' : BacktestService ρ}
  {log : BacktestLog ρ} {id : String}

/-- A service that has just been started. -/
theorem new (maxConcurrent : ℕ) (maxPending maxJobs : ℤ) :
    Counts maxConcurrent maxPending maxJobs
      (BacktestService.new maxConcurrent maxPending maxJobs : BacktestService ρ) [] where
  maxConcurrent_eq := rfl
  maxPending_eq := rfl
  maxJobs_eq := rfl
  balance _ _ := rfl
  places := Nat.zero_le _
  unfinished := le_max_right _ _
  registry := (le_max_right maxPending 0).trans (le_max_right _ _)

/-- A step that does not add a job: what is counted changes by what the task and its job change,
    and a job that is over is counted no more. -/
theorem change (h : Counts maxConcurrent maxPending maxJobs s log)
    (hsettings : SameSettings s s')
    (hlength : s'.jobs.entries.length = s.jobs.entries.length)
    {e : Entry (BacktestService ρ) (BacktestEvent ρ) Bool}
    (hbalance : ∀ w : JobStatus → ℕ, (∀ st, st.isOver = true → w st = 0) →
      tally w s'.jobs + (s.tasks.sum fun _ ph => w ph.status) + w .pending * leakedSlots log =
        tally w s.jobs + (s'.tasks.sum fun _ ph => w ph.status) +
          w .pending * leakStep (leakedSlots log) e)
    (hplaces : s'.placesTaken ≤ maxConcurrent) (hopen : s'.unfinished ≤ s.unfinished) :
    Counts maxConcurrent maxPending maxJobs s' (log ++ [e]) where
  maxConcurrent_eq := hsettings.1.trans h.maxConcurrent_eq
  maxPending_eq := hsettings.2.1.trans h.maxPending_eq
  maxJobs_eq := hsettings.2.2.trans h.maxJobs_eq
  balance w hw := by
    -- the balance is one of differences, so the old one and that of the step add up
    have hold := h.balance w hw
    have hnew := hbalance w hw
    rw [leakedSlots_concat]
    omega
  places := hplaces
  unfinished := (Int.ofNat_le.mpr hopen).trans h.unfinished
  registry := by
    rw [hlength]
    exact h.registry

variable {e : Entry (BacktestService ρ) (BacktestEvent ρ) Bool}

/-- Nothing that is counted changes. -/
theorem frame (h : Counts maxConcurrent maxPending maxJobs s log) (hsettings : SameSettings s s')
    (hjobs : s'.jobs = s.jobs) (htasks : s'.tasks = s.tasks)
    (hleak : leakStep (leakedSlots log) e = leakedSlots log) :
    Counts maxConcurrent maxPending maxJobs s' (log ++ [e]) := by
  refine h.change hsettings (by rw [hjobs]) (fun w hw => ?_) ?_ ?_
  · rw [hjobs, htasks, hleak]
  · rw [placesTaken, htasks]
    exact h.places
  · rw [BacktestService.unfinished, hjobs]
    exact le_rfl

/-- A task goes on, and its job keeps its status. -/
theorem goOn (h : Counts maxConcurrent maxPending maxJobs s log) {ph ph' : RunPhase ρ}
    {s₀ : BacktestService ρ} (hjobs : s₀.jobs = s.jobs) (htasks : s₀.tasks = s.tasks)
    (hsettings : SameSettings s s₀) (htask : s.tasks.get? id = some ph)
    (hstatus : ph'.status = ph.status)
    (hleak : leakStep (leakedSlots log) e = leakedSlots log) :
    Counts maxConcurrent maxPending maxJobs (s₀.goOn id ph') (log ++ [e]) := by
  rw [← htasks] at htask
  have hsum (w : JobStatus → ℕ) : ((s₀.goOn id ph').tasks.sum fun _ ph => w ph.status) =
      s.tasks.sum fun _ ph => w ph.status := by
    have hgoOn := sum_goOn s₀ (fun ph => w ph.status) htask ph'
    rw [hstatus, htasks] at hgoOn
    omega
  have hsettings' : SameSettings s (s₀.goOn id ph') := hsettings
  refine h.change hsettings' (congrArg (fun d => d.entries.length) hjobs) (fun w hw => ?_) ?_ ?_
  · have htally : tally w (s₀.goOn id ph').jobs = tally w s.jobs := congrArg (tally w) hjobs
    rw [htally, hsum w, hleak]
  · rw [placesTaken, hsum isRunning]
    exact h.places
  · exact (congrArg (tally isOpen) hjobs).le

/-- A job that runs is over, and so is its task. -/
theorem ends (h : Counts maxConcurrent maxPending maxJobs s log) (hsound : Sound s)
    {s₀ : BacktestService ρ} (hjobs : s₀.jobs = s.jobs) (htasks : s₀.tasks = s.tasks)
    (hsettings : SameSettings s s₀) {ph : RunPhase ρ} (htask : s.tasks.get? id = some ph)
    (hrunning : ph.status = .running) {status : JobStatus} (hover : status.isOver = true)
    (error : Option String) (hleak : leakStep (leakedSlots log) e = leakedSlots log) :
    Counts maxConcurrent maxPending maxJobs ((s₀.setJob id status error).endTask id)
      (log ++ [e]) := by
  have hagrees := hsound.agrees id
  rw [AgreesAt, htask] at hagrees
  obtain ⟨actor, hjob⟩ := hagrees.job
  rw [hrunning, ← hjobs] at hjob
  rw [← htasks] at htask
  obtain ⟨-, hset, -⟩ := setJob_frame s₀ id status error
  -- the job leaves the count and its task leaves the other side
  have htally (w : JobStatus → ℕ) (hw : ∀ st, st.isOver = true → w st = 0) :
      tally w ((s₀.setJob id status error).endTask id).jobs + w .running = tally w s.jobs := by
    have htally := tally_setJob s₀ w hjob status error
    rw [hw status hover, Nat.add_zero, hjobs] at htally
    exact htally
  have hsum (w : JobStatus → ℕ) :
      (((s₀.setJob id status error).endTask id).tasks.sum fun _ ph => w ph.status) + w .running =
        s.tasks.sum fun _ ph => w ph.status := by
    have herase := sum_endTask (s₀.setJob id status error) (fun ph => w ph.status)
      (hset ▸ htask)
    rw [hset, htasks, hrunning] at herase
    exact herase
  have hsettings' : SameSettings s ((s₀.setJob id status error).endTask id) := by
    obtain ⟨h₁, h₂, h₃⟩ := settings_setJob s₀ id status error
    exact ⟨h₁.trans hsettings.1, h₂.trans hsettings.2.1, h₃.trans hsettings.2.2⟩
  refine h.change hsettings' ?_ (fun w hw => ?_) ?_ ?_
  · exact (length_setJob s₀ id status error).trans (congrArg (fun d => d.entries.length) hjobs)
  · have hjobs' := htally w hw
    have htasks' := hsum w
    rw [hleak]
    omega
  · have htasks' := hsum isRunning
    have hplaces := h.places
    unfold placesTaken at hplaces ⊢
    omega
  · have hjobs' := htally isOpen isOpen_over
    unfold BacktestService.unfinished
    omega

/-- A job that waits gets a place. -/
theorem start (h : Counts maxConcurrent maxPending maxJobs s log) (hsound : Sound s)
    (htask : s.tasks.get? id = some .waiting) (hplace : s.placesTaken < s.maxConcurrent) :
    Counts maxConcurrent maxPending maxJobs ((s.setJob id .running none).goOn id .preparing)
      (log ++ [⟨s, .start id, true, (s.setJob id .running none).goOn id .preparing⟩]) := by
  have hagrees := hsound.agrees id
  rw [AgreesAt, htask] at hagrees
  obtain ⟨actor, hjob⟩ := hagrees.job
  obtain ⟨-, hset, -⟩ := setJob_frame s id .running none
  have htally (w : JobStatus → ℕ) :
      tally w ((s.setJob id .running none).goOn id .preparing).jobs + w .pending =
        tally w s.jobs + w .running := tally_setJob s w hjob .running none
  have hsum (w : JobStatus → ℕ) :
      (((s.setJob id .running none).goOn id .preparing).tasks.sum fun _ ph => w ph.status) +
        w .pending = (s.tasks.sum fun _ ph => w ph.status) + w .running := by
    have hgoOn := sum_goOn (s.setJob id .running none) (fun ph => w ph.status)
      (hset ▸ htask) .preparing
    rw [hset] at hgoOn
    exact hgoOn
  have hsettings : SameSettings s ((s.setJob id .running none).goOn id .preparing) :=
    settings_setJob s id .running none
  refine h.change hsettings (length_setJob s id .running none) (fun w hw => ?_) ?_ ?_
  · have hjobs' := htally w
    have htasks' := hsum w
    show _ = _ + w .pending * leakedSlots log
    omega
  · have htasks' := hsum isRunning
    rw [h.maxConcurrent_eq] at hplace
    have hone : isRunning .running = 1 ∧ isRunning .pending = 0 := ⟨rfl, rfl⟩
    unfold placesTaken at hplace ⊢
    omega
  -- it is as unfinished as before
  · have hjobs' := htally isOpen
    have hone : isOpen .running = 1 ∧ isOpen .pending = 1 := ⟨rfl, rfl⟩
    unfold BacktestService.unfinished
    omega

/-- A task that waits is cancelled, and its job stays as it is. -/
theorem cancelWaiting (h : Counts maxConcurrent maxPending maxJobs s log)
    (htask : s.tasks.get? id = some .waiting) :
    Counts maxConcurrent maxPending maxJobs (s.endTask id)
      (log ++ [⟨s, .cancel id, true, s.endTask id⟩]) := by
  have hsum (w : JobStatus → ℕ) :
      ((s.endTask id).tasks.sum fun _ ph => w ph.status) + w .pending =
        s.tasks.sum fun _ ph => w ph.status := sum_endTask s (fun ph => w ph.status) htask
  -- the job still counts as one that waits, but no task will ever end it
  have hleak : leakStep (leakedSlots log) ⟨s, .cancel id, true, s.endTask id⟩ =
      leakedSlots log + 1 := by
    unfold leakStep
    dsimp only
    rw [htask]
  have hsettings : SameSettings s (s.endTask id) := ⟨rfl, rfl, rfl⟩
  refine h.change hsettings rfl (fun w hw => ?_) ?_ le_rfl
  · have htasks' := hsum w
    have hjobs : tally w (s.endTask id).jobs = tally w s.jobs := rfl
    rw [hleak, Nat.mul_add_one]
    omega
  · have htasks' := hsum isRunning
    have hplaces := h.places
    unfold placesTaken at hplaces ⊢
    omega

/-- A new job. -/
theorem accept (h : Counts maxConcurrent maxPending maxJobs s log) (hsound : Sound s)
    {actor : String} (hroom : s.unfinished < s.maxPending) (hnew : id ∉ s.issued) :
    Counts maxConcurrent maxPending maxJobs (s.accept id actor)
      (log ++ [⟨s, .submit id actor, true, s.accept id actor⟩]) := by
  obtain ⟨hjob, htask, -⟩ := hsound.fresh id hnew
  have hevict := evict_spec s.maxJobs (s.jobs.insert id ⟨actor, .pending, none⟩)
  have htally (w : JobStatus → ℕ) (hw : ∀ st, st.isOver = true → w st = 0) :
      tally w (s.accept id actor).jobs = tally w s.jobs + w .pending := by
    have hinsert := s.jobs.sum_insert (fun _ j => w j.status) id ⟨actor, .pending, none⟩
    rw [hjob, Option.elim_none, Nat.add_zero] at hinsert
    exact (hevict.tally_eq w hw).trans hinsert
  have hsum (w : JobStatus → ℕ) : ((s.accept id actor).tasks.sum fun _ ph => w ph.status) =
      (s.tasks.sum fun _ ph => w ph.status) + w .pending := by
    have hinsert := s.tasks.sum_insert (fun _ ph => w ph.status) id .waiting
    rw [htask, Option.elim_none, Nat.add_zero] at hinsert
    exact hinsert
  have hopen : ((s.accept id actor).unfinished : ℤ) ≤ maxPending := by
    have hone : (s.accept id actor).unfinished = s.unfinished + 1 := htally isOpen isOpen_over
    rw [h.maxPending_eq] at hroom
    rw [hone]
    push_cast
    omega
  refine ⟨h.maxConcurrent_eq, h.maxPending_eq, h.maxJobs_eq, fun w hw => ?_, ?_,
    hopen.trans (le_max_left _ _), ?_⟩
  · rw [leakedSlots_concat, htally w hw, hsum w, h.balance w hw]
    show _ = _ + w .pending * leakedSlots log
    omega
  · rw [placesTaken, hsum isRunning]
    exact h.places
  -- where the registry stays too long, nothing in it is over
  · rcases hevict.length with hshort | hall
    · have hlength : ((s.accept id actor).jobs.entries.length : ℤ) ≤ maxJobs :=
        h.maxJobs_eq ▸ hshort
      exact hlength.trans (le_max_left _ _)
    · have hlength : ((s.accept id actor).jobs.entries.length : ℤ) =
          (s.accept id actor).unfinished := congrArg Nat.cast hall
      rw [hlength]
      exact (hopen.trans (le_max_left maxPending 0)).trans (le_max_right _ _)

/-- **One thing that happens.** -/
theorem step (h : Counts maxConcurrent maxPending maxJobs s log) (hsound : Sound s)
    {ev : BacktestEvent ρ} {answer : Bool} (hstep : Step s ev answer s') :
    Counts maxConcurrent maxPending maxJobs s' (log ++ [⟨s, ev, answer, s'⟩]) := by
  have hsame : SameSettings s s := ⟨rfl, rfl, rfl⟩
  -- a cancellation leaks a slot only where the task waits
  have hcancel {id : String} {s'' : BacktestService ρ} {ph : RunPhase ρ}
      (htask : s.tasks.get? id = some ph) (hph : ph.status = .running) :
      leakStep (leakedSlots log) ⟨s, .cancel id, true, s''⟩ = leakedSlots log := by
    unfold leakStep
    dsimp only
    rw [htask]
    cases ph with
    | waiting => cases hph
    | _ => rfl
  cases hstep with
  | refuse hfull => exact h.change hsame rfl (fun w hw => rfl) h.places le_rfl
  | accept hroom hnew => exact h.accept hsound hroom hnew
  | start htask hplace => exact h.start hsound htask hplace
  | duplicate htask hdup => exact h.ends hsound rfl rfl hsame htask rfl rfl _ rfl
  | prepared htask hdup => exact h.goOn rfl rfl hsame htask rfl rfl
  | conflict htask hconflict => exact h.ends hsound rfl rfl hsame htask rfl rfl _ rfl
  | @inserted id p htask hconflict =>
    have hsettings : SameSettings s (s.insertRun id p) := hsame
    exact h.goOn rfl rfl hsettings htask rfl rfl
  | begun htask => exact h.goOn rfl rfl hsame htask rfl rfl
  | mismatch htask hother => exact h.goOn rfl rfl hsame htask rfl rfl
  | computed htask hequal => exact h.goOn rfl rfl hsame htask rfl rfl
  | @stored id p r htask =>
    obtain ⟨hsettings, hjobs, htasks⟩ := settings_finishRun s id (storedRow r)
    exact h.goOn hjobs htasks hsettings htask rfl rfl
  | finished htask => exact h.ends hsound rfl rfl hsame htask rfl rfl _ rfl
  | raised htask hearly =>
    exact h.ends hsound rfl rfl hsame htask (status_of_early hearly) rfl _ rfl
  | failed htask hlate => exact h.goOn rfl rfl hsame htask (status_of_late hlate).symm rfl
  | @reported id error ph p htask hwrites =>
    obtain ⟨hsettings, hjobs, htasks⟩ := settings_finishRun s id (failedRow error)
    exact h.goOn hjobs htasks hsettings htask (status_of_writes hwrites).symm rfl
  | unreported htask hwrites =>
    exact h.ends hsound rfl rfl hsame htask (status_of_writes hwrites) rfl _ rfl
  | ended htask => exact h.ends hsound rfl rfl hsame htask rfl rfl _ rfl
  | cancelWaiting htask => exact h.cancelWaiting htask
  | cancelOut htask hout =>
    have hrunning := status_of_out hout
    exact h.ends hsound rfl rfl hsame htask hrunning rfl _ (hcancel htask hrunning)
  | cancelIn htask hlate =>
    have hrunning := status_of_late hlate
    exact h.goOn rfl rfl hsame htask hrunning.symm (hcancel htask hrunning)
  | @cancelAgain id p htask =>
    have hleak : leakStep (leakedSlots log) ⟨s, .cancel id, true, s.abandon id⟩ =
        leakedSlots log := hcancel htask rfl
    have hfail := h.ends hsound rfl rfl hsame htask rfl (rfl : JobStatus.failed.isOver = true)
      (some cancelledText) hleak
    exact ⟨hfail.maxConcurrent_eq, hfail.maxPending_eq, hfail.maxJobs_eq, hfail.balance,
      hfail.places, hfail.unfinished, hfail.registry⟩
  | @settled id horphan =>
    obtain ⟨hsettings, hjobs, htasks⟩ := settings_finishRun s id (failedRow cancelledText)
    have hsettings' : SameSettings s ((s.finishRun id (failedRow cancelledText)).settle id) :=
      hsettings
    exact h.frame hsettings' hjobs htasks rfl
  | @unsettled id horphan =>
    have hsettings : SameSettings s (s.settle id) := hsame
    exact h.frame hsettings rfl rfl rfl
  | crash =>
    refine ⟨h.maxConcurrent_eq, h.maxPending_eq, h.maxJobs_eq, fun w hw => ?_, Nat.zero_le _,
      le_max_right _ _, (le_max_right maxPending 0).trans (le_max_right _ _)⟩
    rw [leakedSlots_concat]
    rfl

end Counts

/-! ### Whole runs -/

/-- A service that runs one backtest at a time, of at most two that are not over, and remembers
    two. -/
def small : BacktestService ℕ := new 1 2 2

section Runs

variable {maxConcurrent : ℕ} {maxPending maxJobs : ℤ} {s : BacktestService ρ}
  {log : BacktestLog ρ}

/-- What holds of the service and its log after every run. -/
theorem counts_run (hrun : BacktestRun ρ (new maxConcurrent maxPending maxJobs) s log) :
    Sound s ∧ Counts maxConcurrent maxPending maxJobs s log := by
  induction hrun with
  | nil => exact ⟨Sound.new .., Counts.new ..⟩
  | snoc _ hstep ih => exact ⟨ih.1.step hstep, ih.2.step ih.1 hstep⟩

/-- The unfinished jobs are those of the tasks and of the slots that leaked. -/
theorem Counts.unfinished_eq (h : Counts maxConcurrent maxPending maxJobs s log) :
    s.unfinished = s.tasks.entries.length + leakedSlots log := by
  have hbalance := h.balance isOpen isOpen_over
  have hone : (s.tasks.sum fun _ ph => isOpen ph.status) = s.tasks.entries.length := by
    have hmap : s.tasks.entries.map (fun e => isOpen e.2.status) =
        s.tasks.entries.map fun _ => 1 := by
      refine List.map_congr_left fun e _ => ?_
      cases e.2 with
      | waiting => rfl
      | _ => rfl
    rw [Dict.sum, hmap]
    simp
  rw [hone] at hbalance
  rw [BacktestService.unfinished, hbalance]
  exact congrArg _ (Nat.one_mul _)

/-- A job that runs has a task in one of the places. -/
theorem Counts.running_le (h : Counts maxConcurrent maxPending maxJobs s log) :
    tally isRunning s.jobs ≤ maxConcurrent := by
  have hbalance := h.balance isRunning isRunning_over
  have hnone : isRunning .pending * leakedSlots log = 0 := Nat.zero_mul _
  rw [hnone, Nat.add_zero] at hbalance
  exact hbalance ▸ h.places

/-- A job is refused just where the queue is full. -/
theorem Step.refused {s s' : BacktestService ρ} {id actor : String} {answer : Bool}
    (h : Step s (.submit id actor) answer s') :
    answer = false ↔ s.maxPending ≤ s.unfinished := by
  cases h with
  | refuse hfull => exact iff_of_true rfl hfull
  | accept hroom => exact iff_of_false (fun h => Bool.noConfusion h) (not_le.mpr hroom)

/-- **How many backtests there are.**  In whatever order things happen: there are never more jobs
    that run than places, nor more unfinished ones than may be, and never more in the registry
    than its limit or the unfinished ones need; and each task has its job there, with the status
    that the task is in. -/
theorem queue_bounds (hrun : BacktestRun ρ (new maxConcurrent maxPending maxJobs) s log) :
    tally isRunning s.jobs ≤ maxConcurrent ∧
    (s.unfinished : ℤ) ≤ max maxPending 0 ∧
    (s.jobs.entries.length : ℤ) ≤ max maxJobs (max maxPending 0) ∧
    ∀ id ph, s.tasks.get? id = some ph →
      ∃ actor, s.jobs.get? id = some ⟨actor, ph.status, none⟩ := by
  obtain ⟨hsound, hcounts⟩ := counts_run hrun
  exact ⟨hcounts.running_le, hcounts.unfinished, hcounts.registry,
    fun id ph htask => (hsound.taskAt htask).job⟩

/-- The first of three jobs fails and makes room for the third in the registry; the second runs
    then, and the third waits for the place. -/
theorem queue_bounds_started :
    let s := (small.accept "r0" "op").accept "r1" "op"
    let s := ((s.setJob "r0" .running none).goOn "r0" .preparing).failTask "r0" "no data"
    let s := s.accept "r2" "op"
    let s := (s.setJob "r1" .running none).goOn "r1" .preparing
    (s.jobs.get? "r0").isNone = true ∧ tally isRunning s.jobs ≤ 1 ∧ (s.unfinished : ℤ) ≤ 2 ∧
      (∃ actor, s.jobs.get? "r1" = some ⟨actor, .running, none⟩) ∧
      ∃ actor, s.jobs.get? "r2" = some ⟨actor, .pending, none⟩ := by
  have hrun : BacktestRun ℕ small _ _ :=
    (((((Run.nil.snoc (@Step.accept ℕ _ "r0" "op" (by decide) (by decide))).snoc
      (@Step.accept ℕ _ "r1" "op" (by decide +kernel) (by decide))).snoc
      (@Step.start ℕ _ "r0" rfl (by decide +kernel))).snoc
      (@Step.raised ℕ _ "r0" "no data" .preparing rfl (.inl rfl))).snoc
      (@Step.accept ℕ _ "r2" "op" (by decide +kernel) (by decide))).snoc
      (@Step.start ℕ _ "r1" rfl (by decide +kernel))
  obtain ⟨hrunning, hopen, -, hjob⟩ := queue_bounds hrun
  exact ⟨rfl, hrunning, hopen, hjob "r1" .preparing rfl, hjob "r2" .waiting rfl⟩

/-- **The slots of the queue.**  A slot is taken by each task, and by each job whose task was
    cancelled while it waited, until the process ends: a backtest is refused just when these two
    fill the queue. -/
theorem slots_leak (hrun : BacktestRun ρ (new maxConcurrent maxPending maxJobs) s log)
    {pre post : BacktestLog ρ} {e : Entry (BacktestService ρ) (BacktestEvent ρ) Bool}
    (hlog : log = pre ++ e :: post) {id actor : String} (hsubmit : e.call = .submit id actor) :
    e.answer = false ↔ maxPending ≤ e.before.tasks.entries.length + leakedSlots pre := by
  obtain ⟨hbefore, hstep⟩ := hrun.before_entry hlog
  obtain ⟨-, hcounts⟩ := counts_run hbefore
  rw [hsubmit] at hstep
  rw [hstep.refused, hcounts.maxPending_eq, hcounts.unfinished_eq]
  push_cast
  rfl

/-- One of two jobs is cancelled before it starts, and with the other it fills the queue. -/
theorem slots_leak_refused :
    let s := (small.accept "r0" "op").accept "r1" "op"
    (2 : ℤ) ≤ (s.endTask "r0").tasks.entries.length + leakedSlots
      [⟨small, .submit "r0" "op", true, small.accept "r0" "op"⟩,
        ⟨small.accept "r0" "op", .submit "r1" "op", true, s⟩,
        ⟨s, .cancel "r0", true, s.endTask "r0"⟩] := by
  have hrun : BacktestRun ℕ small _ _ :=
    (((Run.nil.snoc (@Step.accept ℕ _ "r0" "op" (by decide) (by decide))).snoc
      (@Step.accept ℕ _ "r1" "op" (by decide +kernel) (by decide))).snoc
      (@Step.cancelWaiting ℕ _ "r0" rfl)).snoc
        (@Step.refuse ℕ _ "r2" "op" (by decide +kernel))
  exact (slots_leak hrun (rfl : _ = [_, _, _] ++ _ :: []) rfl).mp rfl

end Runs

end BacktestService

end FuzzHelm
