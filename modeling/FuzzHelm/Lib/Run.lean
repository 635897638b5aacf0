import Mathlib.Data.List.Basic

namespace Lib

/-!
# Runs of a machine

A machine takes calls one at a time; a call that finds the state `s` and is answered `o`
leaves a state `s'`.  Machines are given by the relation `step s i o s'`, so that a
deterministic machine, one whose calls may raise and one with an environment are all
instances.  A `Run` is a finite sequence of calls from an initial state, together with the
log of what each call found, was given, answered and left.

* `bind_eq_ok` — what a successful sequence of two fallible computations says about each;
* `exists_mapM_ok` — a fallible function over a list of inputs it succeeds on;
* `Run.invariant` — a property of the state and of the log that one call keeps holds after
  every run;
* `Run.log_forall` — a fact about a single call, proved under an invariant, holds of every
  entry of the log;
* `Run.simulates` — a machine whose calls are steps of another one runs as that one does;
* `exec` / `execE` — the run of a deterministic machine, of one whose calls may raise, on a
  given sequence of calls.
-/

universe u v

/-- A sequence of fallible computations succeeds exactly when its first part does and the
    rest does on its result. -/
theorem bind_eq_ok {ε : Type u} {α β : Type v} {x : Except ε α} {f : α → Except ε β} {b : β} :
    (x >>= f) = .ok b ↔ ∃ a, x = .ok a ∧ f a = .ok b := by
  cases x with
  | error e => simp [bind, Except.bind]
  | ok a => simp [bind, Except.bind]

/-- A sequence of fallible computations succeeds where each of them does. -/
theorem exists_ok_bind {ε α β : Type} {x : Except ε α} {f : α → Except ε β}
    (hx : ∃ a, x = .ok a) (hf : ∀ a, ∃ b, f a = .ok b) : ∃ b, (x >>= f) = .ok b := by
  obtain ⟨a, rfl⟩ := hx
  exact hf a

/-- A fallible function that succeeds on every member succeeds on the list. -/
theorem exists_mapM_ok {ε α β : Type} {f : α → Except ε β} {P : α → β → Prop} {xs : List α}
    (h : ∀ x ∈ xs, ∃ y, f x = .ok y ∧ P x y) :
    ∃ ys, xs.mapM f = .ok ys ∧ List.Forall₂ P xs ys := by
  induction xs with
  | nil => exact ⟨[], rfl, .nil⟩
  | cons x xs ih =>
    obtain ⟨y, hy, hp⟩ := h x List.mem_cons_self
    obtain ⟨ys, hys, hall⟩ := ih fun x' hx' => h x' (List.mem_cons_of_mem x hx')
    refine ⟨y :: ys, ?_, .cons hp hall⟩
    rw [List.mapM_cons, hy, hys]
    rfl

/-- One call of a run: the state it found, its input, what it answered, the state it left. -/
structure Entry (σ ι ω : Type*) where
  before : σ
  call : ι
  answer : ω
  after : σ

variable {σ ι ω : Type*}

/-- `Run step init s log`: some calls lead from `init` to `s`, and `log` lists them. -/
inductive Run (step : σ → ι → ω → σ → Prop) (init : σ) : σ → List (Entry σ ι ω) → Prop
  | nil : Run step init init []
  | snoc {s log i o s'} : Run step init s log → step s i o s' →
      Run step init s' (log ++ [⟨s, i, o, s'⟩])

namespace Run

variable {step : σ → ι → ω → σ → Prop} {init : σ}

/-- **Invariant rule.** What holds at the start and is kept by every call holds after
    every run. -/
theorem invariant (I : σ → List (Entry σ ι ω) → Prop) (h0 : I init [])
    (hstep : ∀ s log i o s', I s log → step s i o s' → I s' (log ++ [⟨s, i, o, s'⟩]))
    {s : σ} {log : List (Entry σ ι ω)} (h : Run step init s log) : I s log := by
  induction h with
  | nil => exact h0
  | snoc _ hs ih => exact hstep _ _ _ _ _ ih hs

/-- Every prefix of a log is the log of a run that ends where the next call begins. -/
theorem before_entry {s : σ} {log pre post : List (Entry σ ι ω)} {e : Entry σ ι ω}
    (h : Run step init s log) (hlog : log = pre ++ e :: post) :
    Run step init e.before pre ∧ step e.before e.call e.answer e.after := by
  induction h generalizing post with
  | nil => simp at hlog
  | snoc hr hs ih =>
    rcases List.eq_nil_or_concat post with rfl | ⟨post', x, rfl⟩
    · obtain ⟨rfl, he⟩ := List.append_inj' hlog rfl
      rw [List.cons.injEq] at he
      obtain ⟨rfl, -⟩ := he
      exact ⟨hr, hs⟩
    · rw [List.concat_eq_append, ← List.cons_append, ← List.append_assoc] at hlog
      exact ih (List.append_inj' hlog rfl).1

/-- What comes after an entry of a log is the log of a run from where that call ended. -/
theorem after_entry {s : σ} {pre post : List (Entry σ ι ω)} {e : Entry σ ι ω}
    (h : Run step init s (pre ++ e :: post)) : Run step e.after s post := by
  generalize hlog : pre ++ e :: post = log at h
  induction h generalizing post with
  | nil => simp at hlog
  | snoc hr hs ih =>
    rcases List.eq_nil_or_concat post with rfl | ⟨post', x, rfl⟩
    · obtain ⟨-, he⟩ := List.append_inj' hlog rfl
      rw [List.cons.injEq] at he
      obtain ⟨rfl, -⟩ := he
      exact .nil
    · rw [List.concat_eq_append, ← List.cons_append, ← List.append_assoc] at hlog
      obtain ⟨hpre, hx⟩ := List.append_inj' hlog rfl
      rw [List.cons.injEq] at hx
      obtain ⟨rfl, -⟩ := hx
      rw [List.concat_eq_append]
      exact (ih hpre).snoc hs

/-- **Log rule.** A fact about one call that follows from an invariant holds of every call
    of every run, together with the log up to it. -/
theorem log_forall (I : σ → List (Entry σ ι ω) → Prop) (h0 : I init [])
    (hstep : ∀ s log i o s', I s log → step s i o s' → I s' (log ++ [⟨s, i, o, s'⟩]))
    {P : List (Entry σ ι ω) → Entry σ ι ω → Prop}
    (hP : ∀ s log i o s', I s log → step s i o s' → P log ⟨s, i, o, s'⟩)
    {s : σ} {log pre post : List (Entry σ ι ω)} {e : Entry σ ι ω}
    (h : Run step init s log) (hlog : log = pre ++ e :: post) : P pre e := by
  obtain ⟨hrun, hcall⟩ := h.before_entry hlog
  exact hP _ _ _ _ _ (invariant I h0 hstep hrun) hcall

/-- The calls of a machine that are calls of another one. -/
theorem mono {step' : σ → ι → ω → σ → Prop}
    (hstep : ∀ s i o s', step s i o s' → step' s i o s')
    {s : σ} {log : List (Entry σ ι ω)} (h : Run step init s log) : Run step' init s log := by
  induction h with
  | nil => exact .nil
  | snoc _ hs ih => exact ih.snoc (hstep _ _ _ _ hs)

/-- **Simulation.** When every call of a machine is, seen through `f` and `g`, a step of another
    machine, its runs are runs of that one. -/
theorem simulates {σ' ι' ω' : Type*} {step' : σ' → ι' → ω' → σ' → Prop} (I : σ → Prop)
    (f : σ → σ') (g : Entry σ ι ω → ι' × ω') (h0 : I init)
    (hstep : ∀ s i o s', I s → step s i o s' →
      I s' ∧ step' (f s) (g ⟨s, i, o, s'⟩).1 (g ⟨s, i, o, s'⟩).2 (f s'))
    {s : σ} {log : List (Entry σ ι ω)} (h : Run step init s log) :
    I s ∧ Run step' (f init) (f s)
      (log.map fun e => ⟨f e.before, (g e).1, (g e).2, f e.after⟩) := by
  induction h with
  | nil => exact ⟨h0, .nil⟩
  | snoc _ hs ih =>
    obtain ⟨hI, hrun⟩ := ih
    obtain ⟨hI', hs'⟩ := hstep _ _ _ _ hI hs
    rw [List.map_append]
    exact ⟨hI', hrun.snoc hs'⟩

end Run

/-! ### Deterministic machines -/

section Exec

variable (f : σ → ι → ω × σ)

/-- The calls `is` made one after another from `s`, with their log appended to `log`. -/
def execFrom (s : σ) (log : List (Entry σ ι ω)) : List ι → σ × List (Entry σ ι ω)
  | [] => (s, log)
  | i :: is => execFrom (f s i).2 (log ++ [⟨s, i, (f s i).1, (f s i).2⟩]) is

/-- The calls `is` made one after another from `s`: the last state and the log. -/
def exec (s : σ) (is : List ι) : σ × List (Entry σ ι ω) := execFrom f s [] is

/-- Executing calls of a deterministic machine is a run of it. -/
theorem Run.exec (init : σ) (is : List ι) :
    Run (fun s i o s' => f s i = (o, s')) init (exec f init is).1 (exec f init is).2 := by
  have key (s : σ) (log : List (Entry σ ι ω)) (is : List ι)
      (h : Run (fun s i o s' => f s i = (o, s')) init s log) :
      Run (fun s i o s' => f s i = (o, s')) init (execFrom f s log is).1
        (execFrom f s log is).2 := by
    induction is generalizing s log with
    | nil => exact h
    | cons i is ih => exact ih _ _ (h.snoc rfl)
  exact key init [] is .nil

/-- The log of an execution lists the calls that were given. -/
theorem calls_exec (init : σ) (is : List ι) : (exec f init is).2.map Entry.call = is := by
  have key (is : List ι) : ∀ (s : σ) (log : List (Entry σ ι ω)),
      (execFrom f s log is).2.map Entry.call = log.map Entry.call ++ is := by
    induction is with
    | nil => exact fun s log => (List.append_nil _).symm
    | cons i is ih =>
      intro s log
      rw [execFrom, ih]
      simp
  exact key is init []

end Exec

section ExecE

variable {ε : Type*} (f : σ → ι → Except ε (ω × σ))

/-- The calls `is` made one after another from `s`, up to the first that raises. -/
def execFromE (s : σ) (log : List (Entry σ ι ω)) : List ι → Except ε (σ × List (Entry σ ι ω))
  | [] => .ok (s, log)
  | i :: is =>
    match f s i with
    | .error e => .error e
    | .ok (o, s') => execFromE s' (log ++ [⟨s, i, o, s'⟩]) is

/-- The calls `is` made one after another from `s`: the last state and the log. -/
def execE (s : σ) (is : List ι) : Except ε (σ × List (Entry σ ι ω)) := execFromE f s [] is

/-- Executing calls none of which raises is a run of the calls that return. -/
theorem Run.execE {init s : σ} {log : List (Entry σ ι ω)} {is : List ι}
    (h : execE f init is = .ok (s, log)) :
    Run (fun s i o s' => f s i = .ok (o, s')) init s log := by
  have key (is : List ι) : ∀ (s₀ : σ) (log₀ : List (Entry σ ι ω)),
      Run (fun s i o s' => f s i = .ok (o, s')) init s₀ log₀ →
        execFromE f s₀ log₀ is = .ok (s, log) →
        Run (fun s i o s' => f s i = .ok (o, s')) init s log := by
    induction is with
    | nil =>
      intro s₀ log₀ hrun hexec
      cases hexec
      exact hrun
    | cons i is ih =>
      intro s₀ log₀ hrun hexec
      rw [execFromE] at hexec
      split at hexec
      · cases hexec
      · rename_i o s' hf
        exact ih s' _ (hrun.snoc hf) hexec
  exact key is init [] .nil h

/-- The log of an execution lists the calls that were given. -/
theorem calls_execE {init s : σ} {log : List (Entry σ ι ω)} {is : List ι}
    (h : execE f init is = .ok (s, log)) : log.map Entry.call = is := by
  have key (is : List ι) : ∀ (s₀ : σ) (log₀ : List (Entry σ ι ω)),
      execFromE f s₀ log₀ is = .ok (s, log) → log.map Entry.call = log₀.map Entry.call ++ is := by
    induction is with
    | nil =>
      intro s₀ log₀ hexec
      cases hexec
      rw [List.append_nil]
    | cons i is ih =>
      intro s₀ log₀ hexec
      rw [execFromE] at hexec
      split at hexec
      · cases hexec
      · rw [ih _ _ hexec]
        simp
  simpa using key is init [] h

/-- An execution that is seen to return a result with a given property. -/
theorem execE_any (init : σ) (is : List ι) (p : σ × List (Entry σ ι ω) → Bool)
    (h : (execE f init is).toOption.any p = true) :
    ∃ s log, execE f init is = .ok (s, log) ∧ p (s, log) = true := by
  cases hr : execE f init is with
  | error e =>
    rw [hr] at h
    cases h
  | ok r =>
    rw [hr] at h
    exact ⟨r.1, r.2, rfl, h⟩

variable {f} {s t : σ} {i : ι} {is : List ι} {log : List (Entry σ ι ω)}

/-- A run from a log is a run, with its log behind the other. -/
theorem execFromE_eq_ok (log₀ : List (Entry σ ι ω)) : execFromE f s log₀ is = .ok (t, log) ↔
    ∃ rest, execE f s is = .ok (t, rest) ∧ log = log₀ ++ rest := by
  rw [execE]
  induction is generalizing s log₀ log with
  | nil => simp [execFromE, eq_comm, and_comm]
  | cons i is ih =>
    rw [execFromE, execFromE]
    cases f s i with
    | error e => simp
    | ok r =>
      dsimp only
      rw [ih (log₀ ++ _)]
      constructor
      · rintro ⟨rest, hrest, rfl⟩
        exact ⟨_, (ih _).mpr ⟨rest, hrest, rfl⟩, by simp⟩
      · rintro ⟨_, hexec, rfl⟩
        obtain ⟨rest, hrest, heq⟩ := (ih _).mp hexec
        exact ⟨rest, hrest, by rw [heq, List.nil_append, List.append_assoc]⟩

/-- The first call and the rest. -/
theorem execE_cons_eq_ok : execE f s (i :: is) = .ok (t, log) ↔
    ∃ o s' rest, f s i = .ok (o, s') ∧ execE f s' is = .ok (t, rest) ∧
      log = ⟨s, i, o, s'⟩ :: rest := by
  rw [execE, execFromE]
  cases f s i with
  | error e => simp
  | ok r =>
    obtain ⟨o, s'⟩ := r
    dsimp only
    rw [execFromE_eq_ok]
    constructor
    · rintro ⟨rest, hrest, rfl⟩
      exact ⟨o, s', rest, rfl, hrest, rfl⟩
    · rintro ⟨_, _, rest, heq, hrest, rfl⟩
      cases heq
      exact ⟨rest, hrest, rfl⟩

/-- **Two machines in step.**  Where a call of the one is answered the same by the other just
    when it meets a condition, the answers of a run are the same just when all its calls do. -/
theorem execE_lockstep {σ' : Type*} {f' : σ' → ι → Except ε (ω × σ')} {R : σ → σ' → Prop}
    {C : σ → ι → Prop}
    (hsame : ∀ s s' i o t, R s s' → f s i = .ok (o, t) →
      ((∃ t', f' s' i = .ok (o, t')) ↔ C s i))
    (hnext : ∀ s s' i o t t', R s s' → f s i = .ok (o, t) → f' s' i = .ok (o, t') → R t t')
    {s' : σ'} (hR : R s s') (h : execE f s is = .ok (t, log)) :
    (∃ t' log', execE f' s' is = .ok (t', log') ∧
      log'.map Entry.answer = log.map Entry.answer) ↔ ∀ e ∈ log, C e.before e.call := by
  -- by induction on the calls; equal answers of the first call make the rest comparable
  induction is generalizing s s' log with
  | nil =>
    cases h
    exact ⟨fun _ => List.forall_mem_nil _, fun _ => ⟨s', [], rfl, rfl⟩⟩
  | cons i is ih =>
    obtain ⟨o, s₁, rest, hf, hrest, rfl⟩ := execE_cons_eq_ok.mp h
    rw [List.forall_mem_cons, ← hsame s s' i o s₁ hR hf]
    -- answers that agree: the call was accepted, and so were the later ones
    constructor
    · rintro ⟨t', log', hexec, hanswers⟩
      obtain ⟨o', s₁', rest', hf', hrest', rfl⟩ := execE_cons_eq_ok.mp hexec
      rw [List.map_cons, List.map_cons, List.cons.injEq] at hanswers
      obtain ⟨ho, hanswers⟩ := hanswers
      dsimp only at ho
      subst ho
      exact ⟨⟨s₁', hf'⟩, (ih (hnext _ _ _ _ _ _ hR hf hf') hrest).mp
        ⟨t', rest', hrest', hanswers⟩⟩
    · rintro ⟨⟨s₁', hf'⟩, hall⟩
      obtain ⟨t', rest', hrest', hanswers⟩ :=
        (ih (hnext _ _ _ _ _ _ hR hf hf') hrest).mpr hall
      exact ⟨t', _, execE_cons_eq_ok.mpr ⟨o, s₁', rest', hf', hrest', rfl⟩, by simp [hanswers]⟩

end ExecE

end Lib
