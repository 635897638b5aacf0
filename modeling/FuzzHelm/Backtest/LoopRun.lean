import FuzzHelm.Backtest.Decide

namespace FuzzHelm

open Lib

/-!
# Runs of the loop

Steps, and between them whatever the operator does: trips, releases, new limits, another
series of funding rates.  Three laws hold over all such runs.

* `LoopCall` / `TradingLoop.call` — one call;
* `Follows` — the loop between two bars follows a plan;
* `Follows.step` — a step takes the plan through the latch, a bar and a decision;
* `LoopHistory` — what a run keeps;
* `no_new_exposure`, `halted_flattens`, `position_protected` — the laws.
-/

/-! ### Calls -/

/-- The calls of the loop. -/
inductive LoopCall where
  | step (inp : StepInput)
  | trip (reason : String) (tsNs : Option ℤ)
  | releaseSwitch (actorRole : Role) (actor : Option String) (tsNs : Option ℤ)
  | releaseHalt (actorRole : Role) (actor : Option String)
  | applyRiskLimits (limits : LimitsCfg) (stateMachine : StateMachineCfg)
  | setFundingSeries (series : List (ℤ × Decimal))

/-- What the calls of the loop answer. -/
inductive LoopAnswer where
  | stepped (r : StepResult)
  | done

/-- The result of a step. -/
def LoopAnswer.result : LoopAnswer → Option StepResult
  | .stepped r => some r
  | .done => none

namespace TradingLoop

/-- The loop with another risk machine. -/
def withFsm (l : TradingLoop) (fsm : RiskStateMachine) : TradingLoop := { l with fsm := fsm }

/-- One call on the loop; the kill-switch is the one of the machine. -/
def call (l : TradingLoop) : LoopCall → Except PyError (LoopAnswer × TradingLoop)
  | .step inp => do
    let (r, l') ← l.step inp
    return (.stepped r, l')
  | .trip reason tsNs =>
    .ok (.done, l.withFsm { l.fsm with
      killswitch := (l.fsm.killswitch.trip (some l.clock.t) reason tsNs).2 })
  | .releaseSwitch actorRole actor tsNs =>
    let (answer, killswitch) := l.fsm.killswitch.release (some l.clock.t) actorRole actor tsNs
    do
      let _ ← answer
      return (.done, l.withFsm { l.fsm with killswitch := killswitch })
  | .releaseHalt actorRole actor =>
    let (answer, fsm) := l.fsm.release (some l.clock.t) actorRole actor
    do
      let _ ← answer
      return (.done, l.withFsm fsm)
  | .applyRiskLimits limits stateMachine => .ok (.done, l.applyRiskLimits limits stateMachine)
  | .setFundingSeries series => .ok (.done, l.setFundingSeries series)

end TradingLoop

/-- A call that returns. -/
def LoopStep (l : TradingLoop) (c : LoopCall) (a : LoopAnswer) (l' : TradingLoop) : Prop :=
  l.call c = .ok (a, l')

/-- One call of a loop with what was before it and after it. -/
abbrev LoopEntry := Entry TradingLoop LoopCall LoopAnswer

/-- The log of a run of the loop. -/
abbrev LoopLog := List LoopEntry

namespace LoopLog

/-- The results of the steps of a run. -/
def steps (log : LoopLog) : List StepResult := log.filterMap fun e => e.answer.result

/-- The decisions of a run. -/
def decisions (log : LoopLog) : List DecisionEntry := log.steps.filterMap StepResult.decision

end LoopLog

/-! ### One step -/

/-- **Between two bars** the loop follows the plan: it represents it, at the last bar that the
    broker has seen. -/
structure Follows (l : TradingLoop) (p : Plan) : Prop where
  represents : ∃ st, Represents l st p ∧ st.lastOpenNs = l.lastOpen
  dated : p.Dated l.lastOpen

/-- The account holds the position of the plan. -/
theorem Follows.qty {l : TradingLoop} {p : Plan} (h : Follows l p) :
    l.positionQty = p.position := by
  obtain ⟨st, hrep, -⟩ := h.represents
  exact hrep.qty

/-- What a step does to the plan `p`: the latch, the bar, the decision. -/
structure StepLaw (l : TradingLoop) (p : Plan) (r : StepResult) (l' : TradingLoop) (p' : Plan) :
    Prop where
  bar : ∃ synthetic p₁ halted,
    Plan.Bar synthetic (if l.latched then p.latch else p) r.fills p₁ ∧
    Plan.Decide halted r.openTimeNs p₁ p' ∧
    (r.decided = true → r.riskState = .halted → halted = true)
  follows : Follows l' p'
  lastOpen : l'.lastOpen = some r.openTimeNs
  later : ∀ last, l.lastOpen = some last → last < r.openTimeNs
  decision : ∀ D, r.decision = some D → D.openTimeNs = r.openTimeNs
  opening : ∀ c t s d, p'.pending = .opening c t s d → ∃ D, r.decision = some D ∧
    D.stopPrice = s.map Protection.price ∧ t = D.targetSide * D.targetQty
  asks : ∀ D, r.decision = some D → Asks p' D.orderIds (D.targetSide * D.targetQty)
  roles : l.latched = true → ∀ f ∈ r.fills, ∃ record,
    l'.orders.get? f.clientOrderId = some record ∧
      record.role ≠ Action.enter.role ∧ record.role ≠ Action.flip.role

/-- **Step lemma**: a step of the loop is one step of the plan. -/
theorem Follows.step {l l' : TradingLoop} {p : Plan} {inp : StepInput} {r : StepResult}
    (h : Follows l p) (hl : l.step inp = .ok (r, l')) : ∃ p', StepLaw l p r l' p' := by
  obtain ⟨st, hrep, hlast⟩ := h.represents
  rw [TradingLoop.step, bind_eq_ok] at hl
  obtain ⟨l₁, hbegin, hl⟩ := hl
  rw [bind_eq_ok] at hl
  obtain ⟨⟨fills, charges, acc, updates, l₂⟩, hbook, hl⟩ := hl
  rw [bind_eq_ok] at hl
  obtain ⟨⟨equity, tr, l₃⟩, hvalue, hl⟩ := hl
  rw [bind_eq_ok] at hl
  obtain ⟨⟨decision, l₄⟩, hdecide, hl⟩ := hl
  cases hl
  obtain ⟨st₁, h₁, hk₁, hclock₁, hlast₁⟩ := hrep.beginBar h.dated hbegin
  obtain ⟨synthetic, st₂, p₂, hbar, h₂, hk₂, hlater, hopen₂, hclose₂, hroles⟩ :=
    h₁.bookBar hclock₁.le hbook
  obtain ⟨h₃, hk₃, horders₃, hclock₃⟩ := h₂.valueBar hvalue
  obtain ⟨st₄, p', h₄, hk₄, hstate, hlast₄, hdec, hopen, hopening, hasks⟩ :=
    h₃.decideBar hbar.pending hclose₂ hclock₃.ge hdecide
  have hdated : (if l.latched then p.latch else p).Dated l.lastOpen := by
    split
    · exact h.dated.latched
    · exact h.dated
  have hlater' : ∀ last, l.lastOpen = some last → last < inp.bar.openTimeNs := by
    intro last hl₀
    refine hlater last ?_
    rw [hlast₁, hlast, hl₀]
  refine ⟨p', ⟨⟨synthetic, p₂, _, hbar, hdec, fun hdecided hhalted => ?_⟩,
    ⟨⟨st₄, { h₄ with }, hlast₄.trans hopen₂⟩, (hdated.bar hlater' hbar).decide hdec⟩, rfl, hlater',
    hopen, hopening, hasks, fun hlatched f hf => ?_⟩⟩
  · -- the decision does not move the risk machine
    have hs : l₃.fsm.state = .halted := hstate.symm.trans hhalted
    rw [TradingLoop.latched, hs]
    exact hdecided
  -- a latched plan has nothing that opens, so that no fill is of an entry
  · obtain ⟨record, hr, hne⟩ := hroles (fun c t s d hp => by
      rw [if_pos hlatched] at hp
      rcases Plan.latch_pending (p := p) with hidle | ⟨c', hclose⟩
      · rw [hidle] at hp
        cases hp
      · rw [hclose] at hp
        cases hp) f hf
    rw [← horders₃] at hr
    exact ⟨record, hk₄.records _ record hr, hne⟩

/-- The calls between two steps do not touch the plan. -/
theorem Follows.call {l l' : TradingLoop} {p : Plan} {c : LoopCall} {a : LoopAnswer}
    (h : Follows l p) (hl : l.call c = .ok (a, l')) :
    (∃ inp r, c = .step inp ∧ a = .stepped r ∧ l.step inp = .ok (r, l')) ∨
      (a = .done ∧ Follows l' p ∧ l'.lastOpen = l.lastOpen) := by
  obtain ⟨⟨st, hrep, hlast⟩, hdated⟩ := h
  cases c with
  -- the step is the one call that the plan moves with
  | step inp =>
    rw [TradingLoop.call, bind_eq_ok] at hl
    obtain ⟨⟨r, l₁⟩, hstep, hl⟩ := hl
    cases hl
    exact .inl ⟨inp, r, rfl, rfl, hstep⟩
  -- every other call leaves broker, orders and plan alone
  | trip reason tsNs =>
    cases hl
    exact .inr ⟨rfl, ⟨⟨st, { hrep with }, hlast⟩, hdated⟩, rfl⟩
  | releaseSwitch actorRole actor tsNs =>
    rw [TradingLoop.call] at hl
    obtain ⟨answer, -, hl⟩ := bind_eq_ok.mp hl
    cases hl
    exact .inr ⟨rfl, ⟨⟨st, { hrep with }, hlast⟩, hdated⟩, rfl⟩
  | releaseHalt actorRole actor =>
    rw [TradingLoop.call] at hl
    obtain ⟨answer, -, hl⟩ := bind_eq_ok.mp hl
    cases hl
    exact .inr ⟨rfl, ⟨⟨st, { hrep with }, hlast⟩, hdated⟩, rfl⟩
  | applyRiskLimits limits stateMachine =>
    cases hl
    exact .inr ⟨rfl, ⟨⟨st, { hrep with }, hlast⟩, hdated⟩, rfl⟩
  | setFundingSeries series =>
    cases hl
    exact .inr ⟨rfl, ⟨⟨st, { hrep with }, hlast⟩, hdated⟩, rfl⟩

/-! ### Whole runs -/

/-- The decision `d` of the run has asked for the position `target` with the stop `stop`. -/
def Decided (log : LoopLog) (d : ℤ) (target : Decimal) (stop : Option Protection) : Prop :=
  ∃ D ∈ log.decisions, D.openTimeNs = d ∧ D.stopPrice = stop.map Protection.price ∧
    target = D.targetSide * D.targetQty

/-- **What a run keeps**: the loop follows a plan whose every part has been decided, by
    decisions of different bars; after a halted decision the plan flattens. -/
structure LoopHistory (l : TradingLoop) (log : LoopLog) : Prop where
  plan : ∃ p, Follows l p ∧ p.Backed (Decided log) ∧
    ∀ r, log.steps.getLast? = some r → r.decided = true → r.riskState = .halted → p.Flattening
  dates : ∀ D ∈ log.decisions, ∃ t, l.lastOpen = some t ∧ D.openTimeNs ≤ t
  distinct : log.decisions.Pairwise fun D D' => D.openTimeNs < D'.openTimeNs

section History

variable {l l' : TradingLoop} {log : LoopLog} {c : LoopCall} {a : LoopAnswer} {r : StepResult}

/-- A step adds its result to those of the log. -/
theorem LoopLog.steps_snoc_stepped :
    LoopLog.steps (log ++ [⟨l, c, .stepped r, l'⟩]) = log.steps ++ [r] := by
  simp [LoopLog.steps, LoopAnswer.result]

/-- A call that is no step adds nothing. -/
theorem LoopLog.steps_snoc_done :
    LoopLog.steps (log ++ [⟨l, c, .done, l'⟩]) = log.steps := by
  simp [LoopLog.steps, LoopAnswer.result]

/-- A step adds its decision, if it has made one. -/
theorem LoopLog.decisions_snoc :
    LoopLog.decisions (log ++ [⟨l, c, .stepped r, l'⟩]) = log.decisions ++ r.decision.toList := by
  rw [LoopLog.decisions, LoopLog.steps_snoc_stepped, List.filterMap_append]
  cases hr : r.decision <;> simp [LoopLog.decisions, hr]

/-- What has been decided stays decided. -/
theorem Decided.snoc {d : ℤ} {target : Decimal} {stop : Option Protection}
    (h : Decided log d target stop) (e : LoopEntry) :
    Decided (log ++ [e]) d target stop := by
  obtain ⟨D, hD, hrest⟩ := h
  refine ⟨D, ?_, hrest⟩
  rw [LoopLog.decisions, LoopLog.steps, List.filterMap_append, List.filterMap_append]
  exact List.mem_append_left _ hD

/-- **Step lemma**: the history goes on by one step. -/
theorem LoopHistory.step {inp : StepInput} (h : LoopHistory l log)
    (hl : l.step inp = .ok (r, l')) :
    LoopHistory l' (log ++ [⟨l, .step inp, .stepped r, l'⟩]) := by
  obtain ⟨⟨p, hfollows, hbacked, -⟩, hdates, hdistinct⟩ := h
  obtain ⟨p', hlaw⟩ := hfollows.step hl
  obtain ⟨synthetic, p₁, halted, hbar, hdecide, hhalted⟩ := hlaw.bar
  -- every earlier decision is older than this bar
  have holder : ∀ D ∈ log.decisions, D.openTimeNs < r.openTimeNs := by
    intro D hD
    obtain ⟨t, ht, hle⟩ := hdates D hD
    exact hle.trans_lt (hlaw.later t ht)
  refine ⟨⟨p', hlaw.follows, ?_, fun r' hr' hdecided hstate => ?_⟩, fun D hD => ?_, ?_⟩
  · have hold : (if l.latched then p.latch else p).Backed (Decided log) := by
      split
      · exact hbacked.latched
      · exact hbacked
    refine ((hold.bar hbar).mono fun d target s hd => hd.snoc _).decide hdecide
      fun c target s hp => ?_
    obtain ⟨D, hD, hstop, htarget⟩ := hlaw.opening c target s _ hp
    refine ⟨D, ?_, hlaw.decision D hD, hstop, htarget⟩
    rw [LoopLog.decisions_snoc, hD]
    exact List.mem_append_right _ (List.mem_singleton_self D)
  · rw [LoopLog.steps_snoc_stepped, List.getLast?_concat] at hr'
    cases hr'
    rw [hhalted hdecided hstate] at hdecide
    exact hdecide.flattening hbar.pending
  · rw [LoopLog.decisions_snoc, List.mem_append] at hD
    refine ⟨r.openTimeNs, hlaw.lastOpen, ?_⟩
    rcases hD with hD | hD
    · exact (holder D hD).le
    · rw [Option.mem_toList] at hD
      exact (hlaw.decision D hD).le
  · rw [LoopLog.decisions_snoc, List.pairwise_append]
    refine ⟨hdistinct, ?_, fun D hD D' hD' => ?_⟩
    · cases r.decision <;> simp
    · rw [Option.mem_toList] at hD'
      rw [hlaw.decision D' hD']
      exact holder D hD

/-- **One call keeps the history.** -/
theorem LoopHistory.snoc (h : LoopHistory l log) (hc : l.call c = .ok (a, l')) :
    LoopHistory l' (log ++ [⟨l, c, a, l'⟩]) := by
  obtain ⟨p, hfollows, hbacked, hflat⟩ := h.plan
  rcases hfollows.call hc with ⟨inp, r, rfl, rfl, hstep⟩ | ⟨rfl, hfollows', hlast⟩
  · exact h.step hstep
  · have hsteps : LoopLog.steps (log ++ [⟨l, c, .done, l'⟩]) = log.steps :=
      LoopLog.steps_snoc_done
    have hdec : LoopLog.decisions (log ++ [⟨l, c, .done, l'⟩]) = log.decisions :=
      congrArg (List.filterMap StepResult.decision) hsteps
    refine ⟨⟨p, hfollows', hbacked.mono fun d target s hd => hd.snoc _, ?_⟩, ?_, ?_⟩
    · rw [hsteps]
      exact hflat
    · rw [hdec, hlast]
      exact h.dates
    · rw [hdec]
      exact h.distinct

end History

/-! ### The beginning -/

section New

variable {instrument : Instrument} {cfg : LoopCfg} {riskCfg : RiskConfig} {clock : ManualClock}
  {ids : IdGenerator} {cost : CostModel} {equity : NonNegDec} {l₀ l : TradingLoop}
  {log : LoopLog}

/-- A new loop represents the flat plan. -/
theorem Represents.new
    (h : TradingLoop.new instrument cfg riskCfg clock ids cost equity = .ok l₀) :
    ∃ st, Represents l₀ st .flat ∧ st.lastOpenNs = l₀.lastOpen := by
  rw [TradingLoop.new, bind_eq_ok] at h
  obtain ⟨broker, hb, h⟩ := h
  have hbook := ((OrderBook.new cost [instrument] ids _ _).setFundingRate hb).1
  rw [PaperBroker.setFundingRate, bind_eq_ok] at hb
  obtain ⟨st, hst, hb⟩ := hb
  rw [PaperBroker.require_eq_ok] at hst
  cases hb
  cases h
  have hget : (PaperBroker.new cost [instrument] ids defaultVolLambda
      defaultFundingRate).state.get? instrument.symbolCanon =
        some (.new instrument defaultFundingRate) := Dict.get?_insert_self ..
  rw [hget] at hst
  cases hst
  refine ⟨{ InstState.new instrument defaultFundingRate with fundingRate := cfg.fallbackRate },
    { book := hbook
      inst := Dict.get?_insert_self ..
      single := fun i s hs => ?_
      spec := rfl
      carries := .flat rfl rfl rfl
      qty := rfl
      lots := .flat
      times := fun c o ho => by cases ho
      supervised := fun c o ho => by cases ho
      stop := fun s hs => by cases hs
      close := fun c hp => by cases hp
      opening := fun c target s d hp => by cases hp
      ids := fun u _ => ⟨rfl, rfl⟩
      openPos := fun hpos => absurd rfl hpos }, rfl⟩
  -- the only instrument is the one that the loop trades
  change ((PaperBroker.new cost [instrument] ids defaultVolLambda
    defaultFundingRate).state.insert instrument.symbolCanon _).get? i = some s at hs
  rw [Dict.get?_insert] at hs
  split at hs
  · rename_i heq
    exact heq.symm
  · rename_i hne
    obtain ⟨spec, hspec, -⟩ := PaperBroker.new_state hs
    change ((∅ : Dict String InstState).insert instrument.symbolCanon _).get? i = some s at hs
    rw [Dict.get?_insert_of_ne _ _ hne] at hs
    cases hs

/-- **The history of every run.** -/
theorem loopHistory (h₀ : TradingLoop.new instrument cfg riskCfg clock ids cost equity = .ok l₀)
    (h : Run LoopStep l₀ l log) : LoopHistory l log := by
  refine h.invariant LoopHistory ?_ fun l log c a l' ih hc => ih.snoc hc
  obtain ⟨st, hrep, hlast⟩ := Represents.new h₀
  refine ⟨⟨.flat, ⟨⟨st, hrep, hlast⟩, .flat⟩, .flat, fun r hr => ?_⟩, fun D hD => ?_, ?_⟩
  · cases hr
  · cases hD
  · exact .nil

/-! ### A small run -/

/-- The configuration of the samples. -/
def sampleLoopCfg : LoopCfg where
  sizing := .default
  tpMultiple := 2
  fundingFallback := 1 / 10000
  fundingMatchNs := 5
  tol := 1 / 100
  checkInvariants := true
  recordAll := false
  decideFrom := 0

/-- The loop of the samples. -/
def sampleLoop : Except PyError TradingLoop :=
  TradingLoop.new sampleInstrument sampleLoopCfg .default ⟨0⟩ evenIds sampleCost
    ⟨10000, by norm_num⟩

/-- A bar around 100 in which the core asks for a long. -/
def sampleStep (openTimeNs : ℤ) : LoopCall :=
  .step {
    bar := ⟨"BTC", openTimeNs, 100, 101, 99, 100, 7⟩
    closeNs := openTimeNs + 9
    dqScore := 1
    lastDataNs := some openTimeNs
    uRaw := 1
    kappa := 1
    uFinal := 1
    atr := some 1
    sT := 1
    volRatio := some 1
    volRatio_nonneg := by simp }

/-- An entry that is filled, a trip, the flattening after a release, and an entry that a
    second trip finds in the queue. -/
def sampleRun : List LoopCall :=
  [sampleStep 10, sampleStep 20, .trip "operator" none, sampleStep 30,
    .releaseSwitch .admin none none, sampleStep 40, .trip "operator" none, sampleStep 50]

/-- The first `k` calls of the run, seen to end with a given property. -/
theorem sampleRun_any (k : ℕ) (p : TradingLoop × LoopLog → Bool)
    (h : (sampleLoop.bind fun l₀ => execE TradingLoop.call l₀ (sampleRun.take k)).toOption.any p
      = true) :
    ∃ l₀ l log, sampleLoop = .ok l₀ ∧ Run LoopStep l₀ l log ∧ p (l, log) = true := by
  cases hnew : sampleLoop with
  | error e =>
    rw [hnew] at h
    cases h
  | ok l₀ =>
    rw [hnew] at h
    obtain ⟨l, log, hexec, hp⟩ := execE_any TradingLoop.call l₀ _ p h
    exact ⟨l₀, l, log, rfl, Run.execE _ hexec, hp⟩

/-! ### The laws -/

/-- Every step of a run begins with a loop that follows a plan and obeys the law of a step. -/
theorem step_of_run (h₀ : TradingLoop.new instrument cfg riskCfg clock ids cost equity = .ok l₀)
    (h : Run LoopStep l₀ l log) {pre post : LoopLog} {e : LoopEntry}
    {r : StepResult} (hlog : log = pre ++ e :: post) (he : e.answer = .stepped r) :
    LoopHistory e.before pre ∧ ∃ inp, e.before.step inp = .ok (r, e.after) := by
  obtain ⟨hrun, hcall⟩ := h.before_entry hlog
  have hist := loopHistory h₀ hrun
  obtain ⟨p, hfollows, -⟩ := hist.plan
  rcases hfollows.call hcall with ⟨inp, r', -, ha, hstep⟩ | ⟨ha, -⟩
  · rw [he] at ha
    cases ha
    exact ⟨hist, inp, hstep⟩
  · rw [he] at ha
    cases ha

/-- **No new exposure while latched.**  In every run, a step that finds the risk machine in
    `HALTED` or the switch tripped ends with no more exposure than it began with, and fills
    neither an entry nor a flip. -/
theorem no_new_exposure
    (h₀ : TradingLoop.new instrument cfg riskCfg clock ids cost equity = .ok l₀)
    (h : Run LoopStep l₀ l log) :
    ∀ e ∈ log, ∀ r, e.answer = .stepped r →
      e.before.fsm.state = .halted ∨ e.before.fsm.killswitch.tripped = true →
      |e.after.positionQty| ≤ |e.before.positionQty| ∧
        ∀ f ∈ r.fills, ∃ record, e.after.orders.get? f.clientOrderId = some record ∧
          record.role ≠ Action.enter.role ∧ record.role ≠ Action.flip.role := by
  intro e he r hr hlatch
  obtain ⟨pre, post, hlog⟩ := List.append_of_mem he
  obtain ⟨hist, inp, hstep⟩ := step_of_run h₀ h hlog hr
  have hlatched : e.before.latched = true := by
    rw [TradingLoop.latched, Bool.or_eq_true, decide_eq_true_iff]
    exact hlatch
  obtain ⟨p, hfollows, -⟩ := hist.plan
  obtain ⟨p', hlaw⟩ := hfollows.step hstep
  obtain ⟨synthetic, p₁, halted, hbar, hdecide, -⟩ := hlaw.bar
  rw [if_pos hlatched] at hbar
  refine ⟨?_, hlaw.roles hlatched⟩
  rw [hfollows.qty, hlaw.follows.qty, hdecide.position]
  exact hbar.latched

/-- The second trip of the run finds an entry in the queue. -/
theorem no_new_exposure_sample : ∃ (l₀ l : TradingLoop) (log : LoopLog),
    sampleLoop = .ok l₀ ∧ Run LoopStep l₀ l log ∧
    ∃ e ∈ log, ∃ r, e.answer = .stepped r ∧ e.before.openOrders ≠ [] ∧ r.decided = true ∧
      |e.after.positionQty| ≤ |e.before.positionQty| ∧
      ∀ f ∈ r.fills, ∃ record, e.after.orders.get? f.clientOrderId = some record ∧
        record.role ≠ Action.enter.role ∧ record.role ≠ Action.flip.role := by
  obtain ⟨l₀, l, log, hnew, hrun, hp⟩ := sampleRun_any 8
    (fun r => r.2.any fun e => decide (e.before.openOrders ≠ []) &&
      e.before.fsm.killswitch.tripped && e.answer.result.any StepResult.decided)
    (by decide +kernel)
  rw [List.any_eq_true] at hp
  obtain ⟨e, he, hp⟩ := hp
  rw [Bool.and_eq_true, Bool.and_eq_true, decide_eq_true_iff] at hp
  obtain ⟨⟨hqueue, htripped⟩, hr⟩ := hp
  cases ha : e.answer with
  | done =>
    rw [ha] at hr
    cases hr
  | stepped r =>
    rw [ha] at hr
    exact ⟨l₀, l, log, hnew, hrun, e, he, r, ha, hqueue, hr,
      no_new_exposure hnew hrun e he r ha (.inr htripped)⟩

/-- **`HALTED` flattens on the next bar.**  In every run, the step after a deciding step that
    ended in `HALTED` ends flat, whatever was called in between. -/
theorem halted_flattens
    (h₀ : TradingLoop.new instrument cfg riskCfg clock ids cost equity = .ok l₀)
    (h : Run LoopStep l₀ l log) {pre post : LoopLog} {e : LoopEntry}
    {last r : StepResult} (hlog : log = pre ++ e :: post) (he : e.answer = .stepped r)
    (hlast : pre.steps.getLast? = some last) (hdecided : last.decided = true)
    (hhalted : last.riskState = .halted) : e.after.positionQty = 0 := by
  obtain ⟨hist, inp, hstep⟩ := step_of_run h₀ h hlog he
  obtain ⟨p, hfollows, -, hflat⟩ := hist.plan
  have hflat' := hflat last hlast hdecided hhalted
  obtain ⟨p', hlaw⟩ := hfollows.step hstep
  obtain ⟨synthetic, p₁, halted, hbar, hdecide, -⟩ := hlaw.bar
  rw [hflat'.latch_eq, ite_self] at hbar
  rw [hlaw.follows.qty, hdecide.position]
  exact hbar.close_flat hflat'

/-- In the run the machine ends a step in `HALTED` with an open position; the switch is
    released, and the next step closes the position. -/
theorem halted_flattens_sample : ∃ (l₀ l : TradingLoop) (log : LoopLog),
    sampleLoop = .ok l₀ ∧ Run LoopStep l₀ l log ∧
    ∃ pre e post, log = pre ++ e :: post ∧ e.before.positionQty = 25 ∧
      e.before.fsm.killswitch.tripped = false ∧ e.after.positionQty = 0 := by
  obtain ⟨l₀, l, log, hnew, hrun, hp⟩ := sampleRun_any 6
    (fun r => (LoopLog.steps (r.2.take 5)).getLast?.any (fun (last : StepResult) =>
        last.decided && decide (last.riskState = .halted)) &&
      (r.2.drop 5).head?.any fun (e : LoopEntry) => decide (e.before.positionQty = 25) &&
        !e.before.fsm.killswitch.tripped && e.answer.result.isSome)
    (by decide +kernel)
  rw [Bool.and_eq_true, Option.any_eq_true, Option.any_eq_true] at hp
  obtain ⟨⟨last, hlast, hhalted⟩, e, he, hbefore⟩ := hp
  rw [Bool.and_eq_true, decide_eq_true_iff] at hhalted
  rw [Bool.and_eq_true, Bool.and_eq_true, decide_eq_true_iff, Bool.not_eq_true'] at hbefore
  obtain ⟨⟨hqty, hswitch⟩, hstepped⟩ := hbefore
  obtain ⟨post, hpost⟩ := List.head?_eq_some_iff.mp he
  have hlog : log = log.take 5 ++ e :: post := by
    rw [← hpost, List.take_append_drop]
  cases ha : e.answer with
  | done =>
    rw [ha] at hstepped
    cases hstepped
  | stepped r =>
    exact ⟨l₀, l, log, hnew, hrun, log.take 5, e, post, hlog, hqty, hswitch,
      halted_flattens hnew hrun hlog ha hlast hhalted.1 hhalted.2⟩

/-- The order `c` of the loop's instrument is live and protects the position: a stop that only
    reduces, on the side that closes. -/
def Protects (l : TradingLoop) (c : Uuid) (o : Order) : Prop :=
  l.broker.orders.get? c = some o ∧ o.status = .new ∧ o.req.instrument = l.sym ∧
    o.req.otype = .stopMarket ∧ o.req.reduceOnly = true ∧
    o.req.side = Side.ofInt (-sign l.positionQty)

/-- What is behind a position, and behind no position. -/
structure PositionProtected (l : TradingLoop) (log : LoopLog) : Prop where
  /-- The position is the one that exactly one decision of the run has asked for; when that
      decision has computed a stop, exactly one order protects the position, for all of it and
      at that price. -/
  held : l.positionQty ≠ 0 → ∃ record, l.openPos = some record ∧ ∃ D ∈ log.decisions,
    record.openingDecisionNs = some D.openTimeNs ∧
    (∀ D' ∈ log.decisions, D'.openTimeNs = D.openTimeNs → D' = D) ∧
    l.positionQty = D.targetSide * D.targetQty ∧
    ∀ price, D.stopPrice = some price → ∃ c o, Protects l c o ∧ o.req.qty = |l.positionQty| ∧
      o.req.stopPrice = some price ∧ ∀ c' o', Protects l c' o' → c' = c
  /-- Without a position and without a queued entry no stop is live. -/
  flat : l.positionQty = 0 →
    (∀ c o, l.broker.orders.get? c = some o → o.status = .new → o.req.instrument = l.sym →
      ¬(o.req.otype = .market ∧ o.req.reduceOnly = false)) →
    ∀ c o, l.broker.orders.get? c = some o → o.status = .new → o.req.instrument = l.sym →
      o.req.otype ≠ .stopMarket

/-- The order that is pending is a market order. -/
theorem Represents.queue_market {st : InstState} {p : Plan} (h : Represents l st p) {c : Uuid}
    (hc : c ∈ p.pending.queue) :
    ∃ o, l.broker.orders.get? c = some o ∧ o.req.otype = .market := by
  cases hp : p.pending with
  | idle => rw [hp] at hc; cases hc
  | close c' =>
    rw [hp, Pending.queue, List.mem_singleton] at hc
    obtain ⟨o, ho, -, htype, -⟩ := h.carries.close c' hp
    exact ⟨o, hc ▸ ho, htype⟩
  | opening c' target s d =>
    rw [hp, Pending.queue, List.mem_singleton] at hc
    obtain ⟨⟨o, ho, -, htype, -⟩, -⟩ := h.carries.opening c' target s d hp
    exact ⟨o, hc ▸ ho, htype⟩

/-- The stop of a plan is the only order that protects its position. -/
theorem Represents.protects_unique {st : InstState} {p : Plan} (h : Represents l st p)
    (hpos : p.position ≠ 0) {c : Uuid} {o : Order} (hc : Protects l c o) :
    ∃ s, p.stop = some s ∧ c = s.coid := by
  obtain ⟨ho, hnew, -, htype, hred, hside⟩ := hc
  -- no market order of the queue is a stop, so it is one of the plan
  rcases (h.live_cases ho hnew).2 with hq | ⟨s, hs, rfl⟩
  · obtain ⟨o', ho', hmarket⟩ := h.queue_market hq
    rw [ho] at ho'
    cases ho'
    rw [htype] at hmarket
    cases hmarket
  · rw [Plan.stops, List.mem_append, Option.mem_toList, Option.mem_toList] at hs
    rcases hs with hs | hs
    · exact ⟨s, hs, rfl⟩
    · -- the stop of a flip waits on the other side
      cases hp : p.pending with
      | idle => rw [hp] at hs; cases hs
      | close c' => rw [hp] at hs; cases hs
      | opening c' target s' d =>
        rw [hp] at hs
        have hstop := (h.carries.opening c' target s' d hp).2 s hs
        have hopp := (p.opening_side c' target s' d hp).2.resolve_left hpos
        have hno := hstop.not_protectsAs hpos hopp
        rw [h.qty] at hside
        simp [protectsAs, ho, hred, hside] at hno

/-- **Every open position is protected**, at the end of every call of every run. -/
theorem position_protected
    (h₀ : TradingLoop.new instrument cfg riskCfg clock ids cost equity = .ok l₀)
    (h : Run LoopStep l₀ l log) : PositionProtected l log := by
  obtain ⟨⟨p, hfollows, hbacked, -⟩, -, hdistinct⟩ := loopHistory h₀ h
  obtain ⟨st, hrep, -⟩ := hfollows.represents
  have hqty := hrep.qty
  refine ⟨fun hpos => ?_, fun hflat hno c o ho hnew hinst htype => ?_⟩
  · rw [hqty] at hpos
    obtain ⟨d, hopened, D, hD, hd, hstop, htarget⟩ := hbacked.held hpos
    obtain ⟨record, hrecord, hopening⟩ := hrep.openPos hpos
    refine ⟨record, hrecord, D, hD, ?_, fun D' hD' heq => ?_, hqty.trans htarget,
      fun price hprice => ?_⟩
    · rw [hopening, hopened, hd]
    · -- two decisions of one bar are one
      have hnodup : (log.decisions.map DecisionEntry.openTimeNs).Nodup :=
        List.pairwise_map.mpr (hdistinct.imp ne_of_lt)
      exact List.inj_on_of_nodup_map hnodup hD' hD heq
    · rw [hstop, Option.map_eq_some_iff] at hprice
      obtain ⟨s, hs, rfl⟩ := hprice
      obtain ⟨o, ho, hnew, htype, hred, hside, hq, hsp⟩ := hrep.carries.stop s hs
      rw [← hqty] at hside hq
      refine ⟨s.coid, o, ⟨ho, hnew, (hrep.live_cases ho hnew).1, htype, hred, hside⟩, hq, hsp,
        fun c' o' hc' => ?_⟩
      obtain ⟨s', hs', rfl⟩ := hrep.protects_unique hpos hc'
      rw [hs] at hs'
      cases hs'
      rfl
  · rw [hqty] at hflat
    rcases (hrep.live_cases ho hnew).2 with hq | ⟨s, hs, rfl⟩
    · obtain ⟨o', ho', hmarket⟩ := hrep.queue_market hq
      rw [ho] at ho'
      cases ho'
      rw [htype] at hmarket
      cases hmarket
    · rw [Plan.stops, List.mem_append, Option.mem_toList, Option.mem_toList,
        p.stop_flat hflat] at hs
      rcases hs with hs | hs
      · cases hs
      · cases hp : p.pending with
        | idle => rw [hp] at hs; cases hs
        | close c' => rw [hp] at hs; cases hs
        | opening c' target s' d =>
          -- the entry of that stop is queued
          obtain ⟨o', ho', hnew', htype', hred', -⟩ := (hrep.carries.opening c' target s' d hp).1
          exact hno c' o' ho' hnew' (hrep.live_cases ho' hnew').1 ⟨htype', hred'⟩

/-- The entry of the run is filled and protected at 98. -/
theorem position_protected_sample : ∃ (l₀ l : TradingLoop) (log : LoopLog),
    sampleLoop = .ok l₀ ∧ Run LoopStep l₀ l log ∧
    l.positionQty = 25 ∧ log.decisions.filterMap DecisionEntry.stopPrice = [98] ∧
      PositionProtected l log := by
  obtain ⟨l₀, l, log, hnew, hrun, hp⟩ := sampleRun_any 2
    (fun r => decide (r.1.positionQty = 25) &&
      decide ((LoopLog.decisions r.2).filterMap DecisionEntry.stopPrice = [98]))
    (by decide +kernel)
  rw [Bool.and_eq_true, decide_eq_true_iff, decide_eq_true_iff] at hp
  exact ⟨l₀, l, log, hnew, hrun, hp.1, hp.2, position_protected hnew hrun⟩

end New

end FuzzHelm
