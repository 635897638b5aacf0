import FuzzHelm.Backtest.Drives
import FuzzHelm.Backtest.LoopRun
import FuzzHelm.Ingest.Events
import FuzzHelm.Lib.Path
import FuzzHelm.Lib.Raise
import Mathlib.Data.Int.CardIntervalMod
import Mathlib.Data.Int.ConditionallyCompleteOrder

namespace FuzzHelm

open Lib

/-!
# A live session

The worker hands every closed candle of the stream to the loop of its session.  Between the
bars it applies the commands of the control channel; where the stream has a hole it asks a
filler for the missing bars, and writes down what stays missing.

* `SessionEnv` — what the session asks of its surroundings: commands, bars, limits, clocks, a sink;
* `TradingSession.onCandle`, `fillDiscontinuity`, `doStep` — the handlers;
* `Reads` — the events that a session may go through, as a labelled relation;
* `onCandle_spec` — a candle keeps the session on such a path, also when it raises;
* `no_silent_jump` — the law of a whole session.
-/

/-! ### What the session asks of its surroundings -/

/-- `TF_NS`, the length of the bars that the worker trades. -/
def tradingTfNs : ℤ := 60000000000

/-- What a command asks for. -/
inductive ControlKind where
  | killswitchRelease
  | riskLimitsChanged
  deriving DecidableEq, Repr

/-- A command of the control channel. -/
structure ControlCommand where
  kind : ControlKind
  auditId : Option ℤ
  actor : Option String
  role : Option Role
  runId : Option String
  userId : Option ℤ
  deriving DecidableEq, Repr

/-- Why a session stops: an exception of the core, or one of what it calls. -/
inductive WorkerError where
  | py (e : PyError)
  | outside (what : String)

/-- A question to the surroundings, whose state is `W`; the answer may be an exception. -/
abbrev Ask (W α β : Type) := α → W → Except WorkerError β × W

/-- What reading the file of limits again comes to. -/
inductive LimitsReading where
  | unchanged
  | rejected (error : String)
  | changed (limits : LimitsCfg) (stateMachine : StateMachineCfg)

/-- What a step takes from outside: the clock of the pipeline, the quality of the hour, and
    what the decision core and the volatility estimate make of the bars so far. -/
structure StepView where
  nowNs : ℤ
  q : Option Decimal
  uRaw : ℚ
  kappa : ℚ
  uFinal : ℚ
  atr : Option ℚ
  sT : ℚ
  volRatio : Option ℚ
  volRatio_nonneg : ∀ v ∈ volRatio, 0 ≤ v

/-- What a release answers. -/
inductive ReleaseOutcome where
  | released
  | noop
  | denied
  deriving DecidableEq, Repr

/-- Everything that a session asks of its surroundings. -/
structure SessionEnv (W : Type) where
  commands : Option (Ask W Unit (List ControlCommand))
  gapFiller : Option (Ask W (ℤ × ℤ) (List Candle))
  readLimits : Ask W Bool LimitsReading
  view : Ask W Candle StepView
  onStep : Ask W (StepResult × Candle) Unit
  onOutOfBand : Ask W (ControlCommand × ReleaseOutcome) Unit

/-! ### The session -/

/-- The entries of the journal of the run, and the steps of the loop between them. -/
inductive SessionEvent where
  | candle (c : Candle)
  | discontinuity (fromOpenNs toOpenNs missingBars : ℤ)
  | killswitchRelease (auditId : Option ℤ) (actor : Option String) (role : Option Role)
      (stateBefore : RiskState)
  | riskLimits
  | riskLimitsRejected (error : String)
  | stepped (r : StepResult)

/-- `TradingSession`: the loop with what it follows, and what it has done. -/
structure TradingSession (W : Type) where
  world : W
  runId : String
  loop : TradingLoop
  pending : List ControlCommand
  nextOpen : Option ℤ
  events : List SessionEvent

/-- A handler of the session. -/
abbrev SessionM (W α : Type) := EStateM WorkerError (TradingSession W) α

namespace TradingSession

variable {W : Type} (env : SessionEnv W)

/-- Ask the surroundings, and note what they have answered. -/
def ask {α β : Type} (q : Ask W α β) (a : α) : SessionM W β := fun s =>
  match q a s.world with
  | (.ok b, w) => .ok b { s with world := w }
  | (.error e, w) => .error e { s with world := w }

/-- `journal.append`, and the steps of the loop. -/
def append (e : SessionEvent) : SessionM W Unit :=
  modify fun s => { s with events := s.events ++ [e] }

/-- `reload_limits_if_changed`: a file that has changed is read and takes effect. -/
def reloadLimitsIfChanged (force : Bool) : SessionM W Unit := do
  match ← ask env.readLimits force with
  | .unchanged => pure ()
  | .rejected error => append (.riskLimitsRejected error)
  | .changed limits stateMachine =>
    modify fun s => { s with loop := s.loop.applyRiskLimits limits stateMachine }
    append .riskLimits

/-- `apply_release`: only an administrator's command opens the switch; a refusal is journaled
    all the same. -/
def applyRelease (cmd : ControlCommand) : SessionM W Unit := do
  let s ← get
  append (.killswitchRelease cmd.auditId cmd.actor cmd.role s.loop.fsm.state)
  match s.loop.fsm.release (some s.loop.clock.t) (cmd.role.getD "") cmd.actor with
  | (.ok tr, fsm) =>
    modify fun s => { s with loop := s.loop.withFsm fsm }
    ask env.onOutOfBand (cmd, if tr.isSome then .released else .noop)
  | (.error _, _) => ask env.onOutOfBand (cmd, .denied)

/-- `apply`: a release for another run is not for this session. -/
def apply (cmd : ControlCommand) : SessionM W Unit := do
  match cmd.kind with
  | .killswitchRelease =>
    let s ← get
    if cmd.runId.all (· == s.runId) then applyRelease env cmd
  | .riskLimitsChanged => reloadLimitsIfChanged env true

/-- Take one command from the queue and apply it. -/
def applyNext (cmd : ControlCommand) : SessionM W Unit := do
  modify fun s => { s with pending := s.pending.tail }
  apply env cmd

/-- What the channel has is put into the queue. -/
def queueCommands : SessionM W Unit := do
  match env.commands with
  | none => pure ()
  | some commands =>
    let cmds ← ask commands ()
    modify fun s => { s with pending := s.pending ++ cmds }

/-- `process_commands`: the queue is filled, then emptied. -/
def processCommands : SessionM W Unit := do
  queueCommands env
  let s ← get
  s.pending.forM (applyNext env)

/-- `dec_bar_from_candle`: the prices of the candle as they are. -/
def decBarFromCandle (c : Candle) : DecBar :=
  ⟨c.instrument, c.openTimeNs, c.o, c.h, c.l, c.c, c.volume⟩

/-- What a step of the loop is given for a candle: the last data are as old as the candle was
    late. -/
def stepInput (c : Candle) (v : StepView) : StepInput where
  bar := decBarFromCandle c
  closeNs := c.closeTimeNs
  dqScore := v.q.getD 1
  lastDataNs := some (c.closeTimeNs - max 0 (v.nowNs - c.tsEventNs))
  uRaw := v.uRaw
  kappa := v.kappa
  uFinal := v.uFinal
  atr := v.atr
  sT := v.sT
  volRatio := v.volRatio
  volRatio_nonneg := v.volRatio_nonneg

/-- `TradingLoop.on_candle`: one step at the bar of the candle. -/
def loopOnCandle (l : TradingLoop) (c : Candle) (v : StepView) :
    Except PyError (StepResult × TradingLoop) :=
  if c.isClosed = false then .error (.valueError "TradingLoop consumes closed candles only")
  else if c.instrument ≠ l.instrument.symbolCanon then
    .error (.valueError "candle for another instrument")
  else l.step (stepInput c v)

/-- `_step`: one step of the loop, which is written before the next one. -/
def doStep (c : Candle) : SessionM W Unit := do
  reloadLimitsIfChanged env false
  let v ← ask env.view c
  append (.candle c)
  let s ← get
  match loopOnCandle s.loop c v with
  | .error e => throw (.py e)
  | .ok (r, l) =>
    modify fun s => { s with loop := l, nextOpen := some (c.openTimeNs + tradingTfNs) }
    append (.stepped r)
    ask env.onStep (r, c)

/-- The bars that the filler was asked for, in the order of their opening times. -/
def wanted (lo hi : ℤ) (fetched : List Candle) : List Candle :=
  (fetched.filter fun x => decide (lo ≤ x.openTimeNs ∧ x.openTimeNs < hi) && x.isClosed).mergeSort
    fun x y => decide (x.openTimeNs ≤ y.openTimeNs)

/-- A bar of the filler is stepped when it is the next one, and dropped otherwise. -/
def stepIfNext (x : Candle) : SessionM W Unit := do
  let s ← get
  if s.nextOpen = some x.openTimeNs then doStep env x

/-- What still misses after the fill is written down. -/
def recordMissing (hi : ℤ) : SessionM W Unit := do
  let s ← get
  match s.nextOpen with
  | none => pure ()
  | some lo => if lo < hi then append (.discontinuity lo hi ((hi - lo) / tradingTfNs))

/-- What the filler has from `lo` to `hi`; without a filler there is nothing. -/
def fetch (lo hi : ℤ) : SessionM W (List Candle) :=
  match env.gapFiller with
  | none => pure []
  | some filler => ask filler (lo, hi)

/-- `_fill_discontinuity`: the minutes in between are fetched and stepped, and what is missing is
    recorded. -/
def fillDiscontinuity (lo hi : ℤ) : SessionM W Unit := do
  let fetched ← fetch env lo hi
  (wanted lo hi fetched).forM (stepIfNext env)
  recordMissing hi

/-- `on_candle`: a candle that was passed already is dropped; one that leaves a hole makes the
    session fill it first. -/
def onCandle (c : Candle) : SessionM W Unit := do
  processCommands env
  let s ← get
  match s.nextOpen with
  | none => doStep env c
  | some lo =>
    if c.openTimeNs < lo then pure ()
    else do
      (if lo < c.openTimeNs then fillDiscontinuity env lo c.openTimeNs else pure ())
      doStep env c

/-- The candles of a stream, up to the first that raises. -/
def deliver (cs : List Candle) : SessionM W Unit := cs.forM (onCandle env)

/-- A session that is about to see its first candle: `nextOpen` is where the warm-up ended, or
    nothing without one. -/
def start (world : W) (runId : String) (loop : TradingLoop) (nextOpen : Option ℤ) :
    TradingSession W :=
  ⟨world, runId, loop, [], nextOpen, []⟩

end TradingSession

/-! ### What a session went through -/

namespace SessionEvent

/-- The opening time of the bar that was stepped. -/
def openTime? : SessionEvent → Option ℤ
  | .stepped r => some r.openTimeNs
  | _ => none

/-- What a record of a discontinuity says. -/
def jump? : SessionEvent → Option (ℤ × ℤ × ℤ)
  | .discontinuity lo hi missing => some (lo, hi, missing)
  | _ => none

/-- The entries that are neither. -/
def Quiet (e : SessionEvent) : Prop := e.openTime? = none ∧ e.jump? = none

end SessionEvent

/-- The opening times of the bars that were stepped, in order. -/
def stepped (es : List SessionEvent) : List ℤ := es.filterMap SessionEvent.openTime?

/-- The discontinuities that were recorded, in order. -/
def jumps (es : List SessionEvent) : List (ℤ × ℤ × ℤ) := es.filterMap SessionEvent.jump?

/-- The bars that are missing after the one that opened at `a` and before the one that opens at
    `b`: they follow the first one at whole timeframes and have room before the second. -/
noncomputable def missingOpens (a b : ℤ) : Finset ℤ :=
  (Finset.Ioo a b).filter fun t => tradingTfNs ∣ t - a ∧ t + tradingTfNs ≤ b

/-- **Covered**: the events between the bars at `a` and `b` tell of the hole between them, with
    the number of the missing bars, and of nothing else. -/
def Covered (a b : ℤ) (es : List SessionEvent) : Prop :=
  a < b ∧ jumps es =
    if a + tradingTfNs < b then [(a + tradingTfNs, b, ((missingOpens a b).card : ℤ))] else []

/-- A bar of the trading has a length. -/
theorem tradingTfNs_pos : 0 < tradingTfNs := by decide

/-- The missing bars are as many as whole timeframes fit into the hole. -/
theorem card_missingOpens {a b : ℤ} (h : a + tradingTfNs ≤ b) :
    ((missingOpens a b).card : ℤ) = (b - (a + tradingTfNs)) / tradingTfNs := by
  have hpos := tradingTfNs_pos
  set n := (b - (a + tradingTfNs)) / tradingTfNs with hn
  have hn0 : 0 ≤ n := Int.ediv_nonneg (by omega) hpos.le
  -- The missing bars open at `a + (k + 1)` timeframes for the `k` below `n`.
  have himage : missingOpens a b =
      (Finset.range n.toNat).image fun k : ℕ => a + (k + 1) * tradingTfNs := by
    ext t
    simp only [missingOpens, Finset.mem_filter, Finset.mem_Ioo, Finset.mem_image,
      Finset.mem_range]
    constructor
    · rintro ⟨⟨hat, -⟩, ⟨k, hk⟩, hfit⟩
      have hk1 : 1 ≤ k := by
        by_contra hk0
        have : tradingTfNs * k ≤ 0 := mul_nonpos_of_nonneg_of_nonpos hpos.le (by omega)
        omega
      refine ⟨(k - 1).toNat, ?_, ?_⟩
      · have hle : k ≤ n := by
          rw [hn, Int.le_ediv_iff_mul_le hpos]
          linarith [mul_comm k tradingTfNs]
        omega
      · rw [Int.toNat_of_nonneg (by omega)]
        linarith [mul_comm k tradingTfNs]
    · rintro ⟨k, hk, rfl⟩
      have hkn : (k : ℤ) + 1 ≤ n := by omega
      have hmul : ((k : ℤ) + 1) * tradingTfNs ≤ b - (a + tradingTfNs) :=
        (Int.le_ediv_iff_mul_le hpos).mp (hn ▸ hkn)
      have hk0 : 0 < ((k : ℤ) + 1) * tradingTfNs := mul_pos (by omega) hpos
      exact ⟨⟨by omega, by omega⟩, ⟨k + 1, by ring⟩, by omega⟩
  have hinj : Function.Injective fun k : ℕ => a + ((k : ℤ) + 1) * tradingTfNs := by
    intro k k' hkk
    have := mul_right_cancel₀ hpos.ne' (add_left_cancel hkk)
    omega
  rw [himage, Finset.card_image_of_injective _ hinj, Finset.card_range,
    Int.toNat_of_nonneg hn0]

/-! ### The path of a session -/

/-- What may come next: anything at the start of a session without a warm-up; a bar after the
    one that opened at `a`; after a discontinuity was recorded, the bar that it leads to. -/
inductive Expect where
  | anything
  | last (a : ℤ)
  | hole (a hi : ℤ)

/-- One event of a session. -/
inductive Reads : Expect → SessionEvent → Expect → Prop
  | quiet {x : Expect} {e : SessionEvent} : e.Quiet → Reads x e x
  | first {r : StepResult} : Reads .anything (.stepped r) (.last r.openTimeNs)
  | next {a : ℤ} {r : StepResult} : a < r.openTimeNs → r.openTimeNs ≤ a + tradingTfNs →
      Reads (.last a) (.stepped r) (.last r.openTimeNs)
  | record {a hi : ℤ} : a + tradingTfNs < hi →
      Reads (.last a) (.discontinuity (a + tradingTfNs) hi ((hi - (a + tradingTfNs)) / tradingTfNs))
        (.hole a hi)
  | past {a : ℤ} {r : StepResult} : a + tradingTfNs < r.openTimeNs →
      Reads (.hole a r.openTimeNs) (.stepped r) (.last r.openTimeNs)

/-- The bar before the next one. -/
def Expect.before : Expect → Option ℤ
  | .anything => none
  | .last a => some a
  | .hole a _ => some a

/-- What the rest of the events has to tell until the bar at `b`. -/
def Expect.Owes (b : ℤ) (es : List SessionEvent) : Expect → Prop
  | .anything => jumps es = []
  | .last a => Covered a b es
  | .hole a hi => a + tradingTfNs < hi ∧ hi = b ∧ jumps es = []

/-- **Up to the next step**: the events before it tell what is owed, and the path goes on from
    the bar that was stepped. -/
theorem Path.to_step (mid : List SessionEvent) {x y : Expect} {post : List SessionEvent}
    {r : StepResult} (h : Path Reads x (mid ++ .stepped r :: post) y) (hmid : stepped mid = []) :
    x.Owes r.openTimeNs mid ∧ Path Reads (.last r.openTimeNs) post y := by
  -- by induction on the events before the next step; none of them is a step
  induction mid generalizing x with
  | nil =>
    cases h with
    | cons hstep hrest =>
      cases hstep with
      | quiet hq => cases hq.1
      | first => exact ⟨rfl, hrest⟩
      | next hlt hle => exact ⟨⟨hlt, (if_neg (not_lt.mpr hle)).symm⟩, hrest⟩
      | past hlt => exact ⟨⟨hlt, rfl, rfl⟩, hrest⟩
  | cons e mid ih =>
    cases h with
    | cons hstep hrest =>
      cases hstep with
      | quiet hq =>
        have hjumps : jumps (e :: mid) = jumps mid := List.filterMap_cons_none hq.2
        obtain ⟨howes, hpath⟩ := ih hrest ((List.filterMap_cons_none hq.1).symm.trans hmid)
        refine ⟨?_, hpath⟩
        cases x with
        | anything => exact hjumps.trans howes
        | last a => exact ⟨howes.1, hjumps.trans howes.2⟩
        | hole a hi => exact ⟨howes.1, howes.2.1, hjumps.trans howes.2.2⟩
      | first => cases hmid
      | next => cases hmid
      | past => cases hmid
      | record hlt =>
        obtain ⟨⟨-, rfl, hnone⟩, hpath⟩ := ih hrest hmid
        have hpos := tradingTfNs_pos
        refine ⟨⟨by omega, ?_⟩, hpath⟩
        rw [if_pos hlt, card_missingOpens hlt.le]
        show _ :: jumps mid = _
        rw [hnone]

/-- Every bar that is stepped later opens later. -/
theorem Path.later {x y : Expect} {es : List SessionEvent} (h : Path Reads x es y) :
    (stepped es).Pairwise (· < ·) ∧ ∀ t ∈ stepped es, ∀ a ∈ x.before, a < t := by
  have hpos := tradingTfNs_pos
  induction h with
  | nil => exact ⟨.nil, fun t ht => by cases ht⟩
  | @cons x y z e es hstep _ ih =>
    obtain ⟨hsorted, hlater⟩ := ih
    -- A step puts its bar in front of those that follow, all of which open after it.
    have hcons {r : StepResult} (he : e = .stepped r) (hy : y = .last r.openTimeNs)
        (hx : ∀ a ∈ x.before, a < r.openTimeNs) : (stepped (e :: es)).Pairwise (· < ·) ∧
        ∀ t ∈ stepped (e :: es), ∀ a ∈ x.before, a < t := by
      subst he hy
      have hafter : ∀ t ∈ stepped es, r.openTimeNs < t := fun t ht => hlater t ht _ rfl
      refine ⟨List.pairwise_cons.mpr ⟨hafter, hsorted⟩, fun t ht a ha => ?_⟩
      rcases List.mem_cons.mp ht with rfl | ht
      · exact hx a ha
      · exact (hx a ha).trans (hafter t ht)
    cases hstep with
    | quiet hq =>
      rw [show stepped (e :: es) = stepped es from List.filterMap_cons_none hq.1]
      exact ⟨hsorted, hlater⟩
    | first => exact hcons rfl rfl fun a ha => by cases ha
    | next hlt _ => exact hcons rfl rfl fun a ha => by cases ha; exact hlt
    | record _ => exact ⟨hsorted, fun t ht a ha => hlater t ht a ha⟩
    | past hlt => exact hcons rfl rfl fun a ha => by cases ha; omega

/-- **From one step to the next** along a path. -/
theorem Path.covered {x y : Expect} {pre mid post : List SessionEvent} {r r' : StepResult}
    (h : Path Reads x (pre ++ .stepped r :: mid ++ .stepped r' :: post) y)
    (hmid : stepped mid = []) : Covered r.openTimeNs r'.openTimeNs mid := by
  rw [List.append_assoc] at h
  obtain ⟨x', -, h⟩ := h.split
  have hafter : Path Reads (.last r.openTimeNs) (mid ++ .stepped r' :: post) y :=
    (Path.to_step [] h rfl).2
  exact (Path.to_step mid hafter hmid).1

/-! ### The handlers keep the path -/

/-- The state of the path that a session starts in. -/
def Expect.ofNextOpen : Option ℤ → Expect
  | none => .anything
  | some n => .last (n - tradingTfNs)

/-- The next opening time that the session keeps in a state of the path. -/
def Expect.nextOpen (x : Expect) : Option ℤ := x.before.map (· + tradingTfNs)

/-- A bar that may be stepped. -/
def Expect.Admits (t : ℤ) : Expect → Prop
  | .anything => True
  | .last a => a < t ∧ t ≤ a + tradingTfNs
  | .hole a hi => a + tradingTfNs < hi ∧ t = hi

/-- What is expected of a step says how its answer is read. -/
theorem Expect.Admits.reads {x : Expect} {r : StepResult} (h : x.Admits r.openTimeNs) :
    Reads x (.stepped r) (.last r.openTimeNs) := by
  cases x with
  | anything => exact .first
  | last a => exact .next h.1 h.2
  | hole a hi =>
    obtain ⟨hlt, rfl⟩ := h
    exact .past hlt

namespace TradingSession

variable {W : Type} (env : SessionEnv W)

/-- The session has come along the path to `x`. -/
def At (n₀ : Option ℤ) (x : Expect) (s : TradingSession W) : Prop :=
  Path Reads (.ofNextOpen n₀) s.events x ∧ s.nextOpen = x.nextOpen

/-- The session has come along the path. -/
def Told (n₀ : Option ℤ) (s : TradingSession W) : Prop :=
  ∃ x, Path Reads (.ofNextOpen n₀) s.events x

/-- The session is between two bars. -/
def Between (n₀ : Option ℤ) (s : TradingSession W) : Prop :=
  ∃ x, (∀ a hi, x ≠ .hole a hi) ∧ At n₀ x s

variable {n₀ : Option ℤ} {x : Expect}

/-- A session that is at a place has told it. -/
theorem At.told {s : TradingSession W} (h : At n₀ x s) : Told n₀ s := ⟨x, h.1⟩

/-- Handlers that leave the session where it is on the path. -/
def Stays {α : Type} (m : SessionM W α) : Prop :=
  ∀ n₀ x, Triple (At n₀ x) m (fun _ => At n₀ x) fun _ => At n₀ x

namespace Stays

variable {α β : Type}

/-- A value leaves the session where it is. -/
theorem ret (a : α) : Stays (pure a : SessionM W α) := fun _ _ => .ret fun _ hs => hs

/-- Reading leaves the session where it is. -/
theorem read : Stays (get : SessionM W (TradingSession W)) := fun _ _ => .read fun _ hs => hs

/-- One part and then another leave the session where it is. -/
theorem bind {m : SessionM W α} {f : α → SessionM W β} (hm : Stays m) (hf : ∀ a, Stays (f a)) :
    Stays (m >>= f) := fun n₀ x => (hm n₀ x).bind fun a => hf a n₀ x

/-- A change of the other fields. -/
theorem write {f : TradingSession W → TradingSession W} (hevents : ∀ s, (f s).events = s.events)
    (hnext : ∀ s, (f s).nextOpen = s.nextOpen) : Stays (modify f : SessionM W PUnit) :=
  fun _ _ => .write fun s hs => ⟨(hevents s).symm ▸ hs.1, (hnext s).trans hs.2⟩

/-- A loop over parts that leave the session where it is. -/
theorem loop {f : α → SessionM W PUnit} (h : ∀ a, Stays (f a)) (as : List α) :
    Stays (as.forM f) := fun n₀ x => .loop as fun a _ => h a n₀ x

/-- Asking leaves the session where it is. -/
theorem ask (q : Ask W α β) (a : α) : Stays (TradingSession.ask q a) := by
  intro n₀ x s hs
  unfold TradingSession.ask
  split
  · exact hs
  · exact hs

/-- An event that is no step leaves the session where it is. -/
theorem append {e : SessionEvent} (he : e.Quiet) : Stays (append e : SessionM W Unit) :=
  fun _ _ => .write fun _ hs => ⟨hs.1.snoc (.quiet he), hs.2⟩

/-- Reloading the limits leaves the session where it is. -/
theorem reloadLimitsIfChanged (force : Bool) : Stays (reloadLimitsIfChanged env force) := by
  refine (ask _ _).bind fun reading => ?_
  cases reading with
  | unchanged => exact ret _
  | rejected error => exact append ⟨rfl, rfl⟩
  | changed limits stateMachine =>
    exact (write (fun _ => rfl) fun _ => rfl).bind fun _ => append ⟨rfl, rfl⟩

/-- A release leaves the session where it is. -/
theorem applyRelease (cmd : ControlCommand) : Stays (applyRelease env cmd) := by
  refine read.bind fun s => (append ⟨rfl, rfl⟩).bind fun _ => ?_
  split
  · refine bind ?_ fun _ => ask _ _
    exact write (fun _ => rfl) fun _ => rfl
  · exact ask _ _

/-- A command leaves the session where it is. -/
theorem apply (cmd : ControlCommand) : Stays (apply env cmd) := by
  unfold TradingSession.apply
  cases cmd.kind with
  | killswitchRelease =>
    refine read.bind fun s => ?_
    split
    · exact applyRelease env cmd
    · exact ret _
  | riskLimitsChanged => exact reloadLimitsIfChanged env true

/-- Taking the commands leaves the session where it is. -/
theorem queueCommands : Stays (queueCommands env) := by
  unfold TradingSession.queueCommands
  split
  · exact ret _
  · refine (ask _ _).bind fun cmds => ?_
    exact write (fun _ => rfl) fun _ => rfl

/-- Fetching candles leaves the session where it is. -/
theorem fetch (lo hi : ℤ) : Stays (fetch env lo hi) := by
  unfold TradingSession.fetch
  split
  · exact ret _
  · exact ask _ _

/-- The next command leaves the session where it is. -/
theorem applyNext (cmd : ControlCommand) : Stays (applyNext env cmd) := by
  refine bind ?_ fun _ => apply env cmd
  exact write (fun _ => rfl) fun _ => rfl

/-- All commands leave the session where it is. -/
theorem processCommands : Stays (processCommands env) :=
  (queueCommands env).bind fun _ => read.bind fun s => loop (applyNext env) s.pending

end Stays

/-- **A step** of the loop reads a bar that the path admits; the session waits for the next
    one, or has raised. -/
theorem doStep_spec {c : Candle} (hx : x.Admits c.openTimeNs) :
    Triple (At n₀ x) (doStep env c) (fun _ => At n₀ (.last c.openTimeNs)) fun _ => Told n₀ := by
  have quiet {α : Type} {m : SessionM W α} (y : Expect) (h : Stays m) :
      Triple (At n₀ y) m (fun _ => At n₀ y) fun _ => Told n₀ :=
    (h n₀ y).consequence (fun _ hs => hs) (fun _ _ hs => hs) fun _ _ hs => hs.told
  refine (quiet x (Stays.reloadLimitsIfChanged env false)).bind fun _ => ?_
  refine (quiet x (Stays.ask _ _)).bind fun v => ?_
  refine (quiet x (Stays.append ⟨rfl, rfl⟩)).bind fun _ => ?_
  refine (quiet x Stays.read).bind fun s => ?_
  cases hl : loopOnCandle s.loop c v with
  | error e => exact .raise fun s hs => hs.told
  | ok result =>
    obtain ⟨r, l⟩ := result
    have hopen : r.openTimeNs = c.openTimeNs := by
      unfold loopOnCandle at hl
      split at hl
      · cases hl
      · split at hl
        · cases hl
        · exact (TradingLoop.step_eq_ok hl).2.2.1
    have hread : Reads x (.stepped r) (.last c.openTimeNs) := hopen ▸ (hopen ▸ hx).reads
    -- The loop has stepped: the next opening time is set, and the step is written down.
    refine .bind (Q := fun _ s => Path Reads (.ofNextOpen n₀) s.events x ∧
      s.nextOpen = some (c.openTimeNs + tradingTfNs)) ?_ fun _ => ?_
    · exact .write fun s hs => ⟨hs.1, rfl⟩
    · refine .bind (Q := fun _ => At n₀ (.last c.openTimeNs)) ?_ fun _ =>
        quiet _ (Stays.ask _ _)
      exact .write fun s hs => ⟨hs.1.snoc hread, hs.2⟩


/-- What leaves the session in its place keeps every condition on the place. -/
theorem Stays.keeps {α : Type} {m : SessionM W α} (h : Stays m) (p : Expect → Prop) :
    Triple (fun s => ∃ x, p x ∧ At n₀ x s) m (fun _ s => ∃ x, p x ∧ At n₀ x s)
      fun _ => Told n₀ := by
  rintro s ⟨x, hx, hs⟩
  have hplace : Triple (At n₀ x) m (fun _ s => ∃ x, p x ∧ At n₀ x s) fun _ => Told n₀ :=
    (h n₀ x).consequence (fun _ h => h) (fun _ _ h => ⟨x, hx, h⟩) fun _ _ h => h.told
  exact hplace s hs

/-- The fill has come to a bar before `hi`. -/
def Filling (n₀ : Option ℤ) (hi : ℤ) (s : TradingSession W) : Prop :=
  ∃ x, (∃ a, a < hi ∧ x = .last a) ∧ At n₀ x s

/-- The session may step the bar at `t`. -/
def Ready (n₀ : Option ℤ) (t : ℤ) (s : TradingSession W) : Prop :=
  ∃ x, x.Admits t ∧ At n₀ x s

/-- A step at the candle that is ready takes the session to it. -/
theorem doStep_ready (c : Candle) :
    Triple (Ready n₀ c.openTimeNs) (doStep env c) (fun _ => At n₀ (.last c.openTimeNs))
      fun _ => Told n₀ := by
  rintro s ⟨x, hx, hs⟩
  exact doStep_spec env hx s hs

/-- A bar of the filler moves the fill on, and never past `hi`. -/
theorem stepIfNext_spec {c : Candle} {hi : ℤ} (hc : c.openTimeNs < hi) :
    Triple (Filling n₀ hi) (stepIfNext env c) (fun _ => Filling n₀ hi) fun _ => Told n₀ := by
  refine .bind (Q := fun s s' => s' = s ∧ Filling n₀ hi s) (.read fun s hs => ⟨rfl, hs⟩)
    fun s => ?_
  have hpos := tradingTfNs_pos
  refine .branch (fun hnext => ?_) fun _ => .ret fun s' hs => hs.1 ▸ hs.2
  -- The bar is the one that follows the last one.
  refine (doStep_ready env c).consequence ?_ (fun _ s hs => ⟨_, ⟨_, hc, rfl⟩, hs⟩)
    fun _ _ hs => hs
  rintro s' ⟨rfl, x, ⟨a, ha, rfl⟩, hat⟩
  have hopen : a + tradingTfNs = c.openTimeNs := Option.some.inj (hat.2.symm.trans hnext)
  exact ⟨.last a, ⟨by omega, by omega⟩, hat⟩

/-- What is still missing is recorded, so that the bar at `hi` may be stepped. -/
theorem recordMissing_spec (hi : ℤ) :
    Triple (Filling n₀ hi) (recordMissing hi : SessionM W Unit) (fun _ => Ready n₀ hi)
      fun _ => Told n₀ := by
  refine .bind (Q := fun s s' => s' = s ∧ Filling n₀ hi s) (.read fun s hs => ⟨rfl, hs⟩)
    fun s => ?_
  rintro s' ⟨rfl, x, ⟨a, ha, rfl⟩, hat⟩
  have hnext : s'.nextOpen = some (a + tradingTfNs) := hat.2
  simp only [hnext]
  by_cases hlt : a + tradingTfNs < hi
  · rw [if_pos hlt]
    exact ⟨.hole a hi, ⟨hlt, rfl⟩, hat.1.snoc (.record hlt), hat.2⟩
  · rw [if_neg hlt]
    exact ⟨.last a, ⟨ha, by omega⟩, hat⟩

/-- What is wanted of the candles that were fetched opens before the candle. -/
theorem wanted_lt {lo hi : ℤ} {fetched : List Candle} {c : Candle}
    (hc : c ∈ wanted lo hi fetched) : c.openTimeNs < hi := by
  have hp := List.of_mem_filter (List.mem_mergeSort.mp hc)
  simp only [Bool.and_eq_true, decide_eq_true_eq] at hp
  exact hp.1.2

/-- **The fill**: whatever the filler answers, the bar at `hi` may be stepped afterwards. -/
theorem fillDiscontinuity_spec (lo hi : ℤ) :
    Triple (Filling n₀ hi) (fillDiscontinuity env lo hi) (fun _ => Ready n₀ hi)
      fun _ => Told n₀ := by
  refine ((Stays.fetch env lo hi).keeps _).bind fun fetched => ?_
  refine Triple.bind (Q := fun _ => Filling n₀ hi) ?_ fun _ => recordMissing_spec hi
  exact .loop _ fun c hc => stepIfNext_spec env (wanted_lt hc)

/-- **A candle** keeps the session on the path and between two bars, or raises on it. -/
theorem onCandle_spec (c : Candle) :
    Triple (Between n₀) (onCandle env c) (fun _ => Between n₀) fun _ => Told n₀ := by
  have hpos := tradingTfNs_pos
  have hstep : Triple (Ready n₀ c.openTimeNs) (doStep env c) (fun _ => Between n₀)
      fun _ => Told n₀ :=
    (doStep_ready env c).consequence (fun _ hs => hs)
      (fun _ s hs => ⟨_, fun _ _ h => (by cases h), hs⟩) fun _ _ hs => hs
  refine ((Stays.processCommands env).keeps _).bind fun _ => ?_
  refine .bind (Q := fun s s' => s' = s ∧ Between n₀ s) (.read fun s hs => ⟨rfl, hs⟩)
    fun s => ?_
  cases hnext : s.nextOpen with
  | none =>
    -- Without a warm-up the first bar of the session is any bar.
    refine hstep.consequence ?_ (fun _ _ hs => hs) fun _ _ hs => hs
    rintro s' ⟨rfl, x, hx, hat⟩
    cases x with
    | anything => exact ⟨.anything, trivial, hat⟩
    | last a => cases hat.2.symm.trans hnext
    | hole a hi => exact absurd rfl (hx a hi)
  | some lo =>
    have hlast {s' : TradingSession W} (hs : s' = s ∧ Between n₀ s) :
        At n₀ (.last (lo - tradingTfNs)) s' := by
      obtain ⟨rfl, x, hx, hat⟩ := hs
      cases x with
      | anything => cases hat.2.symm.trans hnext
      | last a =>
        have ha : a + tradingTfNs = lo := Option.some.inj (hat.2.symm.trans hnext)
        rwa [← ha, add_sub_cancel_right]
      | hole a hi => exact absurd rfl (hx a hi)
    refine .branch (fun _ => .ret fun s' hs => hs.1 ▸ hs.2) fun hge => ?_
    refine Triple.bind (Q := fun _ => Ready n₀ c.openTimeNs) ?_ fun _ => hstep
    refine .branch (fun hlt => ?_) fun hle => .ret fun s' hs => ?_
    · exact (fillDiscontinuity_spec env lo _).consequence
        (fun s' hs => ⟨_, ⟨_, by omega, rfl⟩, hlast hs⟩) (fun _ _ hs => hs) fun _ _ hs => hs
    · exact ⟨.last (lo - tradingTfNs), ⟨by omega, by omega⟩, hlast hs⟩

/-- A session begins between two candles. -/
theorem start_between (world : W) (runId : String) (loop : TradingLoop) (nextOpen : Option ℤ) :
    Between nextOpen (start world runId loop nextOpen) := by
  cases nextOpen with
  | none => exact ⟨.anything, fun _ _ h => (by cases h), .nil _, rfl⟩
  | some n =>
    exact ⟨.last (n - tradingTfNs), fun _ _ h => (by cases h), .nil _,
      congrArg some (sub_add_cancel n _).symm⟩

/-- A session between two candles has told where it is. -/
theorem Between.told {s : TradingSession W} (h : Between n₀ s) : Told n₀ s := by
  obtain ⟨x, -, hat⟩ := h
  exact hat.told

/-- A session is told as far as it comes. -/
theorem deliver_told (cs : List Candle) (world : W) (runId : String) (loop : TradingLoop)
    (nextOpen : Option ℤ) :
    Told nextOpen (leaves (deliver env cs) (start world runId loop nextOpen)) := by
  have hrun : Triple (Between nextOpen) (deliver env cs) (fun _ => Between nextOpen)
      fun _ => Told nextOpen := .loop cs fun c _ => onCandle_spec env c
  exact (hrun.consequence (fun _ hs => hs) (fun _ _ hs => hs.told) fun _ _ hs => hs).ensures
    (start_between world runId loop nextOpen)

/-- A candle behind a hole, where no command waits: the fill, the record and the step. -/
theorem onCandle_hole {filler : Ask W (ℤ × ℤ) (List Candle)} {fetched : List Candle} {c : Candle}
    {s : TradingSession W} {lo : ℤ} {w : W} (hcommands : env.commands = none)
    (hfiller : env.gapFiller = some filler) (hpending : s.pending = [])
    (hnext : s.nextOpen = some lo) (hlt : lo < c.openTimeNs)
    (hfetch : filler (lo, c.openTimeNs) s.world = (.ok fetched, w)) :
    onCandle env c s = (do
      (wanted lo c.openTimeNs fetched).forM (stepIfNext env)
      recordMissing c.openTimeNs
      doStep env c : SessionM W Unit) { s with world := w } := by
  have hprocess : processCommands env s = .ok () s := by
    simp only [processCommands, queueCommands, hcommands]
    show (s.pending.forM (applyNext env)) s = _
    rw [hpending]
    rfl
  have hasked : fetch env lo c.openTimeNs s = .ok fetched { s with world := w } := by
    simp only [fetch, hfiller, ask, hfetch]
  have hget : (get : SessionM W (TradingSession W)) s = .ok s s := rfl
  rw [onCandle, bind_returned hprocess, bind_returned hget]
  simp only [hnext]
  rw [if_neg (not_lt.mpr hlt.le), if_pos hlt, fillDiscontinuity, bind_assoc,
    bind_returned hasked, bind_assoc, hnext]

end TradingSession

/-! ### A session with a hole -/

/-- The first bar that was stepped, and the events around it. -/
theorem stepped_eq_cons {es : List SessionEvent} {t : ℤ} {ts : List ℤ}
    (h : stepped es = t :: ts) : ∃ mid r post, es = mid ++ .stepped r :: post ∧
      stepped mid = [] ∧ r.openTimeNs = t ∧ stepped post = ts := by
  obtain ⟨mid, e, post, rfl, hmid, he, hpost⟩ := List.filterMap_eq_cons_iff.mp h
  cases e with
  | stepped r =>
    exact ⟨mid, r, post, rfl, List.filterMap_eq_nil_iff.mpr hmid, Option.some.inj he, hpost⟩
  | candle | discontinuity | killswitchRelease | riskLimits | riskLimitsRejected => cases he

/-- A closed minute around 100. -/
def minuteCandle (k : ℤ) : Candle where
  instrument := "BTC"
  venue := "BINANCE_USDM"
  tf := "1m"
  openTimeNs := k * tradingTfNs
  closeTimeNs := (k + 1) * tradingTfNs - 1000000
  o := 100
  h := 101
  l := 99
  c := 100
  volume := 7
  quoteVolume := 700
  tradesCount := 5
  vwap := none
  isClosed := true
  isSynthetic := false
  src := 1
  tsEventNs := (k + 1) * tradingTfNs - 1000000
  tsIngestNs := (k + 1) * tradingTfNs
  eventUid := ""

/-- The core has no opinion of the candle. -/
def neutralView (c : Candle) : StepView where
  nowNs := c.tsIngestNs
  q := some 1
  uRaw := 0
  kappa := 1
  uFinal := 0
  atr := some 1
  sT := 1
  volRatio := some 1
  volRatio_nonneg := nonneg_of_mem_some_one_rat

/-- A filler that has two of the missing minutes, and a later one that nobody asks for. -/
def holeEnv : SessionEnv Unit where
  commands := none
  gapFiller := some fun _ w => (.ok [minuteCandle 11, minuteCandle 12, minuteCandle 15], w)
  readLimits := fun _ w => (.ok .unchanged, w)
  view := fun c w => (.ok (neutralView c), w)
  onStep := fun _ w => (.ok (), w)
  onOutOfBand := fun _ w => (.ok (), w)

/-- The handler returns, and leaves a session that passes the test. -/
def passes (p : TradingSession Unit → Bool) :
    EStateM.Result WorkerError (TradingSession Unit) Unit → Bool
  | .ok _ s => p s
  | .error _ _ => false

/-- What the session does in order: the two minutes of the filler, the record, and the candle. -/
def filledHole : SessionM Unit Unit := do
  TradingSession.onCandle holeEnv (minuteCandle 10)
  [minuteCandle 11, minuteCandle 12].forM (TradingSession.stepIfNext holeEnv)
  TradingSession.recordMissing (minuteCandle 15).openTimeNs
  TradingSession.doStep holeEnv (minuteCandle 15)

/-- The minutes are wanted up to the candle behind the hole. -/
theorem wanted_hole : TradingSession.wanted (11 * tradingTfNs) (minuteCandle 15).openTimeNs
    [minuteCandle 11, minuteCandle 12, minuteCandle 15] = [minuteCandle 11, minuteCandle 12] := by
  refine List.mergeSort_of_pairwise (l := [minuteCandle 11, minuteCandle 12]) ?_
  exact List.pairwise_pair.mpr (by decide)

/-! ### The law -/

/-- **No silent jump.** Whatever candles a session is handed, whatever the filler and the rest
    of its surroundings answer, and also when it raises: the bars that it steps open strictly
    later and later, and between two that follow each other there is one record of a
    discontinuity, with the number of the bars that are missing, if they are more than a
    timeframe apart, and none otherwise.  The end of the warm-up counts as a bar. -/
theorem no_silent_jump {W : Type} (env : SessionEnv W) (cs : List Candle) (world : W)
    (runId : String) (loop : TradingLoop) (nextOpen : Option ℤ) :
    let es := (leaves (TradingSession.deliver env cs)
      (TradingSession.start world runId loop nextOpen)).events
    (stepped es).Pairwise (· < ·) ∧
    (∀ pre r mid r' post, es = pre ++ .stepped r :: mid ++ .stepped r' :: post →
      stepped mid = [] → Covered r.openTimeNs r'.openTimeNs mid) ∧
    (∀ n ∈ nextOpen, ∀ mid r post, es = mid ++ .stepped r :: post → stepped mid = [] →
      Covered (n - tradingTfNs) r.openTimeNs mid) := by
  intro es
  obtain ⟨x, hpath⟩ := TradingSession.deliver_told env cs world runId loop nextOpen
  change Path Reads (.ofNextOpen nextOpen) es x at hpath
  refine ⟨(Path.later hpath).1, fun pre r mid r' post hes hmid => ?_,
    fun n hn mid r post hes hmid => ?_⟩
  · rw [hes] at hpath
    exact Path.covered hpath hmid
  · rw [hes, Option.mem_def.mp hn] at hpath
    exact (Path.to_step _ hpath hmid).1

/-- A session that is handed the minutes 10 and 15 steps 11 and 12 too, which the filler has, and
    records that two bars are missing before 15. -/
theorem no_silent_jump_hole : ∃ loop mid, sampleLoop = .ok loop ∧
    let es := (leaves (TradingSession.deliver holeEnv [minuteCandle 10, minuteCandle 15])
      (TradingSession.start () "run" loop none)).events
    stepped es = [10 * tradingTfNs, 11 * tradingTfNs, 12 * tradingTfNs, 15 * tradingTfNs] ∧
    jumps es = [(13 * tradingTfNs, 15 * tradingTfNs, 2)] ∧
    (∃ pre r r' post, es = pre ++ .stepped r :: mid ++ .stepped r' :: post ∧
      r.openTimeNs = 12 * tradingTfNs ∧ r'.openTimeNs = 15 * tradingTfNs) ∧
    Covered (12 * tradingTfNs) (15 * tradingTfNs) mid := by
  have hfirst : (sampleLoop.toOption.any fun loop =>
      passes (fun s => decide (s.nextOpen = some (11 * tradingTfNs) ∧ s.pending = []))
        (TradingSession.onCandle holeEnv (minuteCandle 10)
          (TradingSession.start () "run" loop none))) = true := by
    decide +kernel
  have hevents : (sampleLoop.toOption.any fun loop =>
      let es := (leaves filledHole (TradingSession.start () "run" loop none)).events
      decide (stepped es = [10 * tradingTfNs, 11 * tradingTfNs, 12 * tradingTfNs,
        15 * tradingTfNs] ∧ jumps es = [(13 * tradingTfNs, 15 * tradingTfNs, 2)])) = true := by
    decide +kernel
  cases hloop : sampleLoop with
  | error e =>
    rw [hloop] at hfirst
    cases hfirst
  | ok loop =>
    rw [hloop] at hfirst hevents
    simp only [Except.toOption, Option.any_some] at hfirst hevents
    obtain ⟨hstepped, hjumps⟩ := of_decide_eq_true hevents
    have hsame : leaves (TradingSession.deliver holeEnv [minuteCandle 10, minuteCandle 15])
        (TradingSession.start () "run" loop none) =
        leaves filledHole (TradingSession.start () "run" loop none) := by
      cases h1 : TradingSession.onCandle holeEnv (minuteCandle 10)
          (TradingSession.start () "run" loop none) with
      | error e s =>
        rw [h1] at hfirst
        cases hfirst
      | ok u s =>
        rw [h1] at hfirst
        obtain ⟨hnext, hpending⟩ := of_decide_eq_true hfirst
        have hdeliver : TradingSession.deliver holeEnv [minuteCandle 10, minuteCandle 15]
            (TradingSession.start () "run" loop none) =
            TradingSession.onCandle holeEnv (minuteCandle 15) s :=
          (bind_returned h1 _).trans (forM_single _ _ _)
        have hhole := TradingSession.onCandle_hole (c := minuteCandle 15) holeEnv rfl rfl
          hpending hnext (by decide) rfl
        rw [wanted_hole] at hhole
        rw [leaves, leaves, hdeliver, hhole]
        unfold filledHole
        rw [bind_returned h1]
    refine ⟨loop, ?_⟩
    obtain ⟨-, hcovered, -⟩ := no_silent_jump holeEnv [minuteCandle 10, minuteCandle 15] () "run"
      loop none
    rw [hsame] at hcovered ⊢
    -- the events fall apart at the bars that were stepped
    obtain ⟨pre₁, r₁, rest₁, hes₁, -, -, hstepped₁⟩ := stepped_eq_cons hstepped
    obtain ⟨pre₂, r₂, rest₂, hes₂, -, -, hstepped₂⟩ := stepped_eq_cons hstepped₁
    obtain ⟨pre₃, r, rest₃, hes₃, -, hr, hstepped₃⟩ := stepped_eq_cons hstepped₂
    obtain ⟨mid, r', post, hes₄, hmid, hr', -⟩ := stepped_eq_cons hstepped₃
    have hes : (leaves filledHole (TradingSession.start () "run" loop none)).events =
        (pre₁ ++ .stepped r₁ :: pre₂ ++ .stepped r₂ :: pre₃) ++ .stepped r :: mid ++
          .stepped r' :: post := by
      rw [hes₁, hes₂, hes₃, hes₄]
      simp only [List.append_assoc, List.cons_append]
    have hcover := hcovered _ r mid r' post hes hmid
    rw [hr, hr'] at hcover
    exact ⟨mid, rfl, hstepped, hjumps, ⟨_, r, r', post, hes, hr, hr'⟩, hcover⟩

end FuzzHelm
