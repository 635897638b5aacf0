import FuzzHelm.Core.Enums
import FuzzHelm.Lib.Run
import Mathlib.Algebra.Order.Field.Rat
import Mathlib.Data.List.DropRight
import Mathlib.Tactic.Linarith

namespace FuzzHelm

open Lib

/-!
# Reconnecting

How long to wait before the next connection, when silence counts as a broken connection, and
which errors are worth another try.

* `Backoff` — the pauses: `ceiling`, which raises where the power of the factor overflows, and
  `nextDelay`; the numbers drawn are a parameter;
* `HeartbeatWatchdog` — the time of the last frame, and whether its silence was reported;
* `CloseClass`, `classifyCloseCode`, `classifyHttpStatus`, `Disconnect`;
* `silence_reported_once` — what `poll` answers after any use of a watchdog.

Seconds are exact numbers.
-/

/-! ### Pauses -/

/-- `JitterMode`: how chance spreads the pauses. -/
inductive JitterMode where
  | equal
  | full
  | none
  deriving DecidableEq, Repr

/-- The settings that `Backoff(...)` does not refuse. -/
structure BackoffSettings where
  baseS : ℚ
  capS : ℚ
  factor : ℚ
  jitter : JitterMode
  base_pos : 0 < baseS
  base_le_cap : baseS ≤ capS
  one_le_factor : 1 ≤ factor

/-- The generator: `uniform n c` is its draw number `n` when that is from `[0, c]`. -/
structure UniformDraws where
  uniform : ℕ → ℚ → ℚ
  nonneg : ∀ n c, 0 ≤ c → 0 ≤ uniform n c
  le : ∀ n c, 0 ≤ c → uniform n c ≤ c

/-- `Backoff`: the settings with the attempts so far. -/
structure Backoff where
  settings : BackoffSettings
  attempt : ℕ
  drawn : ℕ
  history : List ℚ

namespace BackoffSettings

variable (s : BackoffSettings)

/-- From here on the power of a float is rounded past the largest float, and raises. -/
def floatLimit : ℚ := 2 ^ 1024 - 2 ^ 970

/-- `ceiling`: the pauses grow by the factor up to the cap.  The source takes the power before the
    minimum, so that a large factor raises long before the thousandth attempt. -/
def ceiling (attempt : ℕ) : Except PyError ℚ :=
  if 1000 < attempt then .ok s.capS
  else if floatLimit ≤ s.factor ^ attempt then .error .overflowError
  else .ok (min s.capS (s.baseS * s.factor ^ attempt))

/-- A ceiling raises nothing but the overflow. -/
theorem ceiling_error {attempt : ℕ} {e : PyError} (h : s.ceiling attempt = .error e) :
    e = .overflowError := by
  unfold ceiling at h
  split at h
  · cases h
  · split at h
    · cases h
      rfl
    · cases h

/-- A ceiling that does not raise is positive. -/
theorem ceiling_pos {attempt : ℕ} {top : ℚ} (h : s.ceiling attempt = .ok top) : 0 < top := by
  have hcap : 0 < s.capS := s.base_pos.trans_le s.base_le_cap
  have hfactor : 0 < s.factor := one_pos.trans_le s.one_le_factor
  unfold ceiling at h
  split at h
  · cases h
    exact hcap
  · split at h
    · cases h
    · cases h
      exact lt_min hcap (mul_pos s.base_pos (pow_pos hfactor attempt))

end BackoffSettings

namespace Backoff

/-- `Backoff(...)`: no attempt has been made. -/
def new (settings : BackoffSettings) : Backoff := ⟨settings, 0, 0, []⟩

variable (draws : UniformDraws) (b : Backoff)

/-- The pause for this ceiling, and how many numbers it takes. -/
def jittered (c : ℚ) : ℚ × ℕ :=
  match b.settings.jitter with
  | .none => (c, 0)
  | .full => (draws.uniform b.drawn c, 1)
  | .equal => (c / 2 + draws.uniform b.drawn (c / 2), 1)

/-- `next_delay`: where the ceiling raises, nothing is counted. -/
def nextDelay : Except PyError (ℚ × Backoff) := do
  let top ← b.settings.ceiling b.attempt
  let d := b.jittered draws top
  return (d.1, { b with
    attempt := b.attempt + 1, drawn := b.drawn + d.2, history := b.history ++ [d.1] })

/-- `reset`: the next attempt is the first one again. -/
def reset : Backoff := { b with attempt := 0 }

/-- The pause for a ceiling is at most the ceiling and, without full jitter, at least its half. -/
theorem jittered_bounds {top : ℚ} (hpos : 0 < top) :
    (b.jittered draws top).1 ≤ top ∧
      (b.settings.jitter ≠ .full → top / 2 ≤ (b.jittered draws top).1) := by
  unfold jittered
  cases hmode : b.settings.jitter with
  | none =>
    refine ⟨le_rfl, fun _ => ?_⟩
    show top / 2 ≤ top
    linarith
  | full => exact ⟨draws.le _ _ hpos.le, fun hfull => absurd rfl hfull⟩
  | equal =>
    have hhalf : 0 ≤ top / 2 := by linarith
    have hle := draws.le b.drawn (top / 2) hhalf
    have hnonneg := draws.nonneg b.drawn (top / 2) hhalf
    refine ⟨?_, fun _ => ?_⟩
    · show top / 2 + _ ≤ top
      linarith
    · show top / 2 ≤ top / 2 + _
      linarith

/-- What the next pause is, where the ceiling does not raise. -/
theorem nextDelay_eq_ok {r : ℚ × Backoff} (h : b.nextDelay draws = .ok r) :
    r.2.settings = b.settings ∧ r.2.attempt = b.attempt + 1 ∧
      ∃ top, b.settings.ceiling b.attempt = .ok top ∧ 0 < top ∧ r.1 ≤ top ∧
        (b.settings.jitter ≠ .full → top / 2 ≤ r.1) := by
  simp only [nextDelay, bind_eq_ok, pure, Except.pure, Except.ok.injEq] at h
  obtain ⟨top, htop, rfl⟩ := h
  have hpos := b.settings.ceiling_pos htop
  exact ⟨rfl, rfl, top, htop, hpos, b.jittered_bounds draws hpos⟩

/-- It raises where the ceiling does. -/
theorem nextDelay_eq_error {e : PyError} (h : b.nextDelay draws = .error e) :
    b.settings.ceiling b.attempt = .error e := by
  unfold nextDelay at h
  cases htop : b.settings.ceiling b.attempt with
  | error e' =>
    rw [htop] at h
    cases h
    rfl
  | ok top =>
    rw [htop] at h
    cases h

end Backoff

/-! ### Silence -/

/-- `HeartbeatWatchdog`: the timeout, the last time something was heard, and whether silence is
    still to be reported. -/
structure HeartbeatWatchdog where
  timeoutNs : ℤ
  lastNs : Option ℤ
  fires : ℕ
  armed : Bool

namespace HeartbeatWatchdog

/-- `HeartbeatWatchdog(...)`, with the timeout in nanoseconds. -/
def new (timeoutNs : ℤ) (startNs : Option ℤ) : HeartbeatWatchdog := ⟨timeoutNs, startNs, 0, true⟩

variable (w : HeartbeatWatchdog)

/-- `beat`: something was heard at `t`. -/
def beat (t : ℤ) : HeartbeatWatchdog := { w with lastNs := some t, armed := true }

/-- `deadline_ns`: silence lasts the timeout from the last time on. -/
def deadlineNs : Option ℤ := w.lastNs.map (· + w.timeoutNs)

/-- `expired`: the deadline is over, at the deadline itself too. -/
def expired (now : ℤ) : Bool := w.deadlineNs.any (decide <| · ≤ now)

/-- `poll`: a silence is reported once, and the watchdog waits for the next beat. -/
def poll (now : ℤ) : Option ℤ × HeartbeatWatchdog :=
  match w.deadlineNs with
  | none => (none, w)
  | some d =>
    if !w.armed || decide (now < d) then (none, w)
    else (some d, { w with armed := false, fires := w.fires + 1 })

/-- `disarm`: silence is expected from here on. -/
def disarm : HeartbeatWatchdog := { w with armed := false }

/-- `check_gap`: a beat that comes too late still reports the silence before it. -/
def checkGap (t : ℤ) : Option ℤ × HeartbeatWatchdog :=
  match w.lastNs with
  | none => (none, w.beat t)
  | some last =>
    if w.timeoutNs < t - last then
      (some (last + w.timeoutNs), { w with fires := w.fires + 1 }.beat t)
    else (none, w.beat t)

end HeartbeatWatchdog

/-- The calls of the watchdog. -/
inductive WatchdogCall where
  | beat (t : ℤ)
  | poll (now : ℤ)
  | disarm
  | checkGap (t : ℤ)

/-- The time of the frame that a call reports. -/
def WatchdogCall.heard : WatchdogCall → Option ℤ
  | .beat t => some t
  | .checkGap t => some t
  | _ => none

/-- The call takes note of a break, or of nothing. -/
def WatchdogCall.disarms : WatchdogCall → Bool
  | .disarm => true
  | _ => false

/-- The log of a run of the watchdog. -/
abbrev WatchdogLog := List (Entry HeartbeatWatchdog WatchdogCall (Option ℤ))

/-- The calls after the last frame. -/
def silence (log : WatchdogLog) : WatchdogLog := log.rtakeWhile fun e => e.call.heard.isNone

/-- The time of the last frame. -/
def lastHeard (startNs : Option ℤ) (log : WatchdogLog) : Option ℤ :=
  ((log.filterMap fun e => e.call.heard).getLast?).or startNs

/-- Nobody has said yet that the connection is broken: no call since the last frame has answered
    with a deadline, and none has disarmed the watchdog. -/
def unreported (log : WatchdogLog) : Prop :=
  ∀ e ∈ silence log, e.call.disarms = false ∧ e.answer = none

section Log

variable (log : WatchdogLog) (startNs : Option ℤ) (w w' : HeartbeatWatchdog) (call : WatchdogCall)
  (answer : Option ℤ)

/-- One call more may be heard of later. -/
theorem lastHeard_concat : lastHeard startNs (log ++ [⟨w, call, answer, w'⟩]) =
    call.heard.or (lastHeard startNs log) := by
  unfold lastHeard
  rw [List.filterMap_append]
  cases h : call.heard with
  | none => simp [h]
  | some t => simp [h]

/-- A silence is unreported from the last time something was heard, until a poll or a disarm. -/
theorem unreported_concat : unreported (log ++ [⟨w, call, answer, w'⟩]) ↔
    call.heard.isSome ∨ (call.disarms = false ∧ answer = none ∧ unreported log) := by
  unfold unreported silence
  rw [List.rtakeWhile_concat]
  cases h : call.heard with
  | none =>
    simp only [Option.isNone_none, if_true, List.mem_append, List.mem_singleton,
      Option.isSome_none, Bool.false_eq_true, false_or]
    constructor
    · intro hall
      have hlast := hall _ (.inr rfl)
      exact ⟨hlast.1, hlast.2, fun e he => hall e (.inl he)⟩
    · rintro ⟨hdisarms, hanswer, hall⟩ e (he | rfl)
      · exact hall e he
      · exact ⟨hdisarms, hanswer⟩
  | some t => simp

end Log

namespace HeartbeatWatchdog

/-- One call and its answer. -/
def act (w : HeartbeatWatchdog) : WatchdogCall → Option ℤ × HeartbeatWatchdog
  | .beat t => (none, w.beat t)
  | .poll now => w.poll now
  | .disarm => (none, w.disarm)
  | .checkGap t => w.checkGap t

/-- The runs of a watchdog. -/
abbrev WatchdogRun := Run fun (w : HeartbeatWatchdog) call answer w' =>
  w.act call = (answer, w')

/-- A poll reports a deadline just when the watchdog is armed and the deadline is over. -/
theorem poll_eq_some (w : HeartbeatWatchdog) (now d : ℤ) :
    (w.poll now).1 = some d ↔ w.armed = true ∧ w.deadlineNs = some d ∧ d ≤ now := by
  unfold poll
  -- without a deadline nothing is reported
  cases hdeadline : w.deadlineNs with
  | none => simp
  | some d' =>
    dsimp only
    -- disarmed or too early
    by_cases hskip : (!w.armed || decide (now < d')) = true
    · rw [if_pos hskip]
      rw [Bool.or_eq_true, Bool.not_eq_true', decide_eq_true_eq] at hskip
      constructor
      · intro h
        cases h
      · rintro ⟨harmed, heq, hle⟩
        rw [Option.some.injEq] at heq
        rcases hskip with hoff | hearly
        · exact absurd harmed (by simp [hoff])
        · omega
    · rw [if_neg hskip]
      rw [Bool.or_eq_true, Bool.not_eq_true', decide_eq_true_eq, not_or, Bool.not_eq_false,
        not_lt] at hskip
      -- else the deadline is the one reported
      show some d' = some d ↔ _
      constructor
      · intro h
        rw [Option.some.injEq] at h
        subst h
        exact ⟨hskip.1, rfl, hskip.2⟩
      · exact fun h => h.2.1

/-- The watchdog after `log`. -/
structure Watches (timeoutNs : ℤ) (startNs : Option ℤ) (w : HeartbeatWatchdog)
    (log : WatchdogLog) : Prop where
  timeout_eq : w.timeoutNs = timeoutNs
  last_eq : w.lastNs = lastHeard startNs log
  armed_iff : w.armed = true ↔ unreported log
  fires_eq : w.fires = log.countP fun e => e.answer.isSome

namespace Watches

variable {timeoutNs : ℤ} {startNs : Option ℤ} {w w' : HeartbeatWatchdog} {log : WatchdogLog}

/-- A new watchdog, which may have been heard of at its start. -/
theorem new (timeoutNs : ℤ) (startNs : Option ℤ) :
    Watches timeoutNs startNs (HeartbeatWatchdog.new timeoutNs startNs) [] where
  timeout_eq := rfl
  last_eq := rfl
  armed_iff := iff_of_true rfl fun _ he => absurd he List.not_mem_nil
  fires_eq := rfl

/-- A frame. -/
theorem hear (h : Watches timeoutNs startNs w log) {call : WatchdogCall} {answer : Option ℤ}
    {t : ℤ} (hcall : call.heard = some t) (hlast : w'.lastNs = some t) (harmed : w'.armed = true)
    (htimeout : w'.timeoutNs = w.timeoutNs)
    (hfires : w'.fires = w.fires + if answer.isSome then 1 else 0) :
    Watches timeoutNs startNs w' (log ++ [⟨w, call, answer, w'⟩]) where
  timeout_eq := htimeout.trans h.timeout_eq
  last_eq := by
    rw [lastHeard_concat, hcall, hlast]
    rfl
  armed_iff := by
    rw [unreported_concat, hcall]
    exact iff_of_true harmed (.inl rfl)
  fires_eq := by
    rw [hfires, h.fires_eq, List.countP_append, List.countP_singleton]

/-- A call that is no frame. -/
theorem keep (h : Watches timeoutNs startNs w log) {call : WatchdogCall} {answer : Option ℤ}
    (hcall : call.heard = none) (hlast : w'.lastNs = w.lastNs)
    (harmed : w'.armed = (w.armed && !(call.disarms || answer.isSome)))
    (htimeout : w'.timeoutNs = w.timeoutNs)
    (hfires : w'.fires = w.fires + if answer.isSome then 1 else 0) :
    Watches timeoutNs startNs w' (log ++ [⟨w, call, answer, w'⟩]) where
  timeout_eq := htimeout.trans h.timeout_eq
  last_eq := by rw [lastHeard_concat, hcall, hlast, h.last_eq, Option.none_or]
  armed_iff := by
    rw [unreported_concat, hcall, harmed, Bool.and_eq_true, h.armed_iff]
    cases hdisarms : call.disarms <;> cases answer <;> simp
  fires_eq := by
    rw [hfires, h.fires_eq, List.countP_append, List.countP_singleton]

/-- **Step lemma**: what the watchdog knows after one call more. -/
theorem step (h : Watches timeoutNs startNs w log) {call : WatchdogCall} {answer : Option ℤ}
    (hact : w.act call = (answer, w')) :
    Watches timeoutNs startNs w' (log ++ [⟨w, call, answer, w'⟩]) := by
  cases call with
  | beat t =>
    cases hact
    exact h.hear rfl rfl rfl rfl rfl
  | disarm =>
    cases hact
    exact h.keep rfl rfl (by simp [disarm, WatchdogCall.disarms]) rfl rfl
  | poll now =>
    -- asking is not hearing: the moment of the last message stays
    have hact : w.poll now = (answer, w') := hact
    unfold poll at hact
    split at hact
    · cases hact
      exact h.keep rfl rfl (by simp [WatchdogCall.disarms]) rfl rfl
    · split at hact
      · cases hact
        exact h.keep rfl rfl (by simp [WatchdogCall.disarms]) rfl rfl
      · cases hact
        exact h.keep rfl rfl (by simp) rfl rfl
  | checkGap t =>
    -- a message is heard whether it closes a gap or not
    have hact : w.checkGap t = (answer, w') := hact
    unfold checkGap at hact
    split at hact
    · cases hact
      exact h.hear rfl rfl rfl rfl rfl
    · split at hact
      · cases hact
        exact h.hear rfl rfl rfl rfl rfl
      · cases hact
        exact h.hear rfl rfl rfl rfl rfl

/-- **Run lemma**: the watchdog after any calls. -/
theorem run (hrun : WatchdogRun (HeartbeatWatchdog.new timeoutNs startNs) w log) :
    Watches timeoutNs startNs w log :=
  hrun.invariant (Watches timeoutNs startNs) (new timeoutNs startNs)
    fun _ _ _ _ _ hI hact => hI.step hact

end Watches

/-- **One silence, one report.**  After any calls a poll reports the deadline, the time of the
    last frame and the timeout, just when that has passed and nothing has reported this silence
    before; `fires` counts the answers that did.  A disarm counts as a report here: the break was
    seen in another way, and the watchdog is silent until the next frame. -/
theorem silence_reported_once {timeoutNs : ℤ} {startNs : Option ℤ} {w : HeartbeatWatchdog}
    {log : WatchdogLog}
    (hrun : WatchdogRun (HeartbeatWatchdog.new timeoutNs startNs) w log) (now d : ℤ) :
    ((w.poll now).1 = some d ↔
      unreported log ∧ (lastHeard startNs log).map (· + timeoutNs) = some d ∧ d ≤ now) ∧
    w.fires = log.countP fun e => e.answer.isSome := by
  have h := Watches.run hrun
  refine ⟨?_, h.fires_eq⟩
  rw [poll_eq_some, h.armed_iff, deadlineNs, h.last_eq, h.timeout_eq]

/-- The second poll of one silence says nothing. -/
theorem silence_reported_once_twice :
    let w := (exec act (HeartbeatWatchdog.new 10 none) [.beat 5, .poll 14, .poll 15]).1
    ¬(w.poll 16).1 = some 15 := by
  intro w
  rw [(silence_reported_once (Run.exec act (HeartbeatWatchdog.new 10 none)
    [.beat 5, .poll 14, .poll 15]) 16 15).1]
  rintro ⟨hunreported, -⟩
  have hpoll := hunreported ⟨⟨10, some 5, 0, true⟩, .poll 15, some 15, ⟨10, some 5, 1, false⟩⟩
    (by simp [exec, execFrom, silence, List.rtakeWhile, act, poll, beat, deadlineNs,
      HeartbeatWatchdog.new, WatchdogCall.heard])
  exact absurd hpoll.2 (by decide)

end HeartbeatWatchdog

/-! ### Broken connections -/

/-- `CloseClass`: how a connection has ended. -/
inductive CloseClass where
  | normal
  | goingAway
  | transient
  | serverError
  | rateLimited
  | heartbeatTimeout
  | protocolError
  | handshakeRejected
  deriving DecidableEq, Repr

namespace CloseClass

/-- The text of a class. -/
def value : CloseClass → String
  | normal => "NORMAL"
  | goingAway => "GOING_AWAY"
  | transient => "TRANSIENT"
  | serverError => "SERVER_ERROR"
  | rateLimited => "RATE_LIMITED"
  | heartbeatTimeout => "HEARTBEAT_TIMEOUT"
  | protocolError => "PROTOCOL_ERROR"
  | handshakeRejected => "HANDSHAKE_REJECTED"

/-- `FATAL`: ends after which the client does not try again. -/
def fatal (cls : CloseClass) : Bool := cls = protocolError || cls = handshakeRejected

/-- `IMMEDIATE`: ends after which the client tries again at once. -/
def immediate (cls : CloseClass) : Bool := cls = normal || cls = goingAway

end CloseClass

/-- `_BY_CODE`: the codes of the protocol that say how a connection has ended. -/
def closeClassByCode : List (ℤ × CloseClass) :=
  [(1000, .normal), (1001, .goingAway), (1012, .goingAway), (1005, .transient),
    (1006, .transient), (1011, .serverError), (1013, .serverError), (1014, .serverError),
    (1008, .rateLimited), (1002, .protocolError), (1003, .protocolError),
    (1007, .protocolError), (1009, .protocolError), (1010, .protocolError)]

/-- `classify_close_code`: a code that is not listed is an end that passes. -/
def classifyCloseCode : Option ℤ → CloseClass
  | none => .transient
  | some code =>
    match closeClassByCode.lookup code with
    | some cls => cls
    | none => if 4000 ≤ code ∧ code < 5000 then .serverError else .transient

/-- `classify_http_status`: a refusal of the handshake, or an end that passes. -/
def classifyHttpStatus (status : ℤ) : CloseClass :=
  if status = 418 ∨ status = 429 then .rateLimited
  else if 500 ≤ status ∧ status < 600 then .serverError
  else if 400 ≤ status ∧ status < 500 then .handshakeRejected
  else .transient

/-- `Disconnect`: the class, the code and the reason. -/
structure Disconnect where
  conn : String
  tsNs : ℤ
  cls : CloseClass
  code : Option ℤ
  reason : String

namespace Disconnect

/-- Whether the client gives up. -/
def fatal (d : Disconnect) : Bool := d.cls.fatal

/-- The text that is recorded of an end. -/
def detail (d : Disconnect) : String :=
  d.cls.value ++ ":" ++ (d.code.elim "" toString) ++ ":" ++ d.reason

end Disconnect

end FuzzHelm
