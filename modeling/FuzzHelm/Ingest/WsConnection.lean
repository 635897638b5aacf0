import FuzzHelm.Ingest.Reconnect
import FuzzHelm.Ingest.Recorder
import FuzzHelm.Lib.Literals

namespace FuzzHelm

open Lib

/-!
# One connection of the stream

A task keeps one connection to the exchange: it connects, hands on the frames, and when the
connection breaks it waits and connects again, until the break is one that would only happen
again.  What it hands on goes through a queue, and it waits where that is full.

* `WsConn` — the task between two things that can happen to it, `WsConn.step` — one of them;
* `put` — what it hands on, in order: `link` — the shape of that;
* `control_protocol` — frames come only between `connected` and `disconnected`, and nothing
  comes after a fatal break;
* `reconnect_pacing` — the pause before each attempt, from what was handed on before;
* `watchdog_exact` — a silent connection is given up just when it has been silent long enough.
-/

/-- What a client was made with, and what it calls. -/
structure WsSettings where
  loads : List UInt8 → Option Datum
  draws : UniformDraws
  backoff : BackoffSettings
  timeoutNs : ℤ
  timeoutText : String
  maxConnects : Option ℤ

/-! ### Errors -/

/-- An exception of the connection; `transient` are the errors of the network, with their
    texts. -/
inductive NetError where
  | connectionClosed (rcvd : Option (ℤ × String))
  | invalidStatus (status : ℤ)
  | transient (text : String)
  | other (type : String)

/-- What ends a session. -/
inductive ConnError where
  | heartbeatTimeout (msg : String)
  | net (e : NetError)

/-- `classify_exception`: the class and the code of an error; one that is not known is raised again.
    -/
def classifyException : ConnError → Except PyError (CloseClass × Option ℤ × String)
  | .heartbeatTimeout msg => .ok (.heartbeatTimeout, none, msg)
  | .net (.connectionClosed none) => .ok (classifyCloseCode none, none, "no close frame")
  | .net (.connectionClosed (some (code, reason))) =>
    .ok (classifyCloseCode (some code), some code, reason)
  | .net (.invalidStatus status) =>
    .ok (classifyHttpStatus status, some status, "HTTP " ++ toString status)
  | .net (.transient text) => .ok (.transient, none, text)
  | .net (.other type) => .error (.valueError ("unclassified connection error " ++ type))

/-- No code of the exchange stands for a silence. -/
theorem classifyCloseCode_ne (code : Option ℤ) : classifyCloseCode code ≠ .heartbeatTimeout := by
  have htable : ∀ e ∈ closeClassByCode, e.2 ≠ CloseClass.heartbeatTimeout := by decide
  unfold classifyCloseCode
  split
  · decide
  · split
    · rename_i code _ cls hcls
      obtain ⟨front, back, heq, -⟩ := List.lookup_eq_some_iff.mp hcls
      exact htable (code, cls) (by rw [heq]; simp)
    · split
      · decide
      · decide

/-- No status of the exchange stands for a silence. -/
theorem classifyHttpStatus_ne (status : ℤ) : classifyHttpStatus status ≠ .heartbeatTimeout := by
  unfold classifyHttpStatus
  repeat' split
  all_goals decide

/-- An error of the network is not taken for silence. -/
theorem classifyException_net {e : NetError} {cls : CloseClass} {code : Option ℤ}
    {reason : String} (h : classifyException (.net e) = .ok (cls, code, reason)) :
    cls ≠ .heartbeatTimeout := by
  cases e with
  | connectionClosed rcvd =>
    cases rcvd with
    | none =>
      cases h
      exact classifyCloseCode_ne none
    | some r =>
      cases h
      exact classifyCloseCode_ne _
  | invalidStatus status =>
    cases h
    exact classifyHttpStatus_ne status
  | transient text =>
    cases h
    decide
  | other type => cases h

/-! ### The task -/

/-- What the task is waiting for; a record or a frame waits for room in the queue, and so does
    the sign that ends everything.  A connection that has broken is closed before anything is
    written down of it. -/
inductive WsPhase where
  | connecting
  | opening (c : ControlRecord)
  | receiving (wd : HeartbeatWatchdog) (healthy : Bool)
  | handing (wd : HeartbeatWatchdog) (f : RawFrame)
  | closing (e : ConnError)
  | reporting (d : Disconnect)
  | sleeping (delay : ℚ)
  | stopping (d : Disconnect)
  | returned
  | crashed (e : PyError)
  | cancelled

/-- `_Conn`: one connection, with its phase and its counters. -/
structure WsConn where
  conn : String
  url : String
  backoff : Backoff
  attempts : ℕ
  connects : ℕ
  framesReceived : ℕ
  badFrames : ℕ
  watchdogFires : ℕ
  disconnects : List Disconnect
  phase : WsPhase

/-- What can happen to the task, with the readings of the two clocks that it takes then. -/
inductive WsEvent where
  | connected (now : ℤ)
  | refused (e : NetError) (now : ℤ)
  | room (mono : ℤ)
  | message (raw : List UInt8) (now mono : ℤ)
  | silent (mono : ℤ)
  | lost (e : NetError)
  | closed (now : ℤ)
  | woke
  | cancel

namespace WsConn

variable (settings : WsSettings) (c : WsConn)

/-- `_parse`: a frame of JSON with a stream and its data, or nothing. -/
def parse (raw : List UInt8) (ts : ℤ) : Option RawFrame :=
  match settings.loads raw with
  | some (.obj msg) =>
    match Members.get msg "stream", Members.get msg "data" with
    | .str stream, .obj data => some ⟨c.conn, ts, stream, .obj data⟩
    | _, _ => none
  | _ => none

/-- The head of the loop of `_run_conn`. -/
def attempt : WsConn :=
  if settings.maxConnects.any (decide <| · ≤ (c.attempts : ℤ)) then { c with phase := .returned }
  else { c with attempts := c.attempts + 1, phase := .connecting }

/-- The start of `_run_conn`. -/
def start (conn url : String) : WsConn :=
  attempt settings ⟨conn, url, Backoff.new settings.backoff, 0, 0, 0, 0, 0, [], .connecting⟩

/-- The exception that ended a session. -/
def fail (e : ConnError) (now : ℤ) : WsConn :=
  match classifyException e with
  | .error err => { c with phase := .crashed err }
  | .ok (cls, code, reason) =>
    { c with
      disconnects := c.disconnects ++ [⟨c.conn, now, cls, code, reason⟩]
      phase := .reporting ⟨c.conn, now, cls, code, reason⟩ }

/-- The pause after a break: none at first where the exchange has closed the connection. -/
def delayFor (cls : CloseClass) : Except PyError (ℚ × Backoff) :=
  if cls.immediate && c.backoff.attempt == 0 then .ok (0, c.backoff)
  else c.backoff.nextDelay settings.draws

/-- The pause, and the attempts that are counted then. -/
def pause (cls : CloseClass) : Except PyError (ℚ × Backoff) := do
  let p ← c.delayFor settings cls
  return (p.1, if cls.immediate && p.1 == 0 then { p.2 with attempt := p.2.attempt + 1 } else p.2)

/-- What follows when the break has been reported: the end, or a pause; a pause that cannot be
    computed ends the task with the error. -/
def afterBreak (d : Disconnect) : WsConn :=
  if d.fatal then { c with phase := .stopping d }
  else
    match c.pause settings d.cls with
    | .error e => { c with phase := .crashed e }
    | .ok p => { c with backoff := p.2, phase := .sleeping p.1 }

/-- A message of the connection. -/
def receive (wd : HeartbeatWatchdog) (healthy : Bool) (raw : List UInt8) (now mono : ℤ) : WsConn :=
  match c.parse settings raw now with
  | none => { c with badFrames := c.badFrames + 1, phase := .receiving (wd.beat mono) healthy }
  | some f =>
    { c with
      framesReceived := c.framesReceived + 1
      backoff := if healthy then c.backoff else c.backoff.reset
      phase := .handing (wd.beat mono) f }

/-- What the watchdog raises. -/
def silenceError : ConnError :=
  .heartbeatTimeout ("no frames for " ++ settings.timeoutText ++ "s")

/-- The time to wait for a message is over. -/
def silent (wd : HeartbeatWatchdog) (mono : ℤ) : WsConn :=
  if wd.expired mono then
    { c with watchdogFires := c.watchdogFires + 1, phase := .closing (silenceError settings) }
  else c

/-- What is waiting for room in the queue; `none` is the sign. -/
def pending : Option (Option SessionItem) :=
  match c.phase with
  | .opening r => some (some (.control r))
  | .handing _ f => some (some (.frame f))
  | .reporting d => some (some (.control ⟨c.conn, d.tsNs, "disconnected", d.detail⟩))
  | .stopping _ => some none
  | _ => none

/-- What follows when there was room. -/
def afterPut (mono : ℤ) : WsConn :=
  match c.phase with
  | .opening _ => { c with phase := .receiving (.new settings.timeoutNs (some mono)) false }
  | .handing wd _ => { c with phase := .receiving wd true }
  | .reporting d => c.afterBreak settings d
  | .stopping _ => { c with phase := .returned }
  | _ => c

/-- The task is over. -/
def isDone : Bool :=
  match c.phase with
  | .returned | .crashed _ | .cancelled => true
  | _ => false

/-- What happens to the task where it waits for that, and what it puts into the queue. -/
inductive Step : WsConn → WsEvent → Option (Option SessionItem) → WsConn → Prop
  | connected {c : WsConn} (h : c.phase = .connecting) (now : ℤ) :
      Step c (.connected now) none
        { c with
          connects := c.connects + 1
          phase := .opening ⟨c.conn, now, "connected", c.url⟩ }
  | refused {c : WsConn} (h : c.phase = .connecting) (e : NetError) (now : ℤ) :
      Step c (.refused e now) none (c.fail (.net e) now)
  | room {c : WsConn} {item : Option SessionItem} (h : c.pending = some item) (mono : ℤ) :
      Step c (.room mono) (some item) (c.afterPut settings mono)
  | message {c : WsConn} {wd : HeartbeatWatchdog} {healthy : Bool}
      (h : c.phase = .receiving wd healthy) (raw : List UInt8) (now mono : ℤ) :
      Step c (.message raw now mono) none (c.receive settings wd healthy raw now mono)
  | silent {c : WsConn} {wd : HeartbeatWatchdog} {healthy : Bool}
      (h : c.phase = .receiving wd healthy) (mono : ℤ) :
      Step c (.silent mono) none (c.silent settings wd mono)
  | lost {c : WsConn} {wd : HeartbeatWatchdog} {healthy : Bool}
      (h : c.phase = .receiving wd healthy) (e : NetError) :
      Step c (.lost e) none { c with phase := .closing (.net e) }
  | closed {c : WsConn} {e : ConnError} (h : c.phase = .closing e) (now : ℤ) :
      Step c (.closed now) none (c.fail e now)
  | woke {c : WsConn} {delay : ℚ} (h : c.phase = .sleeping delay) :
      Step c .woke none (c.attempt settings)
  | cancel {c : WsConn} (h : c.isDone = false) :
      Step c .cancel none { c with phase := .cancelled }

variable {settings} in
/-- Nothing more happens to a task that is over. -/
theorem Step.not_done {c c' : WsConn} {ev : WsEvent} {answer : Option (Option SessionItem)}
    (h : Step settings c ev answer c') : c.isDone = false := by
  cases h with
  | connected h | refused h | message h | silent h | lost h | closed h | woke h =>
    simp [isDone, h]
  | room h =>
    cases hphase : c.phase with
    | returned | crashed | cancelled => simp [pending, hphase] at h
    | _ => simp [isDone, hphase]
  | cancel h => exact h

variable {settings} in
/-- A task is cancelled by nothing else. -/
theorem Step.cancelled {c c' : WsConn} {ev : WsEvent} {answer : Option (Option SessionItem)}
    (h : Step settings c ev answer c') (hphase : c'.phase = .cancelled) : ev = .cancel := by
  have hfail (c : WsConn) (e : ConnError) (now : ℤ) : (c.fail e now).phase ≠ .cancelled := by
    unfold fail
    split
    · simp
    · simp
  cases h with
  | connected | lost => cases hphase
  | refused | closed => exact absurd hphase (hfail _ _ _)
  | room h =>
    cases hbefore : c.phase with
    | reporting d =>
      simp only [afterPut, hbefore, afterBreak] at hphase
      split at hphase
      · cases hphase
      · split at hphase
        · cases hphase
        · cases hphase
    | returned | crashed | cancelled => simp [pending, hbefore] at h
    | _ => simp [afterPut, hbefore] at hphase
  | message =>
    unfold receive at hphase
    split at hphase
    · cases hphase
    · cases hphase
  | silent h =>
    unfold WsConn.silent at hphase
    split at hphase
    · cases hphase
    · simp [h] at hphase
  | woke =>
    unfold attempt at hphase
    split at hphase
    · cases hphase
    · cases hphase
  | cancel => rfl

variable {settings} in
/-- Only a task that stops puts the sign. -/
theorem Step.stopping {c c' : WsConn} {ev : WsEvent} (h : Step settings c ev (some none) c') :
    ∃ d, c.phase = .stopping d := by
  cases h with
  | room h =>
    cases hphase : c.phase with
    | stopping d => exact ⟨d, rfl⟩
    | _ => simp [pending, hphase] at h

variable {settings} in
/-- The breaks are kept. -/
theorem Step.disconnects {c c' : WsConn} {ev : WsEvent} {answer : Option (Option SessionItem)}
    (h : Step settings c ev answer c') : c.disconnects <+: c'.disconnects := by
  have hfail (c : WsConn) (e : ConnError) (now : ℤ) :
      c.disconnects <+: (c.fail e now).disconnects := by
    unfold fail
    split
    · exact List.prefix_rfl
    · exact List.prefix_append _ _
  cases h with
  | connected | lost | cancel => exact List.prefix_rfl
  | refused | closed => exact hfail _ _ _
  | room =>
    unfold afterPut
    split
    · exact List.prefix_rfl
    · exact List.prefix_rfl
    · unfold afterBreak
      split
      · exact List.prefix_rfl
      · split
        · exact List.prefix_rfl
        · exact List.prefix_rfl
    · exact List.prefix_rfl
    · exact List.prefix_rfl
  | message =>
    unfold receive
    split
    · exact List.prefix_rfl
    · exact List.prefix_rfl
  | silent =>
    unfold WsConn.silent
    split
    · exact List.prefix_rfl
    · exact List.prefix_rfl
  | woke =>
    unfold attempt
    split
    · exact List.prefix_rfl
    · exact List.prefix_rfl

/-- The runs of a connection. -/
abbrev WsRun := Run (Step settings)

/-- The log of such a run. -/
abbrev WsLog := List (Entry WsConn WsEvent (Option (Option SessionItem)))

/-- The items that were put into the queue. -/
def put (log : WsLog) : List SessionItem := log.filterMap fun e => e.answer.join

/-! ### What is handed on -/

/-- What the records say of the connection. -/
inductive LinkState where
  | down
  | up
  | over
  deriving DecidableEq

/-- The items that one connection may hand on, the breaks among them, and how they leave it. -/
inductive Protocol (conn url : String) : List SessionItem → List Disconnect → LinkState → Prop
  | start : Protocol conn url [] [] .down
  | connected {items : List SessionItem} {breaks : List Disconnect}
      (h : Protocol conn url items breaks .down) (now : ℤ) :
      Protocol conn url (items ++ [.control ⟨conn, now, "connected", url⟩]) breaks .up
  | frame {items : List SessionItem} {breaks : List Disconnect}
      (h : Protocol conn url items breaks .up) {f : RawFrame} (hconn : f.conn = conn) :
      Protocol conn url (items ++ [.frame f]) breaks .up
  | disconnected {items : List SessionItem} {breaks : List Disconnect} {st : LinkState}
      (h : Protocol conn url items breaks st) (hst : st ≠ .over) {d : Disconnect}
      (hconn : d.conn = conn) :
      Protocol conn url (items ++ [.control ⟨conn, d.tsNs, "disconnected", d.detail⟩])
        (breaks ++ [d]) (if d.fatal then .over else .down)

/-- One item more: how many breaks there were since the last frame. -/
def outageStep (n : ℕ) : SessionItem → ℕ
  | .frame _ => 0
  | .control r => if r.event = "disconnected" then n + 1 else n

/-- How many breaks there were since the last frame. -/
def outages (items : List SessionItem) : ℕ := items.foldl outageStep 0

/-- One record more may begin or end an outage. -/
theorem outages_concat (items : List SessionItem) (item : SessionItem) :
    outages (items ++ [item]) = outageStep (outages items) item := by
  rw [outages, List.foldl_append]
  rfl

/-- The reading of the monotonic clock at which the connection was last heard of. -/
def heardAt (e : Entry WsConn WsEvent (Option (Option SessionItem))) : Option ℤ :=
  match e.call, e.before.phase with
  | .message _ _ mono, _ => some mono
  | .room mono, .opening _ => some mono
  | _, _ => none

/-- The last time the connection was heard of. -/
def lastMono (log : WsLog) : Option ℤ := (log.filterMap heardAt).getLast?

section Log

variable (log : WsLog) (c c' : WsConn) (ev : WsEvent)

/-- One event more puts at most one item more. -/
theorem put_concat (answer : Option (Option SessionItem)) :
    put (log ++ [⟨c, ev, answer, c'⟩]) = put log ++ answer.join.toList := by
  rw [put, List.filterMap_append, put]
  cases h : answer.join with
  | none => simp [h]
  | some item => simp [h]

/-- One event more may be heard of later. -/
theorem lastMono_concat (answer : Option (Option SessionItem)) :
    lastMono (log ++ [⟨c, ev, answer, c'⟩]) =
      (heardAt ⟨c, ev, answer, c'⟩).or (lastMono log) := by
  rw [lastMono, List.filterMap_append, lastMono]
  cases h : heardAt ⟨c, ev, answer, c'⟩ with
  | none => simp [h]
  | some t => simp [h]

end Log

/-- The break that waits for room, if any. -/
def waitingBreak : WsPhase → List Disconnect
  | .reporting d => [d]
  | _ => []

/-- The attempts that the pauses are counted by are the breaks since the last frame. -/
def Counted (settings : WsSettings) (c : WsConn) (log : WsLog) : Prop :=
  settings.backoff.jitter ≠ .full → c.backoff.attempt = outages (put log)

/-- What a phase says of the connection and of what was handed on. -/
def Fits (c : WsConn) (log : WsLog) (breaks : List Disconnect) (st : LinkState) : Prop :=
  match c.phase with
  | .connecting => st = .down ∧ c.disconnects = breaks ∧ c.attempts = breaks.length + 1 ∧
      Counted settings c log
  | .opening r => st = .down ∧ c.disconnects = breaks ∧ c.attempts = breaks.length + 1 ∧
      Counted settings c log ∧ ∃ now, r = ⟨c.conn, now, "connected", c.url⟩
  | .receiving wd healthy => st = .up ∧ c.disconnects = breaks ∧
      c.attempts = breaks.length + 1 ∧ Counted settings c log ∧
      (healthy = true → outages (put log) = 0) ∧
      wd.timeoutNs = settings.timeoutNs ∧ wd.lastNs = lastMono log
  | .handing wd f => st = .up ∧ c.disconnects = breaks ∧ c.attempts = breaks.length + 1 ∧
      (settings.backoff.jitter ≠ .full → c.backoff.attempt = 0) ∧ f.conn = c.conn ∧
      wd.timeoutNs = settings.timeoutNs ∧ wd.lastNs = lastMono log
  | .closing _ => st = .up ∧ c.disconnects = breaks ∧ c.attempts = breaks.length + 1 ∧
      Counted settings c log
  | .reporting d => st ≠ .over ∧ c.disconnects = breaks ++ [d] ∧ d.conn = c.conn ∧
      c.attempts = breaks.length + 1 ∧ Counted settings c log
  | .sleeping _ => st = .down ∧ c.disconnects = breaks ∧ c.attempts = breaks.length ∧
      Counted settings c log
  | .stopping d => st = .over ∧ c.disconnects = breaks ∧ d ∈ breaks ∧ d.fatal = true
  | .returned => c.disconnects = breaks ∧
      (st = .over ∨ ∃ m, settings.maxConnects = some m ∧ m ≤ breaks.length)
  | .crashed _ => c.disconnects = breaks
  | .cancelled => ∃ before ∈ log.getLast?.map Entry.before,
      c.disconnects = breaks ++ waitingBreak before.phase

/-- The breaks that happened are those that were handed on, and the one that waits for room. -/
theorem Fits.breaks {breaks : List Disconnect} {st : LinkState} {log : WsLog}
    (h : Fits settings c log breaks st) (hlive : c.phase ≠ .cancelled) :
    c.disconnects = breaks ++ waitingBreak c.phase := by
  have hsame (heq : c.disconnects = breaks) : c.disconnects = breaks ++ [] := by
    rw [heq, List.append_nil]
  cases hphase : c.phase with
  | reporting d =>
    simp only [Fits, hphase] at h
    exact h.2.1
  | connecting | opening | receiving | handing | closing | sleeping | stopping =>
    simp only [Fits, hphase] at h
    exact hsame h.2.1
  | returned =>
    simp only [Fits, hphase] at h
    exact hsame h.1
  | crashed =>
    simp only [Fits, hphase] at h
    exact hsame h
  | cancelled => exact absurd hphase hlive

/-- The task after `log`. -/
structure Keeps (conn url : String) (c : WsConn) (log : WsLog) : Prop where
  conn_eq : c.conn = conn
  url_eq : c.url = url
  settings_eq : c.backoff.settings = settings.backoff
  protocol : ∃ breaks st, Protocol conn url (put log) breaks st ∧ Fits settings c log breaks st
  attempts_le : ∀ m, settings.maxConnects = some m → (c.attempts : ℤ) ≤ max m 0

/-- The pause after a break, where it can be computed, is nothing when the exchange has closed a
    connection that worked, and between the half of its ceiling and the ceiling otherwise. -/
theorem pause_eq_ok {cls : CloseClass} {p : ℚ × Backoff} (h : c.pause settings cls = .ok p) :
    p.2.settings = c.backoff.settings ∧
    (c.backoff.settings.jitter ≠ .full → p.2.attempt = c.backoff.attempt + 1 ∧
      (cls.immediate = true ∧ c.backoff.attempt = 0 ∧ p.1 = 0 ∨
        (cls.immediate = false ∨ 0 < c.backoff.attempt) ∧
          ∃ top, c.backoff.settings.ceiling c.backoff.attempt = .ok top ∧
            top / 2 ≤ p.1 ∧ p.1 ≤ top)) := by
  simp only [pause, bind_eq_ok, pure, Except.pure, Except.ok.injEq] at h
  obtain ⟨⟨delay, backoff⟩, hdelay, rfl⟩ := h
  unfold delayFor at hdelay
  by_cases hnow : (cls.immediate && c.backoff.attempt == 0) = true
  · rw [if_pos hnow] at hdelay
    cases hdelay
    rw [Bool.and_eq_true, beq_iff_eq] at hnow
    simp [hnow.1, hnow.2]
  · rw [if_neg hnow] at hdelay
    rw [Bool.and_eq_true, beq_iff_eq, not_and_or, Bool.not_eq_true] at hnow
    obtain ⟨hsettings, hattempt, top, htop, hpos, hle, hhalf⟩ :=
      c.backoff.nextDelay_eq_ok settings.draws hdelay
    refine ⟨?_, fun hjitter => ?_⟩
    · show (if _ then _ else _ : Backoff).settings = _
      split
      · exact hsettings
      · exact hsettings
    · have hhalf := hhalf hjitter
      have hne : (delay == 0) = false := by
        rw [beq_eq_false_iff_ne]
        dsimp only at hhalf
        linarith
      simp only [hne, Bool.and_false, Bool.false_eq_true, if_false]
      exact ⟨hattempt, .inr ⟨hnow.imp_right Nat.pos_of_ne_zero, top, htop, hhalf, hle⟩⟩

/-- The pause cannot be computed where the ceiling raises, and a ceiling is needed. -/
theorem pause_eq_error {cls : CloseClass} {e : PyError} (h : c.pause settings cls = .error e) :
    (cls.immediate = false ∨ 0 < c.backoff.attempt) ∧
      c.backoff.settings.ceiling c.backoff.attempt = .error e := by
  have hdelay : c.delayFor settings cls = .error e := by
    unfold pause at h
    cases hdelay : c.delayFor settings cls with
    | error e' =>
      rw [hdelay] at h
      cases h
      rfl
    | ok p =>
      rw [hdelay] at h
      cases h
  unfold delayFor at hdelay
  by_cases hnow : (cls.immediate && c.backoff.attempt == 0) = true
  · rw [if_pos hnow] at hdelay
    cases hdelay
  · rw [if_neg hnow] at hdelay
    rw [Bool.and_eq_true, beq_iff_eq, not_and_or, Bool.not_eq_true] at hnow
    exact ⟨hnow.imp_right Nat.pos_of_ne_zero, c.backoff.nextDelay_eq_error settings.draws hdelay⟩

namespace Keeps

variable {settings} {conn url : String} {c c' : WsConn} {log : WsLog}

/-- What is put into the queue where nothing is. -/
theorem put_none (ev : WsEvent) : put (log ++ [⟨c, ev, none, c'⟩]) = put log := by
  rw [put_concat]
  exact List.append_nil _

/-- An event that puts an item puts that one. -/
theorem put_some (ev : WsEvent) (item : SessionItem) :
    put (log ++ [⟨c, ev, some (some item), c'⟩]) = put log ++ [item] := put_concat _ _ _ _ _

/-- The head of the loop. -/
theorem attempt_fits {breaks : List Disconnect} (hdisconnects : c.disconnects = breaks)
    (hattempts : c.attempts = breaks.length) (hcounted : Counted settings c log) :
    Fits settings (c.attempt settings) log breaks .down ∧
    ∀ m, settings.maxConnects = some m → (c.attempts : ℤ) ≤ max m 0 →
      ((c.attempt settings).attempts : ℤ) ≤ max m 0 := by
  unfold attempt
  by_cases hfull : settings.maxConnects.any (decide <| · ≤ (c.attempts : ℤ)) = true
  · rw [if_pos hfull]
    refine ⟨⟨hdisconnects, .inr ?_⟩, fun m _ hle => hle⟩
    rw [Option.any_eq_true] at hfull
    obtain ⟨m, hm, hle⟩ := hfull
    rw [decide_eq_true_eq, hattempts] at hle
    exact ⟨m, hm, hle⟩
  · rw [if_neg hfull]
    refine ⟨⟨rfl, hdisconnects, ?_, hcounted⟩, fun m hm hle => ?_⟩
    · show c.attempts + 1 = _
      rw [hattempts]
    · rw [hm, Option.any_some, decide_eq_true_eq, not_le] at hfull
      show ((c.attempts + 1 : ℕ) : ℤ) ≤ max m 0
      rw [Nat.cast_add, Nat.cast_one]
      exact (Int.add_one_le_of_lt hfull).trans (le_max_left m 0)

/-- The task before its first attempt. -/
def fresh (settings : WsSettings) (conn url : String) : WsConn :=
  ⟨conn, url, Backoff.new settings.backoff, 0, 0, 0, 0, 0, [], .connecting⟩

/-- A connection keeps its books when it starts. -/
theorem start (conn url : String) :
    Keeps settings conn url (WsConn.start settings conn url) [] := by
  have hfresh : WsConn.start settings conn url = (fresh settings conn url).attempt settings := rfl
  have hcounted : Counted settings (fresh settings conn url) [] := fun _ => rfl
  obtain ⟨hfits, hle⟩ := attempt_fits rfl rfl hcounted
  rw [hfresh]
  refine ⟨?_, ?_, ?_, ⟨[], .down, .start, hfits⟩, fun m hm => hle m hm (le_max_right m 0)⟩
  all_goals
    unfold attempt
    split
    · rfl
    · rfl

/-- The end of a session. -/
theorem fail_fits {breaks : List Disconnect} {st : LinkState} {log' : WsLog} (e : ConnError)
    (now : ℤ) (hput : put log' = put log) (hst : st ≠ .over) (hdisconnects : c.disconnects = breaks)
    (hattempts : c.attempts = breaks.length + 1) (hcounted : Counted settings c log) :
    Fits settings (c.fail e now) log' breaks st := by
  unfold fail
  split
  · exact hdisconnects
  · refine ⟨hst, ?_, rfl, hattempts, ?_⟩
    · rw [← hdisconnects]
    · rw [Counted, hput]
      exact hcounted

/-- A failure changes neither the connection nor its counters of the attempts. -/
theorem fail_same (e : ConnError) (now : ℤ) :
    (c.fail e now).conn = c.conn ∧ (c.fail e now).url = c.url ∧
    (c.fail e now).backoff = c.backoff ∧ (c.fail e now).attempts = c.attempts := by
  unfold fail
  split
  · exact ⟨rfl, rfl, rfl, rfl⟩
  · exact ⟨rfl, rfl, rfl, rfl⟩

/-- A break is written down. -/
theorem failed (h : Keeps settings conn url c log) {breaks : List Disconnect} {st : LinkState}
    (hproto : Protocol conn url (put log) breaks st) (hst : st ≠ .over)
    (hdisconnects : c.disconnects = breaks) (hattempts : c.attempts = breaks.length + 1)
    (hcounted : Counted settings c log) (ev : WsEvent) (e : ConnError) (now : ℤ) :
    Keeps settings conn url (c.fail e now) (log ++ [⟨c, ev, none, c.fail e now⟩]) := by
  obtain ⟨hconn, hurl, hbackoff, hatt⟩ := fail_same (c := c) e now
  refine ⟨hconn.trans h.conn_eq, hurl.trans h.url_eq, ?_, ⟨breaks, st, ?_, ?_⟩, ?_⟩
  · rw [hbackoff]
    exact h.settings_eq
  · rw [put_none]
    exact hproto
  · exact fail_fits _ now (put_none ev) hst hdisconnects hattempts hcounted
  · rw [hatt]
    exact h.attempts_le

/-- A frame that is parsed names its connection. -/
theorem parse_conn {raw : List UInt8} {ts : ℤ} {f : RawFrame}
    (h : c.parse settings raw ts = some f) : f.conn = c.conn := by
  unfold parse at h
  split at h
  · split at h
    · cases h
      rfl
    · cases h
  · cases h

/-- A message. -/
theorem message (h : Keeps settings conn url c log) {wd : HeartbeatWatchdog} {healthy : Bool}
    (hphase : c.phase = .receiving wd healthy) (raw : List UInt8) (now mono : ℤ)
    (hreceive : c' = c.receive settings wd healthy raw now mono) :
    Keeps settings conn url c' (log ++ [⟨c, .message raw now mono, none, c'⟩]) := by
  obtain ⟨breaks, st, hproto, hfits⟩ := h.protocol
  simp only [Fits, hphase] at hfits
  obtain ⟨hst, hdisconnects, hattempts, hcounted, hhealthy, htimeout, -⟩ := hfits
  have hheard : some mono = lastMono (log ++ [⟨c, .message raw now mono, none, c'⟩]) := by
    rw [lastMono_concat]
    rfl
  -- what cannot be read is heard all the same, but is no frame
  cases hparse : c.parse settings raw now with
  | none =>
    rw [receive, hparse] at hreceive
    subst hreceive
    refine ⟨h.conn_eq, h.url_eq, h.settings_eq, ⟨breaks, st, ?_, ?_⟩, h.attempts_le⟩
    · rw [put_none]
      exact hproto
    · refine ⟨hst, hdisconnects, hattempts, ?_, ?_, htimeout, hheard⟩
      · rw [Counted, put_none]
        exact hcounted
      · rw [put_none]
        exact hhealthy
  | some f =>
    rw [receive, hparse] at hreceive
    subst hreceive
    refine ⟨h.conn_eq, h.url_eq, ?_, ⟨breaks, st, ?_, ?_⟩, h.attempts_le⟩
    · show (if healthy then c.backoff else c.backoff.reset).settings = settings.backoff
      split
      · exact h.settings_eq
      · exact h.settings_eq
    · rw [put_none]
      exact hproto
    · refine ⟨hst, hdisconnects, hattempts, fun hjitter => ?_, parse_conn hparse, htimeout,
        hheard⟩
      -- the first frame of a session resets the count, and the others find it at zero
      show (if healthy then c.backoff else c.backoff.reset).attempt = 0
      cases healthy with
      | true => exact (hcounted hjitter).trans (hhealthy rfl)
      | false => rfl

/-- The time to wait is over. -/
theorem silent (h : Keeps settings conn url c log) {wd : HeartbeatWatchdog} {healthy : Bool}
    (hphase : c.phase = .receiving wd healthy) (mono : ℤ)
    (hsilent : c' = c.silent settings wd mono) :
    Keeps settings conn url c' (log ++ [⟨c, .silent mono, none, c'⟩]) := by
  obtain ⟨breaks, st, hproto, hfits⟩ := h.protocol
  simp only [Fits, hphase] at hfits
  obtain ⟨hst, hdisconnects, hattempts, hcounted, hhealthy, htimeout, hlast⟩ := hfits
  -- the connection is given up, or a message has come in the meantime
  unfold WsConn.silent at hsilent
  split at hsilent
  · subst hsilent
    refine ⟨h.conn_eq, h.url_eq, h.settings_eq, ⟨breaks, st, ?_, ?_⟩, h.attempts_le⟩
    · rw [put_none]
      exact hproto
    · refine ⟨hst, hdisconnects, hattempts, ?_⟩
      rw [Counted, put_none]
      exact hcounted
  · subst hsilent
    refine ⟨h.conn_eq, h.url_eq, h.settings_eq, ⟨breaks, st, ?_, ?_⟩, h.attempts_le⟩
    · rw [put_none]
      exact hproto
    · simp only [Fits, hphase, Counted, put_none]
      refine ⟨hst, hdisconnects, hattempts, hcounted, hhealthy, htimeout, ?_⟩
      rw [lastMono_concat]
      exact hlast

/-- A break is reported; the connection waits and tries again, or is over. -/
theorem reported (h : Keeps settings conn url c log) {d : Disconnect}
    (hphase : c.phase = .reporting d) (mono : ℤ) :
    Keeps settings conn url (c.afterBreak settings d) (log ++ [⟨c, .room mono,
      some (some (.control ⟨c.conn, d.tsNs, "disconnected", d.detail⟩)),
      c.afterBreak settings d⟩]) := by
  obtain ⟨breaks, st, hproto, hfits⟩ := h.protocol
  simp only [Fits, hphase] at hfits
  obtain ⟨hst, hdisconnects, hconn, hattempts, hcounted⟩ := hfits
  have hnext := hproto.disconnected hst (hconn.trans h.conn_eq)
  rw [← h.conn_eq] at hnext
  have hattempts' : c.attempts = (breaks ++ [d]).length := by
    rw [hattempts, List.length_append, List.length_singleton]
  -- a fatal break ends the protocol, any other leaves the connection down
  generalize hafter : c.afterBreak settings d = c'
  unfold afterBreak at hafter
  split at hafter
  · rename_i hfatal
    subst hafter
    rw [if_pos hfatal] at hnext
    refine ⟨h.conn_eq, h.url_eq, h.settings_eq, ⟨breaks ++ [d], .over, ?_, rfl, hdisconnects,
      List.mem_append_right _ (List.mem_singleton_self d), hfatal⟩, h.attempts_le⟩
    rw [put_some, ← h.conn_eq]
    exact hnext
  · rename_i hfatal
    rw [if_neg hfatal] at hnext
    split at hafter
    · -- the pause cannot be computed
      subst hafter
      refine ⟨h.conn_eq, h.url_eq, h.settings_eq, ⟨breaks ++ [d], .down, ?_, hdisconnects⟩,
        h.attempts_le⟩
      rw [put_some, ← h.conn_eq]
      exact hnext
    · rename_i p hpause
      subst hafter
      obtain ⟨hsettings, hpaused⟩ := pause_eq_ok settings c hpause
      refine ⟨h.conn_eq, h.url_eq, hsettings.trans h.settings_eq, ⟨breaks ++ [d], .down, ?_, rfl,
        hdisconnects, hattempts', fun hjitter => ?_⟩, h.attempts_le⟩
      · rw [put_some, ← h.conn_eq]
        exact hnext
      · have hmode : c.backoff.settings.jitter ≠ .full := by rwa [h.settings_eq]
        rw [put_some, outages_concat, ← hcounted hjitter]
        exact (hpaused hmode).1

/-- Room in the queue. -/
theorem room (h : Keeps settings conn url c log) {item : Option SessionItem}
    (hpending : c.pending = some item) (mono : ℤ) (hafter : c' = c.afterPut settings mono) :
    Keeps settings conn url c' (log ++ [⟨c, .room mono, some item, c'⟩]) := by
  obtain ⟨breaks, st, hproto, hfits⟩ := h.protocol
  cases hphase : c.phase with
  | opening r =>
    simp only [Fits, hphase] at hfits
    obtain ⟨rfl, hdisconnects, hattempts, hcounted, now, rfl⟩ := hfits
    rw [pending, hphase, Option.some.injEq] at hpending
    rw [afterPut, hphase] at hafter
    subst hpending hafter
    refine ⟨h.conn_eq, h.url_eq, h.settings_eq, ⟨breaks, .up, ?_, ?_⟩, h.attempts_le⟩
    · rw [put_some, h.conn_eq, h.url_eq]
      exact hproto.connected now
    · refine ⟨rfl, hdisconnects, hattempts, ?_, fun hfalse => absurd hfalse (by decide), rfl, ?_⟩
      · rw [Counted, put_some, outages_concat]
        exact hcounted
      · rw [lastMono_concat, heardAt, hphase]
        rfl
  | handing wd f =>
    simp only [Fits, hphase] at hfits
    obtain ⟨rfl, hdisconnects, hattempts, hreset, hconn, htimeout, hlast⟩ := hfits
    rw [pending, hphase, Option.some.injEq] at hpending
    rw [afterPut, hphase] at hafter
    subst hpending hafter
    refine ⟨h.conn_eq, h.url_eq, h.settings_eq, ⟨breaks, .up, ?_, ?_⟩, h.attempts_le⟩
    · rw [put_some]
      exact hproto.frame (hconn.trans h.conn_eq)
    · refine ⟨rfl, hdisconnects, hattempts, ?_, fun _ => ?_, htimeout, ?_⟩
      · rw [Counted, put_some, outages_concat]
        exact hreset
      · rw [put_some, outages_concat]
        rfl
      · rw [lastMono_concat, heardAt, hphase]
        exact hlast
  | reporting d =>
    rw [pending, hphase, Option.some.injEq] at hpending
    rw [afterPut, hphase] at hafter
    subst hpending hafter
    exact h.reported hphase mono
  | stopping d =>
    simp only [Fits, hphase] at hfits
    obtain ⟨rfl, hdisconnects, -, -⟩ := hfits
    rw [pending, hphase, Option.some.injEq] at hpending
    rw [afterPut, hphase] at hafter
    subst hpending hafter
    refine ⟨h.conn_eq, h.url_eq, h.settings_eq, ⟨breaks, .over, ?_, hdisconnects, .inl rfl⟩,
      h.attempts_le⟩
    rw [put_concat]
    exact (List.append_nil _).symm ▸ hproto
  | _ =>
    rw [pending, hphase] at hpending
    cases hpending

/-- **One thing that happens.** -/
theorem step (h : Keeps settings conn url c log) {ev : WsEvent}
    {answer : Option (Option SessionItem)} (hstep : Step settings c ev answer c') :
    Keeps settings conn url c' (log ++ [⟨c, ev, answer, c'⟩]) := by
  obtain ⟨breaks, st, hproto, hfits⟩ := h.protocol
  cases hstep with
  | connected hphase now =>
    simp only [Fits, hphase] at hfits
    obtain ⟨hst, hdisconnects, hattempts, hcounted⟩ := hfits
    refine ⟨h.conn_eq, h.url_eq, h.settings_eq, ⟨breaks, st, ?_, ?_⟩, h.attempts_le⟩
    · rw [put_none]
      exact hproto
    · refine ⟨hst, hdisconnects, hattempts, ?_, now, rfl⟩
      rw [Counted, put_none]
      exact hcounted
  | refused hphase e now =>
    simp only [Fits, hphase] at hfits
    obtain ⟨rfl, hdisconnects, hattempts, hcounted⟩ := hfits
    exact h.failed hproto (by decide) hdisconnects hattempts hcounted _ (.net e) now
  | room hpending mono => exact h.room hpending mono rfl
  | message hphase raw now mono => exact h.message hphase raw now mono rfl
  | silent hphase mono => exact h.silent hphase mono rfl
  | lost hphase e =>
    simp only [Fits, hphase] at hfits
    obtain ⟨hst, hdisconnects, hattempts, hcounted, -⟩ := hfits
    refine ⟨h.conn_eq, h.url_eq, h.settings_eq, ⟨breaks, st, ?_, ?_⟩, h.attempts_le⟩
    · rw [put_none]
      exact hproto
    · refine ⟨hst, hdisconnects, hattempts, ?_⟩
      rw [Counted, put_none]
      exact hcounted
  | @closed e hphase now =>
    simp only [Fits, hphase] at hfits
    obtain ⟨rfl, hdisconnects, hattempts, hcounted⟩ := hfits
    exact h.failed hproto (by decide) hdisconnects hattempts hcounted _ e now
  | woke hphase =>
    simp only [Fits, hphase] at hfits
    obtain ⟨rfl, hdisconnects, hattempts, hcounted⟩ := hfits
    have hcounted' : Counted settings c (log ++ [⟨c, .woke, none, c.attempt settings⟩]) := by
      rw [Counted, put_none]
      exact hcounted
    -- one more attempt, unless there were as many as allowed
    obtain ⟨hfits, hle⟩ := attempt_fits hdisconnects hattempts hcounted'
    have hsame : (c.attempt settings).conn = c.conn ∧ (c.attempt settings).url = c.url ∧
        (c.attempt settings).backoff = c.backoff := by
      unfold attempt
      split
      · exact ⟨rfl, rfl, rfl⟩
      · exact ⟨rfl, rfl, rfl⟩
    obtain ⟨hconn, hurl, hbackoff⟩ := hsame
    refine ⟨hconn.trans h.conn_eq, hurl.trans h.url_eq, ?_, ⟨breaks, .down, ?_, hfits⟩,
      fun m hm => hle m hm (h.attempts_le m hm)⟩
    · rw [hbackoff]
      exact h.settings_eq
    · rw [put_none]
      exact hproto
  | cancel hdone =>
    refine ⟨h.conn_eq, h.url_eq, h.settings_eq, ⟨breaks, st, ?_, ?_⟩, h.attempts_le⟩
    · rw [put_none]
      exact hproto
    · -- what waited for room then is never handed on
      refine ⟨c, by simp, hfits.breaks settings c fun hcancelled => ?_⟩
      rw [isDone, hcancelled] at hdone
      cases hdone

/-- **Run lemma**: the books of a connection after any events. -/
theorem run (hrun : WsRun settings (WsConn.start settings conn url) c log) :
    Keeps settings conn url c log :=
  hrun.invariant (Keeps settings conn url) (start conn url) fun _ _ _ _ _ hI hstep => hI.step hstep

end Keeps

/-! ### Silence -/

/-- A connection that was given up for silence is being closed. -/
def silenced : WsPhase → ℕ
  | .closing (.heartbeatTimeout _) => 1
  | _ => 0

/-- The breaks for silence that were written down. -/
def silences (c : WsConn) : ℕ := c.disconnects.countP fun d => d.cls = .heartbeatTimeout

/-- The watchdog has counted the breaks for silence, and the one whose connection is being closed;
    where the task was cancelled in that, the break is missing. -/
structure FiresCounted (c : WsConn) : Prop where
  fires_eq : c.phase ≠ .cancelled → c.watchdogFires = c.silences + silenced c.phase
  silences_le : c.silences ≤ c.watchdogFires
  fires_le : c.watchdogFires ≤ c.silences + 1

variable {settings} in
/-- What a break adds to the count. -/
theorem fail_silences (c : WsConn) (e : ConnError) (now : ℤ) :
    (c.fail e now).watchdogFires = c.watchdogFires ∧
      (c.fail e now).silences = c.silences + silenced (.closing e) ∧
      silenced (c.fail e now).phase = 0 := by
  cases e with
  | heartbeatTimeout msg =>
    refine ⟨rfl, ?_, rfl⟩
    rw [silences, fail, classifyException, List.countP_append]
    rfl
  | net e =>
    unfold fail
    cases hclass : classifyException (.net e) with
    | error err => exact ⟨rfl, rfl, rfl⟩
    | ok r =>
      obtain ⟨cls, code, reason⟩ := r
      refine ⟨rfl, ?_, rfl⟩
      rw [silences, List.countP_append, List.countP_singleton, if_neg]
      · rfl
      · simpa using classifyException_net hclass

namespace FiresCounted

variable {settings} {c c' : WsConn}

/-- A phase has at most one silence that is not recorded yet. -/
theorem silenced_le_one (phase : WsPhase) : silenced phase ≤ 1 := by
  unfold silenced
  split
  · exact le_rfl
  · exact Nat.zero_le 1

/-- Counted silences and the one of the phase. -/
theorem of_eq (h : c.watchdogFires = c.silences + silenced c.phase) : FiresCounted c := by
  have hle := silenced_le_one c.phase
  exact ⟨fun _ => h, by omega, by omega⟩

/-- Where nothing is counted and no connection is closed for silence. -/
theorem of_same (h : c.watchdogFires = c.silences) (hfires : c'.watchdogFires = c.watchdogFires)
    (hdisconnects : c'.disconnects = c.disconnects) (hphase : silenced c'.phase = 0) :
    FiresCounted c' :=
  of_eq (by rw [hfires, h, hphase, silences, silences, hdisconnects, Nat.add_zero])

/-- **One thing that happens.** -/
theorem step (h : FiresCounted c) {ev : WsEvent} {answer : Option (Option SessionItem)}
    (hstep : Step settings c ev answer c') : FiresCounted c' := by
  have hlive : c.phase ≠ .cancelled := fun hphase => by
    have hrunning := hstep.not_done
    rw [isDone, hphase] at hrunning
    cases hrunning
  have heq := h.fires_eq hlive
  have hfail (e : ConnError) (now : ℤ)
      (heq : c.watchdogFires = c.silences + silenced (.closing e)) :
      FiresCounted (c.fail e now) := by
    obtain ⟨hfires, hsilences, hphase⟩ := fail_silences c e now
    exact of_eq (by rw [hfires, hsilences, hphase, heq, Nat.add_zero])
  cases hstep with
  | connected hphase =>
    rw [hphase] at heq
    exact of_same heq rfl rfl rfl
  | refused hphase e now =>
    rw [hphase] at heq
    exact hfail (.net e) now heq
  | room hpending mono =>
    cases hphase : c.phase with
    | reporting d =>
      rw [hphase] at heq
      rw [afterPut, hphase]
      show FiresCounted (c.afterBreak settings d)
      unfold afterBreak
      split
      · exact of_same heq rfl rfl rfl
      · split
        · exact of_same heq rfl rfl rfl
        · exact of_same heq rfl rfl rfl
    | opening | handing | stopping =>
      rw [hphase] at heq
      rw [afterPut, hphase]
      exact of_same heq rfl rfl rfl
    | _ => simp [pending, hphase] at hpending
  | message hphase raw now mono =>
    rw [hphase] at heq
    unfold receive
    split
    · exact of_same heq rfl rfl rfl
    · exact of_same heq rfl rfl rfl
  | silent hphase mono =>
    rw [hphase] at heq
    unfold WsConn.silent
    split
    · exact of_eq (congrArg (· + 1) heq)
    · exact h
  | lost hphase e =>
    rw [hphase] at heq
    exact of_same heq rfl rfl rfl
  | closed hphase now =>
    rw [hphase] at heq
    exact hfail _ now heq
  | woke hphase =>
    rw [hphase] at heq
    unfold attempt
    split
    · exact of_same heq rfl rfl rfl
    · exact of_same heq rfl rfl rfl
  | cancel => exact ⟨fun hne => absurd rfl hne, h.silences_le, h.fires_le⟩

/-- **Run lemma**: the watchdog has fired as often as silences were recorded, but for the one being
    closed. -/
theorem run {conn url : String} {log : WsLog}
    (hrun : WsRun settings (WsConn.start settings conn url) c log) : FiresCounted c := by
  refine hrun.invariant (fun c _ => FiresCounted c) ?_ fun _ _ _ _ _ hI hstep => hI.step hstep
  unfold WsConn.start attempt
  split
  · exact of_eq rfl
  · exact of_eq rfl

end FiresCounted

/-! ### Every run -/

section Runs

variable {settings} {conn url : String} {c : WsConn} {log : WsLog}

/-- The first pause is within the bound of the sample. -/
theorem one_le_thirty_rat : (1 : ℚ) ≤ 30 := by norm_num

/-- The factor of the sample does not shrink. -/
theorem one_le_two_rat : (1 : ℚ) ≤ 2 := by norm_num

/-- A frame of the order book. -/
def depthMessage : List UInt8 :=
  utf8 "\x7b\"stream\":\"btcusdt@depth\",\"data\":\x7b\x7d\x7d".toList

/-- Settings with pauses from one second up, and a timeout of ten nanoseconds. -/
def everySecond : WsSettings where
  loads := fun raw =>
    if raw = depthMessage then
      some (.obj [("stream", .str "btcusdt@depth"), ("data", .obj [])])
    else none
  draws := ⟨fun _ _ => 0, fun _ _ _ => zero_nonneg_rat, fun _ _ h => h⟩
  backoff := ⟨1, 30, 2, .equal, one_pos_rat, one_le_thirty_rat, one_le_two_rat⟩
  timeoutNs := 10
  timeoutText := "10"
  maxConnects := none

/-- The connection of the order book with these settings. -/
def depthConn : WsConn := WsConn.start everySecond "public" "wss://fstream"

/-- What a frame of it becomes. -/
def depthFrame (now : ℤ) : RawFrame := ⟨"public", now, "btcusdt@depth", .obj []⟩

/-- A client that reads messages in this way takes the frame. -/
theorem depthMessage_step {settings : WsSettings} (hloads : settings.loads = everySecond.loads)
    {c : WsConn} {wd : HeartbeatWatchdog} (hconn : c.conn = "public")
    (h : c.phase = .receiving wd false) (now mono : ℤ) :
    Step settings c (.message depthMessage now mono) none { c with
      framesReceived := c.framesReceived + 1
      backoff := c.backoff.reset
      phase := .handing (wd.beat mono) (depthFrame now) } := by
  have hread : settings.loads depthMessage =
      some (.obj [("stream", .str "btcusdt@depth"), ("data", .obj [])]) := by
    rw [hloads]
    show (if depthMessage = depthMessage then
      some (Datum.obj [("stream", .str "btcusdt@depth"), ("data", .obj [])]) else none) = _
    rw [if_pos rfl]
  have hparse : c.parse settings depthMessage now = some (depthFrame now) := by
    rw [parse, hread, hconn]
    rfl
  have hstep : Step settings c (.message depthMessage now mono) none
      (c.receive settings wd false depthMessage now mono) := .message h _ _ _
  rw [receive, hparse] at hstep
  exact hstep

/-- **The protocol of one connection.**  In every run, what the task hands on are records and
    frames of the protocol: frames between `connected` and `disconnected` only, and nothing after
    a fatal break.  Every break is handed on, but for the one that waits for room; a task that was
    cancelled then never hands it on.  There are never more attempts than allowed, and the task
    returns only after a fatal break or after as many breaks as attempts are allowed. -/
theorem control_protocol (hrun : WsRun settings (WsConn.start settings conn url) c log) :
    ∃ breaks st, Protocol conn url (put log) breaks st ∧
      (c.phase ≠ .cancelled → c.disconnects = breaks ++ waitingBreak c.phase) ∧
      (c.phase = .cancelled → ∃ before ∈ log.getLast?.map Entry.before,
        c.disconnects = breaks ++ waitingBreak before.phase) ∧
      (∀ m, settings.maxConnects = some m → (c.attempts : ℤ) ≤ max m 0) ∧
      (c.phase = .returned → st = .over ∨
        ∃ m, settings.maxConnects = some m ∧ m ≤ breaks.length) := by
  have h := Keeps.run hrun
  obtain ⟨breaks, st, hproto, hfits⟩ := h.protocol
  refine ⟨breaks, st, hproto, hfits.breaks settings c, fun hphase => ?_, h.attempts_le,
    fun hphase => ?_⟩
  · simp only [Fits, hphase] at hfits
    exact hfits
  · simp only [Fits, hphase] at hfits
    exact hfits.2

/-- Some run leads to this state, and has put these items. -/
def Reaches (settings : WsSettings) (c₀ c : WsConn) (items : List SessionItem) : Prop :=
  ∃ log, WsRun settings c₀ c log ∧ put log = items

/-- **Step lemma**: one event more, and what it puts. -/
theorem Reaches.step {c₀ c' : WsConn} {items : List SessionItem} (h : Reaches settings c₀ c items)
    {ev : WsEvent} {answer : Option (Option SessionItem)} (hstep : Step settings c ev answer c') :
    Reaches settings c₀ c' (items ++ answer.join.toList) := by
  obtain ⟨log, hrun, rfl⟩ := h
  exact ⟨_, hrun.snoc hstep, put_concat _ _ _ _ _⟩

/-- The connection of the order book is open, and was heard of last at `mono`. -/
def listening (frames : ℕ) (mono : ℤ) : WsConn :=
  { depthConn with
    connects := 1
    framesReceived := frames
    phase := .receiving (.new 10 (some mono)) (decide (0 < frames)) }

/-- The break when the exchange closes it. -/
def ordinaryClose : Disconnect := ⟨"public", 12, .normal, some 1000, ""⟩

/-- A connection is opened, gives a frame and is closed by the exchange. -/
theorem control_protocol_opened : ∃ breaks st,
    Protocol "public" "wss://fstream"
      [.control ⟨"public", 7, "connected", "wss://fstream"⟩, .frame (depthFrame 9),
        .control ⟨"public", 12, "disconnected", "NORMAL:1000:"⟩] breaks st ∧
    breaks = [ordinaryClose] := by
  have hopened : Reaches everySecond depthConn (listening 0 8)
      [.control ⟨"public", 7, "connected", "wss://fstream"⟩] :=
    (Reaches.step ⟨[], .nil, rfl⟩ (Step.connected rfl 7)).step (Step.room rfl 8)
  have hread := hopened.step (depthMessage_step rfl rfl rfl 9 9)
  have hframe : Reaches everySecond depthConn (listening 1 9)
      [.control ⟨"public", 7, "connected", "wss://fstream"⟩, .frame (depthFrame 9)] := by
    have h := hread.step (Step.room rfl 10)
    exact h
  have hbroken : Reaches everySecond depthConn
      { listening 1 9 with disconnects := [ordinaryClose], phase := .reporting ordinaryClose }
      [.control ⟨"public", 7, "connected", "wss://fstream"⟩, .frame (depthFrame 9)] := by
    have h := (hframe.step (Step.lost rfl (.connectionClosed (some (1000, ""))))).step
      (Step.closed rfl 12)
    exact h
  obtain ⟨log, hrun, hput⟩ := hbroken.step (Step.room rfl 13)
  obtain ⟨breaks, st, hproto, hbreaks, -⟩ := control_protocol hrun
  rw [hput] at hproto
  exact ⟨breaks, st, hproto, ((hbreaks nofun).trans (List.append_nil _)).symm⟩

/-- **The pace of reconnecting.**  In every run without full jitter, the pause after a break that
    is not fatal depends on what was handed on before: there is none when the exchange has closed
    the connection and a frame has come since the break before, or no break came before; otherwise
    the pause is between the half and the whole of the ceiling for the number of breaks since the
    last frame, or that ceiling raises and the task ends with its error. -/
theorem reconnect_pacing {pre post : WsLog} {e : Entry WsConn WsEvent (Option (Option SessionItem))}
    (hrun : WsRun settings (WsConn.start settings conn url) c (pre ++ e :: post))
    (hjitter : settings.backoff.jitter ≠ .full) {d : Disconnect} {mono : ℤ}
    (hphase : e.before.phase = .reporting d) (hcall : e.call = .room mono)
    (hfatal : d.fatal = false) :
    (d.cls.immediate = true ∧ outages (put pre) = 0 ∧ e.after.phase = .sleeping 0) ∨
      ((d.cls.immediate = false ∨ 0 < outages (put pre)) ∧
        ((∃ delay top, settings.backoff.ceiling (outages (put pre)) = .ok top ∧
            e.after.phase = .sleeping delay ∧ top / 2 ≤ delay ∧ delay ≤ top) ∨
          (settings.backoff.ceiling (outages (put pre)) = .error .overflowError ∧
            e.after.phase = .crashed .overflowError))) := by
  obtain ⟨before, call, answer, after⟩ := e
  obtain ⟨hpre, hstep⟩ := hrun.before_entry rfl
  dsimp only at hphase hcall hpre hstep ⊢
  have h := Keeps.run hpre
  obtain ⟨breaks, st, -, hfits⟩ := h.protocol
  simp only [Fits, hphase] at hfits
  -- the count of the backoff is that of the breaks since the last frame
  have hcounted : before.backoff.attempt = outages (put pre) := hfits.2.2.2.2 hjitter
  have hafter : after = before.afterBreak settings d := by
    rw [hcall] at hstep
    cases hstep
    rw [afterPut, hphase]
  rw [hafter, afterBreak, if_neg (by simp [hfatal]), ← hcounted, ← h.settings_eq]
  cases hpause : before.pause settings d.cls with
  | error e =>
    obtain ⟨hneeded, htop⟩ := pause_eq_error settings before hpause
    obtain rfl := before.backoff.settings.ceiling_error htop
    exact .inr ⟨hneeded, .inr ⟨htop, rfl⟩⟩
  | ok p =>
    have hmode : before.backoff.settings.jitter ≠ .full := by rwa [h.settings_eq]
    rcases ((pause_eq_ok settings before hpause).2 hmode).2 with ⟨hnow, hzero, hpause⟩ |
      ⟨hneeded, top, htop, hhalf, hle⟩
    · exact .inl ⟨hnow, hzero, congrArg WsPhase.sleeping hpause⟩
    · exact .inr ⟨hneeded, .inl ⟨p.1, top, htop, rfl, hhalf, hle⟩⟩

/-- After a first failure to connect there is a pause of half a second to a second. -/
theorem reconnect_pacing_refused : ∃ delay,
    ((depthConn.fail (.net (.transient "OSError: ")) 3).afterPut everySecond 4).phase =
      .sleeping delay ∧ 1 / 2 ≤ delay ∧ delay ≤ 1 := by
  have hrun : WsRun everySecond depthConn _ _ :=
    (Run.nil.snoc (Step.refused rfl (.transient "OSError: ") 3)).snoc (Step.room rfl 4)
  have hceiling : everySecond.backoff.ceiling 0 = .ok 1 := by decide +kernel
  rcases reconnect_pacing hrun (by decide) rfl rfl rfl with ⟨himmediate, -⟩ |
    ⟨-, ⟨delay, top, htop, hphase, hhalf, hle⟩ | ⟨herror, -⟩⟩
  · cases himmediate
  · cases hceiling.symm.trans htop
    exact ⟨delay, hphase, hhalf, hle⟩
  · cases hceiling.symm.trans herror

/-- **The watchdog.**  In every run, when the time to wait for a message is over, the connection
    is given up just when nothing was heard of it for the timeout, and is listened to again
    otherwise; when it has been closed, the break is written down.  The watchdog's count is that of
    the breaks for silence, and one more while a connection is being closed for that; only a cancel
    in that moment leaves it one above. -/
theorem watchdog_exact (hrun : WsRun settings (WsConn.start settings conn url) c log) :
    FiresCounted c ∧
    (∀ pre e post mono, log = pre ++ e :: post → e.call = .silent mono →
      (∃ t, lastMono pre = some t ∧ t + settings.timeoutNs ≤ mono) ∧
        e.after.phase = .closing (silenceError settings) ∨
      (∀ t, lastMono pre = some t → mono < t + settings.timeoutNs) ∧ e.after = e.before) ∧
    ∀ pre e post now, log = pre ++ e :: post → e.call = .closed now →
      e.before.phase = .closing (silenceError settings) →
        e.after.phase = .reporting ⟨conn, now, .heartbeatTimeout, none,
          "no frames for " ++ settings.timeoutText ++ "s"⟩ := by
  refine ⟨FiresCounted.run hrun, fun pre e post mono hlog hcall => ?_,
    fun pre e post now hlog hcall hclosing => ?_⟩
  · obtain ⟨before, call, answer, after⟩ := e
    obtain ⟨hpre, hstep⟩ := hrun.before_entry hlog
    dsimp only at hcall hpre hstep ⊢
    have h := Keeps.run hpre
    obtain ⟨breaks, st, -, hfits⟩ := h.protocol
    rw [hcall] at hstep
    -- the time to wait is over only where the task listens
    obtain ⟨wd, healthy, hphase, hafter⟩ : ∃ wd healthy, before.phase = .receiving wd healthy ∧
        after = before.silent settings wd mono := by
      cases hstep with
      | silent hphase => exact ⟨_, _, hphase, rfl⟩
    simp only [Fits, hphase] at hfits
    obtain ⟨-, -, -, -, -, htimeout, hlast⟩ := hfits
    have hexpired : wd.expired mono = true ↔
        ∃ t, lastMono pre = some t ∧ t + settings.timeoutNs ≤ mono := by
      rw [HeartbeatWatchdog.expired, HeartbeatWatchdog.deadlineNs, hlast, htimeout, Option.any_map,
        Option.any_eq_true]
      simp
    by_cases hsilent : wd.expired mono = true
    · refine .inl ⟨hexpired.mp hsilent, ?_⟩
      rw [hafter, WsConn.silent, if_pos hsilent]
    · refine .inr ⟨fun t ht => ?_, ?_⟩
      · by_contra hle
        exact hsilent (hexpired.mpr ⟨t, ht, not_lt.mp hle⟩)
      · rw [hafter, WsConn.silent, if_neg hsilent]
  · obtain ⟨before, call, answer, after⟩ := e
    obtain ⟨hpre, hstep⟩ := hrun.before_entry hlog
    dsimp only at hcall hclosing hpre hstep ⊢
    rw [hcall] at hstep
    cases hstep with
    | closed hphase =>
      cases hclosing.symm.trans hphase
      rw [← (Keeps.run hpre).conn_eq]
      rfl

/-- The connection is given up ten units after it was opened, and closed two units later. -/
theorem watchdog_exact_silent :
    let opened : WsConn := { depthConn with
      connects := 1, phase := .receiving (.new 10 (some 8)) false }
    (opened.silent everySecond (.new 10 (some 8)) 18).phase =
        .closing (silenceError everySecond) ∧
      ((opened.silent everySecond (.new 10 (some 8)) 18).fail
        (silenceError everySecond) 20).phase =
          .reporting ⟨"public", 20, .heartbeatTimeout, none, "no frames for 10s"⟩ := by
  intro opened
  have hrun : WsRun everySecond depthConn _ _ :=
    ((Run.nil.snoc (Step.connected rfl 7)).snoc (Step.room rfl 8)).snoc (Step.silent rfl 18)
  refine ⟨?_, (watchdog_exact (hrun.snoc (Step.closed rfl 20))).2.2 _ _ [] 20 rfl rfl rfl⟩
  rcases (watchdog_exact hrun).2.1 _ _ [] 18 rfl rfl with ⟨-, hphase⟩ | ⟨hlt, -⟩
  · exact hphase
  · exact absurd (hlt 8 rfl) (by decide)

end Runs

end WsConn

end FuzzHelm
