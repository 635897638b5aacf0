import FuzzHelm.Ingest.WsConnection
import FuzzHelm.Lib.Mailbox
import Mathlib.Data.List.ReduceOption

namespace FuzzHelm

open Lib

/-!
# The client of the stream

Two tasks, each with a connection of its own, put what they hand on into one queue with a bound,
and one consumer takes it out.  A sign in the queue says that a task has ended badly or that both
have ended.

* `WsClient`, `WsClient.Step` — tasks, queue and consumer, with any order of what happens;
* `projected` — what one of the tasks goes through;
* `feed_exact` — the consumer gets what each task has put, in its order, once;
* `feed_end` — the consumer ends after everything was taken, and does not wait for ever.
-/

/-- `Channel`: the two connections of a client. -/
inductive Channel where
  | marketStream
  | publicStream
  deriving DecidableEq, Repr

/-- `MARKET`, `PUBLIC`: the names in the records. -/
def Channel.name : Channel → String
  | marketStream => "market"
  | publicStream => "public"

/-- The connection that an item is of. -/
def SessionItem.conn : SessionItem → String
  | .frame f => f.conn
  | .control r => r.conn

/-- What the iteration raises. -/
inductive FeedError where
  | crash (e : PyError)
  | wsFatal (d : Disconnect)

/-- Where the consumer is. -/
inductive FeedPhase where
  | reading
  | ended
  | raised (e : FeedError)
  | left

/-- The client; `signs` are the tasks that wait to put the sign, and `reported` says of which
    task the end was noticed. -/
structure WsClient where
  conns : Channel → WsConn
  queue : List (Option SessionItem)
  fatal : Option Disconnect
  crash : Option PyError
  reported : Channel → Bool
  signs : ℕ
  consumer : FeedPhase

/-- What a client can do or meet. -/
inductive ClientEvent where
  | conn (ch : Channel) (ev : WsEvent)
  | taskDone (ch : Channel)
  | putSign
  | get
  | leave

namespace WsClient

variable (settings : Channel → WsSettings) (urls : Channel → String) (queueSize : ℤ)

/-- The start of the tasks. -/
def start : WsClient where
  conns := fun ch => WsConn.start (settings ch) ch.name (urls ch)
  queue := []
  fatal := none
  crash := none
  reported := fun _ => false
  signs := 0
  consumer := .reading

variable (c : WsClient)

/-- Both tasks are over. -/
def allDone : Prop := ∀ ch, (c.conns ch).isDone = true

/-- Whether both tasks have ended can be computed. -/
instance : Decidable c.allDone :=
  decidable_of_iff ((c.conns .marketStream).isDone = true ∧ (c.conns .publicStream).isDone = true)
    ⟨fun h ch => by cases ch; exacts [h.1, h.2], fun h => ⟨h _, h _⟩⟩

/-- A task has gone on, and has put this into the queue. -/
def moved (ch : Channel) (conn : WsConn) (answer : Option (Option SessionItem)) : WsClient :=
  { c with
    conns := fun ch' => if ch' = ch then conn else c.conns ch'
    queue := c.queue ++ answer.toList
    fatal :=
      match conn.phase with
      | .stopping d => some d
      | _ => c.fatal }

/-- A task that has moved is where it was moved to. -/
theorem moved_conns_self (ch : Channel) (task : WsConn)
    (answer : Option (Option SessionItem)) : (c.moved ch task answer).conns ch = task :=
  if_pos rfl

/-- The sign is put, or waits for room. -/
def sign : WsClient :=
  if Mailbox.full queueSize c.queue then { c with signs := c.signs + 1 }
  else { c with queue := c.queue ++ [none] }

/-- `_on_task_done`: a fatal end stops the other task, and when both have ended the consumer is
    told. -/
def onTaskDone (ch : Channel) : WsClient :=
  let c := { c with reported := fun ch' => if ch' = ch then true else c.reported ch' }
  match (c.conns ch).phase with
  | .cancelled => c
  | .crashed e => { c with crash := c.crash.or (some e) }.sign queueSize
  | _ => if c.allDone then c.sign queueSize else c

/-- The consumer takes the sign. -/
def stop : WsClient :=
  match c.crash, c.fatal with
  | some e, _ => { c with consumer := .raised (.crash e) }
  | none, some d => { c with consumer := .raised (.wsFatal d) }
  | none, none => if c.allDone then { c with consumer := .ended } else c

/-- What can happen, with what is put into the queue or taken out of it. -/
inductive Step : WsClient → ClientEvent → Option (Option SessionItem) → WsClient → Prop
  | conn {c : WsClient} {ch : Channel} {ev : WsEvent} {answer : Option (Option SessionItem)}
      {conn : WsConn} (h : WsConn.Step (settings ch) (c.conns ch) ev answer conn)
      (hroom : answer.isSome = true → Mailbox.full queueSize c.queue = false)
      (hcancel : ev = .cancel → c.consumer ≠ .reading) :
      Step c (.conn ch ev) answer (c.moved ch conn answer)
  | taskDone {c : WsClient} {ch : Channel} (hdone : (c.conns ch).isDone = true)
      (hnew : c.reported ch = false) : Step c (.taskDone ch) none (c.onTaskDone queueSize ch)
  | putSign {c : WsClient} {n : ℕ} (hsigns : c.signs = n + 1)
      (hroom : Mailbox.full queueSize c.queue = false) :
      Step c .putSign none { c with signs := n, queue := c.queue ++ [none] }
  | item {c : WsClient} {item : SessionItem} {queue : List (Option SessionItem)}
      (hreading : c.consumer = .reading) (hqueue : c.queue = some item :: queue) :
      Step c .get (some (some item)) { c with queue := queue }
  | sign {c : WsClient} {queue : List (Option SessionItem)}
      (hreading : c.consumer = .reading) (hqueue : c.queue = none :: queue) :
      Step c .get (some none) { c with queue := queue }.stop
  | leave {c : WsClient} (hreading : c.consumer = .reading) :
      Step c .leave none { c with consumer := .left }

/-- The runs of a client. -/
abbrev ClientRun := Run (Step settings queueSize)

/-- The log of such a run. -/
abbrev ClientLog := List (Entry WsClient ClientEvent (Option (Option SessionItem)))

/-! ### One of the tasks -/

/-- What an entry of the log is for one of the tasks. -/
def forTask (ch : Channel) (e : Entry WsClient ClientEvent (Option (Option SessionItem))) :
    Option (Entry WsConn WsEvent (Option (Option SessionItem))) :=
  match e.call with
  | .conn ch' ev =>
    if ch' = ch then some ⟨e.before.conns ch, ev, e.answer, e.after.conns ch⟩ else none
  | _ => none

/-- What one of the tasks goes through. -/
def projected (ch : Channel) (log : ClientLog) : WsConn.WsLog := log.filterMap (forTask ch)

/-- What one of the tasks has put. -/
def putBy (ch : Channel) (log : ClientLog) : List SessionItem := WsConn.put (projected ch log)

/-- What the consumer has taken. -/
def taken (log : ClientLog) : List SessionItem :=
  log.filterMap fun e =>
    match e.call with
    | .get => e.answer.join
    | _ => none

/-- The items of one connection. -/
def ofChannel (ch : Channel) (items : List SessionItem) : List SessionItem :=
  items.filter fun item => item.conn = ch.name

section Log

variable (log : ClientLog) (c c' : WsClient) (call : ClientEvent)
  (answer : Option (Option SessionItem))

/-- One event more is at most one event more of a task. -/
theorem projected_concat (ch : Channel) : projected ch (log ++ [⟨c, call, answer, c'⟩]) =
    projected ch log ++ (forTask ch ⟨c, call, answer, c'⟩).toList := by
  rw [projected, List.filterMap_append, projected]
  cases h : forTask ch ⟨c, call, answer, c'⟩ with
  | none => simp [h]
  | some e => simp [h]

/-- What was taken does not change unless the consumer takes. -/
theorem taken_concat (hcall : call ≠ .get) :
    taken (log ++ [⟨c, call, answer, c'⟩]) = taken log := by
  rw [taken, List.filterMap_append]
  cases call with
  | get => exact absurd rfl hcall
  | _ => exact List.append_nil _

/-- What the consumer takes. -/
theorem taken_get (item : Option SessionItem) :
    taken (log ++ [⟨c, .get, some item, c'⟩]) = taken log ++ item.toList := by
  rw [taken, List.filterMap_append]
  cases item with
  | none => rfl
  | some item => rfl

end Log

/-- The channels have different names. -/
theorem Channel.name_injective : Function.Injective Channel.name := by
  intro ch ch' h
  cases ch <;> cases ch' <;> first | rfl | exact absurd h (by decide)

end WsClient

/-- The protocol of a connection is kept by items of that connection. -/
theorem WsConn.Protocol.conn_eq {conn url : String} {items : List SessionItem}
    {breaks : List Disconnect} {st : WsConn.LinkState}
    (h : WsConn.Protocol conn url items breaks st) : ∀ item ∈ items, item.conn = conn := by
  induction h with
  | start =>
    intro item hitem
    cases hitem
  | connected _ now ih =>
    intro item hitem
    rcases List.mem_append.mp hitem with hitem | hitem
    · exact ih item hitem
    · rw [List.mem_singleton.mp hitem]
      rfl
  | frame _ hconn ih =>
    intro item hitem
    rcases List.mem_append.mp hitem with hitem | hitem
    · exact ih item hitem
    · rw [List.mem_singleton.mp hitem]
      exact hconn
  | disconnected _ _ _ ih =>
    intro item hitem
    rcases List.mem_append.mp hitem with hitem | hitem
    · exact ih item hitem
    · rw [List.mem_singleton.mp hitem]
      rfl

namespace WsClient

variable {settings : Channel → WsSettings} {urls : Channel → String} {queueSize : ℤ}
  {c c' : WsClient} {log : ClientLog} {call : ClientEvent} {answer : Option (Option SessionItem)}

/-- A step of the client is a step of a task, or leaves it alone. -/
theorem step_task (hstep : Step settings queueSize c call answer c') (ch : Channel) :
    forTask ch ⟨c, call, answer, c'⟩ = none ∧ c'.conns ch = c.conns ch ∨
    ∃ ev, forTask ch ⟨c, call, answer, c'⟩ = some ⟨c.conns ch, ev, answer, c'.conns ch⟩ ∧
      WsConn.Step (settings ch) (c.conns ch) ev answer (c'.conns ch) := by
  have hsign (c : WsClient) : (c.sign queueSize).conns = c.conns := by
    unfold sign
    split
    · rfl
    · rfl
  cases hstep with
  | @conn ch' ev _ task h hroom hcancel =>
    by_cases hch : ch' = ch
    · subst hch
      exact .inr ⟨ev, if_pos rfl, (c.moved_conns_self ch' task answer).symm ▸ h⟩
    · exact .inl ⟨if_neg hch, if_neg (Ne.symm hch)⟩
  | @taskDone ch' hdone hnew =>
    refine .inl ⟨rfl, ?_⟩
    unfold onTaskDone
    dsimp only
    split
    · rfl
    · rw [hsign]
    · split
      · rw [hsign]
      · rfl
  | putSign => exact .inl ⟨rfl, rfl⟩
  | item => exact .inl ⟨rfl, rfl⟩
  | sign hreading hqueue =>
    refine .inl ⟨rfl, ?_⟩
    unfold stop
    split
    · rfl
    · rfl
    · split
      · rfl
      · rfl
  | leave => exact .inl ⟨rfl, rfl⟩

/-- **One of the tasks runs by itself.** -/
theorem task_run (hrun : ClientRun settings queueSize (start settings urls) c log) (ch : Channel) :
    WsConn.WsRun (settings ch) (WsConn.start (settings ch) ch.name (urls ch)) (c.conns ch)
      (projected ch log) := by
  refine hrun.invariant (fun c log => WsConn.WsRun (settings ch)
    (WsConn.start (settings ch) ch.name (urls ch)) (c.conns ch) (projected ch log)) .nil ?_
  intro c log call answer c' hI hstep
  rw [projected_concat]
  rcases step_task hstep ch with ⟨hnone, hsame⟩ | ⟨ev, hsome, htask⟩
  · rw [hnone, hsame]
    exact (List.append_nil _).symm ▸ hI
  · rw [hsome]
    exact hI.snoc htask

/-! ### Accounting -/

/-- What a task has put, after one thing more. -/
theorem putBy_concat (ch : Channel) : putBy ch (log ++ [⟨c, call, answer, c'⟩]) =
    putBy ch log ++
      match call with
      | .conn ch' _ => if ch' = ch then answer.join.toList else []
      | _ => [] := by
  rw [putBy, projected_concat, WsConn.put, List.filterMap_append]
  cases call with
  | conn ch' ev =>
    rw [forTask]
    dsimp only
    by_cases hch : ch' = ch
    · rw [if_pos hch, if_pos hch]
      cases hanswer : answer.join with
      | none => simp [hanswer, putBy, WsConn.put]
      | some item => simp [hanswer, putBy, WsConn.put]
    · rw [if_neg hch, if_neg hch]
      rfl
  | _ => rfl

/-- The items of one connection carry its name. -/
theorem conn_of_mem_putBy (hrun : ClientRun settings queueSize (start settings urls) c log)
    {ch : Channel} {item : SessionItem} (hitem : item ∈ putBy ch log) : item.conn = ch.name := by
  obtain ⟨breaks, st, hproto, -⟩ := (WsConn.Keeps.run (task_run hrun ch)).protocol
  exact hproto.conn_eq item hitem

/-- The sign of the end is not an item. -/
theorem sign_queue (c : WsClient) :
    (c.sign queueSize).queue.reduceOption = c.queue.reduceOption := by
  unfold sign
  split
  · rfl
  · show (c.queue ++ [none]).reduceOption = _
    rw [List.reduceOption_append]
    exact List.append_nil _

/-- The end of a task puts no item. -/
theorem onTaskDone_queue (c : WsClient) (ch : Channel) :
    (c.onTaskDone queueSize ch).queue.reduceOption = c.queue.reduceOption := by
  unfold onTaskDone
  dsimp only
  split
  · rfl
  · rw [sign_queue]
  · split
    · rw [sign_queue]
    · rfl

/-- The sign changes nothing but where the consumer is. -/
theorem stop_eq (c : WsClient) : ∃ consumer, c.stop = { c with consumer := consumer } := by
  unfold stop
  split
  · exact ⟨_, rfl⟩
  · exact ⟨_, rfl⟩
  · split
    · exact ⟨_, rfl⟩
    · exact ⟨c.consumer, rfl⟩

/-- What each task has put is what was taken of its items, and what waits of them. -/
def Accounted (c : WsClient) (log : ClientLog) : Prop :=
  ∀ ch, putBy ch log = ofChannel ch (taken log ++ c.queue.reduceOption)

/-- **Run lemma**: the queue and what was taken are what the tasks have put. -/
theorem accounted (hrun : ClientRun settings queueSize (start settings urls) c log) :
    Accounted c log := by
  induction hrun with
  | nil => exact fun ch => rfl
  | @snoc c log call answer c' hrun hstep ih =>
    intro ch
    have hnext : ClientRun settings queueSize (start settings urls) c' _ := hrun.snoc hstep
    rw [putBy_concat, ih ch]
    cases hstep with
    | @conn ch' ev _ task h hroom hcancel =>
      have hqueue : (c.moved ch' task answer).queue.reduceOption =
          c.queue.reduceOption ++ answer.join.toList := by
        show (c.queue ++ answer.toList).reduceOption = _
        rw [List.reduceOption_append]
        cases answer with
        | none => rfl
        | some item => cases item <;> rfl
      rw [taken_concat _ _ _ _ _ (by simp), hqueue, ← List.append_assoc, ofChannel, ofChannel,
        List.filter_append _ answer.join.toList]
      -- what a task puts is of its own connection, so the other stream gets nothing of it
      congr 1
      cases hjoin : answer.join with
      | none =>
        dsimp only
        split
        · rfl
        · rfl
      | some item =>
        have hitem : item ∈
            putBy ch' (log ++ [⟨c, .conn ch' ev, answer, c.moved ch' task answer⟩]) := by
          rw [putBy_concat]
          dsimp only
          rw [if_pos rfl, hjoin]
          exact List.mem_append_right _ (List.mem_singleton_self item)
        have hconn := conn_of_mem_putBy hnext hitem
        dsimp only
        by_cases hch : ch' = ch
        · rw [if_pos hch, ← hch]
          simp [hconn]
        · have hne : ch'.name ≠ ch.name := fun h => hch (Channel.name_injective h)
          rw [if_neg hch]
          simp [hconn, hne]
    | taskDone hdone hnew =>
      rw [taken_concat _ _ _ _ _ (by simp), onTaskDone_queue]
      exact List.append_nil _
    | putSign hsigns hroom =>
      rw [taken_concat _ _ _ _ _ (by simp), List.reduceOption_append]
      exact (List.append_nil _).trans (congrArg (fun q => ofChannel ch (taken log ++ q))
        (List.append_nil _).symm)
    | item hreading hqueue =>
      rw [taken_get, hqueue, List.append_assoc]
      exact List.append_nil _
    | @sign queue hreading hqueue =>
      obtain ⟨consumer, hstop⟩ := stop_eq { c with queue := queue }
      rw [taken_get, hqueue, hstop, List.append_assoc]
      exact List.append_nil _
    | leave hreading =>
      rw [taken_concat _ _ _ _ _ (by simp)]
      exact List.append_nil _

/-- What waits and what was taken is of one of the connections. -/
theorem taken_of_channel (hrun : ClientRun settings queueSize (start settings urls) c log) :
    ∀ item ∈ taken log ++ c.queue.reduceOption, ∃ ch : Channel, item.conn = ch.name := by
  induction hrun with
  | nil =>
    intro item hitem
    cases hitem
  | @snoc c log call answer c' hrun hstep ih =>
    intro item hitem
    have hnext : ClientRun settings queueSize (start settings urls) c' _ := hrun.snoc hstep
    cases hstep with
    | @conn ch ev _ task h hroom hcancel =>
      rw [taken_concat _ _ _ _ _ (by simp)] at hitem
      have hqueue : (c.moved ch task answer).queue.reduceOption =
          c.queue.reduceOption ++ answer.toList.reduceOption := List.reduceOption_append _ _
      rw [hqueue, ← List.append_assoc] at hitem
      rcases List.mem_append.mp hitem with hitem | hitem
      · exact ih item hitem
      · refine ⟨ch, conn_of_mem_putBy hnext ?_⟩
        rw [putBy_concat]
        refine List.mem_append_right _ ?_
        dsimp only
        rw [if_pos rfl]
        cases answer with
        | none => cases hitem
        | some x =>
          cases x with
          | none => cases hitem
          | some x => exact hitem
    | taskDone hdone hnew =>
      rw [taken_concat _ _ _ _ _ (by simp), onTaskDone_queue] at hitem
      exact ih item hitem
    | putSign hsigns hroom =>
      rw [taken_concat _ _ _ _ _ (by simp), List.reduceOption_append] at hitem
      exact ih item (List.append_nil c.queue.reduceOption ▸ hitem)
    | item hreading hqueue =>
      rw [taken_get, List.append_assoc] at hitem
      rw [hqueue] at ih
      exact ih item hitem
    | @sign queue hreading hqueue =>
      obtain ⟨consumer, hstop⟩ := stop_eq { c with queue := queue }
      rw [taken_get, hstop, List.append_assoc] at hitem
      rw [hqueue] at ih
      exact ih item hitem
    | leave hreading =>
      rw [taken_concat _ _ _ _ _ (by simp)] at hitem
      exact ih item hitem

/-- **The feed.**  In every run, whatever the order of the tasks and however often the queue was
    full: what each task has put, which is of the protocol of its connection, is what the consumer
    has taken of it, in order, and what waits in the queue; and the consumer has taken nothing
    else. -/
theorem feed_exact (hrun : ClientRun settings queueSize (start settings urls) c log) :
    (∀ ch, putBy ch log = ofChannel ch (taken log) ++ ofChannel ch c.queue.reduceOption ∧
      ∃ breaks st, WsConn.Protocol ch.name (urls ch) (putBy ch log) breaks st) ∧
    ∀ item ∈ taken log, ∃ ch, item ∈ putBy ch log := by
  have haccounted := accounted hrun
  refine ⟨fun ch => ⟨?_, ?_⟩, ?_⟩
  · rw [haccounted ch, ofChannel, List.filter_append]
    rfl
  · obtain ⟨breaks, st, hproto, -⟩ := (WsConn.Keeps.run (task_run hrun ch)).protocol
    exact ⟨breaks, st, hproto⟩
  · intro item hitem
    obtain ⟨ch, hch⟩ := taken_of_channel hrun item (List.mem_append_left _ hitem)
    refine ⟨ch, ?_⟩
    rw [haccounted ch, ofChannel, List.mem_filter, decide_eq_true_eq]
    exact ⟨List.mem_append_left _ hitem, hch⟩

/-- Settings with this many attempts. -/
def depthSettings (maxConnects : Option ℤ) : Channel → WsSettings :=
  fun _ => { WsConn.everySecond with maxConnects := maxConnects }

/-- The client of two connections with room for one item. -/
def depthClient (maxConnects : Option ℤ) : WsClient :=
  start (depthSettings maxConnects) Channel.name

/-- Both connections are opened and the second one gives a frame, over a queue with room for one
    item: the consumer gets the three items in the order in which they found room. -/
theorem feed_exact_opened : ∃ (c : WsClient) (log : ClientLog), c.queue = [] ∧
    taken log = [.control ⟨"market", 7, "connected", "market"⟩,
      .control ⟨"public", 8, "connected", "public"⟩, .frame (WsConn.depthFrame 11)] ∧
    ∀ ch, putBy ch log = ofChannel ch (taken log) ++ ofChannel ch c.queue.reduceOption := by
  have hconnected : ClientRun (depthSettings none) 1 (depthClient none) _ _ :=
    (Run.nil.snoc (@Step.conn _ _ _ .marketStream _ _ _ (.connected rfl 7) (by simp)
      (by simp))).snoc (@Step.conn _ _ _ .publicStream _ _ _ (.connected rfl 8) (by simp) (by simp))
  -- the record of the second connection waits until the first one was taken
  have hmarket := (hconnected.snoc
    (@Step.conn _ _ _ .marketStream _ _ _ (.room rfl 9) (fun _ => rfl) (by simp))).snoc
      (.item rfl rfl)
  have hpublic := hmarket.snoc
    (@Step.conn _ _ _ .publicStream _ _ _ (.room rfl 10) (fun _ => rfl) (by simp))
  -- and so does its frame
  have hread := (hpublic.snoc (@Step.conn _ _ _ .publicStream _ _ _
    (WsConn.depthMessage_step rfl rfl rfl 11 11) (by simp) (by simp))).snoc (.item rfl rfl)
  have hrun := (hread.snoc
    (@Step.conn _ _ _ .publicStream _ _ _ (.room rfl 12) (fun _ => rfl) (by simp))).snoc
      (.item rfl rfl)
  exact ⟨_, _, rfl, rfl, fun ch => ((feed_exact hrun).1 ch).1⟩

/-! ### The end -/

/-- Nothing but signs comes after a sign. -/
def SignsLast (queue : List (Option SessionItem)) : Prop :=
  queue.Pairwise fun x y => x = none → y = none

/-- One sign more comes last. -/
theorem SignsLast.append_sign {queue : List (Option SessionItem)} (h : SignsLast queue) :
    SignsLast (queue ++ [none]) := by
  refine List.pairwise_append.mpr ⟨h, List.pairwise_singleton _ _, fun x _ y hy _ => ?_⟩
  exact List.mem_singleton.mp hy

/-- Items come before any sign. -/
theorem SignsLast.append {queue items : List (Option SessionItem)} (h : SignsLast queue)
    (hitems : items.length ≤ 1) (hnone : none ∉ queue) : SignsLast (queue ++ items) := by
  refine List.pairwise_append.mpr ⟨h, ?_, fun x hx y _ hxnone => ?_⟩
  · match items, hitems with
    | [], _ => exact .nil
    | [x], _ => exact List.pairwise_singleton _ _
  · exact absurd (hxnone ▸ hx) hnone

/-- After the sign there are no items. -/
theorem SignsLast.reduceOption {queue : List (Option SessionItem)}
    (h : SignsLast (none :: queue)) : queue.reduceOption = [] := by
  rw [List.reduceOption_eq_nil_iff]
  exact ⟨queue.length, List.eq_replicate_iff.mpr
    ⟨rfl, fun x hx => (List.pairwise_cons.mp h).1 x hx rfl⟩⟩

/-- The client after some run. -/
structure Sound (c : WsClient) : Prop where
  live : c.consumer = .reading → ∀ ch, (c.conns ch).phase ≠ .cancelled
  reported : ∀ ch, c.reported ch = true → (c.conns ch).isDone = true
  stopping : ∀ ch d, (c.conns ch).phase = .stopping d → c.fatal.isSome = true
  fatal : ∀ d, c.fatal = some d → ∃ ch, d ∈ (c.conns ch).disconnects ∧ d.fatal = true
  crash : ∀ e, c.crash = some e → ∃ ch, (c.conns ch).phase = .crashed e
  signs : c.crash = none → c.fatal = none → none ∈ c.queue ∨ 0 < c.signs → c.allDone
  last : c.crash = none → c.fatal = none → SignsLast c.queue
  waiting : c.consumer = .reading → (∀ ch, c.reported ch = true) → none ∈ c.queue ∨ 0 < c.signs
  ended : c.consumer = .ended → c.allDone ∧ c.queue.reduceOption = []
  crashed : ∀ e, c.consumer = .raised (.crash e) → ∃ ch, (c.conns ch).phase = .crashed e
  raised : ∀ d, c.consumer = .raised (.wsFatal d) →
    ∃ ch, d ∈ (c.conns ch).disconnects ∧ d.fatal = true

/-- What `_on_task_done` comes to. -/
inductive TaskEnds (c : WsClient) (ch : Channel) : WsClient → Prop
  | quiet (h : (c.conns ch).phase = .cancelled ∨ ¬c.allDone) :
      TaskEnds c ch { c with reported := fun ch' => if ch' = ch then true else c.reported ch' }
  | signed {crash : Option PyError} {queue : List (Option SessionItem)} {signs : ℕ}
      (hcrash : crash = c.crash ∧ c.allDone ∨
        ∃ e, (c.conns ch).phase = .crashed e ∧ crash = c.crash.or (some e))
      (hsign : queue = c.queue ++ [none] ∧ signs = c.signs ∨
        queue = c.queue ∧ signs = c.signs + 1) :
      TaskEnds c ch { c with
        reported := fun ch' => if ch' = ch then true else c.reported ch'
        crash := crash
        queue := queue
        signs := signs }

/-- The end of a task, in all its cases. -/
theorem taskEnds (c : WsClient) (ch : Channel) : TaskEnds c ch (c.onTaskDone queueSize ch) := by
  unfold onTaskDone
  dsimp only
  split
  · rename_i hphase
    exact .quiet (.inl hphase)
  · rename_i e hphase
    unfold sign
    split
    · exact .signed (.inr ⟨e, hphase, rfl⟩) (.inr ⟨rfl, rfl⟩)
    · exact .signed (.inr ⟨e, hphase, rfl⟩) (.inl ⟨rfl, rfl⟩)
  · split
    · rename_i hall
      unfold sign
      split
      · exact .signed (.inl ⟨rfl, hall⟩) (.inr ⟨rfl, rfl⟩)
      · exact .signed (.inl ⟨rfl, hall⟩) (.inl ⟨rfl, rfl⟩)
    · rename_i hall
      exact .quiet (.inr hall)

/-! What is the same after a task has gone on. -/

section Moved

variable {ch : Channel} {ev : WsEvent} {task : WsConn} {d : Disconnect}

/-- One task moves, and the other stays. -/
theorem moved_conns (c : WsClient) (ch : Channel) (task : WsConn)
    (answer : Option (Option SessionItem)) (ch' : Channel) :
    (c.moved ch task answer).conns ch' = task ∧ ch' = ch ∨
      (c.moved ch task answer).conns ch' = c.conns ch' ∧ ch' ≠ ch := by
  by_cases hch : ch' = ch
  · exact .inl ⟨if_pos hch, hch⟩
  · exact .inr ⟨if_neg hch, hch⟩

/-- A reason to give up was there before, or it is that of the task that stops. -/
theorem moved_fatal (h : (c.moved ch task answer).fatal = some d) :
    task.phase = .stopping d ∨ c.fatal = some d := by
  unfold WsClient.moved at h
  dsimp only at h
  split at h
  · rename_i hphase
    cases h
    exact .inl hphase
  · exact .inr h

/-- Without a reason to give up no task stops with one. -/
theorem moved_fatal_none (h : (c.moved ch task answer).fatal = none) :
    c.fatal = none ∧ ∀ d, task.phase ≠ .stopping d := by
  unfold WsClient.moved at h
  dsimp only at h
  split at h
  · cases h
  · rename_i hne
    exact ⟨h, hne⟩

/-- A break of a connection is not forgotten. -/
theorem moved_disconnects (hstep : WsConn.Step (settings ch) (c.conns ch) ev answer task)
    (h : ∃ ch', d ∈ (c.conns ch').disconnects ∧ d.fatal = true) :
    ∃ ch', d ∈ ((c.moved ch task answer).conns ch').disconnects ∧ d.fatal = true := by
  obtain ⟨ch', hmem, hd⟩ := h
  refine ⟨ch', ?_, hd⟩
  rcases c.moved_conns ch task answer ch' with ⟨heq, rfl⟩ | ⟨heq, -⟩
  · rw [heq]
    exact hstep.disconnects.subset hmem
  · rwa [heq]

/-- A task that has crashed does not go on. -/
theorem moved_crashed (hstep : WsConn.Step (settings ch) (c.conns ch) ev answer task)
    {e : PyError} (h : ∃ ch', (c.conns ch').phase = .crashed e) :
    ∃ ch', ((c.moved ch task answer).conns ch').phase = .crashed e := by
  obtain ⟨ch', hphase⟩ := h
  refine ⟨ch', ?_⟩
  rcases c.moved_conns ch task answer ch' with ⟨-, rfl⟩ | ⟨heq, -⟩
  · have hrunning := hstep.not_done
    rw [WsConn.isDone, hphase] at hrunning
    cases hrunning
  · rwa [heq]

end Moved

namespace Sound

/-- A client is sound when it starts. -/
theorem start : Sound (WsClient.start settings urls) := by
  have hphase (ch : Channel) : ((WsClient.start settings urls).conns ch).phase = .connecting ∨
      ((WsClient.start settings urls).conns ch).phase = .returned := by
    show (WsConn.attempt _ _).phase = _ ∨ (WsConn.attempt _ _).phase = _
    unfold WsConn.attempt
    split
    · exact .inr rfl
    · exact .inl rfl
  refine ⟨fun _ ch hcancelled => ?_, ?_, fun ch d hstopping => ?_, ?_, ?_, ?_, fun _ _ => .nil,
    ?_, ?_, ?_, ?_⟩
  · rcases hphase ch with h | h
    · simp [h] at hcancelled
    · simp [h] at hcancelled
  · intro ch h
    cases h
  · rcases hphase ch with h | h
    · simp [h] at hstopping
    · simp [h] at hstopping
  · intro d h
    cases h
  · intro e h
    cases h
  · intro _ _ h
    simp [WsClient.start] at h
  · intro _ h
    exact absurd (h .marketStream) (by simp [WsClient.start])
  · intro h
    cases h
  · intro e h
    cases h
  · intro d h
    cases h

/-- A task goes on. -/
theorem moved (h : Sound c) {ch : Channel} {ev : WsEvent} {task : WsConn}
    (hstep : WsConn.Step (settings ch) (c.conns ch) ev answer task)
    (hcancel : ev = .cancel → c.consumer ≠ .reading)
    (hfatal : ∀ d, task.phase = .stopping d → d ∈ task.disconnects ∧ d.fatal = true) :
    Sound (c.moved ch task answer) := by
  have hrunning : ¬c.allDone := fun hall => by
    have hdone := hall ch
    rw [hstep.not_done] at hdone
    cases hdone
  have hconns := c.moved_conns ch task answer
  refine ⟨fun hreading ch' hphase => ?_, fun ch' hreported => ?_, fun ch' d hphase => ?_,
    fun d hd => ?_, fun e he => moved_crashed hstep (h.crash e he), fun hcrash hnone hsigns => ?_,
    fun hcrash hnone => ?_, fun hreading hreported => ?_, fun hended => ?_,
    fun e he => moved_crashed hstep (h.crashed e he),
    fun d hd => moved_disconnects hstep (h.raised d hd)⟩
  · rcases hconns ch' with ⟨heq, rfl⟩ | ⟨heq, -⟩
    · rw [heq] at hphase
      exact hcancel (hstep.cancelled hphase) hreading
    · rw [heq] at hphase
      exact h.live hreading ch' hphase
  · rcases hconns ch' with ⟨-, rfl⟩ | ⟨heq, -⟩
    · have hdone := h.reported ch' hreported
      rw [hstep.not_done] at hdone
      cases hdone
    · rw [heq]
      exact h.reported ch' hreported
  · by_contra hnone
    rw [Option.not_isSome_iff_eq_none] at hnone
    obtain ⟨hnone, hne⟩ := moved_fatal_none hnone
    rcases hconns ch' with ⟨heq, -⟩ | ⟨heq, -⟩
    · exact hne d (heq ▸ hphase)
    · rw [heq] at hphase
      have hsome := h.stopping ch' d hphase
      rw [hnone] at hsome
      cases hsome
  · rcases moved_fatal hd with hphase | hd
    · exact ⟨ch, (c.moved_conns_self ch task answer).symm ▸ hfatal d hphase⟩
    · exact moved_disconnects hstep (h.fatal d hd)
  · obtain ⟨hquiet, -⟩ := moved_fatal_none hnone
    -- a sign without a crash or a fatal break would mean that no task runs any more
    refine absurd (h.signs hcrash hquiet ?_) hrunning
    rcases hsigns with hmem | hpos
    · rcases List.mem_append.mp hmem with hmem | hmem
      · exact .inl hmem
      -- this sign comes from a task that stops, and it stops for a fatal break
      · have hanswer : answer = some none := by
          cases answer with
          | none => cases hmem
          | some item => rw [← List.mem_singleton.mp hmem]
        subst hanswer
        obtain ⟨d, hphase⟩ := hstep.stopping
        have hsome := h.stopping ch d hphase
        rw [hquiet] at hsome
        cases hsome
    · exact .inr hpos
  · obtain ⟨hnone, -⟩ := moved_fatal_none hnone
    have hlength : answer.toList.length ≤ 1 := by
      cases answer with
      | none => exact Nat.zero_le 1
      | some item => exact le_refl 1
    exact (h.last hcrash hnone).append hlength fun hmem =>
      hrunning (h.signs hcrash hnone (.inl hmem))
  · exact absurd (fun ch' => h.reported ch' (hreported ch')) hrunning
  · exact absurd (h.ended hended).1 hrunning

/-- The end of a task is noticed. -/
theorem taskDone (h : Sound c) {ch : Channel} (hdone : (c.conns ch).isDone = true)
    (hends : TaskEnds c ch c') : Sound c' := by
  have hreported (ch' : Channel) (hch : (if ch' = ch then true else c.reported ch') = true) :
      (c.conns ch').isDone = true := by
    by_cases heq : ch' = ch
    · rwa [heq]
    · rw [if_neg heq] at hch
      exact h.reported ch' hch
  cases hends with
  | quiet hquiet =>
    refine ⟨h.live, hreported, h.stopping, h.fatal, h.crash, h.signs, h.last,
      fun hreading hall => ?_, h.ended, h.crashed, h.raised⟩
    rcases hquiet with hcancelled | hrunning
    · exact absurd hcancelled (h.live hreading ch)
    · exact absurd (fun ch' => hreported ch' (hall ch')) hrunning
  | @signed crash queue signs hcrash hsign =>
    -- where no crash is noted, the sign was given because both tasks are over
    have hnone (hnone : crash = none) : c.crash = none ∧ c.allDone := by
      rcases hcrash with ⟨rfl, hall⟩ | ⟨e, -, rfl⟩
      · exact ⟨hnone, hall⟩
      · cases hc : c.crash with
        | none => simp [hc] at hnone
        | some e' => simp [hc] at hnone
    refine ⟨h.live, hreported, h.stopping, h.fatal, fun e he => ?_,
      fun hc _ _ => (hnone hc).2, fun hc hf => ?_, fun _ _ => ?_, fun hended => ?_, h.crashed,
      h.raised⟩
    · rcases hcrash with ⟨rfl, -⟩ | ⟨e', hphase, rfl⟩
      · exact h.crash e he
      · cases hc : c.crash with
        | none =>
          rw [hc] at he
          cases he
          exact ⟨ch, hphase⟩
        | some e'' =>
          rw [hc] at he
          cases he
          exact h.crash _ hc
    · have hlast := h.last (hnone hc).1 hf
      rcases hsign with ⟨rfl, -⟩ | ⟨rfl, -⟩
      · exact hlast.append_sign
      · exact hlast
    · rcases hsign with ⟨rfl, -⟩ | ⟨-, rfl⟩
      · exact .inl (List.mem_append_right _ (List.mem_singleton_self none))
      · exact .inr (Nat.succ_pos _)
    · refine ⟨(h.ended hended).1, ?_⟩
      rcases hsign with ⟨rfl, -⟩ | ⟨rfl, -⟩
      · show (c.queue ++ [none]).reduceOption = []
        rw [List.reduceOption_append, (h.ended hended).2]
        rfl
      · exact (h.ended hended).2

/-- The consumer takes an item. -/
theorem item (h : Sound c) {item : SessionItem} {queue : List (Option SessionItem)}
    (hreading : c.consumer = .reading) (hqueue : c.queue = some item :: queue) :
    Sound { c with queue := queue } := by
  have hmem (hnone : none ∈ queue) : none ∈ c.queue := by
    rw [hqueue]
    exact List.mem_cons_of_mem _ hnone
  refine ⟨h.live, h.reported, h.stopping, h.fatal, h.crash, fun hc hf hs => ?_, fun hc hf => ?_,
    fun hr hall => ?_, fun hended => ?_, h.crashed, h.raised⟩
  · exact h.signs hc hf (hs.imp_left hmem)
  · have hlast := h.last hc hf
    rw [hqueue] at hlast
    exact hlast.of_cons
  · refine (h.waiting hr hall).imp_left fun hnone => ?_
    rw [hqueue, List.mem_cons] at hnone
    exact hnone.resolve_left (by simp)
  · have hended : c.consumer = .ended := hended
    rw [hreading] at hended
    cases hended

/-- The consumer takes a sign. -/
theorem stop (h : Sound c) {queue : List (Option SessionItem)}
    (hqueue : c.queue = none :: queue) : Sound { c with queue := queue }.stop := by
  have hmem : none ∈ c.queue := by
    rw [hqueue]
    exact List.mem_cons_self
  have hlast (hc : c.crash = none) (hf : c.fatal = none) : SignsLast queue := by
    have hlast := h.last hc hf
    rw [hqueue] at hlast
    exact hlast.of_cons
  -- the crash goes before the fatal break, as it is looked at first
  have hsigns (hc : c.crash = none) (hf : c.fatal = none) : c.allDone :=
    h.signs hc hf (.inl hmem)
  unfold WsClient.stop
  dsimp only
  split
  · rename_i e hc
    refine ⟨fun hr => ?_, h.reported, h.stopping, h.fatal, h.crash, fun hc hf _ => hsigns hc hf,
      hlast, fun hr => ?_, fun he => ?_, fun e' he => ?_, fun d he => ?_⟩
    · cases hr
    · cases hr
    · cases he
    · cases he
      exact h.crash e hc
    · cases he
  · rename_i d hc hf
    refine ⟨fun hr => ?_, h.reported, h.stopping, h.fatal, h.crash, fun hc hf _ => hsigns hc hf,
      hlast, fun hr => ?_, fun he => ?_, fun e' he => ?_, fun d he => ?_⟩
    · cases hr
    · cases hr
    · cases he
    · cases he
    · cases he
      exact h.fatal d hf
  · rename_i hc hf
    have hall : ({ c with queue := queue } : WsClient).allDone := hsigns hc hf
    rw [if_pos hall]
    refine ⟨fun hr => ?_, h.reported, h.stopping, h.fatal, h.crash, fun hc hf _ => hsigns hc hf,
      hlast, fun hr => ?_, fun _ => ⟨hsigns hc hf, ?_⟩, fun e' he => ?_, fun d he => ?_⟩
    · cases hr
    · cases hr
    · have hall := h.last hc hf
      rw [hqueue] at hall
      exact hall.reduceOption
    · cases he
    · cases he

/-- **One thing that happens.** -/
theorem step (h : Sound c)
    (hrun : ClientRun settings queueSize (WsClient.start settings urls) c log)
    (hstep : Step settings queueSize c call answer c') : Sound c' := by
  have hnext : ClientRun settings queueSize (WsClient.start settings urls) c' _ := hrun.snoc hstep
  cases hstep with
  | @conn ch ev _ task htask hroom hcancel =>
    refine h.moved htask hcancel fun d hphase => ?_
    -- the invariant of the connection says which break it stops for
    have hkeeps := WsConn.Keeps.run (task_run hnext ch)
    rw [moved_conns_self] at hkeeps
    obtain ⟨breaks, st, -, hfits⟩ := hkeeps.protocol
    simp only [WsConn.Fits, hphase] at hfits
    exact ⟨hfits.2.1 ▸ hfits.2.2.1, hfits.2.2.2⟩
  | @taskDone ch hdone hnew => exact h.taskDone hdone (taskEnds c ch)
  | @putSign n hsigns hroom =>
    -- a sign that waited for room is in the queue now
    have hpos : 0 < c.signs := by omega
    refine ⟨h.live, h.reported, h.stopping, h.fatal, h.crash,
      fun hc hf _ => h.signs hc hf (.inr hpos), fun hc hf => (h.last hc hf).append_sign,
      fun _ _ => .inl (List.mem_append_right _ (List.mem_singleton_self none)),
      fun hended => ⟨(h.ended hended).1, ?_⟩, h.crashed, h.raised⟩
    show (c.queue ++ [none]).reduceOption = []
    rw [List.reduceOption_append, (h.ended hended).2]
    rfl
  | item hreading hqueue => exact h.item hreading hqueue
  | sign hreading hqueue => exact h.stop hqueue
  | leave hreading =>
    refine ⟨fun hr => ?_, h.reported, h.stopping, h.fatal, h.crash, h.signs, h.last, fun hr => ?_,
      fun he => ?_, fun e he => ?_, fun d he => ?_⟩
    · cases hr
    · cases hr
    · cases he
    · cases he
    · cases he

/-- **Run lemma**: a client is sound after any events. -/
theorem run (hrun : ClientRun settings queueSize (WsClient.start settings urls) c log) :
    Sound c := by
  induction hrun with
  | nil => exact start
  | snoc hrun hstep ih => exact ih.step hrun hstep

end Sound

/-- **The end of the feed.**  In every run: the iteration ends only when both tasks are over and
    everything they have put was taken; it raises only the error of a task, or a fatal break that
    happened; and once the ends of both tasks were noticed while it still reads, a sign is there
    for it, or waits for room. -/
theorem feed_end (hrun : ClientRun settings queueSize (start settings urls) c log) :
    (c.consumer = .ended → c.allDone ∧ ∀ ch, putBy ch log = ofChannel ch (taken log)) ∧
    (∀ e, c.consumer = .raised (.crash e) → ∃ ch, (c.conns ch).phase = .crashed e) ∧
    (∀ d, c.consumer = .raised (.wsFatal d) →
      ∃ ch, d ∈ (c.conns ch).disconnects ∧ d.fatal = true) ∧
    (c.consumer = .reading → (∀ ch, c.reported ch = true) → none ∈ c.queue ∨ 0 < c.signs) := by
  have h := Sound.run hrun
  refine ⟨fun hended => ⟨(h.ended hended).1, fun ch => ?_⟩, h.crashed, h.raised, h.waiting⟩
  rw [accounted hrun ch, (h.ended hended).2, List.append_nil]

/-- Both tasks have one attempt, and the exchange closes both connections: the consumer gets the
    four records, takes the sign and ends.  Where a break is fatal, it raises that. -/
theorem feed_end_closed :
    (∃ (c : WsClient) (log : ClientLog), c.consumer = .ended ∧ c.allDone ∧
      taken log = [.control ⟨"market", 1, "connected", "market"⟩,
        .control ⟨"market", 3, "disconnected", "GOING_AWAY:1001:"⟩,
        .control ⟨"public", 5, "connected", "public"⟩,
        .control ⟨"public", 7, "disconnected", "GOING_AWAY:1001:"⟩] ∧
      ∀ ch, putBy ch log = ofChannel ch (taken log)) ∧
    ∃ (c : WsClient) (d : Disconnect), c.consumer = .raised (.wsFatal d) ∧
      d.cls = .handshakeRejected ∧ ∃ ch, d ∈ (c.conns ch).disconnects := by
  have hmarket : ClientRun (depthSettings (some 1)) 1 (depthClient (some 1)) _ _ :=
    ((Run.nil.snoc (@Step.conn _ _ _ .marketStream _ _ _ (.connected rfl 1) (by simp)
      (by simp))).snoc (@Step.conn _ _ _ .marketStream _ _ _ (.room rfl 2) (fun _ => rfl)
        (by simp))).snoc (.item rfl rfl)
  have hmarketLost := (((hmarket.snoc (@Step.conn _ _ _ .marketStream _ _ _
    (.lost rfl (.connectionClosed (some (1001, "")))) (by simp) (by simp))).snoc
      (@Step.conn _ _ _ .marketStream _ _ _ (.closed rfl 3) (by simp) (by simp))).snoc
        (@Step.conn _ _ _ .marketStream _ _ _ (.room rfl 4) (fun _ => rfl) (by simp))).snoc
          (.item rfl rfl)
  have hpublic := ((hmarketLost.snoc (@Step.conn _ _ _ .publicStream _ _ _ (.connected rfl 5)
    (by simp) (by simp))).snoc (@Step.conn _ _ _ .publicStream _ _ _ (.room rfl 6)
      (fun _ => rfl) (by simp))).snoc (.item rfl rfl)
  have hpublicLost := (((hpublic.snoc (@Step.conn _ _ _ .publicStream _ _ _
    (.lost rfl (.connectionClosed (some (1001, "")))) (by simp) (by simp))).snoc
      (@Step.conn _ _ _ .publicStream _ _ _ (.closed rfl 7) (by simp) (by simp))).snoc
        (@Step.conn _ _ _ .publicStream _ _ _ (.room rfl 8) (fun _ => rfl) (by simp))).snoc
          (.item rfl rfl)
  -- no attempt is left to either of them
  have hover := (hpublicLost.snoc
    (@Step.conn _ _ _ .marketStream _ _ _ (.woke rfl) (by simp) (by simp))).snoc
      (@Step.conn _ _ _ .publicStream _ _ _ (.woke rfl) (by simp) (by simp))
  have hnoticed := (hover.snoc (@Step.taskDone _ _ _ .marketStream rfl rfl)).snoc
    (@Step.taskDone _ _ _ .publicStream rfl rfl)
  have hrun := hnoticed.snoc (.sign rfl rfl)
  have hend := (feed_end hrun).1 rfl
  -- the other run: the exchange refuses one of them for good
  have hfatal : ClientRun (depthSettings none) 2 (depthClient none) _ _ :=
    ((Run.nil.snoc (@Step.conn _ _ _ .publicStream _ _ _
      (.refused rfl (.invalidStatus 404) 7) (by simp) (by simp))).snoc
        (@Step.conn _ _ _ .publicStream _ _ _ (.room rfl 8) (fun _ => rfl) (by simp))).snoc
          (@Step.conn _ _ _ .publicStream _ _ _ (.room rfl 9) (fun _ => rfl) (by simp))
  have hraised := (hfatal.snoc (.item rfl rfl)).snoc (.sign rfl rfl)
  obtain ⟨ch, hmem, -⟩ := (feed_end hraised).2.2.1 _ rfl
  exact ⟨⟨_, _, rfl, hend.1, rfl, hend.2⟩, _, _, rfl, rfl, ch, hmem⟩

end WsClient

end FuzzHelm
