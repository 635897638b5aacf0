import FuzzHelm.Api.Live
import Mathlib.Data.List.ReduceOption

namespace FuzzHelm

open Lib

/-!
# The streams of the live hub

Every subscriber reads its own queue, at its own pace, while events are published, other
subscribers come and go, and the hub is closed.

* `StreamReads` — all that one reading of a stream can do;
* `Subscription.Sound`, `LiveHub.Sound` — what keeps a stream from waiting for ever;
* `Streams` — what one subscriber was given and has still to read, against everything
  published since it came;
* `stream_accounting` — nothing is delivered twice or out of order, and what is lost is counted;
* `resume_exact` — a reconnect goes on where the stream had ended;
* `close_drains` — after `close` every stream ends, and loses nothing that was queued.
-/

/-! ### One reading -/

/-- The stream has come as far as its queue. -/
def Subscription.Follows (s : Subscription) : Prop :=
  s.closedAtStart = false ∨ s.reading = .following ∨ s.reading = .waiting

/-- What one reading of the stream can do. -/
inductive StreamReads (s : Subscription) : Reply → Subscription → Prop
  | missed {ev : LiveEvent} {rest : List LiveEvent} (h : s.reading = .backlog (ev :: rest)) :
      StreamReads s (.event ev) { s with reading := .backlog rest }
  | event {ev : LiveEvent} {queue : List (Option LiveEvent)} (hrest : s.reading.rest = [])
      (hfollows : s.Follows) (h : s.queue = some ev :: queue) :
      StreamReads s (.event ev) { s with queue := queue, reading := .following }
  | sign {queue : List (Option LiveEvent)} (hrest : s.reading.rest = [])
      (h : s.queue = none :: queue) :
      StreamReads s .stop { s with queue := queue, reading := .ended }
  | late (h : s.reading = .backlog []) (hclosed : s.closedAtStart = true) :
      StreamReads s .stop { s with reading := .ended }
  | shut (hrest : s.reading.rest = []) (hclosed : s.closed = true) (h : s.queue = []) :
      StreamReads s .stop { s with reading := .ended }
  | ended (h : s.reading = .ended) : StreamReads s .stop s
  | wait (hrest : s.reading.rest = []) (hfollows : s.Follows) (h : s.queue = [])
      (hopen : s.closed = false ∨ s.reading = .waiting) :
      StreamReads s .blocked { s with reading := .waiting }

namespace Subscription

variable (s : Subscription)

/-- A stream whose ring is read out reads its queue. -/
theorem reads_get (hrest : s.reading.rest = []) (hfollows : s.Follows)
    (hopen : s.queue = [] → s.closed = false ∨ s.reading = .waiting) :
    StreamReads s s.get.1 s.get.2 := by
  unfold get
  split
  · rename_i h
    exact .wait hrest hfollows h (hopen h)
  · rename_i queue h
    exact .sign hrest h
  · rename_i ev queue h
    exact .event hrest hfollows h

/-- A stream that follows the hub reads its queue after the ring. -/
theorem reads_follow (hrest : s.reading.rest = []) (hfollows : s.Follows) :
    StreamReads s s.follow.1 s.follow.2 := by
  by_cases h : s.closed = true ∧ s.queue = []
  · have hfollow : s.follow = (.stop, { s with reading := .ended }) := by
      rw [follow, if_pos (by simp [h.1, h.2])]
    rw [hfollow]
    exact .shut hrest h.1 h.2
  · have hfollow : s.follow = s.get := by
      rw [follow, if_neg]
      simpa using h
    rw [hfollow]
    refine s.reads_get hrest hfollows fun hqueue => ?_
    left
    simpa [hqueue] using h

/-- **What reading a stream does.** -/
theorem reads_anext : StreamReads s s.anext.1 s.anext.2 := by
  unfold anext
  split
  · rename_i ev rest h
    exact .missed h
  · rename_i h
    split
    · rename_i hclosed
      exact .late h hclosed
    · rename_i hclosed
      exact s.reads_follow (by rw [h]; rfl) (.inl (by simpa using hclosed))
  · rename_i h
    exact s.reads_follow (by rw [h]; rfl) (.inr (.inl h))
  · rename_i h
    exact s.reads_get (by rw [h]; rfl) (.inr (.inr h)) fun _ => .inr h
  · rename_i h
    exact .ended h

end Subscription

namespace StreamReads

variable {s s' : Subscription} {reply : Reply}

/-- A read leaves the number of the stream alone. -/
@[simp] theorem id_eq (h : StreamReads s reply s') : s'.id = s.id := by cases h <;> rfl

/-- A read does not close a stream. -/
@[simp] theorem closed_eq (h : StreamReads s reply s') : s'.closed = s.closed := by cases h <;> rfl

/-- A read does not change how the hub was at the start of the stream. -/
@[simp] theorem closedAtStart_eq (h : StreamReads s reply s') :
    s'.closedAtStart = s.closedAtStart := by cases h <;> rfl

end StreamReads

/-! ### No stream waits for ever -/

/-- A subscriber that may still be given events has no sign in its queue, and one that waits
    when the hub is closed has something to read. -/
structure Subscription.Sound (s : Subscription) : Prop where
  sign : s.closed = false → none ∉ s.queue
  follows : s.reading = .following ∨ s.reading = .waiting → s.closedAtStart = false
  waiting : s.reading = .waiting → s.closed = true → s.queue ≠ []
  ended : s.closed = false → s.closedAtStart = false → s.reading ≠ .ended

namespace Subscription.Sound

variable {s s' : Subscription} {reply : Reply}

/-- What is offered leaves the stream sound, whether its queue is full or not. -/
theorem offer (h : s.Sound) (queueSize : ℤ) (ev : LiveEvent) : (s.offer queueSize ev).Sound := by
  unfold Subscription.offer
  split
  · refine ⟨fun hopen hmem => ?_, h.follows, fun _ _ => Mailbox.push_ne_nil _ _ _, h.ended⟩
    rcases Mailbox.mem_of_mem_push hmem with hold | hnew
    · exact h.sign hopen hold
    · cases hnew
  · exact h

/-- A stream that is shut is sound: its queue has room for the stop sign, or it is read out first.
    -/
theorem shut (h : s.Sound) : s.shut.Sound := by
  refine ⟨fun hopen => absurd hopen (by simp [Subscription.shut]), h.follows, fun _ _ => ?_,
    fun hopen => absurd hopen (by simp [Subscription.shut])⟩
  show (if s.queue.isEmpty then [none] else s.queue) ≠ []
  split
  · simp
  · rename_i hempty
    simpa using hempty

/-- What is read leaves the stream sound. -/
theorem reads (h : s.Sound) (hr : StreamReads s reply s') : s'.Sound := by
  -- who reads on had not found the hub closed at the start
  have hfollows (hf : s.Follows) : s.closedAtStart = false := hf.elim (fun hs => hs) h.follows
  cases hr with
  | missed hread => exact ⟨h.sign, by simp, by simp, by simp⟩
  | event hrest hf hqueue =>
    refine ⟨fun hopen hmem => h.sign hopen ?_, fun _ => hfollows hf, by simp, by simp⟩
    rw [hqueue]
    exact List.mem_cons_of_mem _ hmem
  | sign hrest hqueue =>
    -- a sign in the queue of an open stream would contradict the invariant
    have hclosed : s.closed = true := by
      by_contra hopen
      rw [Bool.not_eq_true] at hopen
      exact h.sign hopen (by simp [hqueue])
    exact ⟨fun hopen => absurd hopen (by simp [hclosed]), by simp, by simp,
      fun hopen => absurd hopen (by simp [hclosed])⟩
  | late hread hstart =>
    exact ⟨h.sign, by simp, by simp, fun _ hs => absurd hs (by simp [hstart])⟩
  | shut hrest hclosed hqueue =>
    exact ⟨h.sign, by simp, by simp, fun hopen => absurd hopen (by simp [hclosed])⟩
  | ended => exact h
  | wait hrest hf hqueue hopen =>
    refine ⟨h.sign, fun _ => hfollows hf, fun _ hclosed => ?_, by simp⟩
    rcases hopen with hopen | hwait
    · exact absurd hclosed (by simp [hopen])
    · exact h.waiting hwait hclosed

end Subscription.Sound

/-- The subscribers of a hub are told apart, know whether it is closed, and are sound. -/
structure LiveHub.Sound (hub : LiveHub) : Prop where
  ids_lt : ∀ s ∈ hub.subs, s.id < hub.nextId
  ids_nodup : (hub.subs.map Subscription.id).Nodup
  opened : hub.closed = false → ∀ s ∈ hub.subs, s.closed = false ∧ s.closedAtStart = false
  shut : hub.closed = true → ∀ s ∈ hub.subs, s.closed = true ∨ s.closedAtStart = true
  sound : ∀ s ∈ hub.subs, s.Sound

namespace LiveHub.Sound

variable {hub hub' : LiveHub}

/-- A new hub has no streams. -/
theorem new (queueSize : ℤ) (replaySize : ℕ) : (LiveHub.new queueSize replaySize).Sound where
  ids_lt := by simp [LiveHub.new]
  ids_nodup := by simp [LiveHub.new]
  opened := by simp [LiveHub.new]
  shut := by simp [LiveHub.new]
  sound := by simp [LiveHub.new]

/-- What is done to each subscriber for itself. -/
theorem map (h : hub.Sound) {f : Subscription → Subscription} (hid : ∀ s, (f s).id = s.id)
    (hsubs : hub'.subs = hub.subs.map f) (hnext : hub'.nextId = hub.nextId)
    (hopened : hub'.closed = false → ∀ s ∈ hub.subs,
      (f s).closed = false ∧ (f s).closedAtStart = false)
    (hshut : hub'.closed = true → ∀ s ∈ hub.subs,
      (f s).closed = true ∨ (f s).closedAtStart = true)
    (hsound : ∀ s ∈ hub.subs, (f s).Sound) : hub'.Sound := by
  refine ⟨?_, ?_, ?_, ?_, ?_⟩
  · rw [hsubs, List.forall_mem_map, hnext]
    intro s hs
    rw [hid]
    exact h.ids_lt s hs
  · have hids : Subscription.id ∘ f = Subscription.id := funext hid
    rw [hsubs, List.map_map, hids]
    exact h.ids_nodup
  · rw [hsubs, List.forall_mem_map]
    exact hopened
  · rw [hsubs, List.forall_mem_map]
    exact hshut
  · rw [hsubs, List.forall_mem_map]
    exact hsound

/-- A hub is sound after an event is published, stream by stream. -/
theorem publish (h : hub.Sound) (ev : LiveEvent) : (hub.publish ev).Sound := by
  have hclosed (s : Subscription) : (s.offer hub.queueSize ev).closed = s.closed := by
    unfold Subscription.offer
    split <;> rfl
  have hstart (s : Subscription) : (s.offer hub.queueSize ev).closedAtStart = s.closedAtStart := by
    unfold Subscription.offer
    split <;> rfl
  refine h.map (f := fun s => s.offer hub.queueSize ev) (fun s => ?_) rfl rfl ?_ ?_ ?_
  · unfold Subscription.offer
    split <;> rfl
  · intro hopen s hs
    rw [hclosed, hstart]
    exact h.opened hopen s hs
  · intro hshut s hs
    rw [hclosed, hstart]
    exact h.shut hshut s hs
  · exact fun s hs => (h.sound s hs).offer _ _

/-- A new stream is sound: its queue is empty. -/
theorem subscribe (h : hub.Sound) (kinds : List String) (lastEventId : Option ℤ) :
    (hub.subscribe kinds lastEventId).Sound := by
  refine ⟨?_, ?_, ?_, ?_, ?_⟩
  · intro s hs
    rcases List.mem_append.mp hs with hs | hs
    · exact (h.ids_lt s hs).trans (Nat.lt_succ_self _)
    · rw [List.mem_singleton.mp hs]
      exact Nat.lt_succ_self _
  -- the new number is larger than all that were given out
  · show ((hub.subs ++ [hub.subscriber kinds lastEventId]).map Subscription.id).Nodup
    rw [List.map_append, List.nodup_append]
    refine ⟨h.ids_nodup, List.nodup_singleton _, ?_⟩
    intro i hi j hj
    obtain ⟨s, hs, rfl⟩ := List.mem_map.mp hi
    rw [List.map_singleton, List.mem_singleton] at hj
    rw [hj]
    exact (h.ids_lt s hs).ne
  -- a stream starts open or closed as the hub is
  · intro hopen s hs
    rcases List.mem_append.mp hs with hs | hs
    · exact h.opened hopen s hs
    · rw [List.mem_singleton.mp hs]
      exact ⟨rfl, hopen⟩
  · intro hshut s hs
    rcases List.mem_append.mp hs with hs | hs
    · exact h.shut hshut s hs
    · rw [List.mem_singleton.mp hs]
      exact .inr hshut
  · intro s hs
    rcases List.mem_append.mp hs with hs | hs
    · exact h.sound s hs
    · rw [List.mem_singleton.mp hs]
      exact ⟨by simp [LiveHub.subscriber], by simp [LiveHub.subscriber],
        by simp [LiveHub.subscriber], by simp [LiveHub.subscriber]⟩

/-- **One call.** -/
theorem act (h : hub.Sound) {call : LiveCall} {answer : LiveAnswer}
    (hact : hub.act call = (answer, hub')) : hub'.Sound := by
  cases call with
  | publish kind payload =>
    cases hact
    exact h.publish _
  | subscribe kinds lastEventId =>
    cases hact
    exact h.subscribe _ _
  | next id =>
    cases hact
    -- one read changes the stream of its number only
    have hread (s : Subscription) := s.reads_anext
    refine h.map (f := fun s => if s.id = id then s.anext.2 else s) ?_ rfl rfl ?_ ?_ ?_
    · intro s
      split
      · exact (hread s).id_eq
      · rfl
    · intro hopen s hs
      split
      · rw [(hread s).closed_eq, (hread s).closedAtStart_eq]
        exact h.opened hopen s hs
      · exact h.opened hopen s hs
    · intro hshut s hs
      split
      · rw [(hread s).closed_eq, (hread s).closedAtStart_eq]
        exact h.shut hshut s hs
      · exact h.shut hshut s hs
    · intro s hs
      split
      · exact (h.sound s hs).reads (hread s)
      · exact h.sound s hs
  | leave id =>
    -- who leaves takes its stream away, the others are untouched
    cases hact
    have hsub (s : Subscription) (hs : s ∈ hub.subs.filter fun s => s.id ≠ id) : s ∈ hub.subs :=
      List.mem_of_mem_filter hs
    exact ⟨fun s hs => h.ids_lt s (hsub s hs),
      h.ids_nodup.sublist (List.filter_sublist.map _),
      fun hopen s hs => h.opened hopen s (hsub s hs),
      fun hshut s hs => h.shut hshut s (hsub s hs),
      fun s hs => h.sound s (hsub s hs)⟩
  | close =>
    cases hact
    exact h.map (f := Subscription.shut) (fun _ => rfl) rfl rfl
      (fun hopen => absurd hopen (by simp [LiveHub.close])) (fun _ _ _ => .inl rfl)
      fun s hs => (h.sound s hs).shut

/-- **Run lemma**: a hub is sound after every call. -/
theorem run {queueSize : ℤ} {replaySize : ℕ} {log : LiveLog}
    (h : LiveRun (LiveHub.new queueSize replaySize) hub log) : hub.Sound :=
  h.invariant (fun hub _ => hub.Sound) (new queueSize replaySize)
    fun _ _ _ _ _ hI hact => hI.act hact

end LiveHub.Sound

/-! ### The account of one stream -/

/-- After `log`, which begins where the subscriber came: it was first given the `missed` events,
    then what was published of its kinds, but for what its queue had no room for. -/
structure Streams (missed : List LiveEvent) (kinds : Option (List String)) (log : LiveLog)
    (s : Subscription) : Prop where
  kinds_eq : s.kinds = kinds
  account : ∃ sent taken : List (Option LiveEvent),
    Mailbox.Account sent taken s.queue s.dropped ∧
    sent.reduceOption = (published log).filter (selects kinds) ∧
    delivered s.id log ++ s.reading.rest = missed ++ taken.reduceOption ∧
    (s.reading.rest ≠ [] → taken = []) ∧ (s.closed = false → none ∉ sent)

namespace Streams

variable {missed : List LiveEvent} {kinds : Option (List String)} {log log' : LiveLog}
  {s s' : Subscription} {reply : Reply} {ev : LiveEvent}

/-- Nothing that concerns the subscriber. -/
theorem unchanged (h : Streams missed kinds log s) (hpub : published log' = published log)
    (hdel : delivered s.id log' = delivered s.id log) : Streams missed kinds log' s := by
  obtain ⟨hkinds, haccount⟩ := h
  refine ⟨hkinds, ?_⟩
  rwa [hpub, hdel]

/-- **What is published**: a stream that wants it has it in its queue, or has dropped the oldest. -/
theorem offer (h : Streams missed kinds log s) (queueSize : ℤ)
    (hpub : published log' = published log ++ [ev])
    (hdel : delivered s.id log' = delivered s.id log) :
    Streams missed kinds log' (s.offer queueSize ev) := by
  obtain ⟨hkinds, sent, taken, haccount, hsent, htaken, hrest, hsign⟩ := h
  -- an event of its kinds goes into the mailbox, which may push the oldest one out
  by_cases hsel : selects s.kinds ev = true
  · have hoffer : s.offer queueSize ev = { s with
        queue := (Mailbox.push queueSize s.queue (some ev)).1
        dropped := s.dropped + (Mailbox.push queueSize s.queue (some ev)).2 } := by
      rw [Subscription.offer, if_pos hsel]
    rw [hoffer]
    refine ⟨hkinds, sent ++ [some ev], taken, haccount.push _ _, ?_, ?_, hrest, ?_⟩
    · rw [hkinds] at hsel
      rw [hpub, List.reduceOption_append, hsent, List.filter_append]
      simp [hsel]
    · rw [← htaken, ← hdel]
    · intro hopen hmem
      rcases List.mem_append.mp hmem with hold | hnew
      · exact hsign hopen hold
      · simp at hnew
  -- any other event never meets the stream
  · have hoffer : s.offer queueSize ev = s := by
      rw [Subscription.offer, if_neg hsel]
    rw [hoffer]
    refine ⟨hkinds, sent, taken, haccount, ?_, ?_, hrest, hsign⟩
    · rw [hkinds] at hsel
      rw [hpub, hsent, List.filter_append]
      simp [hsel]
    · rw [hdel, htaken]

/-- A stream that is shut holds what it held. -/
theorem shut (h : Streams missed kinds log s) (hpub : published log' = published log)
    (hdel : delivered s.id log' = delivered s.id log) : Streams missed kinds log' s.shut := by
  obtain ⟨hkinds, sent, taken, haccount, hsent, htaken, hrest, hsign⟩ := h
  cases hqueue : s.queue with
  | nil =>
    -- a stream that waits for an event gets the sign that ends it
    have hpush := haccount.push 0 none
    rw [hqueue, Mailbox.push_of_nil] at hpush
    have hshut : s.shut = { s with closed := true, queue := [none] } := by
      rw [Subscription.shut, hqueue]
      rfl
    rw [hshut]
    refine ⟨hkinds, sent ++ [none], taken, hpush, ?_, ?_, hrest,
      fun hopen => absurd hopen (by simp)⟩
    · rw [hpub, List.reduceOption_append, hsent]
      simp
    · rw [← htaken, ← hdel]
  -- one that has events left finds the end after them
  | cons x queue =>
    have hshut : s.shut = { s with closed := true } := by
      rw [Subscription.shut, hqueue, List.isEmpty_cons, if_neg (by simp), ← hqueue]
    rw [hshut]
    refine ⟨hkinds, sent, taken, haccount, ?_, ?_, hrest, fun hopen => absurd hopen (by simp)⟩
    · rw [hpub, hsent]
    · rw [← htaken, ← hdel]

/-- What one reply has given. -/
def given : Reply → List LiveEvent
  | .event ev => [ev]
  | _ => []

/-- The end of a stream gives no event. -/
@[simp] theorem given_stop : given .stop = [] := rfl

/-- A stream that waits gives no event. -/
@[simp] theorem given_blocked : given .blocked = [] := rfl

/-- **What is read** leaves the stream with the rest. -/
theorem reads (h : Streams missed kinds log s) (hr : StreamReads s reply s')
    (hpub : published log' = published log)
    (hdel : delivered s.id log' = delivered s.id log ++ given reply) :
    Streams missed kinds log' s' := by
  obtain ⟨hkinds, sent, taken, haccount, hsent, htaken, hrest, hsign⟩ := h
  cases hr with
  | @missed ev rest hread =>
    have hnil : taken = [] := hrest (by rw [hread]; exact List.cons_ne_nil _ _)
    refine ⟨hkinds, sent, taken, haccount, by rw [hpub, hsent], ?_, fun _ => hnil, hsign⟩
    show delivered s.id log' ++ rest = missed ++ taken.reduceOption
    rw [hread] at htaken
    rw [hdel, ← htaken, List.append_assoc]
    rfl
  | @event ev queue hnone hf hqueue =>
    rw [hqueue] at haccount
    refine ⟨hkinds, sent, taken ++ [some ev], haccount.take, by rw [hpub, hsent], ?_,
      fun hne => absurd rfl hne, hsign⟩
    show delivered s.id log' ++ [] = missed ++ (taken ++ [some ev]).reduceOption
    rw [hnone, List.append_nil] at htaken
    rw [hdel, htaken, List.reduceOption_append]
    simp [given]
  -- the sign counts as taken, but gives the subscriber nothing
  | @sign queue hnone hqueue =>
    rw [hqueue] at haccount
    refine ⟨hkinds, sent, taken ++ [none], haccount.take, by rw [hpub, hsent], ?_,
      fun hne => absurd rfl hne, hsign⟩
    show delivered s.id log' ++ [] = missed ++ (taken ++ [none]).reduceOption
    rw [hnone, List.append_nil] at htaken
    rw [hdel, htaken, List.reduceOption_append]
    simp [given]
  | late hread hstart =>
    refine ⟨hkinds, sent, taken, haccount, by rw [hpub, hsent], ?_, fun hne => absurd rfl hne,
      hsign⟩
    rw [hread] at htaken
    rw [hdel, given_stop, List.append_nil, ← htaken]
    rfl
  | shut hnone hclosed hqueue =>
    refine ⟨hkinds, sent, taken, haccount, by rw [hpub, hsent], ?_, fun hne => absurd rfl hne,
      hsign⟩
    rw [hdel, given_stop, List.append_nil, ← htaken, hnone]
    rfl
  | ended hread =>
    refine ⟨hkinds, sent, taken, haccount, by rw [hpub, hsent], ?_, hrest, hsign⟩
    rw [hdel, given_stop, List.append_nil, ← htaken]
  | wait hnone hf hqueue hopen =>
    refine ⟨hkinds, sent, taken, haccount, by rw [hpub, hsent], ?_, fun hne => absurd rfl hne,
      hsign⟩
    rw [hdel, given_blocked, List.append_nil, ← htaken, hnone]
    rfl

/-- **The account.**  What was delivered and what waits comes in order out of the missed events
    and those published since, the newest of these wait in the queue, and the number of those
    that are missing was counted. -/
theorem spec (h : Streams missed kinds log s) :
    (delivered s.id log ++ s.pending).Sublist
      (missed ++ (published log).filter (selects kinds)) ∧
    s.queue.reduceOption <:+ (published log).filter (selects kinds) ∧
    (missed ++ (published log).filter (selects kinds)).length ≤
      (delivered s.id log ++ s.pending).length + s.dropped ∧
    (s.closed = false → (missed ++ (published log).filter (selects kinds)).length =
      (delivered s.id log ++ s.pending).length + s.dropped) := by
  obtain ⟨hkinds, sent, taken, haccount, hsent, htaken, hrest, hsign⟩ := h
  have hall : delivered s.id log ++ s.pending = missed ++ (taken ++ s.queue).reduceOption := by
    rw [Subscription.pending, ← List.append_assoc, htaken, List.append_assoc,
      List.reduceOption_append]
  have hnones : ((taken ++ s.queue).filter Option.isNone).length ≤
      (sent.filter Option.isNone).length := (haccount.order.filter _).length_le
  have htotal := haccount.total
  have hsentLength := List.length_eq_reduceOption_length_add_filter_none (l := sent)
  have hkeptLength := List.length_eq_reduceOption_length_add_filter_none (l := taken ++ s.queue)
  rw [List.length_append] at hkeptLength
  rw [hall, ← hsent]
  refine ⟨(List.Sublist.refl missed).append (haccount.order.filterMap id),
    haccount.newest.filterMap id, ?_, fun hopen => ?_⟩
  · rw [List.length_append, List.length_append]
    omega
  -- an open hub has sent no sign, so the counts agree
  · have hzero : (sent.filter Option.isNone).length = 0 := by
      rw [List.length_eq_zero_iff, List.filter_eq_nil_iff]
      intro x hx hnone
      rw [Option.isNone_iff_eq_none] at hnone
      exact hsign hopen (hnone ▸ hx)
    rw [List.length_append, List.length_append]
    omega

end Streams

/-! ### One subscriber among the others -/

/-- What the hub answers a stream is what the stream reads. -/
theorem LiveHub.Sound.reply_eq {hub : LiveHub} (h : hub.Sound) {s : Subscription}
    (hs : s ∈ hub.subs) : hub.reply s.id = s.anext.1 := by
  have hfind : hub.subs.find? (fun t => t.id = s.id) = some s := by
    cases hf : hub.subs.find? (fun t => t.id = s.id) with
    | none =>
      rw [List.find?_eq_none] at hf
      exact absurd (decide_eq_true rfl) (hf s hs)
    | some t =>
      have hid : t.id = s.id := by simpa using List.find?_some hf
      rw [List.inj_on_of_nodup_map h.ids_nodup (List.mem_of_find?_eq_some hf) hs hid]
  rw [LiveHub.reply, hfind]

/-- The subscriber `id` after `log`, as long as it is there. -/
structure Tracked (id : ℕ) (missed : List LiveEvent) (kinds : Option (List String))
    (hub : LiveHub) (log : LiveLog) : Prop where
  sound : hub.Sound
  lt : id < hub.nextId
  streams : ∀ s ∈ hub.subs, s.id = id → Streams missed kinds log s

namespace Tracked

variable {id : ℕ} {missed : List LiveEvent} {kinds : Option (List String)} {hub hub' : LiveHub}
  {log : LiveLog}

/-- **One call.** -/
theorem step (h : Tracked id missed kinds hub log) {call : LiveCall} {answer : LiveAnswer}
    (hact : hub.act call = (answer, hub')) :
    Tracked id missed kinds hub' (log ++ [⟨hub, call, answer, hub'⟩]) := by
  have hsound := h.sound.act hact
  have hpub := published_concat log hub hub' call answer
  have hdel := deliveredTo_concat log hub hub' call answer id
  cases call with
  | publish kind payload =>
    cases hact
    refine ⟨hsound, h.lt, ?_⟩
    show ∀ s ∈ hub.subs.map _, _
    rw [List.forall_mem_map]
    intro s hs hid
    -- what is published is offered to every subscriber, in its own order
    have hoffered : (s.offer hub.queueSize (hub.event kind payload)).id = s.id := by
      unfold Subscription.offer
      split <;> rfl
    rw [hoffered] at hid
    refine (h.streams s hs hid).offer _ hpub ?_
    rw [hid, hdel]
    exact List.append_nil _
  | subscribe kinds' lastEventId =>
    cases hact
    refine ⟨hsound, h.lt.trans (Nat.lt_succ_self _), ?_⟩
    intro s hs hid
    rcases List.mem_append.mp hs with hs | hs
    · refine (h.streams s hs hid).unchanged (hpub.trans (List.append_nil _)) ?_
      rw [hid, hdel]
      exact List.append_nil _
    · -- a new subscriber has a number of its own
      rw [List.mem_singleton.mp hs] at hid
      exact absurd hid h.lt.ne'
  | next i =>
    cases hact
    refine ⟨hsound, h.lt, ?_⟩
    show ∀ s ∈ hub.subs.map _, _
    rw [List.forall_mem_map]
    intro s hs hid
    have hread := s.reads_anext
    by_cases hi : s.id = i
    · rw [if_pos hi, hread.id_eq] at hid
      rw [if_pos hi]
      refine (h.streams s hs hid).reads hread (hpub.trans (List.append_nil _)) ?_
      have hreply : hub.reply i = s.anext.1 := hi ▸ h.sound.reply_eq hs
      have hii : i = id := hi.symm.trans hid
      rw [hid, hdel, hreply]
      cases s.anext.1 with
      | event ev => simp [LiveCall.delivered?, Streams.given, hii]
      | stop => rfl
      | blocked => rfl
    · rw [if_neg hi] at hid ⊢
      refine (h.streams s hs hid).unchanged (hpub.trans (List.append_nil _)) ?_
      have hii : i ≠ id := fun hii => hi (hid.trans hii.symm)
      rw [hid, hdel]
      cases hub.reply i with
      | event ev => simp [LiveCall.delivered?, hii]
      | stop => exact List.append_nil _
      | blocked => exact List.append_nil _
  | leave i =>
    cases hact
    refine ⟨hsound, h.lt, fun s hs hid => ?_⟩
    refine (h.streams s (List.mem_of_mem_filter hs) hid).unchanged
      (hpub.trans (List.append_nil _)) ?_
    rw [hid, hdel]
    exact List.append_nil _
  | close =>
    cases hact
    refine ⟨hsound, h.lt, ?_⟩
    show ∀ s ∈ hub.subs.map _, _
    rw [List.forall_mem_map]
    intro s hs hid
    refine (h.streams s hs hid).shut (hpub.trans (List.append_nil _)) ?_
    rw [show s.id = id from hid, hdel]
    exact List.append_nil _

/-- Where a subscriber comes. -/
theorem subscribe (h : hub.Sound) (kinds : List String) (lastEventId : Option ℤ) :
    Tracked hub.nextId (lastEventId.elim [] fun n => hub.replayAfter n (LiveHub.kindSet kinds))
      (LiveHub.kindSet kinds) (hub.subscribe kinds lastEventId) [] := by
  refine ⟨h.subscribe kinds lastEventId, Nat.lt_succ_self _, fun s hs hid => ?_⟩
  rcases List.mem_append.mp hs with hs | hs
  · exact absurd hid (h.ids_lt s hs).ne
  · rw [List.mem_singleton.mp hs]
    exact ⟨rfl, [], [], Mailbox.Account.nil, rfl, (List.append_nil _).symm, fun _ => rfl,
      fun _ => List.not_mem_nil⟩

end Tracked

/-! ### Accounting -/

section Runs

variable {queueSize : ℤ} {replaySize : ℕ} {hub before after : LiveHub} {kinds : List String}
  {lastEventId : Option ℤ} {id : ℕ} {pre post : LiveLog} {s : Subscription}

/-- What a subscriber asks for that came to `before`: the missed events that the ring still has,
    and those of its kinds that were published since. -/
def wantedFrom (before : LiveHub) (kinds : List String) (lastEventId : Option ℤ) (post : LiveLog) :
    List LiveEvent :=
  (lastEventId.elim [] fun n => before.replayAfter n (LiveHub.kindSet kinds)) ++
    (published post).filter (selects (LiveHub.kindSet kinds))

/-- The subscriber that came with one call of a run, after the rest of it. -/
theorem tracked_of_run (hrun : LiveRun (LiveHub.new queueSize replaySize) hub
    (pre ++ ⟨before, .subscribe kinds lastEventId, .subscribed id, after⟩ :: post)) :
    Tracked id (lastEventId.elim [] fun n => before.replayAfter n (LiveHub.kindSet kinds))
      (LiveHub.kindSet kinds) hub post := by
  obtain ⟨hpre, hcall⟩ := hrun.before_entry rfl
  have hcall : before.act (.subscribe kinds lastEventId) = (.subscribed id, after) := hcall
  rw [LiveHub.act, Prod.mk.injEq, LiveAnswer.subscribed.injEq] at hcall
  obtain ⟨rfl, rfl⟩ := hcall
  exact hrun.after_entry.invariant (Tracked before.nextId _ (LiveHub.kindSet kinds))
    (Tracked.subscribe (LiveHub.Sound.run hpre) kinds lastEventId)
    fun _ _ _ _ _ hI hact => hI.step hact

/-- The numbers of what is published grow. -/
theorem HubRemembers.increasing {log : LiveLog} (h : HubRemembers replaySize hub log) :
    (published log).Pairwise fun x y => x.seq < y.seq := by
  rw [List.pairwise_iff_getElem]
  intro i j hi hj hij
  rw [h.numbered i _ (List.getElem?_eq_getElem hi), h.numbered j _ (List.getElem?_eq_getElem hj)]
  omega

/-- No event has a higher number than the hub has counted to. -/
theorem HubRemembers.seq_le {log : LiveLog} (h : HubRemembers replaySize hub log) {ev : LiveEvent}
    (hev : ev ∈ published log) : ev.seq ≤ hub.seq := by
  obtain ⟨i, hi⟩ := List.mem_iff_getElem?.mp hev
  have hlt := (List.getElem?_eq_some_iff.mp hi).1
  have hnum := h.numbered i ev hi
  have hseq := h.seq_eq
  omega

/-- The number after which the ring has every event that a client asks for who names `n`. -/
def LiveHub.replaysFrom (hub : LiveHub) (n : ℤ) : ℤ :=
  min (hub.seq : ℤ) (max n (hub.seq - hub.replaySize))

/-- The ring has every event but the first ones. -/
theorem HubRemembers.filter_ring {log : LiveLog} (h : HubRemembers replaySize hub log) (n : ℤ)
    (p : LiveEvent → Bool) :
    (hub.ring.filter fun ev => decide (n < ev.seq) && p ev) =
      (published log).filter fun ev =>
        decide (hub.replaysFrom n < ev.seq) && p ev := by
  have hsplit : published log =
      (published log).take ((published log).length - replaySize) ++ hub.ring := by
    rw [h.ring_eq, List.rtake, List.take_append_drop]
  have hseq := h.seq_eq
  have hsize := h.replaySize_eq
  conv_rhs => rw [hsplit, List.filter_append]
  -- the events before the ring are too old
  have hold : ((published log).take ((published log).length - replaySize)).filter (fun ev =>
      decide (hub.replaysFrom n < ev.seq) && p ev) = [] := by
    rw [List.filter_eq_nil_iff]
    intro ev hev
    obtain ⟨i, hi⟩ := List.mem_iff_getElem?.mp hev
    rw [List.getElem?_take] at hi
    split at hi
    · rename_i hlt
      have hnum := h.numbered i ev hi
      intro hnew
      rw [Bool.and_eq_true, decide_eq_true_eq, LiveHub.replaysFrom] at hnew
      omega
    · cases hi
  -- those of the ring are new enough
  have hnew : ∀ ev ∈ hub.ring, (decide (n < ev.seq) && p ev) =
      (decide (hub.replaysFrom n < ev.seq) && p ev) := by
    intro ev hev
    rw [h.ring_eq, mem_rtake_iff] at hev
    obtain ⟨j, hj, hle⟩ := hev
    have hnum := h.numbered j ev hj
    have hlt := (List.getElem?_eq_some_iff.mp hj).1
    have hiff : n < ev.seq ↔ hub.replaysFrom n < ev.seq := by
      rw [LiveHub.replaysFrom]
      omega
    rw [decide_eq_decide.mpr hiff]
  rw [hold, List.nil_append]
  exact List.filter_congr hnew

/-- The number after which a subscriber that comes to `before` is given everything. -/
def startsAfter (before : LiveHub) : Option ℤ → ℤ
  | none => before.seq
  | some n => before.replaysFrom n

/-- **What is wanted**, out of everything that was published. -/
theorem wanted_eq (hrun : LiveRun (LiveHub.new queueSize replaySize) hub
    (pre ++ ⟨before, .subscribe kinds lastEventId, .subscribed id, after⟩ :: post)) :
    wantedFrom before kinds lastEventId post =
      (published (pre ++ ⟨before, .subscribe kinds lastEventId, .subscribed id, after⟩ ::
        post)).filter fun ev => decide (startsAfter before lastEventId < ev.seq) &&
          selects (LiveHub.kindSet kinds) ev := by
  have hbefore : HubRemembers replaySize before pre := HubRemembers.run (hrun.before_entry rfl).1
  have hwhole := HubRemembers.run hrun
  have hpost : published (⟨before, .subscribe kinds lastEventId, .subscribed id, after⟩ :: post) =
      published post := rfl
  have hseq := hbefore.seq_eq
  rw [published_append, hpost, List.filter_append, wantedFrom]
  congr 1
  · cases lastEventId with
    | none =>
      symm
      rw [Option.elim_none, List.filter_eq_nil_iff]
      intro ev hev hnew
      have hle := hbefore.seq_le hev
      rw [Bool.and_eq_true, decide_eq_true_eq, startsAfter] at hnew
      omega
    | some n =>
      rw [Option.elim_some, LiveHub.replayAfter, hbefore.filter_ring, startsAfter]
  · -- what came later has a later number
    apply List.filter_congr
    intro ev hev
    obtain ⟨i, hi⟩ := List.mem_iff_getElem?.mp hev
    have hnum : ev.seq = (published pre).length + i + 1 := by
      apply hwhole.numbered
      rw [published_append, hpost, List.getElem?_append_right (Nat.le_add_right _ _),
        Nat.add_sub_cancel_left]
      exact hi
    have hstart : startsAfter before lastEventId < ev.seq := by
      refine lt_of_le_of_lt (b := (before.seq : ℤ)) ?_ (by omega)
      cases lastEventId with
      | none => exact le_refl _
      | some n => exact min_le_left _ _
    rw [decide_eq_true hstart, Bool.true_and]

/-- What is wanted comes in order out of everything that was published. -/
theorem wanted_sublist (hrun : LiveRun (LiveHub.new queueSize replaySize) hub
    (pre ++ ⟨before, .subscribe kinds lastEventId, .subscribed id, after⟩ :: post)) :
    (wantedFrom before kinds lastEventId post).Sublist
      (published (pre ++ ⟨before, .subscribe kinds lastEventId, .subscribed id, after⟩ ::
        post)) := by
  rw [wanted_eq hrun]
  exact List.filter_sublist

/-- **Stream accounting.**  In every run, and whatever the other subscribers do: what a
    subscriber has been given and what waits for it are in the order of publication, each once,
    all of its kinds and after what it named; what waits in its queue is the newest; and the
    counter `dropped` says how many are missing. -/
theorem stream_accounting (hrun : LiveRun (LiveHub.new queueSize replaySize) hub
    (pre ++ ⟨before, .subscribe kinds lastEventId, .subscribed id, after⟩ :: post))
    (hs : s ∈ hub.subs) (hid : s.id = id) :
    ((wantedFrom before kinds lastEventId post).Pairwise fun x y => x.seq < y.seq) ∧
    (delivered id post ++ s.pending).Sublist (wantedFrom before kinds lastEventId post) ∧
    s.queue.reduceOption <:+ (published post).filter (selects (LiveHub.kindSet kinds)) ∧
    (wantedFrom before kinds lastEventId post).length ≤
      (delivered id post ++ s.pending).length + s.dropped ∧
    (hub.closed = false → (wantedFrom before kinds lastEventId post).length =
      (delivered id post ++ s.pending).length + s.dropped) := by
  have htracked := tracked_of_run hrun
  obtain ⟨hsub, hsuffix, hle, heq⟩ := (htracked.streams s hs hid).spec
  rw [hid] at hsub hle heq
  refine ⟨?_, hsub, hsuffix, hle, fun hopen => heq (htracked.sound.opened hopen s hs).1⟩
  exact (HubRemembers.run hrun).increasing.sublist (wanted_sublist hrun)

/-- Calls of a hub whose queues have room for one event: a client that reads nothing, and then
    comes back for what it has missed. -/
def slowClient : List LiveCall :=
  [.subscribe [] none, .publish "risk" [], .next 0, .next 0, .publish "order" [],
    .subscribe [] (some 1), .next 1, .publish "risk" [], .publish "health" []]

/-- The hub and the log after these calls. -/
def slowRun : LiveHub × LiveLog := exec LiveHub.act (LiveHub.new 1 4) slowClient

/-- A slow stream of three events loses two, and what it still has is what is wanted. -/
theorem stream_accounting_slow : ∃ s ∈ slowRun.1.subs, s.id = 0 ∧ s.dropped = 2 ∧
    (delivered 0 (slowRun.2.drop 1) ++ s.pending).Sublist
      (wantedFrom (LiveHub.new 1 4) [] none (slowRun.2.drop 1)) := by
  have hrun : LiveRun (LiveHub.new 1 4) slowRun.1 ([] ++ ⟨LiveHub.new 1 4, .subscribe [] none,
      .subscribed 0, (LiveHub.new 1 4).subscribe [] none⟩ :: slowRun.2.drop 1) :=
    Run.exec LiveHub.act (LiveHub.new 1 4) slowClient
  exact ⟨_, List.mem_cons_self, rfl, rfl, (stream_accounting hrun List.mem_cons_self rfl).2.1⟩

/-! ### Reconnecting -/

/-- A stream that has dropped nothing has given the beginning of what is wanted. -/
theorem Streams.delivered_isPrefix {missed : List LiveEvent} {sel : Option (List String)}
    {log : LiveLog} (h : Streams missed sel log s) (hdropped : s.dropped = 0) :
    delivered s.id log <+: missed ++ (published log).filter (selects sel) := by
  obtain ⟨hkinds, sent, taken, haccount, hsent, htaken, hrest, hsign⟩ := h
  rw [hdropped] at haccount
  rw [← hsent, haccount.eq_append, List.reduceOption_append, ← List.append_assoc, ← htaken,
    List.append_assoc]
  exact List.prefix_append _ _

/-- What is given to a subscriber is given to one that stays. -/
theorem LiveHub.mem_of_delivered {call : LiveCall} {answer : LiveAnswer} {ev : LiveEvent}
    (hact : before.act call = (answer, after)) (h : call.delivered? id answer = some ev) :
    ∃ t ∈ after.subs, t.id = id := by
  cases call with
  | next i =>
    cases hact
    -- an event is delivered under the number of the stream that was read
    have hi : i = id := by
      by_contra hi
      cases hr : before.reply i <;> simp [LiveCall.delivered?, hr, hi] at h
    subst hi
    cases hfind : before.subs.find? (fun t => t.id = i) with
    | none =>
      rw [LiveHub.reply, hfind] at h
      cases h
    | some t =>
      have ht : t.id = i := by simpa using List.find?_some hfind
      refine ⟨t.anext.2, List.mem_map.mpr ⟨t, List.mem_of_find?_eq_some hfind, if_pos ht⟩, ?_⟩
      rw [t.reads_anext.id_eq, ht]
  | publish => cases h
  | subscribe => cases h
  | leave => cases h
  | close => cases h

/-- While a stream drops nothing, what it has given is the beginning of what is wanted. -/
theorem delivered_prefix_wanted (hrun : LiveRun (LiveHub.new queueSize replaySize) hub
    (pre ++ ⟨before, .subscribe kinds lastEventId, .subscribed id, after⟩ :: post))
    (hkept : ∀ e ∈ post, ∀ t ∈ e.after.subs, t.id = id → t.dropped = 0) :
    delivered id post <+: wantedFrom before kinds lastEventId post := by
  obtain ⟨hpre, hcall⟩ := hrun.before_entry rfl
  have hcall : before.act (.subscribe kinds lastEventId) = (.subscribed id, after) := hcall
  rw [LiveHub.act, Prod.mk.injEq, LiveAnswer.subscribed.injEq] at hcall
  obtain ⟨rfl, rfl⟩ := hcall
  -- carried along by itself: once the subscriber has left, the tracking says nothing of it
  have hinv := hrun.after_entry.invariant
    (fun hub log => Tracked before.nextId _ (LiveHub.kindSet kinds) hub log ∧
      ((∀ e ∈ log, ∀ t ∈ e.after.subs, t.id = before.nextId → t.dropped = 0) →
        delivered before.nextId log <+: wantedFrom before kinds lastEventId log))
    ⟨Tracked.subscribe (LiveHub.Sound.run hpre) kinds lastEventId, fun _ => List.nil_prefix⟩ ?_
  · exact hinv.2 hkept
  · intro h log call answer h' ⟨htracked, hinitial⟩ hact
    have htracked' := htracked.step hact
    refine ⟨htracked', fun hall => ?_⟩
    by_cases hthere : ∃ t ∈ h'.subs, t.id = before.nextId
    · obtain ⟨t, ht, htid⟩ := hthere
      have hdropped : t.dropped = 0 :=
        hall ⟨h, call, answer, h'⟩ (List.mem_append_right _ List.mem_cons_self) t ht htid
      have hgiven := (htracked'.streams t ht htid).delivered_isPrefix hdropped
      rwa [htid] at hgiven
    · -- it has left: nothing more is given, and more may be wanted
      have hnone : call.delivered? before.nextId answer = none := by
        rw [Option.eq_none_iff_forall_ne_some]
        exact fun ev hev => hthere (LiveHub.mem_of_delivered hact hev)
      have hold := hinitial fun e he => hall e (List.mem_append_left _ he)
      rw [deliveredTo_concat, hnone]
      refine (List.append_nil _).symm ▸ hold.trans ?_
      rw [wantedFrom, wantedFrom, published_concat, List.filter_append, ← List.append_assoc]
      exact List.prefix_append _ _

/-- The elements after one of a list in strict order are the greater ones. -/
theorem filter_after {front back : List LiveEvent} {ev : LiveEvent}
    (hsorted : (front ++ back).Pairwise fun x y => x.seq < y.seq)
    (hlast : front.getLast? = some ev) :
    (front ++ back).filter (fun x => decide ((ev.seq : ℤ) < x.seq)) = back := by
  obtain ⟨ys, rfl⟩ : ∃ ys, front = ys ++ [ev] := List.getLast?_eq_some_iff.mp hlast
  rw [List.pairwise_append] at hsorted
  obtain ⟨hfront, -, hacross⟩ := hsorted
  rw [List.pairwise_append] at hfront
  have hold : (ys ++ [ev]).filter (fun x => decide ((ev.seq : ℤ) < x.seq)) = [] := by
    rw [List.filter_eq_nil_iff]
    intro x hx
    rw [decide_eq_true_eq, Int.ofNat_lt, not_lt]
    rcases List.mem_append.mp hx with hx | hx
    · exact (hfront.2.2 x hx ev (by simp)).le
    · rw [List.mem_singleton.mp hx]
  have hnew : back.filter (fun x => decide ((ev.seq : ℤ) < x.seq)) = back := by
    rw [List.filter_eq_self]
    intro x hx
    rw [decide_eq_true_eq, Int.ofNat_lt]
    exact hacross ev (by simp) x hx
  rw [List.filter_append, hold, hnew, List.nil_append]

/-- A stream that starts after the last event of another asks for the rest of what that one has
    asked for, as long as the ring has it. -/
theorem wantedFrom_rest {mid : LiveLog} {before₂ after₂ : LiveHub} {id₂ : ℕ} {ev : LiveEvent}
    {given back : List LiveEvent} (hrun : LiveRun (LiveHub.new queueSize replaySize) hub
      (pre ++ ⟨before, .subscribe kinds lastEventId, .subscribed id, after⟩ :: (mid ++
        ⟨before₂, .subscribe kinds (some ev.seq), .subscribed id₂, after₂⟩ :: post)))
    (hsplit : given ++ back = wantedFrom before kinds lastEventId (mid ++
      ⟨before₂, .subscribe kinds (some ev.seq), .subscribed id₂, after₂⟩ :: post))
    (hlast : given.getLast? = some ev) (hseq : ev.seq ≤ before₂.seq)
    (hring : before₂.seq ≤ ev.seq + replaySize) :
    wantedFrom before₂ kinds (some ev.seq) post = back := by
  have hrun₂ := hrun
  rw [← List.cons_append, ← List.append_assoc] at hrun₂
  have hsize : before₂.replaySize = replaySize :=
    (HubRemembers.run (hrun₂.before_entry rfl).1).replaySize_eq
  have hsorted : (given ++ back).Pairwise fun x y => x.seq < y.seq := by
    rw [hsplit]
    exact (HubRemembers.run hrun).increasing.sublist (wanted_sublist hrun)
  -- the event was one that the first stream had asked for
  have hstart : startsAfter before lastEventId < ev.seq := by
    have hmem : ev ∈ given ++ back := List.mem_append_left _ (List.mem_of_getLast? hlast)
    rw [hsplit, wanted_eq hrun, List.mem_filter, Bool.and_eq_true, decide_eq_true_eq] at hmem
    exact hmem.2.1
  rw [← filter_after hsorted hlast, hsplit, wanted_eq hrun, wanted_eq hrun₂, ← List.cons_append,
    ← List.append_assoc, List.filter_filter]
  apply List.filter_congr
  intro x _
  have hfrom : startsAfter before₂ (some (ev.seq : ℤ)) = ev.seq := by
    rw [startsAfter, LiveHub.replaysFrom, hsize]
    omega
  rw [hfrom]
  by_cases hx : (ev.seq : ℤ) < x.seq
  · simp only [decide_eq_true hx, decide_eq_true (hstart.trans hx), Bool.true_and]
  · rw [decide_eq_false hx, Bool.false_and, Bool.false_and]

/-- **Reconnecting.**  A client whose stream has dropped nothing comes back with the number of
    the last event it has seen, before the ring has lost more than that: what it was given, on
    both streams, and what waits for it is in the order of publication and comes out of what the
    first stream had asked for, and nothing of that is missing but what the second has dropped. -/
theorem resume_exact {mid : LiveLog} {before₂ after₂ : LiveHub} {id₂ : ℕ} {ev : LiveEvent}
    (hrun : LiveRun (LiveHub.new queueSize replaySize) hub
      (pre ++ ⟨before, .subscribe kinds lastEventId, .subscribed id, after⟩ :: (mid ++
        ⟨before₂, .subscribe kinds (some ev.seq), .subscribed id₂, after₂⟩ :: post)))
    (hkept : ∀ e ∈ mid, ∀ t ∈ e.after.subs, t.id = id → t.dropped = 0)
    (hlast : (delivered id mid).getLast? = some ev)
    (hring : before₂.seq ≤ ev.seq + replaySize) (hs : s ∈ hub.subs) (hid : s.id = id₂) :
    (delivered id mid ++ delivered id₂ post ++ s.pending).Sublist
      (wantedFrom before kinds lastEventId
        (mid ++ ⟨before₂, .subscribe kinds (some ev.seq), .subscribed id₂, after₂⟩ :: post)) ∧
    (hub.closed = false →
      (wantedFrom before kinds lastEventId (mid ++ ⟨before₂, .subscribe kinds (some ev.seq),
        .subscribed id₂, after₂⟩ :: post)).length =
        (delivered id mid ++ delivered id₂ post ++ s.pending).length + s.dropped) := by
  set e₁ : Entry LiveHub LiveCall LiveAnswer :=
    ⟨before, .subscribe kinds lastEventId, .subscribed id, after⟩
  set e₂ : Entry LiveHub LiveCall LiveAnswer :=
    ⟨before₂, .subscribe kinds (some ev.seq), .subscribed id₂, after₂⟩
  have hlog : pre ++ e₁ :: (mid ++ e₂ :: post) = (pre ++ e₁ :: mid) ++ e₂ :: post := by simp
  have hrun₂ := hrun
  rw [hlog] at hrun₂
  have hrun₁ : LiveRun (LiveHub.new queueSize replaySize) before₂ (pre ++ e₁ :: mid) :=
    (hrun₂.before_entry rfl).1
  have hseq : ev.seq ≤ before₂.seq := by
    have hmem : ev ∈ wantedFrom before kinds lastEventId mid :=
      (delivered_prefix_wanted hrun₁ hkept).subset (List.mem_of_getLast? hlast)
    exact (HubRemembers.run hrun₁).seq_le ((wanted_sublist hrun₁).subset hmem)
  -- what the second stream asks for is the rest of what the first one asked for
  obtain ⟨back, hback⟩ : delivered id mid <+:
      wantedFrom before kinds lastEventId (mid ++ e₂ :: post) := by
    refine (delivered_prefix_wanted hrun₁ hkept).trans ?_
    rw [wantedFrom, wantedFrom, published_append, List.filter_append, ← List.append_assoc]
    exact List.prefix_append _ _
  have hrest : wantedFrom before₂ kinds (some ev.seq) post = back :=
    wantedFrom_rest hrun hback hlast hseq hring
  have htracked := tracked_of_run hrun₂
  obtain ⟨hsub, -, -, heq⟩ := (htracked.streams s hs hid).spec
  rw [wantedFrom] at hrest
  rw [hid, hrest] at hsub heq
  rw [← hback, List.append_assoc]
  refine ⟨(List.Sublist.refl _).append hsub, fun hopen => ?_⟩
  rw [List.length_append, List.length_append, heq (htracked.sound.opened hopen s hs).1,
    Nat.add_assoc]

/-- The calls between the two subscriptions. -/
theorem resume_exact_slow : ∃ s ∈ slowRun.1.subs, s.id = 1 ∧ s.dropped = 1 ∧
    (wantedFrom (LiveHub.new 1 4) [] none (slowRun.2.drop 1)).length =
      (delivered 0 ((slowRun.2.drop 1).take 4) ++ delivered 1 (slowRun.2.drop 6) ++
        s.pending).length + 1 := by
  let ev : LiveEvent := ⟨1, "risk", []⟩
  let before₂ : LiveHub := (exec LiveHub.act (LiveHub.new 1 4) (slowClient.take 5)).1
  have hrun : LiveRun (LiveHub.new 1 4) slowRun.1 ([] ++ ⟨LiveHub.new 1 4, .subscribe [] none,
      .subscribed 0, (LiveHub.new 1 4).subscribe [] none⟩ :: ((slowRun.2.drop 1).take 4 ++
        ⟨before₂, .subscribe [] (some (ev.seq : ℤ)), .subscribed 1,
          before₂.subscribe [] (some (ev.seq : ℤ))⟩ :: slowRun.2.drop 6)) :=
    Run.exec LiveHub.act (LiveHub.new 1 4) slowClient
  have hkept : ∀ e ∈ (slowRun.2.drop 1).take 4, ∀ t ∈ e.after.subs, t.id = 0 → t.dropped = 0 := by
    have hall : ((slowRun.2.drop 1).take 4).all (fun e =>
        e.after.subs.all fun t => decide (t.dropped = 0)) = true := rfl
    intro e he t ht _
    exact of_decide_eq_true (List.all_eq_true.mp (List.all_eq_true.mp hall e he) t ht)
  have hlast : (delivered 0 ((slowRun.2.drop 1).take 4)).getLast? = some ev := rfl
  have hring : before₂.seq ≤ ev.seq + 4 := by decide
  exact ⟨_, List.mem_cons_of_mem _ List.mem_cons_self, rfl, rfl,
    (resume_exact hrun hkept hlast hring (List.mem_cons_of_mem _ List.mem_cons_self) rfl).2 rfl⟩

end Runs

/-! ### Closing -/

/-- The events that a stream gives when it is read at most `n` times with nothing else
    happening, and whether it has ended by then. -/
def Subscription.readUpTo : ℕ → Subscription → List LiveEvent × Bool
  | 0, _ => ([], false)
  | n + 1, s =>
    match s.anext.1 with
    | .event ev => (ev :: (readUpTo n s.anext.2).1, (readUpTo n s.anext.2).2)
    | .stop => ([], true)
    | .blocked => ([], false)

namespace Subscription

variable {s : Subscription}

/-- A stream that is not kept waiting goes on with one item less, or ends. -/
theorem readUpTo_succ (n : ℕ) (h : ∀ s', ¬StreamReads s .blocked s') :
    (∃ ev s', StreamReads s (.event ev) s' ∧
      s.readUpTo (n + 1) = (ev :: (s'.readUpTo n).1, (s'.readUpTo n).2)) ∨
    (∃ s', StreamReads s .stop s') ∧ s.readUpTo (n + 1) = ([], true) := by
  have hread := s.reads_anext
  rw [readUpTo]
  cases hreply : s.anext.1 with
  | event ev =>
    rw [hreply] at hread
    exact .inl ⟨ev, s.anext.2, hread, rfl⟩
  | stop =>
    rw [hreply] at hread
    exact .inr ⟨⟨_, hread⟩, rfl⟩
  | blocked =>
    rw [hreply] at hread
    exact absurd hread (h _)

/-- Nobody waits for a hub that is closed. -/
theorem Sound.not_blocked (h : s.Sound) (hshut : s.closed = true ∨ s.closedAtStart = true)
    (s' : Subscription) : ¬StreamReads s .blocked s' := by
  intro hread
  cases hread with
  | wait hrest hfollows hqueue hopen =>
    have hstart : s.closedAtStart = false := hfollows.elim (fun hf => hf) h.follows
    have hclosed : s.closed = true := hshut.resolve_right (by simp [hstart])
    have hwaiting : s.reading = .waiting := hopen.resolve_left (by simp [hclosed])
    exact h.waiting hwaiting hclosed hqueue

/-- **A stream of a closed hub ends**, after what is left of it. -/
theorem Sound.readUpTo_ends (n : ℕ) (h : s.Sound)
    (hshut : s.closed = true ∨ s.closedAtStart = true)
    (hn : s.reading.rest.length + s.queue.length ≤ n) : (s.readUpTo (n + 1)).2 = true := by
  induction n generalizing s with
  | zero =>
    -- with nothing left the stream can only end
    rcases readUpTo_succ 0 (h.not_blocked hshut) with ⟨ev, s', hread, -⟩ | ⟨-, hend⟩
    · cases hread with
      | missed hmissed =>
        rw [hmissed, Reading.rest, List.length_cons] at hn
        omega
      | event hrest hfollows hqueue =>
        rw [hqueue, List.length_cons] at hn
        omega
    · rw [hend]
  | succ n ih =>
    rcases readUpTo_succ (n + 1) (h.not_blocked hshut) with ⟨ev, s', hread, heq⟩ | ⟨-, hend⟩
    · rw [heq]
      refine ih (h.reads hread) ?_ ?_
      · rw [hread.closed_eq, hread.closedAtStart_eq]
        exact hshut
      · cases hread with
        | @missed ev rest hmissed =>
          rw [hmissed, Reading.rest, List.length_cons] at hn
          show rest.length + s.queue.length ≤ n
          omega
        | @event ev queue hrest hfollows hqueue =>
          rw [hrest, hqueue, List.length_cons] at hn
          show ([] : List LiveEvent).length + queue.length ≤ n
          omega
    · rw [hend]

/-- A queue without an event in front has no events. -/
theorem events_eq_nil {queue : List (Option LiveEvent)} {events : List LiveEvent}
    (hqueue : queue = events.map some ∨ events = [] ∧ queue = [none])
    (hfront : ∀ ev rest, queue ≠ some ev :: rest) : events = [] := by
  cases events with
  | nil => rfl
  | cons ev events =>
    rcases hqueue with hqueue | ⟨hnil, -⟩
    · exact absurd hqueue (hfront ev _)
    · exact hnil

/-- A stream that may give everything that waits gives just that, and ends. -/
theorem Sound.readUpTo_pending (h : s.Sound) (hclosed : s.closed = true)
    (hstart : s.closedAtStart = false) (hended : s.reading ≠ .ended)
    (events : List LiveEvent) (hqueue : s.queue = events.map some ∨
      events = [] ∧ s.queue = [none]) :
    s.readUpTo ((s.reading.rest ++ events).length + 1) = (s.reading.rest ++ events, true) := by
  generalize hpending : s.reading.rest ++ events = pending
  induction pending generalizing s events with
  | nil =>
    -- nothing is left to be read: the stream can only end
    obtain ⟨hrest, rfl⟩ := List.append_eq_nil_iff.mp hpending
    rcases readUpTo_succ 0 (h.not_blocked (.inl hclosed)) with ⟨ev, s', hread, -⟩ | ⟨-, hend⟩
    · cases hread with
      | missed hmissed =>
        rw [hmissed] at hrest
        cases hrest
      | event hnone hfollows hq =>
        rcases hqueue with hqueue | ⟨-, hqueue⟩
        · rw [hq] at hqueue
          cases hqueue
        · rw [hq] at hqueue
          cases hqueue
    · exact hend
  | cons x pending ih =>
    -- there is something to be read, so one event comes, and the induction does the rest
    rcases readUpTo_succ (pending.length + 1) (h.not_blocked (.inl hclosed)) with
      ⟨ev, s', hread, heq⟩ | ⟨⟨s', hstop⟩, -⟩
    · rw [List.length_cons, heq]
      have hnext (events' : List LiveEvent) (hqueue' : s'.queue = events'.map some ∨
          events' = [] ∧ s'.queue = [none]) (hend : s'.reading ≠ .ended)
          (hrest : s'.reading.rest ++ events' = pending) :
          s'.readUpTo (pending.length + 1) = (pending, true) :=
        ih (h.reads hread) (hread.closed_eq.trans hclosed) (hread.closedAtStart_eq.trans hstart)
          hend events' hqueue' hrest
      cases hread with
      | missed hmissed =>
        rw [hmissed, Reading.rest, List.cons_append, List.cons.injEq] at hpending
        rw [hnext events hqueue (by simp) hpending.2, hpending.1]
      | event hrest hfollows hq =>
        rw [hrest, List.nil_append] at hpending
        subst hpending
        rcases hqueue with hqueue | ⟨hnil, -⟩
        · rw [hq, List.map_cons, List.cons.injEq, Option.some.injEq] at hqueue
          rw [hnext pending (.inl hqueue.2) (by simp) rfl, hqueue.1]
        · cases hnil
    · -- it does not end before everything is read
      cases hstop with
      | sign hrest hq =>
        rw [hrest, List.nil_append, events_eq_nil hqueue (by simp [hq])] at hpending
        cases hpending
      | late _ hlate => exact absurd hlate (by simp [hstart])
      | shut hrest _ hq =>
        rw [hrest, List.nil_append, events_eq_nil hqueue (by simp [hq])] at hpending
        cases hpending
      | ended hover => exact absurd hover hended

end Subscription

/-- A list of answers without a gap is its answers. -/
theorem eq_map_reduceOption {α : Type*} {xs : List (Option α)} (h : none ∉ xs) :
    xs = xs.reduceOption.map some := by
  induction xs with
  | nil => rfl
  | cons x xs ih =>
    rw [List.mem_cons, not_or] at h
    obtain ⟨y, rfl⟩ := Option.ne_none_iff_exists'.mp (Ne.symm h.1)
    rw [List.reduceOption_cons_of_some, List.map_cons, ← ih h.2]

/-- **Closing.**  In every run: a stream of a closed hub ends as soon as what is left of it has
    been read, without waiting; and a hub that is open, when it is closed, ends each of its
    streams after everything that was still to be read on it. -/
theorem close_drains {queueSize : ℤ} {replaySize : ℕ} {hub : LiveHub} {log : LiveLog}
    (hrun : LiveRun (LiveHub.new queueSize replaySize) hub log) :
    (hub.closed = true → ∀ s ∈ hub.subs,
      (s.readUpTo (s.reading.rest.length + s.queue.length + 1)).2 = true) ∧
    (hub.closed = false → ∀ s ∈ hub.subs,
      s.shut ∈ hub.close.subs ∧ s.shut.readUpTo (s.pending.length + 1) = (s.pending, true)) := by
  have hsound := LiveHub.Sound.run hrun
  refine ⟨fun hclosed s hs => ?_, fun hopen s hs => ⟨List.mem_map_of_mem hs, ?_⟩⟩
  · exact (hsound.sound s hs).readUpTo_ends _ (hsound.shut hclosed s hs) (le_refl _)
  -- a stream that is shut now gets its sign only where its queue is empty
  · obtain ⟨hclosed, hstart⟩ := hsound.opened hopen s hs
    have hs' := hsound.sound s hs
    refine hs'.shut.readUpTo_pending rfl hstart (hs'.ended hclosed hstart) s.queue.reduceOption ?_
    by_cases hempty : s.queue = []
    · right
      rw [Subscription.shut, hempty]
      exact ⟨rfl, rfl⟩
    · left
      have hqueue : s.shut.queue = s.queue := by
        show (if s.queue.isEmpty then [none] else s.queue) = s.queue
        rw [if_neg (by simpa using hempty)]
      rw [hqueue]
      exact eq_map_reduceOption (hs'.sign hclosed)

/-- A stream that is closed with a full queue reads it out, and ends. -/
theorem close_drains_slow : ∃ s ∈ slowRun.1.subs,
    s.shut ∈ slowRun.1.close.subs ∧ s.shut.readUpTo (s.pending.length + 1) = (s.pending, true) :=
  ⟨_, List.mem_cons_self, (close_drains (Run.exec LiveHub.act (LiveHub.new 1 4) slowClient)).2 rfl
    _ List.mem_cons_self⟩

end FuzzHelm
