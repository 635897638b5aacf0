import FuzzHelm.Core.Clock
import FuzzHelm.Core.Money
import FuzzHelm.Lib.Meter
import Mathlib.Data.Rat.Floor

namespace FuzzHelm

open Lib

/-!
# The budget of requests

The token bucket in front of the exchange: weighted requests, the resynchronisation by the header
of used weight, and the bucket that is sized for a limit per minute.

* `TokenBucket` — the bucket and its calls, each with the reading of the clock;
* `BucketState.call` — the bucket among its callers: `acquire` queues at the lock, and its holder
  tries, waits and tries again while other calls come between;
* `BucketState.held` — the meter behind the bucket: what it holds at the clock;
* `bucket_meters` — one call is one step of the meter;
* `request_budget` — the law; `tolerance_adds_up` — the limit from which it fails.
-/

/-- `_EPS`: the tolerance of an admission. -/
def bucketEps : ℚ := 1 / 1000000000

/-! ### The bucket -/

/-- What the constructor fixes. -/
structure BucketConfig where
  capacity : ℚ
  refillPerS : ℚ
  capacity_pos : 0 < capacity
  refillPerS_pos : 0 < refillPerS

/-- The check of the constructor. -/
def BucketConfig.make (capacity refillPerS : ℚ) : Except PyError BucketConfig :=
  if h : 0 < capacity ∧ 0 < refillPerS then .ok ⟨capacity, refillPerS, h.1, h.2⟩
  else .error (.valueError "capacity and refill_per_s must be finite and > 0")

/-- `TokenBucket`: the tokens, their time, and what was admitted at that time. -/
structure TokenBucket (cfg : BucketConfig) where
  tokens : ℚ
  tNs : ℤ
  totalWaitS : ℚ
  acquiredWeight : ℤ
  deriving DecidableEq

/-- `_check_weight`: positive, and no more than the bucket can hold. -/
def checkWeight (cfg : BucketConfig) (weight : ℤ) : Except PyError Unit :=
  if weight ≤ 0 then .error (.valueError "weight must be > 0")
  else if cfg.capacity < weight then
    .error (.valueError "weight exceeds bucket capacity: never admissible")
  else .ok ()

namespace TokenBucket

variable {cfg : BucketConfig}

/-- `__init__`: a full bucket, unless it is given less. -/
def new (cfg : BucketConfig) (initial : Option ℚ) (nowNs : ℤ) : TokenBucket cfg where
  tokens := initial.elim cfg.capacity fun x => min x cfg.capacity
  tNs := nowNs
  totalWaitS := 0
  acquiredWeight := 0

variable (b : TokenBucket cfg)

/-- `_refill`: by the time that has passed, up to the capacity. -/
def refill (nowNs : ℤ) : TokenBucket cfg :=
  if b.tNs < nowNs then
    { b with
      tokens := min cfg.capacity (b.tokens + (nowNs - b.tNs) * cfg.refillPerS / nsPerSec)
      tNs := nowNs }
  else b

/-- `wait_time`: how long until the weight is there, and the bucket after the reading. -/
def waitTime (weight nowNs : ℤ) : Except PyError (ℚ × TokenBucket cfg) := do
  checkWeight cfg weight
  let b' := b.refill nowNs
  let deficit := weight - b'.tokens
  return (if deficit ≤ bucketEps then 0 else deficit / cfg.refillPerS, b')

/-- `try_acquire`: the tokens are taken where there are enough, within the tolerance. -/
def tryAcquire (weight nowNs : ℤ) : Except PyError (Bool × TokenBucket cfg) := do
  checkWeight cfg weight
  let b' := b.refill nowNs
  if weight ≤ b'.tokens + bucketEps then
    return (true, { b' with
      tokens := max 0 (b'.tokens - weight)
      acquiredWeight := b'.acquiredWeight + weight })
  else return (false, b')

/-- `observe_used_weight`: the header only ever lowers the tokens. -/
def observeUsedWeight (used limit nowNs : ℤ) : TokenBucket cfg :=
  let b' := b.refill nowNs
  { b' with tokens := max 0 (min b'.tokens (limit - used : ℤ)) }

/-- `drain`: the exchange has said that nothing is left. -/
def drain (nowNs : ℤ) : TokenBucket cfg := { b.refill nowNs with tokens := 0 }

end TokenBucket

/-- `binance_request_bucket`: half the limit at once, and half of it a minute. -/
def binanceRequestBucket (limitPerMin nowNs : ℤ) :
    Except PyError ((cfg : BucketConfig) × TokenBucket cfg) := do
  let capacity : ℚ := limitPerMin / 2
  let cfg ← BucketConfig.make capacity (capacity / 60)
  return ⟨cfg, .new cfg none nowNs⟩

/-! ### The bucket among its callers -/

/-- The bucket, the last reading of its clock, and the calls of `acquire` that are not done, in
    the order of arrival: the weight and what has been waited.  The first one holds the lock. -/
structure BucketState (cfg : BucketConfig) where
  bucket : TokenBucket cfg
  clockNs : ℤ
  waiting : List (ℤ × ℚ)

/-- The calls.  `turn` is one round of the loop of the `acquire` that holds the lock; between a
    refusal and the reading for its wait the clock may have gone on by `pauseNs`. -/
inductive BucketOp where
  | tryAcquire (weight : ℤ)
  | acquire (weight : ℤ)
  | turn (pauseNs : ℕ)
  | observeUsedWeight (used limit : ℤ)
  | drain
  | tokens
  | waitTime (weight : ℤ)

/-- A call, and how far the clock has gone on since the last reading. -/
structure BucketCall where
  elapsedNs : ℕ
  op : BucketOp

/-- What a call answers. -/
inductive BucketAnswer where
  | admitted (weight : ℤ)
  | refused
  | queued
  | slept (delayS : ℚ)
  | value (x : ℚ)
  | done
  | raised (e : PyError)

namespace BucketState

variable {cfg : BucketConfig} (s : BucketState cfg)

/-- The round of the `acquire` that holds the lock: it tries, and sleeps for the wait, rounded up
    to a nanosecond. -/
def turn (pauseNs : ℕ) (now : ℤ) : BucketAnswer × BucketState cfg :=
  match s.waiting with
  | [] => (.done, { s with clockNs := now })
  | (weight, waited) :: rest =>
    match s.bucket.tryAcquire weight now with
    | .error e => (.raised e, { s with clockNs := now, waiting := rest })
    | .ok (true, b) =>
      (.admitted weight, ⟨{ b with totalWaitS := b.totalWaitS + waited }, now, rest⟩)
    | .ok (false, b) =>
      match b.waitTime weight (now + pauseNs) with
      | .error e => (.raised e, ⟨b, now + pauseNs, rest⟩)
      | .ok (t, b') =>
        let delay : ℚ := ⌈t * nsPerSec⌉ / nsPerSec
        (.slept delay, ⟨b', now + pauseNs, (weight, waited + delay) :: rest⟩)

/-- A call, at the time that its caller reads. -/
def call (c : BucketCall) : BucketAnswer × BucketState cfg :=
  let now := s.clockNs + c.elapsedNs
  match c.op with
  | .tryAcquire weight =>
    match s.bucket.tryAcquire weight now with
    | .error e => (.raised e, { s with clockNs := now })
    | .ok (true, b) => (.admitted weight, { s with bucket := b, clockNs := now })
    | .ok (false, b) => (.refused, { s with bucket := b, clockNs := now })
  | .acquire weight =>
    -- the coroutine is put behind those that wait already
    match checkWeight cfg weight with
    | .error e => (.raised e, { s with clockNs := now })
    | .ok () => (.queued, { s with clockNs := now, waiting := s.waiting ++ [(weight, 0)] })
  | .turn pauseNs => s.turn pauseNs now
  | .observeUsedWeight used limit =>
    (.done, { s with bucket := s.bucket.observeUsedWeight used limit now, clockNs := now })
  | .drain => (.done, { s with bucket := s.bucket.drain now, clockNs := now })
  | .tokens =>
    (.value (s.bucket.refill now).tokens,
      { s with bucket := s.bucket.refill now, clockNs := now })
  | .waitTime weight =>
    match s.bucket.waitTime weight now with
    | .error e => (.raised e, { s with clockNs := now })
    | .ok (t, b) => (.value t, { s with bucket := b, clockNs := now })

end BucketState

/-- One call of the bucket. -/
def BucketStep {cfg : BucketConfig} (s : BucketState cfg) (c : BucketCall) (r : BucketAnswer)
    (s' : BucketState cfg) : Prop := s.call c = (r, s')

/-- The log of a run of a bucket. -/
abbrev BucketLog (cfg : BucketConfig) := List (Entry (BucketState cfg) BucketCall BucketAnswer)

/-- The weight that an answer admits. -/
def BucketAnswer.weight : BucketAnswer → ℤ
  | .admitted weight => weight
  | _ => 0

/-- The weight admitted from the reading `a` to the reading `b` of the clock, both included. -/
def admittedIn {cfg : BucketConfig} (a b : ℤ) (log : BucketLog cfg) : ℤ :=
  (log.map fun e =>
    if a ≤ e.after.clockNs ∧ e.after.clockNs ≤ b then e.answer.weight else 0).sum

/-! ### Refilling -/

namespace TokenBucket

variable {cfg : BucketConfig} {b b' : TokenBucket cfg} {now later weight : ℤ}

/-- Tokens for each nanosecond. -/
def rate (cfg : BucketConfig) : ℚ := cfg.refillPerS / nsPerSec

/-- A bucket refills. -/
theorem rate_pos (cfg : BucketConfig) : 0 < rate cfg :=
  div_pos cfg.refillPerS_pos (by norm_num [nsPerSec])

/-- The tokens of a bucket are never more than it holds. -/
def InRange (b : TokenBucket cfg) : Prop := 0 ≤ b.tokens ∧ b.tokens ≤ cfg.capacity

/-- A refill brings the bucket to the present. -/
@[simp] theorem refill_tNs (h : b.tNs ≤ now) : (b.refill now).tNs = now := by
  unfold refill
  split
  · rfl
  · show b.tNs = now
    omega

/-- **What a refill leaves**: the tokens grow at the rate of the bucket, up to its capacity. -/
theorem refill_tokens (hb : b.InRange) (h : b.tNs ≤ now) :
    (b.refill now).tokens = min cfg.capacity (b.tokens + rate cfg * (now - b.tNs)) := by
  unfold refill
  split
  · show min _ _ = _
    congr 2
    rw [rate]
    ring
  · have heq : b.tNs = now := by omega
    rw [heq, sub_self, mul_zero, add_zero]
    exact (min_eq_right hb.2).symm

/-- A refill stays within the capacity. -/
theorem refill_inRange (hb : b.InRange) (h : b.tNs ≤ now) : (b.refill now).InRange := by
  rw [InRange, refill_tokens hb h]
  have hgrow : 0 ≤ rate cfg * ((now : ℚ) - b.tNs) :=
    mul_nonneg (rate_pos cfg).le (sub_nonneg.mpr (by exact_mod_cast h))
  constructor
  · exact le_min cfg.capacity_pos.le (add_nonneg hb.1 hgrow)
  · exact min_le_left _ _

/-- A refill after a refill adds no more than the rate. -/
theorem refill_le (hb : b.InRange) (h : b.tNs ≤ now) (hl : now ≤ later) :
    (b.refill later).tokens ≤ (b.refill now).tokens + rate cfg * (later - now) := by
  have hrate := (rate_pos cfg).le
  have hgrow : 0 ≤ rate cfg * ((later : ℚ) - now) :=
    mul_nonneg hrate (sub_nonneg.mpr (by exact_mod_cast hl))
  rw [refill_tokens hb h, refill_tokens hb (h.trans hl), ← min_add_add_right]
  apply le_min
  · exact (min_le_left _ _).trans (le_add_of_nonneg_right hgrow)
  · apply (min_le_right _ _).trans
    linarith

/-- A refill at the time of the bucket changes nothing. -/
theorem refill_self (hb : b.tNs = now) : b.refill now = b := by
  rw [refill, if_neg (by omega)]

/-- **What `try_acquire` does**: an admitted weight is at least one and at most the tolerance above
    the tokens; then the tokens are lowered by it, but not below zero. -/
theorem tryAcquire_true (h : b.tryAcquire weight now = .ok (true, b')) :
    1 ≤ weight ∧ (weight : ℚ) ≤ (b.refill now).tokens + bucketEps ∧
      b'.tokens = max 0 ((b.refill now).tokens - weight) ∧ b'.tNs = (b.refill now).tNs := by
  obtain ⟨_, hcheck, h⟩ := bind_eq_ok.mp h
  have hpos : 1 ≤ weight := by
    unfold checkWeight at hcheck
    split at hcheck
    · cases hcheck
    · omega
  simp only at h
  split at h
  · rename_i hle
    cases h
    exact ⟨hpos, hle, rfl, rfl⟩
  · cases h

/-- A refusal only refills. -/
theorem tryAcquire_false (h : b.tryAcquire weight now = .ok (false, b')) : b' = b.refill now := by
  obtain ⟨_, -, h⟩ := bind_eq_ok.mp h
  simp only at h
  split at h
  · cases h
  · cases h
    rfl

/-- Asking for the wait only refills. -/
theorem waitTime_ok {t : ℚ} (h : b.waitTime weight now = .ok (t, b')) : b' = b.refill now := by
  obtain ⟨_, -, h⟩ := bind_eq_ok.mp h
  cases h
  rfl

/-- Looking at the bucket in between gives it nothing. -/
theorem refill_refill_le (hb : b.InRange) (h : b.tNs ≤ now) (hl : now ≤ later) :
    ((b.refill now).refill later).tokens ≤ (b.refill later).tokens := by
  have hrate := (rate_pos cfg).le
  have hgrow : 0 ≤ rate cfg * ((later : ℚ) - now) :=
    mul_nonneg hrate (sub_nonneg.mpr (by exact_mod_cast hl))
  rw [refill_tokens (refill_inRange hb h) (by rw [refill_tNs h]; exact hl), refill_tNs h,
    refill_tokens hb h, refill_tokens hb (h.trans hl), ← min_add_add_right]
  apply le_min
  · exact min_le_left _ _
  · apply (min_le_right _ _).trans
    apply (min_le_right _ _).trans
    linarith

end TokenBucket

/-! ### The meter behind the bucket -/

namespace BucketState

variable {cfg : BucketConfig} {s s' : BucketState cfg} {b' : TokenBucket cfg} {later : ℤ}

/-- What the bucket holds at the last reading of its clock. -/
def held (s : BucketState cfg) : Meter ℚ := ⟨(s.bucket.refill s.clockNs).tokens, s.clockNs⟩

/-- The bucket is in range and has not looked further than the clock. -/
structure Sound (s : BucketState cfg) : Prop where
  inRange : s.bucket.InRange
  synced : s.bucket.tNs ≤ s.clockNs

/-- What a call draws from the meter; a draw is short when the tolerance admits it. -/
def drawOf (e : Entry (BucketState cfg) BucketCall BucketAnswer) : Draw ℚ :=
  match e.answer with
  | .admitted weight =>
    ⟨weight, decide ((e.before.bucket.refill e.after.clockNs).tokens < weight)⟩
  | _ => ⟨0, false⟩

/-- A step of the bucket meters what it admits. -/
abbrev Meters (s : BucketState cfg) (d : Draw ℚ) (s' : BucketState cfg) : Prop :=
  MeterStep cfg.capacity (TokenBucket.rate cfg) bucketEps s.held d () s'.held

/-- A call that admits nothing and leaves no more than a look at the bucket would. -/
theorem Sound.idle (h : s.Sound) (hl : s.clockNs ≤ later) (hb : b'.InRange) (ht : b'.tNs ≤ later)
    (hle : (b'.refill later).tokens ≤ (s.bucket.refill later).tokens) (waiting : List (ℤ × ℚ)) :
    Sound ⟨b', later, waiting⟩ ∧ Meters s ⟨0, false⟩ ⟨b', later, waiting⟩ := by
  refine ⟨⟨hb, ht⟩, ?_, TokenBucket.refill_inRange hb ht, le_rfl, ?_⟩
  · show (s.clockNs : ℚ) ≤ later
    exact_mod_cast hl
  · refine ⟨_, (TokenBucket.refill_inRange hb ht).2,
      hle.trans (TokenBucket.refill_le h.inRange h.synced hl), ?_, ?_⟩
    · intro _
      show (b'.refill later).tokens + 0 ≤ (b'.refill later).tokens
      rw [add_zero]
    · intro hshort
      cases hshort

/-- A call that does not touch the bucket. -/
theorem Sound.kept (h : s.Sound) (hl : s.clockNs ≤ later) (waiting : List (ℤ × ℚ)) :
    Sound ⟨s.bucket, later, waiting⟩ ∧ Meters s ⟨0, false⟩ ⟨s.bucket, later, waiting⟩ :=
  h.idle hl h.inRange (h.synced.trans hl) le_rfl waiting

/-- A call that looks at the bucket, and may lower its tokens. -/
theorem Sound.lowered (h : s.Sound) (hl : s.clockNs ≤ later) (b' : TokenBucket cfg)
    (hb : b'.InRange) (ht : b'.tNs = later) (hle : b'.tokens ≤ (s.bucket.refill later).tokens)
    (waiting : List (ℤ × ℚ)) :
    Sound ⟨b', later, waiting⟩ ∧ Meters s ⟨0, false⟩ ⟨b', later, waiting⟩ := by
  apply h.idle hl hb ht.le
  rwa [TokenBucket.refill_self ht]

/-- Looking at the bucket later keeps it sound, and admits nothing. -/
theorem Sound.looked (h : s.Sound) (hl : s.clockNs ≤ later) (waiting : List (ℤ × ℚ)) :
    Sound ⟨s.bucket.refill later, later, waiting⟩ ∧
      Meters s ⟨0, false⟩ ⟨s.bucket.refill later, later, waiting⟩ :=
  have hsynced := h.synced.trans hl
  h.lowered hl _ (TokenBucket.refill_inRange h.inRange hsynced) (TokenBucket.refill_tNs hsynced)
    le_rfl waiting

/-- **An admission** is a draw of its weight; when the tolerance admits it, the bucket is empty
    afterwards. -/
theorem Sound.admitted (h : s.Sound) (hl : s.clockNs ≤ later) {weight : ℤ} {b : TokenBucket cfg}
    (hb : s.bucket.tryAcquire weight later = .ok (true, b)) (b' : TokenBucket cfg)
    (hlevel : b'.tokens = b.tokens) (htime : b'.tNs = b.tNs) (waiting : List (ℤ × ℚ)) :
    Sound ⟨b', later, waiting⟩ ∧
      Meters s ⟨weight, decide ((s.bucket.refill later).tokens < weight)⟩
        ⟨b', later, waiting⟩ := by
  -- the tokens as they stand at the call
  have hsynced := h.synced.trans hl
  obtain ⟨hpos, htolerance, htokens, hlooked⟩ := TokenBucket.tryAcquire_true hb
  have hfull := TokenBucket.refill_inRange h.inRange hsynced
  rw [TokenBucket.refill_tNs hsynced] at hlooked
  rw [← hlevel] at htokens
  rw [← htime] at hlooked
  have hone : (1 : ℚ) ≤ weight := by exact_mod_cast hpos
  -- what is left is between 0 and the capacity
  have hrange : b'.InRange := by
    rw [TokenBucket.InRange, htokens]
    exact ⟨le_max_left _ _, max_le cfg.capacity_pos.le (by linarith [hfull.2])⟩
  -- nothing flows in at the same moment
  have hself := TokenBucket.refill_self hlooked
  refine ⟨⟨hrange, hlooked.le⟩, ?_, ?_, ?_, (s.bucket.refill later).tokens, hfull.2,
    TokenBucket.refill_le h.inRange h.synced hl, ?_, ?_⟩
  · show (s.clockNs : ℚ) ≤ later
    exact_mod_cast hl
  · rw [held, hself]
    exact hrange
  · show (0 : ℚ) ≤ weight
    linarith
  · -- there was enough: the tokens fall by the weight
    intro hshort
    rw [decide_eq_false_iff_not, not_lt] at hshort
    rw [held, hself]
    show b'.tokens + (weight : ℚ) ≤ _
    rw [htokens, max_eq_right (sub_nonneg.mpr hshort)]
    linarith
  · -- the tolerance has helped: nothing is left
    intro hshort
    rw [decide_eq_true_iff] at hshort
    rw [held, hself]
    refine ⟨?_, hone, htolerance⟩
    show b'.tokens = 0
    rw [htokens, max_eq_left (sub_nonpos.mpr hshort.le)]

/-- **One call is one step of the meter.** -/
theorem bucket_meters {c : BucketCall} {r : BucketAnswer} (h : s.Sound)
    (hstep : BucketStep s c r s') : s'.Sound ∧ Meters s (drawOf ⟨s, c, r, s'⟩) s' := by
  obtain ⟨elapsed, op⟩ := c
  have hl : s.clockNs ≤ s.clockNs + elapsed := by omega
  have hsynced := h.synced.trans hl
  unfold BucketStep call at hstep
  cases op with
  | tryAcquire weight =>
    simp only at hstep
    split at hstep
    · cases hstep
      exact h.kept hl _
    · rename_i b hb
      cases hstep
      exact h.admitted hl hb b rfl rfl _
    · rename_i b hb
      cases hstep
      rw [TokenBucket.tryAcquire_false hb]
      exact h.looked hl _
  | acquire weight =>
    simp only at hstep
    split at hstep
    · cases hstep
      exact h.kept hl _
    · cases hstep
      exact h.kept hl _
  | turn pause =>
    simp only [turn] at hstep
    split at hstep
    · cases hstep
      exact h.kept hl _
    · split at hstep
      · cases hstep
        exact h.kept hl _
      · rename_i b hb
        cases hstep
        exact h.admitted hl hb _ (by rfl) (by rfl) _
      -- refused: the task sleeps, and looks at the bucket once more when it wakes up
      · rename_i b hb
        have hpause : s.clockNs + elapsed ≤ s.clockNs + elapsed + pause := by omega
        have hall := hl.trans hpause
        have hrange := TokenBucket.refill_inRange h.inRange hsynced
        have htime := TokenBucket.refill_tNs hsynced
        obtain rfl := TokenBucket.tryAcquire_false hb
        split at hstep
        · cases hstep
          exact h.idle hall hrange (htime.le.trans hpause)
            (TokenBucket.refill_refill_le h.inRange hsynced hpause) _
        · rename_i t b' hb'
          cases hstep
          obtain rfl := TokenBucket.waitTime_ok hb'
          have htime' := htime.le.trans hpause
          exact h.lowered hall _ (TokenBucket.refill_inRange hrange htime')
            (TokenBucket.refill_tNs htime')
            (TokenBucket.refill_refill_le h.inRange hsynced hpause) _
  | observeUsedWeight used limit =>
    cases hstep
    have hrange := TokenBucket.refill_inRange h.inRange hsynced
    have hle : (s.bucket.observeUsedWeight used limit (s.clockNs + elapsed)).tokens ≤
        (s.bucket.refill (s.clockNs + elapsed)).tokens := max_le hrange.1 (min_le_left _ _)
    exact h.lowered hl (s.bucket.observeUsedWeight used limit _)
      ⟨le_max_left _ _, hle.trans hrange.2⟩ (TokenBucket.refill_tNs hsynced) hle _
  | drain =>
    cases hstep
    have hle : (s.bucket.drain (s.clockNs + elapsed)).tokens ≤
        (s.bucket.refill (s.clockNs + elapsed)).tokens :=
      (TokenBucket.refill_inRange h.inRange hsynced).1
    exact h.lowered hl (s.bucket.drain _) ⟨le_rfl, cfg.capacity_pos.le⟩
      (TokenBucket.refill_tNs hsynced) hle _
  | tokens =>
    cases hstep
    exact h.looked hl _
  | waitTime weight =>
    simp only at hstep
    split at hstep
    · cases hstep
      exact h.kept hl _
    · rename_i t b hb
      cases hstep
      rw [TokenBucket.waitTime_ok hb]
      exact h.looked hl _

end BucketState

/-! ### The law -/

section Law

variable {cfg : BucketConfig}

/-- The log of the meter behind a bucket. -/
def heldLog (log : BucketLog cfg) : MeterLog ℚ :=
  log.map fun e => ⟨e.before.held, BucketState.drawOf e, (), e.after.held⟩

/-- The admissions of a window that the tolerance has let through. -/
def tolerancesIn (a b : ℤ) (log : BucketLog cfg) : ℕ := shortIn (a : ℚ) b (heldLog log)

/-- What the meter has given in a window is what the bucket has admitted there. -/
theorem costIn_heldLog (a b : ℤ) (log : BucketLog cfg) :
    costIn (a : ℚ) b (heldLog log) = admittedIn a b log := by
  induction log with
  | nil => rfl
  | cons e log ih =>
    have hcost : (BucketState.drawOf e).cost = e.answer.weight := by
      unfold BucketState.drawOf BucketAnswer.weight
      split
      · rfl
      · simp
    have hwithin : Entry.within (a : ℚ) b ⟨e.before.held, BucketState.drawOf e, (), e.after.held⟩ ↔
        a ≤ e.after.clockNs ∧ e.after.clockNs ≤ b := by
      simp [Entry.within, BucketState.held]
    unfold costIn admittedIn heldLog at ih ⊢
    simp only [List.map_cons, List.sum_cons, Int.cast_add, ih, hwithin, hcost]
    split
    · rfl
    · simp

/-- A bucket for the exchange has half of the limit, and the rest comes within a minute. -/
theorem binanceRequestBucket_eq_ok {limitPerMin startNs : ℤ} {b : TokenBucket cfg}
    (h : binanceRequestBucket limitPerMin startNs = .ok ⟨cfg, b⟩) :
    cfg.capacity = limitPerMin / 2 ∧ cfg.refillPerS = limitPerMin / 2 / 60 ∧
      b = .new cfg none startNs := by
  obtain ⟨cfg', hmake, h⟩ := bind_eq_ok.mp h
  cases h
  unfold BucketConfig.make at hmake
  split at hmake
  · cases hmake
    exact ⟨rfl, rfl, rfl⟩
  · cases hmake

/-- The largest limit for which the tolerances of a minute stay below one request. -/
def maxExactLimit : ℤ := 1999999996

/-- **The budget of requests.** However the calls come, with any weights and any clock that does
    not go back: the tokens stay between zero and the capacity, and no sixty seconds, ends
    included, admit more than the limit and the tolerance of each admission that needed it.  They
    stay within the limit while fewer than a billion admissions need it, and that is so in every
    run up to a limit of `maxExactLimit`. -/
theorem request_budget (limitPerMin startNs : ℤ) {b : TokenBucket cfg}
    (hb : binanceRequestBucket limitPerMin startNs = .ok ⟨cfg, b⟩) {s : BucketState cfg}
    {log : BucketLog cfg} (h : Run BucketStep ⟨b, startNs, []⟩ s log) :
    (0 ≤ s.bucket.tokens ∧ s.bucket.tokens ≤ cfg.capacity) ∧
    (∀ a, (admittedIn a (a + 60 * nsPerSec) log : ℚ) ≤
      limitPerMin + bucketEps * tolerancesIn a (a + 60 * nsPerSec) log) ∧
    (∀ a, tolerancesIn a (a + 60 * nsPerSec) log < 1000000000 →
      admittedIn a (a + 60 * nsPerSec) log ≤ limitPerMin) ∧
    (limitPerMin ≤ maxExactLimit → ∀ a,
      tolerancesIn a (a + 60 * nsPerSec) log < 1000000000 ∧
        admittedIn a (a + 60 * nsPerSec) log ≤ limitPerMin) := by
  obtain ⟨hcap, hrefill, rfl⟩ := binanceRequestBucket_eq_ok hb
  let init : BucketState cfg := ⟨.new cfg none startNs, startNs, []⟩
  have hinit : init.Sound := ⟨⟨cfg.capacity_pos.le, le_rfl⟩, le_rfl⟩
  obtain ⟨hsound, hrun⟩ := h.simulates BucketState.Sound BucketState.held
    (fun e => (BucketState.drawOf e, ())) hinit fun _ _ _ _ => BucketState.bucket_meters
  have hfull : 0 ≤ init.held.level ∧ init.held.level ≤ cfg.capacity :=
    TokenBucket.refill_inRange hinit.inRange hinit.synced
  have hρ := (TokenBucket.rate_pos cfg).le
  -- the refill of sixty seconds is the other half of the limit
  have hminute (a : ℤ) : TokenBucket.rate cfg * (((a + 60 * nsPerSec : ℤ) : ℚ) - a) =
      limitPerMin / 2 := by
    rw [TokenBucket.rate, hrefill]
    push_cast [nsPerSec]
    ring
  have hwindow (a : ℤ) : (a : ℚ) ≤ ((a + 60 * nsPerSec : ℤ) : ℚ) := by
    have hle : a ≤ a + 60 * nsPerSec := by
      rw [nsPerSec]
      omega
    exact_mod_cast hle
  have hadmitted (a : ℤ) : (admittedIn a (a + 60 * nsPerSec) log : ℚ) ≤
      limitPerMin + bucketEps * tolerancesIn a (a + 60 * nsPerSec) log := by
    have hcost := hrun.cost_window hρ (hwindow a) hfull
    rw [hminute, hcap] at hcost
    rw [← costIn_heldLog]
    refine hcost.trans (le_of_eq ?_)
    show (limitPerMin : ℚ) / 2 + limitPerMin / 2 + _ = _
    rw [add_halves]
    rfl
  have hfew (a : ℤ) (hcount : tolerancesIn a (a + 60 * nsPerSec) log < 1000000000) :
      admittedIn a (a + 60 * nsPerSec) log ≤ limitPerMin := by
    have hcast : (tolerancesIn a (a + 60 * nsPerSec) log : ℚ) < 1000000000 := by
      exact_mod_cast hcount
    have hlt : (admittedIn a (a + 60 * nsPerSec) log : ℚ) < limitPerMin + 1 := by
      have hle := hadmitted a
      rw [bucketEps] at hle
      linarith
    exact Int.lt_add_one_iff.mp (by exact_mod_cast hlt)
  refine ⟨hsound.inRange, hadmitted, hfew, ?_⟩
  intro hlimit a
  have hexact : (limitPerMin : ℚ) ≤ 1999999996 := by exact_mod_cast hlimit
  have hcount : tolerancesIn a (a + 60 * nsPerSec) log < 1000000000 := by
    rcases hrun.short_window hρ (hwindow a) hfull with hnone | hshort
    · have hzero : tolerancesIn a (a + 60 * nsPerSec) log = 0 := hnone
      omega
    · -- each of them but the first has waited for nearly a token
      rw [hminute] at hshort
      change ((tolerancesIn a (a + 60 * nsPerSec) log : ℚ) - 1) * (1 - bucketEps) ≤ _ at hshort
      norm_num [bucketEps] at hshort
      have hcast : (tolerancesIn a (a + 60 * nsPerSec) log : ℚ) < 1000000000 := by linarith
      exact_mod_cast hcast
  exact ⟨hcount, hfew a hcount⟩

end Law

/-- The bucket for a limit of 100: a nanosecond before its next token is full the tolerance
    admits a request for it. -/
def smallConfig : BucketConfig := ⟨100 / 2, 100 / 2 / 60, by norm_num, by norm_num⟩

/-- All that is there, one token a nanosecond early, and an `acquire` that has to sleep for its
    two. -/
def smallCalls : List BucketCall :=
  [⟨0, .tryAcquire 50⟩, ⟨1199999999, .tryAcquire 1⟩, ⟨0, .acquire 2⟩, ⟨0, .turn 0⟩,
    ⟨2400000000, .turn 0⟩]

/-- Three requests of a weight of 53 together go through, one of them on the tolerance. -/
theorem request_budget_sample :
    ∃ cfg b, ∃ s : BucketState cfg, ∃ log, binanceRequestBucket 100 0 = .ok ⟨cfg, b⟩ ∧
      Run BucketStep ⟨b, 0, []⟩ s log ∧ admittedIn 0 (0 + 60 * nsPerSec) log = 53 ∧
      tolerancesIn 0 (0 + 60 * nsPerSec) log = 1 ∧ 0 ≤ s.bucket.tokens ∧
      admittedIn 0 (0 + 60 * nsPerSec) log ≤ 100 := by
  have hb : binanceRequestBucket 100 0 = .ok ⟨smallConfig, .new smallConfig none 0⟩ := by
    show (BucketConfig.make _ _ >>= _) = _
    rw [BucketConfig.make, dif_pos (by norm_num)]
    rfl
  let init : BucketState smallConfig := ⟨.new smallConfig none 0, 0, []⟩
  have hrun : Run BucketStep init (exec BucketState.call init smallCalls).1
      (exec BucketState.call init smallCalls).2 := Run.exec BucketState.call init smallCalls
  have hlaw := request_budget 100 0 hb hrun
  refine ⟨smallConfig, _, _, _, hb, hrun, ?_, ?_, hlaw.1.1, (hlaw.2.2.2 (by decide) 0).2⟩
  · decide +kernel
  · decide +kernel

/-! ### Where the tolerance adds up -/

/-- The bucket for a limit of 1999999998: its refill of sixty nanoseconds is one token, less the
    tolerance. -/
def tightConfig : BucketConfig :=
  ⟨1999999998 / 2, 1999999998 / 2 / 60, by norm_num, by norm_num⟩

/-- The bucket is empty after the first burst and `n` single requests, sixty nanoseconds apart. -/
def spentState (n : ℕ) : BucketState tightConfig where
  bucket := ⟨0, 60 * n, 0, 999999999 + n⟩
  clockNs := 60 * n
  waiting := []

/-- A minute later the bucket of the sample has one token, but for the tolerance. -/
theorem spentState_refill (n : ℕ) : (spentState n).bucket.refill (60 * n + (60 : ℕ)) =
    ⟨999999999 / 1000000000, 60 * n + (60 : ℕ), 0, 999999999 + n⟩ := by
  have hlt : (spentState n).bucket.tNs < 60 * n + (60 : ℕ) := by
    show (60 * n : ℤ) < _
    omega
  have htokens : min (1999999998 / 2 : ℚ) (0 + (((60 * n + (60 : ℕ) : ℤ) : ℚ) -
      ((60 * n : ℤ) : ℚ)) * (1999999998 / 2 / 60) / (nsPerSec : ℤ)) = 999999999 / 1000000000 := by
    push_cast [nsPerSec]
    norm_num
  rw [TokenBucket.refill, if_pos hlt, ← htokens]
  rfl

/-- Each request of the sample is admitted within the tolerance. -/
theorem spentState_call (n : ℕ) :
    (spentState n).call ⟨60, .tryAcquire 1⟩ = (.admitted 1, spentState (n + 1)) := by
  have hcheck : checkWeight tightConfig 1 = .ok () := by
    norm_num [checkWeight, tightConfig]
  have hacquire : (spentState n).bucket.tryAcquire 1 (60 * n + (60 : ℕ)) =
      .ok (true, (spentState (n + 1)).bucket) := by
    simp only [TokenBucket.tryAcquire, hcheck, spentState_refill]
    show (if ((1 : ℤ) : ℚ) ≤ 999999999 / 1000000000 + bucketEps then _ else _) = _
    rw [if_pos (by norm_num [bucketEps])]
    norm_num [spentState, pure, Except.pure]
    omega
  have hclock : (spentState n).clockNs + ((60 : ℕ) : ℤ) = 60 * n + (60 : ℕ) := rfl
  simp only [BucketState.call, hclock, hacquire]
  simp [spentState]
  omega

/-- A burst of all that is there, and then a request whenever the tolerance lets one through. -/
theorem spentState_run (n : ℕ) :
    ∃ log, Run BucketStep (⟨.new tightConfig none 0, 0, []⟩ : BucketState tightConfig)
        (spentState n) log ∧
      (n ≤ 1000000000 → admittedIn 0 (60 * nsPerSec) log = 999999999 + n) := by
  -- by induction on the calls after the first one, which empties the bucket
  induction n with
  | zero =>
    let init : BucketState tightConfig := ⟨.new tightConfig none 0, 0, []⟩
    have hcall : init.call ⟨0, .tryAcquire 999999999⟩ = (.admitted 999999999, spentState 0) := by
      norm_num [init, tightConfig, BucketState.call, TokenBucket.tryAcquire, checkWeight,
        bucketEps, TokenBucket.refill, TokenBucket.new, spentState, bind, Except.bind, pure,
        Except.pure]
    refine ⟨_, Run.nil.snoc hcall, ?_⟩
    intro _
    simp [admittedIn, BucketAnswer.weight, spentState, nsPerSec]
  | succ n ih =>
    obtain ⟨log, hrun, hsum⟩ := ih
    refine ⟨_, hrun.snoc (spentState_call n), ?_⟩
    intro hn
    -- each call is within the minute, so its request is counted
    have hlast : (0 : ℤ) ≤ (spentState (n + 1)).clockNs ∧
        (spentState (n + 1)).clockNs ≤ 60 * nsPerSec := by
      show (0 : ℤ) ≤ 60 * (n + 1 : ℕ) ∧ (60 * (n + 1 : ℕ) : ℤ) ≤ 60 * nsPerSec
      rw [nsPerSec]
      omega
    have hold := hsum (by omega)
    unfold admittedIn at hold ⊢
    rw [List.map_append, List.sum_append, hold, List.map_singleton, List.sum_singleton,
      if_pos hlast, BucketAnswer.weight]
    omega

/-- **The tolerance adds up.** With a limit of 1999999998 a minute, a billion admissions on the
    tolerance make sixty seconds admit one more than the limit. -/
theorem tolerance_adds_up :
    ∃ cfg b, ∃ s : BucketState cfg, ∃ log, binanceRequestBucket 1999999998 0 = .ok ⟨cfg, b⟩ ∧
      Run BucketStep ⟨b, 0, []⟩ s log ∧
      ¬ admittedIn 0 (0 + 60 * nsPerSec) log ≤ 1999999998 := by
  obtain ⟨log, hrun, hsum⟩ := spentState_run 1000000000
  refine ⟨tightConfig, _, _, log, ?_, hrun, ?_⟩
  · show (BucketConfig.make _ _ >>= _) = _
    rw [BucketConfig.make, dif_pos (by norm_num)]
    rfl
  · rw [zero_add, hsum le_rfl]
    omega

end FuzzHelm
