import FuzzHelm.Core.Enums
import FuzzHelm.Lib.Dict
import FuzzHelm.Lib.Expiry
import Mathlib.Algebra.Order.Group.Defs
import Mathlib.Data.Finset.Card
import Mathlib.Data.Rat.Defs

namespace FuzzHelm

open Lib

/-!
# The limiter of logins

Failed logins are counted for each key, an address or a login, over a sliding window; a
successful login clears the key of the login.

* `LoginLimits` — what the constructor fixes, and its check;
* `Fails` — the failures that are kept, with `prune`, `retryAfterS`, `recordFailure` and `reset`;
* `failuresSince` — the complete log: the failures of a key since its last reset;
* `requiredWait` — the wait that the log asks for;
* `Mirrors.step` — pruning loses nothing that counts;
* `sliding_window_exact` — the limiter answers as the log does.
-/

/-! ### The limiter -/

variable {K : Type*}

/-- What the constructor fixes; times are in seconds. -/
structure LoginLimits (K : Type*) [AddCommGroup K] [LinearOrder K] where
  maxFailures : ℤ
  windowS : K
  maxKeys : ℤ
  maxFailures_pos : 0 < maxFailures
  windowS_pos : 0 < windowS

/-- The check of the constructor. -/
def LoginLimits.make [AddCommGroup K] [LinearOrder K] (maxFailures : ℤ) (windowS : K)
    (maxKeys : ℤ) : Except PyError (LoginLimits K) :=
  if h : 0 < maxFailures ∧ 0 < windowS then .ok ⟨maxFailures, windowS, maxKeys, h.1, h.2⟩
  else .error (.valueError "max_failures and window_s must be > 0")

namespace LoginRateLimiter

/-- `_fails`: for each key the times of its failures, oldest first. -/
abbrev Fails (K : Type*) := Dict String (List K)

/-- What is kept for a key. -/
def Fails.kept (fails : Fails K) (key : String) : List K := (fails.get? key).getD []

section Limiter

variable [AddCommGroup K] [LinearOrder K]

/-- The failure at `t` is in the window. -/
def inWindow (cfg : LoginLimits K) (now t : K) : Bool := now - t < cfg.windowS

/-- `_prune`: the failures of a key that are still in the window; a key without any goes. -/
def prune (cfg : LoginLimits K) (now : K) (key : String) (fails : Fails K) : List K × Fails K :=
  match fails.get? key with
  | none => ([], fails)
  | some q =>
    let q := q.dropWhile fun t => !inWindow cfg now t
    if q = [] then (q, fails.erase key) else (q, fails.insert key q)

/-- The wait after one more key, whose failures in the window are `q`. -/
def waitFor (cfg : LoginLimits K) (now wait : K) (q : List K) : K :=
  if cfg.maxFailures ≤ q.length then
    match q with
    -- the limit is positive, so that there is an oldest failure
    | [] => wait
    | oldest :: _ => max wait (cfg.windowS - (now - oldest))
  else wait

/-- One key of a query: the wait so far and what is kept. -/
def queryKey (cfg : LoginLimits K) (now : K) (s : K × Fails K) (key : String) : K × Fails K :=
  let pruned := prune cfg now key s.2
  (waitFor cfg now s.1 pruned.1, pruned.2)

/-- `retry_after_s`, with the reading of the clock: zero, or the seconds to wait. -/
def retryAfterS (cfg : LoginLimits K) (now : K) (keys : List String) (fails : Fails K) :
    K × Fails K :=
  keys.foldl (queryKey cfg now) (0, fails)

/-- `list(fails)[: n]` are dropped. -/
def Fails.evict (fails : Fails K) (n : ℤ) : Fails K :=
  fails.drop (if 0 ≤ n then n.toNat else (fails.entries.length + n).toNat)

/-- `setdefault(key, deque()).append(now)`: the failure goes behind those of its key. -/
def appendFailure (now : K) (fails : Fails K) (key : String) : Fails K :=
  fails.insert key (fails.kept key ++ [now])

/-- `record_failure`, with the reading of the clock. -/
def recordFailure (cfg : LoginLimits K) (now : K) (keys : List String) (fails : Fails K) :
    Fails K :=
  let fails :=
    if cfg.maxKeys ≤ fails.entries.length then fails.evict (cfg.maxKeys / 10) else fails
  keys.foldl (appendFailure now) fails

/-- `reset`: a login that succeeds forgets the failures of its key. -/
def reset (key : String) (fails : Fails K) : Fails K := fails.erase key

/-- A call, with the reading of the clock where it takes one. -/
inductive LimiterCall (K : Type*) where
  | retryAfterS (now : K) (keys : List String)
  | recordFailure (now : K) (keys : List String)
  | reset (key : String)

namespace LimiterCall

/-- The reading of the clock. -/
def reading : LimiterCall K → Option K
  | retryAfterS now _ | recordFailure now _ => some now
  | reset _ => none

/-- The keys that fail. -/
def failed : LimiterCall K → List String
  | recordFailure _ keys => keys
  | _ => []

/-- What the call leaves. -/
def step (cfg : LoginLimits K) (fails : Fails K) : LimiterCall K → Fails K
  | retryAfterS now keys => (LoginRateLimiter.retryAfterS cfg now keys fails).2
  | recordFailure now keys => LoginRateLimiter.recordFailure cfg now keys fails
  | reset key => LoginRateLimiter.reset key fails

end LimiterCall

/-- A new limiter after some calls. -/
def limiterRun (cfg : LoginLimits K) (calls : List (LimiterCall K)) : Fails K :=
  calls.foldl (LimiterCall.step cfg) ∅

/-! ### The complete log -/

/-- One call in the log of a key. -/
def logStep (key : String) (log : List K) : LimiterCall K → List K
  | .retryAfterS _ _ => log
  | .recordFailure now keys => log ++ List.replicate (keys.count key) now
  | .reset key' => if key' = key then [] else log

/-- All failures of a key since its last reset, nothing pruned. -/
def failuresSince (calls : List (LimiterCall K)) (key : String) : List K :=
  calls.foldl (logStep key) []

/-- The wait that the log of one key asks for: from the limit on, until its oldest failure in the
    window leaves it. -/
def keyWait (cfg : LoginLimits K) (now : K) (log : List K) : K :=
  let recent := log.filter (inWindow cfg now)
  if cfg.maxFailures ≤ recent.length then
    (recent.min?).elim 0 fun oldest => cfg.windowS - (now - oldest)
  else 0

/-- The longest wait that one of the keys asks for. -/
def requiredWait (cfg : LoginLimits K) (now : K) (logs : List (List K)) : K :=
  (logs.map (keyWait cfg now)).foldl max 0

end Limiter

/-! ### What is kept -/

/-- Only one key changes when its times do. -/
theorem kept_insert (fails : Fails K) (key : String) (q : List K) (k : String) :
    Fails.kept (fails.insert key q) k = if key = k then q else fails.kept k := by
  rw [Fails.kept, Dict.get?_insert]
  split <;> rfl

/-- A key that is erased keeps no times, and the others keep theirs. -/
theorem kept_erase (fails : Fails K) (key k : String) :
    Fails.kept (fails.erase key) k = if key = k then [] else fails.kept k := by
  rw [Fails.kept, Dict.get?_erase]
  split <;> rfl

/-- A key that is inserted is the only new one. -/
theorem mem_keys_insert {fails : Fails K} {key k : String} {q : List K}
    (h : k ∈ (fails.insert key q).keys) : k = key ∨ k ∈ fails.keys :=
  (Assoc.mem_keys_put fails.entries key q k).mp h

/-- Erasing brings no key. -/
theorem mem_keys_erase {fails : Fails K} {key k : String} (h : k ∈ (fails.erase key).keys) :
    k ∈ fails.keys :=
  ((List.filter_sublist (l := fails.entries)).map Prod.fst).mem h

/-- The keys that failed are kept in the order of their failures; nothing else is. -/
theorem kept_failures (now : K) (keys : List String) (fails : Fails K) (k : String) :
    (keys.foldl (appendFailure now) fails).kept k =
      fails.kept k ++ List.replicate (keys.count k) now := by
  induction keys generalizing fails with
  | nil => simp
  | cons key keys ih =>
    rw [List.foldl_cons, ih, appendFailure, kept_insert]
    by_cases h : key = k
    · subst h
      rw [if_pos rfl, List.count_cons_self, List.append_assoc, List.singleton_append,
        ← List.replicate_succ]
    · rw [if_neg h, List.count_cons_of_ne h]

/-- The failures of an attempt bring no keys but those of the attempt. -/
theorem mem_keys_failures {now : K} {keys : List String} {fails : Fails K} {k : String}
    (h : k ∈ (keys.foldl (appendFailure now) fails).keys) :
    k ∈ keys ∨ k ∈ fails.keys := by
  induction keys generalizing fails with
  | nil => exact .inr h
  | cons key keys ih =>
    rcases ih h with hkeys | hfails
    · exact .inl (List.mem_cons_of_mem key hkeys)
    · rcases mem_keys_insert hfails with rfl | hold
      · exact .inl List.mem_cons_self
      · exact .inr hold

/-! ### Queries -/

section Query

variable [LinearOrder K]

/-- The first entry of an ordered list is its least. -/
theorem min?_cons_of_sorted {t : K} {ts : List K} (h : (t :: ts).Pairwise (· ≤ ·)) :
    (t :: ts).min? = some t := by
  rw [List.min?_eq_some_iff]
  refine ⟨List.mem_cons_self, fun u hu => ?_⟩
  rcases List.mem_cons.mp hu with rfl | hu
  · exact le_rfl
  · exact (List.pairwise_cons.mp h).1 u hu

variable [AddCommGroup K] {cfg : LoginLimits K} {now : K}

/-- One key of a query asks for the wait of its log. -/
theorem waitFor_recent {wait : K} {ts : List K} (hwait : 0 ≤ wait) (h : ts.Pairwise (· ≤ ·)) :
    waitFor cfg now wait (ts.filter (inWindow cfg now)) = max wait (keyWait cfg now ts) := by
  have hrecent := h.filter (inWindow cfg now)
  unfold waitFor keyWait
  by_cases hlimit : cfg.maxFailures ≤ (ts.filter (inWindow cfg now)).length
  · rw [if_pos hlimit]
    simp only [if_pos hlimit]
    cases hts : ts.filter (inWindow cfg now) with
    | nil =>
      -- nobody is over the limit without a failure
      have hpos := cfg.maxFailures_pos
      rw [hts, List.length_nil] at hlimit
      omega
    | cons oldest rest =>
      rw [hts] at hrecent
      rw [min?_cons_of_sorted hrecent, Option.elim_some]
  · rw [if_neg hlimit]
    simp only [if_neg hlimit]
    exact (max_eq_left hwait).symm

/-- Below the limit a key asks for no wait. -/
theorem keyWait_of_lt {ts : List K}
    (h : ((ts.filter (inWindow cfg now)).length : ℤ) < cfg.maxFailures) :
    keyWait cfg now ts = 0 := by
  unfold keyWait
  simp only [if_neg (not_le.mpr h)]

variable [IsOrderedAddMonoid K] {log : String → List K}

/-- A later failure stays in the window for longer. -/
theorem orderly_inWindow (now : K) {ts : List K} (h : ts.Pairwise (· ≤ ·)) :
    Orderly (inWindow cfg now) ts := by
  refine h.imp fun {t u} htu ht => ?_
  simp only [inWindow, decide_eq_true_eq] at ht ⊢
  exact (sub_le_sub_left htu now).trans_lt ht

/-- Pruning a key gives what is in the window, and keeps the answers for all keys. -/
theorem prune_spec {fails : Fails K} (hsorted : ∀ k, (log k).Pairwise (· ≤ ·))
    (hanswers : ∀ k, Answers (inWindow cfg now) (log k) (fails.kept k)) (key : String) :
    (prune cfg now key fails).1 = (log key).filter (inWindow cfg now) ∧
      ∀ k, Answers (inWindow cfg now) (log k) ((prune cfg now key fails).2.kept k) := by
  have hkey := hanswers key
  unfold prune
  cases hget : fails.get? key with
  | none =>
    have hkept : fails.kept key = [] := by rw [Fails.kept, hget, Option.getD_none]
    rw [hkept] at hkey
    exact ⟨hkey.filter, hanswers⟩
  | some q =>
    have hkept : fails.kept key = q := by rw [Fails.kept, hget, Option.getD_some]
    rw [hkept] at hkey
    obtain ⟨hpruned, hq⟩ := hkey.prune (orderly_inWindow now (hsorted key))
    simp only [hq]
    split
    · rename_i hnil
      refine ⟨rfl, fun k => ?_⟩
      rw [kept_erase]
      by_cases hk : key = k
      · subst hk
        rw [if_pos rfl, ← hnil]
        exact hpruned
      · rw [if_neg hk]
        exact hanswers k
    · refine ⟨rfl, fun k => ?_⟩
      rw [kept_insert]
      by_cases hk : key = k
      · subst hk
        rw [if_pos rfl]
        exact hpruned
      · rw [if_neg hk]
        exact hanswers k

/-- **A query.** Its answer is the longest wait that a key asks for. -/
theorem retryAfterS_spec {fails : Fails K} (hsorted : ∀ k, (log k).Pairwise (· ≤ ·))
    (hanswers : ∀ k, Answers (inWindow cfg now) (log k) (fails.kept k)) (keys : List String) :
    (retryAfterS cfg now keys fails).1 = requiredWait cfg now (keys.map log) ∧
      ∀ k, Answers (inWindow cfg now) (log k) ((retryAfterS cfg now keys fails).2.kept k) := by
  have hloop : ∀ (wait : K) (fails : Fails K), 0 ≤ wait →
      (∀ k, Answers (inWindow cfg now) (log k) (fails.kept k)) →
      let s := keys.foldl (queryKey cfg now) (wait, fails)
      s.1 = ((keys.map log).map (keyWait cfg now)).foldl max wait ∧
        ∀ k, Answers (inWindow cfg now) (log k) (s.2.kept k) := by
    induction keys with
    | nil => exact fun wait fails _ hanswers => ⟨rfl, hanswers⟩
    | cons key keys ih =>
      intro wait fails hwait hanswers
      obtain ⟨hq, hpruned⟩ := prune_spec hsorted hanswers key
      simp only [List.foldl_cons, List.map_cons, queryKey]
      rw [hq, waitFor_recent hwait (hsorted key)]
      exact ih _ _ (le_max_of_le_left hwait) hpruned
  exact hloop 0 fails le_rfl hanswers

/-- From the limit on it asks for one: its oldest failure in the window still has to leave it. -/
theorem keyWait_pos {ts : List K}
    (h : cfg.maxFailures ≤ (ts.filter (inWindow cfg now)).length) : 0 < keyWait cfg now ts := by
  unfold keyWait
  simp only [if_pos h]
  cases hmin : (ts.filter (inWindow cfg now)).min? with
  | none =>
    have hpos := cfg.maxFailures_pos
    rw [List.min?_eq_none_iff.mp hmin, List.length_nil] at h
    omega
  | some oldest =>
    have hmem := List.mem_filter.mp (List.min?_mem hmin)
    have hin : now - oldest < cfg.windowS := by simpa [inWindow] using hmem.2
    rw [Option.elim_some]
    exact sub_pos.mpr hin

/-- A wait is not negative. -/
theorem keyWait_nonneg (cfg : LoginLimits K) (now : K) (ts : List K) : 0 ≤ keyWait cfg now ts := by
  by_cases h : cfg.maxFailures ≤ (ts.filter (inWindow cfg now)).length
  · exact (keyWait_pos h).le
  · rw [keyWait_of_lt (not_le.mp h)]

/-- A key need not wait just when it has fewer failures within the window than the bound. -/
theorem keyWait_eq_zero {ts : List K} :
    keyWait cfg now ts = 0 ↔ ((ts.filter (inWindow cfg now)).length : ℤ) < cfg.maxFailures := by
  refine ⟨fun hzero => ?_, keyWait_of_lt⟩
  by_contra h
  exact (keyWait_pos (not_lt.mp h)).ne' hzero

/-- Nobody waits exactly when no key asks for a wait. -/
theorem requiredWait_eq_zero {logs : List (List K)} :
    requiredWait cfg now logs = 0 ↔ ∀ ts ∈ logs, keyWait cfg now ts = 0 := by
  have hmax : ∀ wait : K, 0 ≤ wait →
      ((logs.map (keyWait cfg now)).foldl max wait = 0 ↔
        wait = 0 ∧ ∀ ts ∈ logs, keyWait cfg now ts = 0) := by
    induction logs with
    | nil => simp
    | cons ts logs ih =>
      intro wait hwait
      have hts := keyWait_nonneg cfg now ts
      rw [List.map_cons, List.foldl_cons, ih _ (le_max_of_le_left hwait), List.forall_mem_cons,
        ← and_assoc]
      refine and_congr_left fun _ => ?_
      constructor
      · intro h
        exact ⟨le_antisymm (h ▸ le_max_left _ _) hwait, le_antisymm (h ▸ le_max_right _ _) hts⟩
      · rintro ⟨h, h'⟩
        rw [h, h', max_self]
  rw [requiredWait, hmax 0 le_rfl]
  simp

end Query

section Keys

variable [AddCommGroup K] [LinearOrder K] {cfg : LoginLimits K} {now : K} {k : String}

/-- Pruning brings no key. -/
theorem mem_keys_prune {key : String} {fails : Fails K}
    (h : k ∈ (prune cfg now key fails).2.keys) : k ∈ fails.keys := by
  unfold prune at h
  cases hget : fails.get? key with
  | none =>
    rw [hget] at h
    exact h
  | some q =>
    rw [hget] at h
    simp only at h
    split at h
    · exact mem_keys_erase h
    · rcases mem_keys_insert h with rfl | hold
      · exact List.mem_map_of_mem ((fails.mem_entries_iff k q).mpr hget)
      · exact hold

/-- A query adds no key. -/
theorem mem_keys_query {keys : List String} {s : K × Fails K}
    (h : k ∈ (keys.foldl (queryKey cfg now) s).2.keys) : k ∈ s.2.keys := by
  induction keys generalizing s with
  | nil => exact h
  | cons key keys ih => exact mem_keys_prune (ih h)

end Keys

/-! ### Runs -/

section Runs

variable [AddCommGroup K] [LinearOrder K] {cfg : LoginLimits K} {calls : List (LimiterCall K)}

/-- One more call is one more step. -/
theorem limiterRun_concat (cfg : LoginLimits K) (calls : List (LimiterCall K))
    (c : LimiterCall K) : limiterRun cfg (calls ++ [c]) = c.step cfg (limiterRun cfg calls) := by
  rw [limiterRun, limiterRun, List.foldl_append, List.foldl_cons, List.foldl_nil]

omit [AddCommGroup K] [LinearOrder K] in
/-- One more call enters the complete log of a key once. -/
theorem failuresSince_concat (calls : List (LimiterCall K)) (c : LimiterCall K) (key : String) :
    failuresSince (calls ++ [c]) key = logStep key (failuresSince calls key) c := by
  rw [failuresSince, failuresSince, List.foldl_append, List.foldl_cons, List.foldl_nil]

/-- What is kept answers for the log at every later time; no key is kept that did not fail. -/
structure Mirrors (cfg : LoginLimits K) (calls : List (LimiterCall K)) (fails : Fails K) : Prop
    where
  sorted : ∀ key, (failuresSince calls key).Pairwise (· ≤ ·)
  past : ∀ key, ∀ t ∈ failuresSince calls key, t ∈ calls.filterMap LimiterCall.reading
  answers : ∀ now, (∀ t ∈ calls.filterMap LimiterCall.reading, t ≤ now) → ∀ key,
    Answers (inWindow cfg now) (failuresSince calls key) (fails.kept key)
  keys : ∀ key ∈ fails.keys, key ∈ calls.flatMap LimiterCall.failed

variable {fails : Fails K}

/-- Before any call the limiter and the complete log are empty. -/
theorem mirrors_nil : Mirrors cfg [] ∅ where
  sorted _ := List.Pairwise.nil
  past _ _ ht := by simp [failuresSince] at ht
  answers _ _ _ := Answers.refl []
  keys _ hkey := by simp [Dict.keys, Dict.empty, EmptyCollection.emptyCollection] at hkey

/-- With fewer keys than the bound nothing is evicted. -/
theorem Mirrors.length_lt (h : Mirrors cfg calls fails)
    (hfew : ((calls.flatMap LimiterCall.failed).toFinset.card : ℤ) < cfg.maxKeys) :
    (fails.entries.length : ℤ) < cfg.maxKeys := by
  have hcard : fails.keys.toFinset.card = fails.entries.length := by
    rw [Dict.keys, List.toFinset_card_of_nodup fails.nodup, List.length_map]
  have hsub : fails.keys.toFinset ⊆ (calls.flatMap LimiterCall.failed).toFinset := by
    intro key hkey
    rw [List.mem_toFinset] at hkey ⊢
    exact h.keys key hkey
  have hle := Finset.card_le_card hsub
  omega

/-- The log stays in order, and nothing in it lies in the future. -/
theorem Mirrors.log_step (h : Mirrors cfg calls fails) {c : LimiterCall K}
    (hclock : ∀ t ∈ calls.filterMap LimiterCall.reading, ∀ now ∈ c.reading, t ≤ now)
    (key : String) :
    (failuresSince (calls ++ [c]) key).Pairwise (· ≤ ·) ∧
      ∀ t ∈ failuresSince (calls ++ [c]) key,
        t ∈ (calls ++ [c]).filterMap LimiterCall.reading := by
  -- what was logged is a reading of the clock
  have hpast : ∀ t ∈ failuresSince calls key,
      t ∈ (calls ++ [c]).filterMap LimiterCall.reading := by
    intro t ht
    rw [List.filterMap_append]
    exact List.mem_append_left _ (h.past key t ht)
  rw [failuresSince_concat]
  cases c with
  | retryAfterS now keys => exact ⟨h.sorted key, hpast⟩
  | recordFailure now keys =>
    constructor
    · rw [logStep, List.pairwise_append]
      refine ⟨h.sorted key, ?_, ?_⟩
      · exact List.pairwise_replicate.mpr (.inr le_rfl)
      · intro t ht u hu
        rw [List.eq_of_mem_replicate hu]
        exact hclock t (h.past key t ht) now rfl
    · intro t ht
      rcases List.mem_append.mp ht with ht | ht
      · exact hpast t ht
      · rw [List.eq_of_mem_replicate ht]
        simp [LimiterCall.reading]
  | reset key' =>
    rw [logStep]
    split
    · simp
    · exact ⟨h.sorted key, hpast⟩

/-- Below the bound nothing is evicted. -/
theorem recordFailure_of_lt {now : K} {keys : List String}
    (h : (fails.entries.length : ℤ) < cfg.maxKeys) :
    recordFailure cfg now keys fails = keys.foldl (appendFailure now) fails := by
  rw [recordFailure, if_neg (not_le.mpr h)]

/-- Only a key that fails is added. -/
theorem Mirrors.keys_step (h : Mirrors cfg calls fails) {c : LimiterCall K}
    (hlt : (fails.entries.length : ℤ) < cfg.maxKeys) :
    ∀ key ∈ (c.step cfg fails).keys, key ∈ (calls ++ [c]).flatMap LimiterCall.failed := by
  intro key hkey
  rw [List.flatMap_append, List.mem_append]
  cases c with
  | retryAfterS now keys => exact .inl (h.keys key (mem_keys_query hkey))
  | recordFailure now keys =>
    rw [LimiterCall.step, recordFailure_of_lt hlt] at hkey
    rcases mem_keys_failures hkey with hnew | hold
    · exact .inr (by simpa [LimiterCall.failed] using hnew)
    · exact .inl (h.keys key hold)
  | reset key' => exact .inl (h.keys key (mem_keys_erase hkey))

variable [IsOrderedAddMonoid K]

/-- **One call.** Whatever it is, what is kept still answers for the log. -/
theorem Mirrors.step (h : Mirrors cfg calls fails) {c : LimiterCall K}
    (hclock : ∀ t ∈ calls.filterMap LimiterCall.reading, ∀ now ∈ c.reading, t ≤ now)
    (hlt : (fails.entries.length : ℤ) < cfg.maxKeys) :
    Mirrors cfg (calls ++ [c]) (c.step cfg fails) where
  sorted key := (h.log_step hclock key).1
  past key := (h.log_step hclock key).2
  keys := h.keys_step hlt
  answers now hnow key := by
    simp only [List.filterMap_append, List.forall_mem_append] at hnow
    obtain ⟨hold, hnew⟩ := hnow
    rw [failuresSince_concat]
    cases c with
    | retryAfterS t₀ keys =>
      -- what has left the window by the query does not come back until now
      have hanswers := h.answers t₀ fun t ht => hclock t ht t₀ rfl
      have hat := (retryAfterS_spec h.sorted hanswers keys).2 key
      refine hat.mono fun t ht => ?_
      have hle : t₀ ≤ now := hnew t₀ (by simp [LimiterCall.reading])
      simp only [inWindow, decide_eq_true_eq] at ht ⊢
      exact (sub_le_sub_right hle t).trans_lt ht
    | recordFailure t₀ keys =>
      rw [LimiterCall.step, recordFailure_of_lt hlt, kept_failures, logStep]
      exact (h.answers now hold key).append
    | reset key' =>
      rw [LimiterCall.step, reset, kept_erase, logStep]
      by_cases hk : key' = key
      · rw [if_pos hk, if_pos hk]
        exact Answers.refl []
      · rw [if_neg hk, if_neg hk]
        exact h.answers now hold key

/-- **A run.** -/
theorem mirrors_run (cfg : LoginLimits K) {calls : List (LimiterCall K)}
    (hclock : (calls.filterMap LimiterCall.reading).Pairwise (· ≤ ·))
    (hfew : ((calls.flatMap LimiterCall.failed).toFinset.card : ℤ) < cfg.maxKeys) :
    Mirrors cfg calls (limiterRun cfg calls) := by
  induction calls using List.reverseRecOn with
  | nil => exact mirrors_nil
  | append_singleton calls c ih =>
    rw [List.filterMap_append, List.pairwise_append] at hclock
    rw [List.flatMap_append, List.toFinset_append] at hfew
    have hsub : (calls.flatMap LimiterCall.failed).toFinset ⊆
        (calls.flatMap LimiterCall.failed).toFinset ∪ ([c].flatMap LimiterCall.failed).toFinset :=
      Finset.subset_union_left
    have hle := Finset.card_le_card hsub
    have hfew' : ((calls.flatMap LimiterCall.failed).toFinset.card : ℤ) < cfg.maxKeys := by omega
    have hrun := ih hclock.1 hfew'
    rw [limiterRun_concat]
    apply hrun.step _ (hrun.length_lt hfew')
    intro t ht now hnow
    have hreading : now ∈ [c].filterMap LimiterCall.reading :=
      List.mem_filterMap.mpr ⟨c, List.mem_singleton_self c, hnow⟩
    exact hclock.2.2 t ht now hreading

/-- **Exactness.** Under a clock that does not go back and with fewer keys than the bound, the
    limiter answers what the complete log asks for: nothing exactly when every key has fewer
    failures in the window than the limit, and otherwise the longest time until the oldest
    failure in the window of a key at the limit leaves it. -/
theorem sliding_window_exact (cfg : LoginLimits K) (calls : List (LimiterCall K)) (now : K)
    (keys : List String)
    (hclock : (calls.filterMap LimiterCall.reading ++ [now]).Pairwise (· ≤ ·))
    (hfew : ((calls.flatMap LimiterCall.failed).toFinset.card : ℤ) < cfg.maxKeys) :
    (retryAfterS cfg now keys (limiterRun cfg calls)).1 =
        requiredWait cfg now (keys.map (failuresSince calls)) ∧
      ((retryAfterS cfg now keys (limiterRun cfg calls)).1 = 0 ↔ ∀ key ∈ keys,
        (((failuresSince calls key).filter (inWindow cfg now)).length : ℤ) < cfg.maxFailures) := by
  rw [List.pairwise_append] at hclock
  have hrun := mirrors_run cfg hclock.1 hfew
  have hanswers := hrun.answers now fun t ht => hclock.2.2 t ht now (by simp)
  have hwait := (retryAfterS_spec hrun.sorted hanswers keys).1
  refine ⟨hwait, ?_⟩
  rw [hwait, requiredWait_eq_zero]
  simp only [List.forall_mem_map, keyWait_eq_zero]

/-- The second failure of the address blocks it until the first one leaves the window; the login
    has been reset. -/
theorem sliding_window_exact_blocked :
    let cfg : LoginLimits ℚ := ⟨2, 60, 10, by decide, by decide⟩
    let calls : List (LimiterCall ℚ) := [.recordFailure 0 ["ip", "login"],
      .recordFailure 20 ["ip", "login"], .retryAfterS 20 ["ip"], .reset "login"]
    (retryAfterS cfg 59 ["login", "ip"] (limiterRun cfg calls)).1 = 1 := by
  intro cfg calls
  have hexact := (sliding_window_exact cfg calls 59 ["login", "ip"]
    (by decide +kernel) (by decide +kernel)).1
  rw [hexact]
  decide +kernel

end Runs

end LoginRateLimiter

end FuzzHelm
