import FuzzHelm.Features.RollingBatch
import FuzzHelm.Lib.Expiry
import Mathlib.Data.List.Sort

namespace FuzzHelm

open Lib

/-!
# What the indicators keep

The state of each indicator after a sequence of values, as far as its next value depends on it.

* `EMA.Counts`, `WilderATR.Counts`, `WilderRSI.Counts` — a recurrent filter has a value from its
  period on;
* `Parkinson.Tracks` — the moving sum is the sum of the window;
* `PercentileRank.Tracks` — the sorted list is the window in order, and the rank is the share of
  the window up to the last value;
* `MonotonicDeque.Tracks` — the entries are those of the window that no later one beats, and
  the first of them is the maximum of the window.
-/

set_option linter.unusedSectionVars false

variable {K : Type*} [Field K] [LinearOrder K]

/-! ### Recurrent filters -/

/-- The average after `k` values. -/
structure EMA.Counts (n : ℕ) (e : EMA K) (k : ℕ) : Prop where
  size : e.n = n
  pos : 0 < n
  count : e.count = min k n
  value : e.value.isSome ↔ n ≤ k

/-- A new filter has counted nothing. -/
theorem EMA.Counts.new {n : ℕ} {e : EMA K} (h : EMA.new n = .ok e) : EMA.Counts n e 0 := by
  unfold EMA.new at h
  split_ifs at h with hn
  cases h
  refine ⟨rfl, hn, (Nat.zero_min n).symm, ?_⟩
  simp only [Option.isSome_none, Bool.false_eq_true, false_iff]
  omega

/-- **Step lemma**: the filter answers from its `n`-th value on. -/
theorem EMA.Counts.update {n k : ℕ} {e : EMA K} (h : EMA.Counts n e k) (x : K) :
    EMA.Counts n (e.update x).2 (k + 1) ∧ ((e.update x).1.isSome ↔ n ≤ k + 1) := by
  obtain ⟨hsize, hpos, hcount, hvalue⟩ := h
  unfold EMA.update
  cases hv : e.value with
  | some v =>
    rw [hv] at hvalue
    have hle : n ≤ k := hvalue.mp rfl
    exact ⟨⟨hsize, hpos, by show e.count = _; omega, by simp; omega⟩, by simp; omega⟩
  | none =>
    rw [hv] at hvalue
    have hlt : ¬n ≤ k := fun hle => by simpa using hvalue.mpr hle
    by_cases hfull : e.count + 1 = e.n
    · dsimp only
      rw [if_pos hfull]
      exact ⟨⟨hsize, hpos, by show e.count + 1 = _; omega, by simp; omega⟩, by simp; omega⟩
    · dsimp only
      rw [if_neg hfull]
      exact ⟨⟨hsize, hpos, by show e.count + 1 = _; omega, by simp; omega⟩,
        by simp; omega⟩

/-- The range after `k` bars: the first bar has no range yet. -/
structure WilderATR.Counts (n : ℕ) (a : WilderATR K) (k : ℕ) : Prop where
  size : a.n = n
  pos : 0 < n
  prev : a.prevClose.isSome ↔ 0 < k
  count : a.count = min (k - 1) n
  value : a.value.isSome ↔ n + 1 ≤ k

/-- A new filter has counted nothing. -/
theorem WilderATR.Counts.new {n : ℕ} {a : WilderATR K} (h : WilderATR.new n = .ok a) :
    WilderATR.Counts n a 0 := by
  unfold WilderATR.new at h
  split_ifs at h with hn
  cases h
  exact ⟨rfl, hn, by simp, by simp, by simp⟩

/-- **Step lemma**: the range answers from bar `n + 1` on, since the first bar only leaves its
    close. -/
theorem WilderATR.Counts.update {n k : ℕ} {a : WilderATR K} (h : WilderATR.Counts n a k)
    (hi lo c : K) :
    WilderATR.Counts n (a.update hi lo c).2 (k + 1) ∧
      ((a.update hi lo c).1.isSome ↔ n + 1 ≤ k + 1) := by
  obtain ⟨hsize, hpos, hprev, hcount, hvalue⟩ := h
  unfold WilderATR.update
  cases hp : a.prevClose with
  -- no close before this bar: only the previous close is set
  | none =>
    have hk : k = 0 := by
      rw [hp] at hprev
      by_contra hk
      simpa using hprev.mpr (by omega)
    subst hk
    have hv : a.value = none := by
      rw [← Option.not_isSome_iff_eq_none, hvalue]
      omega
    exact ⟨⟨hsize, hpos, by simp, by show a.count = _; omega, by simp [hv]; omega⟩, by simp; omega⟩
  | some pc =>
    have hk : 0 < k := by
      rw [hp] at hprev
      exact hprev.mp rfl
    -- the average is published already, or this is one of the first `n` true ranges
    cases hv : a.value with
    | some v =>
      rw [hv] at hvalue
      have hle : n + 1 ≤ k := hvalue.mp rfl
      exact ⟨⟨hsize, hpos, by simp, by show a.count = _; omega, by simp; omega⟩, by simp; omega⟩
    | none =>
      rw [hv] at hvalue
      have hlt : ¬n + 1 ≤ k := fun hle => by simpa using hvalue.mpr hle
      dsimp only
      -- the `n`-th true range publishes their mean
      by_cases hfull : a.count + 1 = a.n
      · rw [if_pos hfull]
        exact ⟨⟨hsize, hpos, by simp, by show a.count + 1 = _; omega, by simp; omega⟩,
          by simp; omega⟩
      · rw [if_neg hfull]
        exact ⟨⟨hsize, hpos, by simp, by show a.count + 1 = _; omega, by simp; omega⟩,
          by simp; omega⟩

/-- The index after `k` closes: the first close has no change yet. -/
structure WilderRSI.Counts (n : ℕ) (r : WilderRSI K) (k : ℕ) : Prop where
  size : r.n = n
  pos : 0 < n
  prev : r.prev.isSome ↔ 0 < k
  count : r.count = min (k - 1) n
  value : r.value.isSome ↔ n + 1 ≤ k

/-- A new filter has counted nothing. -/
theorem WilderRSI.Counts.new {n : ℕ} {r : WilderRSI K} (h : WilderRSI.new n = .ok r) :
    WilderRSI.Counts n r 0 := by
  unfold WilderRSI.new at h
  split_ifs at h with hn
  cases h
  exact ⟨rfl, hn, by simp, by simp, by simp⟩

/-- **Step lemma**: the index answers from close `n + 1` on, since the first one only leaves itself.
    -/
theorem WilderRSI.Counts.update {n k : ℕ} {r : WilderRSI K} (h : WilderRSI.Counts n r k) (c : K) :
    WilderRSI.Counts n (r.update c).2 (k + 1) ∧ ((r.update c).1.isSome ↔ n + 1 ≤ k + 1) := by
  obtain ⟨hsize, hpos, hprev, hcount, hvalue⟩ := h
  unfold WilderRSI.update
  cases hp : r.prev with
  -- the first close gives no difference
  | none =>
    have hk : k = 0 := by
      rw [hp] at hprev
      by_contra hk
      simpa using hprev.mpr (by omega)
    subst hk
    have hv : r.value = none := by
      rw [← Option.not_isSome_iff_eq_none, hvalue]
      omega
    exact ⟨⟨hsize, hpos, by simp, by show r.count = _; omega, by simp [hv]; omega⟩, by simp; omega⟩
  | some prev =>
    have hk : 0 < k := by
      rw [hp] at hprev
      exact hprev.mp rfl
    -- the averages are published already, or this is one of the first `n` differences
    cases hv : r.value with
    | some v =>
      rw [hv] at hvalue
      have hle : n + 1 ≤ k := hvalue.mp rfl
      exact ⟨⟨hsize, hpos, by simp [publish], by show r.count = _; omega, by simp [publish]; omega⟩,
        by simp [publish]; omega⟩
    | none =>
      rw [hv] at hvalue
      have hlt : ¬n + 1 ≤ k := fun hle => by simpa using hvalue.mpr hle
      dsimp only
      by_cases hshort : r.count + 1 < r.n
      · rw [if_pos hshort]
        exact ⟨⟨hsize, hpos, by simp, by show r.count + 1 = _; omega, by simp; omega⟩,
          by simp; omega⟩
      · rw [if_neg hshort]
        exact ⟨⟨hsize, hpos, by simp [publish], by show r.count + 1 = _; omega,
          by simp [publish]; omega⟩, by simp [publish]; omega⟩

/-! ### The volatility of the ranges -/

/-- The volatility after the squared ranges `qs`. -/
structure Parkinson.Tracks (n : ℕ) (p : Parkinson K) (qs : List K) : Prop where
  size : p.w = n
  pos : 0 < n
  holds : p.buf.Holds n 0 qs
  sum : p.sum = (qs.rtake n).sum

/-- A new window has no ranges. -/
theorem Parkinson.Tracks.new {n : ℕ} {r : ℤ} {p : Parkinson K} (h : Parkinson.new n r = .ok p) :
    Parkinson.Tracks n p [] := by
  unfold Parkinson.new at h
  split_ifs at h with hn
  cases h
  exact ⟨rfl, hn, .new hn, by simp⟩

/-- **Step lemma**: the window answers the volatility of its last `n` ranges, resynchronised or not.
    -/
theorem Parkinson.Tracks.update {n : ℕ} {p : Parkinson K} {qs : List K}
    (h : Parkinson.Tracks n p qs) (fns : RealFunctions K) (hi lo : K) :
    Parkinson.Tracks n (p.update fns hi lo).2 (qs ++ [logRangeSq fns hi lo]) ∧
      (p.update fns hi lo).1 = if n ≤ qs.length + 1 then
        some (sigma fns n ((qs ++ [logRangeSq fns hi lo]).rtake n).sum) else none := by
  unfold Parkinson.update
  generalize logRangeSq fns hi lo = q
  have hpush := h.holds.push q
  have hsum : (if p.buf.count < p.w then p.sum + q else p.sum + (q - p.buf.oldest)) =
      ((qs ++ [q]).rtake n).sum := by
    rw [h.holds.count, h.size, h.sum]
    by_cases hlt : qs.length < n
    · rw [if_pos (by omega), rtake_of_length_le hlt.le,
        rtake_of_length_le (by rw [length_concat]; omega), sum_concat]
    · have hle : n ≤ qs.length := not_lt.mp hlt
      rw [if_neg (by omega), rtake_concat_of_le h.pos hle, sum_concat]
      conv_lhs => rw [h.holds.rtake_eq_cons hle, List.sum_cons]
      ring
  have hcount : (p.buf.push q).count < p.w ↔ ¬n ≤ qs.length + 1 := by
    rw [hpush.count, h.size, length_concat]
    omega
  dsimp only
  by_cases hle : n ≤ qs.length + 1
  · have hcells : (p.buf.push q).cells.sum = ((qs ++ [q]).rtake n).sum := by
      rw [← hpush.ordered_eq (by rw [length_concat]; exact hle)]
      exact (p.buf.push q).perm_ordered.sum_eq
    rw [if_neg (by rw [hcount]; exact not_not.mpr hle), if_pos hle]
    dsimp only
    -- resynchronised or not, the sum is that of the window
    split
    · exact ⟨⟨h.size, h.pos, hpush, hcells⟩, by rw [hcells, h.size]⟩
    · exact ⟨⟨h.size, h.pos, hpush, hsum⟩, by rw [hsum, h.size]⟩
  · rw [if_pos (hcount.mpr hle), if_neg hle]
    exact ⟨⟨h.size, h.pos, hpush, hsum⟩, rfl⟩

/-! ### The rank of the last value -/

namespace PercentileRank

section Order

variable {α : Type*} [Preorder α] [DecidableLE α] [NatCast α] [Div α]

/-- The share of a window up to `x`. -/
def shareUpTo (window : List α) (x : α) : α := (window.countP (· ≤ x) : ℕ) / (window.length : ℕ)

/-- The window in order of arrival and in order of size, after the values `xs`; of equal values
    the one that has come first stands first. -/
structure Tracks (n : ℕ) (p : PercentileRank α) (xs : List α) : Prop where
  size : p.n = n
  pos : 0 < n
  fifo : p.fifo = xs.rtake n
  sorted : p.sorted = p.fifo.insertionSort (· ≤ ·)

variable {n : ℕ} {p : PercentileRank α} {xs : List α}

omit [NatCast α] [Div α] in
/-- A new window has no values. -/
theorem Tracks.new (h : PercentileRank.new n = .ok p) : Tracks n p [] := by
  unfold PercentileRank.new at h
  split_ifs at h with hn
  cases h
  exact ⟨rfl, hn, by simp, rfl⟩

variable [Std.Total (α := α) (· ≤ ·)] [DecidableLT α]

omit [NatCast α] [Div α] in
/-- What stays once a full window has given up its oldest value. -/
theorem Tracks.evict (h : Tracks n p xs) :
    p.evict.n = n ∧ p.evict.fifo = xs.rtake (n - 1) ∧
      p.evict.sorted = p.evict.fifo.insertionSort (· ≤ ·) := by
  have hpos := h.pos
  have hlen : p.fifo.length = min n xs.length := by rw [h.fifo, length_rtake]
  have hrtake : xs.rtake (n - 1) = (xs.rtake n).rtake (n - 1) := (rtake_rtake (by omega)).symm
  unfold PercentileRank.evict
  cases hf : p.fifo with
  -- an empty window has nothing to forget
  | nil =>
    refine ⟨h.size, ?_, h.sorted⟩
    rw [hrtake, ← h.fifo, hf, List.rtake_nil]
  | cons old rest =>
    have hcons : (old :: rest).length = rest.length + 1 := rfl
    rw [hf, hcons] at hlen
    dsimp only
    by_cases hfull : (old :: rest).length = p.n
    · rw [if_pos hfull]
      have hlen' : (old :: rest).length - (n - 1) = 1 := by
        have := h.size
        omega
      refine ⟨h.size, ?_, ?_⟩
      · rw [hrtake, ← h.fifo, hf, List.rtake, hlen', List.drop_one, List.tail_cons]
      · -- the oldest value stands before its equals, on the left border
        rw [h.sorted, hf]
        exact eraseIdx_bisectLeft old rest
    · rw [if_neg hfull]
      refine ⟨h.size, ?_, h.sorted⟩
      rw [h.fifo, hrtake]
      refine (rtake_of_length_le ?_).symm
      rw [length_rtake]
      have := h.size
      omega

/-- **Step lemma**: the answer is the share of the last `n` values up to the newest. -/
theorem Tracks.update (h : Tracks n p xs) (x : α) :
    Tracks n (p.update x).2 (xs ++ [x]) ∧ (p.update x).1 =
      if n ≤ xs.length + 1 then some (shareUpTo ((xs ++ [x]).rtake n) x) else none := by
  obtain ⟨hsize, hfifo, hsorted⟩ := h.evict
  have hfifo' : p.evict.fifo ++ [x] = (xs ++ [x]).rtake n := by
    obtain ⟨m, rfl⟩ : ∃ m, n = m + 1 := ⟨n - 1, by have := h.pos; omega⟩
    rw [hfifo, List.rtake_concat_succ]
    rfl
  have hsorted' : insort p.evict.sorted x = ((xs ++ [x]).rtake n).insertionSort (· ≤ ·) := by
    rw [hsorted, insort_insertionSort, hfifo']
  -- the position after the equals is the number of values up to `x`
  have hcount : bisectRight (((xs ++ [x]).rtake n).insertionSort (· ≤ ·)) x =
      ((xs ++ [x]).rtake n).countP (· ≤ x) := by
    rw [bisectRight_eq_countP (List.pairwise_insertionSort _ _)]
    exact (List.perm_insertionSort _ _).countP_eq _
  have hlen : ((xs ++ [x]).rtake n).length < n ↔ ¬n ≤ xs.length + 1 := by
    rw [length_rtake, List.length_append, List.length_singleton]
    omega
  unfold PercentileRank.update
  dsimp only
  rw [hfifo', hsize, hsorted']
  -- a rank is given when the window is full, and not before
  by_cases hle : n ≤ xs.length + 1
  · have hfull : ((xs ++ [x]).rtake n).length = n := by
      rw [length_rtake, List.length_append, List.length_singleton]
      omega
    rw [if_neg (by rw [hlen]; exact not_not.mpr hle), if_pos hle]
    refine ⟨⟨rfl, h.pos, rfl, rfl⟩, ?_⟩
    rw [hcount, shareUpTo, hfull]
  · rw [if_pos (hlen.mpr hle), if_neg hle]
    exact ⟨⟨rfl, h.pos, rfl, rfl⟩, rfl⟩

end Order

end PercentileRank

/-! ### The extremum of a window -/

namespace MonotonicDeque

variable {α : Type*} [LinearOrder α]

/-- The entries after the values `xs`: places of the window, in order, with values that
    descend, and none of the window is greater than all entries from its place on. -/
structure Tracks (n : ℕ) (d : MonotonicDeque α) (xs : List α) : Prop where
  size : d.n = n
  pos : 0 < n
  count : d.i = xs.length
  ordered : d.entries.Pairwise fun e f => e.1 < f.1 ∧ f.2 < e.2
  mem : ∀ e ∈ d.entries, xs[e.1]? = some e.2 ∧ xs.length ≤ e.1 + n
  covers : ∀ j x, xs[j]? = some x → xs.length ≤ j + n → ∃ e ∈ d.entries, j ≤ e.1 ∧ x ≤ e.2

variable {n : ℕ} {d : MonotonicDeque α} {xs : List α}

/-- A new deque has no values. -/
theorem Tracks.new (h : MonotonicDeque.new n = .ok d) : Tracks n d [] := by
  unfold MonotonicDeque.new at h
  split_ifs at h with hn
  cases h
  exact ⟨rfl, hn, rfl, .nil, by simp, by simp⟩

/-- **The first entry** is the maximum of the last values, however many there are. -/
theorem Tracks.first (h : Tracks n d xs) :
    d.entries.head?.map Prod.snd = (xs.rtake n).max? := by
  have hpos := h.pos
  rw [eq_comm]
  cases hd : d.entries with
  | nil =>
    -- the last value would be covered by an entry
    have hnil : xs = [] := by
      by_contra hne
      have hlen := List.length_pos_iff.mpr hne
      obtain ⟨x, hx⟩ : ∃ x, xs[xs.length - 1]? = some x :=
        ⟨_, List.getElem?_eq_getElem (by omega)⟩
      obtain ⟨e, he, -⟩ := h.covers _ x hx (by omega)
      rw [hd] at he
      cases he
    subst hnil
    simp
  | cons first rest =>
    have hfirst := h.mem first (by rw [hd]; exact List.mem_cons_self)
    have hordered := h.ordered
    rw [hd, List.pairwise_cons] at hordered
    rw [List.head?_cons, Option.map_some, List.max?_eq_some_iff]
    refine ⟨mem_rtake_iff.mpr ⟨first.1, hfirst⟩, fun y hy => ?_⟩
    obtain ⟨j, hj, hjn⟩ := mem_rtake_iff.mp hy
    obtain ⟨f, hf, -, hyf⟩ := h.covers j y hj hjn
    rw [hd] at hf
    rcases List.mem_cons.mp hf with rfl | hf
    · exact hyf
    · exact hyf.trans (hordered.1 f hf).2.le

/-- The value is the first entry of a full window. -/
theorem Tracks.value (h : Tracks n d xs) :
    d.value = if n ≤ xs.length then (xs.rtake n).max? else none := by
  rw [MonotonicDeque.value, h.size, h.count, h.first]

/-- In a list with ascending places, dropping from the front filters. -/
theorem dropWhile_eq_filter {es : List (ℕ × α)} (cutoff : ℤ)
    (h : es.Pairwise fun e f => e.1 < f.1 ∧ f.2 < e.2) :
    es.dropWhile (fun e => (e.1 : ℤ) < cutoff) = es.filter fun e => cutoff ≤ (e.1 : ℤ) := by
  have horderly : Orderly (fun e : ℕ × α => decide (cutoff ≤ (e.1 : ℤ))) es := by
    refine h.imp fun {e f} hef he => ?_
    rw [decide_eq_true_eq] at he ⊢
    omega
  rw [← horderly.dropWhile_eq_filter]
  congr 1
  funext e
  by_cases he : (e.1 : ℤ) < cutoff
  · simp [he]
  · simp [he, not_lt.mp he]

/-- The entries with the new value behind those it does not beat. -/
theorem pushed_ordered {es : List (ℕ × α)} {i : ℕ} {x : α}
    (h : es.Pairwise fun e f => e.1 < f.1 ∧ f.2 < e.2) (hi : ∀ e ∈ es, e.1 < i) :
    (es.rdropWhile (fun e => e.2 ≤ x) ++ [(i, x)]).Pairwise fun e f => e.1 < f.1 ∧ f.2 < e.2 := by
  have hpre := List.rdropWhile_prefix (fun e : ℕ × α => decide (e.2 ≤ x)) es
  have hkept := h.sublist hpre.sublist
  rw [List.pairwise_append]
  refine ⟨hkept, List.pairwise_singleton _ _, ?_⟩
  intro e he f hf
  rw [List.mem_singleton] at hf
  subst hf
  refine ⟨hi e (hpre.mem he), ?_⟩
  have hne : es.rdropWhile (fun e => e.2 ≤ x) ≠ [] := List.ne_nil_of_mem he
  have hlast := List.rdropWhile_last_not (fun e : ℕ × α => decide (e.2 ≤ x)) es hne
  rw [decide_eq_true_eq, not_le] at hlast
  refine lt_of_lt_of_le hlast ?_
  rw [← List.dropLast_append_getLast hne, List.pairwise_append] at hkept
  rw [← List.dropLast_append_getLast hne, List.mem_append, List.mem_singleton] at he
  rcases he with he | rfl
  · exact (hkept.2.2 e he _ List.mem_cons_self).2.le
  · exact le_refl _

/-- **Step lemma**: the deque tracks one value more. -/
theorem Tracks.update (h : Tracks n d xs) (x : α) : Tracks n (d.update x).2 (xs ++ [x]) := by
  have hlt : ∀ e ∈ d.entries, e.1 < d.i := by
    intro e he
    have hget := (h.mem e he).1
    rw [h.count]
    exact (List.getElem?_eq_some_iff.mp hget).1
  have hordered := pushed_ordered (x := x) h.ordered hlt
  have hmem : ∀ e, e ∈ (d.update x).2.entries ↔
      (e ∈ d.entries.rdropWhile (fun e => e.2 ≤ x) ∨ e = (d.i, x)) ∧
        (xs ++ [x]).length ≤ e.1 + n := by
    intro e
    show e ∈ (d.entries.rdropWhile (fun e => e.2 ≤ x) ++ [(d.i, x)]).dropWhile
      (fun e => (e.1 : ℤ) < ((d.i + 1 : ℕ) : ℤ) - d.n) ↔ _
    rw [dropWhile_eq_filter _ hordered, List.mem_filter, List.mem_append, List.mem_singleton,
      decide_eq_true_eq, h.size, h.count, List.length_append, List.length_singleton]
    refine and_congr_right fun _ => ?_
    omega
  refine ⟨h.size, h.pos, ?_, ?_, ?_, ?_⟩
  · show d.i + 1 = _
    rw [h.count, List.length_append, List.length_singleton]
  · show ((d.entries.rdropWhile (fun e => e.2 ≤ x) ++ [(d.i, x)]).dropWhile _).Pairwise _
    exact hordered.sublist (List.dropWhile_sublist _)
  · intro e he
    obtain ⟨hin, hwin⟩ := (hmem e).mp he
    refine ⟨?_, hwin⟩
    rcases hin with hin | rfl
    · have hold := h.mem e ((List.rdropWhile_prefix _ _).mem hin)
      rw [List.getElem?_append_left (List.getElem?_eq_some_iff.mp hold.1).1]
      exact hold.1
    · rw [h.count, List.getElem?_append_right (Nat.le_refl _), Nat.sub_self]
      rfl
  · intro j y hj hwin
    have hnew : (d.i, x) ∈ (d.update x).2.entries := by
      rw [hmem]
      refine ⟨.inr rfl, ?_⟩
      have := h.pos
      show _ ≤ d.i + n
      rw [h.count, List.length_append, List.length_singleton]
      omega
    by_cases hold : j < xs.length
    · rw [List.getElem?_append_left hold] at hj
      have hwin' : xs.length ≤ j + n := by
        rw [List.length_append] at hwin
        omega
      obtain ⟨e, he, hje, hye⟩ := h.covers j y hj hwin'
      rw [← List.rdropWhile_append_rtakeWhile (p := fun e : ℕ × α => decide (e.2 ≤ x))
        (l := d.entries), List.mem_append] at he
      rcases he with he | he
      · exact ⟨e, (hmem e).mpr ⟨.inl he, by omega⟩, hje, hye⟩
      · -- an entry that the new value beats
        have hbeaten : e.2 ≤ x := by simpa using List.mem_rtakeWhile_imp he
        refine ⟨_, hnew, ?_, hye.trans hbeaten⟩
        show j ≤ d.i
        rw [h.count]
        exact hold.le
    · have hlen := (List.getElem?_eq_some_iff.mp hj).1
      rw [List.length_append, List.length_singleton] at hlen
      have hjx : j = xs.length := by omega
      subst hjx
      rw [List.getElem?_append_right (Nat.le_refl _), Nat.sub_self] at hj
      cases hj
      exact ⟨_, hnew, h.count.ge, le_refl _⟩

end MonotonicDeque

end FuzzHelm
