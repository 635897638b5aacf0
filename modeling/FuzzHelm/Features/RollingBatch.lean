import FuzzHelm.Features.Indicators
import FuzzHelm.Lib.Moments

namespace FuzzHelm

open Lib

/-!
# Rolling statistics are batch statistics

What the incremental indicators keep is what a second pass over their window would find, however
many resynchronisations lie between; in exact arithmetic a resynchronisation changes nothing.

* `RollingWelford.Tracks` — the state after a sequence: the moments of its last elements;
* `RollingOLS.Tracks` — the same for the regression, once its window is full;
* `Tracks.clamp` — a clamp finds nothing to clamp;
* `rolling_is_batch` — the values of both after any sequence.
-/

set_option linter.unusedSectionVars false

attribute [local instance] two_atLeastTwo

variable {K : Type*} [Field K] [LinearOrder K]

/-- The values go in one after another. -/
def RollingWelford.run (w : RollingWelford K) (xs : List K) : RollingWelford K :=
  xs.foldl (fun w x => (w.update x).2) w

/-- The values go in one after another. -/
def RollingOLS.run (o : RollingOLS K) (xs : List K) : RollingOLS K :=
  xs.foldl (fun o x => (o.update x).2) o

/-- The intercept that goes with the mean and the slope. -/
def RollingOLS.intercept (o : RollingOLS K) : K := o.mean - o.sxy / o.sxx * ((o.n - 1) / 2)

/-- The squared deviations that the slope does not explain. -/
def RollingOLS.residual (o : RollingOLS K) : K := o.syy - o.sxy * o.sxy / o.sxx

variable [IsStrictOrderedRing K]

/-- The clamp leaves alone what is not negative. -/
theorem clampNonneg_of_nonneg {s : K} (h : 0 ≤ s) : clampNonneg s = s := by
  unfold clampNonneg
  split_ifs with hpos
  · rfl
  · exact le_antisymm h (not_lt.mp hpos)

/-! ### Mean and squared deviations -/

namespace RollingWelford

/-- The state after the elements `xs`. -/
structure Tracks (n : ℕ) (w : RollingWelford K) (xs : List K) : Prop where
  size : w.n = n
  pos : 0 < n
  holds : w.buf.Holds n 0 xs
  mean : w.mean = Lib.mean (xs.rtake n)
  m2 : w.m2 = sqDev (xs.rtake n)

variable {n : ℕ} {w : RollingWelford K} {xs : List K}

/-- An empty window has no values. -/
theorem Tracks.new {r : ℤ} (h : new n r = .ok w) : Tracks n w [] := by
  unfold RollingWelford.new at h
  split_ifs at h with hn
  cases h
  exact ⟨rfl, hn, .new hn, by simp [Lib.mean], by simp [sqDev]⟩

/-- The buffer fills with the values that have come. -/
theorem Tracks.count_lt (h : Tracks n w xs) : w.buf.count < w.n ↔ xs.length < n := by
  rw [h.holds.count, h.size]
  omega

/-- The value is the mean of the last `n` values, as soon as there are so many. -/
theorem Tracks.value (h : Tracks n w xs) :
    w.value = if n ≤ xs.length then some (Lib.mean (xs.rtake n)) else none := by
  have hiff : w.buf.count = w.n ↔ n ≤ xs.length := by
    rw [h.holds.count, h.size]
    omega
  simp only [RollingWelford.value, hiff, h.mean]

/-- The window of a full buffer, before and after the next element. -/
theorem Tracks.moved (h : Tracks n w xs) (hle : n ≤ xs.length) (x : K) :
    ∃ ys : List K, xs.rtake n = w.buf.oldest :: ys ∧ (xs ++ [x]).rtake n = ys ++ [x] ∧
      (ys.length : K) + 1 = n := by
  have hcons := h.holds.rtake_eq_cons hle
  refine ⟨(xs.rtake n).tail, hcons, rtake_concat_of_le h.pos hle, ?_⟩
  have hlen : (xs.rtake n).tail.length + 1 = n := by
    rw [List.length_tail, length_rtake]
    have := h.pos
    omega
  exact_mod_cast hlen

/-- Moving the mean by one value gives the mean of the window moved by one. -/
theorem Tracks.shiftedMean (h : Tracks n w xs) (hle : n ≤ xs.length) (x : K) :
    w.shiftedMean x = Lib.mean ((xs ++ [x]).rtake n) := by
  obtain ⟨ys, hold, hnew, hlen⟩ := h.moved hle x
  rw [RollingWelford.shiftedMean, h.mean, hold, hnew, mean_shift w.buf.oldest x ys, hlen, h.size]

/-- Moving the squared deviations by one value gives those of the window moved by one. -/
theorem Tracks.shiftedM2 (h : Tracks n w xs) (hle : n ≤ xs.length) (x : K) :
    w.shiftedM2 x = sqDev ((xs ++ [x]).rtake n) := by
  have hmean := h.shiftedMean hle x
  obtain ⟨ys, hold, hnew, hlen⟩ := h.moved hle x
  rw [RollingWelford.shiftedM2, hmean, h.mean, h.m2, hold, hnew, sqDev_shift w.buf.oldest x ys]

/-- **The clamp** of a full window finds nothing below zero. -/
theorem Tracks.clamp (h : Tracks n w xs) (hle : n ≤ xs.length) (x : K) :
    clampNonneg (w.shiftedM2 x) = w.shiftedM2 x := by
  rw [h.shiftedM2 hle]
  exact clampNonneg_of_nonneg (sqDev_nonneg _)

/-- **One value**: the window that fills, and the window that moves. -/
theorem Tracks.absorb (h : Tracks n w xs) (x : K) : Tracks n (w.absorb x) (xs ++ [x]) := by
  unfold RollingWelford.absorb
  by_cases hlt : xs.length < n
  · -- the window is filled: all elements so far are in it
    have hall : xs.rtake n = xs := rtake_of_length_le hlt.le
    have hall' : (xs ++ [x]).rtake n = xs ++ [x] :=
      rtake_of_length_le (by rw [length_concat]; omega)
    have hcount : w.buf.count = xs.length := by
      rw [h.holds.count]
      omega
    have hmean : w.mean + (x - w.mean) / ((w.buf.count + 1 : ℕ) : K) =
        Lib.mean ((xs ++ [x]).rtake n) := by
      rw [h.mean, hall, hall', mean_concat, hcount, Nat.cast_succ]
    rw [if_pos (h.count_lt.mpr hlt)]
    refine ⟨h.size, h.pos, h.holds.push x, hmean, ?_⟩
    show w.m2 + (x - w.mean) * (x - (w.mean + (x - w.mean) / ((w.buf.count + 1 : ℕ) : K))) = _
    rw [hmean, h.m2, h.mean, hall, hall', sqDev_concat]
  -- from here on the newest value takes the place of the oldest
  · have hle : n ≤ xs.length := not_lt.mp hlt
    rw [if_neg (mt h.count_lt.mp hlt)]
    refine ⟨h.size, h.pos, h.holds.push x, h.shiftedMean hle x, ?_⟩
    show clampNonneg (w.shiftedM2 x) = _
    rw [h.clamp hle, h.shiftedM2 hle]

/-- **A resynchronisation** of a full window changes nothing. -/
theorem Tracks.resync (h : Tracks n w xs) (hle : n ≤ xs.length) : w.resync = w := by
  have hperm : w.buf.cells.Perm (xs.rtake n) := by
    rw [← h.holds.ordered_eq hle]
    exact w.buf.perm_ordered
  have hmean : w.buf.cells.sum / (w.n : K) = w.mean := by
    rw [h.mean, ← mean_perm hperm, Lib.mean, h.holds.size, h.size]
  have hm2 : (w.buf.cells.map fun x => (x - w.mean) * (x - w.mean)).sum = w.m2 := by
    rw [h.m2, ← sqDev_perm hperm, sqDev, mean_perm hperm, ← h.mean]
  unfold RollingWelford.resync
  simp only [hmean, hm2]

/-- The counter to the next resynchronisation is not part of what is tracked. -/
theorem Tracks.since (h : Tracks n w xs) (s : ℤ) : Tracks n { w with since := s } xs :=
  ⟨h.size, h.pos, h.holds, h.mean, h.m2⟩

/-- **Step lemma**: an update tracks one value more, and answers the value that it leaves. -/
theorem Tracks.update (h : Tracks n w xs) (x : K) :
    Tracks n (w.update x).2 (xs ++ [x]) ∧ (w.update x).1 = (w.update x).2.value := by
  have ha := h.absorb x
  unfold RollingWelford.update
  by_cases hlt : (xs ++ [x]).length < n
  · rw [if_pos (ha.count_lt.mpr hlt)]
    refine ⟨ha, ?_⟩
    rw [ha.value, if_neg (by omega)]
  · rw [if_neg (mt ha.count_lt.mp hlt)]
    have hle : n ≤ (xs ++ [x]).length := not_lt.mp hlt
    have hvalue : (w.absorb x).value = some (w.absorb x).mean := by
      rw [ha.value, if_pos hle, ha.mean]
    dsimp only
    split
    · rw [(ha.since 0).resync hle]
      exact ⟨ha.since 0, hvalue.symm⟩
    · exact ⟨ha.since _, hvalue.symm⟩

/-- **Run lemma**: from an empty window on, whatever the resynchronisations are. -/
theorem Tracks.run {r : ℤ} (h : RollingWelford.new n r = .ok w) (xs : List K) :
    Tracks n (w.run xs) xs := by
  induction xs using List.reverseRecOn with
  | nil => exact .new h
  | append_singleton xs x ih =>
    rw [RollingWelford.run, List.foldl_append]
    exact (ih.update x).1

end RollingWelford

/-! ### Regression -/

namespace RollingOLS

/-- The state after the elements `xs`; the moments are kept from the first full window on. -/
structure Tracks (n : ℕ) (o : RollingOLS K) (xs : List K) : Prop where
  size : o.n = n
  two_le : 2 ≤ n
  holds : o.buf.Holds n 0 xs
  sxx : o.sxx = (n : K) * ((n : K) * n - 1) / 12
  mean : n ≤ xs.length → o.mean = Lib.mean (xs.rtake n)
  syy : n ≤ xs.length → o.syy = sqDev (xs.rtake n)
  sxy : n ≤ xs.length → o.sxy = crossDev (xs.rtake n)

variable {n : ℕ} {o : RollingOLS K} {xs : List K}

/-- An empty window has no values. -/
theorem Tracks.new {r : ℤ} (h : new n r = .ok o) : Tracks n o [] := by
  unfold RollingOLS.new at h
  split_ifs at h with hn
  cases h
  have hno : ¬n ≤ ([] : List K).length := by
    rw [List.length_nil]
    omega
  exact ⟨rfl, hn, .new (by omega), rfl, fun h => absurd h hno, fun h => absurd h hno,
    fun h => absurd h hno⟩

/-- The buffer fills with the values that have come. -/
theorem Tracks.count_lt (h : Tracks n o xs) : o.buf.count < o.n ↔ xs.length < n := by
  rw [h.holds.count, h.size]
  omega

/-- The window is full when `n` values have come. -/
theorem Tracks.count_eq (h : Tracks n o xs) : o.buf.count = o.n ↔ n ≤ xs.length := by
  rw [h.holds.count, h.size]
  omega

/-- A full window has `n` values. -/
theorem Tracks.length_rtake (h : n ≤ xs.length) : (xs.rtake n).length = n := by
  rw [Lib.length_rtake]
  omega

/-- The spread of the positions is the constant of the window. -/
theorem Tracks.sxx_eq (h : Tracks n o xs) (hle : n ≤ xs.length) :
    o.sxx = posDev (xs.rtake n) := by
  rw [h.sxx, posDev_eq, Tracks.length_rtake hle]

/-- The window of a full buffer, before and after the next element. -/
theorem Tracks.moved (h : Tracks n o xs) (hle : n ≤ xs.length) (y : K) :
    ∃ ys : List K, xs.rtake n = o.buf.oldest :: ys ∧ (xs ++ [y]).rtake n = ys ++ [y] ∧
      (ys.length : K) + 1 = n := by
  have htwo := h.two_le
  have hcons := h.holds.rtake_eq_cons hle
  refine ⟨(xs.rtake n).tail, hcons, rtake_concat_of_le (by omega) hle, ?_⟩
  have hlen : (xs.rtake n).tail.length + 1 = n := by
    rw [List.length_tail, Lib.length_rtake]
    omega
  exact_mod_cast hlen

/-- Moving the mean by one value gives the mean of the window moved by one. -/
theorem Tracks.shiftedMean (h : Tracks n o xs) (hle : n ≤ xs.length) (y : K) :
    o.shiftedMean y = Lib.mean ((xs ++ [y]).rtake n) := by
  obtain ⟨ys, hold, hnew, hlen⟩ := h.moved hle y
  rw [RollingOLS.shiftedMean, h.mean hle, hold, hnew, mean_shift o.buf.oldest y ys, hlen, h.size]

/-- Moving the squared deviations by one value gives those of the window moved by one. -/
theorem Tracks.shiftedSyy (h : Tracks n o xs) (hle : n ≤ xs.length) (y : K) :
    o.shiftedSyy y = sqDev ((xs ++ [y]).rtake n) := by
  have hmean := h.shiftedMean hle y
  obtain ⟨ys, hold, hnew, hlen⟩ := h.moved hle y
  rw [RollingOLS.shiftedSyy, hmean, h.mean hle, h.syy hle, hold, hnew,
    sqDev_shift o.buf.oldest y ys]

/-- **The clamp** of a full window finds nothing below zero. -/
theorem Tracks.clamp (h : Tracks n o xs) (hle : n ≤ xs.length) (y : K) :
    clampNonneg (o.shiftedSyy y) = o.shiftedSyy y := by
  rw [h.shiftedSyy hle]
  exact clampNonneg_of_nonneg (sqDev_nonneg _)

/-- **The window moves by one**: the sums are those of the moved window. -/
theorem Tracks.shift (h : Tracks n o xs) (hle : n ≤ xs.length) (y : K) :
    Tracks n (o.shift y) (xs ++ [y]) := by
  refine ⟨h.size, h.two_le, h.holds.push y, h.sxx, fun _ => h.shiftedMean hle y, fun _ => ?_,
    fun _ => ?_⟩
  · show clampNonneg (o.shiftedSyy y) = _
    rw [h.clamp hle, h.shiftedSyy hle]
  · obtain ⟨ys, hold, hnew, hlen⟩ := h.moved hle y
    show o.sxy + (1 / 2 * (o.n + 1) * (o.buf.oldest - o.mean) +
      1 / 2 * (o.n - 1) * (y - o.mean)) = _
    rw [h.sxy hle, h.mean hle, h.size, hold, hnew, crossDev_shift o.buf.oldest y ys, hlen]

/-- **A resynchronisation** finds the moments of the window. -/
theorem resync_tracks (hsize : o.n = n) (htwo : 2 ≤ n) (hholds : o.buf.Holds n 0 xs)
    (hsxx : o.sxx = (n : K) * ((n : K) * n - 1) / 12) (hle : n ≤ xs.length) :
    Tracks n o.resync xs := by
  have hordered := hholds.ordered_eq hle
  have hlen : ((xs.rtake n).length : K) = n := by rw [Tracks.length_rtake hle]
  have hmean : o.buf.ordered.sum / (o.n : K) = Lib.mean (xs.rtake n) := by
    rw [hordered, hsize, Lib.mean, hlen]
  refine ⟨hsize, htwo, hholds, hsxx, fun _ => hmean, fun _ => ?_, fun _ => ?_⟩
  · show (o.buf.ordered.map fun y => (y - o.buf.ordered.sum / (o.n : K)) *
      (y - o.buf.ordered.sum / (o.n : K))).sum = _
    rw [hmean, hordered, sqDev]
  · show (o.buf.ordered.zipIdx.map fun p => ((p.2 : K) - (o.n - 1) / 2) *
      (p.1 - o.buf.ordered.sum / (o.n : K))).sum = _
    rw [hmean, hordered, hsize, crossDev, Lib.midpoint, hlen]

/-- The counter to the next resynchronisation is not part of what is tracked. -/
theorem Tracks.since (h : Tracks n o xs) (s : ℤ) : Tracks n { o with since := s } xs :=
  ⟨h.size, h.two_le, h.holds, h.sxx, h.mean, h.syy, h.sxy⟩

/-- The slope is that of the last `n` values, as soon as there are so many. -/
theorem Tracks.slope (h : Tracks n o xs) :
    o.slope = if n ≤ xs.length then some (olsSlope (xs.rtake n)) else none := by
  rw [RollingOLS.slope]
  by_cases hle : n ≤ xs.length
  · rw [if_pos hle, if_pos (h.count_eq.mpr hle), h.sxy hle, h.sxx_eq hle, olsSlope]
  · rw [if_neg hle, if_neg (mt h.count_eq.mp hle)]

/-- **Step lemma**: an update tracks one value more, and answers the slope that it leaves. -/
theorem Tracks.update (h : Tracks n o xs) (y : K) :
    Tracks n (o.update y).2 (xs ++ [y]) ∧ (o.update y).1 = (o.update y).2.slope := by
  unfold RollingOLS.update
  have hpush := h.holds.push y
  -- three regimes: the window grows, becomes full with this value, or slides
  by_cases hlt : xs.length < n
  · rw [if_pos (h.count_lt.mpr hlt)]
    dsimp only
    have hcount : (o.buf.push y).count = o.n ↔ n ≤ (xs ++ [y]).length := by
      rw [hpush.count, h.size]
      omega
    by_cases hfull : n ≤ (xs ++ [y]).length
    · -- the window is full for the first time
      rw [if_pos (hcount.mpr hfull)]
      exact ⟨resync_tracks h.size h.two_le hpush h.sxx hfull, rfl⟩
    · rw [if_neg (mt hcount.mp hfull)]
      have hno : Tracks n { o with buf := o.buf.push y } (xs ++ [y]) :=
        ⟨h.size, h.two_le, hpush, h.sxx, fun hle => absurd hle hfull,
          fun hle => absurd hle hfull, fun hle => absurd hle hfull⟩
      refine ⟨hno, ?_⟩
      rw [hno.slope, if_neg hfull]
  · rw [if_neg (mt h.count_lt.mp hlt)]
    have hle : n ≤ xs.length := not_lt.mp hlt
    have hle' : n ≤ (xs ++ [y]).length := by
      rw [length_concat]
      omega
    have hs := h.shift hle y
    have hslope {o' : RollingOLS K} (h' : Tracks n o' (xs ++ [y])) :
        some (o'.sxy / o'.sxx) = o'.slope := by
      rw [RollingOLS.slope, if_pos (h'.count_eq.mpr hle')]
    dsimp only
    split
    · have hr : Tracks n (RollingOLS.resync { o.shift y with since := 0 }) (xs ++ [y]) :=
        resync_tracks hs.size hs.two_le hs.holds hs.sxx hle'
      exact ⟨hr, hslope hr⟩
    · exact ⟨hs.since _, hslope (hs.since _)⟩

/-- **Run lemma**: from an empty window on, whatever the resynchronisations are. -/
theorem Tracks.run {r : ℤ} (h : RollingOLS.new n r = .ok o) (xs : List K) :
    Tracks n (o.run xs) xs := by
  induction xs using List.reverseRecOn with
  | nil => exact .new h
  | append_singleton xs x ih =>
    rw [RollingOLS.run, List.foldl_append]
    exact (ih.update x).1

/-- The intercept is that of the regression of the last `n` values. -/
theorem Tracks.intercept (h : Tracks n o xs) (hle : n ≤ xs.length) :
    o.intercept = olsIntercept (xs.rtake n) := by
  rw [RollingOLS.intercept, h.mean hle, h.sxy hle, h.sxx_eq hle, h.size, olsIntercept, olsSlope,
    Lib.midpoint, Tracks.length_rtake hle]

/-- The residual sum is that of the regression of the last `n` values. -/
theorem Tracks.residual (h : Tracks n o xs) (hle : n ≤ xs.length) :
    o.residual = residualSum (xs.rtake n) := by
  have htwo : 2 ≤ (xs.rtake n).length := by
    rw [Tracks.length_rtake hle]
    exact h.two_le
  rw [RollingOLS.residual, h.syy hle, h.sxy hle, h.sxx_eq hle, residualSum_eq htwo]

/-- The explained share: the cap at 1 is never needed. -/
theorem Tracks.r2 (h : Tracks n o xs) (hle : n ≤ xs.length)
    (hsyy : o.n * (relTol * |o.mean|) * (relTol * |o.mean|) < o.syy) (hpos : 0 < o.syy) :
    o.r2 = some (1 - residualSum (xs.rtake n) / sqDev (xs.rtake n)) := by
  have htwo : 2 ≤ (xs.rtake n).length := by
    rw [Tracks.length_rtake hle]
    exact h.two_le
  have hxx : 0 < o.sxx := by
    rw [h.sxx_eq hle]
    exact posDev_pos htwo
  -- a residual is a sum of squares
  have hrest : 0 ≤ o.residual := by
    rw [h.residual hle]
    apply List.sum_nonneg
    intro s hs
    obtain ⟨p, -, rfl⟩ := List.mem_map.mp hs
    exact mul_self_nonneg _
  have hshare : o.sxy * o.sxy / (o.sxx * o.syy) = 1 - o.residual / o.syy := by
    rw [RollingOLS.residual]
    field_simp
    ring
  -- so the cap of the source at 1 is never reached
  have hcap : ¬1 < 1 - o.residual / o.syy := by
    have := div_nonneg hrest hpos.le
    linarith
  have hnoise : ¬(o.syy ≤ o.n * (relTol * |o.mean|) * (relTol * |o.mean|) ∨ o.syy ≤ 0) := by
    rintro (hle | hle)
    · exact absurd hsyy (not_lt.mpr hle)
    · exact absurd hpos (not_lt.mpr hle)
  rw [RollingOLS.r2, if_neg (not_not.mpr (h.count_eq.mpr hle))]
  dsimp only
  rw [if_neg hnoise, hshare, if_neg hcap, h.residual hle, h.syy hle]

end RollingOLS

/-- **Rolling statistics are batch statistics**: after any sequence, both indicators give what is
    computed from scratch over the last `n` elements, and the clamps change no value. -/
theorem rolling_is_batch {n : ℕ} {r : ℤ} (xs : List K) :
    (∀ w : RollingWelford K, RollingWelford.new n r = .ok w →
      (w.run xs).value = (if n ≤ xs.length then some (mean (xs.rtake n)) else none) ∧
      (w.run xs).mean = mean (xs.rtake n) ∧ (w.run xs).m2 = sqDev (xs.rtake n) ∧
      (n ≤ xs.length → ∀ x, clampNonneg ((w.run xs).shiftedM2 x) = (w.run xs).shiftedM2 x)) ∧
    (∀ o : RollingOLS K, RollingOLS.new n r = .ok o →
      (o.run xs).slope = (if n ≤ xs.length then some (olsSlope (xs.rtake n)) else none) ∧
      (n ≤ xs.length →
        (o.run xs).meanValue = some (mean (xs.rtake n)) ∧
        (o.run xs).intercept = olsIntercept (xs.rtake n) ∧
        (o.run xs).syy = sqDev (xs.rtake n) ∧ (o.run xs).sxy = crossDev (xs.rtake n) ∧
        (o.run xs).residual = residualSum (xs.rtake n) ∧
        ((o.run xs).n * (RollingOLS.relTol * |(o.run xs).mean|) *
          (RollingOLS.relTol * |(o.run xs).mean|) <
            (o.run xs).syy → 0 < (o.run xs).syy →
          (o.run xs).r2 = some (1 - residualSum (xs.rtake n) / sqDev (xs.rtake n))) ∧
        ∀ y, clampNonneg ((o.run xs).shiftedSyy y) = (o.run xs).shiftedSyy y)) := by
  constructor
  · intro w hw
    have ht := RollingWelford.Tracks.run hw xs
    exact ⟨ht.value, ht.mean, ht.m2, fun hle x => ht.clamp hle x⟩
  · intro o ho
    have ht := RollingOLS.Tracks.run ho xs
    refine ⟨ht.slope, fun hle => ⟨?_, ht.intercept hle, ht.syy hle, ht.sxy hle, ht.residual hle,
      ht.r2 hle, fun y => ht.clamp hle y⟩⟩
    rw [RollingOLS.meanValue, if_pos (ht.count_eq.mpr hle), ht.mean hle]

/-- Windows of two over three prices, with a resynchronisation at every update and without. -/
theorem rolling_is_batch_sample :
    (∃ w : RollingWelford ℚ, RollingWelford.new 2 1 = .ok w ∧
      (w.run [1, 5, 7]).value = some 6 ∧ (w.run [1, 5, 7]).m2 = 2) ∧
    (∃ o : RollingOLS ℚ, RollingOLS.new 2 1024 = .ok o ∧
      (o.run [1, 5, 7]).slope = some 2 ∧ (o.run [1, 5, 7]).intercept = 5) := by
  obtain ⟨hw, -⟩ := rolling_is_batch (K := ℚ) (n := 2) (r := 1) [1, 5, 7]
  obtain ⟨-, ho⟩ := rolling_is_batch (K := ℚ) (n := 2) (r := 1024) [1, 5, 7]
  constructor
  · obtain ⟨hvalue, -, hm2, -⟩ := hw _ rfl
    exact ⟨_, rfl, hvalue.trans (by decide +kernel), hm2.trans (by decide +kernel)⟩
  · obtain ⟨hslope, hrest⟩ := ho _ rfl
    obtain ⟨-, hintercept, -⟩ := hrest (by decide)
    exact ⟨_, rfl, hslope.trans (by decide +kernel), hintercept.trans (by decide +kernel)⟩

end FuzzHelm
