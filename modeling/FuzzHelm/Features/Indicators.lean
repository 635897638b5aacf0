import FuzzHelm.Core.Enums
import FuzzHelm.Lib.Bisect
import FuzzHelm.Lib.Literals
import FuzzHelm.Lib.RingBuffer
import Mathlib.Algebra.Order.Field.Basic

namespace FuzzHelm

open Lib

/-!
# Incremental indicators

The building blocks of the feature pipeline in exact arithmetic: each takes one value after the
other and does work that does not grow with the history.  The moving sums and moments are
computed anew from their buffer every `resyncEvery` updates.

* `EMA`, `WilderATR`, `WilderRSI` — the recurrent filters;
* `RollingWelford` — mean and squared deviations of a window;
* `MonotonicDeque` — the extremum of a window;
* `Parkinson`, `PercentileRank` — volatility from the ranges, and the rank of the last value;
* `RollingOLS` — the regression of a window on its positions.
-/

/-- `math.sqrt` and `math.log`, of which only laws are used. -/
structure RealFunctions (K : Type*) where
  sqrt : K → K
  log : K → K

attribute [local instance] two_atLeastTwo ten_atLeastTwo

variable {K : Type*} [Field K] [LinearOrder K]

/-! ### Recurrent filters -/

/-- `EMA`: the sum of the first `n` values seeds the filter. -/
structure EMA (K : Type*) where
  n : ℕ
  alpha : K
  count : ℕ
  sum : K
  value : Option K

namespace EMA

/-- `EMA.__init__`, with α = 2 / (n + 1). -/
def new (n : ℕ) : Except PyError (EMA K) :=
  if 1 ≤ n then .ok ⟨n, 2 / (n + 1), 0, 0, none⟩ else .error (.valueError "EMA period must be >= 1")

/-- `EMA.update`: recurrent once seeded, and the mean of the first `n` values until then. -/
def update (e : EMA K) (x : K) : Option K × EMA K :=
  match e.value with
  | some v =>
    let v := v + e.alpha * (x - v)
    (some v, { e with value := some v })
  | none =>
    let e := { e with count := e.count + 1, sum := e.sum + x }
    let e := if e.count = e.n then { e with value := some (e.sum / e.n) } else e
    (e.value, e)

end EMA

/-- `WilderATR`: the true range of a bar needs the close before it. -/
structure WilderATR (K : Type*) where
  n : ℕ
  prevClose : Option K
  count : ℕ
  sum : K
  value : Option K

namespace WilderATR

/-- `WilderATR.__init__`: no close yet, and nothing summed. -/
def new (n : ℕ) : Except PyError (WilderATR K) :=
  if 1 ≤ n then .ok ⟨n, none, 0, 0, none⟩ else .error (.valueError "ATR period must be >= 1")

/-- `WilderATR.update`: the first bar only leaves its close. -/
def update (a : WilderATR K) (h l c : K) : Option K × WilderATR K :=
  let pc := a.prevClose
  let a := { a with prevClose := some c }
  match pc with
  | none => (none, a)
  | some pc =>
    let tr := max (max (h - l) |h - pc|) |l - pc|
    match a.value with
    | some v =>
      let v := v + (tr - v) / a.n
      (some v, { a with value := some v })
    | none =>
      let a := { a with count := a.count + 1, sum := a.sum + tr }
      let a := if a.count = a.n then { a with value := some (a.sum / a.n) } else a
      (a.value, a)

end WilderATR

/-- `WilderRSI`: the sums seed the averages of the gains and of the losses. -/
structure WilderRSI (K : Type*) where
  n : ℕ
  prev : Option K
  count : ℕ
  sumG : K
  sumL : K
  avgG : K
  avgL : K
  value : Option K

namespace WilderRSI

/-- `WilderRSI.__init__`: no close yet, and nothing summed. -/
def new (n : ℕ) : Except PyError (WilderRSI K) :=
  if 1 ≤ n then .ok ⟨n, none, 0, 0, 0, 0, 0, none⟩
  else .error (.valueError "RSI period must be >= 1")

/-- The index from the averages; a price that does not move is neutral. -/
def publish (r : WilderRSI K) : Option K × WilderRSI K :=
  let tot := r.avgG + r.avgL
  let v := if 0 < tot then 100 * r.avgG / tot else 50
  (some v, { r with value := some v })

/-- `WilderRSI.update`: the first close only leaves itself, the next `n` changes seed the averages.
    -/
def update (r : WilderRSI K) (c : K) : Option K × WilderRSI K :=
  let prev := r.prev
  let r := { r with prev := some c }
  match prev with
  | none => (none, r)
  | some prev =>
    let d := c - prev
    let g := if 0 < d then d else 0
    let lo := if d < 0 then -d else 0
    match r.value with
    | none =>
      let r := { r with count := r.count + 1, sumG := r.sumG + g, sumL := r.sumL + lo }
      if r.count < r.n then (none, r)
      else publish { r with avgG := r.sumG / r.n, avgL := r.sumL / r.n }
    | some _ =>
      publish { r with
        avgG := r.avgG + (g - r.avgG) / r.n
        avgL := r.avgL + (lo - r.avgL) / r.n }

end WilderRSI

/-! ### Moving moments -/

/-- What rounding could take below zero is brought back to it. -/
def clampNonneg (s : K) : K := if 0 < s then s else 0

/-- `_buf`, `_idx` and `_count` are the buffer. -/
structure RollingWelford (K : Type*) where
  n : ℕ
  resyncEvery : ℤ
  buf : RingBuffer K
  mean : K
  m2 : K
  since : ℤ

namespace RollingWelford

/-- `RollingWelford.__init__`: an empty window, of one value at least. -/
def new (n : ℕ) (resyncEvery : ℤ) : Except PyError (RollingWelford K) :=
  if hn : 1 ≤ n then .ok ⟨n, resyncEvery, .new n hn 0, 0, 0, 0⟩
  else .error (.valueError "window must be >= 1")

variable (w : RollingWelford K)

/-- `ready`: the window is full. -/
def ready : Bool := w.buf.count = w.n

/-- `value`: the mean of a full window. -/
def value : Option K := if w.buf.count = w.n then some w.mean else none

/-- The variance of the population. -/
def var : Option K := if w.buf.count = w.n then some (w.m2 / w.n) else none

/-- `std`: the deviation of a full window. -/
def std (fns : RealFunctions K) : Option K :=
  if w.buf.count = w.n then some (fns.sqrt (w.m2 / w.n)) else none

/-- `_resync`: the mean and the squared deviations from the window itself. -/
def resync : RollingWelford K :=
  let mean := w.buf.cells.sum / w.n
  { w with
    mean := mean
    m2 := (w.buf.cells.map fun x => (x - mean) * (x - mean)).sum }

/-- The mean once `x` has replaced the oldest element. -/
def shiftedMean (x : K) : K := w.mean + (x - w.buf.oldest) / w.n

/-- The squared deviations once `x` has replaced the oldest element, before they are clamped. -/
def shiftedM2 (x : K) : K :=
  w.m2 + (x - w.buf.oldest) * (x - w.shiftedMean x + w.buf.oldest - w.mean)

/-- `update` up to the resynchronisation: the window is filled, then moved. -/
def absorb (x : K) : RollingWelford K :=
  if w.buf.count < w.n then
    let k := w.buf.count + 1
    let d := x - w.mean
    let mean := w.mean + d / (k : ℕ)
    { w with buf := w.buf.push x, mean := mean, m2 := w.m2 + d * (x - mean) }
  else
    { w with
      buf := w.buf.push x
      mean := w.shiftedMean x
      m2 := clampNonneg (w.shiftedM2 x) }

/-- `RollingWelford.update`: every `resyncEvery` updates of a full window its moments are computed
    afresh. -/
def update (x : K) : Option K × RollingWelford K :=
  let w := w.absorb x
  if w.buf.count < w.n then (none, w)
  else
    let w := { w with since := w.since + 1 }
    let w := if w.resyncEvery ≤ w.since then resync { w with since := 0 } else w
    (some w.mean, w)

end RollingWelford

/-! ### The extremum of a window -/

/-- `_MonotonicDeque`: the indices and the values side by side, the front first.  The order of
    `α` says what is greater; the minimum is the maximum in the order turned round. -/
structure MonotonicDeque (α : Type*) where
  n : ℕ
  entries : List (ℕ × α)
  i : ℕ

namespace MonotonicDeque

variable {α : Type*} [LinearOrder α]

/-- `_MonotonicDeque.__init__`: nothing has come, and nothing waits. -/
def new (n : ℕ) : Except PyError (MonotonicDeque α) :=
  if 1 ≤ n then .ok ⟨n, [], 0⟩ else .error (.valueError "window must be >= 1")

/-- The extremum of the last `n` values. -/
def value (d : MonotonicDeque α) : Option α :=
  if d.n ≤ d.i then d.entries.head?.map Prod.snd else none

/-- `_MonotonicDeque.update`: what `x` beats leaves at the back, what is too old at the front. -/
def update (d : MonotonicDeque α) (x : α) : Option α × MonotonicDeque α :=
  let entries := d.entries.rdropWhile (fun e => e.2 ≤ x) ++ [(d.i, x)]
  let i := d.i + 1
  let d := { d with entries := entries.dropWhile (fun e => (e.1 : ℤ) < i - d.n), i := i }
  (d.value, d)

end MonotonicDeque

/-- `MonotonicDequeMax`: the deque in the order of the values. -/
abbrev MonotonicDequeMax (K : Type*) := MonotonicDeque K

/-- `MonotonicDequeMin`: the deque in the order turned round. -/
abbrev MonotonicDequeMin (K : Type*) := MonotonicDeque Kᵒᵈ

/-! ### Volatility -/

/-- `log_range_sq`: nothing where a price is not positive. -/
def logRangeSq (fns : RealFunctions K) (h l : K) : K :=
  if 0 < h ∧ 0 < l then fns.log (h / l) * fns.log (h / l) else 0

/-- `Parkinson`: the sum of the squared logarithmic ranges of a window. -/
structure Parkinson (K : Type*) where
  w : ℕ
  resyncEvery : ℤ
  buf : RingBuffer K
  sum : K
  since : ℤ
  value : Option K

namespace Parkinson

/-- `Parkinson.__init__`: an empty window, of one range at least. -/
def new (w : ℕ) (resyncEvery : ℤ) : Except PyError (Parkinson K) :=
  if hw : 1 ≤ w then .ok ⟨w, resyncEvery, .new w hw 0, 0, 0, none⟩
  else .error (.valueError "window must be >= 1")

/-- The volatility of a window whose squared ranges add up to `s`. -/
def sigma (fns : RealFunctions K) (w : ℕ) (s : K) : K :=
  if 0 < s then fns.sqrt (s / (4 * fns.log 2 * w)) else 0

/-- `Parkinson.update`: every `resyncEvery` updates of a full window the sum is computed afresh. -/
def update (fns : RealFunctions K) (p : Parkinson K) (h l : K) : Option K × Parkinson K :=
  let q := logRangeSq fns h l
  let p := { p with
    sum := if p.buf.count < p.w then p.sum + q else p.sum + (q - p.buf.oldest)
    buf := p.buf.push q }
  if p.buf.count < p.w then (none, p)
  else
    let p := { p with since := p.since + 1 }
    let p := if p.resyncEvery ≤ p.since then { p with since := 0, sum := p.buf.cells.sum } else p
    let v := sigma fns p.w p.sum
    (some v, { p with value := some v })

end Parkinson

/-- `_fifo` with the oldest value first, and `_sorted`. -/
structure PercentileRank (K : Type*) where
  n : ℕ
  fifo : List K
  sorted : List K
  value : Option K

namespace PercentileRank

variable {α : Type*}

/-- `PercentileRank.__init__`: no values, and nothing sorted. -/
def new (n : ℕ) : Except PyError (PercentileRank α) :=
  if 1 ≤ n then .ok ⟨n, [], [], none⟩ else .error (.valueError "window must be >= 1")

variable [LT α] [DecidableLT α]

/-- A full window gives up its oldest value. -/
def evict (p : PercentileRank α) : PercentileRank α :=
  match p.fifo with
  | [] => p
  | old :: rest =>
    if p.fifo.length = p.n then
      { p with fifo := rest, sorted := p.sorted.eraseIdx (bisectLeft p.sorted old) }
    else p

variable [NatCast α] [Div α]

/-- `update`, of a number: the refusal of a NaN does not come up.  Of the order only the
    comparisons count, so that equal values may differ, as the zeros of either sign do. -/
def update (p : PercentileRank α) (x : α) : Option α × PercentileRank α :=
  let p := p.evict
  let p := { p with fifo := p.fifo ++ [x], sorted := insort p.sorted x }
  if p.fifo.length < p.n then (none, p)
  else
    let v : α := (bisectRight p.sorted x : ℕ) / (p.n : ℕ)
    (some v, { p with value := some v })

end PercentileRank

/-! ### Moving regression -/

/-- `_buf`, `_idx` and `_count` are the buffer. -/
structure RollingOLS (K : Type*) where
  n : ℕ
  resyncEvery : ℤ
  buf : RingBuffer K
  mean : K
  syy : K
  sxy : K
  sxx : K
  since : ℤ

namespace RollingOLS

/-- `REL_TOL`: a spread below it is rounding noise. -/
def relTol : K := 1 / 10 ^ 9

/-- `RollingOLS.__init__`: the spread of the positions is known beforehand. -/
def new (n : ℕ) (resyncEvery : ℤ) : Except PyError (RollingOLS K) :=
  if hn : 2 ≤ n then .ok ⟨n, resyncEvery, .new n (by omega) 0, 0, 0, 0, n * (n * n - 1) / 12, 0⟩
  else .error (.valueError "OLS window must be >= 2")

variable (o : RollingOLS K)

/-- `ready`: the window is full. -/
def ready : Bool := o.buf.count = o.n

/-- `slope`: that of a full window. -/
def slope : Option K := if o.buf.count = o.n then some (o.sxy / o.sxx) else none

/-- `mean`: that of a full window. -/
def meanValue : Option K := if o.buf.count = o.n then some o.mean else none

/-- The share of the squared deviations that the slope explains; a spread at the level of
    rounding noise leaves nothing to explain. -/
def r2 : Option K :=
  if o.buf.count ≠ o.n then none
  else
    let tol := relTol * |o.mean|
    if o.syy ≤ o.n * tol * tol ∨ o.syy ≤ 0 then some 0
    else
      let r2 := o.sxy * o.sxy / (o.sxx * o.syy)
      some (if 1 < r2 then 1 else r2)

/-- `_resync`: the three sums from the window itself. -/
def resync : RollingOLS K :=
  let ys := o.buf.ordered
  let mean := ys.sum / o.n
  let xbar : K := (o.n - 1) / 2
  { o with
    mean := mean
    syy := (ys.map fun y => (y - mean) * (y - mean)).sum
    sxy := (ys.zipIdx.map fun p => ((p.2 : K) - xbar) * (p.1 - mean)).sum }

/-- The mean once `y` has replaced the oldest element. -/
def shiftedMean (y : K) : K := o.mean + (y - o.buf.oldest) / o.n

/-- The squared deviations once `y` has replaced the oldest element, before they are clamped. -/
def shiftedSyy (y : K) : K :=
  o.syy + (y - o.buf.oldest) * (y - o.shiftedMean y + o.buf.oldest - o.mean)

/-- A full window moves by one. -/
def shift (y : K) : RollingOLS K :=
  { o with
    buf := o.buf.push y
    mean := o.shiftedMean y
    syy := clampNonneg (o.shiftedSyy y)
    sxy := o.sxy +
      (1 / 2 * (o.n + 1) * (o.buf.oldest - o.mean) + 1 / 2 * (o.n - 1) * (y - o.mean)) }

/-- `RollingOLS.update`: a window is summed when it fills, moved after that, and summed afresh in
    turn. -/
def update (y : K) : Option K × RollingOLS K :=
  if o.buf.count < o.n then
    let o := { o with buf := o.buf.push y }
    if o.buf.count = o.n then
      let o := resync { o with since := 0 }
      (o.slope, o)
    else (none, o)
  else
    let o := o.shift y
    let o := { o with since := o.since + 1 }
    let o := if o.resyncEvery ≤ o.since then resync { o with since := 0 } else o
    (some (o.sxy / o.sxx), o)

end RollingOLS

end FuzzHelm
