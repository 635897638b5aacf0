import FuzzHelm.Ingest.Events
import FuzzHelm.Lib.Dict
import FuzzHelm.Lib.Run
import Mathlib.Data.Finset.Max

namespace FuzzHelm

open Lib

/-!
# The gap detector

Which trades and which candles of a stream are missing.  Trades are numbered without holes, so
a jump of the number is a candidate for a gap; candles are expected once per timeframe, and one
that has not been closed some time after its end is missing.

* `GapRecord`, `transition` — a gap and its status;
* `GapDetector` — the state; a hole is never empty, by construction;
* `fill`, `openGap` — a key arrives, a gap is opened;
* `sweepKlines`, `confirmHoles` — the two detectors;
* `onTime`, `onKline`, `onTrade`, `flush`, `beginFill`, `resolve` — the calls.

Every call is given the reading `now` of the clock.  A call that raises answers its exception
beside the state that it leaves.
-/

/-! ### Records -/

/-- A gap: for candles from the first to the last missing open time, for trades between the
    trades around the hole, with the missing ids. -/
structure GapRecord where
  gapId : ℕ
  instrument : String
  stream : Stream
  detector : GapDetectorKind
  tsLoNs : ℤ
  tsHiNs : ℤ
  expectedCount : ℤ
  status : GapStatus
  filledRows : ℤ
  attempts : ℕ
  seqLo : Option ℤ
  seqHi : Option ℤ
  tf : Option String
  detectedAtNs : ℤ
  closedAtNs : Option ℤ
  exchangeNs : Option ℤ
  deriving DecidableEq

/-- `TRANSITIONS`: which status may follow which. -/
def transitions : GapStatus → List GapStatus
  | .opened => [.filling, .filled, .unfillable]
  | .filling => [.filled, .part, .unfillable]
  | .part => [.filling, .filled, .unfillable]
  | .unfillable => [.filling, .filled]
  | .filled => []

/-- `TERMINAL`: a gap at one of them is not moved by itself any more. -/
def terminal : List GapStatus := [.filled, .part, .unfillable]

/-- `transition`: only what the table allows, with the time of the first attempt and of the end. -/
def transition (g : GapRecord) (status : GapStatus) (atNs : ℤ) (filledRows : Option ℤ)
    (countAttempt : Bool) : Except PyError GapRecord :=
  if status ≠ g.status ∧ status ∉ transitions g.status then
    .error (.valueError "illegal transition")
  else
    .ok { g with
      status := status
      filledRows := filledRows.getD g.filledRows
      attempts := if countAttempt then g.attempts + 1 else g.attempts
      closedAtNs := if status ∈ terminal then some atNs else none }

/-- `set(range(a, b))`, empty where `a` is not before `b`. -/
def idRange (a b : ℤ) : Finset ℤ :=
  ((List.range (b - a).toNat).map fun k : ℕ => a + k).toFinset

/-- The identifiers from `a` to before `b`. -/
theorem mem_idRange {a b x : ℤ} : x ∈ idRange a b ↔ a ≤ x ∧ x < b := by
  simp only [idRange, List.mem_toFinset, List.mem_map, List.mem_range]
  constructor
  · rintro ⟨k, hk, rfl⟩
    omega
  · rintro ⟨ha, hb⟩
    exact ⟨(x - a).toNat, by omega, by omega⟩

/-- A candidate for a gap: ids that have been jumped over and have not arrived. -/
structure Hole where
  missing : Finset ℤ
  tBeforeNs : ℤ
  tAfterNs : ℤ
  createdEventNs : ℤ
  nonempty : missing.Nonempty

/-- What the detector counts. -/
structure GapStats where
  healedHoles : ℕ
  lateFills : ℕ
  duplicateTrades : ℕ
  staleKlines : ℕ
  klineMinutesSettled : ℕ
  deriving DecidableEq, Repr

/-- `missing` holds what a gap still misses, `owner` the gap that misses a key of a stream, as a
    function, since only lookups read it. -/
structure GapDetector where
  instrument : String
  tf : Timeframe
  graceNs : ℤ
  maxReorderIds : ℤ
  stats : GapStats
  latestNs : Option ℤ
  kLo : Option ℤ
  kClosed : Finset ℤ
  tMax : Option ℤ
  tMaxTs : ℤ
  pending : List Hole
  missing : Dict ℕ (Finset ℤ)
  owner : Stream → ℤ → Option ℕ
  gaps : Dict ℕ GapRecord
  nextId : ℕ

namespace GapDetector

/-- `GapDetector(instrument, clock, tf, grace_ms, max_reorder_ids)`. -/
def new (instrument : String) (tf : Timeframe) (graceMs maxReorderIds : ℤ) : GapDetector where
  instrument := instrument
  tf := tf
  graceNs := graceMs * nsPerMs
  maxReorderIds := maxReorderIds
  stats := ⟨0, 0, 0, 0, 0⟩
  latestNs := none
  kLo := none
  kClosed := ∅
  tMax := none
  tMaxTs := 0
  pending := []
  missing := ∅
  owner := fun _ _ => none
  gaps := ∅
  nextId := 1

variable (d : GapDetector) (now : ℤ)

/-! ### Common parts -/

/-- `_advance`: the exchange time is the latest time of an event. -/
def advance (tsEventNs : ℤ) : GapDetector :=
  { d with
    latestNs :=
      match d.latestNs with
      | none => some tsEventNs
      | some latest => if latest < tsEventNs then some tsEventNs else some latest }

/-- What a new gap is about. -/
structure GapSpec where
  stream : Stream
  detector : GapDetectorKind
  keys : Finset ℤ
  tsLo : ℤ
  tsHi : ℤ
  seqLo : Option ℤ
  seqHi : Option ℤ
  tf : Option String

/-- The record of a gap that `_open` makes. -/
def openRecord (x : GapSpec) : GapRecord where
  gapId := d.nextId
  instrument := d.instrument
  stream := x.stream
  detector := x.detector
  tsLoNs := x.tsLo
  tsHiNs := x.tsHi
  expectedCount := x.keys.card
  status := .opened
  filledRows := 0
  attempts := 0
  seqLo := x.seqLo
  seqHi := x.seqHi
  tf := x.tf
  detectedAtNs := now
  closedAtNs := none
  exchangeNs := d.latestNs

/-- `_open`: a gap under the next number, which owns the keys that it misses. -/
def openGap (x : GapSpec) : GapRecord × GapDetector :=
  (d.openRecord now x, { d with
    nextId := d.nextId + 1
    gaps := d.gaps.insert d.nextId (d.openRecord now x)
    missing := d.missing.insert d.nextId x.keys
    owner := fun s k => if s = x.stream ∧ k ∈ x.keys then some d.nextId else d.owner s k })

/-- `_fill`: a key has arrived; whether a gap has missed it, and the gap if it is full now. -/
def fill (stream : Stream) (key : ℤ) : Except PyError (Bool × List GapRecord) × GapDetector :=
  match d.owner stream key with
  | none => (.ok (false, []), d)
  | some gid =>
    let d₁ : GapDetector :=
      { d with
        owner := fun s k => if s = stream ∧ k = key then none else d.owner s k
        stats := { d.stats with lateFills := d.stats.lateFills + 1 } }
    match d.missing.get? gid, d.gaps.get? gid with
    | some miss, some g =>
      let left := miss.erase key
      let d₂ : GapDetector := { d₁ with missing := d.missing.insert gid left }
      let filled := g.expectedCount - left.card
      if left = ∅ ∧ g.status ≠ .filling then
        match transition g .filled now (some filled) false with
        | .error e => (.error e, d₂)
        | .ok g' => (.ok (true, [g']), { d₂ with gaps := d.gaps.insert gid g' })
      else if g.status = .filling then
        (.ok (true, []), { d₂ with gaps := d.gaps.insert gid { g with filledRows := filled } })
      else (.ok (true, []), d₂)
    | none, _ => (.error (.keyError "gap"), d₁)
    | some _, none => (.error (.keyError "gap"), d₁)

/-! ### Candles -/

/-- `_open_klines`: one gap for a run of missing minutes. -/
def openKlines (lo : ℤ) (rest : List ℤ) : GapRecord × GapDetector :=
  d.openGap now {
    stream := .klines
    detector := .time
    keys := (lo :: rest).toFinset
    tsLo := lo
    tsHi := rest.getLastD lo
    seqLo := none
    seqHi := none
    tf := some d.tf.name }

/-- The state of the sweep: the run of missing minutes that it is in, and the gaps so far. -/
structure Sweep where
  d : GapDetector
  run : List ℤ
  out : List GapRecord

/-- The end of a run of missing minutes opens a gap. -/
def Sweep.close (s : Sweep) : Sweep :=
  match s.run with
  | [] => s
  | lo :: rest =>
    ⟨(s.d.openKlines now lo rest).2, [], s.out ++ [(s.d.openKlines now lo rest).1]⟩

/-- The sweep settles one minute. -/
def Sweep.settle (s : Sweep) (m : ℤ) : Sweep :=
  let s' :=
    if m ∈ s.d.kClosed then
      Sweep.close now { s with d := { s.d with kClosed := s.d.kClosed.erase m } }
    else { s with run := s.run ++ [m] }
  { s' with
    d := { s'.d with
      kLo := some (m + s'.d.tf.ns)
      stats := { s'.d.stats with
        klineMinutesSettled := s'.d.stats.klineMinutesSettled + 1 } } }

/-- The loop of the sweep over `n` minutes from `m` on. -/
def sweepLoop : ℕ → ℤ → Sweep → Sweep
  | 0, _, s => s
  | n + 1, m, s => sweepLoop n (m + s.d.tf.ns) (s.settle now m)

/-- The number of minutes of length `tfNs` from `lo` on that have ended by `horizon`. -/
def minutesBy (tfNs lo horizon : ℤ) : ℕ := ((horizon - lo) / tfNs).toNat

/-- `_sweep_klines`: every minute that ended on the exchange at least the grace ago. -/
def sweepKlines : List GapRecord × GapDetector :=
  match d.kLo, d.latestNs with
  | some lo, some latest =>
    let s := (sweepLoop now (minutesBy d.tf.ns lo (latest - d.graceNs)) lo ⟨d, [], []⟩).close now
    (s.out, s.d)
  | none, _ => ([], d)
  | some _, none => ([], d)

/-! ### Trades -/

/-- A hole becomes a gap. -/
def openHole (h : Hole) : GapRecord × GapDetector :=
  d.openGap now {
    stream := .trades
    detector := .seq
    keys := h.missing
    tsLo := h.tBeforeNs
    tsHi := h.tAfterNs
    seqLo := some (h.missing.min' h.nonempty)
    seqHi := some (h.missing.max' h.nonempty)
    tf := none }

/-- A candidate is confirmed: by force, by its width, or by time. -/
def confirms (force : Bool) (h : Hole) : Bool :=
  force || decide (d.maxReorderIds < h.missing.card) ||
    decide (d.graceNs ≤ d.latestNs.getD 0 - h.createdEventNs)

/-- The loop of `_confirm_holes`: the gaps that are opened, and the holes that are kept. -/
def confirmLoop (force : Bool) : List Hole → GapDetector →
    List GapRecord × List Hole × GapDetector
  | [], d => ([], [], d)
  | h :: hs, d =>
    if d.confirms force h then
      let (out, keep, d') := confirmLoop force hs (d.openHole now h).2
      ((d.openHole now h).1 :: out, keep, d')
    else
      let (out, keep, d') := confirmLoop force hs d
      (out, h :: keep, d')

/-- `_confirm_holes`: the candidates whose time is over become gaps, or all of them by force. -/
def confirmHoles (force : Bool) : List GapRecord × GapDetector :=
  let (out, keep, d') := confirmLoop now force d.pending d
  (out, { d' with pending := keep })

/-- An id arrives in the first hole that misses it: whether there is one, whether the hole is
    gone, and the holes that are left. -/
def heal (a : ℤ) : List Hole → Bool × Bool × List Hole
  | [] => (false, false, [])
  | h :: hs =>
    if a ∈ h.missing then
      if hne : (h.missing.erase a).Nonempty then
        (true, false, { h with missing := h.missing.erase a, nonempty := hne } :: hs)
      else (true, true, hs)
    else
      let (found, gone, hs') := heal a hs
      (found, gone, h :: hs')

/-- The candidates after a jump to `a`. -/
def jump (t : Trade) (top : ℤ) : List Hole :=
  if h : (idRange (top + 1) t.aggId).Nonempty then
    d.pending ++ [⟨idRange (top + 1) t.aggId, d.tMaxTs, t.tsEventNs,
      (d.latestNs.filter fun x => decide (x ≠ 0)).getD t.tsEventNs, h⟩]
  else d.pending

/-! ### The calls -/

/-- What comes after every event of a kline: the sweep, then the holes. -/
def afterKline : List GapRecord × GapDetector :=
  let (swept, d₁) := d.sweepKlines now
  let (confirmed, d₂) := d₁.confirmHoles now false
  (swept ++ confirmed, d₂)

/-- What comes after every event of a trade: the holes, then the sweep. -/
def afterTrade : List GapRecord × GapDetector :=
  let (confirmed, d₁) := d.confirmHoles now false
  let (swept, d₂) := d₁.sweepKlines now
  (confirmed ++ swept, d₂)

/-- `on_time`: the exchange is later, so minutes may be missing by now. -/
def onTime (tsEventNs : ℤ) : List GapRecord × GapDetector := (d.advance tsEventNs).afterKline now

/-- The candle itself: late, closed, or one that is still open. -/
def takeKline (c : Candle) : Except PyError (List GapRecord) × GapDetector :=
  let lo := d.kLo.getD c.openTimeNs
  let d₁ : GapDetector := { d with kLo := some lo }
  let stale (d : GapDetector) : GapDetector :=
    { d with stats := { d.stats with staleKlines := d.stats.staleKlines + 1 } }
  if c.openTimeNs < lo then
    if c.isClosed then
      match d₁.fill now .klines c.openTimeNs with
      | (.error e, d₂) => (.error e, d₂)
      | (.ok (true, changed), d₂) => (.ok changed, d₂)
      | (.ok (false, changed), d₂) => (.ok changed, stale d₂)
    else (.ok [], stale d₁)
  else if c.isClosed then (.ok [], { d₁ with kClosed := insert c.openTimeNs d₁.kClosed })
  else (.ok [], d₁)

/-- `on_kline`: a candle of the instrument is taken, and minutes may be settled. -/
def onKline (c : Candle) : Except PyError (List GapRecord) × GapDetector :=
  if c.tf ≠ d.tf.name ∨ c.instrument ≠ d.instrument then (.ok [], d)
  else
    match (d.advance c.tsEventNs).takeKline now c with
    | (.error e, d₁) => (.error e, d₁)
    | (.ok changed, d₁) => (.ok (changed ++ (d₁.afterKline now).1), (d₁.afterKline now).2)

/-- The trade itself: the first one, a newer one, an older one, or a repetition. -/
def takeTrade (t : Trade) : Except PyError (List GapRecord) × GapDetector :=
  let duplicate (d : GapDetector) : GapDetector :=
    { d with stats := { d.stats with duplicateTrades := d.stats.duplicateTrades + 1 } }
  match d.tMax with
  -- the first trade only sets the top
  | none => (.ok [], { d with tMax := some t.aggId, tMaxTs := t.tsEventNs })
  | some top =>
    if top < t.aggId then
      (.ok [], { d with
        pending := d.jump t top
        tMax := some t.aggId
        tMaxTs := t.tsEventNs })
    else if t.aggId < top then
      match heal t.aggId d.pending with
      | (true, gone, pending) =>
        (.ok [], { d with
          pending := pending
          stats := { d.stats with
            healedHoles := if gone then d.stats.healedHoles + 1 else d.stats.healedHoles } })
      | (false, _, _) =>
        match d.fill now .trades t.aggId with
        | (.error e, d₁) => (.error e, d₁)
        | (.ok (true, changed), d₁) => (.ok changed, d₁)
        | (.ok (false, changed), d₁) => (.ok changed, duplicate d₁)
    else (.ok [], duplicate d)

/-- `on_trade`: a trade of the instrument is taken, and candidates may be confirmed. -/
def onTrade (t : Trade) : Except PyError (List GapRecord) × GapDetector :=
  if t.instrument ≠ d.instrument then (.ok [], d)
  else
    match (d.advance t.tsEventNs).takeTrade now t with
    | (.error e, d₁) => (.error e, d₁)
    | (.ok changed, d₁) => (.ok (changed ++ (d₁.afterTrade now).1), (d₁.afterTrade now).2)

/-- `flush`: whatever is still a candidate becomes a gap. -/
def flush : List GapRecord × GapDetector := d.confirmHoles now true

/-- The record and the missing keys of a gap. -/
def gapOf (gapId : ℕ) : Except PyError (GapRecord × Finset ℤ) :=
  match d.gaps.get? gapId, d.missing.get? gapId with
  | some g, some miss => .ok (g, miss)
  | none, _ => .error (.keyError "gap")
  | some _, none => .error (.keyError "gap")

/-- `begin_fill`: an attempt is counted, and the gap is being filled. -/
def beginFill (gapId : ℕ) : Except PyError (GapRecord × GapDetector) :=
  match d.gaps.get? gapId with
  | none => .error (.keyError "gap")
  | some g => do
    let g' ← transition g .filling now none true
    return (g', { d with gaps := d.gaps.insert gapId g' })

/-- The status of a gap after an attempt. -/
def statusAfter (miss : Finset ℤ) (filled : ℤ) : GapStatus :=
  if miss = ∅ then .filled else if filled ≠ 0 then .part else .unfillable

/-- `resolve`: the gap is full, filled in part, or could not be filled. -/
def resolve (gapId : ℕ) : Except PyError (GapRecord × GapDetector) := do
  let (g, miss) ← d.gapOf gapId
  let filled := g.expectedCount - miss.card
  let g' ← transition g (statusAfter miss filled) now (some filled) false
  return (g', { d with gaps := d.gaps.insert gapId g' })

end GapDetector

/-! ### Runs -/

/-- The calls of the detector. -/
inductive DetectorCall where
  | onTime (now tsEventNs : ℤ)
  | onKline (now : ℤ) (c : Candle)
  | onTrade (now : ℤ) (t : Trade)
  | flush (now : ℤ)
  | beginFill (now : ℤ) (gapId : ℕ)
  | resolve (now : ℤ) (gapId : ℕ)

/-- The result of a call that raises before it writes anything. -/
def orSame (d : GapDetector) (x : Except PyError (GapRecord × GapDetector)) :
    Except PyError (List GapRecord) × GapDetector :=
  match x with
  | .error e => (.error e, d)
  | .ok (g, d') => (.ok [g], d')

/-- One call, with the records that it answers. -/
def GapDetector.call (d : GapDetector) :
    DetectorCall → Except PyError (List GapRecord) × GapDetector
  | .onTime now ts => (.ok (d.onTime now ts).1, (d.onTime now ts).2)
  | .onKline now c => d.onKline now c
  | .onTrade now t => d.onTrade now t
  | .flush now => (.ok (d.flush now).1, (d.flush now).2)
  | .beginFill now gapId => orSame d (d.beginFill now gapId)
  | .resolve now gapId => orSame d (d.resolve now gapId)

/-- A call, whether it returns or raises. -/
def DetectorStep (d : GapDetector) (c : DetectorCall) (a : Except PyError (List GapRecord))
    (d' : GapDetector) : Prop := d.call c = (a, d')

/-- One call of the detector. -/
abbrev DetectorEntry := Entry GapDetector DetectorCall (Except PyError (List GapRecord))

/-- The log of a run of the detector. -/
abbrev DetectorLog := List DetectorEntry

end FuzzHelm
