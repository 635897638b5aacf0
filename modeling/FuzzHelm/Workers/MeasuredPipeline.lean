import FuzzHelm.Lib.Square
import FuzzHelm.Workers.QualityRows

namespace FuzzHelm

open Lib

/-!
# The pipeline with its accounts

The pipeline again, with what it counts by hours: every call of a sink is noted, with what the
accounts read at it.

* `MeasuredPipeline` — the pipeline, the accounts and the calls so far;
* `moved` — a part of the pipeline has run, and its calls are noted;
* `take`, `acceptWith`, `fillGap`, `fillLoop`, `process`, `finish` — the calls of the pipeline;
* `process_pipe`, `finish_pipe` — they are those of the pipeline;
* `KeptByParts` — an invariant of the parts; `KeptByParts.onGaps` — `_on_gaps` keeps it;
* `KeptBySession` — an invariant of all calls; `KeptBySession.session` — so does a session.
-/

/-- A call that has been noted, with the accounts that it has found. -/
structure QualityStep where
  before : HourQuality
  noted : Noted

/-- The pipeline, the accounts by hours, and every call so far. -/
structure MeasuredPipeline where
  pipe : IngestPipeline
  quality : HourQuality
  steps : List QualityStep

namespace MeasuredPipeline

/-- Before the session nothing has been noted. -/
def start (p : IngestPipeline) : MeasuredPipeline := ⟨p, .new, []⟩

section Defs

variable (world : Surroundings) (cfg : Scoring) (m : MeasuredPipeline)

/-- A call is noted. -/
def note (n : Noted) : MeasuredPipeline :=
  { m with
    quality := m.quality.note cfg m.pipe.tf n
    steps := m.steps ++ [⟨m.quality, n⟩] }

/-- Calls are noted, one after another. -/
def noteAll (notes : List Noted) : MeasuredPipeline := notes.foldl (note cfg) m

/-- A part of the pipeline has run. -/
def moved (fromStream : Bool) (bucketNs : ℤ) (p : IngestPipeline) : MeasuredPipeline :=
  noteAll cfg { m with pipe := p } ((p.sunk.calls.drop m.pipe.sunk.calls.length).map fun call =>
    ⟨call, fromStream, bucketNs, p.detector.latestNs⟩)

/-- The same for a part of the gaps, where no event is refused. -/
def movedOn (p : IngestPipeline) : MeasuredPipeline := m.moved cfg false 0 p

/-- `_accept` up to the gaps that have changed. -/
def take (fromStream : Bool) (ev : MarketEvent) :
    Except PyError (Option (List GapRecord) × MeasuredPipeline) :=
  (fun r => (r.1, m.moved cfg fromStream ev.tsEventNs r.2)) <$> m.pipe.take world ev

/-- `_on_gaps`, with the loop that fills the gaps in the queue. -/
def onGapsWith (loop : MeasuredPipeline → Except PyError MeasuredPipeline)
    (changed : List GapRecord) : Except PyError MeasuredPipeline :=
  let m' := m.movedOn cfg (m.pipe.enqueue changed)
  if m.pipe.filling then .ok m' else loop m'

/-- `_accept`, with the loop that fills the gaps in the queue. -/
def acceptWith (loop : MeasuredPipeline → Except PyError MeasuredPipeline) (fromStream : Bool)
    (ev : MarketEvent) : Except PyError MeasuredPipeline := do
  match ← m.take world cfg fromStream ev with
  | (none, m₁) => .ok m₁
  | (some changed, m₁) => m₁.onGapsWith cfg loop changed

/-- One gap of the queue, in the loop of `_fill_loop`. -/
def fillGap (gid : ℕ) : Except PyError MeasuredPipeline :=
  match m.pipe.detector.gaps.get? gid with
  | none => .error (.keyError "gap")
  | some g =>
    if g.status = .filled then .ok m
    else
      match m.pipe.backfill with
      | none => m.movedOn cfg <$> m.pipe.skipMissing gid
      | some results => do
        let (g', detector) ← m.pipe.detector.beginFill (world.clock m.pipe.reads) gid
        let (p₁, res) := ((m.pipe.called detector).gapChanged g').answer results
        let m₂ ← res.events.foldlM (fun m ev => m.acceptWith world cfg .ok false ev)
          (m.movedOn cfg p₁)
        m₂.movedOn cfg <$> m₂.pipe.endFill world gid

end Defs

/-! ### The pipeline of a measured one -/

variable {world : Surroundings} {cfg : Scoring} {m : MeasuredPipeline}

/-- Noting calls does not move the pipeline. -/
@[simp] theorem noteAll_pipe (notes : List Noted) (m : MeasuredPipeline) :
    (noteAll cfg m notes).pipe = m.pipe := by
  induction notes generalizing m with
  | nil => rfl
  | cons n notes ih => exact ih _

/-- The pipeline of a part that has run. -/
@[simp] theorem moved_pipe (m : MeasuredPipeline) (fromStream : Bool) (bucketNs : ℤ)
    (p : IngestPipeline) : (m.moved cfg fromStream bucketNs p).pipe = p := noteAll_pipe _ _

/-- The pipeline of a part that has run. -/
@[simp] theorem movedOn_pipe (m : MeasuredPipeline) (p : IngestPipeline) :
    (m.movedOn cfg p).pipe = p := moved_pipe ..

/-- The calls are noted in their order, and the accounts are theirs. -/
theorem noteAll_noted (cfg : Scoring) (m : MeasuredPipeline) (notes : List Noted) :
    (noteAll cfg m notes).steps.map QualityStep.noted =
      m.steps.map QualityStep.noted ++ notes ∧
    (noteAll cfg m notes).quality = notes.foldl (HourQuality.note cfg m.pipe.tf) m.quality := by
  induction notes generalizing m with
  | nil => exact ⟨(List.append_nil _).symm, rfl⟩
  | cons n notes ih =>
    obtain ⟨hsteps, hquality⟩ := ih (m.note cfg n)
    constructor
    · show (noteAll cfg (m.note cfg n) notes).steps.map QualityStep.noted = _
      rw [hsteps]
      simp [note]
    · exact hquality

/-- A part of the pipeline that only moves it. -/
theorem movedOn_square (m : MeasuredPipeline) (x : Except PyError IngestPipeline) :
    x = pipe <$> (m.movedOn cfg <$> x) := by
  cases x with
  | error e => rfl
  | ok p =>
    show _ = Except.ok (m.movedOn cfg p).pipe
    rw [movedOn_pipe]

/-- An event, up to the gaps that have changed. -/
theorem take_pipe (m : MeasuredPipeline) (fromStream : Bool) (ev : MarketEvent) :
    m.pipe.take world ev = (fun r => (r.1, r.2.pipe)) <$> m.take world cfg fromStream ev := by
  unfold take
  cases m.pipe.take world ev with
  | error e => rfl
  | ok r =>
    show _ = Except.ok (r.1, (m.moved cfg fromStream ev.tsEventNs r.2).pipe)
    rw [moved_pipe]

section Loop

variable {loop : MeasuredPipeline → Except PyError MeasuredPipeline}
  {loop' : IngestPipeline → Except PyError IngestPipeline}

/-- `_on_gaps`, with loops that agree. -/
theorem onGapsWith_pipe (hloop : ∀ m, loop' m.pipe = pipe <$> loop m) (m : MeasuredPipeline)
    (changed : List GapRecord) :
    m.pipe.onGapsWith loop' changed = pipe <$> m.onGapsWith cfg loop changed := by
  unfold IngestPipeline.onGapsWith onGapsWith
  refine ite_square ?_ ?_
  · show _ = Except.ok (m.movedOn cfg (m.pipe.enqueue changed)).pipe
    rw [movedOn_pipe]
  · rw [← hloop, movedOn_pipe]

/-- `_accept`, with loops that agree. -/
theorem acceptWith_pipe (hloop : ∀ m, loop' m.pipe = pipe <$> loop m) (m : MeasuredPipeline)
    (fromStream : Bool) (ev : MarketEvent) :
    m.pipe.acceptWith world loop' ev = pipe <$> m.acceptWith world cfg loop fromStream ev := by
  unfold IngestPipeline.acceptWith acceptWith
  refine bind_square (take_pipe m fromStream ev) ?_
  rintro ⟨o, m₁⟩
  cases o with
  | none => rfl
  | some changed => exact onGapsWith_pipe hloop m₁ changed

end Loop

/-- The events of the hook, by induction on them. -/
theorem acceptAll_pipe (world : Surroundings) (cfg : Scoring) (evs : List MarketEvent)
    (m : MeasuredPipeline) :
    evs.foldlM (fun p ev => p.acceptWith world .ok ev) m.pipe =
      pipe <$> evs.foldlM (fun m ev => m.acceptWith world cfg .ok false ev) m := by
  induction evs generalizing m with
  | nil => rfl
  | cons ev evs ih =>
    rw [List.foldlM_cons, List.foldlM_cons]
    exact bind_square (acceptWith_pipe (fun _ => rfl) m false ev) ih

/-- **One gap** of the queue. -/
theorem fillGap_pipe (world : Surroundings) (cfg : Scoring) (m : MeasuredPipeline) (gid : ℕ) :
    m.pipe.fillGap world gid = pipe <$> m.fillGap world cfg gid := by
  unfold IngestPipeline.fillGap fillGap
  cases m.pipe.detector.gaps.get? gid with
  | none => rfl
  | some g =>
    refine ite_square rfl ?_
    cases m.pipe.backfill with
    | none => exact movedOn_square m _
    | some results =>
      refine bind_same ?_
      rintro ⟨g', detector⟩
      have hall := acceptAll_pipe world cfg
        (((m.pipe.called detector).gapChanged g').answer results).2.events
        (m.movedOn cfg (((m.pipe.called detector).gapChanged g').answer results).1)
      rw [movedOn_pipe] at hall
      exact bind_square hall fun m₂ => movedOn_square m₂ _

/-! ### The loop and the calls -/

/-- The next gap of the queue is taken out of it. -/
def popped (m : MeasuredPipeline) (rest : List ℕ) : MeasuredPipeline :=
  { m with pipe := { m.pipe with toFill := rest, filling := true } }

/-- `_fill_loop`. -/
def fillLoop (world : Surroundings) (cfg : Scoring) (m : MeasuredPipeline) :
    Except PyError MeasuredPipeline :=
  match _hqueue : m.pipe.toFill with
  | [] => .ok { m with pipe := { m.pipe with filling := false } }
  | gid :: rest =>
    match _hfill : (m.popped rest).fillGap world cfg gid with
    | .error e => .error e
    | .ok m' => fillLoop world cfg m'
termination_by (m.pipe.left, m.pipe.toFill.length)
decreasing_by
  have hpipe := fillGap_pipe world cfg (m.popped rest) gid
  rw [_hfill] at hpipe
  rcases IngestPipeline.fillGap_progress hpipe with hleft | ⟨hleft, hrest⟩
  · exact Prod.Lex.left _ _ hleft
  · rw [hleft, hrest, _hqueue]
    exact Prod.Lex.right _ (Nat.lt_succ_self _)

section Defs

variable (world : Surroundings) (cfg : Scoring) (m : MeasuredPipeline)

/-- `_on_gaps`. -/
def onGaps (changed : List GapRecord) : Except PyError MeasuredPipeline :=
  m.onGapsWith cfg (fillLoop world cfg) changed

/-- The candidates for gaps are confirmed. -/
def flushHoles : Except PyError MeasuredPipeline :=
  let r := m.pipe.detector.flush (world.clock m.pipe.reads)
  (m.movedOn cfg (m.pipe.called r.2)).onGaps world cfg r.1

/-- `_disconnect`. -/
def disconnect (conn : String) : Except PyError MeasuredPipeline :=
  let m₁ := m.movedOn cfg
    { m.pipe with sunk := { m.pipe.sunk with
        disconnects := m.pipe.sunk.disconnects ++ [conn]
        calls := m.pipe.sunk.calls ++ [.disconnect conn] } }
  if conn ≠ publicConn then m₁.flushHoles world cfg else .ok m₁

/-- `process`: a frame that is not an event has no time but that of its arrival. -/
def process (m : MeasuredPipeline) : IngestPipeline.Item → Except PyError MeasuredPipeline
  | .event ev => m.acceptWith world cfg (fillLoop world cfg) true ev
  | .malformed e => .ok (m.moved cfg false e.tsIngestNs (m.pipe.invalid e))
  | .disconnected conn => m.disconnect world cfg conn

/-- `finish`. -/
def finish : Except PyError MeasuredPipeline := do
  let m₁ ← m.flushHoles world cfg
  return m₁.movedOn cfg (m₁.pipe.release m₁.pipe.aggregator.flush)

/-- The end of the session for one instrument: the pipeline is finished, and the hours that are
    complete are written. -/
def closePipe : Except PyError MeasuredPipeline := do
  let m₁ ← m.finish world cfg
  let latest := m₁.pipe.detector.latestNs
  return { m₁ with quality := m₁.quality.writeCompleteHours cfg m₁.pipe.tf latest latest }

/-- The session of one instrument. -/
def session (items : List IngestPipeline.Item) : Except PyError MeasuredPipeline := do
  let m₁ ← items.foldlM (process world cfg) m
  m₁.closePipe world cfg

end Defs

variable {world : Surroundings} {cfg : Scoring}

/-- The loop over the queue, by induction on it. -/
theorem fillLoop_pipe (m : MeasuredPipeline) :
    m.pipe.fillLoop world = pipe <$> m.fillLoop world cfg := by
  fun_induction fillLoop world cfg m with
  | case1 m hqueue => exact IngestPipeline.fillLoop_nil hqueue
  | case2 m gid rest hqueue e hfill =>
    have hpipe := fillGap_pipe world cfg (m.popped rest) gid
    rw [hfill] at hpipe
    exact IngestPipeline.fillLoop_error hqueue hpipe
  | case3 m gid rest hqueue m' hfill ih =>
    have hpipe := fillGap_pipe world cfg (m.popped rest) gid
    rw [hfill] at hpipe
    rw [← ih]
    exact IngestPipeline.fillLoop_cons hqueue hpipe

/-- `_on_gaps`. -/
theorem onGaps_pipe (m : MeasuredPipeline) (changed : List GapRecord) :
    m.pipe.onGaps world changed = pipe <$> m.onGaps world cfg changed :=
  onGapsWith_pipe fillLoop_pipe m changed

/-- The candidates are confirmed. -/
theorem flushHoles_pipe (m : MeasuredPipeline) :
    m.pipe.flushHoles world = pipe <$> m.flushHoles world cfg := by
  unfold IngestPipeline.flushHoles flushHoles
  dsimp only
  rw [← onGaps_pipe, movedOn_pipe]

/-- **One item** of the session. -/
theorem process_pipe (m : MeasuredPipeline) (item : IngestPipeline.Item) :
    m.pipe.process world item = pipe <$> m.process world cfg item := by
  cases item with
  | event ev => exact acceptWith_pipe fillLoop_pipe m true ev
  | malformed e =>
    show _ = Except.ok (m.moved cfg false e.tsIngestNs (m.pipe.invalid e)).pipe
    rw [moved_pipe]
    rfl
  | disconnected conn =>
    show m.pipe.disconnect world conn = pipe <$> m.disconnect world cfg conn
    unfold IngestPipeline.disconnect disconnect
    refine ite_square ?_ ?_
    · rw [← flushHoles_pipe, movedOn_pipe]
    · show _ = Except.ok (m.movedOn cfg _).pipe
      rw [movedOn_pipe]

/-- The end of a session. -/
theorem finish_pipe (world : Surroundings) (cfg : Scoring) (m : MeasuredPipeline) :
    m.pipe.finish world = pipe <$> m.finish world cfg := by
  unfold IngestPipeline.finish finish
  refine bind_square (flushHoles_pipe m) fun m₁ => ?_
  show _ = Except.ok (m₁.movedOn cfg _).pipe
  rw [movedOn_pipe]
  rfl

/-- **The session** is a run of the pipeline. -/
theorem session_pipe (world : Surroundings) (cfg : Scoring) (m : MeasuredPipeline)
    (items : List IngestPipeline.Item) :
    m.pipe.run world items = pipe <$> m.session world cfg items := by
  have hall (m : MeasuredPipeline) : items.foldlM (IngestPipeline.process world) m.pipe =
      pipe <$> items.foldlM (process world cfg) m := by
    induction items generalizing m with
    | nil => rfl
    | cons item items ih =>
      rw [List.foldlM_cons, List.foldlM_cons]
      exact bind_square (process_pipe m item) ih
  unfold IngestPipeline.run session closePipe
  refine bind_square (hall m) fun m₁ => ?_
  rw [finish_pipe world cfg]
  cases m₁.finish world cfg with
  | error e => rfl
  | ok m₂ => rfl

/-! ### Invariants

The loop over the queue is a sequence of parts, so an invariant of it follows from the parts. -/

/-- **What the parts keep**: `I` holds between them, and `J` holds while the gaps that have changed
    are still to be reported. -/
structure KeptByParts (world : Surroundings) (cfg : Scoring) (I : MeasuredPipeline → Prop)
    (J : MeasuredPipeline → List GapRecord → Prop) : Prop where
  refused : ∀ {m m' : MeasuredPipeline} {fromStream : Bool} {ev : MarketEvent}, I m →
    m.take world cfg fromStream ev = .ok (none, m') → I m'
  taken : ∀ {m m' : MeasuredPipeline} {fromStream : Bool} {ev : MarketEvent}
    {changed : List GapRecord}, I m →
    m.take world cfg fromStream ev = .ok (some changed, m') → J m' changed
  enqueued : ∀ {m : MeasuredPipeline} {changed : List GapRecord}, J m changed →
    I (m.movedOn cfg (m.pipe.enqueue changed))
  requeued : ∀ {m : MeasuredPipeline} (toFill : List ℕ) (filling : Bool), I m →
    I { m with pipe := { m.pipe with toFill := toFill, filling := filling } }
  skipped : ∀ {m : MeasuredPipeline} {gid : ℕ} {p : IngestPipeline}, I m →
    m.pipe.skipMissing gid = .ok p → I (m.movedOn cfg p)
  begun : ∀ {m : MeasuredPipeline} {gid : ℕ} {now : ℤ} {g : GapRecord} {detector : GapDetector}
    (results : List FillResult), I m → m.pipe.detector.beginFill now gid = .ok (g, detector) →
    I (m.movedOn cfg (((m.pipe.called detector).gapChanged g).answer results).1)
  ended : ∀ {m : MeasuredPipeline} {gid : ℕ} {p : IngestPipeline}, I m →
    m.pipe.endFill world gid = .ok p → I (m.movedOn cfg p)

namespace KeptByParts

variable {I : MeasuredPipeline → Prop} {J : MeasuredPipeline → List GapRecord → Prop}
  {m m' : MeasuredPipeline}

/-- A part that may fail, when it does not. -/
theorem map_movedOn {x : Except PyError IngestPipeline}
    (hx : ∀ p, x = .ok p → I (m.movedOn cfg p)) (h : m.movedOn cfg <$> x = .ok m') : I m' := by
  cases x with
  | error e => cases h
  | ok p =>
    cases h
    exact hx p rfl

/-- The events of the hook, by induction on them. -/
theorem acceptAll (hparts : KeptByParts world cfg I J) {evs : List MarketEvent} :
    ∀ {m m' : MeasuredPipeline}, I m →
      evs.foldlM (fun m ev => m.acceptWith world cfg .ok false ev) m = .ok m' → I m' := by
  -- by induction on the events: each is refused, or taken and its reports queued
  induction evs with
  | nil =>
    intro m m' hm h
    cases h
    exact hm
  | cons ev evs ih =>
    intro m m' hm h
    rw [List.foldlM_cons] at h
    obtain ⟨m₂, hacc, h⟩ := bind_eq_ok.mp h
    refine ih ?_ h
    unfold acceptWith at hacc
    obtain ⟨⟨o, m₁⟩, htake, hacc⟩ := bind_eq_ok.mp hacc
    cases o with
    | none =>
      cases hacc
      exact hparts.refused hm htake
    | some changed =>
      have hreported := hparts.enqueued (hparts.taken hm htake)
      change m₁.onGapsWith cfg .ok changed = .ok m₂ at hacc
      unfold onGapsWith at hacc
      dsimp only at hacc
      split_ifs at hacc
      · cases hacc
        exact hreported
      · cases hacc
        exact hreported

/-- **One gap of the queue.** -/
theorem fillGap (hparts : KeptByParts world cfg I J) {gid : ℕ} (hm : I m)
    (h : m.fillGap world cfg gid = .ok m') : I m' := by
  unfold MeasuredPipeline.fillGap at h
  split at h
  · cases h
  · split_ifs at h
    · cases h
      exact hm
    · split at h
      · exact map_movedOn (fun p hp => hparts.skipped hm hp) h
      · rename_i results hback
        obtain ⟨⟨g', detector⟩, hbegin, h⟩ := bind_eq_ok.mp h
        obtain ⟨m₂, hall, h⟩ := bind_eq_ok.mp h
        have hm₂ := hparts.acceptAll (hparts.begun results hm hbegin) hall
        exact map_movedOn (fun p hp => hparts.ended hm₂ hp) h

/-- **The loop over the queue.** -/
theorem fillLoop (hparts : KeptByParts world cfg I J) (hm : I m)
    (h : m.fillLoop world cfg = .ok m') : I m' := by
  fun_induction MeasuredPipeline.fillLoop world cfg m with
  | case1 m hqueue =>
    cases h
    exact hparts.requeued m.pipe.toFill false hm
  | case2 m gid rest hqueue e hfill => cases h
  | case3 m gid rest hqueue m₁ hfill ih =>
    exact ih (hparts.fillGap (hparts.requeued rest true hm) hfill) h

/-- **`_on_gaps`.** -/
theorem onGaps (hparts : KeptByParts world cfg I J) {changed : List GapRecord} (hm : J m changed)
    (h : m.onGaps world cfg changed = .ok m') : I m' := by
  have hreported := hparts.enqueued hm
  unfold MeasuredPipeline.onGaps onGapsWith at h
  dsimp only at h
  split_ifs at h
  · cases h
    exact hreported
  · exact hparts.fillLoop hreported h

end KeptByParts

/-- **What a session keeps**: what the parts keep, and the rest of its calls. -/
structure KeptBySession (world : Surroundings) (cfg : Scoring) (I : MeasuredPipeline → Prop)
    (J : MeasuredPipeline → List GapRecord → Prop) : Prop extends
    KeptByParts world cfg I J where
  invalid : ∀ {m : MeasuredPipeline} (e : InvalidEvent), I m →
    I (m.moved cfg false e.tsIngestNs (m.pipe.invalid e))
  disconnected : ∀ {m : MeasuredPipeline} (conn : String), I m →
    I (m.movedOn cfg
      { m.pipe with sunk := { m.pipe.sunk with
          disconnects := m.pipe.sunk.disconnects ++ [conn]
          calls := m.pipe.sunk.calls ++ [.disconnect conn] } })
  flushed : ∀ {m : MeasuredPipeline} (now : ℤ), I m →
    J (m.movedOn cfg (m.pipe.called (m.pipe.detector.flush now).2)) (m.pipe.detector.flush now).1
  released : ∀ {m : MeasuredPipeline}, I m →
    I (m.movedOn cfg (m.pipe.release m.pipe.aggregator.flush))

namespace KeptBySession

variable {I : MeasuredPipeline → Prop} {J : MeasuredPipeline → List GapRecord → Prop}
  {m m' : MeasuredPipeline}

/-- Confirming the candidates keeps the invariant. -/
theorem flushHoles (hkept : KeptBySession world cfg I J) (hm : I m)
    (h : m.flushHoles world cfg = .ok m') : I m' := hkept.onGaps (hkept.flushed _ hm) h

/-- **One item.** -/
theorem process (hkept : KeptBySession world cfg I J) {item : IngestPipeline.Item} (hm : I m)
    (h : m.process world cfg item = .ok m') : I m' := by
  -- an event, a refused frame, or a break
  cases item with
  | event ev =>
    change m.acceptWith world cfg (MeasuredPipeline.fillLoop world cfg) true ev = .ok m' at h
    unfold acceptWith at h
    obtain ⟨⟨o, m₁⟩, htake, h⟩ := bind_eq_ok.mp h
    cases o with
    | none =>
      cases h
      exact hkept.refused hm htake
    | some changed => exact hkept.onGaps (hkept.taken hm htake) h
  | malformed e =>
    cases h
    exact hkept.invalid e hm
  | disconnected conn =>
    have hended := hkept.disconnected conn hm
    change m.disconnect world cfg conn = .ok m' at h
    unfold disconnect at h
    dsimp only at h
    split_ifs at h
    · exact hkept.flushHoles hended h
    · cases h
      exact hended

/-- **Run lemma**: a session, but for the hours that are written at its end. -/
theorem session (hkept : KeptBySession world cfg I J) {items : List IngestPipeline.Item}
    (hm : I m) (h : m.session world cfg items = .ok m') :
    ∃ m₁ : MeasuredPipeline, I m₁ ∧ m'.pipe = m₁.pipe ∧ m'.steps = m₁.steps ∧
      m'.quality = m₁.quality.writeCompleteHours cfg m₁.pipe.tf m₁.pipe.detector.latestNs
        m₁.pipe.detector.latestNs := by
  have hall : ∀ {m m' : MeasuredPipeline}, I m →
      items.foldlM (MeasuredPipeline.process world cfg) m = .ok m' → I m' := by
    clear h
    induction items with
    | nil =>
      intro m m' hm h
      cases h
      exact hm
    | cons item items ih =>
      intro m m' hm h
      rw [List.foldlM_cons] at h
      obtain ⟨m₁, hone, h⟩ := bind_eq_ok.mp h
      exact ih (hkept.process hm hone) h
  unfold MeasuredPipeline.session closePipe at h
  obtain ⟨m₁, hitems, h⟩ := bind_eq_ok.mp h
  obtain ⟨m₂, hfinish, h⟩ := bind_eq_ok.mp h
  -- at the end the candidates are confirmed, and the candles that wait are released
  unfold finish at hfinish
  obtain ⟨m₃, hflush, hfinish⟩ := bind_eq_ok.mp hfinish
  cases hfinish
  cases h
  exact ⟨_, hkept.released (hkept.flushHoles (hall hm hitems) hflush), rfl, rfl, rfl⟩

end KeptBySession

end MeasuredPipeline

end FuzzHelm
