import FuzzHelm.Core.Dto

namespace FuzzHelm

/-!
# The plan behind the orders

What the loop and the broker are for, without queues, records and prices: a position, the
stop that protects it, and at most one thing that is going to happen at the next open.

* `Plan` — the abstract state; its invariants are fields;
* `Plan.latch`, `Plan.Market`, `Plan.Trigger`, `Plan.Decide` — the latch, the open of a bar,
  its range, and a decision;
* `Plan.Bar` — a whole bar; `Plan.Flattening` — the plans that a bar leaves flat;
* `Bar.latched`, `Bar.close_flat` — the laws of the abstract machine;
* `Plan.Backed`, `Plan.Dated` — what the decisions behind a plan have said, and when; the
  events keep both.
-/

/-- A stop order that protects a position: its id, its price, the decision it belongs to. -/
structure Protection where
  coid : Uuid
  price : Decimal
  decisionNs : ℤ
  deriving DecidableEq

/-- What waits for the next open: nothing, the closing of the position, or the opening of a
    position of size `target`, by an entry or by a flip. -/
inductive Pending where
  | idle
  | close (coid : Uuid)
  | opening (coid : Uuid) (target : Decimal) (stop : Option Protection) (decisionNs : ℤ)
  deriving DecidableEq

/-- A position, the decision that opened it, its stop, and what is pending.  Only a position
    is protected and closed, and only the other side of it is opened. -/
structure Plan where
  position : Decimal
  opened : Option ℤ
  stop : Option Protection
  pending : Pending
  stop_flat : position = 0 → stop = none
  close_held : ∀ c, pending = .close c → position ≠ 0
  opening_side : ∀ c target s d, pending = .opening c target s d →
    target ≠ 0 ∧ (position = 0 ∨ sign target = -sign position)

namespace Pending

/-- The market order of a plan. -/
def queue : Pending → List Uuid
  | .idle => []
  | .close c => [c]
  | .opening c _ _ _ => [c]

/-- The stop order that waits for its position. -/
def stop : Pending → Option Protection
  | .idle => none
  | .close _ => none
  | .opening _ _ s _ => s

end Pending

namespace Plan

/-- Nothing held, nothing pending. -/
def flat : Plan where
  position := 0
  opened := none
  stop := none
  pending := .idle
  stop_flat := fun _ => rfl
  close_held := fun _ h => by cases h
  opening_side := fun _ _ _ _ h => by cases h

/-- A position that has just been opened by the decision `d`. -/
def held (position : Decimal) (hpos : position ≠ 0) (d : ℤ) (stop : Option Protection) : Plan where
  position := position
  opened := some d
  stop := stop
  pending := .idle
  stop_flat := fun h => absurd h hpos
  close_held := fun _ h => by cases h
  opening_side := fun _ _ _ _ h => by cases h

section

variable (p : Plan)

/-- The stop orders, the one of the position first. -/
def stops : List Protection := p.stop.toList ++ p.pending.stop.toList

/-- The plan without what is pending. -/
def idle : Plan where
  position := p.position
  opened := p.opened
  stop := p.stop
  pending := .idle
  stop_flat := p.stop_flat
  close_held := fun _ h => by cases h
  opening_side := fun _ _ _ _ h => by cases h

/-- The plan with the closing of the position pending. -/
def closing (c : Uuid) (hpos : p.position ≠ 0) : Plan where
  position := p.position
  opened := p.opened
  stop := p.stop
  pending := .close c
  stop_flat := p.stop_flat
  close_held := fun _ _ => hpos
  opening_side := fun _ _ _ _ h => by cases h

/-- The plan with the opening of a position pending. -/
def opening (c : Uuid) (target : Decimal) (s : Option Protection) (d : ℤ)
    (hside : target ≠ 0 ∧ (p.position = 0 ∨ sign target = -sign p.position)) : Plan where
  position := p.position
  opened := p.opened
  stop := p.stop
  pending := .opening c target s d
  stop_flat := p.stop_flat
  close_held := fun _ h => by cases h
  opening_side := fun _ _ _ _ h => by cases h; exact hside

/-- **The latch**: what would open a position is given up, with its stop; a closing stays. -/
def latch : Plan :=
  match p.pending with
  | .opening _ _ _ _ => p.idle
  | .close _ => p
  | .idle => p

/-- The position is going to be closed, or there is none and none is going to be opened. -/
def Flattening : Prop := (∃ c, p.pending = .close c) ∨ (p.pending = .idle ∧ p.position = 0)

end

/-! ### The events of a bar -/

/-- The open of a bar executes what is pending. -/
inductive Market : Plan → List Fill → Plan → Prop
  | idle {p} (h : p.pending = .idle) : Market p [] p
  | close {p c f} (h : p.pending = .close c) (hid : f.clientOrderId = c)
      (hdq : f.dq = -p.position) : Market p [f] flat
  | opening {p c target s d f} (h : p.pending = .opening c target s d)
      (hid : f.clientOrderId = c) (hdq : f.dq = target - p.position) (htarget : target ≠ 0) :
      Market p [f] (held target htarget d s)

/-- The range of a bar leaves the position alone or closes it: by its stop, or by an order
    that the venue makes itself. -/
inductive Trigger (synthetic : Uuid → Prop) : Plan → List Fill → Plan → Prop
  | hold {p} : Trigger synthetic p [] p
  | exit {p f} (hpos : p.position ≠ 0) (hdq : f.dq = -p.position)
      (hid : (∃ s, p.stop = some s ∧ f.clientOrderId = s.coid) ∨ synthetic f.clientOrderId) :
      Trigger synthetic p [f] flat

/-- One bar: the market orders of the plan, and then the triggers. -/
def Bar (synthetic : Uuid → Prop) (p : Plan) (fills : List Fill) (p' : Plan) : Prop :=
  ∃ p₁ fs₁ fs₂, Market p fs₁ p₁ ∧ Trigger synthetic p₁ fs₂ p' ∧ fills = fs₁ ++ fs₂

/-- The decision `d` at the close of a bar; a halted loop closes what it holds. -/
inductive Decide (halted : Bool) (d : ℤ) : Plan → Plan → Prop
  | nothing {p} (h : halted = true → p.position = 0) : Decide halted d p p
  | close {p c} (hpos : p.position ≠ 0) : Decide halted d p (p.closing c hpos)
  | opening {p c target s} (hhalted : halted = false)
      (hside : target ≠ 0 ∧ (p.position = 0 ∨ sign target = -sign p.position))
      (hs : ∀ x ∈ s, x.decisionNs = d) : Decide halted d p (p.opening c target s d hside)

/-! ### Laws -/

variable {p p' : Plan} {fills : List Fill} {synthetic : Uuid → Prop}

/-- After the open nothing is pending. -/
theorem Market.pending (h : Market p fills p') : p'.pending = .idle := by
  cases h with
  | idle h => exact h
  | close h hid hdq => rfl
  | opening h hid hdq htarget => rfl

/-- An idle plan is idle after a trigger. -/
theorem Trigger.pending (h : Trigger synthetic p fills p') (hp : p.pending = .idle) :
    p'.pending = .idle := by
  cases h with
  | hold => exact hp
  | exit hpos hdq hid => rfl

/-- After a bar nothing waits any more. -/
theorem Bar.pending (h : Bar synthetic p fills p') : p'.pending = .idle := by
  obtain ⟨p₁, fs₁, fs₂, hm, ht, -⟩ := h
  exact ht.pending hm.pending

/-- A trigger never increases the position. -/
theorem Trigger.exposure (h : Trigger synthetic p fills p') : |p'.position| ≤ |p.position| := by
  cases h with
  | hold => exact le_rfl
  | exit hpos hdq hid =>
    change |(0 : Decimal)| ≤ |p.position|
    rw [abs_zero]
    exact abs_nonneg _

/-- A range cannot reopen a flat book. -/
theorem Trigger.flat (h : Trigger synthetic p fills p') (hp : p.position = 0) :
    p'.position = 0 := by
  cases h with
  | hold => exact hp
  | exit hpos hdq hid => rfl

/-- The latch keeps the position. -/
@[simp] theorem latch_position : p.latch.position = p.position := by
  unfold latch
  split <;> rfl

/-- A latched plan opens nothing. -/
theorem latch_pending : p.latch.pending = .idle ∨ ∃ c, p.latch.pending = .close c := by
  unfold latch
  split
  · exact .inl rfl
  · exact .inr ⟨_, by assumption⟩
  · exact .inl (by assumption)

/-- The stop after the open was there before it. -/
theorem Market.stop (h : Market p fills p') {s : Protection} (hs : p'.stop = some s) :
    s ∈ p.stops := by
  rw [stops, List.mem_append, Option.mem_toList, Option.mem_toList]
  cases h with
  | idle hidle => exact .inl hs
  | close hclose hid hdq => cases hs
  | opening hopen hid hdq htarget =>
    right
    rw [hopen]
    exact hs

/-- A bar makes no stops. -/
theorem Bar.stops (h : Bar synthetic p fills p') {s : Protection} (hs : s ∈ p'.stops) :
    s ∈ p.stops := by
  have hidle := h.pending
  obtain ⟨p₁, fs₁, fs₂, hm, ht, -⟩ := h
  have hstop : p'.stop = some s := by
    rw [Plan.stops, hidle, List.mem_append, Option.mem_toList] at hs
    rcases hs with hs | hs
    · exact hs
    · cases hs
  cases ht with
  | hold => exact hm.stop hstop
  | exit hpos hdq hid => cases hstop

/-- A bar fills what was pending, a stop of the plan, or an order of the venue's own. -/
theorem Bar.fill_origin (h : Bar synthetic p fills p') {f : Fill} (hf : f ∈ fills) :
    f.clientOrderId ∈ p.pending.queue ∨ (∃ s ∈ p.stops, f.clientOrderId = s.coid) ∨
      synthetic f.clientOrderId := by
  obtain ⟨p₁, fs₁, fs₂, hm, ht, rfl⟩ := h
  -- a market fill comes from the queue
  have hmarket : ∀ f ∈ fs₁, f.clientOrderId ∈ p.pending.queue := by
    intro f hf
    cases hm with
    | idle hidle => cases hf
    | close hclose hid hdq =>
      rw [List.mem_singleton] at hf
      rw [hclose, hf, hid]
      exact List.mem_singleton_self _
    | opening hopen hid hdq htarget =>
      rw [List.mem_singleton] at hf
      rw [hopen, hf, hid]
      exact List.mem_singleton_self _
  rcases List.mem_append.mp hf with hf | hf
  · exact .inl (hmarket f hf)
  · cases ht with
    | hold => cases hf
    | exit hpos hdq hid =>
      rw [List.mem_singleton] at hf
      subst hf
      rcases hid with ⟨s, hs, heq⟩ | hsyn
      · exact .inr (.inl ⟨s, hm.stop hs, heq⟩)
      · exact .inr (.inr hsyn)

/-- **A latched bar adds no exposure.** -/
theorem Bar.latched (h : Bar synthetic p.latch fills p') : |p'.position| ≤ |p.position| := by
  obtain ⟨p₁, fs₁, fs₂, hm, ht, -⟩ := h
  refine ht.exposure.trans ?_
  cases hm with
  | idle hidle => rw [latch_position]
  | close hclose hid hdq =>
    change |(0 : Decimal)| ≤ |p.position|
    rw [abs_zero]
    exact abs_nonneg _
  | opening hopen hid hdq htarget =>
    rcases latch_pending (p := p) with h | ⟨c, h⟩
    · rw [hopen] at h
      cases h
    · rw [hopen] at h
      cases h

/-- A decision leaves the position to the next open. -/
theorem Decide.position {halted : Bool} {d : ℤ} (h : Decide halted d p p') :
    p'.position = p.position := by
  cases h with
  | nothing hflat => rfl
  | close hpos => rfl
  | opening hhalted hside hs => rfl

/-- A halted decision flattens. -/
theorem Decide.flattening {d : ℤ} (h : Decide true d p p') (hp : p.pending = .idle) :
    p'.Flattening := by
  cases h with
  | nothing hflat => exact .inr ⟨hp, hflat rfl⟩
  | close hpos => exact .inl ⟨_, rfl⟩
  | opening hhalted hside hs => cases hhalted

/-- The latch leaves a closing alone. -/
theorem Flattening.latch_eq (h : p.Flattening) : p.latch = p := by
  unfold latch
  split
  · rename_i hopen
    rcases h with ⟨c, hc⟩ | ⟨hidle, -⟩
    · rw [hopen] at hc
      cases hc
    · rw [hopen] at hidle
      cases hidle
  · rfl
  · rfl

/-- **A pending closing flattens**, latched or not. -/
theorem Bar.close_flat (h : Bar synthetic p fills p') (hp : p.Flattening) : p'.position = 0 := by
  obtain ⟨p₁, fs₁, fs₂, hm, ht, -⟩ := h
  refine ht.flat ?_
  cases hm with
  | idle hidle =>
    rcases hp with ⟨c, hc⟩ | ⟨-, hzero⟩
    · rw [hidle] at hc
      cases hc
    · exact hzero
  | close hclose hid hdq => rfl
  | opening hopen hid hdq htarget =>
    rcases hp with ⟨c, hc⟩ | ⟨hidle, -⟩
    · rw [hopen] at hc
      cases hc
    · rw [hopen] at hidle
      cases hidle

/-! ### The decisions behind a plan -/

/-- What is held and what is pending was decided so that `D` holds of the decision, the
    target and the stop. -/
structure Backed (D : ℤ → Decimal → Option Protection → Prop) (p : Plan) : Prop where
  held : p.position ≠ 0 → ∃ d, p.opened = some d ∧ D d p.position p.stop
  pending : ∀ c target s d, p.pending = .opening c target s d → D d target s

/-- The pending opening was decided at the bar `last`, the stop of the position before it. -/
structure Dated (last : Option ℤ) (p : Plan) : Prop where
  held : ∀ s, p.stop = some s → ∃ t, last = some t ∧ s.decisionNs < t
  pending : ∀ c target s d, p.pending = .opening c target s d →
    last = some d ∧ ∀ x, s = some x → x.decisionNs = d

section

variable {D D' : ℤ → Decimal → Option Protection → Prop} {last : Option ℤ} {t : ℤ}

/-- A flat plan is backed by anything. -/
theorem Backed.flat : Backed D flat where
  held := fun h => absurd rfl h
  pending := fun _ _ _ _ h => by cases h

/-- A flat plan has no date. -/
theorem Dated.flat : Dated last flat where
  held := fun _ h => by cases h
  pending := fun _ _ _ _ h => by cases h

/-- More decisions back no less. -/
theorem Backed.mono (h : Backed D p) (hD : ∀ d target s, D d target s → D' d target s) :
    Backed D' p where
  held := by
    intro hpos
    obtain ⟨d, hd, hheld⟩ := h.held hpos
    exact ⟨d, hd, hD _ _ _ hheld⟩
  pending := fun c target s d hp => hD _ _ _ (h.pending c target s d hp)

/-- An idle plan keeps what backs its position. -/
theorem Backed.idle (h : Backed D p) : Backed D p.idle where
  held := h.held
  pending := fun _ _ _ _ hp => by cases hp

/-- An idle plan keeps the date of its position. -/
theorem Dated.idle (h : Dated last p) : Dated last p.idle where
  held := h.held
  pending := fun _ _ _ _ hp => by cases hp

/-- The latch keeps what backs the position. -/
theorem Backed.latched (h : Backed D p) : Backed D p.latch := by
  unfold Plan.latch
  split
  · exact h.idle
  · exact h
  · exact h

/-- The latch keeps the date of the position. -/
theorem Dated.latched (h : Dated last p) : Dated last p.latch := by
  unfold Plan.latch
  split
  · exact h.idle
  · exact h
  · exact h

/-- What the market orders fill is backed by the decision that sent them. -/
theorem Backed.market (h : Backed D p) (hm : Market p fills p') : Backed D p' := by
  cases hm with
  | idle hidle => exact h
  | close hclose hid hdq => exact .flat
  | opening hopen hid hdq htarget =>
    exact ⟨fun _ => ⟨_, rfl, h.pending _ _ _ _ hopen⟩, fun _ _ _ _ hp => by cases hp⟩

/-- **Step lemma**: a bar keeps what backs the plan. -/
theorem Backed.bar (h : Backed D p) (hb : Bar synthetic p fills p') : Backed D p' := by
  obtain ⟨p₁, fs₁, fs₂, hm, ht, -⟩ := hb
  cases ht with
  | hold => exact h.market hm
  | exit hpos hdq hid => exact .flat

/-- The open of the next bar: the stops are now all older than it. -/
theorem Dated.market (h : Dated last p) (hlast : ∀ l, last = some l → l < t)
    (hm : Market p fills p') : Dated (some t) p' := by
  cases hm with
  | idle hidle =>
    refine ⟨fun s hs => ?_, fun c target s d hp => ?_⟩
    · obtain ⟨l, hl, hlt⟩ := h.held s hs
      exact ⟨t, rfl, hlt.trans (hlast l hl)⟩
    · rw [hidle] at hp
      cases hp
  | close hclose hid hdq => exact .flat
  | opening hopen hid hdq htarget =>
    obtain ⟨hd, hstop⟩ := h.pending _ _ _ _ hopen
    refine ⟨fun s hs => ⟨t, rfl, ?_⟩, fun c target s d hp => by cases hp⟩
    rw [hstop s hs]
    exact hlast _ hd

/-- **Step lemma**: a bar dates the plan at its time. -/
theorem Dated.bar (h : Dated last p) (hlast : ∀ l, last = some l → l < t)
    (hb : Bar synthetic p fills p') : Dated (some t) p' := by
  obtain ⟨p₁, fs₁, fs₂, hm, ht, -⟩ := hb
  cases ht with
  | hold => exact h.market hlast hm
  | exit hpos hdq hid => exact .flat

/-- **Step lemma**: a decision backs what it opens. -/
theorem Backed.decide (h : Backed D p) {halted : Bool} {d : ℤ} (hd : Decide halted d p p')
    (hnew : ∀ c target s, p'.pending = .opening c target s d → D d target s) : Backed D p' := by
  cases hd with
  | nothing hflat => exact h
  | close hpos => exact ⟨h.held, fun _ _ _ _ hp => by cases hp⟩
  | opening hhalted hside hs =>
    refine ⟨h.held, fun c target s d hp => ?_⟩
    cases hp
    exact hnew _ _ _ rfl

/-- **Step lemma**: a decision dates what it opens. -/
theorem Dated.decide {d : ℤ} (h : Dated (some d) p) {halted : Bool} (hd : Decide halted d p p') :
    Dated (some d) p' := by
  cases hd with
  | nothing hflat => exact h
  | close hpos => exact ⟨h.held, fun _ _ _ _ hp => by cases hp⟩
  | opening hhalted hside hs =>
    refine ⟨h.held, fun c target s d hp => ?_⟩
    cases hp
    exact ⟨rfl, fun x hx => hs x hx⟩

end

end Plan

end FuzzHelm
