import FuzzHelm.Execution.OrderBook

namespace FuzzHelm

open Lib

/-!
# A broker without levels draws no identifiers

The broker asks its generator for an id only when a take-profit or a liquidation fires.  A
broker on which no such level is set therefore behaves the same with any generator, and the
generator can be exchanged for one that collides with nobody.

* `Book.IdFree` — a computation on books that is the same with any generator;
* `Book.idFree_runBar` — what a bar does is such a computation;
* `PaperBroker.call_withIds` — so is every call that sets no level.
-/

namespace Book

/-- The book with another generator of ids. -/
def withIds (b : Book) (g : IdGenerator) : Book := { b with ids := g }

/-- Neither level from which the broker makes orders of its own is set. -/
def NoLevels (b : Book) : Prop := b.st.tpPrice = none ∧ b.st.liqPrice = none

/-- **Free of ids**: on a book without levels the computation sets none, leaves the
    generator alone and does the same with any other one. -/
def IdFree (f : Book → Except PyError Book) : Prop :=
  ∀ (g : IdGenerator) (b b' : Book), b.NoLevels → f b = .ok b' →
    b'.NoLevels ∧ f (b.withIds g) = .ok (b'.withIds g)

/-- Doing nothing needs no identifier. -/
theorem idFree_ok : IdFree fun b => .ok b := by
  intro g b b' hl h
  cases h
  exact ⟨hl, rfl⟩

/-- Two computations one after the other. -/
theorem IdFree.bind {f f' : Book → Except PyError Book} (hf : IdFree f) (hf' : IdFree f') :
    IdFree fun b => f b >>= f' := by
  intro g b b' hl h
  obtain ⟨b₁, h₁, h⟩ := bind_eq_ok.mp h
  obtain ⟨hl₁, hg₁⟩ := hf g b b₁ hl h₁
  obtain ⟨hl', hg'⟩ := hf' g b₁ b' hl₁ h
  exact ⟨hl', bind_eq_ok.mpr ⟨_, hg₁, hg'⟩⟩

/-- Closing a position needs no identifier. -/
theorem idFree_onPositionClosed (old : Decimal) : IdFree fun b => b.onPositionClosed old := by
  intro g b b' hl h
  unfold onPositionClosed at h ⊢
  obtain ⟨⟨keep, orders⟩, hs, h⟩ := bind_eq_ok.mp h
  cases h
  refine ⟨⟨?_, rfl⟩, bind_eq_ok.mpr ⟨_, hs, rfl⟩⟩
  show (if _ then none else b.st.tpPrice) = none
  rw [hl.1, ite_self]

/-- An execution needs no identifier. -/
theorem idFree_execute (coid : Uuid) (o : Order) (pRef : Decimal) (ts : ℤ)
    (reason : Option ExitReason) : IdFree fun b => b.execute coid o pRef ts reason := by
  intro g b b' hl h
  unfold execute at h ⊢
  -- the quantity does not depend on the identifiers
  have hqty : (b.withIds g).executableQty o.req = b.executableQty o.req := rfl
  simp only [hqty]
  by_cases hq : b.executableQty o.req ≤ 0
  · simp only [if_pos hq] at h ⊢
    cases h
    exact ⟨hl, rfl⟩
  · simp only [if_neg hq] at h ⊢
    obtain ⟨⟨q, cost⟩, hquote, h⟩ := bind_eq_ok.mp h
    obtain ⟨fill, hfill, h⟩ := bind_eq_ok.mp h
    have hb₁ : (b.recordFill coid o fill cost (b.executionReason o.req reason)).NoLevels := hl
    -- nor does what happens when the fill closes the position
    have key : ∀ b₁ : Book, b₁.NoLevels →
        (if closes b.st.position b₁.st.position then b₁.onPositionClosed b.st.position
          else pure b₁) = .ok b' →
        b'.NoLevels ∧
          (if closes b.st.position b₁.st.position then
            (b₁.withIds g).onPositionClosed b.st.position else pure (b₁.withIds g)) =
            .ok (b'.withIds g) := by
      intro b₁ hl₁ h₁
      by_cases hc : closes b.st.position b₁.st.position
      · simp only [if_pos hc] at h₁ ⊢
        exact idFree_onPositionClosed _ g b₁ b' hl₁ h₁
      · simp only [if_neg hc] at h₁ ⊢
        cases h₁
        exact ⟨hl₁, rfl⟩
    obtain ⟨hl', hg⟩ := key _ hb₁ h
    exact ⟨hl', bind_eq_ok.mpr ⟨_, hquote, bind_eq_ok.mpr ⟨_, hfill, hg⟩⟩⟩

/-- The loop over the market queue, whose result holds a queue besides the book. -/
theorem idFree_fillLoop (p : Decimal) (t : ℤ) (g : IdGenerator) (cs : List Uuid) :
    ∀ (b b' : Book) (keep : List Uuid), b.NoLevels → fillLoop p t cs b = .ok (keep, b') →
      b'.NoLevels ∧ fillLoop p t cs (b.withIds g) = .ok (keep, b'.withIds g) := by
  induction cs with
  | nil =>
    intro b b' keep hl h
    cases h
    exact ⟨hl, rfl⟩
  | cons c cs ih =>
    intro b b' keep hl h
    rw [fillLoop] at h ⊢
    obtain ⟨o, ho, h⟩ := bind_eq_ok.mp h
    have ho' : orderOf (b.withIds g).orders c = .ok o := ho
    -- each order takes the same way with other identifiers
    by_cases hnew : o.status ≠ .new
    · simp only [if_pos hnew] at h
      obtain ⟨hl', hg⟩ := ih b b' keep hl h
      refine ⟨hl', bind_eq_ok.mpr ⟨o, ho', ?_⟩⟩
      simp only [if_pos hnew]
      exact hg
    · by_cases hlate : t < o.req.tsCreatedNs
      · -- the order was created after the bar opened: it stays queued
        simp only [if_neg hnew, if_pos hlate] at h
        obtain ⟨⟨keep', b₁⟩, h₁, h⟩ := bind_eq_ok.mp h
        cases h
        obtain ⟨hl', hg⟩ := ih b b₁ keep' hl h₁
        refine ⟨hl', bind_eq_ok.mpr ⟨o, ho', ?_⟩⟩
        simp only [if_neg hnew, if_pos hlate]
        exact bind_eq_ok.mpr ⟨_, hg, rfl⟩
      · simp only [if_neg hnew, if_neg hlate] at h
        obtain ⟨b₁, h₁, h⟩ := bind_eq_ok.mp h
        obtain ⟨hl₁, hg₁⟩ := idFree_execute c o p t none g b b₁ hl h₁
        obtain ⟨hl', hg⟩ := ih b₁ b' keep hl₁ h
        refine ⟨hl', bind_eq_ok.mpr ⟨o, ho', ?_⟩⟩
        simp only [if_neg hnew, if_neg hlate]
        exact bind_eq_ok.mpr ⟨_, hg₁, hg⟩

/-- Filling the market orders needs no identifier. -/
theorem idFree_fillMarketOrders (bar : DecBar) : IdFree fun b => b.fillMarketOrders bar := by
  intro g b b' hl h
  obtain ⟨⟨keep, b₁⟩, h₁, h⟩ := bind_eq_ok.mp h
  cases h
  obtain ⟨hl₁, hg⟩ := idFree_fillLoop bar.o bar.openTimeNs g b.st.marketQueue b b₁ keep hl h₁
  exact ⟨hl₁, bind_eq_ok.mpr ⟨_, hg, rfl⟩⟩

/-- Without levels every trigger is a stop. -/
theorem stop_of_noLevels {b : Book} {t : ℤ} {tr : Trigger} (hl : b.NoLevels)
    (htr : IsTrigger b t tr) : tr.kind = .stop := by
  cases htr with
  | stop => rfl
  | tp hprice => exact absurd (hl.1.symm.trans hprice) (by simp)
  | liq hprice => exact absurd (hl.2.symm.trans hprice) (by simp)

/-- Without levels a trigger is a stop, and firing it needs no identifier. -/
theorem fire_withIds {g : IdGenerator} {b b' : Book} {tr : Trigger} {p : Decimal} {t : ℤ}
    (hl : b.NoLevels) (htr : IsTrigger b t tr) (h : b.fire tr p t = .ok b') :
    b'.NoLevels ∧ (b.withIds g).fire tr p t = .ok (b'.withIds g) := by
  have hkind := stop_of_noLevels hl htr
  cases htr with
  | stop hc ho hnew hprice hts =>
    rw [fire] at h ⊢
    obtain ⟨o, ho', h⟩ := bind_eq_ok.mp h
    obtain ⟨hl', hg⟩ := idFree_execute _ o p t none g _ b' (show (b.takeStop _).NoLevels from hl) h
    exact ⟨hl', bind_eq_ok.mpr ⟨o, ho', hg⟩⟩
  | tp => cases hkind
  | liq => cases hkind

/-- The walk at the open needs no identifier. -/
theorem idFree_walkAtOpen (o : Decimal) (t : ℤ) (n : ℕ) : IdFree fun b => b.walkAtOpen o t n := by
  induction n with
  | zero => exact idFree_ok
  | succ n ih =>
    intro g b b' hl h
    simp only [walkAtOpen] at h ⊢
    obtain ⟨ts, hts, h⟩ := bind_eq_ok.mp h
    have hts' : (b.withIds g).triggers t = .ok ts := hts
    -- the same trigger is first, and no order of the broker's own is made
    cases hmin : firstMin (fun x m => decide (x.priority < m.priority)) (ts.filter (behind o)) with
    | none =>
      simp only [hmin] at h
      cases h
      refine ⟨hl, bind_eq_ok.mpr ⟨ts, hts', ?_⟩⟩
      rw [hmin]
      rfl
    | some first =>
      simp only [hmin] at h
      obtain ⟨b₁, h₁, h⟩ := bind_eq_ok.mp h
      have hmem := (List.mem_filter.mp (firstMin_mem hmin)).1
      obtain ⟨hl₁, hg₁⟩ := fire_withIds (g := g) hl (isTrigger_of_mem hts hmem) h₁
      obtain ⟨hl', hg⟩ := ih g b₁ b' hl₁ h
      refine ⟨hl', bind_eq_ok.mpr ⟨ts, hts', ?_⟩⟩
      rw [hmin]
      exact bind_eq_ok.mpr ⟨_, hg₁, hg⟩

/-- A segment of the path needs no identifier, by induction on the fuel. -/
theorem idFree_walkSegment (t : ℤ) (dest : Decimal) (n : ℕ) :
    ∀ cur, IdFree fun b => b.walkSegment t dest n cur := by
  induction n with
  | zero => exact fun _ => idFree_ok
  | succ n ih =>
    intro cur g b b' hl h
    simp only [walkSegment] at h ⊢
    by_cases hd : dest = cur
    · simp only [if_pos hd] at h ⊢
      exact idFree_ok g b b' hl h
    · simp only [if_neg hd] at h ⊢
      obtain ⟨ts, hts, h⟩ := bind_eq_ok.mp h
      -- the nearest level is the same
      cases hmin : firstMin (nearer cur dest) (ts.filter (onTheWay cur dest)) with
      | none =>
        simp only [hmin] at h
        cases h
        refine ⟨hl, bind_eq_ok.mpr ⟨ts, hts, ?_⟩⟩
        rw [hmin]
        rfl
      | some first =>
        simp only [hmin] at h
        obtain ⟨b₁, h₁, h⟩ := bind_eq_ok.mp h
        have hmem := (List.mem_filter.mp (firstMin_mem hmin)).1
        obtain ⟨hl₁, hg₁⟩ := fire_withIds (g := g) hl (isTrigger_of_mem hts hmem) h₁
        obtain ⟨hl', hg⟩ := ih first.level g b₁ b' hl₁ h
        refine ⟨hl', bind_eq_ok.mpr ⟨ts, hts, ?_⟩⟩
        rw [hmin]
        exact bind_eq_ok.mpr ⟨_, hg₁, hg⟩

/-- The path needs no identifier, by induction on its points. -/
theorem idFree_walkPath (t : ℤ) (rest : List Decimal) :
    ∀ cur, IdFree fun b => walkPath t rest b cur := by
  induction rest with
  | nil => exact fun _ => idFree_ok
  | cons dest rest ih =>
    intro cur g b b' hl h
    simp only [walkPath] at h ⊢
    obtain ⟨b₁, h₁, h⟩ := bind_eq_ok.mp h
    obtain ⟨hl₁, hg₁⟩ := idFree_walkSegment t dest b.budget cur g b b₁ hl h₁
    obtain ⟨hl', hg⟩ := ih dest g b₁ b' hl₁ h
    exact ⟨hl', bind_eq_ok.mpr ⟨_, hg₁, hg⟩⟩

/-- The whole walk needs no identifier. -/
theorem idFree_walkPhase (bar : DecBar) : IdFree fun b => b.walkPhase bar := by
  intro g b b' hl h
  simp only [walkPhase] at h ⊢
  -- whether there is anything to walk is read off the levels and the stops
  split at h
  · rename_i hwalk
    have hwalk' : (b.withIds g).st.stopOrders ≠ [] ∨ ((b.withIds g).st.position ≠ 0 ∧
      ((b.withIds g).st.tpPrice.isSome ∨ (b.withIds g).st.liqPrice.isSome)) := hwalk
    rw [if_pos hwalk']
    simp only [walkTriggers] at h ⊢
    obtain ⟨ts, hts, h⟩ := bind_eq_ok.mp h
    have hts' : (b.withIds g).triggers bar.openTimeNs = .ok ts := hts
    by_cases hr : reachable bar ts
    · simp only [hr, Bool.not_true, Bool.false_eq_true, if_false] at h
      obtain ⟨b₁, h₁, h⟩ := bind_eq_ok.mp h
      obtain ⟨hl₁, hg₁⟩ := idFree_walkAtOpen bar.o bar.openTimeNs b.budget g b b₁ hl h₁
      obtain ⟨hl', hg⟩ := idFree_walkPath bar.openTimeNs (b₁.path bar) bar.o g b₁ b' hl₁ h
      refine ⟨hl', bind_eq_ok.mpr ⟨ts, hts', ?_⟩⟩
      simp only [hr, Bool.not_true, Bool.false_eq_true, if_false]
      exact bind_eq_ok.mpr ⟨_, hg₁, hg⟩
    · simp only [hr, Bool.not_false, if_true] at h
      cases h
      refine ⟨hl, bind_eq_ok.mpr ⟨ts, hts', ?_⟩⟩
      simp only [hr, Bool.not_false, if_true]
      rfl
  · rename_i hwalk
    have hwalk' : ¬((b.withIds g).st.stopOrders ≠ [] ∨ ((b.withIds g).st.position ≠ 0 ∧
      ((b.withIds g).st.tpPrice.isSome ∨ (b.withIds g).st.liqPrice.isSome))) := hwalk
    rw [if_neg hwalk']
    exact idFree_ok g b b' hl h

/-- Sweeping what is left over needs no identifier. -/
theorem idFree_expirePhase : IdFree fun b => b.expirePhase := by
  intro g b b' hl h
  simp only [expirePhase] at h ⊢
  by_cases hs : b.st.stopOrders ≠ []
  · rw [if_pos hs] at h
    have hs' : (b.withIds g).st.stopOrders ≠ [] := hs
    rw [if_pos hs']
    unfold expireOrphanStops at h ⊢
    obtain ⟨sides, hsides, h⟩ := bind_eq_ok.mp h
    obtain ⟨⟨keep, orders⟩, hsweep, h⟩ := bind_eq_ok.mp h
    cases h
    exact ⟨hl, bind_eq_ok.mpr ⟨sides, hsides, bind_eq_ok.mpr ⟨_, hsweep, rfl⟩⟩⟩
  · have hs' : ¬(b.withIds g).st.stopOrders ≠ [] := hs
    rw [if_neg hs] at h
    rw [if_neg hs']
    exact idFree_ok g b b' hl h

/-- **A bar without levels draws no id.** -/
theorem idFree_runBar (bar : DecBar) : IdFree fun b => b.runBar bar :=
  (idFree_fillMarketOrders bar).bind ((idFree_walkPhase bar).bind idFree_expirePhase)

end Book

namespace PaperBroker

/-- The broker with another generator of ids. -/
def withIds (pb : PaperBroker) (g : IdGenerator) : PaperBroker := { pb with ids := g }

/-- No instrument has a level set. -/
def NoLevels (pb : PaperBroker) : Prop :=
  ∀ i st, pb.state.get? i = some st → st.tpPrice = none ∧ st.liqPrice = none

variable {pb pb' : PaperBroker} {g : IdGenerator}

/-- A state without levels is written where there were none. -/
theorem NoLevels.insert (hl : pb.NoLevels) {i : String} {st : InstState}
    (h : pb'.state = pb.state.insert i st) (hst : st.tpPrice = none ∧ st.liqPrice = none) :
    pb'.NoLevels := by
  intro j st' hj
  rw [h, Dict.get?_insert] at hj
  split at hj
  · cases hj
    exact hst
  · exact hl j st' hj

/-- A new broker has no levels. -/
theorem noLevels_new (cost : CostModel) (instruments : List Instrument) (ids : IdGenerator)
    (lam rate : Decimal) : (new cost instruments ids lam rate).NoLevels := by
  intro i st hst
  obtain ⟨spec, -, rfl⟩ := new_state hst
  exact ⟨rfl, rfl⟩

/-- A submission gives the same answer with other identifiers. -/
theorem submit_withIds (now : ℤ) (req : OrderRequest) :
    (pb.withIds g).submit now req = ((pb.submit now req).1, (pb.submit now req).2.withIds g) := by
  unfold submit
  cases hknown : (pb.orders.get? req.clientOrderId).isSome with
  | true => simp only [withIds, hknown, if_true]
  | false =>
    simp only [withIds, hknown, Bool.false_eq_true, if_false]
    cases pb.state.get? req.instrument with
    | none => rfl
    | some st =>
      by_cases hzero : floorQty req.qty st.spec.stepSize ≤ 0
      · simp only [if_pos hzero]
        rfl
      · simp only [if_neg hzero]
        split
        · rfl
        · split <;> rfl

/-- A submission sets no levels. -/
theorem submit_noLevels (hl : pb.NoLevels) (now : ℤ) (req : OrderRequest) :
    (pb.submit now req).2.NoLevels := by
  cases ho : pb.orders.get? req.clientOrderId with
  | some o =>
    rw [submit_known (by simp [ho])]
    exact hl
  | none =>
    rcases submit_new now ho with ⟨code, h⟩ | ⟨st, sp, hst, -, -, h⟩
    · rw [h]
      exact hl
    · rw [h]
      refine hl.insert rfl ?_
      split
      · exact hl _ st hst
      · exact hl _ st hst

/-- **A bar** fills the same with other identifiers where there are no levels. -/
theorem onBar_withIds {bar : DecBar} {fills : List Fill} (hl : pb.NoLevels)
    (h : pb.onBar bar = .ok (fills, pb')) :
    pb'.NoLevels ∧ (pb.withIds g).onBar bar = .ok (fills, pb'.withIds g) := by
  obtain ⟨st, b, hst, hlast, hb, rfl, rfl⟩ := onBar_eq_ok h
  obtain ⟨hl', hg⟩ := Book.idFree_runBar bar g (pb.book st) b (hl _ st hst) hb
  refine ⟨hl.insert rfl (show b.st.tpPrice = none ∧ b.st.liqPrice = none from hl'), ?_⟩
  have hnext : ¬(st.lastOpenNs.any (fun last => decide (bar.openTimeNs ≤ last)) = true) := by
    rw [Option.any_eq_true]
    rintro ⟨last, hl₁, hle⟩
    exact absurd (of_decide_eq_true hle) (not_le.mpr (hlast last hl₁))
  have hst' : (pb.withIds g).state.get? bar.instrument = some st := hst
  unfold onBar
  simp only [hst', if_neg hnext]
  exact bind_eq_ok.mpr ⟨_, hg, rfl⟩

end PaperBroker

/-- The calls that set a level. -/
def BrokerCall.SetsLevel : BrokerCall → Prop
  | .setTakeProfit .. => True
  | .setLiquidationPrice .. => True
  | .submit .. => False
  | .cancel _ => False
  | .cancelAll _ => False
  | .onBar _ => False
  | .setFundingRate .. => False
  | .nextUuid => False

/-- **A call that sets no level** sets none, and with another generator it does the same,
    unless it is a draw from the generator itself. -/
theorem PaperBroker.call_withIds {pb pb' : PaperBroker} {c : BrokerCall} {a : BrokerAnswer}
    (g : IdGenerator) (hl : pb.NoLevels) (hset : ¬c.SetsLevel) (h : pb.call c = .ok (a, pb')) :
    pb'.NoLevels ∧ ((pb.withIds g).call c = .ok (a, pb'.withIds g) ∨
      (a.emitted = [] ∧ pb'.withIds g = pb.withIds g)) := by
  -- only a level makes the broker draw ids, so every other call ignores the generator
  cases c with
  | submit now req =>
    cases h
    refine ⟨submit_noLevels hl now req, .inl ?_⟩
    show Except.ok (BrokerAnswer.ack _, _) = _
    rw [submit_withIds]
  | cancel coid =>
    obtain ⟨⟨done, pb₁⟩, hcall, h⟩ := bind_eq_ok.mp h
    cases h
    rw [PaperBroker.cancel] at hcall
    split at hcall
    · rename_i ho
      cases hcall
      refine ⟨hl, .inl (bind_eq_ok.mpr ⟨(false, pb.withIds g), ?_, rfl⟩)⟩
      exact cancel_dead fun o' ho' => by cases ho.symm.trans ho'
    · rename_i o ho
      split at hcall
      · rename_i hold
        cases hcall
        refine ⟨hl, .inl (bind_eq_ok.mpr ⟨(false, pb.withIds g), ?_, rfl⟩)⟩
        exact cancel_dead fun o' ho' => by cases ho.symm.trans ho'; exact hold
      · rename_i hnew
        obtain ⟨st, hst, hcall⟩ := bind_eq_ok.mp hcall
        cases hcall
        rw [require_eq_ok] at hst
        refine ⟨hl.insert rfl (hl _ st hst), .inl (bind_eq_ok.mpr
          ⟨(true, (pb.withIds g).withdraw coid o st), ?_, rfl⟩)⟩
        exact cancel_live ho (not_not.mp hnew) hst
  | cancelAll instrument =>
    obtain ⟨pb₁, hcall, h⟩ := bind_eq_ok.mp h
    cases h
    unfold PaperBroker.cancelAll at hcall
    split at hcall
    · rename_i hnone
      cases hcall
      have hnone' : (pb.withIds g).state.get? instrument = none := hnone
      refine ⟨hl, .inl (bind_eq_ok.mpr ⟨pb.withIds g, ?_, rfl⟩)⟩
      simp only [PaperBroker.cancelAll, hnone']
    · rename_i st hst
      obtain ⟨orders, hq, hcall⟩ := bind_eq_ok.mp hcall
      cases hcall
      have hst' : (pb.withIds g).state.get? instrument = some st := hst
      refine ⟨hl.insert rfl ⟨rfl, (hl _ st hst).2⟩, .inl (bind_eq_ok.mpr ⟨_, ?_, rfl⟩)⟩
      simp only [PaperBroker.cancelAll, hst']
      exact bind_eq_ok.mpr ⟨orders, hq, rfl⟩
  | onBar bar =>
    obtain ⟨⟨fs, pb₁⟩, hcall, h⟩ := bind_eq_ok.mp h
    cases h
    obtain ⟨hl', hg⟩ := onBar_withIds (g := g) hl hcall
    exact ⟨hl', .inl (bind_eq_ok.mpr ⟨_, hg, rfl⟩)⟩
  | setTakeProfit => exact absurd trivial hset
  | setLiquidationPrice => exact absurd trivial hset
  | setFundingRate instrument rate =>
    obtain ⟨pb₁, hcall, h⟩ := bind_eq_ok.mp h
    cases h
    obtain ⟨st, hst, hcall⟩ := bind_eq_ok.mp hcall
    cases hcall
    rw [require_eq_ok] at hst
    have hst' : (pb.withIds g).require instrument = .ok st := require_eq_ok.mpr hst
    exact ⟨hl.insert rfl (hl _ st hst),
      .inl (bind_eq_ok.mpr ⟨_, bind_eq_ok.mpr ⟨st, hst', rfl⟩, rfl⟩)⟩
  | nextUuid =>
    cases h
    exact ⟨hl, .inr ⟨rfl, rfl⟩⟩

end FuzzHelm
