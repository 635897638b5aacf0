import FuzzHelm.Backtest.Represents
import FuzzHelm.Execution.BarTrace
import FuzzHelm.Execution.PortfolioIdentity

namespace FuzzHelm

open Lib

/-!
# A bar is booked

The second and the third part of a step: the fills of the bar reach the account and the
records, and the loop represents the plan after the bar.

* `Portfolio.applyFill_qty` and its kin — what the events of the account do to a position;
* `applyFill_eq_ok`, `applyFill_spec` — one fill;
* `syncOrders_spec` — the records follow the broker;
* `Represents.bookBar`, `Represents.valueBar` — the two parts.
-/

/-! ### The account -/

namespace Portfolio

variable {pf : Portfolio} {i : String}

/-- A position that is not there yet has no quantity. -/
theorem qty_positionOrNew : (pf.positionOrNew i).qty = pf.positionQty i := by
  unfold positionOrNew positionQty
  cases pf.positions.get? i <;> rfl

/-- A position that is written in place of another. -/
theorem positionQty_insert (pf : Portfolio) {pf' : Portfolio} {j : String} {pos : Position}
    (h : pf'.positions = pf.positions.insert j pos) :
    pf'.positionQty i = if j = i then pos.qty else pf.positionQty i := by
  rw [positionQty, h, Dict.get?_insert]
  split <;> rfl

/-- Funding moves cash, not the position. -/
theorem applyFunding_qty (ch : FundingCharge) :
    (pf.applyFunding ch).positionQty i = pf.positionQty i := by
  have hpos : (pf.applyFunding ch).positions = pf.positions.insert ch.instrument
      { pf.positionOrNew ch.instrument with
        fundingPaid := (pf.positionOrNew ch.instrument).fundingPaid + ch.amount
        tFunding := (pf.positionOrNew ch.instrument).tFunding + ch.amount } := rfl
  rw [positionQty_insert pf hpos]
  split
  · rename_i hi
    subst hi
    exact qty_positionOrNew
  · rfl

/-- Nor do many charges, by induction on them. -/
theorem foldl_applyFunding_qty (charges : List FundingCharge) :
    (charges.foldl applyFunding pf).positionQty i = pf.positionQty i := by
  induction charges generalizing pf with
  | nil => rfl
  | cons ch charges ih => exact ih.trans (applyFunding_qty ch)

/-- A fill that the account takes moves the position of its instrument. -/
theorem applyFill_qty {f : Fill} {r : Option ExitReason} {trades : List ClosedTrade}
    (h : (pf.applyFill f r).1 = .ok trades) :
    (pf.applyFill f r).2.positionQty f.instrument = pf.positionQty f.instrument + f.dq := by
  unfold applyFill at h ⊢
  split at h
  · cases h
  · rename_i hside
    have hpos : (pf.bookFill f r).2.positions = pf.positions.insert f.instrument
        ((pf.positionOrNew f.instrument).fill f r).1 := rfl
    rw [if_neg hside]
    change (pf.bookFill f r).2.positionQty f.instrument = _
    rw [positionQty_insert pf hpos, if_pos rfl, (Position.fill_cost hside r).1, qty_positionOrNew]

/-- A mark moves prices, not the position. -/
theorem mark_qty (prices : List (String × Decimal)) :
    (pf.mark prices).2.positionQty i = pf.positionQty i := by
  induction prices generalizing pf with
  | nil => rfl
  | cons e prices ih =>
    rw [mark]
    split
    · rfl
    · refine ih.trans ?_
      -- only the adverse excursion of an open position moves
      unfold markOne
      cases hpos : pf.positions.get? e.1 with
      | none => rfl
      | some pos =>
        dsimp only
        split
        · rw [positionQty_insert pf rfl]
          split
          · rename_i hi
            subst hi
            rw [positionQty, hpos]
            rfl
          · rfl
        · rfl

end Portfolio

/-! ### One fill -/

namespace TradingLoop

variable {l l' : TradingLoop}

/-- The role that the fills of an order are booked under. -/
def roleOf (l : TradingLoop) (c : Uuid) : Option String :=
  match l.orders.get? c with
  | some record => some record.role
  | none => (l.broker.orderRequest c).map fun req => syntheticRole req.decisionRef

/-- What a fill of the instrument does to the loop. -/
structure Filled (l : TradingLoop) (f : Fill) (l' : TradingLoop) : Prop where
  keeps : Keeps l l'
  broker : l'.broker = l.broker
  router : l'.router = l.router
  openOrders : l'.openOrders = l.openOrders
  others : ∀ x, x ≠ f.clientOrderId → l'.orders.get? x = l.orders.get? x
  record : ∃ r, l'.orders.get? f.clientOrderId = some r ∧ l.roleOf f.clientOrderId = some r.role
  qty : l'.positionQty = l.positionQty + f.dq
  opened : l'.positionQty ≠ 0 →
    (l.positionQty = 0 ∨ sign l'.positionQty ≠ sign l.positionQty) →
    ∃ r, l'.openPos = some r ∧
      r.openingDecisionNs = (l.entries.get? f.clientOrderId).map EntryMeta.decisionNs

/-- Trades that close leave everything alone but the open position, which may be gone. -/
theorem closePositions_eq_ok {cts : List ClosedTrade} {records : List PositionRecord}
    (h : closePositions cts l = .ok (records, l')) :
    l' = { l with openPos := l'.openPos } ∧ (l'.openPos = l.openPos ∨ l'.openPos = none) := by
  induction cts generalizing l records with
  | nil =>
    cases h
    exact ⟨rfl, .inl rfl⟩
  | cons ct cts ih =>
    rw [closePositions, bind_eq_ok] at h
    obtain ⟨⟨record, l₁⟩, hone, h⟩ := h
    rw [bind_eq_ok] at h
    obtain ⟨⟨records', l₂⟩, hrest, h⟩ := h
    cases h
    unfold closePosition at hone
    split at hone
    · cases hone
    · cases hone
      obtain ⟨hl', hpos⟩ := ih hrest
      exact ⟨hl', .inr (hpos.elim id id)⟩

/-- An opening takes the entry of its order out of the book of entries. -/
theorem openPosition_eq_ok {f : Fill} {qty : Decimal} (h : l.openPosition f qty = .ok l') :
    ∃ record, record.openingDecisionNs =
        (l.entries.get? f.clientOrderId).map EntryMeta.decisionNs ∧
      l' = { l with
        entries := l.entries.erase f.clientOrderId
        openPos := some record } := by
  unfold openPosition at h
  split at h
  · cases h
  · rw [bind_eq_ok] at h
    obtain ⟨eq, -, h⟩ := h
    rw [bind_eq_ok] at h
    obtain ⟨margin, -, h⟩ := h
    cases h
    exact ⟨_, rfl, rfl⟩

/-- A fill of an order that is known has the role that was noted for it. -/
theorem orderRecordForFill_role {f : Fill} {record : OrderRecord}
    (h : l.orderRecordForFill f = .ok record) :
    l.roleOf f.clientOrderId = some record.role := by
  unfold orderRecordForFill at h
  unfold roleOf
  cases horder : l.orders.get? f.clientOrderId with
  | some r =>
    rw [horder] at h
    cases h
    rfl
  | none =>
    rw [horder] at h
    cases hreq : l.broker.orderRequest f.clientOrderId with
    | none =>
      rw [hreq] at h
      cases h
    | some req =>
      rw [hreq] at h
      cases h
      rfl

/-- What the loop makes of a fill that it takes: the record of the order, the account, and the
    open position, which an opening fill replaces and any other one keeps or closes. -/
structure Applied (l : TradingLoop) (f : Fill) (acc acc' : Collected) (l' : TradingLoop)
    (record : OrderRecord) (reason : Option ExitReason) : Prop where
  found : l.orderRecordForFill f = .ok record
  account : ∃ trades, (l.portfolio.applyFill f reason).1 = .ok trades
  state : l' = { l.recordFill f record with
    portfolio := (l.portfolio.applyFill f reason).2
    entries := l'.entries
    openPos := l'.openPos }
  newOrders : acc'.newOrders = if (l.orders.get? f.clientOrderId).isSome then acc.newOrders
    else acc.newOrders ++ [f.clientOrderId]
  position :
    (l'.entries = l.entries.erase f.clientOrderId ∧ ∃ r, l'.openPos = some r ∧
      r.openingDecisionNs = (l.entries.get? f.clientOrderId).map EntryMeta.decisionNs) ∨
    (l'.entries = l.entries ∧ (l'.openPos = l.openPos ∨ l'.openPos = none) ∧
      ¬ (l'.positionQty ≠ 0 ∧
        (l.positionQty = 0 ∨ sign l'.positionQty ≠ sign l.positionQty)))

/-- **One fill, inverted**: what the loop has done with it, whatever its role. -/
theorem applyFill_eq_ok {f : Fill} {acc acc' : Collected}
    (h : l.applyFill f acc = .ok (acc', l')) :
    ∃ record reason, Applied l f acc acc' l' record reason := by
  rw [applyFill, bind_eq_ok] at h
  obtain ⟨record, hrecord, h⟩ := h
  rw [bind_eq_ok] at h
  obtain ⟨trades, htrades, h⟩ := h
  rw [bind_eq_ok] at h
  obtain ⟨⟨closed, l₃⟩, hclosed, h⟩ := h
  obtain ⟨hl₃, hpos₃⟩ := closePositions_eq_ok hclosed
  dsimp only at h
  -- a new side opens a position; otherwise it stays closed or as it is
  split at h
  · rw [bind_eq_ok] at h
    obtain ⟨l₄, hopen, h⟩ := h
    cases h
    obtain ⟨r, hr, hl₄⟩ := openPosition_eq_ok hopen
    rw [hl₃] at hl₄ hr
    rw [hl₄]
    exact ⟨record, _, hrecord, ⟨trades, htrades⟩, rfl, rfl, .inl ⟨rfl, r, rfl, hr⟩⟩
  · rename_i hno
    cases h
    rw [hl₃]
    exact ⟨record, _, hrecord, ⟨trades, htrades⟩, rfl, rfl, .inr ⟨rfl, hpos₃, hno⟩⟩

/-- **One fill.** -/
theorem applyFill_spec {f : Fill} {acc acc' : Collected} (hinst : f.instrument = l.sym)
    (h : l.applyFill f acc = .ok (acc', l')) : Filled l f l' := by
  obtain ⟨record, reason, happ⟩ := applyFill_eq_ok h
  obtain ⟨trades, htrades⟩ := happ.account
  have hrole := orderRecordForFill_role happ.found
  have hqty := Portfolio.applyFill_qty htrades
  rw [hinst] at hqty
  -- only the record of the order that the fill executes has changed
  have hself : (l.recordFill f record).orders.get? f.clientOrderId = some (record.addFill f) :=
    Dict.get?_insert_self ..
  have hothers : ∀ x, x ≠ f.clientOrderId →
      (l.recordFill f record).orders.get? x = l.orders.get? x :=
    fun x hx => Dict.get?_insert_of_ne _ _ hx.symm
  -- a position that is new, or has turned, was opened by this fill
  have hopened : l'.positionQty ≠ 0 →
      (l.positionQty = 0 ∨ sign l'.positionQty ≠ sign l.positionQty) →
      ∃ r, l'.openPos = some r ∧
        r.openingDecisionNs = (l.entries.get? f.clientOrderId).map EntryMeta.decisionNs := by
    intro hne hside
    rcases happ.position with ⟨-, hopen⟩ | ⟨-, -, hno⟩
    · exact hopen
    · exact absurd ⟨hne, hside⟩ hno
  rw [happ.state] at hopened ⊢
  exact ⟨⟨rfl, rfl, rfl, rfl, rfl, rfl⟩, rfl, rfl, rfl, hothers,
    ⟨_, hself, hrole⟩, hqty, hopened⟩

/-! ### The fills of a bar -/

/-- What the fills of a bar do to the records: roles stay, and every fill has a record. -/
structure FilledAll (l : TradingLoop) (fs : List Fill) (l' : TradingLoop) : Prop where
  keeps : Keeps l l'
  broker : l'.broker = l.broker
  router : l'.router = l.router
  openOrders : l'.openOrders = l.openOrders
  others : ∀ x, x ∉ fs.map Fill.clientOrderId → l'.orders.get? x = l.orders.get? x
  recorded : ∀ f ∈ fs, (l'.orders.get? f.clientOrderId).isSome
  role : ∀ x, l'.roleOf x = l.roleOf x

/-- One fill is a list of fills. -/
theorem Filled.all {f : Fill} (h : Filled l f l') : FilledAll l [f] l' where
  keeps := h.keeps
  broker := h.broker
  router := h.router
  openOrders := h.openOrders
  others := fun x hx => h.others x (by simpa using hx)
  recorded := by
    intro g hg
    rw [List.mem_singleton] at hg
    obtain ⟨r, hr, -⟩ := h.record
    rw [hg, hr]
    rfl
  role := by
    intro x
    rcases eq_or_ne x f.clientOrderId with rfl | hx
    · obtain ⟨r, hr, hrole⟩ := h.record
      rw [hrole, roleOf, hr]
    · rw [roleOf, h.others x hx, h.broker]
      rfl

/-- Fills after fills. -/
theorem FilledAll.trans {l₁ : TradingLoop} {fs₁ fs₂ : List Fill} (h : FilledAll l fs₁ l₁)
    (h' : FilledAll l₁ fs₂ l') : FilledAll l (fs₁ ++ fs₂) l' where
  keeps := h.keeps.trans h'.keeps
  broker := h'.broker.trans h.broker
  router := h'.router.trans h.router
  openOrders := h'.openOrders.trans h.openOrders
  others := by
    intro x hx
    rw [List.map_append, List.mem_append, not_or] at hx
    exact (h'.others x hx.2).trans (h.others x hx.1)
  recorded := by
    intro f hf
    by_cases hlater : f.clientOrderId ∈ fs₂.map Fill.clientOrderId
    · obtain ⟨g, hg, heq⟩ := List.mem_map.mp hlater
      rw [← heq]
      exact h'.recorded g hg
    · have hearlier : f ∈ fs₁ := (List.mem_append.mp hf).resolve_right fun hf₂ =>
        hlater (List.mem_map_of_mem hf₂)
      rw [h'.others _ hlater]
      exact h.recorded f hearlier
  role := fun x => (h'.role x).trans (h.role x)

/-- **Run lemma**: all fills of a bar, by induction on them. -/
theorem applyFills_spec {fs : List Fill} {acc acc' : Collected}
    (hinst : ∀ f ∈ fs, f.instrument = l.sym) (h : applyFills fs l acc = .ok (acc', l')) :
    FilledAll l fs l' := by
  induction fs generalizing l acc with
  | nil =>
    cases h
    exact ⟨.refl _, rfl, rfl, rfl, fun _ _ => rfl, (fun _ hf => by cases hf), fun _ => rfl⟩
  | cons f fs ih =>
    rw [applyFills, bind_eq_ok] at h
    obtain ⟨⟨acc₁, l₁⟩, hone, h⟩ := h
    have hf := applyFill_spec (hinst f (List.mem_cons_self ..)) hone
    have hsym : l₁.sym = l.sym := congrArg Instrument.symbolCanon hf.keeps.instrument
    exact hf.all.trans (ih (fun g hg => hsym ▸ hinst g (List.mem_cons_of_mem _ hg)) h)

/-! ### The account follows the plan -/

/-- The account and the position record are those of the plan. -/
structure Accounts (l : TradingLoop) (p : Plan) : Prop where
  qty : l.positionQty = p.position
  openPos : p.position ≠ 0 → ∃ r, l.openPos = some r ∧ r.openingDecisionNs = p.opened
  entries : ∀ c target s d, p.pending = .opening c target s d →
    ∃ m, l.entries.get? c = some m ∧ m.decisionNs = d

/-- The account after a fill that flattens. -/
theorem Filled.flat {p : Plan} {f : Fill} (h : Filled l f l') (ha : Accounts l p)
    (hdq : f.dq = -p.position) : Accounts l' .flat where
  qty := by
    rw [h.qty, ha.qty, hdq, add_neg_cancel]
    rfl
  openPos := fun hpos => absurd rfl hpos
  entries := fun _ _ _ _ hp => by cases hp

/-- What the market orders fill leaves the accounts those of the plan. -/
theorem Accounts.market {p p' : Plan} {fs : List Fill} {acc acc' : Collected}
    (ha : Accounts l p) (hm : Plan.Market p fs p') (hinst : ∀ f ∈ fs, f.instrument = l.sym)
    (h : applyFills fs l acc = .ok (acc', l')) : Accounts l' p' := by
  have hone : ∀ f, fs = [f] → Filled l f l' := by
    rintro f rfl
    rw [applyFills, bind_eq_ok] at h
    obtain ⟨⟨acc₁, l₁⟩, hone, h⟩ := h
    cases h
    exact applyFill_spec (hinst f (List.mem_cons_self ..)) hone
  cases hm with
  | idle hidle =>
    cases h
    exact ha
  | close hclose hid hdq => exact (hone _ rfl).flat ha hdq
  | opening hopen hid hdq htarget =>
    rename_i c target s d f
    have hf := hone f rfl
    have hqty : l'.positionQty = target := by
      rw [hf.qty, ha.qty, hdq, add_sub_cancel]
    refine ⟨hqty, fun _ => ?_, fun _ _ _ _ hp => by cases hp⟩
    obtain ⟨m, hm, hd⟩ := ha.entries _ _ _ _ hopen
    obtain ⟨r, hr, hrd⟩ := hf.opened (hqty ▸ htarget) (by
      rw [hqty, ha.qty]
      refine (p.opening_side _ _ _ _ hopen).2.imp_right fun hopp hsame => ?_
      -- the target lies on the other side
      rw [hsame] at hopp
      have hzero : sign p.position = 0 := by omega
      exact htarget (sign_eq_zero_iff.mp (hsame.trans hzero)))
    rw [hid, hm, Option.map_some, hd] at hrd
    exact ⟨r, hr, hrd⟩

/-- What the triggers fill leaves the accounts those of the plan. -/
theorem Accounts.trigger {synthetic : Uuid → Prop} {p p' : Plan} {fs : List Fill}
    {acc acc' : Collected} (ha : Accounts l p) (ht : Plan.Trigger synthetic p fs p')
    (hinst : ∀ f ∈ fs, f.instrument = l.sym) (h : applyFills fs l acc = .ok (acc', l')) :
    Accounts l' p' := by
  cases ht with
  | hold =>
    cases h
    exact ha
  | exit hpos hdq hid =>
    rw [applyFills, bind_eq_ok] at h
    obtain ⟨⟨acc₁, l₁⟩, hone, h⟩ := h
    cases h
    exact (applyFill_spec (hinst _ (List.mem_cons_self ..)) hone).flat ha hdq

/-- Fills in two parts. -/
theorem applyFills_append {fs₁ fs₂ : List Fill} {acc acc' : Collected}
    (h : applyFills (fs₁ ++ fs₂) l acc = .ok (acc', l')) :
    ∃ acc₁ l₁, applyFills fs₁ l acc = .ok (acc₁, l₁) ∧
      applyFills fs₂ l₁ acc₁ = .ok (acc', l') := by
  induction fs₁ generalizing l acc with
  | nil => exact ⟨acc, l, rfl, h⟩
  | cons f fs₁ ih =>
    rw [List.cons_append, applyFills, bind_eq_ok] at h
    obtain ⟨⟨acc₁, l₁⟩, hone, h⟩ := h
    obtain ⟨acc₂, l₂, hfs₁, hfs₂⟩ := ih h
    exact ⟨acc₂, l₂, bind_eq_ok.mpr ⟨(acc₁, l₁), hone, hfs₁⟩, hfs₂⟩

/-- **The account after a bar is that of the plan after the bar.** -/
theorem Accounts.bar {synthetic : Uuid → Prop} {p p' : Plan} {fs : List Fill}
    {acc acc' : Collected} (ha : Accounts l p) (hb : Plan.Bar synthetic p fs p')
    (hinst : ∀ f ∈ fs, f.instrument = l.sym) (h : applyFills fs l acc = .ok (acc', l')) :
    Accounts l' p' := by
  obtain ⟨p₁, fs₁, fs₂, hm, ht, rfl⟩ := hb
  obtain ⟨acc₁, l₁, h₁, h₂⟩ := applyFills_append h
  have hinst₁ : ∀ f ∈ fs₁, f.instrument = l.sym := fun f hf =>
    hinst f (List.mem_append_left _ hf)
  have hsym : l₁.sym = l.sym :=
    congrArg Instrument.symbolCanon (applyFills_spec hinst₁ h₁).keeps.instrument
  refine (ha.market hm hinst₁ h₁).trigger ht (fun f hf => ?_) h₂
  rw [hsym]
  exact hinst f (List.mem_append_right _ hf)

/-! ### The records follow the broker -/

/-- What the synchronisation leaves of a record. -/
structure SyncedTo (pb : PaperBroker) (c : Uuid) (r r' : OrderRecord) : Prop where
  request : r'.request = r.request
  role : r'.role = r.role
  decision : r'.decisionNs = r.decisionNs
  live : ∀ o, pb.orders.get? c = some o → o.status = .new → r.status.isFinal = false →
    r'.status.isFinal = false

/-- An order that has not changed is in step. -/
theorem SyncedTo.refl (pb : PaperBroker) (c : Uuid) (r : OrderRecord) : SyncedTo pb c r r :=
  ⟨rfl, rfl, rfl, fun _ _ _ h => h⟩

/-- What the loop notes of an order is in step with the broker. -/
theorem synced_spec (c : Uuid) (r : OrderRecord) : SyncedTo l.broker c r (l.synced c r) := by
  unfold synced PaperBroker.orderAck
  split
  · exact .refl ..
  · cases ho : l.broker.orders.get? c with
    | none => exact .refl ..
    | some o =>
      dsimp only [Option.map_some]
      split
      · exact .refl ..
      · refine ⟨rfl, rfl, rfl, fun o' ho' hnew _ => ?_⟩
        rw [ho] at ho'
        cases ho'
        rw [hnew]
        rfl

/-- The first order of the synchronisation, and then the others. -/
theorem syncOrders_cons_eq_ok {c : Uuid} {cs keep : List Uuid} {out : List OrderRecord}
    (h : syncOrders (c :: cs) l = .ok (keep, out, l')) :
    ∃ record keep' out', l.orders.get? c = some record ∧
      syncOrders cs { l with orders := l.orders.insert c (l.synced c record) } =
        .ok (keep', out', l') ∧
      (if (l.synced c record).status.isFinal then keep' else c :: keep') = keep ∧
      (if c ∈ l.touched ∨ (l.synced c record).status ≠ record.status then
        l.synced c record :: out' else out') = out := by
  rw [syncOrders, bind_eq_ok] at h
  obtain ⟨record, hrecord, h⟩ := h
  rw [Represents.recordOf_eq_ok] at hrecord
  rw [bind_eq_ok] at h
  obtain ⟨⟨keep', out', l₁⟩, hrest, h⟩ := h
  cases h
  refine ⟨record, keep', out', hrecord, hrest, rfl, ?_⟩
  simp only [Bool.or_eq_true, decide_eq_true_eq]

/-- **The synchronisation**: records stay, and what the broker still has stays under
    supervision. -/
theorem syncOrders_spec {cs keep : List Uuid} {out : List OrderRecord}
    (h : syncOrders cs l = .ok (keep, out, l')) :
    ∃ orders, l' = { l with orders := orders } ∧
      (∀ x, l.orders.get? x = none → orders.get? x = none) ∧
      (∀ x r, l.orders.get? x = some r →
        ∃ r', orders.get? x = some r' ∧ SyncedTo l.broker x r r') ∧
      ∀ c ∈ cs, ∀ o r, l.broker.orders.get? c = some o → o.status = .new →
        l.orders.get? c = some r → r.status.isFinal = false → c ∈ keep := by
  induction cs generalizing l keep out with
  | nil =>
    cases h
    exact ⟨_, rfl, fun _ hx => hx, fun x r hr => ⟨r, hr, .refl ..⟩, fun _ hc => by cases hc⟩
  | cons c cs ih =>
    obtain ⟨record, keep', out', hrecord, hrest, rfl, rfl⟩ := syncOrders_cons_eq_ok h
    obtain ⟨orders, rfl, hnone, hsome, hkeep⟩ := ih hrest
    have hsynced := l.synced_spec c record
    -- the record of `c` as the rest of the loop finds it
    have hget (x : Uuid) : (l.orders.insert c (l.synced c record)).get? x =
        if c = x then some (l.synced c record) else l.orders.get? x := Dict.get?_insert ..
    refine ⟨orders, rfl, fun x hx => hnone x ?_, fun x r hr => ?_,
      fun y hy o r ho hnew hr hfinal => ?_⟩
    · have hne : c ≠ x := by
        rintro rfl
        rw [hrecord] at hx
        cases hx
      exact (hget x).trans ((if_neg hne).trans hx)
    · rcases eq_or_ne c x with rfl | hne
      · rw [hrecord] at hr
        cases hr
        obtain ⟨r', hr', hs⟩ := hsome c _ ((hget c).trans (if_pos rfl))
        exact ⟨r', hr', hs.request.trans hsynced.request, hs.role.trans hsynced.role,
          hs.decision.trans hsynced.decision, fun o ho hnew hfinal =>
            hs.live o ho hnew (hsynced.live o ho hnew hfinal)⟩
      · exact hsome x r ((hget x).trans ((if_neg hne).trans hr))
    · rcases eq_or_ne c y with rfl | hne
      · rw [hrecord] at hr
        cases hr
        have hlive := hsynced.live o ho hnew hfinal
        rw [if_neg (by rw [hlive]; exact Bool.false_ne_true)]
        exact List.mem_cons_self ..
      · have hin : y ∈ keep' := hkeep y ((List.mem_cons.mp hy).resolve_left hne.symm) o r ho hnew
          ((hget y).trans ((if_neg hne).trans hr)) hfinal
        split
        · exact hin
        · exact List.mem_cons_of_mem _ hin

end TradingLoop

/-! ### The bar at the broker -/

/-- The broker of a loop that represented `p` has worked on a bar, with the book `b`, and the
    plan is now `p'`. -/
structure BarDone (l : TradingLoop) (st : InstState) (p : Plan) (b : Book)
    (broker : PaperBroker) (st' : InstState) (p' : Plan) : Prop where
  sound : (l.broker.book st).Sound l.sym b.st.marketQueue none b
  bar : Plan.Bar (Carries.Synthetic (l.broker.book st) b) p b.fills p'
  carries : Carries st' broker.orders p'
  book : OrderBook broker
  orders : broker.orders = b.orders
  ids : broker.ids = b.ids
  inst : broker.state.get? l.sym = some st'
  single : ∀ i s, broker.state.get? i = some s → i = l.sym
  spec : st'.spec = st.spec

namespace Represents

variable {l l' : TradingLoop} {st st' : InstState} {p p' : Plan} {b : Book}
  {broker : PaperBroker}

/-- **A bar at the broker**: the book before it, the book after it, and the plan that has moved
    along. -/
theorem onBar (h : Represents l st p) {bar : DecBar} (hclock : l.clock.t ≤ bar.openTimeNs)
    {fills : List Fill} (hbar : l.broker.onBar bar = .ok (fills, broker)) :
    ∃ b st' p', BarDone l st p b broker st' p' ∧ fills = b.fills ∧
      (l.broker.book st).Traced none b ∧
      (∀ last, st.lastOpenNs = some last → last < bar.openTimeNs) ∧
      st'.lastOpenNs = some bar.openTimeNs ∧ st'.lastClose = some bar.c := by
  obtain ⟨hbook, -⟩ := h.book.onBar hbar
  obtain ⟨st₀, b, hst, hlast, hb, rfl, rfl⟩ := PaperBroker.onBar_eq_ok hbar
  have hsym := h.single _ st₀ hst
  rw [hsym, h.inst] at hst
  cases hst
  have hspec := h.book.spec _ st h.inst
  have hsound := h.book.sound h.inst
  have hs := hsound.runBar hspec hb
  obtain ⟨p', hplan, hc⟩ := Carries.runBar h.carries hsound hspec
    (fun c hq o ho => by
      -- what waits in the market queue is live, so it is not younger than the bar
      obtain ⟨o', ho', hnew, -⟩ := (h.book.live _ st h.inst c).mpr (.inl hq)
      rw [show l.broker.orders.get? c = some o from ho] at ho'
      cases ho'
      exact (h.times c o ho hnew).trans hclock) rfl hb
  refine ⟨b, { b.st.updateStats l.broker.lam bar with lastOpenNs := some bar.openTimeNs }, p',
    ⟨hs, hplan, ⟨hc.position, hc.queue, hc.stops, hc.stop, hc.close, hc.opening⟩, hbook,
      rfl, rfl, ?_, fun i s hi => ?_, hs.spec⟩, rfl, (Book.Traced.refl _).runBar hb, hlast, rfl,
    rfl⟩
  · exact hsym ▸ Dict.get?_insert_self ..
  · change (l.broker.state.insert bar.instrument _).get? i = some s at hi
    rw [Dict.get?_insert] at hi
    split at hi
    · rename_i heq
      rw [← heq, hsym]
    · exact h.single i s hi

/-- An order that is live after the bar is a stop that was live before it. -/
theorem live_after (h : Represents l st p) (hd : BarDone l st p b broker st' p') {c : Uuid}
    {o : Order} (ho : broker.orders.get? c = some o) (hnew : o.status = .new) :
    ∃ o₀, l.broker.orders.get? c = some o₀ ∧ o₀.status = .new ∧ o.req = o₀.req := by
  have hinst : o.req.instrument = l.sym := by
    obtain ⟨s, hs⟩ := hd.book.known _ c ⟨o, ho, hnew, rfl⟩
    exact hd.single _ s hs
  have hstop : ∃ s ∈ p'.stops, c = s.coid := by
    have hlive := (hd.book.live _ st' hd.inst c).mp ⟨o, ho, hnew, hinst⟩
    rw [hd.carries.queue, hd.bar.pending, hd.carries.stops] at hlive
    rcases hlive with hq | hq
    · cases hq
    · obtain ⟨s, hs, rfl⟩ := List.mem_map.mp hq
      exact ⟨s, hs, rfl⟩
  obtain ⟨s, hs, rfl⟩ := hstop
  obtain ⟨o₀, ho₀, hnew₀, -⟩ := h.stop_live (hd.bar.stops hs)
  obtain ⟨o', ho', hreq, -⟩ := hd.sound.evolves.kept _ o₀ ho₀
  rw [← hd.orders, ho] at ho'
  cases ho'
  exact ⟨o₀, ho₀, hnew₀, hreq⟩

/-- The fills of the bar are of the instrument, and of orders that are filled by now. -/
theorem filled_after (hd : BarDone l st p b broker st' p') {f : Fill} (hf : f ∈ b.fills) :
    f.instrument = l.sym ∧
      ∃ o, broker.orders.get? f.clientOrderId = some o ∧ o.status = .filled := by
  obtain ⟨hinst, hdone, -⟩ := hd.sound.fills f hf
  rw [hd.orders]
  exact ⟨hinst, hdone⟩

/-- What is live after the bar has not been filled on it. -/
theorem not_filled (hd : BarDone l st p b broker st' p') {c : Uuid} {o : Order}
    (ho : broker.orders.get? c = some o) (hnew : o.status = .new) :
    c ∉ b.fills.map Fill.clientOrderId := by
  intro hmem
  obtain ⟨f, hf, rfl⟩ := List.mem_map.mp hmem
  obtain ⟨-, o', ho', hdone⟩ := filled_after hd hf
  rw [ho] at ho'
  cases ho'
  rw [hnew] at hdone
  cases hdone

/-- The records of the fills of a bar that opens nothing: none is an entry or a flip. -/
theorem fill_roles (h : Represents l st p) (hd : BarDone l st p b broker st' p')
    (hopen : ∀ c target s d, p.pending ≠ .opening c target s d) {f : Fill} (hf : f ∈ b.fills)
    {l₁ : TradingLoop} {role : String} (hrole : l₁.roleOf f.clientOrderId = some role)
    (horders : l₁.orders = l.orders) (hbroker : l₁.broker.orders = broker.orders) :
    role ≠ Action.enter.role ∧ role ≠ Action.flip.role := by
  unfold TradingLoop.roleOf PaperBroker.orderRequest at hrole
  rw [horders, hbroker] at hrole
  have hrecord : ∀ r, l.orders.get? f.clientOrderId = some r → role = r.role := by
    intro r hr
    rw [hr] at hrole
    exact (Option.some.inj hrole).symm
  -- a fill executes the market order in the queue, a protective stop, or an order of the broker
  rcases hd.bar.fill_origin hf with hq | ⟨s, hs, heq⟩ | ⟨-, hpending, o, ho, href⟩
  · cases hp : p.pending with
    | idle => rw [hp] at hq; cases hq
    | close c =>
      rw [hp, Pending.queue, List.mem_singleton] at hq
      obtain ⟨r, hr, hroles⟩ := h.close c hp
      rw [hrecord r (hq ▸ hr)]
      exact hroles
    | opening c target s d => exact absurd hp (hopen _ _ _ _)
  · obtain ⟨r, hr, hstop, -⟩ := h.stop s hs
    rw [hrecord r (heq ▸ hr), hstop]
    exact ⟨by decide, by decide⟩
  · -- an order that the broker made itself has no record yet
    rw [(h.ids _ hpending).2, hd.orders, ho] at hrole
    have hsyn : TradingLoop.syntheticRole o.req.decisionRef = role := Option.some.inj hrole
    rcases href with href | href
    · rw [← hsyn, href]
      exact ⟨by decide +kernel, by decide +kernel⟩
    · rw [← hsyn, href]
      exact ⟨by decide +kernel, by decide +kernel⟩

/-! ### The second part of a step -/

/-- **The books after a bar**: the fills and the synchronisation take the loop to one that
    represents the plan after the bar. -/
theorem booked (h : Represents l st p) (hd : BarDone l st p b broker st' p')
    {l₁ l₂ : TradingLoop} {funding : List FundingCharge} {portfolio : Portfolio}
    {touched : List Uuid} {acc acc' : TradingLoop.Collected} {updates : List OrderRecord}
    (hl₁ : l₁ = { l with
      broker := { broker with funding := funding }
      portfolio := portfolio
      touched := touched })
    (hqty : portfolio.positionQty l.sym = l.positionQty)
    (hfills : TradingLoop.applyFills b.fills l₁ acc = .ok (acc', l₂))
    (hsync : l₂.syncOpenOrders = .ok (updates, l')) :
    Represents l' st' p' ∧ Keeps l l' ∧ ∀ f ∈ b.fills, ∃ r,
      l'.orders.get? f.clientOrderId = some r ∧ l₁.roleOf f.clientOrderId = some r.role := by
  have hinst : ∀ f ∈ b.fills, f.instrument = l₁.sym := by
    subst hl₁
    exact fun f hf => (filled_after hd hf).1
  have hall := TradingLoop.applyFills_spec hinst hfills
  have haccounts : TradingLoop.Accounts l₂ p' := by
    refine TradingLoop.Accounts.bar ?_ hd.bar hinst hfills
    subst hl₁
    exact ⟨hqty.trans h.qty, h.openPos, fun c target s d hp => (h.opening c target s d hp).2⟩
  rw [TradingLoop.syncOpenOrders, bind_eq_ok] at hsync
  obtain ⟨⟨keep, out, l₃⟩, hsync, heq⟩ := hsync
  cases heq
  obtain ⟨orders, rfl, hnone, hsome, hkeep⟩ := TradingLoop.syncOrders_spec hsync
  have hidle := hd.bar.pending
  subst hl₁
  have hbroker := hall.broker
  -- the records of the orders that are live have not been touched by the fills
  have hrecord : ∀ c o, broker.orders.get? c = some o → o.status = .new →
      l₂.orders.get? c = l.orders.get? c :=
    fun c o ho hnew => hall.others c (not_filled hd ho hnew)
  have hlive : ∀ c o, broker.orders.get? c = some o → o.status = .new →
      c ∈ keep ∧ ∃ r, orders.get? c = some r ∧ r.status.isFinal = false ∧
        r.request.otype = o.req.otype ∧ r.request.reduceOnly = o.req.reduceOnly := by
    intro c o ho hnew
    obtain ⟨o₀, ho₀, hnew₀, hreq⟩ := h.live_after hd ho hnew
    obtain ⟨hmem, r, hr, hfinal, htype, hred⟩ := h.supervised c o₀ ho₀ hnew₀
    rw [← hrecord c o ho hnew] at hr
    have ho₂ : l₂.broker.orders.get? c = some o := by
      rw [hbroker]
      exact ho
    obtain ⟨r', hr', hs⟩ := hsome c r hr
    refine ⟨hkeep c (by rw [hall.openOrders]; exact hmem) o r ho₂ hnew hr hfinal, r', hr',
      hs.live o ho₂ hnew hfinal, ?_, ?_⟩
    · rw [hs.request, hreq, htype]
    · rw [hs.request, hreq, hred]
  have hk : Keeps l { l₂ with orders := orders, openOrders := keep } :=
    ⟨hall.keeps.instrument, hall.keeps.cfg, hall.keeps.clock, hall.keeps.fsm, hall.keeps.index,
      hall.keeps.lastOpen⟩
  have hsym : l₂.sym = l.sym := congrArg Instrument.symbolCanon hall.keeps.instrument
  refine ⟨?_, hk, fun f hf => ?_⟩
  · refine
      { book := ?_, inst := ?_, single := ?_, spec := ?_, carries := ?_, qty := haccounts.qty
        lots := ?_, times := ?_, supervised := ?_, stop := ?_
        close := fun c hp => by rw [hidle] at hp; cases hp
        opening := fun c target s d hp => by rw [hidle] at hp; cases hp
        ids := ?_, openPos := haccounts.openPos }
    · change OrderBook l₂.broker
      rw [hbroker]
      exact { hd.book with }
    · change l₂.broker.state.get? l₂.sym = _
      rw [hbroker, hsym]
      exact hd.inst
    · intro i s hi
      change l₂.broker.state.get? i = some s at hi
      rw [hbroker] at hi
      exact (hd.single i s hi).trans hsym.symm
    · rw [hd.spec, h.spec]
      exact hall.keeps.instrument.symm
    · change Carries st' l₂.broker.orders p'
      rw [hbroker]
      exact hd.carries
    · change p'.Backed fun _ target _ => IsMultiple l₂.instrument.stepSize.1 target
      rw [hall.keeps.instrument]
      exact h.lots.bar hd.bar
    · intro c o ho hnew
      change l₂.broker.orders.get? c = some o at ho
      rw [hbroker] at ho
      obtain ⟨o₀, ho₀, hnew₀, hreq⟩ := h.live_after hd ho hnew
      rw [hreq]
      exact (h.times c o₀ ho₀ hnew₀).trans_eq (congrArg ManualClock.t hk.clock.symm)
    · intro c o ho hnew
      change l₂.broker.orders.get? c = some o at ho
      rw [hbroker] at ho
      exact hlive c o ho hnew
    · intro s hs
      have hp' : p'.stop = some s := by
        rw [Plan.stops, hidle, List.mem_append, Option.mem_toList] at hs
        exact hs.resolve_right fun hs => by cases hs
      obtain ⟨o, ho, hnew, -⟩ := hd.carries.stop s hp'
      obtain ⟨r, hr, hrole, hdns⟩ := h.stop s (hd.bar.stops hs)
      rw [← hrecord _ o ho hnew] at hr
      obtain ⟨r', hr', hsy⟩ := hsome _ r hr
      exact ⟨r', hr', hsy.role.trans hrole, hsy.decision.trans hdns⟩
    · intro u hu
      change l₂.broker.ids.Pending u at hu
      rw [hbroker] at hu
      have hold : l.broker.ids.Pending u := (hd.sound.ids u (hd.ids ▸ hu)).1
      obtain ⟨hrouter, hnone₀⟩ := h.ids u hold
      refine ⟨?_, hnone u ?_⟩
      · change l₂.router.known.get? u = none
        rw [hall.router]
        exact hrouter
      · -- an id that is still to be handed out has not been filled
        refine (hall.others u fun hmem => ?_).trans hnone₀
        obtain ⟨f, hf, rfl⟩ := List.mem_map.mp hmem
        obtain ⟨-, o, ho, -⟩ := filled_after hd hf
        rw [hd.book.fresh _ hu] at ho
        cases ho
  · obtain ⟨r, hr⟩ := Option.isSome_iff_exists.mp (hall.recorded f hf)
    obtain ⟨r', hr', hs⟩ := hsome _ r hr
    refine ⟨r', hr', ?_⟩
    rw [← hall.role, hs.role, TradingLoop.roleOf, hr]

/-- The price of the liquidation is computed afresh, and nothing else moves. -/
theorem refreshLiquidation (h : Represents l st p) (hl : l.refreshLiquidation = .ok l') :
    ∃ st', Represents l' st' p ∧ Keeps l l' ∧ l'.orders = l.orders ∧
      st'.lastOpenNs = st.lastOpenNs ∧ st'.lastClose = st.lastClose := by
  unfold TradingLoop.refreshLiquidation at hl
  split at hl
  · cases hl
  · split at hl
    · cases hl
      exact ⟨st, h, .refl l, rfl, rfl, rfl⟩
    · rw [bind_eq_ok] at hl
      obtain ⟨raw, -, hl⟩ := hl
      rw [bind_eq_ok] at hl
      obtain ⟨broker, hb, hl⟩ := hl
      cases hl
      obtain ⟨st', hrep, hopen, hclose⟩ := h.setLiquidationPrice hb
      refine ⟨st', { hrep with openPos := fun hpos => ?_ }, ⟨rfl, rfl, rfl, rfl, rfl, rfl⟩, rfl,
        hopen, hclose⟩
      -- the record of the position learns its liquidation price, and nothing else
      obtain ⟨r, hr, hrd⟩ := h.openPos hpos
      refine ⟨_, (congrArg (Option.map _) hr).trans rfl, ?_⟩
      dsimp only
      split
      · exact hrd
      · exact hrd

/-- **The bar.**  What the broker executes on it and what the loop books of that take the plan
    to the plan after the bar; when nothing was to be opened, nothing is filled as an entry or
    a flip. -/
theorem bookBar (h : Represents l st p) {bar : DecBar} (hclock : l.clock.t ≤ bar.openTimeNs)
    {fills : List Fill} {charges : List FundingCharge} {acc : TradingLoop.Collected}
    {updates : List OrderRecord} (hl : l.bookBar bar = .ok (fills, charges, acc, updates, l')) :
    ∃ synthetic st' p', Plan.Bar synthetic p fills p' ∧ Represents l' st' p' ∧ Keeps l l' ∧
      (∀ last, st.lastOpenNs = some last → last < bar.openTimeNs) ∧
      st'.lastOpenNs = some bar.openTimeNs ∧ st'.lastClose = some bar.c ∧
      ((∀ c target s d, p.pending ≠ .opening c target s d) → ∀ f ∈ fills,
        ∃ r, l'.orders.get? f.clientOrderId = some r ∧
          r.role ≠ Action.enter.role ∧ r.role ≠ Action.flip.role) := by
  rw [TradingLoop.bookBar, bind_eq_ok] at hl
  obtain ⟨⟨fills', broker⟩, hbar, hl⟩ := hl
  obtain ⟨b, st₁, p', hd, rfl, -, hlast, hopen, hclose⟩ := h.onBar hclock hbar
  dsimp only [PaperBroker.drainFunding] at hl
  rw [bind_eq_ok] at hl
  obtain ⟨⟨acc₁, l₂⟩, hfills, hl⟩ := hl
  rw [bind_eq_ok] at hl
  obtain ⟨⟨out, l₃⟩, hsync, hl⟩ := hl
  obtain ⟨h₃, hkeeps, hroles⟩ := h.booked hd rfl (Portfolio.foldl_applyFunding_qty _) hfills hsync
  have hlast₄ : ∃ st', Represents l' st' p' ∧ Keeps l₃ l' ∧ l'.orders = l₃.orders ∧
      st'.lastOpenNs = st₁.lastOpenNs ∧ st'.lastClose = st₁.lastClose ∧ fills = b.fills := by
    dsimp only at hl
    split at hl
    · rw [bind_eq_ok] at hl
      obtain ⟨l₄, hrefresh, hl⟩ := hl
      cases hl
      obtain ⟨st', h₄, hkeeps₄, horders, ho, hc⟩ := h₃.refreshLiquidation hrefresh
      exact ⟨st', h₄, hkeeps₄, horders, ho, hc, rfl⟩
    · cases hl
      exact ⟨st₁, h₃, .refl _, rfl, rfl, rfl, rfl⟩
  obtain ⟨st', h₄, hkeeps₄, horders, ho, hc, rfl⟩ := hlast₄
  refine ⟨_, st', p', hd.bar, h₄, hkeeps.trans hkeeps₄, hlast, ho.trans hopen, hc.trans hclose,
    fun hno f hf => ?_⟩
  obtain ⟨r, hr, hrole⟩ := hroles f hf
  refine ⟨r, ?_, ?_⟩
  · rw [horders]
    exact hr
  · exact h.fill_roles hd hno hf hrole rfl rfl

/-! ### The third part of a step -/

/-- The valuation and the risk machine do not touch the plan. -/
theorem valueBar (h : Represents l st p) {inp : StepInput} {latched : Bool}
    {exposureBefore equity : Decimal} {tr : Option Transition}
    (hl : l.valueBar inp latched exposureBefore = .ok (equity, tr, l')) :
    Represents l' st p ∧ Keeps { l with clock := l'.clock, fsm := l'.fsm } l' ∧
      l'.orders = l.orders ∧ l'.clock.t = inp.closeNs := by
  obtain ⟨hle, -, fsm, haltIndex, rfl⟩ := TradingLoop.valueBar_account hl
  have hqty : (l.portfolio.mark [(l.sym, inp.bar.c)]).2.positionQty l.sym = l.positionQty := by
    rw [Portfolio.mark_qty]
    rfl
  exact ⟨{ h.setClock ⟨inp.closeNs⟩ hle with qty := hqty.trans h.qty },
    ⟨rfl, rfl, rfl, rfl, rfl, rfl⟩, rfl, rfl⟩

end Represents

end FuzzHelm
