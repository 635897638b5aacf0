import FuzzHelm.Execution.Bar

namespace FuzzHelm

open Lib

/-!
# The orders stay in order while a bar is worked on

The invariant of a bar: the live orders of the instrument are those still queued, each once,
and the fills account for the position.  An order that is being executed has left its queue
and is still live; it is the order in hand.

* `Book.Sound` — the invariant;
* `Sound.execute` / `Sound.fillLoop` / `Sound.fire` — the steps that keep it;
* `Sound.runBar` — the whole bar keeps it.
-/

namespace Book

/-- **The invariant of a bar** that began in `b₀`, for the instrument `i`: `q` is the part of
    the market queue that has not been dealt with, `hand` the order that is being executed. -/
structure Sound (b₀ : Book) (i : String) (q : List Uuid) (hand : Option Uuid) (b : Book) :
    Prop where
  live : ∀ x, Live b.orders i x ↔ x ∈ q ∨ x ∈ b.st.stopOrders ∨ hand = some x
  nodup : (hand.toList ++ (q ++ b.st.stopOrders)).Nodup
  queue : q.Sublist b₀.st.marketQueue
  stops : b.st.stopOrders.Sublist b₀.st.stopOrders
  spec : b.st.spec = b₀.st.spec
  evolves : Evolves i b₀.orders b.orders
  keys : ∀ x o, b.orders.get? x = some o → o.req.clientOrderId = x
  ids : ∀ u, b.ids.Pending u → b₀.ids.Pending u ∧ b.orders.get? u = none
  fresh : ∀ u o, b.orders.get? u = some o → b₀.orders.get? u = none → b₀.ids.Pending u
  fills_nodup : (b.fills.map Fill.clientOrderId).Nodup
  fills : ∀ f ∈ b.fills, f.instrument = i ∧
    (∃ o, b.orders.get? f.clientOrderId = some o ∧ o.status = .filled) ∧
    (b₀.orders.get? f.clientOrderId = none ∨ Live b₀.orders i f.clientOrderId)
  position : b.st.position = b₀.st.position + (b.fills.map Fill.dq).sum

namespace Sound

variable {b₀ b b' : Book} {i : String} {q : List Uuid} {c : Uuid} {o : Order} {t : ℤ}
  {p : Decimal} {reason : Option ExitReason}

/-- The order in hand is live. -/
theorem live_hand (hs : Sound b₀ i q (some c) b) : Live b.orders i c :=
  (hs.live c).mpr (.inr (.inr rfl))

/-- Nothing is both in the queue and among the stops. -/
theorem nodup' (hs : Sound b₀ i q none b) : (q ++ b.st.stopOrders).Nodup := hs.nodup

/-- The order in hand is none of those that wait. -/
theorem hand_not_mem (hs : Sound b₀ i q (some c) b) : c ∉ q ∧ c ∉ b.st.stopOrders := by
  have h : c ∉ q ++ b.st.stopOrders := (List.nodup_cons.mp hs.nodup).1
  rwa [List.mem_append, not_or] at h

/-- A live order was live when the bar began, or is new. -/
theorem live_origin (hs : Sound b₀ i q (some c) b) :
    b₀.orders.get? c = none ∨ Live b₀.orders i c := by
  obtain ⟨o, ho, hnew, hinst⟩ := hs.live_hand
  cases h₀ : b₀.orders.get? c with
  | none => exact .inl rfl
  | some o₀ =>
    right
    obtain ⟨o', ho', hreq, hfinal⟩ := hs.evolves.kept c o₀ h₀
    rw [ho] at ho'
    cases ho'
    by_contra hdead
    -- a final order would have been kept as it was, and would not be live now
    have hsame : o = o₀ := hfinal fun hlive => hdead ⟨o₀, h₀, hlive⟩
    subst hsame
    exact hdead ⟨o, h₀, hnew, hinst⟩

/-- The order in hand reaches a final state. -/
theorem insert_final (hs : Sound b₀ i q (some c) b) (hc : b.orders.get? c = some o)
    (o' : Order) (hreq : o'.req = o.req) (hfinal : o'.status ≠ .new) :
    Sound b₀ i q none { b with orders := b.orders.insert c o' } := by
  obtain ⟨o₁, ho₁, hnew, hinst⟩ := hs.live_hand
  rw [hc] at ho₁
  cases ho₁
  obtain ⟨hcq, hcs⟩ := hs.hand_not_mem
  refine
    { live := fun x => ?_
      nodup := hs.nodup.of_cons
      queue := hs.queue
      stops := hs.stops
      spec := hs.spec
      evolves := hs.evolves.trans (.insert_live hc hnew hinst hreq)
      keys := fun x ox hx => ?_
      ids := fun u hu => ?_
      fresh := fun u ou hou h₀ => ?_
      fills_nodup := hs.fills_nodup
      fills := fun f hf => ?_
      position := hs.position }
  · rcases eq_or_ne c x with rfl | hx
    · constructor
      · rintro ⟨ox, hox, hxnew, -⟩
        rw [Dict.get?_insert_self] at hox
        cases hox
        exact absurd hxnew hfinal
      · rintro (h | h | h)
        · exact absurd h hcq
        · exact absurd h hcs
        · cases h
    · have hlive := hs.live x
      simp only [Live, Dict.get?_insert_of_ne _ _ hx] at hlive ⊢
      rw [hlive]
      simp [hx]
  · rcases eq_or_ne c x with rfl | hne
    · rw [Dict.get?_insert_self] at hx
      cases hx
      rw [hreq]
      exact hs.keys c o hc
    · rw [Dict.get?_insert_of_ne _ _ hne] at hx
      exact hs.keys x ox hx
  · obtain ⟨hpending, hnone⟩ := hs.ids u hu
    have hne : c ≠ u := by
      rintro rfl
      rw [hc] at hnone
      cases hnone
    exact ⟨hpending, by rw [Dict.get?_insert_of_ne _ _ hne, hnone]⟩
  · rcases eq_or_ne c u with rfl | hne
    · exact hs.fresh c o hc h₀
    · rw [Dict.get?_insert_of_ne _ _ hne] at hou
      exact hs.fresh u ou hou h₀
  · obtain ⟨hfi, ⟨of, hof, hfilled⟩, horigin⟩ := hs.fills f hf
    have hne : c ≠ f.clientOrderId := by
      rintro rfl
      rw [hc] at hof
      cases hof
      rw [hnew] at hfilled
      cases hfilled
    exact ⟨hfi, ⟨of, by rw [Dict.get?_insert_of_ne _ _ hne, hof], hfilled⟩, horigin⟩

/-- The order in hand fills. -/
theorem recordFill (hs : Sound b₀ i q (some c) b) (hc : b.orders.get? c = some o) {f : Fill}
    (hcoid : f.clientOrderId = o.req.clientOrderId) (hfi : f.instrument = o.req.instrument)
    (cost : CostModel) (r : Option ExitReason) :
    Sound b₀ i q none (b.recordFill c o f cost r) := by
  obtain ⟨o₁, ho₁, hnew, hinst⟩ := hs.live_hand
  rw [hc] at ho₁
  cases ho₁
  rw [hs.keys c o hc] at hcoid
  -- every earlier fill belongs to an order that is filled by now, so not to this one
  have hnot : ∀ g ∈ b.fills, g.clientOrderId ≠ c := by
    rintro g hg rfl
    obtain ⟨-, ⟨og, hog, hfilled⟩, -⟩ := hs.fills g hg
    rw [hc] at hog
    cases hog
    rw [hnew] at hfilled
    cases hfilled
  have hfinal := hs.insert_final hc
    { o with status := .filled, filledQty := f.qty, avgPrice := some f.price, exitReason := r } rfl
    (by simp)
  refine { hfinal with fills_nodup := ?_, fills := ?_, position := ?_ }
  · change ((b.fills ++ [f]).map Fill.clientOrderId).Nodup
    rw [List.map_append, List.nodup_append]
    refine ⟨hs.fills_nodup, List.nodup_singleton _, ?_⟩
    intro x hx y hy hxy
    obtain ⟨g, hg, rfl⟩ := List.mem_map.mp hx
    rw [List.map_singleton, List.mem_singleton, hcoid] at hy
    exact hnot g hg (hxy.trans hy)
  · intro g hg
    rcases List.mem_append.mp hg with hg | hg
    · exact hfinal.fills g hg
    · rw [List.mem_singleton] at hg
      subst hg
      rw [hcoid]
      exact ⟨hfi.trans hinst, ⟨_, Dict.get?_insert_self .., rfl⟩, hs.live_origin⟩
  · change b.st.position + f.dq = b₀.st.position + ((b.fills ++ [f]).map Fill.dq).sum
    rw [List.map_append, List.sum_append, List.map_singleton, List.sum_singleton, hs.position]
    ring

/-- A sweep over the stops, with whatever it does to the levels of the instrument. -/
theorem sweep (hs : Sound b₀ i q none b) {drop : Order → Bool} {cancel : Order → Order}
    {keep : List Uuid} {orders : Dict Uuid Order}
    (h : Book.sweep drop cancel b.st.stopOrders b.orders = .ok (keep, orders))
    (hreq : ∀ o, (cancel o).req = o.req) (hcancel : ∀ o, (cancel o).status = .canceled)
    (tp : Option Decimal) (ts : ℤ) (liq : Option Decimal) :
    Sound b₀ i q none { b with
      orders := orders
      st := { b.st with stopOrders := keep, tpPrice := tp, tpSide := ts, liqPrice := liq } } := by
  obtain ⟨-, hnd, hdisj⟩ := List.nodup_append.mp hs.nodup'
  obtain ⟨hkeep, horders⟩ := sweep_spec hnd h
  have hback : ∀ x ox, orders.get? x = some ox → ∃ ox', b.orders.get? x = some ox' ∧
      ox.req = ox'.req := by
    intro x ox hx
    rw [horders x, Option.map_eq_some_iff] at hx
    obtain ⟨ox', hox', rfl⟩ := hx
    refine ⟨ox', hox', ?_⟩
    split
    · exact hreq ox'
    · rfl
  -- an order that the sweep changes is a stop of the instrument that was live
  have hevolves : Evolves i b.orders orders := by
    constructor
    · intro x ox hx
      rw [horders x, hx, Option.map_some]
      refine ⟨_, rfl, ?_, fun hfinal => ?_⟩
      · split
        · exact hreq ox
        · rfl
      · refine if_neg fun hdrop => hfinal ?_
        obtain ⟨ox', hox', hlive⟩ := (hs.live x).mpr (.inr (.inl hdrop.1))
        rw [hx] at hox'
        cases hox'
        exact hlive
    · intro x ox hx hnone
      rw [horders x, hnone] at hx
      cases hx
  have hsub : keep.Sublist b.st.stopOrders := sweep_sublist h
  refine
    { live := fun x => ?_
      nodup := hs.nodup.sublist (List.Sublist.append (.refl _) (List.Sublist.append (.refl _) hsub))
      queue := hs.queue
      stops := hsub.trans hs.stops
      spec := hs.spec
      evolves := hs.evolves.trans hevolves
      keys := fun x ox hx => ?_
      ids := fun u hu => ?_
      fresh := fun u ou hou h₀ => ?_
      fills_nodup := hs.fills_nodup
      fills := fun f hf => ?_
      position := hs.position }
  · by_cases hx : x ∈ b.st.stopOrders
    · obtain ⟨ox, hox, hnew, hinst⟩ := (hs.live x).mpr (.inr (.inl hx))
      have hxq : x ∉ q := fun h => hdisj x h x hx rfl
      have hmem : x ∈ keep ↔ drop ox = false := by
        rw [hkeep, List.mem_filter, hox]
        simp [hx, hnew]
      rw [hmem, Live, horders x, hox]
      cases hdrop : drop ox with
      | true => simp [hx, hnew, hdrop, hcancel, hxq]
      | false => simp [hnew, hinst, hdrop]
    · have hxk : x ∉ keep := fun h => hx (hsub.subset h)
      have hlive := hs.live x
      rw [Live, horders x]
      simp only [Live, hx, false_and, if_false, Option.map_id', hxk] at hlive ⊢
      exact hlive
  · obtain ⟨ox', hox', hreq'⟩ := hback x ox hx
    rw [hreq']
    exact hs.keys x ox' hox'
  · obtain ⟨hpending, hnone⟩ := hs.ids u hu
    exact ⟨hpending, by rw [horders u, hnone, Option.map_none]⟩
  · obtain ⟨ou', hou', -⟩ := hback u ou hou
    exact hs.fresh u ou' hou' h₀
  · obtain ⟨hfi, ⟨of, hof, hfilled⟩, horigin⟩ := hs.fills f hf
    refine ⟨hfi, ⟨of, ?_, hfilled⟩, horigin⟩
    have hnew : of.status ≠ .new := by rw [hfilled]; simp
    rw [horders, hof, Option.map_some, if_neg fun hdrop => hnew hdrop.2.1]

/-- An execution of the order in hand leaves the book sound, with nothing in hand. -/
theorem execute (hs : Sound b₀ i q (some c) b) (hc : b.orders.get? c = some o)
    (h : b.execute c o p t reason = .ok b') : Sound b₀ i q none b' := by
  rcases execute_eq_ok h with ⟨-, rfl⟩ | ⟨-, -, fill, cost, hcoid, hinst, -, -, -, h⟩
  · exact hs.insert_final hc _ rfl (by simp)
  · have hfill := hs.recordFill hc hcoid hinst cost (b.executionReason o.req reason)
    split at h
    · obtain ⟨keep, orders, hsweep, rfl⟩ := onPositionClosed_eq_ok h
      exact hfill.sweep hsweep (fun _ => rfl) (fun _ => rfl) _ _ _
    · rw [h]
      exact hfill

/-! ### Taking an order in hand -/

/-- A market order leaves its queue to be executed. -/
theorem takeMarket {k cs : List Uuid} (hs : Sound b₀ i (k ++ c :: cs) none b) :
    Sound b₀ i (k ++ cs) (some c) b where
  live := fun x => by
    rw [hs.live x]
    -- the order changes its place only, from the queue into the hand
    simp only [List.mem_append, List.mem_cons, Option.some.injEq, reduceCtorEq, or_false]
    constructor
    · rintro ((h | rfl | h) | h) <;> simp [*]
    · rintro ((h | h) | h | rfl) <;> simp [*]
  nodup := by
    have h : (k ++ c :: (cs ++ b.st.stopOrders)).Nodup := by
      simpa using (show ((k ++ c :: cs) ++ b.st.stopOrders).Nodup from hs.nodup)
    have h' := List.nodup_middle.mp h
    change (c :: ((k ++ cs) ++ b.st.stopOrders)).Nodup
    rwa [List.append_assoc]
  queue := (List.Sublist.append_left (List.sublist_cons_self ..) k).trans hs.queue
  stops := hs.stops
  spec := hs.spec
  evolves := hs.evolves
  keys := hs.keys
  ids := hs.ids
  fresh := hs.fresh
  fills_nodup := hs.fills_nodup
  fills := hs.fills
  position := hs.position

/-- A stop order leaves its queue to be executed. -/
theorem takeStop (hs : Sound b₀ i q none b) (hc : c ∈ b.st.stopOrders) :
    Sound b₀ i q (some c) (b.takeStop c) where
  live := fun x => by
    have hnd : b.st.stopOrders.Nodup := (List.nodup_append.mp hs.nodup').2.1
    change Live b.orders i x ↔ x ∈ q ∨ x ∈ b.st.stopOrders.erase c ∨ some c = some x
    rw [hs.live x, hnd.mem_erase_iff, Option.some.injEq]
    -- it leaves the stops, where it was once
    rcases eq_or_ne x c with rfl | hx
    · simp [hc]
    · simp [hx, hx.symm]
  nodup := by
    change (c :: (q ++ b.st.stopOrders.erase c)).Nodup
    obtain ⟨hq, hstops, hdisj⟩ := List.nodup_append.mp hs.nodup'
    rw [List.nodup_cons, List.mem_append, not_or]
    refine ⟨⟨fun h => hdisj c h c hc rfl, fun h => (hstops.mem_erase_iff.mp h).1 rfl⟩, ?_⟩
    exact hs.nodup'.sublist (.append (.refl q) List.erase_sublist)
  queue := hs.queue
  stops := List.erase_sublist.trans hs.stops
  spec := hs.spec
  evolves := hs.evolves
  keys := hs.keys
  ids := hs.ids
  fresh := hs.fresh
  fills_nodup := hs.fills_nodup
  fills := hs.fills
  position := hs.position

/-- A synthetic order is accepted, under an id that no order has, to be executed. -/
theorem takeSynthetic (hs : Sound b₀ i q none b) (hi : b₀.st.spec.symbolCanon = i) {tp : Bool}
    (ho : IsSynthetic b t o) :
    Sound b₀ i q (some b.ids.nextUuid.1) (b.takeSynthetic tp o) := by
  -- the identifier is fresh, so that no order and no fill has it
  obtain ⟨hpending, hnone⟩ := hs.ids _ b.ids.pending_next
  have hinst : o.req.instrument = i := by rw [ho.instrument, hs.spec, hi]
  have hdead : ¬Live b.orders i b.ids.nextUuid.1 := by
    rintro ⟨o', ho', -⟩
    rw [hnone] at ho'
    cases ho'
  rw [hs.live] at hdead
  refine
    { live := fun x => ?_
      nodup := ?_
      queue := hs.queue
      stops := hs.stops
      spec := hs.spec
      evolves := hs.evolves.trans (.insert_fresh hnone hinst)
      keys := fun x ox hx => ?_
      ids := fun u hu => ?_
      fresh := fun u ou hou h₀ => ?_
      fills_nodup := hs.fills_nodup
      fills := fun f hf => ?_
      position := hs.position }
  -- the new order is the one more that lives
  · change Live (b.orders.insert _ o) i x ↔ x ∈ q ∨ x ∈ b.st.stopOrders ∨ _
    rcases eq_or_ne b.ids.nextUuid.1 x with rfl | hx
    · exact ⟨fun _ => .inr (.inr rfl), fun _ => ⟨o, Dict.get?_insert_self .., ho.status, hinst⟩⟩
    · have hlive := hs.live x
      simp only [Live, Dict.get?_insert_of_ne _ _ hx] at hlive ⊢
      rw [hlive]
      simp [hx]
  · change (b.ids.nextUuid.1 :: (q ++ b.st.stopOrders)).Nodup
    rw [List.nodup_cons, List.mem_append]
    exact ⟨fun h => hdead (h.imp_right .inl), hs.nodup'⟩
  · change (b.orders.insert _ o).get? x = some ox at hx
    rcases eq_or_ne b.ids.nextUuid.1 x with rfl | hne
    · rw [Dict.get?_insert_self] at hx
      cases hx
      exact ho.coid
    · rw [Dict.get?_insert_of_ne _ _ hne] at hx
      exact hs.keys x ox hx
  · have hne : b.ids.nextUuid.1 ≠ u := by
      rintro rfl
      exact b.ids.not_pending_nextUuid hu
    obtain ⟨hu₀, hunone⟩ := hs.ids u hu.of_next
    refine ⟨hu₀, ?_⟩
    change (b.orders.insert _ o).get? u = none
    rw [Dict.get?_insert_of_ne _ _ hne, hunone]
  · change (b.orders.insert _ o).get? u = some ou at hou
    rcases eq_or_ne b.ids.nextUuid.1 u with rfl | hne
    · exact hpending
    · rw [Dict.get?_insert_of_ne _ _ hne] at hou
      exact hs.fresh u ou hou h₀
  · obtain ⟨hfi, ⟨of, hof, hfilled⟩, horigin⟩ := hs.fills f hf
    refine ⟨hfi, ⟨of, ?_, hfilled⟩, horigin⟩
    have hne : b.ids.nextUuid.1 ≠ f.clientOrderId := by
      intro heq
      rw [← heq, hnone] at hof
      cases hof
    change (b.orders.insert _ o).get? _ = some of
    rw [Dict.get?_insert_of_ne _ _ hne, hof]

/-! ### The loops -/

/-- The loop over the market queue; `k` is what it has already decided to keep. -/
theorem fillLoop {cs k keep : List Uuid} (hs : Sound b₀ i (k ++ cs) none b)
    (h : Book.fillLoop p t cs b = .ok (keep, b')) :
    Sound b₀ i (k ++ keep) none b' := by
  induction cs generalizing b k keep with
  | nil => cases h; exact hs
  | cons c cs ih =>
    rw [Book.fillLoop, bind_eq_ok] at h
    obtain ⟨o, ho, h⟩ := h
    rw [orderOf_eq_ok] at ho
    -- what is queued is live, so that no order of the loop is passed over
    have hlive : Live b.orders i c := (hs.live c).mpr (.inl (by simp))
    have hnew : o.status = .new := by
      obtain ⟨o', ho', hnew, -⟩ := hlive
      rw [ho] at ho'
      cases ho'
      exact hnew
    rw [if_neg (not_not.mpr hnew)] at h
    split at h
    · -- created after the bar opened: it stays queued
      rw [bind_eq_ok] at h
      obtain ⟨⟨keep', b₁⟩, hrest, h⟩ := h
      cases h
      have hs' : Sound b₀ i ((k ++ [c]) ++ cs) none b := by simpa using hs
      simpa using ih hs' hrest
    · rw [bind_eq_ok] at h
      obtain ⟨b₁, hb₁, h⟩ := h
      exact ih (hs.takeMarket.execute ho hb₁) h

/-- Filling the market orders leaves the book sound. -/
theorem fillMarketOrders {bar : DecBar} (hs : Sound b₀ i b.st.marketQueue none b)
    (h : b.fillMarketOrders bar = .ok b') : Sound b₀ i b'.st.marketQueue none b' := by
  rw [Book.fillMarketOrders, bind_eq_ok] at h
  obtain ⟨⟨keep, b₁⟩, hloop, h⟩ := h
  cases h
  have hs' : Sound b₀ i keep none b₁ := fillLoop (k := []) hs hloop
  exact { hs' with }

/-- A firing leaves the book sound. -/
theorem fire (hs : Sound b₀ i q none b) (hi : b₀.st.spec.symbolCanon = i) {tr : Trigger}
    (htr : IsTrigger b t tr) (h : b.fire tr p t = .ok b') : Sound b₀ i q none b' := by
  rcases fire_eq_ok htr h with ⟨c, o, hc, ho, -, -, h⟩ | ⟨-, tp, o, reason, hsyn, -, h⟩
  · exact (hs.takeStop hc).execute ho h
  · exact (hs.takeSynthetic hi hsyn).execute (Dict.get?_insert_self ..) h

/-- Sweeping what is left over leaves the book sound. -/
theorem expirePhase (hs : Sound b₀ i b.st.marketQueue none b) (h : b.expirePhase = .ok b') :
    Sound b₀ i b'.st.marketQueue none b' := by
  rw [Book.expirePhase] at h
  split at h
  · obtain ⟨sides, keep, orders, -, hsweep, rfl⟩ := expireOrphanStops_eq_ok h
    exact hs.sweep hsweep (fun _ => rfl) (fun _ => rfl) _ _ _
  · cases h
    exact hs

/-- The triggers leave the market queue alone. -/
theorem walkPhase {bar : DecBar} (hs : Sound b₀ i b.st.marketQueue none b)
    (hi : b₀.st.spec.symbolCanon = i) (h : b.walkPhase bar = .ok b') :
    Sound b₀ i b'.st.marketQueue none b' := by
  have hboth : Sound b₀ i b.st.marketQueue none b' ∧ b'.st.marketQueue = b.st.marketQueue := by
    refine walkPhase_rule (P := fun x => Sound b₀ i b.st.marketQueue none x ∧
      x.st.marketQueue = b.st.marketQueue) ?_ ⟨hs, rfl⟩ h
    rintro x tr p x' ⟨hx, hq⟩ htr hfire
    exact ⟨hx.fire hi htr hfire, (fire_marketQueue htr hfire).trans hq⟩
  rw [hboth.2]
  exact hboth.1

/-- **A bar keeps its orders in order.** -/
theorem runBar {bar : DecBar} (hs : Sound b₀ i b.st.marketQueue none b)
    (hi : b₀.st.spec.symbolCanon = i) (h : b.runBar bar = .ok b') :
    Sound b₀ i b'.st.marketQueue none b' := by
  obtain ⟨b₁, b₂, hb₁, hb₂, h⟩ := runBar_eq_ok h
  exact ((hs.fillMarketOrders hb₁).walkPhase hi hb₂).expirePhase h

end Sound

end Book

end FuzzHelm
