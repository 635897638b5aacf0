import FuzzHelm.Execution.BarOrders

namespace FuzzHelm

open Lib

/-!
# What a bar leaves of every order

An order that a bar has touched ends canceled or filled, and what is filled has exactly one
kind of fill behind it: one with a positive quantity, for the whole order when the broker made
the order itself.

* `Book.Traced` — the orders of a book against those that the bar began with;
* `Traced.execute`, `Traced.fire`, `Traced.fillLoop` — the steps that keep it;
* `Traced.runBar` — the whole bar keeps it.
-/

namespace Book

/-- The fill `f` executes the order `o`; `born` says that the bar made the order. -/
structure Executes (f : Fill) (o : Order) (born : Prop) : Prop where
  coid : f.clientOrderId = o.req.clientOrderId
  pos : 0 < f.qty
  side : f.side ≠ .flat
  full : born → f.qty = o.req.qty

/-- **The orders of a bar** that began in `b₀`, but for the order in hand: each is what it was,
    or canceled, or filled by one of the fills. -/
def Traced (b₀ : Book) (hand : Option Uuid) (b : Book) : Prop :=
  ∀ c o, hand ≠ some c → b.orders.get? c = some o →
    b₀.orders.get? c = some o ∨ o.status = .canceled ∨
      (o.status = .filled ∧ ∃ f ∈ b.fills, Executes f o (b₀.orders.get? c = none))

namespace Traced

variable {b₀ b b' : Book} {hand : Option Uuid} {c : Uuid} {o : Order} {t : ℤ} {p : Decimal}
  {reason : Option ExitReason}

/-- Every order is where it was. -/
theorem refl (b : Book) : Traced b none b := fun _ _ _ ho => .inl ho

/-- A new order has been there from the beginning. -/
theorem of_new (h : Traced b₀ none b) (ho : b.orders.get? c = some o) (hnew : o.status = .new) :
    b₀.orders.get? c = some o := by
  rcases h c o (by simp) ho with hold | hcancel | ⟨hfilled, -⟩
  · exact hold
  · rw [hnew] at hcancel
    cases hcancel
  · rw [hnew] at hfilled
    cases hfilled

/-- An order may be taken in hand. -/
theorem take (h : Traced b₀ none b) (c : Uuid) : Traced b₀ (some c) b :=
  fun x ox _ hx => h x ox (by simp) hx

/-- The order in hand becomes an order whose end is accounted for. -/
theorem settle (h : Traced b₀ (some c) b) {fills : List Fill} (hsub : b.fills ⊆ fills)
    (hend : o.status = .canceled ∨
      (o.status = .filled ∧ ∃ f ∈ fills, Executes f o (b₀.orders.get? c = none))) :
    ∀ x ox, (b.orders.insert c o).get? x = some ox →
      b₀.orders.get? x = some ox ∨ ox.status = .canceled ∨
        (ox.status = .filled ∧ ∃ f ∈ fills, Executes f ox (b₀.orders.get? x = none)) := by
  intro x ox hx
  rw [Dict.get?_insert] at hx
  split at hx
  · rename_i hcx
    cases hx
    subst hcx
    exact .inr hend
  · rename_i hcx
    rcases h x ox (by simpa using hcx) hx with hold | hcancel | ⟨hfilled, f, hf, hexec⟩
    · exact .inl hold
    · exact .inr (.inl hcancel)
    · exact .inr (.inr ⟨hfilled, f, hsub hf, hexec⟩)

/-- What a sweep does to the orders of a book. -/
theorem of_sweep (h : Traced b₀ none b)
    (hback : ∀ x ox, b'.orders.get? x = some ox →
      b.orders.get? x = some ox ∨ ox.status = .canceled)
    (hfills : b'.fills = b.fills) : Traced b₀ none b' := by
  intro x ox hhand hx
  rw [hfills]
  rcases hback x ox hx with hsame | hcancel
  · exact h x ox hhand hsame
  · exact .inr (.inl hcancel)

/-- **One execution** settles the order in hand. -/
theorem execute (h : Traced b₀ (some c) b)
    (hfull : b₀.orders.get? c = none → b.executableQty o.req = o.req.qty)
    (hexec : b.execute c o p t reason = .ok b') : Traced b₀ none b' := by
  rcases execute_eq_ok hexec with
    ⟨-, rfl⟩ | ⟨hpos, hside, f, cost, hcoid, -, hfside, hqty, -, hexec⟩
  · intro x ox _ hx
    exact h.settle (List.Subset.refl _) (.inl rfl) x ox hx
  · have hrecord : Traced b₀ none (b.recordFill c o f cost (b.executionReason o.req reason)) := by
      intro x ox _ hx
      refine h.settle (List.subset_append_left ..) (.inr ⟨rfl, f, ?_, ?_⟩) x ox hx
      · exact List.mem_append_right _ (List.mem_singleton_self f)
      · exact ⟨hcoid, by rw [hqty]; exact hpos, by rw [hfside]; exact hside,
          fun hborn => hqty.trans (hfull hborn)⟩
    split at hexec
    · -- closing the position cancels the stops that protected it
      obtain ⟨keep, orders, hsweep, rfl⟩ := onPositionClosed_eq_ok hexec
      exact hrecord.of_sweep (fun x ox hx => Book.sweep_back (fun _ => rfl) hsweep x ox hx) rfl
    · rw [hexec]
      exact hrecord

/-- The loop over the market orders only makes moves that are traced, by induction on the queue. -/
theorem fillLoop {cs keep : List Uuid} (h : Traced b₀ none b)
    (hl : Book.fillLoop p t cs b = .ok (keep, b')) : Traced b₀ none b' := by
  induction cs generalizing b keep with
  | nil =>
    cases hl
    exact h
  | cons c cs ih =>
    rw [Book.fillLoop, bind_eq_ok] at hl
    obtain ⟨o, ho, hl⟩ := hl
    rw [orderOf_eq_ok] at ho
    split at hl
    · exact ih h hl
    · rename_i hnew
      rw [not_not] at hnew
      split at hl
      · rw [bind_eq_ok] at hl
        obtain ⟨⟨keep', b₁⟩, hrest, hl⟩ := hl
        cases hl
        exact ih h hrest
      · rw [bind_eq_ok] at hl
        obtain ⟨b₁, hexec, hl⟩ := hl
        refine ih ((h.take c).execute (fun hborn => ?_) hexec) hl
        -- a queued order is older than the bar
        rw [h.of_new ho hnew] at hborn
        cases hborn

/-- Filling the market orders only makes moves that are traced. -/
theorem fillMarketOrders {bar : DecBar} (h : Traced b₀ none b)
    (hl : b.fillMarketOrders bar = .ok b') : Traced b₀ none b' := by
  rw [Book.fillMarketOrders, bind_eq_ok] at hl
  obtain ⟨⟨keep, b₁⟩, hloop, hl⟩ := hl
  cases hl
  exact (h.fillLoop hloop).of_sweep (fun x ox hx => .inl hx) rfl

/-- A firing only makes moves that are traced. -/
theorem fire (h : Traced b₀ none b) {tr : Trigger} (htr : IsTrigger b t tr)
    (hfire : b.fire tr p t = .ok b') : Traced b₀ none b' := by
  rcases fire_eq_ok htr hfire with
    ⟨c, o, -, ho, hnew, -, hexec⟩ | ⟨hpos, tp, o, reason, hsyn, -, hexec⟩
  · refine Traced.execute (b := b.takeStop c) (h.take c) (fun hborn => ?_) hexec
    rw [h.of_new ho hnew] at hborn
    cases hborn
  · refine Traced.execute (b := b.takeSynthetic tp o) (fun x ox hhand hx => ?_) (fun _ => ?_) hexec
    · have hne : b.ids.nextUuid.1 ≠ x := fun heq => hhand (congrArg some heq)
      have hget : (b.orders.insert b.ids.nextUuid.1 o).get? x = some ox := hx
      rw [Dict.get?_insert_of_ne _ _ hne] at hget
      exact h x ox (by simp) hget
    · -- a synthetic order is for the whole position
      have hclose := executableQty_close (b := b.takeSynthetic tp o) hpos hsyn.reduceOnly hsyn.side
        hsyn.qty
      exact hclose.trans hsyn.qty.symm

/-- So does the whole walk. -/
theorem walkPhase {bar : DecBar} (h : Traced b₀ none b) (hl : b.walkPhase bar = .ok b') :
    Traced b₀ none b' :=
  walkPhase_rule (P := Traced b₀ none) (fun _ _ _ _ hx htr hfire => hx.fire htr hfire) h hl

/-- So does the sweep of what is left over. -/
theorem expirePhase (h : Traced b₀ none b) (hl : b.expirePhase = .ok b') :
    Traced b₀ none b' := by
  rw [Book.expirePhase] at hl
  split at hl
  · obtain ⟨sides, keep, orders, -, hsweep, rfl⟩ := expireOrphanStops_eq_ok hl
    exact h.of_sweep (fun x ox hx => Book.sweep_back (fun _ => rfl) hsweep x ox hx) rfl
  · cases hl
    exact h

/-- **A bar settles what it touches.** -/
theorem runBar {bar : DecBar} (h : Traced b₀ none b) (hl : b.runBar bar = .ok b') :
    Traced b₀ none b' := by
  obtain ⟨b₁, b₂, hmarket, hwalk, hexpire⟩ := runBar_eq_ok hl
  exact ((h.fillMarketOrders hmarket).walkPhase hwalk).expirePhase hexpire

end Traced

end Book

end FuzzHelm
