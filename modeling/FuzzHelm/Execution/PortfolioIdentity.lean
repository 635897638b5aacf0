import FuzzHelm.Execution.Portfolio
import FuzzHelm.Lib.Literals
import Mathlib.Algebra.Order.Ring.Star
import Mathlib.Data.Rat.Star
import Mathlib.Tactic.LinearCombination

namespace FuzzHelm

open Lib

/-!
# The accounting identity

The two forms of the equity agree after any interleaving of fills, funding and marks.

* `Position.fill_cases` — the four things a fill can do to a position: open or add, reduce,
  close, flip;
* `Position.fill_cost` — the cost basis moves by the cash flow and the realised profit;
* `AccountInv` — the invariant that links cash, realised profit, funding and cost basis;
* `accounting_identity` — the law.
-/

/-! ### What a fill does to a position -/

namespace Position

variable {p : Position} {f : Fill}

/-- The square of a side that is not flat is 1. -/
theorem side_mul_self (hside : f.side ≠ .flat) : (f.side.toInt : ℚ) * f.side.toInt = 1 := by
  cases hs : f.side with
  | flat => exact absurd hs hside
  | long => norm_num
  | short => norm_num

/-- A side that is not flat is not zero. -/
theorem side_ne_zero (hside : f.side ≠ .flat) : (f.side.toInt : ℚ) ≠ 0 := by
  intro h
  have hone := side_mul_self hside
  rw [h, zero_mul] at hone
  exact zero_ne_one hone

/-- A side that is not flat has size 1. -/
theorem side_abs (hside : f.side ≠ .flat) : |(f.side.toInt : ℚ)| = 1 := by
  cases hs : f.side with
  | flat => exact absurd hs hside
  | long => norm_num
  | short => norm_num

/-- The sign of a positive amount on the side of a fill. -/
theorem sign_side_mul (hside : f.side ≠ .flat) {x : ℚ} (hx : 0 < x) :
    sign (f.side.toInt * x) = f.side.toInt := by
  cases hs : f.side with
  | flat => exact absurd hs hside
  | long => exact sign_of_pos (by simpa using hx)
  | short => exact sign_of_neg (by simpa using hx)

/-- The change of a fill has the sign of its side. -/
theorem dq_sign (hside : f.side ≠ .flat) : sign f.dq = f.side.toInt :=
  sign_side_mul hside f.qty_pos

/-- A fill on the side of a position, or without one, leaves a position. -/
theorem add_dq_ne_zero (hside : f.side ≠ .flat)
    (h : p.qty = 0 ∨ sign p.qty = f.side.toInt) : p.qty + f.dq ≠ 0 := by
  intro hzero
  have hs := dq_sign hside
  rcases h with hq | hq
  · rw [hq, zero_add] at hzero
    rw [hzero, sign_zero] at hs
    exact side_ne_zero hside (by exact_mod_cast hs.symm)
  · -- both terms have the sign of the side
    have hneg : f.dq = -p.qty := by linarith
    rw [hneg, sign_neg, hq] at hs
    have hz : f.side.toInt = 0 := by omega
    exact side_ne_zero hside (by exact_mod_cast hz)

/-- A smaller fill against a position leaves a position. -/
theorem sub_dq_ne_zero (hside : f.side ≠ .flat) (h : p.qty = -f.side.toInt * |p.qty|)
    (hlt : f.qty < |p.qty|) : p.qty + f.dq ≠ 0 := by
  intro hzero
  rw [Fill.dq] at hzero
  have hprod : (f.side.toInt : ℚ) * (f.qty - |p.qty|) = 0 := by linear_combination hzero - h
  rcases mul_eq_zero.mp hprod with h0 | h0
  · exact side_ne_zero hside h0
  · linarith

/-- A position that is neither empty nor on the side of the fill is on the other side. -/
theorem sign_opposite (hside : f.side ≠ .flat) (hq : p.qty ≠ 0)
    (hne : sign p.qty ≠ f.side.toInt) : sign p.qty = -f.side.toInt := by
  cases hs : f.side with
  | flat => exact absurd hs hside
  | long =>
    rw [hs] at hne
    rcases sign_cases p.qty with ⟨-, h⟩ | ⟨h0, -⟩ | ⟨-, h⟩
    · exact h
    · exact absurd h0 hq
    · exact absurd h hne
  | short =>
    rw [hs] at hne
    rcases sign_cases p.qty with ⟨-, h⟩ | ⟨h0, -⟩ | ⟨-, h⟩
    · exact absurd h hne
    · exact absurd h0 hq
    · exact h

/-- The position opposite to a fill, as minus the side times its size. -/
theorem qty_eq_of_opposite (h : sign p.qty = -f.side.toInt) :
    p.qty = -f.side.toInt * |p.qty| := by
  have habs := sign_mul_abs p.qty
  rw [h] at habs
  push_cast at habs
  exact habs.symm

/-- **Everything a fill can do to a position.** -/
theorem fill_cases (hside : f.side ≠ .flat) (r : Option ExitReason) :
    ((p.qty = 0 ∨ sign p.qty = f.side.toInt) ∧
        p.fill f r = ((p.payFee f.fee).increase f, 0, none)) ∨
      (sign p.qty = -f.side.toInt ∧ f.qty < |p.qty| ∧
        p.fill f r = ((p.payFee f.fee).reduce f, p.closedPnl f, none)) ∨
      (sign p.qty = -f.side.toInt ∧ f.qty = |p.qty| ∧
        p.fill f r = (((p.payFee f.fee).reduce f).finished, p.closedPnl f,
          some (((p.payFee f.fee).reduce f).closedTrade f.tsFillNs r))) ∨
      (sign p.qty = -f.side.toInt ∧ |p.qty| < f.qty ∧
        p.fill f r = (((p.payFee f.fee).reduce f).finished.reopen f (f.qty - |p.qty|)
            (f.fee - p.feeClose f), p.closedPnl f,
          some (((p.payFee f.fee).reduce f).closedTrade f.tsFillNs r))) := by
  by_cases hinc : p.qty = 0 ∨ sign p.qty = f.side.toInt
  · exact .inl ⟨hinc, if_pos hinc⟩
  · right
    have hopp : sign p.qty = -f.side.toInt := by
      rw [not_or] at hinc
      exact sign_opposite hside hinc.1 hinc.2
    have hq := qty_eq_of_opposite hopp
    have hside' := side_ne_zero hside
    -- the quantity that is left is the side times what is not closed
    have hleft : ((p.payFee f.fee).reduce f).qty =
        f.side.toInt * (p.closedQty f - |p.qty|) := by
      show p.qty + f.side.toInt * p.closedQty f = _
      linear_combination hq
    have hfill : p.fill f r =
        (if 0 < f.qty - p.closedQty f then
            (if ((p.payFee f.fee).reduce f).qty = 0 then ((p.payFee f.fee).reduce f).finished
              else (p.payFee f.fee).reduce f).reopen f (f.qty - p.closedQty f)
                (f.fee - p.feeClose f)
          else if ((p.payFee f.fee).reduce f).qty = 0 then ((p.payFee f.fee).reduce f).finished
            else (p.payFee f.fee).reduce f,
          p.closedPnl f,
          if ((p.payFee f.fee).reduce f).qty = 0 then
            some (((p.payFee f.fee).reduce f).closedTrade f.tsFillNs r) else none) :=
      if_neg hinc
    rw [hfill, hleft]
    rcases lt_trichotomy f.qty |p.qty| with hlt | heq | hgt
    · have hclosed : p.closedQty f = f.qty := min_eq_left hlt.le
      have hne : ¬ (f.side.toInt : ℚ) * (f.qty - |p.qty|) = 0 :=
        mul_ne_zero hside' (sub_neg.mpr hlt).ne
      rw [hclosed, sub_self, if_neg (lt_irrefl _), if_neg hne, if_neg hne]
      exact .inl ⟨hopp, hlt, rfl⟩
    · have hclosed : p.closedQty f = f.qty := min_eq_left heq.le
      rw [hclosed, heq, sub_self, mul_zero, if_neg (lt_irrefl _), if_pos rfl, if_pos rfl]
      exact .inr (.inl ⟨hopp, rfl, rfl⟩)
    · have hclosed : p.closedQty f = |p.qty| := min_eq_right hgt.le
      rw [hclosed, sub_self, mul_zero, if_pos (sub_pos.mpr hgt), if_pos rfl, if_pos rfl]
      exact .inr (.inr ⟨hopp, hgt, rfl⟩)

/-- **Cost and quantity.** Whatever a fill does, the quantity moves by its signed quantity,
    the cost basis by its cash flow and the profit it realises, and a position that is
    closed has no cost left. -/
theorem fill_cost (hside : f.side ≠ .flat) (r : Option ExitReason) :
    (p.fill f r).1.qty = p.qty + f.dq ∧
      (p.fill f r).1.costBasis = p.costBasis + f.dq * f.price + (p.fill f r).2.1 ∧
      ((p.fill f r).1.qty = 0 → (p.fill f r).1.costBasis = 0) := by
  rcases fill_cases hside r (p := p) with ⟨hinc, h⟩ | ⟨hopp, hlt, h⟩ | ⟨hopp, heq, h⟩ |
    ⟨hopp, hgt, h⟩
  · -- opening or adding
    rw [h]
    have hqty : ((p.payFee f.fee).increase f).qty = p.qty + f.dq := by
      rw [increase]
      split <;> rfl
    have hcost : ((p.payFee f.fee).increase f).costBasis = p.costBasis + f.dq * f.price := by
      rw [increase]
      split <;> rfl
    exact ⟨hqty, by rw [hcost, add_zero],
      fun hzero => absurd (hqty ▸ hzero) (add_dq_ne_zero hside hinc)⟩
  · -- reducing
    rw [h]
    have hclosed : p.closedQty f = f.qty := min_eq_left hlt.le
    have hq := qty_eq_of_opposite hopp
    have hqty : ((p.payFee f.fee).reduce f).qty = p.qty + f.dq := by
      show p.qty + f.side.toInt * p.closedQty f = _
      rw [hclosed, Fill.dq]
    have hne : p.qty + f.side.toInt * p.closedQty f ≠ 0 := by
      rw [hclosed]
      exact sub_dq_ne_zero hside hq hlt
    have hcost : ((p.payFee f.fee).reduce f).costBasis = p.costBasis - p.costRemoved f :=
      if_neg hne
    refine ⟨hqty, ?_, fun hzero => absurd (hqty ▸ hzero) ?_⟩
    · rw [hcost, closedPnl, hclosed, hopp, Fill.dq]
      push_cast
      ring
    · rw [Fill.dq, ← hclosed]
      exact hne
  · -- closing
    rw [h]
    have hclosed : p.closedQty f = |p.qty| := min_eq_right heq.ge
    have hq := qty_eq_of_opposite hopp
    have hzero : p.qty + f.side.toInt * p.closedQty f = 0 := by
      rw [hclosed]
      linear_combination hq
    have hcost : ((p.payFee f.fee).reduce f).finished.costBasis = 0 := if_pos hzero
    refine ⟨?_, ?_, fun _ => hcost⟩
    · show p.qty + f.side.toInt * p.closedQty f = _
      rw [hclosed, ← heq, Fill.dq]
    · rw [hcost, closedPnl, costRemoved, if_pos hclosed, hclosed, hopp, Fill.dq, heq]
      push_cast
      ring
  · -- flipping
    rw [h]
    have hclosed : p.closedQty f = |p.qty| := min_eq_right hgt.le
    have hq := qty_eq_of_opposite hopp
    refine ⟨?_, ?_, fun hzero => ?_⟩
    · show f.side.toInt * (f.qty - |p.qty|) = _
      rw [Fill.dq]
      linear_combination -hq
    · show f.side.toInt * (f.qty - |p.qty|) * f.price = _
      rw [closedPnl, costRemoved, if_pos hclosed, hclosed, hopp, Fill.dq]
      push_cast
      ring
    · have hprod : (f.side.toInt : ℚ) * (f.qty - |p.qty|) = 0 := hzero
      rcases mul_eq_zero.mp hprod with h0 | h0
      · exact absurd h0 (side_ne_zero hside)
      · linarith

end Position

/-! ### The events of the account -/

/-- The calls of a portfolio. -/
inductive PortfolioCall where
  | fill (f : Fill) (exitReason : Option ExitReason)
  | funding (ch : FundingCharge)
  | mark (prices : List (String × Decimal))

/-- What the calls of a portfolio answer. -/
inductive PortfolioAnswer where
  | trades (r : Except PyError (List ClosedTrade))
  | done
  | equity (r : Except PyError Decimal)

/-- One event of the account and what it answers. -/
def Portfolio.call (pf : Portfolio) : PortfolioCall → PortfolioAnswer × Portfolio
  | .fill f r =>
    let (a, pf') := pf.applyFill f r
    (.trades a, pf')
  | .funding ch => (.done, pf.applyFunding ch)
  | .mark prices =>
    let (a, pf') := pf.mark prices
    (.equity a, pf')

/-- The step relation of the account. -/
def PortfolioStep (pf : Portfolio) (c : PortfolioCall) (a : PortfolioAnswer)
    (pf' : Portfolio) : Prop :=
  pf.call c = (a, pf')

/-- The log of a run of the account. -/
abbrev PortfolioLog := List (Entry Portfolio PortfolioCall PortfolioAnswer)

/-! ### The invariant -/

/-- Cash is the deposit with the realised profit, less funding and the cost of what is held;
    a position that is not held costs nothing, and a held one has a mark. -/
structure AccountInv (pf : Portfolio) : Prop where
  cash_eq : pf.cash = pf.initial + pf.realizedPnl - pf.fundingPaid -
    pf.positions.sum fun _ p => p.costBasis
  flat : ∀ i p, pf.positions.get? i = some p → p.qty = 0 → p.costBasis = 0
  marked : ∀ i p, pf.positions.get? i = some p → p.qty ≠ 0 → (pf.marks.get? i).isSome

namespace AccountInv

variable {pf : Portfolio}

/-- A new portfolio has no positions. -/
theorem new (cash : NonNegDec) : AccountInv (Portfolio.new cash) where
  cash_eq := by simp [Portfolio.new]
  flat := fun i p h => by cases h
  marked := fun i p h => by cases h

/-- The position of an instrument, new or old, costs nothing when it is not held. -/
theorem positionOrNew_flat (h : AccountInv pf) (i : String)
    (hq : (pf.positionOrNew i).qty = 0) : (pf.positionOrNew i).costBasis = 0 := by
  unfold Portfolio.positionOrNew at hq ⊢
  cases hp : pf.positions.get? i with
  | none => rfl
  | some p =>
    rw [hp] at hq
    exact h.flat i p hp hq

/-- Writing a position exchanges its value for the old one, when an empty position counts
    for nothing. -/
theorem sum_write (pf : Portfolio) (value : Position → Decimal)
    (hnew : ∀ i, value (Position.new i) = 0) (i : String) (p : Position) :
    ((pf.positions.insert i p).sum fun _ p => value p) =
      (pf.positions.sum fun _ p => value p) + value p - value (pf.positionOrNew i) := by
  have hsum := pf.positions.sum_insert (fun _ p => value p) i p
  have hold : value (pf.positionOrNew i) = (pf.positions.get? i).elim 0 value := by
    unfold Portfolio.positionOrNew
    cases pf.positions.get? i with
    | none => exact hnew i
    | some q => rfl
  rw [hold]
  linarith

/-- A mark moves no sum that the adverse excursion does not enter. -/
theorem markOne_sum (pf : Portfolio) (value : Position → Decimal)
    (hvalue : ∀ p price, value (Position.markAt p price) = value p) (i : String)
    (price : Decimal) :
    ((pf.markOne i price).positions.sum fun _ p => value p) =
      pf.positions.sum fun _ p => value p := by
  simp only [Portfolio.markOne]
  cases hi : pf.positions.get? i with
  | none => rfl
  | some pos =>
    simp only
    split
    · have hins := pf.positions.sum_insert (fun _ p => value p) i (pos.markAt price)
      rw [hi, Option.elim_some, hvalue] at hins
      exact add_right_cancel hins
    · rfl

/-- **Step lemma**: a fill, whatever side it is on. -/
theorem bookFill (h : AccountInv pf) {f : Fill} (hside : f.side ≠ .flat)
    (r : Option ExitReason) : AccountInv (pf.bookFill f r).2 := by
  obtain ⟨hqty, hcost, hflat⟩ := Position.fill_cost hside r (p := pf.positionOrNew f.instrument)
  constructor
  case cash_eq =>
    simp only [Portfolio.bookFill]
    rw [sum_write pf (fun p => p.costBasis) (fun _ => rfl), hcost, h.cash_eq]
    ring
  case flat =>
    intro i p hp hq
    simp only [Portfolio.bookFill, Dict.get?_insert] at hp
    split at hp
    · cases hp
      exact hflat hq
    · exact h.flat i p hp hq
  case marked =>
    intro i p hp hq
    simp only [Portfolio.bookFill, Dict.get?_insert] at hp
    simp only [Portfolio.bookFill]
    split at hp
    · rename_i hi
      rw [← hi]
      split
      · assumption
      · rw [Dict.get?_insert_self]
        rfl
    · rename_i hi
      split
      · exact h.marked i p hp hq
      · rw [Dict.get?_insert_of_ne _ _ hi]
        exact h.marked i p hp hq

/-- **Step lemma**: a charge of the funding. -/
theorem applyFunding (h : AccountInv pf) (ch : FundingCharge) :
    AccountInv (pf.applyFunding ch) := by
  -- an open position is in the table
  have hpos (i : String) : (pf.positionOrNew i).qty ≠ 0 →
      pf.positions.get? i = some (pf.positionOrNew i) := by
    unfold Portfolio.positionOrNew
    cases pf.positions.get? i with
    | none => exact fun hq => absurd rfl hq
    | some p => exact fun _ => rfl
  constructor
  case cash_eq =>
    simp only [Portfolio.applyFunding]
    rw [sum_write pf (fun p => p.costBasis) (fun _ => rfl), h.cash_eq]
    ring
  case flat =>
    intro i p hp hq
    simp only [Portfolio.applyFunding, Dict.get?_insert] at hp
    split at hp
    · cases hp
      exact h.positionOrNew_flat ch.instrument hq
    · exact h.flat i p hp hq
  case marked =>
    intro i p hp hq
    simp only [Portfolio.applyFunding, Dict.get?_insert] at hp
    split at hp
    · rename_i hi
      cases hp
      rw [← hi]
      exact h.marked ch.instrument _ (hpos _ hq) hq
    · exact h.marked i p hp hq

/-- **Step lemma**: one price. -/
theorem markOne (h : AccountInv pf) (i : String) (price : Decimal) :
    AccountInv (pf.markOne i price) := by
  -- only the mark and the adverse excursion move
  have hget (b : String) (p' : Position) (hp' : (pf.markOne i price).positions.get? b = some p') :
      ∃ p, pf.positions.get? b = some p ∧ p.qty = p'.qty ∧ p.costBasis = p'.costBasis := by
    simp only [Portfolio.markOne] at hp'
    cases hi : pf.positions.get? i with
    | none =>
      rw [hi] at hp'
      exact ⟨p', hp', rfl, rfl⟩
    | some pos =>
      simp only [hi] at hp'
      split at hp'
      · rw [Dict.get?_insert] at hp'
        split at hp'
        · rename_i hib
          cases hp'
          exact ⟨pos, hib ▸ hi, rfl, rfl⟩
        · exact ⟨p', hp', rfl, rfl⟩
      · exact ⟨p', hp', rfl, rfl⟩
  constructor
  case cash_eq =>
    have hsum := markOne_sum pf (fun p => p.costBasis) (fun _ _ => rfl) i price
    rw [hsum]
    exact h.cash_eq
  case flat =>
    intro b p' hp' hq
    obtain ⟨p, hp, hpq, hpc⟩ := hget b p' hp'
    rw [← hpc]
    exact h.flat b p hp (hpq.trans hq)
  case marked =>
    intro b p' hp' hq
    obtain ⟨p, hp, hpq, -⟩ := hget b p' hp'
    show ((pf.marks.insert i price).get? b).isSome = true
    rw [Dict.get?_insert]
    split
    · rfl
    · exact h.marked b p hp (hpq ▸ hq)

/-- **Step lemma**: all prices, by induction on them. -/
theorem mark (h : AccountInv pf) (prices : List (String × Decimal)) :
    AccountInv (pf.mark prices).2 := by
  induction prices generalizing pf with
  | nil => exact h
  | cons e prices ih =>
    rw [Portfolio.mark]
    split
    · exact h
    · exact ih (h.markOne e.1 e.2)

/-- **Every event keeps the invariant**, whether it raises or not. -/
theorem call (h : AccountInv pf) {c : PortfolioCall} {a : PortfolioAnswer} {pf' : Portfolio}
    (hstep : PortfolioStep pf c a pf') : AccountInv pf' := by
  cases c with
  | fill f r =>
    rw [PortfolioStep, Portfolio.call, Prod.mk.injEq] at hstep
    rw [← hstep.2, Portfolio.applyFill]
    split
    · exact h
    · rename_i hside
      exact h.bookFill hside r
  | funding ch =>
    rw [PortfolioStep, Portfolio.call, Prod.mk.injEq] at hstep
    rw [← hstep.2]
    exact h.applyFunding ch
  | mark prices =>
    rw [PortfolioStep, Portfolio.call, Prod.mk.injEq] at hstep
    rw [← hstep.2]
    exact h.mark prices

end AccountInv

/-! ### The two forms of the equity -/

/-- The mark of an instrument, zero when there is none. -/
def Portfolio.markD (pf : Portfolio) (i : String) : Decimal := (pf.marks.get? i).getD 0

/-- When every held position has a mark, a sum over the held positions is defined. -/
theorem Portfolio.heldSum_eq_ok {pf : Portfolio}
    (hmarked : ∀ i p, pf.positions.get? i = some p → p.qty ≠ 0 → (pf.marks.get? i).isSome)
    (value : Position → Decimal → Decimal) :
    pf.heldSum value =
      .ok (pf.positions.sum fun i p => if p.qty ≠ 0 then value p (pf.markD i) else 0) := by
  -- by induction on the entries, all of which are in the table
  have key (l : List (String × Position)) (hl : ∀ e ∈ l, e ∈ pf.positions.entries)
      (total : Decimal) :
      (l.foldlM (fun total e =>
        if e.2.qty ≠ 0 then do
          let m ← pf.markOf e.1
          return total + value e.2 m
        else return total) total : Except PyError Decimal) =
        .ok (total + (l.map fun e => if e.2.qty ≠ 0 then value e.2 (pf.markD e.1) else 0).sum) := by
    induction l generalizing total with
    | nil =>
      rw [List.map_nil, List.sum_nil, add_zero]
      rfl
    | cons e l ih =>
      have hl' : ∀ x ∈ l, x ∈ pf.positions.entries := fun x hx => hl x (List.mem_cons_of_mem _ hx)
      rw [List.foldlM_cons, List.map_cons, List.sum_cons]
      -- an open position has a mark, and a closed one adds nothing
      by_cases hq : e.2.qty ≠ 0
      · have hget := (pf.positions.mem_entries_iff e.1 e.2).mp (hl e (List.mem_cons_self ..))
        obtain ⟨m, hm⟩ := Option.isSome_iff_exists.mp (hmarked e.1 e.2 hget hq)
        have hmark : pf.markOf e.1 = .ok m := by rw [Portfolio.markOf, hm]
        have hmarkD : pf.markD e.1 = m := by rw [Portfolio.markD, hm, Option.getD_some]
        rw [if_pos hq, if_pos hq, hmark, hmarkD, ← add_assoc]
        exact ih hl' _
      · rw [if_neg hq, if_neg hq, zero_add]
        exact ih hl' _
  have h := key pf.positions.entries (fun _ he => he) 0
  rw [zero_add] at h
  exact h

/-- **The two forms agree** in every state of the invariant. -/
theorem AccountInv.equity_eq {pf : Portfolio} (h : AccountInv pf) :
    ∃ e, pf.equity = .ok e ∧ pf.equityCashForm = .ok e := by
  have hsplit : (pf.positions.sum fun i p =>
        if p.qty ≠ 0 then p.qty * pf.markD i - p.costBasis else 0) +
      (pf.positions.sum fun _ p => p.costBasis) =
        pf.positions.sum fun i p => if p.qty ≠ 0 then p.qty * pf.markD i else 0 := by
    rw [← Dict.sum_add]
    refine pf.positions.sum_congr fun i p hp => ?_
    by_cases hq : p.qty = 0
    · rw [if_neg (not_not.mpr hq), if_neg (not_not.mpr hq), h.flat i p hp hq, add_zero]
    · rw [if_pos hq, if_pos hq, sub_add_cancel]
  refine ⟨_, bind_eq_ok.mpr ⟨_, Portfolio.heldSum_eq_ok h.marked _, rfl⟩,
    bind_eq_ok.mpr ⟨_, Portfolio.heldSum_eq_ok h.marked _, congrArg Except.ok ?_⟩⟩
  rw [← hsplit, h.cash_eq, Portfolio.walletBalance]
  ring

/-- **The accounting identity.** After any interleaving of fills, funding charges and marks
    the margin form of the equity is defined and equals the cash form, and a position of
    quantity zero has no cost basis. -/
theorem accounting_identity (cash : NonNegDec) {pf : Portfolio} {log : PortfolioLog}
    (h : Run PortfolioStep (Portfolio.new cash) pf log) :
    (∃ e, pf.equity = .ok e ∧ pf.equityCashForm = .ok e) ∧
      ∀ i p, pf.positions.get? i = some p → p.qty = 0 → p.costBasis = 0 := by
  have hinv : AccountInv pf :=
    h.invariant (fun pf _ => AccountInv pf) (AccountInv.new cash)
      (fun _ _ _ _ _ hinv hstep => hinv.call hstep)
  exact ⟨hinv.equity_eq, hinv.flat⟩

/-- A fill of `qty` at `price` with a fee of one. -/
def sampleFill (side : Side) (qty price : Decimal) (hq : 0 < qty) (hp : 0 < price) : Fill :=
  ⟨0, none, "BTC", side, qty, price, 1, .taker, 0, 0, hq, hp, zero_le_one, le_rfl⟩

/-- A long that is added to, partly closed, charged for funding and flipped. -/
def sampleCalls : List PortfolioCall :=
  [.fill (sampleFill .long 2 100 (by norm_num) hundred_pos_rat) none,
    .fill (sampleFill .long 1 130 one_pos_rat (by norm_num)) none,
    .fill (sampleFill .short 1 120 one_pos_rat (by norm_num)) none,
    .funding ⟨"BTC", 0, 2, 120, 1 / 10000, 24 / 1000⟩,
    .mark [("BTC", 90)],
    .fill (sampleFill .short 5 95 five_pos_rat (by norm_num)) (some .stop),
    .mark [("BTC", 97)]]

/-- Both forms of the equity of the sample agree. -/
theorem accounting_identity_sample :
    ∃ e, (exec Portfolio.call (Portfolio.new ⟨1000, by norm_num⟩) sampleCalls).1.equity = .ok e ∧
      (exec Portfolio.call (Portfolio.new ⟨1000, by norm_num⟩) sampleCalls).1.equityCashForm
        = .ok e :=
  (accounting_identity ⟨1000, by norm_num⟩ (Run.exec Portfolio.call _ sampleCalls)).1

end FuzzHelm
