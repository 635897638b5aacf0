import FuzzHelm.Execution.PortfolioIdentity

namespace FuzzHelm

open Lib

/-!
# Conservation of the trade ledger

Trades are cut out of a running position; nothing that the account books is lost or booked
twice.

* `Position.net` — what the current trade of a position has earned so far;
* `TradeInv` — the accumulators of a held position agree with its quantity and its cost;
* `Position.fill_net` — a fill moves the net of the open and the closed trades together by
  its realised profit less its fee;
* `Settled` — a closed trade that came out of an evened position;
* `trade_ledger` — the law.
-/

namespace Position

variable {p : Position} {f : Fill}

/-- What the current trade has earned so far; nothing when there is no position. -/
def net (p : Position) : Decimal :=
  if p.qty = 0 then 0 else p.tRealized - p.tFees - p.tFunding

/-- The position that a fill closes, before the trade is booked. -/
def closing (p : Position) (f : Fill) : Position := (p.payFee f.fee).reduce f

/-- The accumulators of a held position: its side, its quantity as entries less exits, and
    its realised profit as the cash of the exits and entries with the cost that is left. -/
structure TradeInv (p : Position) : Prop where
  side : p.tSide.toInt = sign p.qty
  qty : |p.qty| = p.tEntryQty - p.tExitQty
  realized : p.tRealized = p.tSide.toInt * (p.tExitNotional - p.tEntryNotional) + p.costBasis

/-- Opening starts the accumulators afresh. -/
theorem increase_of_flat (hq : p.qty = 0) :
    (p.payFee f.fee).increase f =
      { (p.payFee f.fee).startTrade f.side f.tsFillNs with
        costBasis := p.costBasis + f.dq * f.price
        qty := p.qty + f.dq
        tFees := 0 + f.fee
        tEntryNotional := 0 + f.qty * f.price
        tEntryQty := 0 + f.qty
        tMaxQty := max 0 |p.qty + f.dq| } := by
  rw [increase, if_pos (show (p.payFee f.fee).qty = 0 from hq)]
  rfl

/-- Adding continues them. -/
theorem increase_of_held (hq : p.qty ≠ 0) :
    (p.payFee f.fee).increase f =
      { p.payFee f.fee with
        costBasis := p.costBasis + f.dq * f.price
        qty := p.qty + f.dq
        tFees := p.tFees + f.fee
        tEntryNotional := p.tEntryNotional + f.qty * f.price
        tEntryQty := p.tEntryQty + f.qty
        tMaxQty := max p.tMaxQty |p.qty + f.dq| } := by
  rw [increase, if_neg (show ¬ (p.payFee f.fee).qty = 0 from hq)]
  rfl

/-- A position with a sign is not zero. -/
theorem qty_ne_zero_of_opposite (hside : f.side ≠ .flat) (h : sign p.qty = -f.side.toInt) :
    p.qty ≠ 0 := by
  intro hq
  rw [hq, sign_zero] at h
  have hz : f.side.toInt = 0 := by omega
  exact side_ne_zero hside (by exact_mod_cast hz)

/-- **Net of a fill.** What the open and the closed trades have earned moves by the profit
    that the fill realises less its fee. -/
theorem fill_net (hside : f.side ≠ .flat) (r : Option ExitReason) :
    (p.fill f r).1.net + ((p.fill f r).2.2.elim 0 fun ct => ct.pnl) =
      p.net + (p.fill f r).2.1 - f.fee := by
  obtain ⟨hqty, -, -⟩ := fill_cost hside r (p := p)
  rcases fill_cases hside r (p := p) with ⟨hinc, h⟩ | ⟨hopp, hlt, h⟩ | ⟨hopp, heq, h⟩ |
    ⟨hopp, hgt, h⟩
  · -- opening or adding: the fee is all that is booked
    rw [h] at hqty ⊢
    have hne : ((p.payFee f.fee).increase f).qty ≠ 0 := by
      rw [hqty]
      exact add_dq_ne_zero hside hinc
    simp only [net, if_neg hne, Option.elim_none, add_zero]
    by_cases hq : p.qty = 0
    · rw [if_pos hq, increase_of_flat hq]
      simp [startTrade]
    · rw [if_neg hq, increase_of_held hq]
      simp only [payFee]
      ring
  · -- reducing: the whole fee belongs to the closed part
    have hq := qty_ne_zero_of_opposite hside hopp
    rw [h] at hqty ⊢
    have hne : ((p.payFee f.fee).reduce f).qty ≠ 0 := by
      rw [hqty]
      exact sub_dq_ne_zero hside (qty_eq_of_opposite hopp) hlt
    have hfee : p.feeClose f = f.fee := if_pos (min_eq_left hlt.le)
    simp only [net, if_neg hne, if_neg hq, Option.elim_none]
    show p.tRealized + p.closedPnl f - (p.tFees + p.feeClose f) - p.tFunding + 0 = _
    rw [hfee]
    ring
  · -- closing: the trade is booked with the whole fee
    have hq := qty_ne_zero_of_opposite hside hopp
    rw [h] at hqty ⊢
    have hzero : (((p.payFee f.fee).reduce f).finished).qty = 0 := by
      rw [hqty, Fill.dq, heq]
      linear_combination qty_eq_of_opposite hopp
    have hfee : p.feeClose f = f.fee := if_pos (min_eq_left heq.le)
    simp only [net, if_pos hzero, if_neg hq, Option.elim_some]
    show 0 + (p.tRealized + p.closedPnl f - (p.tFees + p.feeClose f) - p.tFunding) = _
    rw [hfee]
    ring
  · -- flipping: the fee is split between the two trades
    have hq := qty_ne_zero_of_opposite hside hopp
    rw [h]
    have hne : (((p.payFee f.fee).reduce f).finished.reopen f (f.qty - |p.qty|)
        (f.fee - p.feeClose f)).qty ≠ 0 :=
      mul_ne_zero (side_ne_zero hside) (sub_pos.mpr hgt).ne'
    simp only [net, if_neg hne, if_neg hq, Option.elim_some]
    show 0 - (0 + (f.fee - p.feeClose f)) - 0 +
      (p.tRealized + p.closedPnl f - (p.tFees + p.feeClose f) - p.tFunding) = _
    ring

/-- **Accumulators of a fill.** A fill keeps the accumulators of a held position in step with
    its quantity and its cost. -/
theorem fill_tradeInv (hside : f.side ≠ .flat) (hflat : p.qty = 0 → p.costBasis = 0)
    (hp : p.qty ≠ 0 → TradeInv p) (r : Option ExitReason) (hne : (p.fill f r).1.qty ≠ 0) :
    TradeInv (p.fill f r).1 := by
  obtain ⟨hqty, hcost, -⟩ := fill_cost hside r (p := p)
  rcases fill_cases hside r (p := p) with ⟨hinc, h⟩ | ⟨hopp, hlt, h⟩ | ⟨hopp, heq, h⟩ |
    ⟨hopp, hgt, h⟩
  · rw [h]
    by_cases hq : p.qty = 0
    · -- opening: a fresh trade on the side of the fill
      rw [increase_of_flat hq]
      constructor
      case side =>
        show f.side.toInt = sign (p.qty + f.dq)
        rw [hq, zero_add, dq_sign hside]
      case qty =>
        show |p.qty + f.dq| = 0 + f.qty - 0
        rw [hq, zero_add, Fill.dq, abs_mul, side_abs hside, abs_of_pos f.qty_pos]
        ring
      case realized =>
        show 0 = f.side.toInt * (0 - (0 + f.qty * f.price)) + (p.costBasis + f.dq * f.price)
        rw [hflat hq, Fill.dq]
        ring
    · -- adding: on the side of the position
      have hs : sign p.qty = f.side.toInt := hinc.resolve_left hq
      obtain ⟨hi1, hi2, hi3⟩ := hp hq
      have hsum : p.qty + f.dq = f.side.toInt * (|p.qty| + f.qty) := by
        have habs := sign_mul_abs p.qty
        rw [hs] at habs
        rw [Fill.dq]
        linear_combination -habs
      have hpos : 0 < |p.qty| + f.qty := add_pos_of_nonneg_of_pos (abs_nonneg _) f.qty_pos
      rw [increase_of_held hq]
      constructor
      case side =>
        show p.tSide.toInt = sign (p.qty + f.dq)
        rw [hi1, hs, hsum, sign_side_mul hside hpos]
      case qty =>
        show |p.qty + f.dq| = p.tEntryQty + f.qty - p.tExitQty
        rw [hsum, abs_mul, side_abs hside, abs_of_pos hpos, hi2]
        ring
      case realized =>
        show p.tRealized = p.tSide.toInt * (p.tExitNotional - (p.tEntryNotional + f.qty * f.price))
          + (p.costBasis + f.dq * f.price)
        rw [hi3, hi1, hs, Fill.dq]
        ring
  · -- reducing: the rest stays on its side
    obtain ⟨hi1, hi2, hi3⟩ := hp (qty_ne_zero_of_opposite hside hopp)
    have hclosed : p.closedQty f = f.qty := min_eq_left hlt.le
    have hval := qty_eq_of_opposite hopp
    have hrest : p.qty + f.dq = -(f.side.toInt * (|p.qty| - f.qty)) := by
      rw [Fill.dq]
      linear_combination hval
    have hpos : 0 < |p.qty| - f.qty := sub_pos.mpr hlt
    rw [h] at hqty hcost ⊢
    constructor
    case side =>
      rw [hqty, hrest, sign_neg, sign_side_mul hside hpos, ← hopp]
      exact hi1
    case qty =>
      rw [hqty, hrest, abs_neg, abs_mul, side_abs hside, abs_of_pos hpos, hi2]
      show _ = p.tEntryQty - (p.tExitQty + p.closedQty f)
      rw [hclosed]
      ring
    case realized =>
      rw [hcost]
      show p.tRealized + p.closedPnl f = p.tSide.toInt *
        (p.tExitNotional + p.closedQty f * f.price - p.tEntryNotional) +
          (p.costBasis + f.dq * f.price + p.closedPnl f)
      rw [hi3, hi1, hopp, hclosed, Fill.dq]
      push_cast
      ring
  · -- closing leaves no position
    rw [h] at hqty hne
    refine absurd ?_ hne
    rw [hqty, Fill.dq, heq]
    linear_combination qty_eq_of_opposite hopp
  · -- flipping: a fresh trade with what is left of the fill
    have hpos : 0 < f.qty - |p.qty| := sub_pos.mpr hgt
    rw [h]
    constructor
    case side => exact (sign_side_mul hside hpos).symm
    case qty =>
      show |f.side.toInt * (f.qty - |p.qty|)| = 0 + (f.qty - |p.qty|) - 0
      rw [abs_mul, side_abs hside, abs_of_pos hpos]
      ring
    case realized =>
      show 0 = f.side.toInt * (0 - (0 + (f.qty - |p.qty|) * f.price)) +
        f.side.toInt * (f.qty - |p.qty|) * f.price
      ring

/-- **A closed trade is even.** The position that a fill closes has no quantity left, has
    taken out what it took in, and has realised the difference of its two notionals. -/
theorem closing_even (hside : f.side ≠ .flat) (hp : p.qty ≠ 0 → TradeInv p)
    (hopp : sign p.qty = -f.side.toInt) (hle : |p.qty| ≤ f.qty) :
    (p.closing f).qty = 0 ∧ (p.closing f).tEntryQty = (p.closing f).tExitQty ∧
      (p.closing f).tRealized = (p.closing f).tSide.toInt *
        ((p.closing f).tExitNotional - (p.closing f).tEntryNotional) := by
  obtain ⟨hi1, hi2, hi3⟩ := hp (qty_ne_zero_of_opposite hside hopp)
  have hclosed : p.closedQty f = |p.qty| := min_eq_right hle
  refine ⟨?_, ?_, ?_⟩
  · show p.qty + f.side.toInt * p.closedQty f = 0
    rw [hclosed]
    linear_combination qty_eq_of_opposite hopp
  · show p.tEntryQty = p.tExitQty + p.closedQty f
    rw [hclosed, hi2]
    ring
  · show p.tRealized + p.closedPnl f =
      p.tSide.toInt * (p.tExitNotional + p.closedQty f * f.price - p.tEntryNotional)
    rw [closedPnl, costRemoved, if_pos hclosed, hclosed, hi3, hi1]
    ring

/-- **A flip splits its fee.** The closed trade takes the share of the closed quantity, the
    opened one the rest. -/
theorem fill_flip (hside : f.side ≠ .flat) (r : Option ExitReason)
    (hflip : p.qty * (p.fill f r).1.qty < 0) :
    ∃ ct, (p.fill f r).2.2 = some ct ∧ ct.fees + (p.fill f r).1.tFees = p.tFees + f.fee ∧
      ct.fees = p.tFees + f.fee * |p.qty| / f.qty := by
  obtain ⟨hqty, -, -⟩ := fill_cost hside r (p := p)
  rcases fill_cases hside r (p := p) with ⟨hinc, h⟩ | ⟨hopp, hlt, h⟩ | ⟨hopp, heq, h⟩ |
    ⟨hopp, hgt, h⟩
  · -- an addition stays on its side
    rw [hqty, Fill.dq] at hflip
    rcases hinc with hq | hq
    · rw [hq, zero_mul] at hflip
      exact absurd hflip (lt_irrefl 0)
    · have habs := sign_mul_abs p.qty
      rw [hq] at habs
      have hprod : p.qty * (p.qty + f.side.toInt * f.qty) = |p.qty| * (|p.qty| + f.qty) := by
        rw [← habs, abs_mul, side_abs hside, abs_abs, one_mul]
        linear_combination (|p.qty| * (|p.qty| + f.qty)) * side_mul_self hside
      rw [hprod] at hflip
      exact absurd hflip (not_lt.mpr (mul_nonneg (abs_nonneg _)
        (add_nonneg (abs_nonneg _) f.qty_pos.le)))
  · -- so does what a smaller fill leaves
    rw [hqty, Fill.dq] at hflip
    have hval := qty_eq_of_opposite hopp
    have hprod : p.qty * (p.qty + f.side.toInt * f.qty) = |p.qty| * (|p.qty| - f.qty) := by
      rw [hval, abs_mul, abs_neg, side_abs hside, abs_abs, one_mul]
      linear_combination (|p.qty| * (|p.qty| - f.qty)) * side_mul_self hside
    rw [hprod] at hflip
    exact absurd hflip (not_lt.mpr (mul_nonneg (abs_nonneg _) (sub_nonneg.mpr hlt.le)))
  -- a fill of the whole leaves nothing
  · have hzero : (p.fill f r).1.qty = 0 := by
      rw [hqty, Fill.dq, heq]
      linear_combination qty_eq_of_opposite hopp
    rw [hzero, mul_zero] at hflip
    exact absurd hflip (lt_irrefl 0)
  · have hclosed : p.closedQty f = |p.qty| := min_eq_right hgt.le
    have hfee : p.feeClose f = f.fee * |p.qty| / f.qty := by
      rw [feeClose, hclosed, if_neg hgt.ne]
    rw [h]
    refine ⟨_, rfl, ?_, ?_⟩
    · show p.tFees + p.feeClose f + (0 + (f.fee - p.feeClose f)) = _
      ring
    · show p.tFees + p.feeClose f = _
      rw [hfee]

end Position

/-! ### The invariant of the ledger -/

/-- A closed trade of the log: the fill that closed it, and the position that it closed. -/
def Settled (log : PortfolioLog) (ct : ClosedTrade) : Prop :=
  ∃ e ∈ log, ∃ f r, e.call = .fill f r ∧
    ct = ((e.before.positionOrNew f.instrument).closing f).closedTrade f.tsFillNs r ∧
    ((e.before.positionOrNew f.instrument).closing f).tEntryQty =
      ((e.before.positionOrNew f.instrument).closing f).tExitQty ∧
    ct.grossPnl = ct.side.toInt * (ct.exitNotional - ct.entryNotional)

/-- The account and its ledger of trades. -/
structure LedgerInv (pf : Portfolio) (log : PortfolioLog) : Prop where
  account : AccountInv pf
  held : ∀ i, (pf.positionOrNew i).qty ≠ 0 → (pf.positionOrNew i).TradeInv
  balance : (pf.closedTrades.map ClosedTrade.pnl).sum + (pf.positions.sum fun _ p => p.net) =
    pf.realizedPnl - pf.feesPaid - pf.fundingPaid
  settled : ∀ ct ∈ pf.closedTrades, Settled log ct

/-- Funding is charged only while there is a position. -/
def FundedHeld (e : Entry Portfolio PortfolioCall PortfolioAnswer) : Prop :=
  ∀ ch, e.call = .funding ch → e.before.positionQty ch.instrument ≠ 0

/-- The quantity of the portfolio is that of the position, or zero. -/
theorem Portfolio.positionQty_eq (pf : Portfolio) (i : String) :
    pf.positionQty i = (pf.positionOrNew i).qty := by
  unfold Portfolio.positionQty Portfolio.positionOrNew
  cases pf.positions.get? i <;> rfl

/-- Writing the position of one instrument leaves those of the others. -/
theorem Portfolio.positionOrNew_write (pf : Portfolio) (i : String) (p : Position) (b : String) :
    ((pf.positions.insert i p).get? b).getD (Position.new b) =
      if i = b then p else pf.positionOrNew b := by
  rw [Dict.get?_insert]
  split <;> rfl

/-- A mark leaves a position as it is or moves its adverse excursion. -/
theorem Portfolio.markOne_positionOrNew (pf : Portfolio) (i : String) (price : Decimal)
    (b : String) :
    (pf.markOne i price).positionOrNew b = pf.positionOrNew b ∨
      (pf.markOne i price).positionOrNew b = (pf.positionOrNew b).markAt price := by
  unfold Portfolio.positionOrNew Portfolio.markOne
  cases hi : pf.positions.get? i with
  | none => exact .inl rfl
  | some pos =>
    simp only
    split
    · rw [Dict.get?_insert]
      split
      · rename_i hib
        right
        rw [← hib, hi, Option.getD_some, Option.getD_some]
      · exact .inl rfl
    · exact .inl rfl

/-- A trade that is settled stays settled. -/
theorem Settled.mono {log : PortfolioLog} {ct : ClosedTrade} (h : Settled log ct)
    (e : Entry Portfolio PortfolioCall PortfolioAnswer) : Settled (log ++ [e]) ct := by
  obtain ⟨x, hx, rest⟩ := h
  exact ⟨x, List.mem_append_left _ hx, rest⟩

/-- The trade that a fill closes is even. -/
theorem settled_of_fill {pf : Portfolio} {log : PortfolioLog} {f : Fill}
    {r : Option ExitReason} (hside : f.side ≠ .flat) (hinv : LedgerInv pf log)
    {ct : ClosedTrade} (hct : ((pf.positionOrNew f.instrument).fill f r).2.2 = some ct)
    {e : Entry Portfolio PortfolioCall PortfolioAnswer} (he : e.before = pf)
    (hcall : e.call = .fill f r) : Settled (log ++ [e]) ct := by
  -- a trade is closed by a fill of the other side that is large enough
  have hclose : sign (pf.positionOrNew f.instrument).qty = -f.side.toInt ∧
      |(pf.positionOrNew f.instrument).qty| ≤ f.qty ∧
      ct = ((pf.positionOrNew f.instrument).closing f).closedTrade f.tsFillNs r := by
    rcases Position.fill_cases hside r (p := pf.positionOrNew f.instrument) with
      ⟨-, h⟩ | ⟨-, -, h⟩ | ⟨hopp, heq, h⟩ | ⟨hopp, hgt, h⟩
    · rw [h] at hct
      cases hct
    · rw [h] at hct
      cases hct
    · rw [h] at hct
      exact ⟨hopp, heq.ge, (Option.some.inj hct).symm⟩
    · rw [h] at hct
      exact ⟨hopp, hgt.le, (Option.some.inj hct).symm⟩
  obtain ⟨hopp, hle, rfl⟩ := hclose
  obtain ⟨-, heven, hgross⟩ :=
    Position.closing_even hside (hinv.held f.instrument) hopp hle
  subst he
  exact ⟨e, List.mem_append_right _ (List.mem_singleton_self _), f, r, hcall, rfl, heven, hgross⟩

/-- **Step lemma**: a fill, by cases on what it does to the position. -/
theorem LedgerInv.fill {pf : Portfolio} {log : PortfolioLog} {f : Fill}
    {r : Option ExitReason} (hinv : LedgerInv pf log) (hside : f.side ≠ .flat)
    {e : Entry Portfolio PortfolioCall PortfolioAnswer} (he : e.before = pf)
    (hcall : e.call = .fill f r) : LedgerInv (pf.bookFill f r).2 (log ++ [e]) := by
  refine ⟨hinv.account.bookFill hside r, ?_, ?_, ?_⟩
  -- only the position of this instrument changes
  · intro i hne
    have hpos : (pf.bookFill f r).2.positionOrNew i =
        if f.instrument = i then ((pf.positionOrNew f.instrument).fill f r).1
        else pf.positionOrNew i := pf.positionOrNew_write _ _ i
    rw [hpos] at hne ⊢
    split at hne
    · rename_i hi
      rw [if_pos hi]
      exact Position.fill_tradeInv hside (hinv.account.positionOrNew_flat f.instrument)
        (hinv.held f.instrument) r hne
    · rename_i hi
      rw [if_neg hi]
      exact hinv.held i hne
  · have hnet := Position.fill_net hside r (p := pf.positionOrNew f.instrument)
    have hbal := hinv.balance
    have hsum := AccountInv.sum_write pf Position.net (fun _ => rfl) f.instrument
      ((pf.positionOrNew f.instrument).fill f r).1
    have hclosed : ((((pf.positionOrNew f.instrument).fill f r).2.2.toList).map
        ClosedTrade.pnl).sum =
          ((pf.positionOrNew f.instrument).fill f r).2.2.elim 0 fun ct => ct.pnl := by
      cases ((pf.positionOrNew f.instrument).fill f r).2.2 <;> simp
    simp only [Portfolio.bookFill, List.map_append, List.sum_append]
    rw [hclosed, hsum]
    linarith
  · intro ct hct
    rcases List.mem_append.mp (show ct ∈ pf.closedTrades ++
        ((pf.positionOrNew f.instrument).fill f r).2.2.toList from hct) with hct | hct
    · exact (hinv.settled ct hct).mono e
    · exact settled_of_fill hside hinv (Option.mem_toList.mp hct) he hcall

/-- Funding moves the net of the position that it is charged on. -/
theorem LedgerInv.funding {pf : Portfolio} {log : PortfolioLog} {ch : FundingCharge}
    (hinv : LedgerInv pf log) (hheld : pf.positionQty ch.instrument ≠ 0)
    (e : Entry Portfolio PortfolioCall PortfolioAnswer) :
    LedgerInv (pf.applyFunding ch) (log ++ [e]) := by
  rw [pf.positionQty_eq] at hheld
  refine ⟨hinv.account.applyFunding ch, ?_, ?_, fun ct hct => (hinv.settled ct hct).mono e⟩
  -- the charge is booked on the open trade, whose quantities stay
  · intro i hne
    have hpos := pf.positionOrNew_write ch.instrument
      { pf.positionOrNew ch.instrument with
        fundingPaid := (pf.positionOrNew ch.instrument).fundingPaid + ch.amount
        tFunding := (pf.positionOrNew ch.instrument).tFunding + ch.amount } i
    change (pf.applyFunding ch).positionOrNew i = _ at hpos
    rw [hpos] at hne ⊢
    split at hne
    · rename_i hi
      rw [if_pos hi]
      obtain ⟨hi1, hi2, hi3⟩ := hinv.held ch.instrument hheld
      exact ⟨hi1, hi2, hi3⟩
    · rename_i hi
      rw [if_neg hi]
      exact hinv.held i hne
  -- it leaves the balance of the trade as it leaves the wallet
  · have hbal := hinv.balance
    have hsum := AccountInv.sum_write pf Position.net (fun _ => rfl) ch.instrument
      { pf.positionOrNew ch.instrument with
        fundingPaid := (pf.positionOrNew ch.instrument).fundingPaid + ch.amount
        tFunding := (pf.positionOrNew ch.instrument).tFunding + ch.amount }
    have hnet : Position.net { pf.positionOrNew ch.instrument with
        fundingPaid := (pf.positionOrNew ch.instrument).fundingPaid + ch.amount
        tFunding := (pf.positionOrNew ch.instrument).tFunding + ch.amount } =
          (pf.positionOrNew ch.instrument).net - ch.amount := by
      simp only [Position.net, if_neg hheld]
      ring
    simp only [Portfolio.applyFunding]
    rw [hsum, hnet]
    linarith

/-- A mark moves nothing that the ledger books. -/
theorem LedgerInv.mark {pf : Portfolio} {log : PortfolioLog} (hinv : LedgerInv pf log)
    (prices : List (String × Decimal)) : LedgerInv (pf.mark prices).2 log := by
  induction prices generalizing pf with
  | nil => exact hinv
  | cons x prices ih =>
    rw [Portfolio.mark]
    split
    · exact hinv
    · refine ih ⟨hinv.account.markOne x.1 x.2, ?_, ?_, hinv.settled⟩
      · intro i hne
        rcases pf.markOne_positionOrNew x.1 x.2 i with hsame | hmark
        · rw [hsame] at hne ⊢
          exact hinv.held i hne
        · rw [hmark] at hne ⊢
          obtain ⟨hi1, hi2, hi3⟩ := hinv.held i hne
          exact ⟨hi1, hi2, hi3⟩
      · rw [AccountInv.markOne_sum pf Position.net (fun _ _ => rfl)]
        exact hinv.balance

/-- **One event of the account** keeps the ledger. -/
theorem ledgerInv_step {pf : Portfolio} {log : PortfolioLog} {c : PortfolioCall}
    {a : PortfolioAnswer} {pf' : Portfolio} (hinv : LedgerInv pf log)
    (h : PortfolioStep pf c a pf') (hfund : FundedHeld ⟨pf, c, a, pf'⟩) :
    LedgerInv pf' (log ++ [⟨pf, c, a, pf'⟩]) := by
  -- a call that changes nothing but marks keeps the ledger
  have hmono : ∀ pf' : Portfolio, LedgerInv pf' log → LedgerInv pf' (log ++ [⟨pf, c, a, pf'⟩]) :=
    fun pf' h => ⟨h.account, h.held, h.balance, fun ct hct => (h.settled ct hct).mono _⟩
  cases c with
  | fill f r =>
    rw [PortfolioStep, Portfolio.call, Prod.mk.injEq] at h
    obtain ⟨-, h⟩ := h
    rw [Portfolio.applyFill] at h
    split at h
    · obtain rfl : pf = pf' := h
      exact hmono pf hinv
    · rename_i hside
      obtain rfl : (pf.bookFill f r).2 = pf' := h
      exact hinv.fill hside rfl rfl
  | funding ch =>
    rw [PortfolioStep, Portfolio.call, Prod.mk.injEq] at h
    obtain ⟨-, rfl⟩ := h
    exact hinv.funding (hfund ch rfl) _
  | mark prices =>
    rw [PortfolioStep, Portfolio.call, Prod.mk.injEq] at h
    obtain ⟨-, rfl⟩ := h
    exact hmono _ (hinv.mark prices)

/-! ### The law -/

/-- A fill that flips the position closes one trade, and the fees of the closed and of the
    opened trade together grow by the fee of the fill. -/
def SplitsFee (e : Entry Portfolio PortfolioCall PortfolioAnswer) : Prop :=
  ∀ f r, e.call = .fill f r →
    (e.before.positionOrNew f.instrument).qty * (e.after.positionOrNew f.instrument).qty < 0 →
    ∃ ct, e.answer = .trades (.ok [ct]) ∧
      ct.fees + (e.after.positionOrNew f.instrument).tFees =
        (e.before.positionOrNew f.instrument).tFees + f.fee

/-- The fee of a call is split between what it closes and what it opens. -/
theorem splitsFee_step {pf : Portfolio} {c : PortfolioCall} {a : PortfolioAnswer}
    {pf' : Portfolio} (h : PortfolioStep pf c a pf') : SplitsFee ⟨pf, c, a, pf'⟩ := by
  rintro f r hc hflip
  change c = _ at hc
  subst hc
  rw [PortfolioStep, Portfolio.call, Prod.mk.injEq] at h
  obtain ⟨rfl, h⟩ := h
  by_cases hside : f.side = .flat
  · -- refused: the position is the same before and after
    rw [Portfolio.applyFill, if_pos hside] at h
    obtain rfl : pf = pf' := h
    exact absurd hflip (not_lt.mpr (mul_self_nonneg _))
  -- a fill that turns the position closes one trade and opens another
  · rw [Portfolio.applyFill, if_neg hside] at h
    obtain rfl : (pf.bookFill f r).2 = pf' := h
    have hpos : (pf.bookFill f r).2.positionOrNew f.instrument =
        ((pf.positionOrNew f.instrument).fill f r).1 :=
      (pf.positionOrNew_write _ _ _).trans (if_pos rfl)
    simp only [hpos] at hflip ⊢
    obtain ⟨ct, hct, hfees, -⟩ := Position.fill_flip hside r hflip
    refine ⟨ct, ?_, hfees⟩
    rw [Portfolio.applyFill, if_neg hside]
    show PortfolioAnswer.trades (.ok
      ((pf.positionOrNew f.instrument).fill f r).2.2.toList) = _
    rw [hct]
    rfl

/-- **Conservation of the trade ledger.** In any run in which funding is charged only on a
    held position, the profit of the closed trades and the net of the open ones add up to
    the realised profit less fees and funding of the account; every closed trade comes out
    of an evened position and has the difference of its notionals as its gross profit; and a
    flip splits its fee without loss. -/
theorem trade_ledger (cash : NonNegDec) {pf : Portfolio} {log : PortfolioLog}
    (h : Run PortfolioStep (Portfolio.new cash) pf log) (hfund : ∀ e ∈ log, FundedHeld e) :
    (pf.closedTrades.map ClosedTrade.pnl).sum + (pf.positions.sum fun _ p => p.net) =
        pf.realizedPnl - pf.feesPaid - pf.fundingPaid ∧
      (∀ ct ∈ pf.closedTrades, Settled log ct) ∧ ∀ e ∈ log, SplitsFee e := by
  have hinv : (∀ e ∈ log, FundedHeld e) → LedgerInv pf log := by
    refine h.invariant (fun pf log => (∀ e ∈ log, FundedHeld e) → LedgerInv pf log) ?_ ?_
    · intro _
      refine ⟨AccountInv.new cash, fun i hne => absurd rfl hne, ?_, fun ct hct => by cases hct⟩
      simp [Portfolio.new]
    · intro pf log c a pf' ih hstep hall
      have hbefore := ih fun e he => hall e (List.mem_append_left _ he)
      exact ledgerInv_step hbefore hstep
        (hall _ (List.mem_append_right _ (List.mem_singleton_self _)))
  refine ⟨(hinv hfund).balance, (hinv hfund).settled, fun e he => ?_⟩
  obtain ⟨pre, post, hlog⟩ := List.append_of_mem he
  exact splitsFee_step (h.before_entry hlog).2

/-- The sample run flips a long: its ledger adds up. -/
theorem trade_ledger_sample :
    let pf := (exec Portfolio.call (Portfolio.new ⟨1000, by norm_num⟩) sampleCalls).1
    (pf.closedTrades.map ClosedTrade.pnl).sum + (pf.positions.sum fun _ p => p.net) =
      pf.realizedPnl - pf.feesPaid - pf.fundingPaid := by
  refine (trade_ledger ⟨1000, by norm_num⟩ (Run.exec Portfolio.call _ sampleCalls) ?_).1
  intro e he ch hch
  -- the only funding of the run finds two lots held
  have hall : ((exec Portfolio.call (Portfolio.new ⟨1000, by norm_num⟩) sampleCalls).2.all
      fun e => match e.call with
        | .funding ch => decide (e.before.positionQty ch.instrument ≠ 0)
        | _ => true) = true := by
    decide +kernel
  have hone := List.all_eq_true.mp hall e he
  rw [hch] at hone
  exact of_decide_eq_true hone

end FuzzHelm
