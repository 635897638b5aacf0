import FuzzHelm.Core.Money
import FuzzHelm.Core.Clock

namespace FuzzHelm

/-!
# Canonical data objects

The objects that cross the boundaries of the core: the instrument, bars, order requests and
acknowledgements, fills.  A `Fill` carries the bounds that its schema validates, so an
invalid fill cannot be built; an `OrderRequest` does not, because the engine builds its
requests without validation.
-/

/-- The trading rules of one instrument. -/
structure Instrument where
  symbolCanon : String
  tickSize : PosDec
  stepSize : PosDec
  minNotional : NonNegDec
  mmr : Decimal
  maintAmount : Decimal
  maxLeverage : ℤ
  deriving DecidableEq

/-- A bar in decimals, as the broker sees it. -/
structure DecBar where
  instrument : String
  openTimeNs : ℤ
  o : Decimal
  h : Decimal
  l : Decimal
  c : Decimal
  volume : Decimal
  deriving DecidableEq, Repr

/-- `OrderRequest`: what the broker is asked for. -/
structure OrderRequest where
  clientOrderId : Uuid
  instrument : String
  side : Side
  otype : OrderType
  qty : Decimal
  stopPrice : Option Decimal
  reduceOnly : Bool
  decisionRef : Option String
  tsCreatedNs : ℤ
  deriving DecidableEq, Repr

/-- `OrderAck`: what the broker answers at once. -/
structure OrderAck where
  clientOrderId : Uuid
  venueOrderId : Option ℕ
  status : OrderStatus
  rejectCode : Option RejectCode
  tsNs : ℤ
  deriving DecidableEq, Repr

/-- An execution; the schema bounds are fields. -/
structure Fill where
  clientOrderId : Uuid
  venueOrderId : Option ℕ
  instrument : String
  side : Side
  qty : Decimal
  price : Decimal
  fee : Decimal
  liquidity : Liquidity
  slippageBps : Decimal
  tsFillNs : ℤ
  qty_pos : 0 < qty
  price_pos : 0 < price
  fee_nonneg : 0 ≤ fee
  ts_nonneg : 0 ≤ tsFillNs
  deriving DecidableEq

/-- The signed quantity that a fill adds to the position. -/
def Fill.dq (f : Fill) : Decimal := f.side.toInt * f.qty

/-- `Fill(...)`: the schema rejects a value outside its bounds. -/
def mkFill (clientOrderId : Uuid) (venueOrderId : Option ℕ) (instrument : String) (side : Side)
    (qty price fee : Decimal) (liquidity : Liquidity) (slippageBps : Decimal) (tsFillNs : ℤ) :
    Except PyError Fill :=
  if hq : 0 < qty then
    if hp : 0 < price then
      if hf : 0 ≤ fee then
        if ht : 0 ≤ tsFillNs then
          .ok ⟨clientOrderId, venueOrderId, instrument, side, qty, price, fee, liquidity,
            slippageBps, tsFillNs, hq, hp, hf, ht⟩
        else .error (.validationError "ts_fill_ns")
      else .error (.validationError "fee")
    else .error (.validationError "price")
  else .error (.validationError "qty")

/-- A fill that passes validation has the data it was given. -/
theorem mkFill_eq_ok {coid : Uuid} {vid : Option ℕ} {inst : String} {side : Side}
    {qty price fee : Decimal} {liq : Liquidity} {bps : Decimal} {ts : ℤ} {f : Fill}
    (h : mkFill coid vid inst side qty price fee liq bps ts = .ok f) :
    f.clientOrderId = coid ∧ f.instrument = inst ∧ f.side = side ∧ f.qty = qty ∧
      f.price = price ∧ f.fee = fee ∧ f.tsFillNs = ts := by
  unfold mkFill at h
  split at h
  · split at h
    · split at h
      · split at h
        · cases h
          exact ⟨rfl, rfl, rfl, rfl, rfl, rfl, rfl⟩
        · cases h
      · cases h
    · cases h
  · cases h

end FuzzHelm
