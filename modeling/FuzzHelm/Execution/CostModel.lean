import FuzzHelm.Core.Dto

namespace FuzzHelm

open Lib

/-!
# The cost model of an execution

Spread, square-root impact, seeded noise, fees and funding, in the three modes of
degradation.  The square root of decimals and the stream of normal values are parameters:
nothing here depends on their values.

* `CostModel.quote` — the price of one execution; a reference price that is not positive or
  a flat side raises;
* `CostModel.fundingTimes` — the moments of funding in a half-open interval.
-/

/-- The nanoseconds of an hour. -/
def nsPerHour : ℤ := 3600000000000

/-- `CostMode`: nothing, the impact alone, or all of it. -/
inductive CostMode where
  | zero
  | sqrtImpact
  | full
  deriving DecidableEq, Repr

/-- The configuration and the random stream of one cost model; `normal n` is the `n`-th
    value drawn, `drawn` the number of values consumed so far. -/
structure CostModel where
  mode : CostMode
  kS : NonNegDec
  taker : NonNegDec
  maker : NonNegDec
  noiseBps : NonNegDec
  spreadTicks : ℕ
  fundingHoursUtc : List ℕ
  fundingHoursUtc_ne : fundingHoursUtc ≠ []
  fundingHoursUtc_sorted : fundingHoursUtc.Pairwise (· < ·)
  fundingHoursUtc_lt : ∀ h ∈ fundingHoursUtc, h ≤ 23
  sqrt : Decimal → Decimal
  normal : ℕ → Decimal
  drawn : ℕ

/-- `FillQuote`: the price and the fee of a fill, with the parts of the price. -/
structure FillQuote where
  price : Decimal
  rawPrice : Decimal
  halfSpread : Decimal
  impact : Decimal
  noise : Decimal
  slippageBps : Decimal
  deriving DecidableEq, Repr

/-- A funding payment: `amount` is what the account pays. -/
structure FundingCharge where
  instrument : String
  tsNs : ℤ
  positionQty : Decimal
  markPrice : Decimal
  rate : Decimal
  amount : Decimal
  deriving DecidableEq, Repr

namespace CostModel

variable (m : CostModel)

/-- `charges_fees`: in the full mode alone. -/
def chargesFees : Bool := decide (m.mode = .full)

/-- `charges_funding`: in the full mode alone. -/
def chargesFunding : Bool := decide (m.mode = .full)

/-- `has_price_impact`: in every mode but the free one. -/
def hasPriceImpact : Bool := decide (m.mode ≠ .zero)

/-- The scale of the noise as a share. -/
def noiseScale : Decimal := m.noiseBps * (1 / 10000)

/-- `impact`: without a history of volumes the participation counts as one. -/
def impact (pRef qty sigma vBar : Decimal) : Decimal :=
  if ¬ m.hasPriceImpact ∨ qty ≤ 0 ∨ sigma ≤ 0 then 0
  else
    let participation := if 0 < vBar then qty / vBar else 1
    m.kS * sigma * pRef * m.sqrt participation

/-- `_slippage_bps`: how far the price is worse than the reference, in hundredths of a percent. -/
def slippageBps (side : Side) (price pRef : Decimal) : Decimal :=
  quantize .halfEven (side.toInt * (price - pRef) / pRef * 10000) (1 / 10000)

/-- `quote`: in the modes with impact and noise every call draws one value. -/
def quote (side : Side) (pRef qty sigma vBar : Decimal) (tick : PosDec) :
    Except PyError (FillQuote × CostModel) :=
  if side = .flat then .error (.valueError "fill side must be LONG or SHORT")
  else if pRef ≤ 0 then .error (.valueError "reference price must be > 0")
  else if ¬ m.hasPriceImpact then
    let price := quantizePrice pRef tick
    .ok (⟨price, pRef, 0, 0, 0, slippageBps side price pRef⟩, m)
  else
    let halfSpread := tick.1 * m.spreadTicks / 2
    let imp := m.impact pRef qty sigma vBar
    let draws := decide (0 < m.noiseScale)
    let noise := if draws then pRef * m.noiseScale * m.normal m.drawn else 0
    let raw := pRef + side.toInt * (halfSpread + imp) + noise
    let price := max (quantizePrice raw tick) tick
    .ok (⟨price, raw, halfSpread, imp, noise, slippageBps side price pRef⟩,
      { m with drawn := if draws then m.drawn + 1 else m.drawn })

/-- The rate of the fee, by who makes the market. -/
def feeRate (liquidity : Liquidity) : Decimal :=
  if liquidity = .taker then m.taker else m.maker

/-- `fee`: nothing where no fees are charged. -/
def fee (notional : Decimal) (liquidity : Liquidity) : Decimal :=
  if m.chargesFees then |notional| * m.feeRate liquidity else 0

/-- What the account pays: a long pays a positive rate. -/
def fundingPayment (positionQty markPrice rate : Decimal) : Decimal :=
  if m.chargesFunding then positionQty * markPrice * rate else 0

/-! ### The schedule of funding -/

/-- The moments of a day, as offsets from its start. -/
def fundingOffsetsNs : List ℤ := m.fundingHoursUtc.map (fun h => h * nsPerHour)

/-- The next moment of funding strictly after `tNs`. -/
def nextFundingTime (tNs : ℤ) : ℤ :=
  let day := tNs - tNs % nsPerDay
  match m.fundingOffsetsNs.find? (fun off => decide (tNs < day + off)) with
  | some off => day + off
  | none => day + nsPerDay + m.fundingOffsetsNs.headD 0

/-- The moments of funding in `(tFromNs, tToNs]`, in increasing order. -/
def fundingTimes (tFromNs tToNs : ℤ) : List ℤ :=
  if tToNs ≤ tFromNs then []
  else
    let day := tFromNs - tFromNs % nsPerDay
    let days := List.range ((tToNs - day) / nsPerDay + 1).toNat
    days.flatMap fun n =>
      (m.fundingOffsetsNs.map fun off => day + n * nsPerDay + off).filter fun t =>
        decide (tFromNs < t ∧ t ≤ tToNs)

/-- A quote is only given for a side and a positive reference price. -/
theorem quote_eq_ok {side : Side} {pRef qty sigma vBar : Decimal} {tick : PosDec}
    {q : FillQuote} {m' : CostModel} (h : m.quote side pRef qty sigma vBar tick = .ok (q, m')) :
    side ≠ .flat ∧ 0 < pRef := by
  unfold quote at h
  split at h
  · cases h
  · rename_i hside
    split at h
    · cases h
    · rename_i hp
      exact ⟨hside, not_le.mp hp⟩

/-- Any side is quoted a positive price for a reference price of at least one tick. -/
theorem quote_ok {side : Side} {pRef : Decimal} (qty sigma vBar : Decimal) {tick : PosDec}
    (hside : side ≠ .flat) (hp : tick.1 ≤ pRef) :
    ∃ q m', m.quote side pRef qty sigma vBar tick = .ok (q, m') ∧ 0 < q.price := by
  have hpos : ¬pRef ≤ 0 := not_le.mpr (lt_of_lt_of_le tick.2 hp)
  unfold quote
  rw [if_neg hside, if_neg hpos]
  split
  · exact ⟨_, _, rfl, lt_of_lt_of_le tick.2 (le_quantize_halfEven tick.2 hp)⟩
  · exact ⟨_, _, rfl, lt_of_lt_of_le tick.2 (le_max_right _ _)⟩

/-- A fee is not negative. -/
theorem fee_nonneg (notional : Decimal) (liquidity : Liquidity) : 0 ≤ m.fee notional liquidity := by
  unfold fee feeRate
  split
  · refine mul_nonneg (abs_nonneg _) ?_
    split
    · exact m.taker.2
    · exact m.maker.2
  · exact le_rfl

end CostModel

end FuzzHelm
