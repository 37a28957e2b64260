-- SUMMARY: Fees and taxes on trades, and the largest quantity that cash pays for.
import TradingDesk.Market.Kind
import TradingDesk.Market.Side

/-!
# Fees

Rates are whole numbers of hundred-thousandths, so each charge is one exact
division of the notional, rounded as the charge prescribes.

Notionals and costs are taken to fit 64 bits (`Word64.Basic`). The search for what cash
is enough for asks the cost of one lot more than that, which has to fit as well;
`Word64.Market` has the search with words.
-/

namespace TradingDesk

/-- Commission on both sides: 0.015 %. -/
def commissionRate : Int := 15

/-- Each of the two taxes on the sale of an equity: 0.15 %. -/
def taxRate : Int := 150

/-- A rate of a positive notional, a half rounded up. -/
def chargeRounded (rate notional : Int) : Int := (notional * rate + 50000) / 100000

/-- A rate of a positive notional, rounded down. -/
def chargeFloored (rate notional : Int) : Int := notional * rate / 100000

namespace Kind

/-- What a buy of this notional costs on top of it. -/
def buyFee (_ : Kind) (notional : Int) : Int :=
  if notional ≤ 0 then 0 else chargeRounded commissionRate notional

/-- What is kept back from a sale of this notional. An equity's transaction tax is
rounded down, its rural tax to nearest. -/
def sellFee (kind : Kind) (notional : Int) : Int :=
  if notional ≤ 0 then 0
  else
    let commission := chargeRounded commissionRate notional
    match kind with
    | equity => commission + chargeFloored taxRate notional + chargeRounded taxRate notional
    | warrant => commission
    | tracker => commission

def fee (kind : Kind) : Side → Int → Int
  | .buy => kind.buyFee
  | .sell => kind.sellFee

/-- The whole cost of a buy. -/
def cost (kind : Kind) (price qty : Int) : Int :=
  price * qty + kind.buyFee (price * qty)

theorem buyFee_nonneg (kind : Kind) (notional : Int) : 0 ≤ kind.buyFee notional := by
  unfold buyFee
  split
  · exact Int.le_refl 0
  · simp only [chargeRounded, commissionRate]
    omega

theorem le_cost (kind : Kind) (price qty : Int) : price * qty ≤ kind.cost price qty := by
  have := kind.buyFee_nonneg (price * qty)
  unfold cost
  omega

/-- Gives up lots until the rest is paid for. -/
def shrinkToCash (kind : Kind) (price cash qty : Int) : Int :=
  if 0 < qty ∧ cash < kind.cost price qty then kind.shrinkToCash price cash (qty - kind.lot)
  else qty
termination_by qty.toNat
decreasing_by
  have := kind.lot_pos
  omega

/-- Adds lots as long as they are paid for, which ends because the price is positive. -/
def growToCash (kind : Kind) (price cash : Int) (pos : 0 < price) (qty : Int) : Int :=
  if kind.cost price (qty + kind.lot) ≤ cash then kind.growToCash price cash pos (qty + kind.lot)
  else qty
termination_by (cash - price * qty).toNat
decreasing_by
  rename_i h
  have hcost := kind.le_cost price (qty + kind.lot)
  have hstep : 0 < price * kind.lot := Int.mul_pos pos kind.lot_pos
  have hdist : price * (qty + kind.lot) = price * qty + price * kind.lot := Int.mul_add ..
  omega

/-- The largest quantity in whole lots whose cost fits in `cash`. The quotient by
the unit price with commission is a first guess: the fee is rounded on the whole
notional, so the guess may be too large or too small. -/
def maxAffordable (kind : Kind) (price cash : Int) : Int :=
  if h : 0 < price ∧ 0 < cash then
    let guess := kind.roundLot (cash * 100000 / (price * (100000 + commissionRate)))
    max (kind.growToCash price cash h.1 (kind.shrinkToCash price cash guess)) 0
  else 0

end Kind

end TradingDesk
