-- SUMMARY: Steps on the price grid, ladders and affordable quantities with words of 64 bits.
import TradingDesk.Book.Instrument
import TradingDesk.Word64.Basic

/-!
# Market arithmetic with words

The functions of the price grid, of ladders and of fees once more, with a word for every
result of an addition, a subtraction or a product. Remainders, minima and maxima are words
already, and fees are worked out in decimals, which are exact for every word.
-/

namespace TradingDesk

/-- `n` prices in a row, each a step from the one before. A step is taken after the last one
too. -/
def priceRow (step : Int → Option Int) : Nat → Int → Option (List Int)
  | 0, _ => some []
  | n + 1, price => do
    let next ← step price
    let rest ← priceRow step n next
    some (price :: rest)

namespace Overflow

variable (o : Overflow)

/-! ## Steps -/

def alignDown (kind : Kind) (price : Int) : Option Int :=
  if price ≤ 0 then some 0 else o.word (price - price % kind.tickSize price)

def tickUp (kind : Kind) (price : Int) : Option Int := do
  let aligned ← o.alignDown kind price
  if aligned < price then o.word (aligned + kind.tickSize aligned)
  else o.word (price + kind.tickSize price)

def tickDown (kind : Kind) (price : Int) : Option Int :=
  if price ≤ 0 then some 0
  else do
    let aligned ← o.alignDown kind price
    if aligned < price then some aligned
    else
      let below ← o.word (price - 1)
      let next ← o.word (price - kind.tickSize below)
      some (max next 0)

/-- `n` steps up the grid. -/
def climb (kind : Kind) : Nat → Int → Option Int
  | 0, price => some price
  | n + 1, price => do
    let next ← o.tickUp kind price
    climb kind n next

/-- `n` steps down the grid. -/
def descend (kind : Kind) : Nat → Int → Option Int
  | 0, price => some price
  | n + 1, price => do
    let next ← o.tickDown kind price
    descend kind n next

/-! ## Ladders -/

def around (l : Ladder) (kind : Kind) (bid ask : Int) : Option Ladder := do
  let asks ← priceRow (o.tickUp kind) 10 ask
  let bids ← priceRow (o.tickDown kind) 10 bid
  some (l.layOut fun i => (asks.reverse ++ bids).getD i.val 0)

def requantize (l : Ladder) (kind : Kind) (bid ask : Int) : Option Ladder :=
  if bid ≤ 0 ∧ ask ≤ 0 then some l
  else if bid ≤ 0 then do
    let below ← o.tickDown kind ask
    o.around l kind below ask
  else if ask ≤ bid then do
    let above ← o.tickUp kind bid
    o.around l kind bid above
  else o.around l kind bid ask

/-- The market data of an instrument after a quote. -/
def quote (i : Instrument) (avgPrice traded : Int) (raw : Ladder) : Option Instrument := do
  let ladder ← o.requantize raw i.kind raw.bestBid.price raw.bestAsk.price
  some { i with avgPrice, traded, ladder }

/-! ## Affordable quantities -/

def cost (kind : Kind) (price qty : Int) : Option Int := do
  let notional ← o.word (price * qty)
  o.word (notional + kind.buyFee notional)

/-- As long as there is something to give up, a lot less is less. -/
theorem lt_of_word {qty next : Int} {kind : Kind} (pos : 0 < qty)
    (less : o.word (qty - kind.lot) = some next) : next < qty := by
  have lot : 0 < kind.lot ∧ kind.lot ≤ 10 := by cases kind <;> decide
  cases o with
  | wraps =>
    simp only [word, Option.some.injEq, Int.bmod_def] at less
    split at less <;> omega
  | stops =>
    simp only [word] at less
    split at less
    · cases less
      omega
    · cases less

def shrinkToCash (kind : Kind) (price cash qty : Int) : Option Int :=
  if 0 < qty then
    match o.cost kind price qty with
    | none => none
    | some cost =>
      if cash < cost then
        match _ : o.word (qty - kind.lot) with
        | none => none
        | some next => shrinkToCash kind price cash next
      else some qty
  else some qty
termination_by qty.toNat
decreasing_by
  rename_i pos less
  have := o.lt_of_word pos less
  omega

/-- The search upward, given up after a number of rounds. -/
def growToCash (kind : Kind) (price cash : Int) : Nat → Int → Option Int
  | 0, _ => none
  | rounds + 1, qty => do
    let more ← o.word (qty + kind.lot)
    let cost ← o.cost kind price more
    if cost ≤ cash then growToCash kind price cash rounds more else some qty

/-- There are no more words than rounds, so a search that is given up would never end. -/
def maxAffordable (kind : Kind) (price cash : Int) : Option Int :=
  if 0 < price ∧ 0 < cash then do
    let guess := kind.roundLot (cash * 100000 / (price * (100000 + commissionRate)))
    let paid ← o.shrinkToCash kind price cash guess
    let most ← o.growToCash kind price cash 18446744073709551616 paid
    some (max most 0)
  else some 0

end Overflow

end TradingDesk
