-- SUMMARY: The kinds of instruments, with their price grids and lots.

/-!
# Instrument kinds

A kind fixes which prices are valid and in which lots an instrument trades. The
valid prices of an equity are spaced by bands, each band's spacing a divisor of
the next one's; warrants and trackers have one spacing throughout.

Prices, like all amounts in this library, are integers without a bound. The desk keeps
them in words of 64 bits: `Word64.Basic` says what is assumed of these, and
`Word64.Market` has the steps of the grid with words.
-/

namespace TradingDesk

inductive Kind where
  /-- A listed company's share. -/
  | equity
  /-- A warrant on an equity. -/
  | warrant
  /-- An exchange-traded fund that tracks an index. -/
  | tracker
  deriving DecidableEq, Repr

namespace Kind

/-- The spacing of valid prices from `price` upward, within its band. -/
def tickSize : Kind → Int → Int
  | equity, price =>
    if price < 1000 then 1
    else if price < 5000 then 5
    else if price < 10000 then 10
    else if price < 50000 then 50
    else if price < 100000 then 100
    else if price < 500000 then 500
    else 1000
  | warrant, _ => 5
  | tracker, _ => 5

theorem tickSize_pos (kind : Kind) (price : Int) : 0 < kind.tickSize price := by
  cases kind <;> simp only [tickSize] <;> (repeat' split) <;> decide

def validPrice (kind : Kind) (price : Int) : Bool :=
  decide (0 < price) && price % kind.tickSize price == 0

/-- The largest valid price that is not above `price`, or zero. -/
def alignDown (kind : Kind) (price : Int) : Int :=
  if price ≤ 0 then 0 else price - price % kind.tickSize price

/-- The next valid price above `price`. -/
def tickUp (kind : Kind) (price : Int) : Int :=
  let aligned := kind.alignDown price
  if aligned < price then aligned + kind.tickSize aligned
  else price + kind.tickSize price

/-- The next valid price below `price`, or zero. A valid price steps down by the
spacing of the band just below it. -/
def tickDown (kind : Kind) (price : Int) : Int :=
  if price ≤ 0 then 0
  else
    let aligned := kind.alignDown price
    if aligned < price then aligned
    else max (price - kind.tickSize (price - 1)) 0

/-- `n` steps up the grid. -/
def climb (kind : Kind) : Nat → Int → Int
  | 0, price => price
  | n + 1, price => kind.climb n (kind.tickUp price)

/-- `n` steps down the grid. -/
def descend (kind : Kind) : Nat → Int → Int
  | 0, price => price
  | n + 1, price => kind.descend n (kind.tickDown price)

/-- The least tradable quantity; every order is a multiple of it. -/
def lot : Kind → Int
  | warrant => 10
  | equity => 1
  | tracker => 1

theorem lot_pos (kind : Kind) : 0 < kind.lot := by
  cases kind <;> decide

/-- A quantity rounded down to whole lots. -/
def roundLot (kind : Kind) (qty : Int) : Int :=
  if qty ≤ 0 then 0 else qty - qty % kind.lot

/-- The name of a kind in a configuration. -/
def name : Kind → String
  | equity => "equity"
  | warrant => "warrant"
  | tracker => "tracker"

def ofName? (s : String) : Option Kind :=
  [equity, warrant, tracker].find? fun kind => kind.name == s

end Kind

end TradingDesk
