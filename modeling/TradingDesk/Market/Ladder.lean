-- SUMMARY: The visible price levels of an instrument.
import TradingDesk.Market.Kind
import TradingDesk.Market.Side

/-!
# Ladders

A ladder shows the best ten asks and the best ten bids of an instrument. Its
prices fall with the index: the best ask stands at index 9 and the best bid right
below it at index 10. A price of zero marks a level that is not there.

The asks of a requantized ladder go up as far as nine steps lead. That this stays
within 64 bits is assumed here (`Word64.Basic`); `Word64.Market` lays ladders out
with words.
-/

namespace TradingDesk

/-- A price and the quantity that rests, or trades, at it. -/
structure Level where
  price : Int
  qty : Int
  deriving DecidableEq, Repr, Inhabited

structure Ladder where
  levels : Vector Level 20
  deriving DecidableEq, Repr

namespace Ladder

def empty : Ladder := ⟨Vector.replicate 20 ⟨0, 0⟩⟩

instance : Inhabited Ladder := ⟨empty⟩

def bestAsk (l : Ladder) : Level := l.levels[9]

def bestBid (l : Ladder) : Level := l.levels[10]

/-- The price that an order of `side` trades against. -/
def opposite (l : Ladder) : Side → Int
  | .buy => l.bestAsk.price
  | .sell => l.bestBid.price

/-- The first level at a positive `price`. -/
def indexOf? (l : Ladder) (price : Int) : Option (Fin 20) :=
  if price ≤ 0 then none else l.levels.findFinIdx? (·.price == price)

/-- The quantity shown at `price`. -/
def qtyAt (l : Ladder) (price : Int) : Int :=
  match l.indexOf? price with
  | some i => l.levels[i].qty
  | none => 0

/-- Whether there is a market on both sides. -/
def isQuoted (l : Ladder) : Bool :=
  decide (0 < l.bestBid.price) && decide (0 < l.bestAsk.price)

/-- The ladder with given prices and the quantities that `l` shows at them. -/
def layOut (l : Ladder) (prices : Fin 20 → Int) : Ladder where
  levels := Vector.ofFn fun i => ⟨prices i, l.qtyAt (prices i)⟩

/-- The ladder without gaps around a best bid and a best ask, with the quantities
that `l` shows at the same prices. -/
def around (l : Ladder) (kind : Kind) (bid ask : Int) : Ladder :=
  l.layOut fun i =>
    if i.val < 10 then kind.climb (9 - i.val) ask else kind.descend (i.val - 10) bid

/-- Exchange data skips empty levels; this fills them in around the known best
prices. A missing side is taken one tick off the other, and so is the ask when the
best prices cross. -/
def requantize (l : Ladder) (kind : Kind) (bid ask : Int) : Ladder :=
  if bid ≤ 0 ∧ ask ≤ 0 then l
  else if bid ≤ 0 then l.around kind (kind.tickDown ask) ask
  else if ask ≤ bid then l.around kind bid (kind.tickUp bid)
  else l.around kind bid ask

/-- The requantized ladder around `l`'s own best prices. -/
def regrid (l : Ladder) (kind : Kind) : Ladder :=
  l.requantize kind l.bestBid.price l.bestAsk.price

end Ladder

/-- The statistics keep one slot for every ladder index and two for orders that
improve on the best price. -/
abbrev Slot : Type := Fin 22

namespace Slot

/-- A buy placed inside the spread. -/
def improvedBid : Slot := 20

/-- A sell placed inside the spread. -/
def improvedAsk : Slot := 21

end Slot

/-- Where an order at `price` stands in the ladder when it is placed. An order
beyond the visible depth counts for the outermost level of its side. -/
def Ladder.originSlot (l : Ladder) (side : Side) (price : Int) : Option Slot :=
  match l.indexOf? price with
  | some i => some (i.castLE (by decide))
  | none =>
    let bid := l.bestBid.price
    let ask := l.bestAsk.price
    if bid ≤ 0 ∨ ask ≤ 0 then none
    else
      let inside := bid < price ∧ price < ask
      match side with
      | .buy =>
        if inside then some Slot.improvedBid
        else if price < l.levels[19].price then some 19
        else none
      | .sell =>
        if inside then some Slot.improvedAsk
        else if l.levels[0].price < price then some 0
        else none

end TradingDesk
