-- SUMMARY: Where my orders stand in the queues of the market.
import TradingDesk.Book.Instrument

/-!
# Queue positions

An order of mine waits behind what others show at its price, `aheadOthers`, and
behind my own earlier orders there, `aheadMine`. Market flow first eats through
the queue, and only what is left of it reaches the order. An order that is at or
through the opposite best has no others before it.
-/

namespace TradingDesk

/-- Whether an order of `side` at `price` is at or through the opposite best. -/
def Ladder.isTop (l : Ladder) (side : Side) (price : Int) : Bool :=
  match side with
  | .buy => decide (0 < l.bestAsk.price ∧ l.bestAsk.price ≤ price)
  | .sell => decide (0 < l.bestBid.price ∧ price ≤ l.bestBid.price)

namespace Instrument

/-- What others have before an order that joins the queue now. -/
def queueOfOthers (i : Instrument) (side : Side) (price : Int) : Int :=
  if i.ladder.isTop side price then 0 else i.ladder.qtyAt price

/-- What my orders placed before `key` at its price still have open. -/
def queueOfMine (i : Instrument) (side : Side) (key : Key) : Int :=
  sumOf (·.qty)
    (i.orders.filter fun o => o.price == key.price && decide (o.id < key.id) && o.side == side)

/-- Gives a new order its place in the queue. -/
def stamp (i : Instrument) (side : Side) (key : Key) : Instrument :=
  let aheadOthers := i.queueOfOthers side key.price
  let aheadMine := i.queueOfMine side key
  { i with orders := Orders.update key (fun o => { o with aheadOthers, aheadMine }) i.orders }

/-- Takes a cancel of `qty` out of the queue before my later orders at the same price. -/
def closeRanks (i : Instrument) (side : Side) (key : Key) (qty : Int) : Instrument :=
  let behind (o : Order) : Bool :=
    o.price == key.price && decide (key.id < o.id) && o.side == side
  { i with orders := i.orders.map fun o =>
      if behind o then { o with aheadMine := max (o.aheadMine - qty) 0 } else o }

/-- What an order may wait for behind others under the instrument's ladder: no more
than is shown at its price, and nothing at the top. -/
def cappedOthers (i : Instrument) (o : Order) : Int :=
  if i.ladder.isTop o.side o.price then 0 else min o.aheadOthers (i.ladder.qtyAt o.price)

/-- Others may have left the queue: positions are capped by what the ladder shows now. -/
def refreshQueue (i : Instrument) : Instrument :=
  { i with orders := i.orders.map fun o =>
      if o.isLive then { o with aheadOthers := i.cappedOthers o } else o }

end Instrument

/-- How a quantity of market flow divides between the queue before an order and the
order itself. -/
structure Intake where
  others : Int
  mine : Int
  filled : Int
  deriving DecidableEq, Repr

namespace Order

def intake (o : Order) (flow : Int) : Intake :=
  let flow := max flow 0
  let others := min flow (max o.aheadOthers 0)
  let mine := min (flow - others) (max o.aheadMine 0)
  ⟨others, mine, min (flow - others - mine) (max o.qty 0)⟩

/-- The order with the queue before it shortened. -/
def advanceQueue (o : Order) (taken : Intake) : Order :=
  { o with aheadOthers := o.aheadOthers - taken.others, aheadMine := o.aheadMine - taken.mine }

end Order

def Intake.used (t : Intake) : Int := t.others + t.mine + t.filled

end TradingDesk
