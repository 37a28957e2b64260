-- SUMMARY: Which of my orders one tick of market data fills.
import TradingDesk.Simulation.Flow

/-!
# Matching

One tick of an instrument is matched in five steps: the newest quote is taken over;
queue positions are capped by the new ladder; quantity that is new at an unchanged
opposite best goes to my orders there, the shortest queue first; each trade print
reaches my orders at its price and one tick inside it; and orders that the market
has moved through fill at the new best price. Without a market on both sides
nothing fills.
-/

namespace TradingDesk

/-- The market data of one depth record. -/
structure Depth where
  avgPrice : Int
  traded : Int
  ladder : Ladder
  deriving DecidableEq, Repr

/-- A sort key that puts the most aggressive price of a side first. -/
def Side.priority : Side → Int → Int
  | .buy, price => -price
  | .sell, price => price

/-- The side that initiated a trade, judged by the market it traded into. -/
def Ladder.aggressor (l : Ladder) (price : Int) : Option Side :=
  if 0 < l.bestBid.price ∧ price ≤ l.bestBid.price then some .sell
  else if 0 < l.bestAsk.price ∧ l.bestAsk.price ≤ price then some .buy
  else none

namespace Marks

def get (m : Marks) : Side → Level
  | .buy => m.buy
  | .sell => m.sell

def set (m : Marks) (side : Side) (level : Level) : Marks :=
  match side with
  | .buy => { m with buy := level }
  | .sell => { m with sell := level }

end Marks

/-- What is new at `top` since `mark`; at another price nothing counts as new. -/
def freshQty (mark top : Level) : Int :=
  if 0 < top.price ∧ mark.price = top.price then max (top.qty - mark.qty) 0 else 0

/-- The order in which my orders at the top are served: by price, then by what is
before them in the queue, then by age. -/
def servedBefore (side : Side) (a b : Order) : Bool :=
  let pa := side.priority a.price
  let pb := side.priority b.price
  let qa := a.aheadOthers + a.aheadMine
  let qb := b.aheadOthers + b.aheadMine
  decide (pa < pb ∨ (pa = pb ∧ (qa < qb ∨ (qa = qb ∧ a.id ≤ b.id))))

/-- The order in which a print reaches my orders: by price, then by age. -/
def reachedBefore (side : Side) (a b : Order) : Bool :=
  let pa := side.priority a.price
  let pb := side.priority b.price
  decide (pa < pb ∨ (pa = pb ∧ a.id ≤ b.id))

namespace Instrument

/-- Hands the quantity that is new at the opposite best to my orders of `side`
that are at the top. -/
def deplete (i : Instrument) (side : Side) (top : Level) : Matched :=
  let fresh := freshQty (i.marks.get side) top
  let i := { i with marks := i.marks.set side top }
  if fresh = 0 then .start i
  else
    let atTop := i.liveOrders.filter fun o => o.side == side && i.ladder.isTop side o.price
    let queue := atTop.mergeSort (servedBefore side)
    i.flowThrough (queue.map Order.key) fresh (some top.price)

/-- Whether a print reaches an order: it does at its own price and one tick inside
it, unless it was initiated from the order's side and the order is not at the top. -/
def printReaches (i : Instrument) (print : Level) (initiator : Option Side) (o : Order) : Bool :=
  let near := match o.side with
    | .buy => decide (print.price ≤ o.price ∧ o.price ≤ i.kind.tickUp print.price)
    | .sell => decide (o.price ≤ print.price ∧ i.kind.tickDown print.price ≤ o.price)
  near && (initiator != some o.side || i.ladder.isTop o.side o.price)

/-- The keys of my orders of `side` that a print reaches, in turn. -/
def printQueue (i : Instrument) (print : Level) (initiator : Option Side) (side : Side) : List Key :=
  let reached := i.liveOrders.filter fun o => o.side == side && i.printReaches print initiator o
  (reached.mergeSort (reachedBefore side)).map Order.key

/-- One trade of the market. -/
def tradeFill (i : Instrument) (print : Level) (initiator : Option Side) : Matched :=
  let buys := i.printQueue print initiator .buy
  let sells := i.printQueue print initiator .sell
  (i.flowThrough buys print.qty none).andThen fun i => i.flowThrough sells print.qty none

def tradeFills (marketBefore : Ladder) (i : Instrument) : List Level → Matched
  | [] => .start i
  | print :: prints =>
    (i.tradeFill print (marketBefore.aggressor print.price)).andThen fun i =>
      i.tradeFills marketBefore prints

/-- Fills all that is open of an order, at `price`. -/
def fillWhole (i : Instrument) (key : Key) (price : Int) : Matched :=
  match Orders.find? key i.orders with
  | none => .start i
  | some o =>
    match i.fill o price o.qty with
    | none => .start i
    | some (i, f) => ⟨i, [f]⟩

/-- The best price that the market has moved to through an order, if it has. -/
def passedBy (i : Instrument) (o : Order) : Option Int :=
  let ask := i.ladder.bestAsk.price
  let bid := i.ladder.bestBid.price
  match o.side with
  | .buy => if 0 < ask ∧ ask < o.price then some ask else none
  | .sell => if 0 < bid ∧ o.price < bid then some bid else none

def fillAll (i : Instrument) : List (Key × Int) → Matched
  | [] => .start i
  | (key, price) :: rest => (i.fillWhole key price).andThen fun i => i.fillAll rest

/-- Fills the orders that the market has moved through. -/
def correctGap (i : Instrument) : Matched :=
  i.fillAll (i.liveOrders.filterMap fun o => (i.passedBy o).map fun price => (o.key, price))

def takeOver (i : Instrument) : Option Depth → Instrument
  | none => i
  | some d => i.quote d.avgPrice d.traded d.ladder

/-- One tick of market data. Prints are judged by the market before the quote. -/
def matchTick (i : Instrument) (depth : Option Depth) (prints : List Level) : Matched :=
  let before := i.ladder
  let i := i.takeOver depth
  if !i.ladder.isQuoted then .start i
  else
    let market := if before.isQuoted then before else i.ladder
    let ask := i.ladder.bestAsk
    let bid := i.ladder.bestBid
    ((((Matched.start i.refreshQueue).andThen (·.deplete .buy ask)).andThen
      (·.deplete .sell bid)).andThen (·.tradeFills market prints)).andThen (·.correctGap)

end Instrument

end TradingDesk
