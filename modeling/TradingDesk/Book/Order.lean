-- SUMMARY: A resting order, and sorted lists of orders.
import TradingDesk.Book.Key
import TradingDesk.Market.Fee
import TradingDesk.Market.Ladder

/-!
# Orders

A buy keeps the cash for its whole cost in escrow until it is filled or canceled.
The orders of an instrument are a list sorted by key. An order whose quantity has
reached zero stays in the list until the next sweep.
-/

namespace TradingDesk

/-- What the members of a list count for together. -/
def sumOf (f : α → Int) (as : List α) : Int := as.foldr (fun a n => f a + n) 0

structure Order where
  price : Int
  id : Nat
  side : Side
  /-- What is still open. -/
  qty : Int
  /-- Where the order stood in the ladder when it was placed. -/
  origin : Option Slot
  /-- The cash that a buy still holds back. -/
  escrow : Int
  /-- What others have in the queue before the order; only a simulation counts it. -/
  aheadOthers : Int := 0
  /-- What my earlier orders at the same price have in the queue before it. -/
  aheadMine : Int := 0
  deriving DecidableEq, Repr

namespace Order

def key (o : Order) : Key := ⟨o.price, o.id⟩

def isLive (o : Order) : Bool := decide (0 < o.qty)

/-- The cash that leaves escrow together with `qty`. What leaves last takes all
that is left, so the rounding of partial fees strands nothing. -/
def release (kind : Kind) (o : Order) (qty : Int) : Int :=
  if o.qty ≤ qty then o.escrow else min (kind.cost o.price qty) o.escrow

/-- The order after `qty` has left it. Sells hold nothing in escrow. -/
def shrink (kind : Kind) (o : Order) (qty : Int) : Order :=
  match o.side with
  | .buy => { o with qty := o.qty - qty, escrow := o.escrow - o.release kind qty }
  | .sell => { o with qty := o.qty - qty }

end Order

namespace Orders

/-- The list with one more order in its place; an order of the same key makes way. -/
def insert (o : Order) : List Order → List Order
  | [] => [o]
  | p :: ps =>
    if o.key.before p.key then o :: p :: ps
    else if o.key == p.key then o :: ps
    else p :: insert o ps

def find? (key : Key) (os : List Order) : Option Order :=
  os.find? fun o => o.key == key

def update (key : Key) (f : Order → Order) (os : List Order) : List Order :=
  os.map fun o => if o.key == key then f o else o

/-- The live orders of a side at a price, newest first. -/
def level (side : Side) (price : Int) (os : List Order) : List Order :=
  (os.filter fun o => o.price == price && o.side == side && o.isLive).reverse

end Orders

end TradingDesk
