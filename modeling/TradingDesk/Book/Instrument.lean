-- SUMMARY: One instrument of the book: its market data, my holdings and my orders.
import TradingDesk.Book.Order
import TradingDesk.Market.Detail
import TradingDesk.Notice

/-!
# Instruments

An `Instrument` is all that the book knows about one code. A fill or a cancel
changes an instrument by itself and says what it means for the account, so that
nothing an instrument does can reach another one.
-/

namespace TradingDesk

/-- The opposite best prices whose quantity has been handed to my orders already. -/
structure Marks where
  /-- The best ask, for my buys. -/
  buy : Level
  /-- The best bid, for my sells. -/
  sell : Level
  deriving DecidableEq, Repr

def Marks.blank : Marks := ⟨⟨0, 0⟩, ⟨0, 0⟩⟩

structure Instrument where
  code : String
  kind : Kind
  /-- The average price of the session's trades. -/
  avgPrice : Int
  /-- The volume of the session. -/
  traded : Int
  ladder : Ladder
  /-- Holdings that no sell order offers. -/
  idle : Int
  orders : List Order
  detail : Detail
  marks : Marks
  deriving DecidableEq, Repr

/-- What one fill means for the account. -/
structure Fill where
  /-- The order as it was before the fill. -/
  order : Order
  price : Int
  qty : Int
  fee : Int
  /-- The cash that the fill freed from escrow. -/
  release : Int
  deficits : List Deficit
  deriving DecidableEq, Repr

/-- What one cancel means for the account. -/
structure Withdrawal where
  qty : Int
  release : Int
  deficits : List Deficit
  deriving DecidableEq, Repr

namespace Instrument

/-- An instrument as it is before the first market data. Holdings below zero count as none. -/
def ofHoldings (code : String) (kind : Kind) (holdings : Int) : Instrument where
  code := code
  kind := kind
  avgPrice := 0
  traded := 0
  ladder := Ladder.empty
  idle := max holdings 0
  orders := []
  detail := kind.blankDetail
  marks := Marks.blank

def liveOrders (i : Instrument) : List Order := i.orders.filter Order.isLive

def quote (i : Instrument) (avgPrice traded : Int) (raw : Ladder) : Instrument :=
  { i with avgPrice, traded, ladder := raw.regrid i.kind }

/-- The instrument without its exhausted orders. -/
def sweep (i : Instrument) : Instrument := { i with orders := i.liveOrders }

/-- The instrument's own amounts that are below zero. -/
def deficits (i : Instrument) : List Deficit :=
  (if i.idle < 0 then [.holdings i.idle i.code] else [])
    ++ (i.orders.filter fun o => decide (o.qty < 0 ∨ o.escrow < 0)).map fun o =>
      .order o.key i.code o.qty o.escrow

/-- A new order. A sell takes what it offers out of the idle holdings; the cash of a
buy is the book's concern. -/
def place (i : Instrument) (id : Nat) (side : Side) (price qty : Int) : Instrument :=
  let order : Order :=
    { price, id, side, qty
      origin := i.ladder.originSlot side price
      escrow := match side with
        | .buy => i.kind.cost price qty
        | .sell => 0 }
  { i with
    idle := match side with
      | .buy => i.idle
      | .sell => i.idle - qty
    orders := Orders.insert order i.orders }

/-- A fill of an order of the instrument, of no more than is open. -/
def fill (i : Instrument) (o : Order) (price qty : Int) : Option (Instrument × Fill) :=
  let qty := min qty o.qty
  if qty ≤ 0 then none
  else
    let after := { i with
      idle := match o.side with
        | .buy => i.idle + qty
        | .sell => i.idle
      orders := Orders.update o.key (·.shrink i.kind qty) i.orders }
    let fill : Fill :=
      { order := o, price, qty
        fee := i.kind.fee o.side (price * qty)
        release := match o.side with
          | .buy => o.release i.kind qty
          | .sell => 0
        deficits := after.deficits }
    some (after, fill)

/-- A cancel of an order of the instrument, of no more than is open. -/
def withdraw (i : Instrument) (o : Order) (qty : Int) : Option (Instrument × Withdrawal) :=
  let qty := min qty o.qty
  if qty ≤ 0 then none
  else
    let after := { i with
      idle := match o.side with
        | .buy => i.idle
        | .sell => i.idle + qty
      orders := Orders.update o.key (·.shrink i.kind qty) i.orders }
    let withdrawal : Withdrawal :=
      { qty
        release := match o.side with
          | .buy => o.release i.kind qty
          | .sell => 0
        deficits := after.deficits }
    some (after, withdrawal)

end Instrument

namespace Fill

def notional (f : Fill) : Int := f.price * f.qty

/-- What the fill adds to the balance. -/
def cash (f : Fill) : Int :=
  match f.order.side with
  | .buy => f.release - (f.notional + f.fee)
  | .sell => f.notional - f.fee

end Fill

end TradingDesk
