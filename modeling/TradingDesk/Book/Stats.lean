-- SUMMARY: Running totals of all fills, and of the fills by origin.
import TradingDesk.Book.Instrument

/-!
# Statistics

A fill counts into the totals and, when its order has an origin, into the slot of
the ladder position at which the order was placed.
-/

namespace TradingDesk

structure SlotStats where
  /-- Cash that flowed in, after fees: negative for buys. -/
  cash : Int
  /-- Quantity that flowed in: negative for sells. -/
  qty : Int
  fills : Int
  deriving DecidableEq, Repr, Inhabited

structure Stats where
  bought : Int
  sold : Int
  fees : Int
  slots : Vector SlotStats 22
  deriving DecidableEq, Repr

def SlotStats.record (s : SlotStats) (f : Fill) : SlotStats where
  cash := match f.order.side with
    | .buy => s.cash - (f.notional + f.fee)
    | .sell => s.cash + (f.notional - f.fee)
  qty := s.qty + f.order.side.sign * f.qty
  fills := s.fills + 1

namespace Stats

def blank : Stats := ⟨0, 0, 0, Vector.replicate 22 ⟨0, 0, 0⟩⟩

def record (s : Stats) (f : Fill) : Stats where
  bought := match f.order.side with
    | .buy => s.bought + f.notional
    | .sell => s.bought
  sold := match f.order.side with
    | .buy => s.sold
    | .sell => s.sold + f.notional
  fees := s.fees + f.fee
  slots := match f.order.origin with
    | some slot => s.slots.set slot (s.slots[slot].record f)
    | none => s.slots

end Stats

end TradingDesk
