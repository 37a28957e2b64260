-- SUMMARY: The handle of a resting order and the order of handles.

namespace TradingDesk

/-- An order's price and its number in the order of placement. Sorted by price and
then by number, the orders of one price stand together, oldest first. -/
structure Key where
  price : Int
  id : Nat
  deriving DecidableEq, Repr

namespace Key

def before (a b : Key) : Bool :=
  decide (a.price < b.price) || (a.price == b.price && decide (a.id < b.id))

instance : ToString Key where
  toString k := s!"#{k.id}@{k.price}"

end Key

end TradingDesk
