-- SUMMARY: The two sides of the market.

namespace TradingDesk

inductive Side where
  | buy
  | sell
  deriving DecidableEq, Repr

namespace Side

/-- The sign of a quantity on the wire: buys are positive, sells negative. -/
def sign : Side → Int
  | .buy => 1
  | .sell => -1

instance : ToString Side where
  toString
    | .buy => "BUY"
    | .sell => "SELL"

end Side

end TradingDesk
