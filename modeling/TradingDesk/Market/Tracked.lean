-- SUMMARY: An instrument that a session is told to track.
import TradingDesk.Market.Kind

namespace TradingDesk

/-- A code to track, with the holdings carried over from before the session. -/
structure Tracked where
  code : String
  kind : Kind
  holdings : Int
  deriving DecidableEq, Repr

end TradingDesk
