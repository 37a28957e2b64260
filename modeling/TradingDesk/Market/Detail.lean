-- SUMMARY: Market data that only instruments of one kind have.
import TradingDesk.Binary64.Basic
import TradingDesk.Market.Kind

namespace TradingDesk

structure WarrantTerms where
  /-- `c` for a call and `p` for a put. -/
  callPut : Char
  /-- The day of expiry, as the number `yyyymmdd`. -/
  expiry : Nat
  /-- Price, delta, gamma, theta, vega, rho, implied volatility and leverage. -/
  greeks : Vector Binary64 8
  deriving DecidableEq, Repr

inductive Detail where
  | equity
  | warrant (terms : WarrantTerms)
  /-- The deviation of the price from net asset value. -/
  | tracker (deviation : Binary64)
  deriving DecidableEq, Repr

/-- The detail of an instrument about which nothing is known yet. -/
def Kind.blankDetail : Kind → Detail
  | equity => .equity
  | warrant => .warrant ⟨'\x00', 0, Vector.replicate 8 Binary64.zero⟩
  | tracker => .tracker Binary64.zero

end TradingDesk
