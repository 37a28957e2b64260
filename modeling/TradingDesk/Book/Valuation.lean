-- SUMMARY: What the account is worth.
import TradingDesk.Book.Basic

/-!
# Valuation

Holdings and resting sells are worth what selling them at a mark price would
bring after fees; resting buys are worth the cash they hold back.
-/

namespace TradingDesk

structure Valuation where
  cash : Int
  /-- Cash held back by resting buys. -/
  stagedBuy : Int
  holdings : Int
  /-- The worth of what resting sells offer. -/
  stagedSell : Int
  deriving DecidableEq, Repr

namespace Valuation

def total (v : Valuation) : Int := v.cash + v.stagedBuy + v.holdings + v.stagedSell

end Valuation

namespace Instrument

/-- What a quantity brings at a mark price, after fees. -/
def proceeds (i : Instrument) (mark qty : Int) : Int :=
  mark * qty - i.kind.sellFee (mark * qty)

def stagedBuy (i : Instrument) : Int :=
  sumOf (·.escrow) (i.liveOrders.filter (·.side == .buy))

def stagedSell (i : Instrument) (mark : Int) : Int :=
  sumOf (fun o => i.proceeds mark o.qty) (i.liveOrders.filter (·.side == .sell))

/-- The average trade price, or the best bid as long as there was no trade. -/
def referencePrice (i : Instrument) : Int :=
  if 0 < i.avgPrice then i.avgPrice else i.ladder.bestBid.price

end Instrument

namespace Book

/-- The worth of the account with each instrument at the price that `mark` gives
it; a price below zero counts as zero. -/
def evaluateWith (b : Book) (mark : Instrument → Int) : Valuation where
  cash := b.balance
  stagedBuy := sumOf Instrument.stagedBuy b.instruments
  holdings := sumOf (fun i => i.proceeds (max (mark i) 0) i.idle) b.instruments
  stagedSell := sumOf (fun i => i.stagedSell (max (mark i) 0)) b.instruments

/-- The worth of the account at the best bids. -/
def evaluate (b : Book) : Valuation :=
  b.evaluateWith fun i => i.ladder.bestBid.price

/-- Fixes the values that profits are measured against; only the first call does. -/
def latch (b : Book) : Book :=
  { b with
    openingValue := b.openingValue.or (some b.evaluate.total)
    referenceValue := b.referenceValue.or (some (b.evaluateWith Instrument.referencePrice).total) }

/-- The profit against a base value; there is no rate for a base that is not positive. -/
def rateAgainst (b : Book) (base : Option Int) : Option Binary64 :=
  base.bind fun base =>
    if base ≤ 0 then none else some (.quotient (b.evaluate.total - base) base)

def profitRate (b : Book) : Option Binary64 := b.rateAgainst b.openingValue

def referenceProfitRate (b : Book) : Option Binary64 := b.rateAgainst b.referenceValue

end Book

end TradingDesk
