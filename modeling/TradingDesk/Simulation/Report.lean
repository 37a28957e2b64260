-- SUMMARY: The report on a session and its document.
import TradingDesk.Binary64.Layout
import TradingDesk.Book.Valuation
import TradingDesk.Text.Json

namespace TradingDesk

structure Report where
  tick : Nat
  balance : Int
  valuation : Valuation
  openingValue : Option Int
  referenceValue : Option Int
  profitRate : Option Binary64
  referenceProfitRate : Option Binary64
  stats : Stats
  /-- How many lines of both tapes could not be read. -/
  skipped : Nat
  deriving DecidableEq, Repr

namespace Report

def ofBook (b : Book) (skipped : Nat) : Report where
  tick := b.tick
  balance := b.balance
  valuation := b.evaluate
  openingValue := b.openingValue
  referenceValue := b.referenceValue
  profitRate := b.profitRate
  referenceProfitRate := b.referenceProfitRate
  stats := b.stats
  skipped := skipped

open Text in
/-- A rate in the report's layout; only finite numbers can be written. -/
def rateJson : Option Binary64 → Json
  | some (.finite negative rank) => .number (Binary64.write .report (.finite negative rank))
  | _ => .null

open Text in
def slotJson (s : SlotStats) : Json :=
  .object [("bal", .int s.cash), ("qty", .int s.qty), ("cnt", .int s.fills)]

open Text in
def toJson (r : Report) : Json :=
  .object [
    ("tick", .int r.tick),
    ("balance", .int r.balance),
    ("evaluation", .object [
      ("cash", .int r.valuation.cash),
      ("staged_buy", .int r.valuation.stagedBuy),
      ("holdings", .int r.valuation.holdings),
      ("staged_sell", .int r.valuation.stagedSell)]),
    ("total", .int r.valuation.total),
    ("bal_init", .orNull (r.openingValue.map .int)),
    ("bal_ref", .orNull (r.referenceValue.map .int)),
    ("profit_rate", rateJson r.profitRate),
    ("profit_rate_ref", rateJson r.referenceProfitRate),
    ("stats", .object [
      ("sum_buy", .int r.stats.bought),
      ("sum_sell", .int r.stats.sold),
      ("sum_fee", .int r.stats.fees),
      ("tck_orig", .list (r.stats.slots.toList.map slotJson))]),
    ("skipped_lines", .int r.skipped)]

def render (r : Report) : String := r.toJson.render

end Report

/-- Where a session's report goes, and what stands there. -/
structure ReportFile where
  /-- What writing fails with, if it does. -/
  fault : Option IoFault
  text : Option String
  deriving DecidableEq, Repr

namespace ReportFile

/-- A file that can be written and is not there yet. -/
def writable : ReportFile := ⟨none, none⟩

def broken (fault : IoFault) : ReportFile := ⟨some fault, none⟩

end ReportFile

end TradingDesk
