-- SUMMARY: The state block that tells an agent how the book stands.
import TradingDesk.Binary64.Layout
import TradingDesk.Book.Basic

/-!
# State blocks

Once a tick the agent is sent the whole state of the book as a block of lines
between `/*` and `*/`. A block is a list of rows, a row a list of fields, written
with one space between fields. Each line begins with a letter for what it holds:

- `b` the tick, the balance and the totals; `s` the statistics by origin;
- `k` the index, when warrants are tracked;
- for each instrument `d` the market data, `e` the terms of a warrant or `n` the
  deviation of a tracker, and `o` the idle holdings with the live orders.

The side of an order is the sign of its quantity.
-/

namespace TradingDesk.StateBlock

abbrev Row : Type := List String

def opening : String := "/*"

def closing : String := "*/"

def headerRow (b : Book) : Row :=
  ["b", toString b.tick, toString b.balance, toString b.stats.bought, toString b.stats.sold,
    toString b.stats.fees]

def slotsRow (s : Stats) : Row :=
  "s" :: s.slots.toList.flatMap fun t => [toString t.cash, toString t.qty, toString t.fills]

def indexRow (b : Book) : List Row :=
  if b.hasWarrants then [["k", toString b.index]] else []

def depthRow (i : Instrument) : Row :=
  ["d", i.code, toString i.avgPrice, toString i.traded]
    ++ i.ladder.levels.toList.map (fun l => toString l.price)
    ++ i.ladder.levels.toList.map (fun l => toString l.qty)

def detailRow (i : Instrument) : List Row :=
  match i.detail with
  | .equity => []
  | .warrant terms =>
    [["e", i.code, String.singleton terms.callPut, toString terms.expiry]
      ++ terms.greeks.toList.map toString]
  | .tracker deviation => [["n", i.code, toString deviation]]

def ordersRow (i : Instrument) : Row :=
  ["o", i.code, toString i.idle]
    ++ i.liveOrders.flatMap fun o => [toString o.price, toString (o.side.sign * o.qty)]

def instrumentRows (i : Instrument) : List Row :=
  depthRow i :: detailRow i ++ [ordersRow i]

def rows (b : Book) : List Row :=
  headerRow b :: slotsRow b.stats :: indexRow b ++ b.instruments.flatMap instrumentRows

/-- Lines with a line feed after each. -/
def unlines (lines : List String) : String :=
  String.join (lines.map (· ++ "\n"))

def render (b : Book) : String :=
  unlines (opening :: (rows b).map (String.intercalate " ") ++ [closing])

end TradingDesk.StateBlock
