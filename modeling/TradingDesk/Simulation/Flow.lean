-- SUMMARY: How market flow passes through my orders.
import TradingDesk.Simulation.Queue

/-!
# Flow

Flow reaches my orders price by price. Orders at one price stand in the same queue,
so each of them sees the whole flow that reached the price, and the price takes as
much of it as the deepest position that was reached.
-/

namespace TradingDesk

/-- An instrument after some fills. -/
structure Matched where
  instrument : Instrument
  fills : List Fill
  deriving DecidableEq, Repr

namespace Matched

def start (i : Instrument) : Matched := ⟨i, []⟩

def andThen (m : Matched) (step : Instrument → Matched) : Matched :=
  let next := step m.instrument
  ⟨next.instrument, m.fills ++ next.fills⟩

end Matched

/-- The effect of flow on the orders of one price. -/
structure LevelFlow where
  matched : Matched
  /-- The flow up to the deepest position reached. -/
  used : Int
  deriving DecidableEq, Repr

namespace Instrument

/-- Flow that reaches one order; it is filled at `price`. -/
def pop (i : Instrument) (key : Key) (flow price : Int) : LevelFlow :=
  match Orders.find? key i.orders with
  | none => ⟨.start i, 0⟩
  | some o =>
    let taken := o.intake flow
    let o := o.advanceQueue taken
    let i := { i with orders := Orders.update key (·.advanceQueue taken) i.orders }
    match i.fill o price taken.filled with
    | none => ⟨.start i, taken.used⟩
    | some (i, f) => ⟨⟨i, [f]⟩, taken.used⟩

/-- Flow that reaches the orders of one price. Without a `fillPrice` each order is
filled at its own limit. -/
def flowLevel (fillPrice : Option Int) (flow : Int) (i : Instrument) : List Key → LevelFlow
  | [] => ⟨.start i, 0⟩
  | key :: keys =>
    let first := i.pop key flow (fillPrice.getD key.price)
    let rest := first.matched.instrument.flowLevel fillPrice flow keys
    ⟨⟨rest.matched.instrument, first.matched.fills ++ rest.matched.fills⟩, max first.used rest.used⟩

/-- Flow through prices in turn; each price leaves the rest to the next one. -/
def flowLevels (fillPrice : Option Int) (flow : Int) (i : Instrument) : List (List Key) → Matched
  | [] => .start i
  | level :: levels =>
    if flow ≤ 0 then .start i
    else
      let first := i.flowLevel fillPrice flow level
      first.matched.andThen fun i => i.flowLevels fillPrice (flow - first.used) levels

/-- Flow through orders whose keys are given in the order of their prices' priority. -/
def flowThrough (i : Instrument) (keys : List Key) (flow : Int) (fillPrice : Option Int) : Matched :=
  i.flowLevels fillPrice flow (keys.splitBy fun a b => a.price == b.price)

end Instrument

end TradingDesk
