-- SUMMARY: What the desk asks of a brokerage, and a brokerage that answers from a script.
import TradingDesk.Error
import TradingDesk.Market.Ladder

/-!
# Brokerages

A brokerage answers calls at once; fills and confirmed cancels are told later, as
events. `ScriptedBrokerage` gives the answers that were laid out for it and keeps
a record of the calls, which is what a rehearsal needs.
-/

namespace TradingDesk

class Brokerage (β : Type) where
  /-- The cash available for orders. -/
  balance : β → Except Error Int × β
  /-- The quantity held of each code. -/
  holdings : β → Except Error (List (String × Int)) × β
  /-- Places a limit order and answers its number. -/
  place : β → (code : String) → Side → (price qty : Int) → Except Error Nat × β
  /-- Asks for the cancel of part of an order. -/
  cancel : β → (number : Nat) → (code : String) → (qty : Int) → Except Error Unit × β

inductive BrokerageCall where
  | balance
  | holdings
  | place (code : String) (side : Side) (price qty : Int)
  | cancel (number : Nat) (code : String) (qty : Int)
  deriving DecidableEq, Repr

structure ScriptedBrokerage where
  balances : List (Except Error Int)
  holdings : List (Except Error (List (String × Int)))
  /-- Order numbers; `none` stands for the next number of a plain count. -/
  placements : List (Except Error (Option Nat))
  cancels : List (Except Error Unit)
  /-- How often an order was placed. -/
  placed : Nat
  calls : List BrokerageCall

namespace ScriptedBrokerage

/-- The next answer of a script, and `rest` when it has run out. -/
def answer (rest : α) : List (Except Error α) → Except Error α × List (Except Error α)
  | [] => (.ok rest, [])
  | a :: as => (a, as)

def record (b : ScriptedBrokerage) (call : BrokerageCall) : ScriptedBrokerage :=
  { b with calls := b.calls ++ [call] }

/-- The plain count of order numbers starts above 100. -/
def numbered (placed : Nat) (number : Option Nat) : Nat := number.getD (100 + placed)

instance : Brokerage ScriptedBrokerage where
  balance b :=
    let (a, balances) := answer 0 b.balances
    (a, { b with balances }.record .balance)
  holdings b :=
    let (a, holdings) := answer [] b.holdings
    (a, { b with holdings }.record .holdings)
  place b code side price qty :=
    let (a, placements) := answer none b.placements
    let placed := b.placed + 1
    (a.map (numbered placed), { b with placements, placed }.record (.place code side price qty))
  cancel b number code qty :=
    let (a, cancels) := answer () b.cancels
    (a, { b with cancels }.record (.cancel number code qty))

end ScriptedBrokerage

end TradingDesk
