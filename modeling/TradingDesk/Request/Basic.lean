-- SUMMARY: What an agent can ask for, and the operations that carry it out.
import TradingDesk.Book.Key
import TradingDesk.Market.Side

/-!
# Requests and operations

An agent's `Request` names a code, a price and a quantity, and leaves open which
orders it concerns and how much is possible. Against a book it resolves into an
`Allotment` of concrete operations, which the book's accounting then carries out.
-/

namespace TradingDesk

inductive Action where
  | place (side : Side)
  | cancel (side : Side)
  /-- Cancel orders of a side and place what they held at a new price. -/
  | modify (side : Side)
  | cancelAll
  | sellAll
  deriving DecidableEq, Repr

namespace Action

/-- The first field of a request line. -/
def tag : Action → String
  | place .buy => "b"
  | place .sell => "s"
  | cancel .buy => "cb"
  | cancel .sell => "cs"
  | modify .buy => "mb"
  | modify .sell => "ms"
  | cancelAll => "ca"
  | sellAll => "sa"

def all : List Action :=
  [place .buy, place .sell, cancel .buy, cancel .sell, modify .buy, modify .sell, cancelAll, sellAll]

def ofTag? (s : List Char) : Option Action :=
  all.find? fun a => a.tag.toList == s

theorem ofTag?_tag (a : Action) : ofTag? a.tag.toList = some a := by
  cases a with
  | place s => cases s <;> decide
  | cancel s => cases s <;> decide
  | modify s => cases s <;> decide
  | cancelAll => decide
  | sellAll => decide

/-- How many fields follow the tag. -/
def arity : Action → Nat
  | place _ => 3
  | cancel _ => 3
  | modify _ => 4
  | cancelAll => 0
  | sellAll => 0

end Action

/-- A quantity of zero asks for as much as possible. The new price matters to
`modify` only; the two actions that concern the whole book use no field at all. -/
structure Request where
  action : Action
  code : String
  price : Int
  qty : Int
  newPrice : Int
  deriving DecidableEq, Repr

namespace Request

def ofAction (action : Action) (code : String) (price qty : Int) : Request :=
  ⟨action, code, price, qty, 0⟩

def modify (side : Side) (code : String) (price qty newPrice : Int) : Request :=
  ⟨.modify side, code, price, qty, newPrice⟩

def cancelAll : Request := ofAction .cancelAll "" 0 0

def sellAll : Request := ofAction .sellAll "" 0 0

/-- The request as a line, without its end. -/
def render (r : Request) : String :=
  match r.action with
  | .cancelAll | .sellAll => r.action.tag
  | .modify _ => s!"{r.action.tag} {r.code} {r.price} {r.qty} {r.newPrice}"
  | .place _ | .cancel _ => s!"{r.action.tag} {r.code} {r.price} {r.qty}"

instance : ToString Request := ⟨render⟩

end Request

/-- One change of the book's orders. -/
inductive Operation where
  | insert (code : String) (side : Side) (price qty : Int)
  | cancel (code : String) (key : Key) (qty : Int)
  deriving DecidableEq, Repr

instance : ToString Operation where
  toString
    | .insert code side price qty => s!"insert {side} {code} {qty}@{price}"
    | .cancel code key qty => s!"cancel {code} {key} x{qty}"

structure Allotment where
  operations : List Operation
  /-- Whether the operations are free of the tick's budget. -/
  exempt : Bool
  deriving DecidableEq, Repr

end TradingDesk
