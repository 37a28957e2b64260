-- SUMMARY: Reading request lines.
import TradingDesk.Error
import TradingDesk.Request.Basic
import TradingDesk.Text.Fields
import TradingDesk.Text.Integer

/-!
# Request lines

A request line is a tag and its fields. The number of fields is checked first,
then the fields from left to right, and last that the quantity is not negative.
-/

namespace TradingDesk.Request

def readField (name : String) (line field : List Char) : Except Error Int :=
  match Text.readSigned field with
  | some n => .ok n
  | none => .error (.protocol (.badRequestField name line))

/-- The request made of an action and as many fields as it takes. -/
def ofFields (action : Action) (line : List Char) : List (List Char) → Except Error Request
  | [code, price, qty] => do
    let price ← readField "price" line price
    let qty ← readField "qty" line qty
    if qty < 0 then throw (.protocol (.negativeQty line))
    return ⟨action, String.ofList code, price, qty, 0⟩
  | [code, price, qty, newPrice] => do
    let price ← readField "price" line price
    let qty ← readField "qty" line qty
    let newPrice ← readField "new price" line newPrice
    if qty < 0 then throw (.protocol (.negativeQty line))
    return ⟨action, String.ofList code, price, qty, newPrice⟩
  | _ => .ok (ofAction action "" 0 0)

def read (line : List Char) : Except Error Request :=
  match Text.words line with
  | [] => .error (.protocol .emptyRequest)
  | tag :: fields =>
    match Action.ofTag? tag with
    | none => .error (.protocol (.unknownRequest tag))
    | some action =>
      if fields.length = action.arity then ofFields action line fields
      else .error (.protocol (.fieldCount tag action.arity fields.length line))

end TradingDesk.Request
