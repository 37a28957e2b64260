-- SUMMARY: Resolving a request, and placing and canceling orders, with words of 64 bits.
import TradingDesk.Book.Allot
import TradingDesk.Word64.Market

/-!
# The book with words

What becomes of a request, from its allotment to the operations that place and cancel orders,
once more with a word for every result. Fills are left out.
-/

namespace TradingDesk.Overflow

variable (o : Overflow)

/-- `sum` and what the members of a list count for, added from the left. -/
def addUp (f : α → Option Int) : Int → List α → Option Int
  | sum, [] => some sum
  | sum, a :: as => do
    let n ← f a
    let sum ← o.word (sum + n)
    addUp f sum as

/-! ## Orders -/

def release (kind : Kind) (order : Order) (qty : Int) : Option Int :=
  if order.qty ≤ qty then some order.escrow
  else do
    let cost ← o.cost kind order.price qty
    some (min cost order.escrow)

/-- The cash that a cancel frees. -/
def freed (kind : Kind) (order : Order) (qty : Int) : Option Int :=
  match order.side with
  | .buy => o.release kind order qty
  | .sell => some 0

def shrink (kind : Kind) (order : Order) (qty : Int) : Option Order := do
  let left ← o.word (order.qty - qty)
  match order.side with
  | .buy => do
    let release ← o.release kind order qty
    let escrow ← o.word (order.escrow - release)
    some { order with qty := left, escrow }
  | .sell => some { order with qty := left }

/-! ## Allotment -/

def cancelPlan : Int → List Order → Option (List (Order × Int))
  | _, [] => some []
  | wanted, order :: orders =>
    if wanted ≤ 0 then some []
    else do
      let take := min order.qty wanted
      let left ← o.word (wanted - take)
      let rest ← cancelPlan left orders
      some ((order, take) :: rest)

/-- How much to cancel of each order at a price. The greatest word stands for the whole level. -/
def planAt (i : Instrument) (side : Side) (price qty : Int) : Option (List (Order × Int)) :=
  o.cancelPlan (if qty = 0 then 9223372036854775807 else qty) (Orders.level side price i.orders)

/-- The most that an order can have. -/
def mostPlaced (i : Instrument) (balance : Int) (side : Side) (limit : Int) : Option Int :=
  match side with
  | .buy => o.maxAffordable i.kind limit balance
  | .sell => some i.idle

def allotPlace (i : Instrument) (balance : Int) (side : Side) (price qty : Int) :
    Option Resolution :=
  match i.clampPrice side price with
  | .error why => some (.refuse why)
  | .ok limit => do
    let most ← o.mostPlaced i balance side limit
    some (i.placeUpTo side limit qty most)

def allotCancel (i : Instrument) (side : Side) (price qty : Int) : Option Resolution := do
  let plan ← o.planAt i side price qty
  match plan with
  | [] => some (.refuse (.nothingToCancel side i.code price))
  | plan => some (.of (i.cancels plan))

/-- The most that an order can have in place of what a plan cancels. -/
def mostReplaced (i : Instrument) (balance : Int) (side : Side) (limit : Int)
    (plan : List (Order × Int)) : Option Int := do
  let total ← o.addUp (fun part => some part.2) 0 plan
  match side with
  | .buy => do
    let released ← o.addUp (fun part => o.release i.kind part.1 part.2) 0 plan
    let funds ← o.word (balance + released)
    let affordable ← o.maxAffordable i.kind limit funds
    some (min total affordable)
  | .sell => some total

def allotModify (i : Instrument) (balance : Int) (side : Side) (price qty newPrice : Int) :
    Option Resolution := do
  let plan ← o.planAt i side price qty
  match plan with
  | [] => some (.refuse (.nothingToModify side i.code price))
  | plan =>
    match i.clampPrice side newPrice with
    | .error why => some (.refuse why)
    | .ok limit =>
      if limit = price then some (.refuse (.priceUnchanged side i.code price))
      else do
        let most ← o.mostReplaced i balance side limit plan
        some (i.replaceUpTo side price limit plan most)

def allot (b : Book) (r : Request) : Option Resolution :=
  let one (resolve : Instrument → Option Resolution) : Option Resolution :=
    match b.find? r.code with
    | none => some (.refuse (.unknownInstrument r))
    | some i => resolve i
  match r.action with
  | .cancelAll => some b.allotCancelAll
  | .sellAll => some b.allotSellAll
  | .place side => one fun i => o.allotPlace i b.balance side r.price r.qty
  | .cancel side => one fun i => o.allotCancel i side r.price r.qty
  | .modify side => one fun i => o.allotModify i b.balance side r.price r.qty r.newPrice

/-! ## Operations -/

/-- The cash that a new order holds back. The notional of a sell is worked out all the same. -/
def held (kind : Kind) (side : Side) (price qty : Int) : Option Int :=
  match side with
  | .buy => o.cost kind price qty
  | .sell => (o.word (price * qty)).map fun _ => 0

def insert (b : Book) (code : String) (side : Side) (price qty : Int) :
    Option (Except Error (Posted Key)) :=
  match b.find? code with
  | none => some (.error (.unknownInstrument code))
  | some i => do
    let escrow ← o.held i.kind side price qty
    let balance ← o.word (b.balance - escrow)
    let idle ← match side with
      | .buy => some i.idle
      | .sell => o.word (i.idle - qty)
    let order : Order :=
      { price, id := b.nextId, side, qty, origin := i.ladder.originSlot side price, escrow }
    let after := { i with idle, orders := Orders.insert order i.orders }
    some (.ok {
      answer := ⟨price, b.nextId⟩
      book := { b.set after with balance, nextId := b.nextId + 1 }
      notices := Book.deficitNotices balance code after.deficits })

def withdraw (i : Instrument) (order : Order) (qty : Int) :
    Option (Option (Instrument × Withdrawal)) :=
  let qty := min qty order.qty
  if qty ≤ 0 then some none
  else do
    let release ← o.freed i.kind order qty
    let idle ← match order.side with
      | .buy => some i.idle
      | .sell => o.word (i.idle + qty)
    let shrunk ← o.shrink i.kind order qty
    let after := { i with idle, orders := Orders.update order.key (fun _ => shrunk) i.orders }
    some (some (after, { qty, release, deficits := after.deficits }))

def cancel (b : Book) (code : String) (key : Key) (qty : Int) :
    Option (Except Error (Posted Int)) :=
  match b.find? code with
  | none => some (.error (.unknownInstrument code))
  | some i =>
    match Orders.find? key i.orders with
    | none => some (.error (.cancelNoOrder code key))
    | some order => do
      let withdrawn ← o.withdraw i order qty
      match withdrawn with
      | none => some (.ok ⟨0, b, []⟩)
      | some (after, w) => do
        let balance ← o.word (b.balance + w.release)
        some (.ok {
          answer := w.qty
          book := { b.set after with balance }
          notices := Book.deficitNotices balance code w.deficits })

end TradingDesk.Overflow
