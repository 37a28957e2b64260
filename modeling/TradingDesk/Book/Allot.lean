-- SUMMARY: Resolving a request into operations against the book as it stands.
import TradingDesk.Book.Basic

/-!
# Allotment

`Book.allot` turns a request into operations that the book can afford now. A
request that cannot be met resolves to no operation and a `Refusal`, so resolving
never fails. An order of mine is canceled before older ones of its price.
-/

namespace TradingDesk

/-- The operations of a request and what was refused of it. -/
structure Resolution where
  allotment : Allotment
  refusals : List Refusal
  deriving DecidableEq, Repr

namespace Resolution

def of (operations : List Operation) : Resolution := ⟨⟨operations, false⟩, []⟩

def refuse (why : Refusal) : Resolution := ⟨⟨[], false⟩, [why]⟩

def notices (r : Resolution) : List Notice := r.refusals.map .refused

end Resolution

/-- How much to cancel of each order, in turn, until `wanted` is covered. -/
def cancelPlan (wanted : Option Int) : List Order → List (Order × Int)
  | [] => []
  | o :: os =>
    match wanted with
    | none => (o, o.qty) :: cancelPlan none os
    | some left =>
      if left ≤ 0 then []
      else
        let take := min o.qty left
        (o, take) :: cancelPlan (some (left - take)) os

namespace Instrument

/-- How much to cancel of each of my orders at a price; a quantity of zero means the whole level. -/
def cancelPlan (i : Instrument) (side : Side) (price qty : Int) : List (Order × Int) :=
  TradingDesk.cancelPlan (if qty = 0 then none else some qty) (Orders.level side price i.orders)

def cancels (i : Instrument) (plan : List (Order × Int)) : List Operation :=
  plan.map fun (o, qty) => .cancel i.code o.key qty

/-- The limit of an order, moved to the opposite best where it reaches beyond it. -/
def clampPrice (i : Instrument) (side : Side) (price : Int) : Except Refusal Int :=
  let opposite := i.ladder.opposite side
  let clamped :=
    if opposite ≤ 0 then price
    else match side with
      | .buy => min price opposite
      | .sell => max price opposite
  if i.kind.validPrice clamped then .ok clamped else .error (.invalidTick side i.code clamped)

/-- An order of at most `most`; a quantity of zero asks for all of it. -/
def placeUpTo (i : Instrument) (side : Side) (limit qty most : Int) : Resolution :=
  let placed := i.kind.roundLot (if qty = 0 then most else min qty most)
  if placed ≤ 0 then .refuse (.nothingToPlace side i.code limit qty most)
  else .of [.insert i.code side limit placed]

def allotPlace (i : Instrument) (balance : Int) (side : Side) (price qty : Int) : Resolution :=
  match i.clampPrice side price with
  | .error why => .refuse why
  | .ok limit =>
    let most := match side with
      | .buy => i.kind.maxAffordable limit balance
      | .sell => i.idle
    i.placeUpTo side limit qty most

def allotCancel (i : Instrument) (side : Side) (price qty : Int) : Resolution :=
  match i.cancelPlan side price qty with
  | [] => .refuse (.nothingToCancel side i.code price)
  | plan => .of (i.cancels plan)

/-- The cancels of a plan, and an order of at most `most` in place of what they cancel. -/
def replaceUpTo (i : Instrument) (side : Side) (price limit : Int) (plan : List (Order × Int))
    (most : Int) : Resolution :=
  let placed := i.kind.roundLot most
  if placed ≤ 0 then .refuse (.nothingToReplace side i.code price limit)
  else .of (i.cancels plan ++ [.insert i.code side limit placed])

/-- A modified buy may use the cash that its cancels set free. -/
def allotModify (i : Instrument) (balance : Int) (side : Side) (price qty newPrice : Int) : Resolution :=
  match i.cancelPlan side price qty with
  | [] => .refuse (.nothingToModify side i.code price)
  | plan =>
    match i.clampPrice side newPrice with
    | .error why => .refuse why
    | .ok limit =>
      if limit = price then .refuse (.priceUnchanged side i.code price)
      else
        let total := sumOf Prod.snd plan
        let most := match side with
          | .buy =>
            let released := sumOf (fun (o, n) => o.release i.kind n) plan
            min total (i.kind.maxAffordable limit (balance + released))
          | .sell => total
        i.replaceUpTo side price limit plan most

/-- The sale of all idle holdings at the best bid. -/
def sellOff (i : Instrument) : Resolution :=
  let qty := i.kind.roundLot i.idle
  let bid := i.ladder.bestBid.price
  if qty ≤ 0 then .of []
  else if bid ≤ 0 then .refuse (.noBid i.code)
  else .of [.insert i.code .sell bid qty]

end Instrument

namespace Book

def allotCancelAll (b : Book) : Resolution :=
  let operations := b.instruments.flatMap fun i => i.cancels (i.liveOrders.map fun o => (o, o.qty))
  ⟨⟨operations, true⟩, []⟩

def allotSellAll (b : Book) : Resolution :=
  let parts := b.instruments.map Instrument.sellOff
  ⟨⟨parts.flatMap (·.allotment.operations), false⟩, parts.flatMap (·.refusals)⟩

def allot (b : Book) (r : Request) : Resolution :=
  let one (resolve : Instrument → Resolution) : Resolution :=
    match b.find? r.code with
    | none => .refuse (.unknownInstrument r)
    | some i => resolve i
  match r.action with
  | .cancelAll => b.allotCancelAll
  | .sellAll => b.allotSellAll
  | .place side => one fun i => i.allotPlace b.balance side r.price r.qty
  | .cancel side => one fun i => i.allotCancel side r.price r.qty
  | .modify side => one fun i => i.allotModify b.balance side r.price r.qty r.newPrice

end Book

end TradingDesk
