-- SUMMARY: The book: cash, instruments and statistics, and the operations on them.
import TradingDesk.Book.Stats

/-!
# The book

A `Book` holds the account and its instruments, sorted by code. Cash and holdings
change in three ways only: an order is placed, a fill is booked, an order is
canceled. Accounts below zero are reported and carried on with.

Cash, holdings, what orders hold back and the totals of the statistics are taken to stay
within 64 bits (`Word64.Basic`); `Word64.Book` places and cancels orders with words.
-/

namespace TradingDesk

structure Book where
  tick : Nat
  balance : Int
  stats : Stats
  instruments : List Instrument
  /-- The equity index, which matters to warrants only. -/
  index : Binary64
  /-- The value of the account at the first complete market. -/
  openingValue : Option Int
  /-- The value then with holdings at average prices, for want of the last close. -/
  referenceValue : Option Int
  nextId : Nat
  deriving DecidableEq, Repr

/-- A book after an operation, with the operation's answer. -/
structure Posted (α : Type) where
  answer : α
  book : Book
  notices : List Notice

/-- The list with one more instrument in its place; an instrument of the same code stays. -/
def insertInstrument (i : Instrument) : List Instrument → List Instrument
  | [] => [i]
  | j :: js =>
    if i.code == j.code then j :: js
    else if i.code < j.code then i :: j :: js
    else j :: insertInstrument i js

namespace Book

def ofBalance (balance : Int) : Book where
  tick := 0
  balance := balance
  stats := Stats.blank
  instruments := []
  index := Binary64.zero
  openingValue := none
  referenceValue := none
  nextId := 1

def find? (b : Book) (code : String) : Option Instrument :=
  b.instruments.find? (·.code == code)

/-- The book with the instrument of the same code replaced. -/
def set (b : Book) (i : Instrument) : Book :=
  { b with instruments := b.instruments.map fun j => if j.code == i.code then i else j }

/-- Tracks an instrument; a code that is tracked already stays as it is. -/
def add (b : Book) (code : String) (kind : Kind) (holdings : Int) : Book :=
  { b with instruments := insertInstrument (.ofHoldings code kind holdings) b.instruments }

def hasWarrants (b : Book) : Bool := b.instruments.any (·.kind == .warrant)

/-- Whether every instrument has a market on both sides. -/
def isQuoted (b : Book) : Bool := b.instruments.all (·.ladder.isQuoted)

def quote (b : Book) (code : String) (avgPrice traded : Int) (raw : Ladder) : Except Error Book :=
  match b.find? code with
  | none => .error (.unknownInstrument code)
  | some i => .ok (b.set (i.quote avgPrice traded raw))

/-- The number of exhausted orders. -/
def exhausted (b : Book) : Nat :=
  (b.instruments.flatMap Instrument.orders).countP fun o => !o.isLive

def sweep (b : Book) : Book :=
  { b with instruments := b.instruments.map Instrument.sweep }

def order? (b : Book) (code : String) (key : Key) : Option Order := do
  let i ← b.find? code
  Orders.find? key i.orders

/-- What is reported after an operation on `code` that left its instrument with `deficits`. -/
def deficitNotices (balance : Int) (code : String) (deficits : List Deficit) : List Notice :=
  ((if balance < 0 then [Deficit.cash balance code] else []) ++ deficits).map .deficit

/-! ## Operations -/

/-- Places an order, with the cash of a buy taken from the balance. -/
def insert (b : Book) (code : String) (side : Side) (price qty : Int) : Except Error (Posted Key) :=
  match b.find? code with
  | none => .error (.unknownInstrument code)
  | some i =>
    let after := i.place b.nextId side price qty
    let balance := match side with
      | .buy => b.balance - i.kind.cost price qty
      | .sell => b.balance
    .ok {
      answer := ⟨price, b.nextId⟩
      book := { b.set after with balance, nextId := b.nextId + 1 }
      notices := deficitNotices balance code after.deficits }

/-- Books a fill that has changed its instrument already. -/
def post (b : Book) (code : String) (f : Fill) : Posted Unit :=
  let balance := b.balance + f.cash
  { answer := ()
    book := { b with balance, stats := b.stats.record f }
    notices := deficitNotices balance code f.deficits }

def postAll (b : Book) (code : String) : List Fill → Posted Unit
  | [] => ⟨(), b, []⟩
  | f :: fs =>
    let first := b.post code f
    let rest := first.book.postAll code fs
    { rest with notices := first.notices ++ rest.notices }

/-- Books a fill of one order. What exceeds the open quantity is reported and left out. -/
def trade (b : Book) (code : String) (key : Key) (price qty : Int) : Except Error (Posted Unit) :=
  match b.find? code with
  | none => .error (.unknownInstrument code)
  | some i =>
    match Orders.find? key i.orders with
    | none => .error (.tradeNoOrder code key)
    | some o =>
      let overfill := if o.qty < qty then [.overfill qty o.qty code key] else []
      match i.fill o price qty with
      | none => .ok ⟨(), b, overfill⟩
      | some (after, f) =>
        let posted := (b.set after).post code f
        .ok { posted with notices := overfill ++ posted.notices }

/-- Cancels up to `qty` of an order and answers how much was canceled. -/
def cancel (b : Book) (code : String) (key : Key) (qty : Int) : Except Error (Posted Int) :=
  match b.find? code with
  | none => .error (.unknownInstrument code)
  | some i =>
    match Orders.find? key i.orders with
    | none => .error (.cancelNoOrder code key)
    | some o =>
      match i.withdraw o qty with
      | none => .ok ⟨0, b, []⟩
      | some (after, w) =>
        let balance := b.balance + w.release
        .ok {
          answer := w.qty
          book := { b.set after with balance }
          notices := deficitNotices balance code w.deficits }

end Book

end TradingDesk
