-- SUMMARY: Reading a state block back into a book.
import TradingDesk.Binary64.Read
import TradingDesk.StateBlock.Render
import TradingDesk.Text.Fields

/-!
# Reading state blocks

The agent keeps its own copy of the book by reading the blocks it is sent. The
kind of an instrument is not written: an `e` line makes it a warrant, an `n` line
a tracker, and without either it is an equity. The escrow of a buy is not written
either; it is taken to be the whole cost of what is open. Fields beyond those a
line needs are passed over.
-/

namespace TradingDesk.StateBlock

/-- Takes fields from the left of a line; the line itself is repeated in errors. -/
abbrev FieldReader (α : Type) : Type := List (List Char) → Except Error (α × List (List Char))

namespace FieldReader

def field (line : List Char) : FieldReader (List Char)
  | [] => .error (.protocol (.truncatedLine line))
  | f :: fs => .ok (f, fs)

/-- The next field, as `read` understands it. -/
def next (line : List Char) (read : List Char → Option α) : FieldReader α := fun fs => do
  let (f, fs) ← field line fs
  match read f with
  | some a => .ok (a, fs)
  | none => .error (.protocol (.badField f line))

def vector (line : List Char) (read : List Char → Option α) : (n : Nat) → FieldReader (Vector α n)
  | 0, fs => .ok (#v[], fs)
  | n + 1, fs => do
    let (v, fs) ← vector line read n fs
    let (a, fs) ← next line read fs
    .ok (v.push a, fs)

end FieldReader

open FieldReader

def readSlot (line : List Char) : FieldReader SlotStats := fun fs => do
  let (cash, fs) ← next line Text.readSigned fs
  let (qty, fs) ← next line Text.readSigned fs
  let (fills, fs) ← next line Text.readSigned fs
  .ok (⟨cash, qty, fills⟩, fs)

def readSlots (line : List Char) : (n : Nat) → FieldReader (Vector SlotStats n)
  | 0, fs => .ok (#v[], fs)
  | n + 1, fs => do
    let (v, fs) ← readSlots line n fs
    let (s, fs) ← readSlot line fs
    .ok (v.push s, fs)

/-- The instrument of an earlier `d` line. -/
def known (b : Book) (code line : List Char) : Except Error Instrument :=
  match b.find? (String.ofList code) with
  | some i => .ok i
  | none => .error (.protocol (.lineBeforeDepth (String.ofList code) line))

def readHeader (b : Book) (line : List Char) (fs : List (List Char)) : Except Error Book := do
  let (tick, fs) ← next line (Text.readCount Text.maxWord) fs
  let (balance, fs) ← next line Text.readSigned fs
  let (bought, fs) ← next line Text.readSigned fs
  let (sold, fs) ← next line Text.readSigned fs
  let (fees, _) ← next line Text.readSigned fs
  .ok { b with tick, balance, stats := { b.stats with bought, sold, fees } }

def readStats (b : Book) (line : List Char) (fs : List (List Char)) : Except Error Book := do
  let (slots, _) ← readSlots line 22 fs
  .ok { b with stats := { b.stats with slots } }

def readIndex (b : Book) (line : List Char) (fs : List (List Char)) : Except Error Book := do
  let (index, _) ← next line Binary64.read fs
  .ok { b with index }

def readDepth (b : Book) (line : List Char) (fs : List (List Char)) : Except Error Book := do
  let (code, fs) ← field line fs
  let b := b.add (String.ofList code) .equity 0
  let i ← known b code line
  let (avgPrice, fs) ← next line Text.readSigned fs
  let (traded, fs) ← next line Text.readSigned fs
  let (prices, fs) ← vector line Text.readSigned 20 fs
  let (qtys, _) ← vector line Text.readSigned 20 fs
  .ok (b.set { i with avgPrice, traded, ladder := ⟨prices.zipWith Level.mk qtys⟩ })

def readWarrant (b : Book) (line : List Char) (fs : List (List Char)) : Except Error Book := do
  let (code, fs) ← field line fs
  let (callPut, fs) ← next line Text.readChar fs
  let (expiry, fs) ← next line (Text.readCount Text.maxWord) fs
  let (greeks, _) ← vector line Binary64.read 8 fs
  let i ← known b code line
  .ok (b.set { i with kind := .warrant, detail := .warrant ⟨callPut, expiry, greeks⟩ })

def readTracker (b : Book) (line : List Char) (fs : List (List Char)) : Except Error Book := do
  let (code, fs) ← field line fs
  let (deviation, _) ← next line Binary64.read fs
  let i ← known b code line
  .ok (b.set { i with kind := .tracker, detail := .tracker deviation })

/-- An order that stands in a block, with the next free number. -/
def orderOf (i : Instrument) (id : Nat) (price signedQty : Int) : Order :=
  let side := if 0 ≤ signedQty then Side.buy else Side.sell
  let qty : Int := signedQty.natAbs
  { price, id, side, qty
    origin := i.ladder.originSlot side price
    escrow := match side with
      | .buy => i.kind.cost price qty
      | .sell => 0 }

/-- Adds the orders of a line, given as pairs of fields, with numbers from `id` on. -/
def readOrders (line : List Char) (i : Instrument) (id : Nat) :
    List (List Char) → Except Error (Instrument × Nat)
  | price :: qty :: fs => do
    let some p := Text.readSigned price | .error (.protocol (.badOrderField price line))
    let some q := Text.readSigned qty | .error (.protocol (.badOrderField qty line))
    readOrders line { i with orders := Orders.insert (orderOf i id p q) i.orders } (id + 1) fs
  | _ => .ok (i, id)

def readHoldings (b : Book) (line : List Char) (fs : List (List Char)) : Except Error Book := do
  let (code, fs) ← field line fs
  let (idle, fs) ← next line Text.readSigned fs
  if fs.length % 2 ≠ 0 then throw (.protocol (.oddOrderFields line))
  let i ← known b code line
  let (i, nextId) ← readOrders line { i with idle } b.nextId fs
  .ok { b.set i with nextId }

/-- One line of a block, and whether it was the header. -/
def readLine (b : Book) (line : List Char) : Except Error (Book × Bool) :=
  let others (read : List Char → List (List Char) → Except Error Book) (fs : List (List Char)) :=
    (read line fs).map fun b => (b, false)
  match Text.words line with
  | [] => .ok (b, false)
  | ['b'] :: fs => (readHeader b line fs).map fun b => (b, true)
  | ['s'] :: fs => others (readStats b) fs
  | ['k'] :: fs => others (readIndex b) fs
  | ['d'] :: fs => others (readDepth b) fs
  | ['e'] :: fs => others (readWarrant b) fs
  | ['n'] :: fs => others (readTracker b) fs
  | ['o'] :: fs => others (readHoldings b) fs
  | tag :: _ => .error (.protocol (.unknownLine tag))

def readLines (b : Book) (header : Bool) : List (List Char) → Except Error (Book × Bool)
  | [] => .ok (b, header)
  | line :: rest =>
    if line == opening.toList || line == closing.toList then readLines b header rest
    else do
      let (b, isHeader) ← readLine b line
      readLines b (header || isHeader) rest

/-- The book that a block tells of. Only the header line has to be there. -/
def parse (text : String) : Except Error Book := do
  let (b, header) ← readLines (Book.ofBalance 0) false (Text.lines text.toList)
  if header then .ok b else .error (.protocol .noHeader)

end TradingDesk.StateBlock
