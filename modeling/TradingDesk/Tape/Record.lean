-- SUMMARY: The records of recorded market data and their lines.
import TradingDesk.Binary64.Read
import TradingDesk.Error
import TradingDesk.Market.Detail
import TradingDesk.Market.Ladder
import TradingDesk.Text.Fields

/-!
# Tape records

A tape line is a time in seconds since midnight and a record. On a quote tape the
second field is `k` for the index, `e` for the terms of a warrant, `n` for the
deviation of a tracker, and otherwise the code of an instrument whose market data
follow. A trade tape has one kind of line: code, price and quantity of a trade.
-/

namespace TradingDesk

inductive QuoteRecord where
  | depth (code : String) (avgPrice traded : Int) (ladder : Ladder)
  | index (value : Binary64)
  | warrant (code : String) (terms : WarrantTerms)
  | nav (code : String) (deviation : Binary64)
  deriving DecidableEq, Repr

/-- One trade of the market, not of mine. -/
structure Trade where
  code : String
  print : Level
  deriving DecidableEq, Repr

structure Timed (α : Type) where
  time : Nat
  record : α
  deriving DecidableEq, Repr

/-- What can stand on a tape. -/
class TapeRecord (α : Type) where
  readLine : List Char → Except Error (Timed α)

namespace Tape

abbrev EntryReader (α : Type) : Type := List (List Char) → Except Error (α × List (List Char))

/-- The next field, whatever it is. -/
def entry (name : String) : EntryReader (List Char)
  | [] => .error (.protocol (.missingEntry name))
  | f :: fs => .ok (f, fs)

/-- The next field, as `read` understands it. -/
def next (name : String) (read : List Char → Option α) : EntryReader α := fun fs => do
  let (f, fs) ← entry name fs
  match read f with
  | some a => .ok (a, fs)
  | none => .error (.protocol (.badEntry name f))

def vector (name : String) (read : List Char → Option α) : (n : Nat) → EntryReader (Vector α n)
  | 0, fs => .ok (#v[], fs)
  | n + 1, fs => do
    let (v, fs) ← vector name read n fs
    let (a, fs) ← next name read fs
    .ok (v.push a, fs)

def code : EntryReader String := fun fs => do
  let (f, fs) ← entry "code" fs
  .ok (String.ofList f, fs)

def time : EntryReader Nat := next "time" (Text.readCount Text.maxWord)

def finish (a : α) : List (List Char) → Except Error α
  | [] => .ok a
  | _ => .error (.protocol .trailingFields)

def readIndex : EntryReader QuoteRecord := fun fs => do
  let (value, fs) ← next "index" Binary64.read fs
  .ok (.index value, fs)

def readWarrant : EntryReader QuoteRecord := fun fs => do
  let (code, fs) ← code fs
  let (callPut, fs) ← next "call/put" Text.readChar fs
  let (expiry, fs) ← next "expiry" (Text.readCount Text.maxWord) fs
  let (greeks, fs) ← vector "greek" Binary64.read 8 fs
  .ok (.warrant code ⟨callPut, expiry, greeks⟩, fs)

def readNav : EntryReader QuoteRecord := fun fs => do
  let (code, fs) ← code fs
  let (deviation, fs) ← next "deviation" Binary64.read fs
  .ok (.nav code deviation, fs)

def readDepth (code : String) : EntryReader QuoteRecord := fun fs => do
  let (avgPrice, fs) ← next "avg price" Text.readSigned fs
  let (traded, fs) ← next "traded qty" Text.readSigned fs
  let (prices, fs) ← vector "ladder price" Text.readSigned 20 fs
  let (qtys, fs) ← vector "ladder qty" Text.readSigned 20 fs
  .ok (.depth code avgPrice traded ⟨prices.zipWith Level.mk qtys⟩, fs)

/-- The record that a tag begins; a tag that is no letter of its own is a code. -/
def readTagged (tag : List Char) : EntryReader QuoteRecord :=
  match tag with
  | ['k'] => readIndex
  | ['e'] => readWarrant
  | ['n'] => readNav
  | code => readDepth (String.ofList code)

def readQuoteLine (line : List Char) : Except Error (Timed QuoteRecord) := do
  let (time, fs) ← time (Text.words line)
  let (tag, fs) ← entry "code" fs
  let (record, fs) ← readTagged tag fs
  finish ⟨time, record⟩ fs

def readTradeLine (line : List Char) : Except Error (Timed Trade) := do
  let (time, fs) ← time (Text.words line)
  let (code, fs) ← code fs
  let (price, fs) ← next "price" Text.readSigned fs
  let (qty, fs) ← next "qty" Text.readSigned fs
  let trade ← finish (⟨time, ⟨code, ⟨price, qty⟩⟩⟩ : Timed Trade) fs
  if price ≤ 0 ∨ qty ≤ 0 then .error (.protocol (.nonPositiveTrade price qty)) else .ok trade

/-- The line of a depth record. -/
def depthLine (time : Nat) (code : String) (avgPrice traded : Int) (ladder : Ladder) : String :=
  " ".intercalate
    ([toString time, code, toString avgPrice, toString traded]
      ++ ladder.levels.toList.map (fun l => toString l.price)
      ++ ladder.levels.toList.map (fun l => toString l.qty))

end Tape

instance : TapeRecord QuoteRecord := ⟨Tape.readQuoteLine⟩

instance : TapeRecord Trade := ⟨Tape.readTradeLine⟩

end TradingDesk
