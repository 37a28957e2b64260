-- SUMMARY: Reading decimal integers within the bounds of a machine word.

/-!
# Integers in text

A number field is an optional sign and then one or more ASCII digits. Leading
zeros are allowed, separators are not. A field whose value does not fit the word
it is meant for is refused, so everything read from text is in range.
-/

namespace TradingDesk.Text

def digitValue (c : Char) : Nat := c.toNat - '0'.toNat

/-- The number that a string of digits denotes, most significant digit first. -/
def ofDigits (ds : List Char) : Nat :=
  ds.foldl (fun n c => 10 * n + digitValue c) 0

/-- One or more digits and nothing else. -/
def readDigits (s : List Char) : Option Nat :=
  if !s.isEmpty && s.all Char.isDigit then some (ofDigits s) else none

/-- A count of at most `limit`; a plus sign may stand before it, a minus sign may not. -/
def readCount (limit : Nat) (s : List Char) : Option Nat :=
  let ds := match s with
    | '+' :: r => r
    | r => r
  (readDigits ds).filter (· ≤ limit)

/-- The largest time, date or tick number. -/
def maxWord : Nat := 4294967295

def minSigned : Int := -9223372036854775808
def maxSigned : Int := 9223372036854775807

/-- A signed 64-bit amount. -/
def readSigned (s : List Char) : Option Int :=
  let n := match s with
    | '+' :: r => (readDigits r).map Int.ofNat
    | '-' :: r => (readDigits r).map fun n => -Int.ofNat n
    | r => (readDigits r).map Int.ofNat
  n.filter fun n => decide (minSigned ≤ n ∧ n ≤ maxSigned)

/-- A field that is exactly one character. -/
def readChar : List Char → Option Char
  | [c] => some c
  | _ => none

end TradingDesk.Text
