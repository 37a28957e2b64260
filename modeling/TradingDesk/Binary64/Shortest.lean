-- SUMMARY: The fewest decimal digits that read back to a given magnitude.
import TradingDesk.Binary64.Basic

/-!
# Shortest digits

A magnitude is written with the fewest significant digits that still read back
to it; of two such numerals the nearer one is taken. All comparisons are between
exact whole numbers, in units of half the least positive magnitude.
-/

namespace TradingDesk.Binary64

/-- Which of two equally near numerals is written. -/
inductive Tie where
  | away
  | even
  deriving DecidableEq, Repr

/-- The decimal numeral `digits * 10 ^ exponent`. -/
structure Numeral where
  digits : Nat
  exponent : Int
  deriving DecidableEq, Repr

/-- What reads back to a magnitude: all from `low` to `high`, the ends included
when `closed`. -/
structure Neighbourhood where
  low : Nat
  value : Nat
  high : Nat
  closed : Bool

/-- The reals that round to a magnitude reach half way to the magnitudes next to
it, and the half way points belong to the one with the even significand. -/
def neighbourhood (rank : Nat) : Neighbourhood where
  low := units (rank - 1) + units rank
  value := 2 * units rank
  high := units rank + units (rank + 1)
  closed := rank % 2 == 0

/-- How many halves of the least positive magnitude make one. -/
def halfUnits : Nat := Nat.pow 2 1075

def digitCount (n : Nat) : Nat := (Nat.toDigits 10 n).length

/-- The number of digits before the decimal point; zeros right after the point count below zero. -/
def pointPlace (value : Nat) : Int :=
  if halfUnits ≤ value then digitCount (value / halfUnits)
  else 1 - (digitCount ((halfUnits - 1) / value) : Int)

/-- The better neighbour of the value among the multiples of `10 ^ exponent`, if
one of the two reads back to it. -/
def onGrid (tie : Tie) (n : Neighbourhood) (exponent : Int) : Option Nat :=
  let step := halfUnits * Nat.pow 10 exponent.toNat
  let scale := Nat.pow 10 (-exponent).toNat
  let below := n.value * scale / step
  let inside (d : Nat) : Bool :=
    if n.closed then n.low * scale ≤ d * step && d * step ≤ n.high * scale
    else n.low * scale < d * step && d * step < n.high * scale
  let toBelow := n.value * scale - below * step
  let toAbove := (below + 1) * step - n.value * scale
  let nearer :=
    if toBelow < toAbove then below
    else if toAbove < toBelow then below + 1
    else match tie with
      | .away => below + 1
      | .even => below + below % 2
  match inside below, inside (below + 1) with
  | true, true => some nearer
  | true, false => some below
  | false, true => some (below + 1)
  | false, false => none

/-- Seventeen digits always read back, so the search never leaves the list. -/
def shortest (tie : Tie) (rank : Nat) : Numeral :=
  let n := neighbourhood rank
  let point := pointPlace n.value
  let hit := (List.range 17).findSome? fun i =>
    let exponent := point - (i + 1 : Nat)
    (onGrid tie n exponent).map fun d => Numeral.mk d exponent
  match hit with
  | some r => if r.digits % 10 == 0 then ⟨r.digits / 10, r.exponent + 1⟩ else r
  | none => ⟨n.value * Nat.pow 5 1075, -1075⟩

end TradingDesk.Binary64
