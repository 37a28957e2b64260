-- SUMMARY: Writing double precision numbers, positionally or with an exponent.
import TradingDesk.Binary64.Shortest

/-!
# Number text

State blocks and the session report write the same shortest digits in two
layouts. A `Layout` records all that the two decide differently.
-/

namespace TradingDesk.Binary64

structure Layout where
  tie : Tie
  /-- Whether a whole number is written with `.0` at its end. -/
  pointAlways : Bool
  /-- The places of the point for which no exponent is written; `none` for all of them. -/
  positional : Option (Int × Int)

/-- State blocks never use an exponent and drop the point of a whole number. -/
def Layout.block : Layout := ⟨.away, false, none⟩

/-- The report writes at least one decimal, and an exponent below `1e-5` and from `1e16` on. -/
def Layout.report : Layout := ⟨.even, true, some (-4, 16)⟩

def writePositional (layout : Layout) (ds : List Char) (point : Int) : List Char :=
  if (ds.length : Int) ≤ point then
    ds ++ List.replicate (point.toNat - ds.length) '0' ++ (if layout.pointAlways then ['.', '0'] else [])
  else if 0 < point then
    ds.take point.toNat ++ '.' :: ds.drop point.toNat
  else
    '0' :: '.' :: List.replicate (-point).toNat '0' ++ ds

def writeScientific (ds : List Char) (point : Int) : List Char :=
  let mantissa := match ds with
    | [] => []
    | [d] => [d]
    | d :: r => d :: '.' :: r
  mantissa ++ 'e' :: (toString (point - 1)).toList

def writeMagnitude (layout : Layout) (rank : Nat) : List Char :=
  if rank = 0 then writePositional layout ['0'] 1
  else
    let numeral := shortest layout.tie rank
    let ds := Nat.toDigits 10 numeral.digits
    let point := (ds.length : Int) + numeral.exponent
    match layout.positional with
    | none => writePositional layout ds point
    | some (least, most) =>
      if least ≤ point ∧ point ≤ most then writePositional layout ds point
      else writeScientific ds point

def write (layout : Layout) : Binary64 → String
  | .nan => "NaN"
  | .infinite false => "inf"
  | .infinite true => "-inf"
  | .finite false rank => String.ofList (writeMagnitude layout rank)
  | .finite true rank => String.ofList ('-' :: writeMagnitude layout rank)

instance : ToString Binary64 := ⟨write .block⟩

end TradingDesk.Binary64
