-- SUMMARY: Reading double precision numbers, rounded to nearest.
import TradingDesk.Binary64.Basic
import TradingDesk.Text.Integer

/-!
# Reading numbers

A number is an optional sign, digits with an optional point among or next to
them, and an optional exponent; `inf`, `infinity` and `nan` are read in any case.
The decimal value is taken exactly and rounded once.
-/

namespace TradingDesk.Binary64

/-- A digit string with a point `places` digits before its end and a power of ten. -/
def ofDecimal (negative : Bool) (digits : List Char) (exponent : Int) : Binary64 :=
  let n := Text.ofDigits digits
  let point := (digits.dropWhile (· == '0')).length + exponent
  if n = 0 ∨ point < -400 then .finite negative ⟨0, finiteCount_pos⟩
  else if 400 < point then .infinite negative
  else ofRatio negative (n * Nat.pow 10 exponent.toNat) (Nat.pow 10 (-exponent).toNat)

/-- An optional sign and one or more digits. -/
def readExponent : List Char → Option Int
  | '+' :: r => (Text.readDigits r).map Int.ofNat
  | '-' :: r => (Text.readDigits r).map fun n => -Int.ofNat n
  | r => (Text.readDigits r).map Int.ofNat

def readUnsigned (negative : Bool) (s : List Char) : Option Binary64 :=
  let whole := s.takeWhile Char.isDigit
  let afterWhole := s.dropWhile Char.isDigit
  let (fraction, rest) := match afterWhole with
    | '.' :: r => (r.takeWhile Char.isDigit, r.dropWhile Char.isDigit)
    | r => ([], r)
  if whole.isEmpty && fraction.isEmpty then
    match s.map Char.toLower with
    | ['i', 'n', 'f'] | ['i', 'n', 'f', 'i', 'n', 'i', 't', 'y'] => some (.infinite negative)
    | ['n', 'a', 'n'] => some .nan
    | _ => none
  else
    let value (e : Int) := ofDecimal negative (whole ++ fraction) (e - fraction.length)
    match rest with
    | [] => some (value 0)
    | c :: r => if c == 'e' || c == 'E' then (readExponent r).map value else none

def read : List Char → Option Binary64
  | '+' :: r => readUnsigned false r
  | '-' :: r => readUnsigned true r
  | r => readUnsigned false r

end TradingDesk.Binary64
