-- SUMMARY: Double precision numbers as plain data, and rounding of exact quotients to them.

/-!
# Double precision numbers

The index, the deviations from net asset value and the greeks are double
precision numbers that the desk stores and repeats, and a profit rate is one
division. So a number is kept as data and not as a machine float: the finite
magnitudes are counted upward from zero, and a finite number is a sign and its
magnitude's place in that count. Each value has one representation, apart from
the two zeros, which the format tells apart.
-/

namespace TradingDesk

/-- Every binary exponent has `2 ^ 52` significands. -/
abbrev Binary64.binadeSize : Nat := Nat.pow 2 52

/-- The number of finite magnitudes. -/
abbrev Binary64.finiteCount : Nat := 2047 * Binary64.binadeSize

inductive Binary64 where
  | nan
  | infinite (negative : Bool)
  | finite (negative : Bool) (rank : Fin Binary64.finiteCount)
  deriving DecidableEq, Repr

namespace Binary64

theorem finiteCount_pos : 0 < finiteCount := by decide

instance : Inhabited Binary64 := ⟨.finite false ⟨0, finiteCount_pos⟩⟩

def zero : Binary64 := .finite false ⟨0, finiteCount_pos⟩

/-- The exponent of the last place of a magnitude, counted from the least one, `-1074`. -/
def lastPlace (rank : Nat) : Nat := rank / binadeSize - 1

def significand (rank : Nat) : Nat :=
  if rank < 2 * binadeSize then rank else binadeSize + rank % binadeSize

/-- A magnitude as a multiple of the least positive one, `2 ^ (-1074)`. -/
def units (rank : Nat) : Nat := significand rank * Nat.pow 2 (lastPlace rank)

/-- The nearest whole number to `num / den`; a half goes to the even neighbour. -/
def roundHalfEven (num den : Nat) : Nat :=
  let q := num / den
  let twice := 2 * (num % den)
  if twice < den || (twice == den && q % 2 == 0) then q else q + 1

/-- The place of `num / den` among the magnitudes, rounded to nearest. Rounding a
significand up out of its binade leads to the first magnitude of the next one. -/
def rankOfRatio (num den : Nat) : Nat :=
  let scaled := num * Nat.pow 2 1074
  let place := (scaled / den).log2 - 52
  place * binadeSize + roundHalfEven scaled (den * Nat.pow 2 place)

def ofRatio (negative : Bool) (num den : Nat) : Binary64 :=
  if h : rankOfRatio num den < finiteCount then .finite negative ⟨rankOfRatio num den, h⟩
  else .infinite negative

def ofInt (n : Int) : Binary64 := ofRatio (decide (n < 0)) n.natAbs 1

/-- The quotient of two amounts, each made a double first; `d` is positive. -/
def quotient (n d : Int) : Binary64 :=
  match ofInt n, ofInt d with
  | .finite a x, .finite b y => ofRatio (a != b) (units x) (units y)
  | _, _ => .nan

end Binary64

end TradingDesk
