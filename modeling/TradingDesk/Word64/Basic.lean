-- SUMMARY: Words of 64 bits, and what becomes of a result that is none.

/-!
# Words

The desk keeps prices, quantities and cash in signed words of 64 bits. The rest of this
library takes them for integers without a bound and assumes that no result leaves the range
of a word: what it says of the desk is said of the runs on which none does. What happens to
a result out of range depends on how the desk was built: it is reduced to its last 64 bits,
or the desk stops.

The modules beside this one do with words what the desk does to the price grid, to ladders and
to the book, one operation after the other. The proofs about them say how much room it takes
for the result to be that of the integers. Fills, the statistics and valuations are not among
them, nor are ids of orders, numbers of ticks and counts of requests, which go up by one.
-/

namespace TradingDesk

/-- Whether an amount fits the word that the desk keeps it in. -/
def FitsWord (n : Int) : Prop := -9223372036854775808 ≤ n ∧ n ≤ 9223372036854775807

instance (n : Int) : Decidable (FitsWord n) := inferInstanceAs (Decidable (_ ∧ _))

/-- What becomes of a result out of range. -/
inductive Overflow where
  /-- It is reduced to its last 64 bits. -/
  | wraps
  /-- The desk stops. -/
  | stops
  deriving DecidableEq, Repr

/-- The word for a result, if there is one. -/
def Overflow.word : Overflow → Int → Option Int
  | wraps, n => some (Int.bmod n 18446744073709551616)
  | stops, n => if FitsWord n then some n else none

end TradingDesk
