-- SUMMARY: Spans of time as text, in the greatest unit that they reach.

/-!
# Spans of time

A span is a number of nanoseconds. It is written in the greatest unit that it reaches, with
as many places after the point as it needs.
-/

namespace TradingDesk.Text

/-- A number in a unit that is `10 ^ places` of it. -/
def inUnit (places n : Nat) (unit : String) : String :=
  let size := Nat.pow 10 places
  let digits := Nat.toDigits 10 (n % size)
  let shown := List.replicate (places - digits.length) '0' ++ digits
  let kept := (shown.reverse.dropWhile (· == '0')).reverse
  let fraction := if kept.isEmpty then "" else "." ++ String.ofList kept
  s!"{n / size}{fraction}{unit}"

def span (nanoseconds : Nat) : String :=
  if 1000000000 ≤ nanoseconds then inUnit 9 nanoseconds "s"
  else if 1000000 ≤ nanoseconds then inUnit 6 nanoseconds "ms"
  else if 1000 ≤ nanoseconds then inUnit 3 nanoseconds "µs"
  else inUnit 0 nanoseconds "ns"

example : [0, 1020, 250000000, 1050000000].map span = ["0ns", "1.02µs", "250ms", "1.05s"] := by
  decide +kernel

end TradingDesk.Text
