-- SUMMARY: The number of operations allowed in one tick.
import TradingDesk.Error

namespace TradingDesk

structure Budget where
  limit : Nat
  used : Nat
  deriving DecidableEq, Repr

namespace Budget

def ofLimit (limit : Nat) : Budget := ⟨limit, 0⟩

def reset (b : Budget) : Budget := { b with used := 0 }

/-- Takes `n` operations out of the budget, or none of them. -/
def reserve (b : Budget) (n : Nat) : Except Error Budget :=
  if b.used + n ≤ b.limit then .ok { b with used := b.used + n }
  else .error (.budgetExhausted n (b.limit - b.used) b.limit)

end Budget

end TradingDesk
