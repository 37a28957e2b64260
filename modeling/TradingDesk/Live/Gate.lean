-- SUMMARY: The quota of calls to a brokerage, and retrying queries within it.
import TradingDesk.Outcome

/-!
# Quota and retries

A brokerage takes only so many calls in a second. A call beyond the quota waits for the
next second, but only so long; if that has not begun by then, the call fails. Time comes in
from outside, as the readings of a clock: the gate looks at it when a call comes, and again
whenever a call that waits is woken. Queries that fail are retried with pauses that double,
up to a limit; how long these take is left to the clock as well.
-/

namespace TradingDesk

/-- Times are in nanoseconds. -/
structure Gate where
  perSecond : Nat
  /-- How long a call waits at most. -/
  patience : Nat
  /-- When the current second began. -/
  start : Nat
  /-- The calls let through in the current second. -/
  used : Nat
  /-- What the clock will show, reading by reading; then it moves on only while a call waits. -/
  readings : List Nat
  deriving DecidableEq, Repr

namespace Gate

/-- At least one call is let through in a second. -/
def ofQuota (perSecond patience : Nat) : Gate := ⟨max perSecond 1, patience, 0, 0, []⟩

/-- The quota is free again when a second has passed. -/
def turn (g : Gate) (now : Nat) : Gate :=
  if 1000000000 ≤ now - g.start then { g with start := now, used := 0 } else g

/-- Lets a call through at the first reading at which there is room. -/
def wait (g : Gate) (deadline : Nat) : List Nat → Outcome Gate Unit
  | [] =>
    let g := { g.turn deadline with readings := [] }
    if g.used < g.perSecond then .ok () { g with used := g.used + 1 }
    else .fail (.quotaFull g.perSecond g.patience) g
  | now :: later =>
    let g := { g.turn now with readings := later }
    if g.used < g.perSecond then .ok () { g with used := g.used + 1 }
    else if deadline ≤ now then .fail (.quotaFull g.perSecond g.patience) g
    else g.wait deadline later

def acquire (g : Gate) : Outcome Gate Unit :=
  let now := g.readings.headD g.start
  g.wait (now + g.patience) (now :: g.readings.tail)

/-- A second call comes at 0.9 s, waits, and is let through when it is woken after the second. -/
example : (acquire ⟨1, 1500000000, 0, 1, [900000000, 1000000001]⟩).state
    = ⟨1, 1500000000, 1000000001, 1, []⟩ := by decide

end Gate

/-- The pause before retry `n + 1`, in milliseconds. -/
def backoff (n : Nat) : Nat := 250 * Nat.pow 2 (min n 6)

/-- Repeats a query while it fails in a way that may pass, at most `retries` times
after the first. -/
def retryFrom (what : String) (query : σ → Outcome σ α) (attempt : Nat) : Nat → σ → Outcome σ α
  | 0, s => query s
  | retries + 1, s =>
    let o := query s
    match o.result with
    | .ok _ => o
    | .error e =>
      if e.isRetryable then
        (retryFrom what query (attempt + 1) retries o.state).after
          (o.notices ++ [.retrying what e (attempt + 1) (backoff attempt)])
      else o

/-- Makes at most `attempts` attempts, and at least one. -/
def retry (what : String) (attempts : Nat) (query : σ → Outcome σ α) (s : σ) : Outcome σ α :=
  retryFrom what query 0 (attempts - 1) s

end TradingDesk
