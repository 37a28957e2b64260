-- SUMMARY: Times of day and the boundaries of ticks.
import TradingDesk.Error
import TradingDesk.Text.Fields
import TradingDesk.Text.Integer

/-!
# The clock

Times are seconds since midnight. Tick `n` ends `n` tick lengths after the open; a
boundary that does not fit a word stays at the largest one.
-/

namespace TradingDesk

namespace TimeOfDay

/-- At most two digits after optional blanks. -/
def readNumber (s : List Char) : Except ClockFault (Nat × List Char) :=
  let s := s.dropWhile Text.isBlank
  match s with
  | [] => .error .tooShort
  | c :: r =>
    if !c.isDigit then .error .invalid
    else match r with
      | [] => .ok (Text.digitValue c, [])
      | d :: r' =>
        if d.isDigit then .ok (10 * Text.digitValue c + Text.digitValue d, r')
        else .ok (Text.digitValue c, r)

/-- A number that is below `limit`. -/
def readBelow (limit : Nat) (s : List Char) : Except ClockFault (Nat × List Char) := do
  let (n, r) ← readNumber s
  if n < limit then .ok (n, r) else .error .outOfRange

def readColon : List Char → Except ClockFault (List Char)
  | [] => .error .tooShort
  | c :: r => if c == ':' then .ok r else .error .invalid

/-- Hours, minutes and seconds. The second 60 of a leap second counts as 59. -/
def readParts (s : List Char) : Except ClockFault Nat := do
  let (h, s) ← readBelow 24 s
  let s ← readColon s
  let (m, s) ← readBelow 60 s
  let s ← readColon s
  let (sec, s) ← readBelow 61 s
  if s.isEmpty then .ok (3600 * h + 60 * m + min sec 59) else .error .tooLong

def read (s : String) : Except Error Nat :=
  match readParts s.toList with
  | .ok n => .ok n
  | .error cause => .error (.config (.badClock s cause))

def twoDigits (n : Nat) : String :=
  if n < 10 then s!"0{n}" else toString n

def render (secs : Nat) : String :=
  s!"{twoDigits (secs / 3600)}:{twoDigits (secs / 60 % 60)}:{twoDigits (secs % 60)}"

end TimeOfDay

structure SessionClock where
  opening : Nat
  closing : Nat
  tickSecs : Nat
  deriving DecidableEq, Repr

/-- The end of a tick; tick 1 ends one tick length after the open. -/
def SessionClock.boundary (c : SessionClock) (tick : Nat) : Nat :=
  min Text.maxWord (c.opening + min Text.maxWord (tick * c.tickSecs))

/-- The tick that a broker is asked to advance to. -/
structure TickContext where
  tick : Nat
  /-- The end of the tick. -/
  boundary : Nat
  /-- The close of the session. -/
  closing : Nat
  deriving DecidableEq, Repr

namespace TickContext

def pastClose (c : TickContext) : Bool := decide (c.closing < c.boundary)

end TickContext

end TradingDesk
