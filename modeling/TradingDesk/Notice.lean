-- SUMMARY: What the desk reports while it goes on, and the wording of it.
import TradingDesk.Error
import TradingDesk.Request.Basic

/-!
# Notices

A notice tells of something that was dropped, skipped or found wrong without
stopping the desk. Functions hand their notices back in the order of the events.
-/

namespace TradingDesk

inductive Severity where
  | warning
  | error
  deriving DecidableEq, Repr

/-- Why a request resolved to nothing. -/
inductive Refusal where
  | unknownInstrument (request : Request)
  | invalidTick (side : Side) (code : String) (price : Int)
  | nothingToPlace (side : Side) (code : String) (price requested most : Int)
  | nothingToCancel (side : Side) (code : String) (price : Int)
  | nothingToModify (side : Side) (code : String) (price : Int)
  | priceUnchanged (side : Side) (code : String) (price : Int)
  | nothingToReplace (side : Side) (code : String) (price newPrice : Int)
  | noBid (code : String)
  deriving DecidableEq, Repr

def Refusal.text : Refusal → String
  | unknownInstrument r => s!"unknown instrument {r.code} in request '{r}'"
  | invalidTick side code price => s!"{side} {code}: invalid tick price {price}"
  | nothingToPlace side code price requested most =>
    s!"{side} {code} @{price}: nothing to place (requested {requested}, max {most})"
  | nothingToCancel side code price => s!"cancel {side} {code} @{price}: no open order"
  | nothingToModify side code price => s!"modify {side} {code} @{price}: no open order"
  | priceUnchanged side code price => s!"modify {side} {code} @{price}: price unchanged"
  | nothingToReplace side code price newPrice =>
    s!"modify {side} {code} @{price} -> {newPrice}: nothing to re-place"
  | noBid code => s!"sell-all {code}: no bid to sell into"

/-- An amount that should never be below zero and is. -/
inductive Deficit where
  | cash (balance : Int) (code : String)
  | holdings (idle : Int) (code : String)
  | order (key : Key) (code : String) (qty escrow : Int)
  deriving DecidableEq, Repr

def Deficit.text : Deficit → String
  | cash balance code => s!"🚨 negative cash balance {balance} after operation on {code}"
  | holdings idle code => s!"🚨 negative idle holdings {idle} on {code}"
  | order key code qty escrow =>
    s!"🚨 order {key} on {code} went negative: qty={qty} escrow={escrow}"

inductive Notice where
  | requestLineDropped (cause : Error)
  | refused (why : Refusal)
  | deficit (what : Deficit)
  | overfill (filled openQty : Int) (code : String) (key : Key)
  | notExecuted (request : Request) (cause : Error)
  | stopped (request : Request) (operation : Operation) (cause : Error)
  | failed (request : Request) (operation : Operation) (cause : Error)
  | lineNotText (tape : String) (line : Nat)
  | lineSkipped (tape : String) (line : Nat) (cause : Error)
  | tapesExhausted (tick : Nat)
  | eventNotApplied (cause : Error)
  | retrying (query : String) (cause : Error) (retry milliseconds : Nat)
  | balanceQueryFailed (cause : Error)
  | tickSkipped (tick : Nat) (cause : Error)
  | wrongSecret
  | handshakeFailed (cause : Error)
  deriving DecidableEq, Repr

namespace Notice

def severity : Notice → Severity
  | deficit _ => .error
  | overfill .. => .error
  | balanceQueryFailed _ => .error
  | tickSkipped .. => .error
  | _ => .warning

def text : Notice → String
  | requestLineDropped cause => s!"dropping request line: {cause}"
  | refused why => why.text
  | deficit what => what.text
  | overfill filled openQty code key =>
    s!"fill {filled} exceeds open qty {openQty} on {code} {key}"
  | notExecuted request cause => s!"'{request}' not executed: {cause}"
  | stopped request operation cause => s!"'{request}' stopped at {operation}: {cause}"
  | failed request operation cause => s!"'{request}' failed at {operation}: {cause}"
  | lineNotText tape line => s!"{tape} line {line} skipped: not valid UTF-8"
  | lineSkipped tape line cause => s!"{tape} line {line} skipped: {cause}"
  | tapesExhausted tick => s!"replay tapes exhausted at tick {tick}, before the session close"
  | eventNotApplied cause => s!"event not applied: {cause}"
  | retrying query cause retry milliseconds =>
    s!"{query} failed ({cause}), retry {retry} in {Text.span (milliseconds * 1000000)}"
  | balanceQueryFailed cause => s!"🚨 balance query failed at start-up: {cause}"
  | tickSkipped tick cause => s!"tick {tick} skipped, replay failed: {cause.text}"
  | wrongSecret => "⛔ agent sent a wrong secret, closing"
  | handshakeFailed cause => s!"⛔ handshake failed: {cause}"

instance : ToString Notice where
  toString n := match n.severity with
    | .warning => s!"WARN {n.text}"
    | .error => s!"ERROR {n.text}"

end Notice

end TradingDesk
