-- SUMMARY: The message that carries an agent's requests for one tick.
import TradingDesk.Notice
import TradingDesk.Request.Read

/-!
# Request messages

A message is one request a line. Blank lines are passed over and bad lines are
reported and dropped, so reading a message cannot fail.
-/

namespace TradingDesk

structure Message where
  requests : List Request
  notices : List Notice
  deriving DecidableEq, Repr

namespace Message

def ofLines : List (List Char) → Message
  | [] => ⟨[], []⟩
  | line :: rest =>
    let m := ofLines rest
    match Request.read line with
    | .ok r => { m with requests := r :: m.requests }
    | .error e => { m with notices := .requestLineDropped e :: m.notices }

def read (text : String) : Message :=
  ofLines (Text.lines text.toList)

/-- The text that carries requests over a connection: a line each, and an empty
line as the end. -/
def render (requests : List Request) : String :=
  String.join (requests.map fun r => r.render ++ "\n") ++ "\n"

end Message

end TradingDesk
