-- SUMMARY: An agent whose messages are laid out beforehand, seen from the desk.
import TradingDesk.Wire.Framing

/-!
# Agents

A scripted agent greets the desk and answers every state block with the next of its
messages. When it has none left it answers with an empty message if it is `idle`,
and otherwise stops sending.
-/

namespace TradingDesk.Wire

structure Agent where
  /-- What the desk has not read yet of what the agent sent. -/
  sent : Stream
  messages : List Stream
  idle : Bool
  /-- Whether the agent stops sending right after its last message. -/
  hangUp : Bool
  /-- Whether the agent has stopped sending. -/
  closed : Bool
  /-- The state blocks that the agent was sent. -/
  blocks : List String
  deriving DecidableEq, Repr

namespace Agent

/-- An agent that has just greeted. A greeting that is no whole line is its last word. -/
def greeting (hello : Stream) (messages : List Stream) (idle hangUp : Bool) : Agent where
  sent := hello
  messages := messages
  idle := idle
  hangUp := hangUp
  closed := hello.getLast? != some 10
  blocks := []

/-- The agent after a state block and its answer to it. -/
def receive (a : Agent) (block : String) : Agent :=
  let a := { a with blocks := a.blocks ++ [block] }
  if a.closed then a
  else match a.messages with
    | m :: rest =>
      { a with sent := a.sent ++ m, messages := rest, closed := a.hangUp && rest.isEmpty }
    | [] => if a.idle then { a with sent := a.sent ++ [10] } else { a with closed := true }

end Agent

end TradingDesk.Wire
