-- SUMMARY: Running a session against an agent over a connection.
import TradingDesk.Session.Basic
import TradingDesk.Wire.Agent

/-!
# The server

Agents connect one after another until one presents the secret; the session is run
with that one to its end. Every tick the agent is sent a state block and its next
message is applied. A tick lost to its tapes is passed over without a word.
-/

namespace TradingDesk.Wire

/-- The line without the line end. -/
def stripLineEnd (s : String) : String :=
  String.ofList ((s.toList.reverse.dropWhile fun c => c == '\r' || c == '\n').reverse)

/-- Whether the first line of an agent is the secret. -/
def handshake (secret : String) (a : Agent) : Except Notice Agent :=
  let line := readLine a.sent
  match line.result with
  | .error e => .error (.handshakeFailed e)
  | .ok s => if stripLineEnd s == secret then .ok { a with sent := line.rest } else .error .wrongSecret

/-- How a session over a connection ended: the session or the error, the agent, and
the notices. -/
structure Served (β : Type) where
  result : Except Error (Session β)
  agent : Agent
  notices : List Notice

variable {β : Type} [Broker β]

/-- The tick's exchange with the agent. -/
def exchange (s : Session β) (a : Agent) : Served β :=
  let out := s.buildMsgOut
  match out.result with
  | .error e => ⟨.error e, a, out.notices⟩
  | .ok block =>
    let a := a.receive block
    let message := readMessage a.sent
    let a := { a with sent := message.rest }
    match message.result with
    | .error e => ⟨.error e, a, []⟩
    | .ok none => ⟨.error (.protocol (.hungUp out.state.tick)), a, []⟩
    | .ok (some text) =>
      let applied := out.state.applyMsgIn text
      match applied.result with
      | .error e => ⟨.error e, a, applied.notices⟩
      | .ok _ => ⟨.ok applied.state, a, applied.notices⟩

/-- At most `fuel` ticks of a session. -/
def run : (fuel : Nat) → Session β → Agent → Served β
  | 0, s, a => ⟨.ok s, a, []⟩
  | fuel + 1, s, a =>
    let o := s.advance
    match o.result with
    | .ok .sessionEnd => ⟨.ok o.state, a, o.notices⟩
    | .ok .goesOn =>
      let served := exchange o.state a
      match served.result with
      | .error _ => { served with notices := o.notices ++ served.notices }
      | .ok s =>
        let later := run fuel s served.agent
        { later with notices := o.notices ++ served.notices ++ later.notices }
    | .error e =>
      if e.kind = .replay then
        let later := run fuel o.state a
        { later with notices := o.notices ++ [.tickSkipped o.state.tick e] ++ later.notices }
      else ⟨.error e, a, o.notices⟩

/-- The number of ticks after which a session whose clock moves is past its close. -/
def ticksToClose (c : SessionClock) : Nat := c.closing + 2

/-- A session and the agents that tried to take part in it. -/
structure Sitting (β : Type) where
  /-- How the session ended; `none` if no agent presented the secret. -/
  result : Option (Except Error (Session β))
  agents : List Agent
  notices : List Notice

def serve (secret : String) (s : Session β) : List Agent → Sitting β
  | [] => ⟨none, [], []⟩
  | a :: rest =>
    match handshake secret a with
    | .error why =>
      let later := serve secret s rest
      { later with agents := a :: later.agents, notices := why :: later.notices }
    | .ok a =>
      let served := run (ticksToClose s.clock) s a
      ⟨some served.result, served.agent :: rest, served.notices⟩

end TradingDesk.Wire
