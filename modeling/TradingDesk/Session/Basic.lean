-- SUMMARY: A session: one broker, tick after tick, in a fixed order of calls.
import TradingDesk.Session.Broker
import TradingDesk.StateBlock.Render

/-!
# Sessions

Every tick of a session is advanced, told to the agent and answered by it, in this
order. A call out of turn fails and changes nothing. A tick whose tapes cannot be
read is lost, and the session goes on with the next one.
-/

namespace TradingDesk

structure Session (β : Type) where
  broker : β
  clock : SessionClock
  phase : Phase
  /-- The number of ticks begun. -/
  tick : Nat

namespace Session

variable {β : Type} [Broker β]

def start (broker : β) (clock : SessionClock) : Session β := ⟨broker, clock, .idle, 0⟩

def isEnded (s : Session β) : Bool := s.phase == .ended

/-- Why a call is out of turn, if it is. -/
def outOfTurn (s : Session β) (call : Call) : Option Error :=
  if s.phase = .ended then some (.afterEnd call)
  else if s.phase = call.phase then none
  else some (.wrongPhase call s.phase)

/-- The tick that the next advance leads to. -/
def nextTick (s : Session β) : TickContext :=
  ⟨s.tick + 1, s.clock.boundary (s.tick + 1), s.clock.closing⟩

def advance (s : Session β) : Outcome (Session β) TickStatus :=
  match s.outOfTurn .advance with
  | some e => .fail e s
  | none =>
    let context := s.nextTick
    let o := Broker.advance s.broker context
    let s := { s with broker := o.state }
    let next : Session β := match o.result with
      | .ok .goesOn => { s with tick := context.tick, phase := .tickReady }
      | .ok .sessionEnd => { s with tick := context.tick, phase := .ended }
      | .error e => if e.kind = .replay then { s with tick := context.tick } else s
    ⟨o.result, next, o.notices⟩

/-- The state block of the tick. -/
def buildMsgOut (s : Session β) : Outcome (Session β) String :=
  match s.outOfTurn .buildMsgOut with
  | some e => .fail e s
  | none => .ok (StateBlock.render (Broker.book s.broker)) { s with phase := .sent }

/-- Carries out the agent's answer to the state block. -/
def applyMsgIn (s : Session β) (text : String) : Outcome (Session β) Summary :=
  match s.outOfTurn .applyMsgIn with
  | some e => .fail e s
  | none => (Broker.apply s.broker text).lift fun broker => { s with broker, phase := .idle }

end Session

end TradingDesk
