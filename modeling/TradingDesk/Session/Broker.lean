-- SUMMARY: What a session needs of a broker, and how a broker carries out a message.
import TradingDesk.Book.Allot
import TradingDesk.Outcome
import TradingDesk.Request.Message
import TradingDesk.Session.Budget
import TradingDesk.Session.Clock

/-!
# Brokers

A broker keeps a book, advances it from tick to tick and carries out operations,
in a simulation or at a brokerage. `Broker.apply` is the same for both: requests
are resolved one after another, each against the book that the one before left.
Processing ends early when fresh market data has come in or the budget is used up;
neither is an error.
-/

namespace TradingDesk

inductive TickStatus where
  | goesOn
  | sessionEnd
  deriving DecidableEq, Repr

class Broker (β : Type) where
  book : β → Book
  /-- Whether fresh market data has come in since this was last asked. -/
  takeInterrupt : β → Bool × β
  /-- Applies all that happened before the end of the tick. -/
  advance : β → TickContext → Outcome β TickStatus
  /-- Takes operations out of the tick's budget. -/
  reserve : β → Nat → Outcome β Unit
  execute : β → Operation → Outcome β Unit

/-- What became of the requests of one message. -/
structure Summary where
  requests : Nat
  /-- Requests whose operations were all carried out. -/
  executed : Nat
  /-- Requests that resolved to nothing or that the brokerage turned down. -/
  dropped : Nat
  /-- Requests not attempted for want of budget. -/
  throttled : Nat
  interrupted : Bool
  deriving DecidableEq, Repr

namespace Broker

variable {β : Type} [Broker β]

/-- How the operations of one request ended. -/
inductive Ending where
  | done
  | throttled
  | failed
  deriving DecidableEq, Repr

/-- Carries out the operations of a request up to the first one that fails. -/
def executeAll (request : Request) (b : β) : List Operation → Ending × β × List Notice
  | [] => (.done, b, [])
  | op :: ops =>
    let o := execute b op
    match o.result with
    | .ok () =>
      let (ending, b, notices) := executeAll request o.state ops
      (ending, b, o.notices ++ notices)
    | .error e =>
      if e.isRetryable then (.throttled, o.state, o.notices ++ [.stopped request op e])
      else (.failed, o.state, o.notices ++ [.failed request op e])

/-- A summary, the broker and the notices after some of the requests. -/
structure Progress (β : Type) where
  summary : Summary
  broker : β
  notices : List Notice

/-- Adds the requests of a message to the account of those before them. -/
def applyAll (s : Summary) (b : β) : List Request → Progress β
  | [] => ⟨s, b, []⟩
  | r :: rs =>
    let resolution := (book b).allot r
    let operations := resolution.allotment.operations
    let refusals := resolution.notices
    let left := (r :: rs).length
    if operations.isEmpty then
      let p := applyAll { s with dropped := s.dropped + 1 } b rs
      { p with notices := refusals ++ p.notices }
    else
      let (interrupted, b) := takeInterrupt b
      if interrupted then ⟨{ s with interrupted := true }, b, refusals⟩
      else
        let o := if resolution.allotment.exempt then .ok () b else reserve b operations.length
        match o.result with
        | .error e => ⟨{ s with throttled := left }, o.state, refusals ++ o.notices ++ [.notExecuted r e]⟩
        | .ok () =>
          let (ending, b, notices) := executeAll r o.state operations
          let before := refusals ++ o.notices ++ notices
          match ending with
          | .throttled => ⟨{ s with throttled := left }, b, before⟩
          | .done =>
            let p := applyAll { s with executed := s.executed + 1 } b rs
            { p with notices := before ++ p.notices }
          | .failed =>
            let p := applyAll { s with dropped := s.dropped + 1 } b rs
            { p with notices := before ++ p.notices }

/-- Carries out an agent's message. -/
def apply (b : β) (text : String) : Outcome β Summary :=
  let message := Message.read text
  let p := applyAll ⟨message.requests.length, 0, 0, 0, false⟩ b message.requests
  ⟨.ok p.summary, p.broker, message.notices ++ p.notices⟩

end Broker

end TradingDesk
