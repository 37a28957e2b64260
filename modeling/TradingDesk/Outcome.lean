-- SUMMARY: What a call on a stateful part of the desk leaves behind.
import TradingDesk.Notice

/-!
# Outcomes

A call may fail and still have changed what it was made on: a tape has moved on, a
budget is fresh. So an `Outcome` has its state beside its result, and the notices
of the call in order.
-/

namespace TradingDesk

structure Outcome (σ α : Type) where
  result : Except Error α
  state : σ
  notices : List Notice

namespace Outcome

def ok (a : α) (state : σ) : Outcome σ α := ⟨.ok a, state, []⟩

def fail (e : Error) (state : σ) : Outcome σ α := ⟨.error e, state, []⟩

/-- Goes on from the state of a success; a failure ends it there. -/
def bind (o : Outcome σ α) (f : α → σ → Outcome σ β) : Outcome σ β :=
  match o.result with
  | .error e => ⟨.error e, o.state, o.notices⟩
  | .ok a =>
    let next := f a o.state
    { next with notices := o.notices ++ next.notices }

/-- The outcome as one on a larger state. -/
def lift (f : σ → τ) (o : Outcome σ α) : Outcome τ α := ⟨o.result, f o.state, o.notices⟩

/-- The outcome with notices that came before it. -/
def after (notices : List Notice) (o : Outcome σ α) : Outcome σ α :=
  { o with notices := notices ++ o.notices }

end Outcome

end TradingDesk
