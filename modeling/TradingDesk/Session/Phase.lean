-- SUMMARY: Where a session stands within a tick.

namespace TradingDesk

/-- A tick goes from `idle` over `tickReady` and `sent` back to `idle`; the tick
after the close leads to `ended`, from where nothing leads on. -/
inductive Phase where
  | idle
  | tickReady
  | sent
  | ended
  deriving DecidableEq, Repr

def Phase.name : Phase → String
  | .idle => "Idle"
  | .tickReady => "TickReady"
  | .sent => "Sent"
  | .ended => "Ended"

/-- The calls that move a session on. -/
inductive Call where
  | advance
  | buildMsgOut
  | applyMsgIn
  deriving DecidableEq, Repr

namespace Call

def name : Call → String
  | advance => "advance"
  | buildMsgOut => "build_msg_out"
  | applyMsgIn => "apply_msg_in"

/-- The phase in which a call is accepted. -/
def phase : Call → Phase
  | advance => .idle
  | buildMsgOut => .tickReady
  | applyMsgIn => .sent

end Call

end TradingDesk
