-- SUMMARY: The agent's end of a connection.
import TradingDesk.Book.Valuation
import TradingDesk.Request.Message
import TradingDesk.StateBlock.Parse
import TradingDesk.Wire.Framing

/-!
# The client

An agent presents the secret, then receives state blocks until the stream ends or
cannot be read, and answers each block with its requests.
-/

namespace TradingDesk.Wire

/-- All that a client received up to the end of the stream, or up to an error. -/
structure Reception (α : Type) where
  items : List α
  failure : Option Error

/-- Receives blocks as long as the stream lasts and each one is understood. Every
block takes at least one byte, so the length of the stream is enough fuel. -/
def receiveAll (understand : String → Except Error α) : (fuel : Nat) → Stream → Reception α
  | 0, _ => ⟨[], none⟩
  | fuel + 1, s =>
    let block := readBlock s
    match block.result with
    | .error e => ⟨[], some e⟩
    | .ok none => ⟨[], none⟩
    | .ok (some text) =>
      match understand text with
      | .error e => ⟨[], some e⟩
      | .ok a =>
        let later := receiveAll understand fuel block.rest
        { later with items := a :: later.items }

def receive (understand : String → Except Error α) (s : Stream) : Reception α :=
  receiveAll understand (s.length + 1) s

/-- What a client sends that answers `blocks` state blocks with the same requests. -/
def clientText (secret : String) (requests : List Request) (blocks : Nat) : String :=
  secret ++ "\n" ++ String.join (List.replicate blocks (Message.render requests))

end TradingDesk.Wire
