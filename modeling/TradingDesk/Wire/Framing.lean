-- SUMMARY: Cutting a byte stream into lines, messages and state blocks.
import TradingDesk.Error
import TradingDesk.StateBlock.Render
import TradingDesk.Text.Fields

/-!
# Framing

Agent and desk exchange lines of text over a byte stream. An agent's message ends
with a blank line, a state block with its closing line. Reading takes whole lines
and leaves the rest of the stream; a line that is not text is an error. The end of
the stream inside a message ends the message; inside a block it is an error.
-/

namespace TradingDesk.Wire

abbrev Stream : Type := List UInt8

/-- The first line with its line feed, and the rest. -/
def takeLine : Stream → Stream × Stream
  | [] => ([], [])
  | b :: s =>
    if b == 10 then ([b], s)
    else
      let (line, rest) := takeLine s
      (b :: line, rest)

theorem takeLine_append (s : Stream) : (takeLine s).1 ++ (takeLine s).2 = s := by
  induction s with
  | nil => rfl
  | cons b s ih =>
    unfold takeLine
    split
    · rfl
    · simp [ih]

theorem length_takeLine_lt {s : Stream} (h : s ≠ []) : (takeLine s).2.length < s.length := by
  cases s with
  | nil => exact absurd rfl h
  | cons b s =>
    have hs := congrArg List.length (takeLine_append s)
    unfold takeLine
    split
    · simp
    · simp only [List.length_append] at hs
      simp only [List.length_cons]
      omega

def decode (line : Stream) : Except Error String :=
  match String.fromUTF8? ⟨line.toArray⟩ with
  | some s => .ok s
  | none => .error (.io .notUtf8)

/-- What reading from a stream gave, and what is left of the stream. -/
structure Received (α : Type) where
  result : Except Error α
  rest : Stream

/-- The next line, or an empty text at the end of the stream. -/
def readLine (s : Stream) : Received String := ⟨decode (takeLine s).1, (takeLine s).2⟩

/-- The next message of an agent after the lines in `before`; `none` if the stream
ends first. The blank line at its end is not part of it. -/
def readMessageFrom (before : String) (s : Stream) : Received (Option String) :=
  if _h : s = [] then ⟨.ok none, s⟩
  else
    match decode (takeLine s).1 with
    | .error e => ⟨.error e, (takeLine s).2⟩
    | .ok line =>
      if (Text.trim line.toList).isEmpty then ⟨.ok (some before), (takeLine s).2⟩
      else readMessageFrom (before ++ line) (takeLine s).2
termination_by s.length
decreasing_by exact length_takeLine_lt (by assumption)

def readMessage (s : Stream) : Received (Option String) := readMessageFrom "" s

/-- The rest of a block after the lines in `before`. -/
def readBlockFrom (before : String) (s : Stream) : Received (Option String) :=
  if _h : s = [] then
    if before.isEmpty then ⟨.ok none, s⟩ else ⟨.error (.protocol .closedInsideBlock), s⟩
  else
    match decode (takeLine s).1 with
    | .error e => ⟨.error e, (takeLine s).2⟩
    | .ok line =>
      let shown := Text.trim line.toList
      if before.isEmpty && shown != StateBlock.opening.toList then
        ⟨.error (.protocol (.expectedOpening shown)), (takeLine s).2⟩
      else if shown == StateBlock.closing.toList then
        ⟨.ok (some (before ++ line)), (takeLine s).2⟩
      else readBlockFrom (before ++ line) (takeLine s).2
termination_by s.length
decreasing_by exact length_takeLine_lt (by assumption)

/-- The next state block; `none` at the end of the stream. -/
def readBlock (s : Stream) : Received (Option String) := readBlockFrom "" s

end TradingDesk.Wire
