-- SUMMARY: What can go wrong, by cause, and the wording of each cause.
import TradingDesk.Book.Key
import TradingDesk.Session.Phase
import TradingDesk.Text.Quoted
import TradingDesk.Text.Span

/-!
# Errors

An `Error` says what went wrong and with which values. Its kind, the part that a
caller acts on, and its text follow from the cause. Only a brokerage reports
errors in words of its own.
-/

namespace TradingDesk

inductive ErrorKind where
  | config
  | io
  | protocol
  | replay
  | rateLimited
  | timeout
  | brokerage
  | unknownInstrument
  | invalidState
  deriving DecidableEq, Repr

def ErrorKind.label : ErrorKind → String
  | config => "Configuration error"
  | io => "IO error"
  | protocol => "Protocol error"
  | replay => "Replay error"
  | rateLimited => "Rate limited"
  | timeout => "Timeout"
  | brokerage => "Brokerage error"
  | unknownInstrument => "Unknown instrument"
  | invalidState => "Invalid state"

/-! ## Input and output -/

inductive IoFault where
  /-- What was read is not text. -/
  | notUtf8
  /-- A failure of a file or connection, as the system words it. -/
  | system (text : String)
  deriving DecidableEq, Repr

namespace IoFault

def noSuchFile : IoFault := .system "No such file or directory (os error 2)"

def text : IoFault → String
  | notUtf8 => "stream did not contain valid UTF-8"
  | system t => t

end IoFault

/-! ## Configuration -/

/-- Why a time of day could not be read. -/
inductive ClockFault where
  | invalid
  | tooShort
  | tooLong
  | outOfRange
  deriving DecidableEq, Repr

def ClockFault.text : ClockFault → String
  | invalid => "input contains invalid characters"
  | tooShort => "premature end of input"
  | tooLong => "trailing input"
  | outOfRange => "input is out of range"

inductive ConfigFault where
  | unreadable (cause : IoFault)
  /-- The file is not a table of settings with the expected types. -/
  | malformed
  | badClock (time : String) (cause : ClockFault)
  | closesBeforeOpen (closes opens : String)
  | zeroTick
  | negativeBalance
  | duplicateInstrument (code : String)
  | negativeHoldings (code : String)
  | missingTapes
  deriving DecidableEq, Repr

def ConfigFault.text : ConfigFault → String
  | unreadable cause => s!"Failed to read config: {cause.text}"
  | malformed => "Failed to parse config"
  | badClock time cause => s!"bad clock time {Text.quoted time.toList}: {cause.text}"
  | closesBeforeOpen closes opens => s!"session closes ({closes}) before it opens ({opens})"
  | zeroTick => "tick_secs must be positive"
  | negativeBalance => "initial_balance must not be negative"
  | duplicateInstrument code => s!"duplicate instrument {code}"
  | negativeHoldings code => s!"negative holdings for {code}"
  | missingTapes => "simulation needs quote_file and trade_file"

/-! ## Text formats -/

/-- What is wrong with a request line, a state block, a tape line or the framing
of messages. A `line` is the whole line, as it was received. -/
inductive ProtocolFault where
  | emptyRequest
  | unknownRequest (tag : List Char)
  | fieldCount (tag : List Char) (expected got : Nat) (line : List Char)
  | badRequestField (name : String) (line : List Char)
  | negativeQty (line : List Char)
  | truncatedLine (line : List Char)
  | badField (field line : List Char)
  | lineBeforeDepth (code : String) (line : List Char)
  | oddOrderFields (line : List Char)
  | badOrderField (field line : List Char)
  | unknownLine (tag : List Char)
  | noHeader
  | missingEntry (name : String)
  | badEntry (name : String) (field : List Char)
  | trailingFields
  | nonPositiveTrade (price qty : Int)
  | closedInsideBlock
  | expectedOpening (got : List Char)
  | hungUp (tick : Nat)
  deriving DecidableEq, Repr

open Text in
def ProtocolFault.text : ProtocolFault → String
  | emptyRequest => "empty request"
  | unknownRequest tag => s!"unknown request {quoted tag}"
  | fieldCount tag expected got line =>
    s!"{String.ofList tag} takes {expected} fields, got {got} in {quoted line}"
  | badRequestField name line => s!"bad {name} in {quoted line}"
  | negativeQty line => s!"negative qty in {quoted line}"
  | truncatedLine line => s!"truncated line {quoted line}"
  | badField field line => s!"bad field {quoted field} in {quoted line}"
  | lineBeforeDepth code line => s!"line before 'd' for {code}: {quoted line}"
  | oddOrderFields line => s!"odd order field count in {quoted line}"
  | badOrderField field line => s!"bad order field {quoted field} in {quoted line}"
  | unknownLine tag => s!"unknown state line tag {quoted tag}"
  | noHeader => "state block without 'b' line"
  | missingEntry name => s!"missing {name}"
  | badEntry name field => s!"bad {name} {quoted field}"
  | trailingFields => "trailing fields"
  | nonPositiveTrade price qty => s!"non-positive trade {price}x{qty}"
  | closedInsideBlock => "connection closed inside a state block"
  | expectedOpening got => s!"expected \"/*\", got {quoted got}"
  | hungUp tick => s!"agent hung up during tick {tick}"

/-! ## All errors -/

inductive Error where
  | config (fault : ConfigFault)
  | io (fault : IoFault)
  | protocol (fault : ProtocolFault)
  /-- Reading a line of a tape failed. -/
  | tapeRead (tape : String) (line : Nat) (text : String)
  /-- A tape could not be opened. -/
  | tapeOpen (path : String) (cause : IoFault)
  | budgetExhausted (requested left limit : Nat)
  /-- No second with room has begun in time, which is in nanoseconds. -/
  | quotaFull (perSecond patience : Nat)
  | fillUnknown (number : Nat)
  | cancelUnknown (number : Nat)
  | eventsClosed
  | unknownInstrument (code : String)
  | popNoOrder (code : String) (key : Key)
  | tradeNoOrder (code : String) (key : Key)
  | cancelNoOrder (code : String) (key : Key)
  | noNumber (code : String) (key : Key)
  | afterEnd (call : Call)
  | wrongPhase (call : Call) (phase : Phase)
  /-- An error in a brokerage's own words. -/
  | reported (kind : ErrorKind) (text : String)
  deriving DecidableEq, Repr

namespace Error

def kind : Error → ErrorKind
  | config _ => .config
  | io _ => .io
  | protocol _ => .protocol
  | tapeRead .. => .replay
  | tapeOpen .. => .replay
  | budgetExhausted .. => .rateLimited
  | quotaFull .. => .timeout
  | fillUnknown _ => .brokerage
  | cancelUnknown _ => .brokerage
  | eventsClosed => .brokerage
  | unknownInstrument _ => .unknownInstrument
  | popNoOrder .. => .invalidState
  | tradeNoOrder .. => .invalidState
  | cancelNoOrder .. => .invalidState
  | noNumber .. => .invalidState
  | afterEnd _ => .invalidState
  | wrongPhase .. => .invalidState
  | reported k _ => k

/-- The text of an error without the label of its kind. -/
def text : Error → String
  | config fault => fault.text
  | io fault => fault.text
  | protocol fault => fault.text
  | tapeRead tape line t => s!"{tape} line {line}: {t}"
  | tapeOpen path cause => s!"{path}: {cause.text}"
  | budgetExhausted requested left limit =>
    s!"{requested} ops requested, {left} of {limit} left this tick"
  | quotaFull perSecond patience =>
    s!"brokerage quota of {perSecond}/s still full after {Text.span patience}"
  | fillUnknown number => s!"fill for unknown order no {number}"
  | cancelUnknown number => s!"cancel for unknown order no {number}"
  | eventsClosed => "event channel closed"
  | unknownInstrument code => code
  | popNoOrder code key => s!"pop on unknown order {code} {key}"
  | tradeNoOrder code key => s!"trade on unknown order {code} {key}"
  | cancelNoOrder code key => s!"cancel on unknown order {code} {key}"
  | noNumber code key => s!"no order number for {code} {key}"
  | afterEnd call => s!"{call.name} after session end"
  | wrongPhase call phase => s!"{call.name} needs phase {call.phase.name}, session is {phase.name}"
  | reported _ t => t

def message (e : Error) : String := s!"{e.kind.label}: {e.text}"

instance : ToString Error := ⟨message⟩

/-- Whether the same call may succeed later. -/
def isRetryable (e : Error) : Bool :=
  e.kind == .timeout || e.kind == .rateLimited

end Error

end TradingDesk
