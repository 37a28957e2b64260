-- SUMMARY: The settings of the desk: how they are read, completed and checked.
import TradingDesk.Config.Toml
import TradingDesk.Market.Tracked
import TradingDesk.Session.Clock

/-!
# Configuration

A configuration has four parts, each of which may be left out. A setting that is
left out has its default; one of the wrong type makes the whole file unreadable.
A session that could not run is refused here, with the first reason found.
-/

namespace TradingDesk

structure ServerSettings where
  listen : String
  /-- What the agent must send first. -/
  secret : String
  deriving DecidableEq, Repr

structure SessionSettings where
  opening : String
  closing : String
  tickSecs : Nat
  maxOperations : Nat
  deriving DecidableEq, Repr

structure SimulationSettings where
  quoteFile : Option String
  tradeFile : Option String
  initialBalance : Int
  report : Option String
  deriving DecidableEq, Repr

structure Config where
  server : ServerSettings
  session : SessionSettings
  simulation : SimulationSettings
  instruments : List Tracked
  deriving DecidableEq, Repr

namespace Config

/-! ## Reading -/

def text : Value → Option String
  | .string s => some s
  | _ => none

def integer (least most : Int) : Value → Option Int
  | .integer n => if least ≤ n ∧ n ≤ most then some n else none
  | _ => none

/-- A setting of a table, or its default. -/
def setting (t : Table) (name : String) (read : Value → Option α) (default : α) : Option α :=
  match t.lookup name with
  | none => some default
  | some v => read v

def required (t : Table) (name : String) (read : Value → Option α) : Option α :=
  (t.lookup name).bind read

/-- A part of a configuration; a part that is left out is an empty table. -/
def part (t : Table) (name : String) : Option Table :=
  setting t name (fun | .table _ entries => some entries | _ => none) []

def readServer (t : Table) : Option ServerSettings := do
  let listen ← setting t "listen" text "127.0.0.1:7000"
  let secret ← setting t "secret" text "aleph"
  some ⟨listen, secret⟩

def readSession (t : Table) : Option SessionSettings := do
  let opening ← setting t "open" text "09:00:00"
  let closing ← setting t "close" text "15:20:00"
  let tickSecs ← setting t "tick_secs" (integer 0 Text.maxWord) 10
  let maxOperations ← setting t "max_ops_per_tick" (integer 0 Text.maxSigned) 20
  some ⟨opening, closing, tickSecs.toNat, maxOperations.toNat⟩

def readSimulation (t : Table) : Option SimulationSettings := do
  let quoteFile ← setting t "quote_file" (fun v => (text v).map some) none
  let tradeFile ← setting t "trade_file" (fun v => (text v).map some) none
  let initialBalance ← setting t "initial_balance" (integer Text.minSigned Text.maxSigned) 10000000
  let report ← setting t "report" (fun v => (text v).map some) none
  some ⟨quoteFile, tradeFile, initialBalance, report⟩

def readTracked : Value → Option Tracked
  | .table _ t => do
    let code ← required t "code" text
    let kind ← required t "kind" fun v => (text v).bind Kind.ofName?
    let holdings ← setting t "holdings" (integer Text.minSigned Text.maxSigned) 0
    some ⟨code, kind, holdings⟩
  | _ => none

def readInstruments (t : Table) : Option (List Tracked) :=
  setting t "instruments" (fun | .list _ items => items.mapM readTracked | _ => none) []

def ofTable (t : Table) : Option Config := do
  let server ← part t "server" >>= readServer
  let session ← part t "session" >>= readSession
  let simulation ← part t "simulation" >>= readSimulation
  let instruments ← readInstruments t
  some ⟨server, session, simulation, instruments⟩

/-! ## Checking -/

/-- The first instrument that is listed twice or has negative holdings. -/
def checkTracked (seen : List String) : List Tracked → Except Error Unit
  | [] => .ok ()
  | t :: ts =>
    if seen.contains t.code then .error (.config (.duplicateInstrument t.code))
    else if t.holdings < 0 then .error (.config (.negativeHoldings t.code))
    else checkTracked (t.code :: seen) ts

def check (c : Config) : Except Error Unit := do
  let opening ← TimeOfDay.read c.session.opening
  let closing ← TimeOfDay.read c.session.closing
  if closing ≤ opening then
    throw (.config (.closesBeforeOpen c.session.closing c.session.opening))
  if c.session.tickSecs = 0 then throw (.config .zeroTick)
  if c.simulation.initialBalance < 0 then throw (.config .negativeBalance)
  checkTracked [] c.instruments

/-- The configuration with the secret of the environment, unless that is empty. -/
def withSecret (c : Config) : Option String → Config
  | none => c
  | some secret =>
    if secret.isEmpty then c else { c with server := { c.server with secret } }

/-- The configuration in a file's bytes, with the secret of the environment if there is one. -/
def load (data : List UInt8) (secret : Option String) : Except Error Config :=
  match String.fromUTF8? ⟨data.toArray⟩ with
  | none => .error (.config (.unreadable .notUtf8))
  | some text =>
    match Toml.read text >>= ofTable with
    | none => .error (.config .malformed)
    | some c => do
      let c := c.withSecret secret
      check c
      return c

/-! ## Use -/

def instrument? (c : Config) (code : String) : Option Tracked :=
  c.instruments.find? (·.code == code)

end Config

/-- A tick takes at least one second. -/
def SessionClock.ofSettings (s : SessionSettings) : Except Error SessionClock := do
  let opening ← TimeOfDay.read s.opening
  let closing ← TimeOfDay.read s.closing
  return ⟨opening, closing, max s.tickSecs 1⟩

end TradingDesk
