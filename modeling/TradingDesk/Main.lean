-- SUMMARY: The command line: a simulated session with one agent on standard input and output.
import TradingDesk.Session.Basic
import TradingDesk.Simulation.Config
import TradingDesk.Wire.Framing

/-!
# Command line

The argument is the path of the configuration. The agent talks on standard input
and output; notices and errors go to standard error.
-/

namespace TradingDesk.Main

def faultOf : IO.Error → IoFault
  | .noFileOrDirectory .. => .noSuchFile
  | e => .system (toString e)

def readFile (path : String) : IO (Except IoFault (List UInt8)) := do
  try
    let data ← IO.FS.readBinFile path
    return .ok data.toList
  catch e => return .error (faultOf e)

/-- The files that a configuration names, as they are now. -/
def filesOf (c : Config) : IO Files := do
  let paths := [c.simulation.quoteFile, c.simulation.tradeFile].filterMap id
  let contents ← paths.mapM fun path => return (path, ← readFile path)
  return {
    openFile := fun path => (contents.lookup path).getD (.error .noSuchFile)
    writeFault := fun _ => none }

def tell (notices : List Notice) : IO Unit := do
  for n in notices do
    IO.eprintln n

/-- The agent's next message; `none` if the agent has hung up. -/
partial def readMessage (input : IO.FS.Stream) (before : String) : IO (Option String) := do
  let line ← input.getLine
  if line.isEmpty then return none
  if (Text.trim line.toList).isEmpty then return some before
  readMessage input (before ++ line)

/-- Runs a session to its end, or to the error that ends it. -/
partial def converse (s : Session Simulation) : IO (Except Error (Session Simulation)) := do
  let o := s.advance
  tell o.notices
  match o.result with
  | .ok .sessionEnd => return .ok o.state
  | .error e =>
    if e.kind = .replay then
      tell [.tickSkipped o.state.tick e]
      converse o.state
    else return .error e
  | .ok .goesOn =>
    let out := o.state.buildMsgOut
    match out.result with
    | .error e => return .error e
    | .ok block =>
      let output ← IO.getStdout
      output.putStr block
      output.flush
      match ← readMessage (← IO.getStdin) "" with
      | none => return .error (.protocol (.hungUp out.state.tick))
      | some text =>
        let applied := out.state.applyMsgIn text
        tell applied.notices
        converse applied.state

def start (path : String) : IO (Except Error (Config × Session Simulation)) := do
  let secret ← IO.getEnv "ALEPH_SECRET"
  match ← readFile path with
  | .error cause => return .error (.config (.unreadable cause))
  | .ok data =>
    match Config.load data secret with
    | .error e => return .error e
    | .ok c =>
      let files ← filesOf c
      return do
        let clock ← SessionClock.ofSettings c.session
        let simulation ← Simulation.ofConfig c files
        .ok (c, Session.start simulation clock)

/-- Writes the report where the configuration wants it. -/
def writeReport (c : Config) (s : Session Simulation) : IO Unit := do
  match c.simulation.report, s.broker.report.bind (·.text) with
  | some path, some text => IO.FS.writeFile path text
  | _, _ => return

def run (path : String) : IO UInt32 := do
  match ← start path with
  | .error e =>
    IO.eprintln e
    return 1
  | .ok (c, session) =>
    match ← converse session with
    | .error e =>
      IO.eprintln e
      return 1
    | .ok ended =>
      writeReport c ended
      return 0

end TradingDesk.Main

def main (args : List String) : IO UInt32 :=
  TradingDesk.Main.run (args.headD "config.toml")
