-- SUMMARY: Setting up a simulation from a configuration.
import TradingDesk.Config.Basic
import TradingDesk.Simulation.Basic

namespace TradingDesk

/-- The files that a simulation finds: what opening a path gives, and what writing
to it fails with. -/
structure Files where
  openFile : String → Except IoFault (List UInt8)
  writeFault : String → Option IoFault

namespace Simulation

def openTape (files : Files) (path : String) : Except Error (List UInt8) :=
  match files.openFile path with
  | .ok data => .ok data
  | .error cause => .error (.tapeOpen path cause)

def ofConfig (c : Config) (files : Files) : Except Error Simulation := do
  match c.simulation.quoteFile, c.simulation.tradeFile with
  | some quoteFile, some tradeFile =>
    let quotes ← openTape files quoteFile
    let trades ← openTape files tradeFile
    let book := c.instruments.foldl (fun b t => b.add t.code t.kind t.holdings)
      (Book.ofBalance c.simulation.initialBalance)
    let report := c.simulation.report.map fun path => ReportFile.mk (files.writeFault path) none
    return { start book quotes trades c.session.maxOperations with report }
  | _, _ => throw (.config .missingTapes)

end Simulation

end TradingDesk
