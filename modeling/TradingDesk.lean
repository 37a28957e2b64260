import TradingDesk.Live.Basic
import TradingDesk.Main
import TradingDesk.Proofs.Conservation
import TradingDesk.Proofs.Ranks
import TradingDesk.Wire.Client
import TradingDesk.Wire.Server
import TradingDesk.Proofs.Easing
import TradingDesk.Proofs.Upkeep
import TradingDesk.Proofs.Fills
import TradingDesk.Proofs.Waiting
import TradingDesk.Proofs.Shedding
import TradingDesk.Proofs.Printing
import TradingDesk.Proofs.Series
import TradingDesk.Proofs.Fields
import TradingDesk.Proofs.Rounding
import TradingDesk.Proofs.Decimals
import TradingDesk.Proofs.Blocks
import TradingDesk.Proofs.Mirrors
import TradingDesk.Proofs.Turns
import TradingDesk.Proofs.Dispatch
import TradingDesk.Proofs.Relays
import TradingDesk.Proofs.Commitments
import TradingDesk.Proofs.Numbers
import TradingDesk.Proofs.Commuting
import TradingDesk.Proofs.Streams
import TradingDesk.Proofs.Grid
import TradingDesk.Proofs.Origins
import TradingDesk.Proofs.Views
import TradingDesk.Proofs.Isolation
import TradingDesk.Proofs.Checked
import TradingDesk.Proofs.LostTicks
import TradingDesk.Proofs.Delivery
import TradingDesk.Proofs.Protocol
import TradingDesk.Proofs.Services
import TradingDesk.Proofs.ClosedForm
import TradingDesk.Proofs.Affordable
import TradingDesk.Proofs.Reachability
import TradingDesk.Proofs.Requantizing
import TradingDesk.Proofs.Cancels
import TradingDesk.Proofs.Unwinding
import TradingDesk.Proofs.Worth
import TradingDesk.Proofs.Estimates
import TradingDesk.Proofs.Details
import TradingDesk.Proofs.DepthLines
import TradingDesk.Proofs.Layouts
import TradingDesk.Proofs.Headroom
