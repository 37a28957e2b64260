-- SUMMARY: A broker that replays recorded market data and fills orders by their place in the queue.
import TradingDesk.Session.Broker
import TradingDesk.Simulation.Match
import TradingDesk.Simulation.Report
import TradingDesk.Tape.Basic

/-!
# Simulation

A tick of a `Simulation` takes the records due before its end from both tapes and
matches every instrument against its own. Records of codes that are not tracked
are passed over. Of several depth records of an instrument only the last counts.
-/

namespace TradingDesk

structure Simulation where
  book : Book
  quotes : Tape QuoteRecord
  trades : Tape Trade
  budget : Budget
  interrupted : Bool
  report : Option ReportFile
  /-- Whether it was told that both tapes have ended. -/
  tapesDone : Bool

/-- The last depth record of a code. -/
def lastDepth (code : String) (quotes : List (Timed QuoteRecord)) : Option Depth :=
  quotes.reverse.findSome? fun q =>
    match q.record with
    | .depth c avgPrice traded ladder =>
      if c == code then some ⟨avgPrice, traded, ladder⟩ else none
    | _ => none

/-- The trades of a code, in order. -/
def printsOf (code : String) (trades : List (Timed Trade)) : List Level :=
  (trades.filter fun t => t.record.code == code).map (·.record.print)

namespace Book

def setDetail (b : Book) (code : String) (detail : Detail) : Book :=
  match b.find? code with
  | some i => b.set { i with detail }
  | none => b

/-- Takes over what a quote record says apart from market depth. -/
def observe (b : Book) (q : Timed QuoteRecord) : Book :=
  match q.record with
  | .depth .. => b
  | .index value => { b with index := value }
  | .warrant code terms => b.setDetail code (.warrant terms)
  | .nav code deviation => b.setDetail code (.tracker deviation)

/-- Matches instruments of the book in turn, each against its own records. -/
def matchAll (quotes : List (Timed QuoteRecord)) (trades : List (Timed Trade)) (b : Book) :
    List Instrument → Posted Unit
  | [] => ⟨(), b, []⟩
  | i :: is =>
    let m := i.matchTick (lastDepth i.code quotes) (printsOf i.code trades)
    let first := (b.set m.instrument).postAll i.code m.fills
    let rest := first.book.matchAll quotes trades is
    { rest with notices := first.notices ++ rest.notices }

/-- One tick of records. The first time that all instruments are quoted fixes the
values that profits are measured against. -/
def replay (b : Book) (quotes : List (Timed QuoteRecord)) (trades : List (Timed Trade)) : Posted Unit :=
  let b := quotes.foldl observe b
  let p := b.matchAll quotes trades b.instruments
  if p.book.openingValue.isNone && p.book.isQuoted then { p with book := p.book.latch } else p

end Book

namespace Simulation

def start (book : Book) (quotes trades : List UInt8) (limit : Nat) : Simulation where
  book := book
  quotes := Tape.ofBytes "quotes" quotes none
  trades := Tape.ofBytes "trades" trades none
  budget := Budget.ofLimit limit
  interrupted := false
  report := none
  tapesDone := false

def summarize (s : Simulation) : Report :=
  Report.ofBook s.book (s.quotes.skipped + s.trades.skipped)

/-- Writes the report, if one is wanted. -/
def close (s : Simulation) : Outcome Simulation TickStatus :=
  match s.report with
  | none => .ok .sessionEnd s
  | some file =>
    match file.fault with
    | some fault => .fail (.io fault) s
    | none => .ok .sessionEnd { s with report := some { file with text := some s.summarize.render } }

def takeQuotes (s : Simulation) (boundary : Nat) : Outcome Simulation (List (Timed QuoteRecord)) :=
  (s.quotes.takeUntil boundary).lift fun quotes => { s with quotes }

def takeTrades (s : Simulation) (boundary : Nat) : Outcome Simulation (List (Timed Trade)) :=
  (s.trades.takeUntil boundary).lift fun trades => { s with trades }

/-- Tells once that both tapes have ended before the close. -/
def checkTapes (s : Simulation) (tick : Nat) : Outcome Simulation TickStatus :=
  if s.tapesDone then .ok .goesOn s
  else
    (s.quotes.isExhausted.lift fun quotes => { s with quotes }).bind fun quotesDone s =>
      if !quotesDone then .ok .goesOn s
      else
        (s.trades.isExhausted.lift fun trades => { s with trades }).bind fun tradesDone s =>
          if !tradesDone then .ok .goesOn s
          else ⟨.ok .goesOn, { s with tapesDone := true }, [.tapesExhausted tick]⟩

def replay (s : Simulation) (quotes : List (Timed QuoteRecord)) (trades : List (Timed Trade)) :
    Outcome Simulation Unit :=
  let p := s.book.replay quotes trades
  ⟨.ok (), { s with book := p.book }, p.notices⟩

/-- The simulation at the beginning of a tick. -/
def turn (s : Simulation) (tick : Nat) : Simulation :=
  { s with book := { s.book.sweep with tick }, budget := s.budget.reset }

def advance (s : Simulation) (c : TickContext) : Outcome Simulation TickStatus :=
  let s := s.turn c.tick
  if c.pastClose then s.close
  else
    (s.takeQuotes c.boundary).bind fun quotes s =>
      (s.takeTrades c.boundary).bind fun trades s =>
        (s.replay quotes trades).bind fun _ s => s.checkTapes c.tick

/-- Places an order and gives it its place in the queue. -/
def insert (s : Simulation) (code : String) (side : Side) (price qty : Int) : Outcome Simulation Unit :=
  match s.book.insert code side price qty with
  | .error e => .fail e s
  | .ok p =>
    let book := match p.book.find? code with
      | some i => p.book.set (i.stamp side p.answer)
      | none => p.book
    ⟨.ok (), { s with book }, p.notices⟩

/-- Cancels part of an order and closes the ranks behind it. -/
def cancel (s : Simulation) (code : String) (key : Key) (qty : Int) : Outcome Simulation Unit :=
  match s.book.cancel code key qty with
  | .error e => .fail e s
  | .ok p =>
    let book := match p.book.find? code with
      | none => p.book
      | some i =>
        match Orders.find? key i.orders with
        | none => p.book
        | some o => if 0 < p.answer then p.book.set (i.closeRanks o.side key p.answer) else p.book
    ⟨.ok (), { s with book }, p.notices⟩

def execute (s : Simulation) : Operation → Outcome Simulation Unit
  | .insert code side price qty => s.insert code side price qty
  | .cancel code key qty => s.cancel code key qty

def reserve (s : Simulation) (n : Nat) : Outcome Simulation Unit :=
  match s.budget.reserve n with
  | .ok budget => .ok () { s with budget }
  | .error e => .fail e s

def raise (s : Simulation) : Simulation := { s with interrupted := true }

instance : Broker Simulation where
  book := book
  takeInterrupt s := (s.interrupted, { s with interrupted := false })
  advance := advance
  reserve := reserve
  execute := execute

end Simulation

end TradingDesk
