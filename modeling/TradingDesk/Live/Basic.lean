-- SUMMARY: A broker that places orders at a brokerage and books what it reports back.
import TradingDesk.Book.Valuation
import TradingDesk.Live.Brokerage
import TradingDesk.Live.Gate
import TradingDesk.Market.Tracked
import TradingDesk.Session.Broker

/-!
# Live trading

Operations go to the brokerage first and into the book when they were accepted;
fills and cancels come back as events under the brokerage's order numbers. Events
wait in a queue until the next tick is advanced. A quote also raises the interrupt,
so that requests made on older data are given up.
-/

namespace TradingDesk

/-- What a brokerage reports by itself. -/
inductive MarketEvent where
  | quote (code : String) (avgPrice traded : Int) (ladder : Ladder)
  /-- A trade of the market, not of mine. -/
  | trade (code : String) (print : Level)
  | fill (number : Nat) (print : Level)
  | canceled (number : Nat) (qty : Int)
  | index (value : Binary64)
  deriving DecidableEq, Repr

def MarketEvent.isQuote : MarketEvent → Bool
  | quote .. => true
  | _ => false

structure Live (β : Type) where
  book : Book
  brokerage : β
  gate : Gate
  /-- Events that were not handled yet. -/
  events : List MarketEvent
  /-- Whether more events may come. -/
  connected : Bool
  interrupted : Bool
  budget : Budget
  /-- The order that each of the brokerage's numbers stands for. -/
  byNumber : List (Nat × String × Key)
  /-- The number of each order. -/
  byKey : List (Key × Nat)
  /-- What the clock will show, reading by reading; then it stands at the last second. -/
  readings : List Nat

namespace Live

variable {β : Type} [Brokerage β]

/-! ## Start -/

/-- A query at the brokerage, within the quota. -/
def query (ask : β → Except Error α × β) (s : Gate × β) : Outcome (Gate × β) α :=
  let passed := s.1.acquire
  match passed.result with
  | .error e => .fail e (passed.state, s.2)
  | .ok () =>
    let (a, brokerage) := ask s.2
    ⟨a, (passed.state, brokerage), []⟩

def queryAttempts : Nat := 4

/-- The holdings of an instrument as the brokerage has them. -/
def heldQty (held : List (String × Int)) (t : Tracked) : Int :=
  (held.lookup t.code).getD t.holdings

def startBook (balance : Int) (held : List (String × Int)) (tracked : List Tracked) : Book :=
  tracked.foldl (fun b t => b.add t.code t.kind (heldQty held t)) (Book.ofBalance balance)

def fetchBalance (s : Gate × β) : Outcome (Gate × β) Int :=
  let o := retry "balance query" queryAttempts (query Brokerage.balance) s
  match o.result with
  | .ok _ => o
  | .error e => { o with notices := o.notices ++ [.balanceQueryFailed e] }

def fetchHoldings (s : Gate × β) : Outcome (Gate × β) (List (String × Int)) :=
  retry "holdings query" queryAttempts (query Brokerage.holdings) s

/-- Asks the brokerage for cash and holdings and sets up the book. -/
def connect (brokerage : β) (gate : Gate) (tracked : List Tracked) (limit : Nat) :
    Outcome (Gate × β) (Live β) :=
  (fetchBalance (gate, brokerage)).bind fun balance s =>
    (fetchHoldings s).bind fun held s =>
      let live : Live β :=
        { book := startBook balance held tracked
          brokerage := s.2
          gate := s.1
          events := []
          connected := true
          interrupted := false
          budget := Budget.ofLimit limit
          byNumber := []
          byKey := []
          readings := [] }
      .ok live s

/-! ## Events -/

/-- An event comes in. -/
def send (l : Live β) (e : MarketEvent) : Outcome (Live β) Unit :=
  if l.connected then
    .ok () { l with events := l.events ++ [e], interrupted := l.interrupted || e.isQuote }
  else .fail .eventsClosed l

/-- No more events will come. -/
def hangUp (l : Live β) : Live β := { l with connected := false }

/-- The book after an event, with the notices of it. -/
def bookAfter (l : Live β) : MarketEvent → Except Error (Book × List Notice)
  | .quote code avgPrice traded ladder =>
    match l.book.find? code with
    | none => .ok (l.book, [])
    | some i => .ok (l.book.set (i.quote avgPrice traded ladder), [])
  | .trade .. => .ok (l.book, [])
  | .fill number print =>
    match l.byNumber.lookup number with
    | none => .error (.fillUnknown number)
    | some (code, key) => (l.book.trade code key print.price print.qty).map fun p => (p.book, p.notices)
  | .canceled number qty =>
    match l.byNumber.lookup number with
    | none => .error (.cancelUnknown number)
    | some (code, key) => (l.book.cancel code key qty).map fun p => (p.book, p.notices)
  | .index value => .ok ({ l.book with index := value }, [])

def handle (l : Live β) (e : MarketEvent) : Outcome (Live β) Unit :=
  match l.bookAfter e with
  | .ok (book, notices) => ⟨.ok (), { l with book }, notices⟩
  | .error cause => ⟨.ok (), l, [.eventNotApplied cause]⟩

def handleAll (l : Live β) : List MarketEvent → Outcome (Live β) Unit
  | [] => .ok () l
  | e :: es => (l.handle e).bind fun _ l => l.handleAll es

/-- Handles one event at each reading of the clock until the boundary has come. -/
def waitUntil (boundary : Nat) : List Nat → Live β → Outcome (Live β) Unit
  | [], l => .ok () { l with readings := [] }
  | now :: later, l =>
    if boundary ≤ now then .ok () { l with readings := later }
    else
      match l.events with
      | e :: es => (handle { l with events := es } e).bind fun _ l => waitUntil boundary later l
      | [] => if l.connected then waitUntil boundary later l else .fail .eventsClosed l

def drain (l : Live β) : Outcome (Live β) Unit :=
  handleAll { l with events := [] } l.events

/-! ## Ticks -/

/-- Forgets the numbers of orders that were swept. -/
def prune (l : Live β) : Live β :=
  let byNumber := l.byNumber.filter fun (_, code, key) => (l.book.order? code key).isSome
  { l with byNumber, byKey := l.byKey.filter fun (_, number) => (byNumber.lookup number).isSome }

/-- The broker at the beginning of a tick. -/
def turn (l : Live β) (tick : Nat) : Live β :=
  let swept := prune { l with book := l.book.sweep }
  { swept with book := { swept.book with tick }, budget := l.budget.reset }

/-- What has come in up to here is in the state block that is built next. -/
def settle (l : Live β) : Live β :=
  let book := if l.book.openingValue.isNone && l.book.isQuoted then l.book.latch else l.book
  { l with book, interrupted := false }

def advance (l : Live β) (c : TickContext) : Outcome (Live β) TickStatus :=
  let l := l.turn c.tick
  if c.pastClose then .ok .sessionEnd l
  else
    (waitUntil c.boundary l.readings l).bind fun _ l =>
      l.drain.bind fun _ l => .ok .goesOn l.settle

/-! ## Operations -/

/-- An order is booked once the brokerage has accepted it. -/
def insert (l : Live β) (code : String) (side : Side) (price qty : Int) : Outcome (Live β) Unit :=
  let passed := l.gate.acquire
  match passed.result with
  | .error e => .fail e { l with gate := passed.state }
  | .ok () =>
    let (a, brokerage) := Brokerage.place l.brokerage code side price qty
    let l := { l with gate := passed.state, brokerage }
    match a with
    | .error e => .fail e l
    | .ok number =>
      match l.book.insert code side price qty with
      | .error e => .fail e l
      | .ok p =>
        let byNumber := (number, code, p.answer) :: l.byNumber.filter (·.1 != number)
        let byKey := (p.answer, number) :: l.byKey.filter (·.1 != p.answer)
        ⟨.ok (), { l with book := p.book, byNumber, byKey }, p.notices⟩

/-- A cancel is only asked for; it is booked when the brokerage confirms it. -/
def cancel (l : Live β) (code : String) (key : Key) (qty : Int) : Outcome (Live β) Unit :=
  match l.byKey.lookup key with
  | none => .fail (.noNumber code key) l
  | some number =>
    let passed := l.gate.acquire
    match passed.result with
    | .error e => .fail e { l with gate := passed.state }
    | .ok () =>
      let (a, brokerage) := Brokerage.cancel l.brokerage number code qty
      ⟨a, { l with gate := passed.state, brokerage }, []⟩

def execute (l : Live β) : Operation → Outcome (Live β) Unit
  | .insert code side price qty => l.insert code side price qty
  | .cancel code key qty => l.cancel code key qty

def reserve (l : Live β) (n : Nat) : Outcome (Live β) Unit :=
  match l.budget.reserve n with
  | .ok budget => .ok () { l with budget }
  | .error e => .fail e l

def raise (l : Live β) : Live β := { l with interrupted := true }

instance : Broker (Live β) where
  book := book
  takeInterrupt l := (l.interrupted, { l with interrupted := false })
  advance := advance
  reserve := reserve
  execute := execute

end Live

end TradingDesk
