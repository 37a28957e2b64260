-- SUMMARY: What a live broker does to its book and its order numbers, and the history of it.
import TradingDesk.Live.Basic
import TradingDesk.Proofs.Dispatch
import TradingDesk.Proofs.Opening

/-!
# Relays

A live broker sends the operations of its requests to the brokerage and books what comes
back under the brokerage's numbers. Whatever is called on it, and whatever the brokerage
answers, its book and its order numbers make `Moves`: an order that was accepted is entered
under its number, a cancel is asked for and changes nothing, a fill or a cancel is booked on
the order of its number, and a new tick drops what is exhausted.
-/

namespace TradingDesk

/-- The number that an event goes by, if it is about an order of mine. -/
def MarketEvent.number? : MarketEvent → Option Nat
  | .fill number _ => some number
  | .canceled number _ => some number
  | _ => none

/-! ## Reports -/

/-- What a brokerage reports of one order. -/
structure OrderReport where
  code : String
  key : Key
  qty : Int
  /-- The price of a fill; a cancel has none. -/
  price : Option Int

/-- The call of the book's accounting that a report stands for. -/
def OrderReport.command (r : OrderReport) : Command :=
  match r.price with
  | some price => .trade r.code r.key price r.qty
  | none => .cancel r.code r.key r.qty

namespace Book

variable {b : Book}

theorem call_report (b : Book) (r : OrderReport) :
    (b.event? r.command = none ∧ b.call r.command = b)
      ∨ ∃ e, b.event? r.command = some e ∧ Step b (some e) (b.call r.command)
          ∧ e.Concerns r.code r.key := by
  rw [OrderReport.command]
  cases r.price with
  | none => exact b.call_cancel ..
  | some price => exact b.call_trade ..

/-- The book after an event that is not about an order of mine. -/
def market (b : Book) : MarketEvent → Book
  | .quote code avgPrice traded ladder => b.call (.quote code avgPrice traded ladder)
  | .index value => { b with index := value }
  | _ => b

/-- Market data is no matter of the account. -/
theorem account_market (hb : b.WellFormed) (e : MarketEvent) :
    (b.market e).account = b.account := by
  cases e with
  | quote code avgPrice traded ladder =>
    simp only [market, call]
    cases quoted : b.quote code avgPrice traded ladder with
    | error => rfl
    | ok b' => exact quote_account hb quoted
  | index => rfl
  | trade => rfl
  | fill => rfl
  | canceled => rfl

end Book

namespace Live

variable {β : Type}

/-! ## Moves -/

/-- A dealing with the brokerage, as a history keeps it. -/
inductive Entry where
  /-- The brokerage took an order of a request, placed in an instrument that was as given. -/
  | placed (request : Request) (number : Nat) (before : Instrument) (order : Order)
  /-- The brokerage was asked for a cancel. -/
  | asked (request : Request) (number : Nat) (code : String) (key : Key) (qty : Int)
  /-- A cancel could not be asked for, because the order has no number. -/
  | unnumbered (request : Request) (code : String) (key : Key)
  /-- What was reported under a number has been booked. -/
  | booked (number : Nat) (event : Event)

/-- The event that a dealing is for the book. -/
def Entry.event? : Entry → Option Event
  | .placed _ _ i o => some (.placed i o)
  | .asked .. => none
  | .unnumbered .. => none
  | .booked _ e => some e

/-- The broker once the brokerage has taken an order under a number. -/
def enter (l : Live β) (number : Nat) (code : String) (p : Posted Key) : Live β :=
  { l with
    book := p.book
    byNumber := (number, code, p.answer) :: l.byNumber.filter (·.1 != number)
    byKey := (p.answer, number) :: l.byKey.filter (·.1 != p.answer) }

/-- One change of the book or of the order numbers, with the dealing that it is, if it is one. -/
inductive Move : Live β → Option Entry → Live β → Prop
  /-- Anything but the accounting and the order numbers may change. -/
  | rest {l l' : Live β} (account : l'.book.account = l.book.account)
      (byNumber : l'.byNumber = l.byNumber) (byKey : l'.byKey = l.byKey) : Move l none l'
  | turn (l : Live β) (tick : Nat) : Move l none (l.turn tick)
  | placed {l : Live β} {r : Request} {number : Nat} {code : String} {i : Instrument} {side : Side}
      {price qty : Int} {p : Posted Key} (found : l.book.find? code = some i) (hprice : 0 < price)
      (hqty : 0 < qty) (backs : side = .sell → i.Backs r qty)
      (ok : l.book.insert code side price qty = .ok p) :
      Move l (some (.placed r number i (i.newOrder l.book.nextId side price qty)))
        (l.enter number code p)
  | asked {l : Live β} {r : Request} {number : Nat} {code : String} {key : Key} {o : Order}
      {qty : Int} (resting : l.book.order? code key = some o)
      (known : l.byKey.lookup key = some number) :
      Move l (some (.asked r number code key qty)) l
  | unnumbered {l : Live β} {r : Request} {code : String} {key : Key} {o : Order}
      (resting : l.book.order? code key = some o) (unknown : l.byKey.lookup key = none) :
      Move l (some (.unnumbered r code key)) l
  | booked {l : Live β} {number : Nat} {code : String} {key : Key} {e : Event} {b : Book}
      (known : l.byNumber.lookup number = some (code, key)) (step : Book.Step l.book (some e) b)
      (concerns : e.Concerns code key) : Move l (some (.booked number e)) { l with book := b }

/-- A series of moves with its history. -/
inductive Moves : Live β → List Entry → Live β → Prop
  | refl (l : Live β) : Moves l [] l
  | snoc {l l' l'' : Live β} {history : List Entry} {e : Option Entry} (moves : Moves l history l')
      (move : Move l' e l'') : Moves l (history ++ e.toList) l''

/-- A broker as it has connected: with an opening book and no order numbers. -/
structure Fresh (l : Live β) : Prop where
  book : ∃ balance ts, l.book = Book.opening balance ts
  byNumber : l.byNumber = []
  byKey : l.byKey = []

section Moves

variable {l l' l'' : Live β} {h h' : List Entry} {e : Option Entry}

theorem Moves.trans (first : Moves l h l') (second : Moves l' h' l'') : Moves l (h ++ h') l'' := by
  induction second with
  | refl => rwa [List.append_nil]
  | snoc _ move ih =>
    rw [← List.append_assoc]
    exact ih.snoc move

theorem Move.moves (move : Move l e l') : Moves l e.toList l' := (Moves.refl l).snoc move

/-- A change of anything but the accounting and the order numbers. -/
theorem moves_rest (account : l'.book.account = l.book.account) (byNumber : l'.byNumber = l.byNumber)
    (byKey : l'.byKey = l.byKey) : Moves l [] l' :=
  (Move.rest account byNumber byKey).moves

/-- Orders are placed at positive prices, for positive quantities. -/
def Positive (_ : Book) : Event → Prop
  | .placed _ o => 0 < o.price ∧ 0 < o.qty
  | .filled .. => True
  | .canceled .. => True

theorem Move.run (move : Move l e l') :
    Book.Run Positive l.book (e.bind Entry.event?).toList l'.book := by
  cases move with
  | rest account => exact .silent (.observe account)
  | turn tick =>
    have ticked : Book.Step l.book.sweep none { l.book.sweep with tick := tick } := .observe rfl
    exact (Book.Run.silent (.sweep l.book)).trans (.silent ticked)
  | placed found hprice hqty _ ok => exact .single (.place found ok) ⟨hprice, hqty⟩
  | asked => exact .refl _
  | unnumbered => exact .refl _
  | @booked _ _ _ e _ _ step concerns =>
    refine .single step ?_
    cases e with
    | placed => exact concerns.elim
    | filled => trivial
    | canceled => trivial

/-- Moves are a run of the book with the same events. -/
theorem Moves.run (moves : Moves l h l') :
    Book.Run Positive l.book (h.filterMap Entry.event?) l'.book := by
  induction moves with
  | refl => exact .refl _
  | @snoc _ _ h e _ move ih =>
    have last : e.toList.filterMap Entry.event? = (e.bind Entry.event?).toList := by
      cases e with
      | none => rfl
      | some e => cases e <;> rfl
    rw [List.filterMap_append, last]
    exact ih.trans move.run

theorem Moves.wellFormed (moves : Moves l h l') (hb : l.book.WellFormed) : l'.book.WellFormed :=
  moves.run.wellFormed hb

theorem Fresh.wellFormed (fresh : l.Fresh) : l.book.WellFormed := by
  obtain ⟨balance, ts, opened⟩ := fresh.book
  rw [opened]
  exact Book.wellFormed_opening balance ts

/-- Admission to some operations changes neither the book nor the order numbers. -/
theorem exists_admitted (l : Live β) (exempt : Bool) (n : Nat) :
    ∃ o : Outcome (Live β) Unit,
      (if exempt then .ok () { l with interrupted := false }
        else reserve { l with interrupted := false } n) = o
      ∧ Moves l [] o.state ∧ o.state.book = l.book := by
  refine ⟨_, rfl, ?_⟩
  cases exempt with
  | true => exact ⟨moves_rest rfl rfl rfl, rfl⟩
  | false =>
    simp only [reserve]
    cases l.budget.reserve n <;> exact ⟨moves_rest rfl rfl rfl, rfl⟩

end Moves

/-! ## Events -/

/-- The report that an event is of an order whose number is known. -/
def report? (l : Live β) : MarketEvent → Option OrderReport
  | .fill number print =>
    (l.byNumber.lookup number).map fun known => ⟨known.1, known.2, print.qty, some print.price⟩
  | .canceled number qty =>
    (l.byNumber.lookup number).map fun known => ⟨known.1, known.2, qty, none⟩
  | _ => none

/-- What is booked when an event is handled. -/
def booking? (l : Live β) (e : MarketEvent) : Option Entry :=
  e.number?.bind fun number =>
    (l.report? e).bind fun r => (l.book.event? r.command).map (.booked number)

/-- The history of handling some events. -/
def handleLog (l : Live β) : List MarketEvent → List Entry
  | [] => []
  | e :: es => (l.booking? e).toList ++ (l.handle e).state.handleLog es

/-- The history of waiting for a boundary. -/
def waitLog (boundary : Nat) : List Nat → Live β → List Entry
  | [], _ => []
  | now :: later, l =>
    if boundary ≤ now then []
    else
      match l.events with
      | e :: es =>
        (l.booking? e).toList ++ waitLog boundary later (handle { l with events := es } e).state
      | [] => if l.connected then waitLog boundary later l else []

/-- The history of a tick. -/
def advanceLog (l : Live β) (c : TickContext) : List Entry :=
  let l := l.turn c.tick
  if c.pastClose then []
  else
    let waited := waitUntil c.boundary l.readings l
    waitLog c.boundary l.readings l ++
      match waited.result with
      | .error _ => []
      | .ok () => handleLog { waited.state with events := [] } waited.state.events

section Events

variable {l : Live β} {e : MarketEvent} {r : OrderReport}

theorem report?_eq_some (reported : l.report? e = some r) :
    ∃ number, e.number? = some number ∧ l.byNumber.lookup number = some (r.code, r.key) := by
  cases e with
  | fill number print =>
    obtain ⟨known, lookup, rfl⟩ := Option.map_eq_some_iff.mp reported
    exact ⟨number, rfl, lookup⟩
  | canceled number qty =>
    obtain ⟨known, lookup, rfl⟩ := Option.map_eq_some_iff.mp reported
    exact ⟨number, rfl, lookup⟩
  | quote => cases reported
  | trade => cases reported
  | index => cases reported

theorem handle_report (reported : l.report? e = some r) :
    (l.handle e).state = { l with book := l.book.call r.command } := by
  cases e with
  | fill number print =>
    obtain ⟨known, lookup, rfl⟩ := Option.map_eq_some_iff.mp reported
    obtain ⟨code, key⟩ := known
    simp only [handle, bookAfter, lookup, OrderReport.command, Book.call]
    cases l.book.trade code key print.price print.qty <;> rfl
  | canceled number qty =>
    obtain ⟨known, lookup, rfl⟩ := Option.map_eq_some_iff.mp reported
    obtain ⟨code, key⟩ := known
    simp only [handle, bookAfter, lookup, OrderReport.command, Book.call]
    cases l.book.cancel code key qty <;> rfl
  | quote => cases reported
  | trade => cases reported
  | index => cases reported

/-- What is no report of a known order is market data, or unknown and rejected. -/
theorem handle_market (other : l.report? e = none) :
    (l.handle e).state = { l with book := l.book.market e } := by
  cases e with
  | quote code avgPrice traded ladder =>
    simp only [handle, bookAfter, Book.market, Book.call, Book.quote]
    cases l.book.find? code <;> rfl
  | trade => rfl
  | fill number print =>
    have unknown : l.byNumber.lookup number = none := Option.map_eq_none_iff.mp other
    simp only [handle, bookAfter, unknown, Book.market]
  | canceled number qty =>
    have unknown : l.byNumber.lookup number = none := Option.map_eq_none_iff.mp other
    simp only [handle, bookAfter, unknown, Book.market]
  | index => rfl

theorem moves_handle (hb : l.book.WellFormed) (e : MarketEvent) :
    Moves l (l.booking? e).toList (l.handle e).state := by
  cases reported : l.report? e with
  | none =>
    have nothing : l.booking? e = none := by
      simp only [booking?, reported, Option.bind_none, Option.bind_fun_none]
    rw [nothing, handle_market reported]
    exact moves_rest (Book.account_market hb e) rfl rfl
  | some r =>
    obtain ⟨number, about, known⟩ := report?_eq_some reported
    simp only [booking?, about, reported, Option.bind_some, handle_report reported]
    rcases l.book.call_report r with ⟨nothing, same⟩ | ⟨event, booked, step, concerns⟩
    · rw [nothing, same]
      exact .refl l
    · rw [booked]
      exact (Move.booked known step concerns).moves

/-- Handling an event never fails: what cannot be booked is reported. -/
theorem handle_result (l : Live β) (e : MarketEvent) : (l.handle e).result = .ok () := by
  simp only [handle]
  cases l.bookAfter e <;> rfl

/-- The state after an event and what follows it. -/
theorem state_bind_handle {α : Type} (l : Live β) (e : MarketEvent)
    (f : Unit → Live β → Outcome (Live β) α) :
    ((l.handle e).bind f).state = (f () (l.handle e).state).state := by
  simp only [Outcome.bind, handle_result]

theorem moves_handleAll (hb : l.book.WellFormed) (es : List MarketEvent) :
    Moves l (l.handleLog es) (l.handleAll es).state := by
  induction es generalizing l with
  | nil => exact .refl l
  | cons e es ih =>
    have first := moves_handle hb e
    simp only [handleAll, state_bind_handle]
    exact first.trans (ih (first.wellFormed hb))

theorem handleAll_result (l : Live β) (es : List MarketEvent) : (l.handleAll es).result = .ok () := by
  induction es generalizing l with
  | nil => rfl
  | cons e es ih => simp only [handleAll, Outcome.bind, handle_result, ih]

theorem moves_waitUntil (hb : l.book.WellFormed) (boundary : Nat) (readings : List Nat) :
    Moves l (waitLog boundary readings l) (waitUntil boundary readings l).state := by
  induction readings generalizing l with
  | nil => exact moves_rest rfl rfl rfl
  | cons now later ih =>
    simp only [waitUntil, waitLog]
    split
    · exact moves_rest rfl rfl rfl
    · cases l.events with
      | nil =>
        cases l.connected with
        | true => exact ih hb
        | false => exact .refl l
      | cons e es =>
        have taken : Moves l [] { l with events := es } := moves_rest rfl rfl rfl
        have first : Moves l _ _ := taken.trans (moves_handle (l := { l with events := es }) hb e)
        simp only [state_bind_handle]
        exact first.trans (ih (first.wellFormed hb))

theorem moves_settle : Moves l [] l.settle := by
  refine moves_rest ?_ rfl rfl
  simp only [settle]
  split <;> rfl

theorem moves_advance (hb : l.book.WellFormed) (c : TickContext) :
    Moves l (l.advanceLog c) (l.advance c).state := by
  have turned : Moves l [] (l.turn c.tick) := (Move.turn l c.tick).moves
  simp only [advance, advanceLog]
  split
  · exact turned
  · have waited := turned.trans
      (moves_waitUntil (turned.wellFormed hb) c.boundary (l.turn c.tick).readings)
    rw [List.nil_append] at waited
    have hb := waited.wellFormed hb
    generalize waitUntil c.boundary (l.turn c.tick).readings (l.turn c.tick) = o at waited hb
    obtain ⟨result, w, notices⟩ := o
    cases result with
    | error =>
      simp only [Outcome.bind, List.append_nil]
      exact waited
    | ok =>
      have taken : Moves w [] { w with events := [] } := moves_rest rfl rfl rfl
      have drained := taken.trans (moves_handleAll (l := { w with events := [] }) hb w.events)
      rw [List.nil_append] at drained
      have settled := (waited.trans drained).trans moves_settle
      rw [List.append_nil] at settled
      simp only [Outcome.bind, drain, handleAll_result]
      exact settled

end Events

variable [Brokerage β]

/-! ## Operations -/

/-- The dealing that an operation of a request is, if it is one. -/
def dealing (r : Request) (l : Live β) : Operation → Option Entry
  | .insert code side price qty =>
    match l.gate.acquire.result, (Brokerage.place l.brokerage code side price qty).1,
      l.book.find? code with
    | .ok _, .ok number, some i => some (.placed r number i (i.newOrder l.book.nextId side price qty))
    | _, _, _ => none
  | .cancel code key qty =>
    match l.byKey.lookup key, l.gate.acquire.result with
    | none, _ => some (.unnumbered r code key)
    | some number, .ok _ => some (.asked r number code key qty)
    | some _, .error _ => none

/-- The history of some operations of a request, up to the first one that fails. -/
def executeLog (r : Request) (l : Live β) : List Operation → List Entry
  | [] => []
  | op :: ops =>
    (l.dealing r op).toList ++
      match (l.execute op).result with
      | .ok () => executeLog r (l.execute op).state ops
      | .error _ => []

section Operations

variable {l : Live β} {r : Request} {op : Operation} {ops : List Operation} {code : String}
  {side : Side} {price qty : Int} {key : Key}

theorem moves_insert (admits : l.book.Admits r (.insert code side price qty)) :
    Moves l (l.dealing r (.insert code side price qty)).toList (l.insert code side price qty).state
      ∧ ∀ c, c ≠ code → (l.insert code side price qty).state.book.find? c = l.book.find? c := by
  obtain ⟨i, found, hprice, hqty, backs⟩ := admits
  simp only [dealing, insert]
  cases l.gate.acquire.result with
  | error e => exact ⟨moves_rest rfl rfl rfl, fun _ _ => rfl⟩
  | ok =>
    simp only [found]
    cases (Brokerage.place l.brokerage code side price qty).1 with
    | error e => exact ⟨moves_rest rfl rfl rfl, fun _ _ => rfl⟩
    | ok number =>
      cases ok : l.book.insert code side price qty with
      | error => simp [Book.insert, found] at ok
      | ok p =>
        have entered : Moves l _ (l.enter number code p) :=
          (Move.placed (r := r) found hprice hqty backs ok).moves
        exact ⟨entered.trans (moves_rest rfl rfl rfl),
          fun c ne => Book.find?_of_insert_ne found ok ne⟩

/-- A cancel leaves the book as it is, whatever the brokerage says to it. -/
theorem moves_cancel (admits : l.book.Admits r (.cancel code key qty)) :
    Moves l (l.dealing r (.cancel code key qty)).toList (l.cancel code key qty).state
      ∧ (l.cancel code key qty).state.book = l.book := by
  obtain ⟨o, resting, -⟩ := admits
  simp only [dealing, cancel]
  cases known : l.byKey.lookup key with
  | none => exact ⟨(Move.unnumbered resting known).moves, rfl⟩
  | some number =>
    cases l.gate.acquire.result with
    | error e => exact ⟨moves_rest rfl rfl rfl, rfl⟩
    | ok =>
      have asked : Moves l [.asked r number code key qty] l := (Move.asked resting known).moves
      exact ⟨asked.trans (moves_rest rfl rfl rfl), rfl⟩

/-- An operation that was admitted is a move, and changes no other instrument. -/
theorem moves_execute (admits : l.book.Admits r op) :
    Moves l (l.dealing r op).toList (l.execute op).state
      ∧ (op.places = false → (l.execute op).state.book = l.book)
      ∧ ∀ c, c ≠ op.code → (l.execute op).state.book.find? c = l.book.find? c := by
  cases op with
  | insert code side price qty =>
    obtain ⟨moves, others⟩ := moves_insert admits
    exact ⟨moves, nofun, others⟩
  | cancel code key qty =>
    obtain ⟨moves, same⟩ := moves_cancel admits
    exact ⟨moves, fun _ => same, fun c _ => congrArg (·.find? c) same⟩

theorem moves_executeAll (sends : l.book.Sends r ops) :
    Moves l (executeLog r l ops) (Broker.executeAll r l ops).2.1 := by
  induction ops generalizing l with
  | nil => exact .refl l
  | cons op ops ih =>
    obtain ⟨moves, same, others⟩ := moves_execute (sends.admitted op List.mem_cons_self)
    simp only [executeLog, Broker.executeAll, Broker.execute]
    cases (l.execute op).result with
    | ok => exact moves.trans (ih (sends.rest same others))
    | error e =>
      rw [List.append_nil]
      simp only
      split <;> exact moves

end Operations

/-! ## Messages -/

/-- The history of a message's requests. -/
def applyLog (l : Live β) : List Request → List Entry
  | [] => []
  | r :: rs =>
    let resolution := l.book.allot r
    let operations := resolution.allotment.operations
    if operations.isEmpty then l.applyLog rs
    else if l.interrupted then []
    else
      let l : Live β := { l with interrupted := false }
      let o := if resolution.allotment.exempt then .ok () l else l.reserve operations.length
      match o.result with
      | .error _ => []
      | .ok () =>
        let next := Broker.executeAll r o.state operations
        executeLog r o.state operations ++
          match next.1 with
          | .throttled => []
          | .done => next.2.1.applyLog rs
          | .failed => next.2.1.applyLog rs

theorem moves_applyAll {l : Live β} {summary : Summary} {rs : List Request}
    (hb : l.book.WellFormed) :
    Moves l (l.applyLog rs) (Broker.applyAll summary l rs).broker := by
  induction rs generalizing l summary with
  | nil => exact .refl l
  | cons r rs ih =>
    simp only [Broker.applyAll, Broker.book, Broker.takeInterrupt, Broker.reserve, applyLog]
    split
    · exact ih hb
    · split
      · exact moves_rest rfl rfl rfl
      · obtain ⟨o, admitted, before, same⟩ := l.exists_admitted (l.book.allot r).allotment.exempt
          (l.book.allot r).allotment.operations.length
        simp only [admitted]
        cases o.result with
        | error e => exact before
        | ok _ =>
          have sends : o.state.book.Sends r (l.book.allot r).allotment.operations := by
            rw [same]
            exact Book.sends_allot hb r
          have moves := before.trans (moves_executeAll sends)
          rw [List.nil_append] at moves
          have rest := fun summary => moves.trans (@ih _ summary (moves.wellFormed hb))
          simp only
          cases (Broker.executeAll r o.state (l.book.allot r).allotment.operations).1 with
          | throttled =>
            rw [List.append_nil]
            exact moves
          | done => exact rest _
          | failed => exact rest _

/-! ## Runs -/

/-- What a live broker meets with. Between two requests of a message the same can happen;
such a message counts as two. -/
inductive Input (β : Type) where
  | send (e : MarketEvent)
  | hangUp
  | raise
  | clock (readings : List Nat)
  /-- The brokerage is in another state by now. -/
  | become (brokerage : β)
  /-- What the clock of the gate will show from here on. -/
  | time (readings : List Nat)
  | advance (c : TickContext)
  | apply (text : String)

def accept (l : Live β) : Input β → Live β
  | .send e => (l.send e).state
  | .hangUp => l.hangUp
  | .raise => l.raise
  | .clock readings => { l with readings }
  | .become brokerage => { l with brokerage }
  | .time readings => { l with gate := { l.gate with readings } }
  | .advance c => (l.advance c).state
  | .apply text => (Broker.apply l text).state

/-- The history of an input. -/
def log (l : Live β) : Input β → List Entry
  | .advance c => l.advanceLog c
  | .apply text => l.applyLog (Message.read text).requests
  | _ => []

/-- The broker after some inputs. -/
def run (l : Live β) (inputs : List (Input β)) : Live β := inputs.foldl accept l

/-- The history of some inputs. -/
def history (l : Live β) : List (Input β) → List Entry
  | [] => []
  | input :: inputs => l.log input ++ (l.accept input).history inputs

theorem moves_accept {l : Live β} (hb : l.book.WellFormed) (input : Input β) :
    Moves l (l.log input) (l.accept input) := by
  cases input with
  | send e =>
    simp only [accept, send]
    split <;> exact moves_rest rfl rfl rfl
  | hangUp => exact moves_rest rfl rfl rfl
  | raise => exact moves_rest rfl rfl rfl
  | clock readings => exact moves_rest rfl rfl rfl
  | become brokerage => exact moves_rest rfl rfl rfl
  | time readings => exact moves_rest rfl rfl rfl
  | advance c => exact moves_advance hb c
  | apply text => exact moves_applyAll hb

/-- A run is a series of moves with the run's history. -/
theorem moves_run {l : Live β} (hb : l.book.WellFormed) (inputs : List (Input β)) :
    Moves l (l.history inputs) (l.run inputs) := by
  induction inputs generalizing l with
  | nil => exact .refl l
  | cons input inputs ih =>
    have first := moves_accept hb input
    exact first.trans (ih (first.wellFormed hb))

theorem startBook_eq (balance : Int) (held : List (String × Int)) (ts : List Tracked) :
    startBook balance held ts
      = Book.opening balance (ts.map fun t => { t with holdings := heldQty held t }) := by
  simp only [startBook, Book.opening, Book.track, List.foldl_map]

/-- A brokerage that takes every order, for an account with some cash and holdings. -/
def scripted (balance : Int) (held : List (String × Int)) : ScriptedBrokerage :=
  ⟨[.ok balance], [.ok held], [], [], 0, []⟩

theorem fresh_connect {brokerage : β} {gate : Gate} {ts : List Tracked} {limit : Nat} {l : Live β}
    (connected : (connect brokerage gate ts limit).result = .ok l) : l.Fresh := by
  simp only [connect, Outcome.bind] at connected
  split at connected
  · cases connected
  · split at connected
    · cases connected
    · obtain rfl := Except.ok.inj connected
      exact ⟨⟨_, _, startBook_eq ..⟩, rfl, rfl⟩

end Live

end TradingDesk
