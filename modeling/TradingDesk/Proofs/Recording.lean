-- SUMMARY: What a brokerage is asked for in a run, as it writes it down itself.
import TradingDesk.Proofs.Relays

/-!
# Recording

The history of a run is kept beside the broker, so it could say what the broker does not do.
Here the brokerage is made to write down by itself which orders it takes, under which
numbers, and which cancels it is asked for. A broker behaves towards it as towards any other,
and what it has written down after a run is what the history tells, in the same order.
-/

namespace TradingDesk

/-- What a brokerage writes down. -/
inductive Deal where
  /-- An order that it took under a number. -/
  | order (number : Nat) (code : String) (side : Side) (price qty : Int)
  /-- A cancel that it was asked for, under the number of an order. -/
  | cancel (number : Nat) (code : String) (qty : Int)
  deriving DecidableEq, Repr

/-- A brokerage that writes down what it is asked for. -/
structure Recorded (β : Type) where
  brokerage : β
  deals : List Deal

instance {β : Type} [Brokerage β] : Brokerage (Recorded β) where
  balance r :=
    let (a, brokerage) := Brokerage.balance r.brokerage
    (a, { r with brokerage })
  holdings r :=
    let (a, brokerage) := Brokerage.holdings r.brokerage
    (a, { r with brokerage })
  place r code side price qty :=
    let (a, brokerage) := Brokerage.place r.brokerage code side price qty
    let deals := match a with
      | .ok number => r.deals ++ [.order number code side price qty]
      | .error _ => r.deals
    (a, ⟨brokerage, deals⟩)
  cancel r number code qty :=
    let (a, brokerage) := Brokerage.cancel r.brokerage number code qty
    (a, ⟨brokerage, r.deals ++ [.cancel number code qty]⟩)

namespace Live

variable {β : Type}

/-- What a dealing is for the brokerage. -/
def Entry.deal? : Entry → Option Deal
  | .placed _ number i o => some (.order number i.code o.side o.price o.qty)
  | .asked _ number code _ qty => some (.cancel number code qty)
  | .unnumbered .. => none
  | .booked .. => none

/-- The broker at a brokerage that goes on with a record. -/
def recording (l : Live β) (deals : List Deal) : Live (Recorded β) :=
  { l with brokerage := ⟨l.brokerage, deals⟩ }

def Input.recording : Input β → Input (Recorded β)
  | .send e => .send e
  | .hangUp => .hangUp
  | .raise => .raise
  | .clock readings => .clock readings
  | .become brokerage => .become ⟨brokerage, []⟩
  | .time readings => .time readings
  | .advance c => .advance c
  | .apply text => .apply text

theorem reserve_recording (l : Live β) (deals : List Deal) (n : Nat) :
    (l.recording deals).reserve n = (l.reserve n).lift (·.recording deals) := by
  have budget : (l.recording deals).budget = l.budget := rfl
  simp only [reserve, budget]
  cases l.budget.reserve n <;> rfl

section Advance

variable {l : Live β} {e : MarketEvent} {entry : Entry}

/-! ## Ticks -/

theorem brokerage_handle : (l.handle e).state.brokerage = l.brokerage := by
  simp only [handle]
  split <;> rfl

theorem brokerage_handleAll (es : List MarketEvent) :
    (l.handleAll es).state.brokerage = l.brokerage := by
  induction es generalizing l with
  | nil => rfl
  | cons e es ih =>
    rw [handleAll, state_bind_handle, ih, brokerage_handle]

theorem brokerage_waitUntil (boundary : Nat) (readings : List Nat) :
    (waitUntil boundary readings l).state.brokerage = l.brokerage := by
  induction readings generalizing l with
  | nil => rfl
  | cons now later ih =>
    simp only [waitUntil]
    split
    · rfl
    · cases l.events with
      | nil =>
        cases l.connected with
        | true => exact ih
        | false => rfl
      | cons e es =>
        simp only [state_bind_handle]
        exact ih.trans brokerage_handle

/-- A tick has nothing to do with the brokerage. -/
theorem brokerage_advance (c : TickContext) : (l.advance c).state.brokerage = l.brokerage := by
  simp only [advance]
  split
  · rfl
  · have waited := brokerage_waitUntil (l := l.turn c.tick) c.boundary (l.turn c.tick).readings
    generalize waitUntil c.boundary (l.turn c.tick).readings (l.turn c.tick) = o at waited
    obtain ⟨result, w, notices⟩ := o
    cases result with
    | error => exact waited
    | ok =>
      simp only [Outcome.bind, drain, handleAll_result]
      exact (brokerage_handleAll (l := { w with events := [] }) w.events).trans waited

theorem deal?_booking (booked : l.booking? e = some entry) : entry.deal? = none := by
  simp only [booking?, Option.bind_eq_some_iff, Option.map_eq_some_iff] at booked
  obtain ⟨_, _, _, _, _, _, rfl⟩ := booked
  rfl

theorem deals_booking (l : Live β) (e : MarketEvent) :
    (l.booking? e).toList.filterMap Entry.deal? = [] := by
  cases booked : l.booking? e with
  | none => rfl
  | some entry => exact List.filterMap_cons_none (deal?_booking booked)

theorem deals_handleLog (es : List MarketEvent) : (l.handleLog es).filterMap Entry.deal? = [] := by
  induction es generalizing l with
  | nil => rfl
  | cons e es ih => rw [handleLog, List.filterMap_append, deals_booking, ih, List.append_nil]

theorem deals_waitLog (boundary : Nat) (readings : List Nat) :
    (waitLog boundary readings l).filterMap Entry.deal? = [] := by
  induction readings generalizing l with
  | nil => rfl
  | cons now later ih =>
    simp only [waitLog]
    split
    · rfl
    · cases l.events with
      | nil =>
        cases l.connected with
        | true => exact ih
        | false => rfl
      | cons e es => rw [List.filterMap_append, deals_booking, ih, List.append_nil]

theorem deals_advanceLog (c : TickContext) : (l.advanceLog c).filterMap Entry.deal? = [] := by
  simp only [advanceLog]
  split
  · rfl
  · rw [List.filterMap_append, deals_waitLog, List.nil_append]
    split
    · rfl
    · exact deals_handleLog _

end Advance

variable [Brokerage β]

/-! ## Operations -/

section Operations

variable {l : Live β} {r : Request} {op : Operation} {ops : List Operation}

/-- An operation has the same outcome at a brokerage with a record, and what is written down of
it is the dealing that it is. -/
theorem execute_recording (admits : l.book.Admits r op) (deals : List Deal) :
    (l.recording deals).execute op
      = (l.execute op).lift (·.recording (deals ++ (l.dealing r op).toList.filterMap Entry.deal?)) := by
  cases op with
  | insert code side price qty =>
    obtain ⟨i, found, -⟩ := admits
    obtain rfl := Book.code_of_find? found
    simp only [execute, insert, dealing, recording, Brokerage.place, found]
    cases l.gate.acquire.result with
    | error e =>
      simp only [Outcome.fail, Outcome.lift, Option.toList_none, List.filterMap_nil, List.append_nil]
    | ok =>
      cases (Brokerage.place l.brokerage i.code side price qty).1 with
      | error e =>
        simp only [Outcome.fail, Outcome.lift, Option.toList_none, List.filterMap_nil,
          List.append_nil]
      | ok number =>
        cases placed : l.book.insert i.code side price qty with
        | error e => simp [Book.insert, found] at placed
        | ok p => rfl
  | cancel code key qty =>
    simp only [execute, cancel, dealing, recording, Brokerage.cancel]
    cases l.byKey.lookup key with
    | none =>
      simp only [Outcome.fail, Outcome.lift, Option.toList_some, List.filterMap_cons, Entry.deal?,
        List.filterMap_nil, List.append_nil]
    | some number =>
      cases l.gate.acquire.result with
      | error e =>
        simp only [Outcome.fail, Outcome.lift, Option.toList_none, List.filterMap_nil,
          List.append_nil]
      | ok => rfl

theorem executeAll_recording (sends : l.book.Sends r ops) (deals : List Deal) :
    Broker.executeAll r (l.recording deals) ops
      = let after := Broker.executeAll r l ops
        (after.1, after.2.1.recording (deals ++ (executeLog r l ops).filterMap Entry.deal?),
          after.2.2) := by
  induction ops generalizing l deals with
  | nil => simp only [Broker.executeAll, executeLog, List.filterMap_nil, List.append_nil]
  | cons op ops ih =>
    have admits := sends.admitted op List.mem_cons_self
    obtain ⟨-, same, others⟩ := moves_execute admits
    have rest := sends.rest same others
    have first := execute_recording admits deals
    simp only [Broker.executeAll, Broker.execute, first, executeLog, Outcome.lift,
      List.filterMap_append, ← List.append_assoc]
    cases (l.execute op).result with
    | ok => simp only [ih rest]
    | error e =>
      simp only [List.filterMap_nil, List.append_nil]
      split <;> rfl

end Operations

/-! ## Messages -/

/-- What is written down of a message is its history. -/
theorem applyAll_recording {l : Live β} {summary : Summary} {rs : List Request}
    (hb : l.book.WellFormed) (deals : List Deal) :
    (Broker.applyAll summary (l.recording deals) rs).broker
      = (Broker.applyAll summary l rs).broker.recording
          (deals ++ (l.applyLog rs).filterMap Entry.deal?) := by
  induction rs generalizing l deals summary with
  | nil => simp only [Broker.applyAll, applyLog, List.filterMap_nil, List.append_nil]
  | cons r rs ih =>
    have book : (l.recording deals).book = l.book := rfl
    have flag : (l.recording deals).interrupted = l.interrupted := rfl
    simp only [Broker.applyAll, Broker.book, Broker.takeInterrupt, Broker.reserve, applyLog, book,
      flag]
    split
    · exact ih hb deals
    · split
      · simp only [List.filterMap_nil, List.append_nil]
        rfl
      · obtain ⟨o, admitted, -, same⟩ := l.exists_admitted (l.book.allot r).allotment.exempt
          (l.book.allot r).allotment.operations.length
        have admittedHere : (if (l.book.allot r).allotment.exempt then
              .ok () { l.recording deals with book := l.book, interrupted := false }
            else reserve { l.recording deals with book := l.book, interrupted := false }
              (l.book.allot r).allotment.operations.length)
            = o.lift (·.recording deals) := by
          rw [← admitted]
          split
          · rfl
          · exact reserve_recording { l with interrupted := false } deals _
        simp only [admitted, admittedHere, Outcome.lift]
        cases o.result with
        | error e => simp only [List.filterMap_nil, List.append_nil]
        | ok _ =>
          have sends : o.state.book.Sends r (l.book.allot r).allotment.operations := by
            rw [same]
            exact Book.sends_allot hb r
          have rest := (moves_executeAll sends).wellFormed (same ▸ hb)
          simp only [executeAll_recording sends, List.filterMap_append, ← List.append_assoc]
          cases (Broker.executeAll r o.state (l.book.allot r).allotment.operations).1 with
          | throttled => simp only [List.filterMap_nil, List.append_nil]
          | done => exact ih rest _
          | failed => exact ih rest _

/-! ## Runs -/

/-- What the brokerage writes down in the course of some inputs. For each input it starts
another record. -/
def deals (l : Live β) : List (Input β) → List Deal
  | [] => []
  | input :: inputs =>
    ((l.recording []).accept input.recording).brokerage.deals ++ (l.accept input).deals inputs

theorem deals_accept {l : Live β} (hb : l.book.WellFormed) (input : Input β) :
    ((l.recording []).accept input.recording).brokerage.deals
      = (l.log input).filterMap Entry.deal? := by
  cases input with
  | send e =>
    have connected : (l.recording []).connected = l.connected := rfl
    simp only [Input.recording, accept, send, connected]
    cases l.connected <;> rfl
  | hangUp => rfl
  | raise => rfl
  | clock readings => rfl
  | become brokerage => rfl
  | time readings => rfl
  | advance c =>
    exact (congrArg Recorded.deals (brokerage_advance c)).trans (deals_advanceLog c).symm
  | apply text =>
    exact congrArg (·.brokerage.deals) (applyAll_recording hb [])

/-- What the brokerage has written down in a run is what the history of the run tells. -/
theorem deals_eq {l : Live β} (hb : l.book.WellFormed) (inputs : List (Input β)) :
    l.deals inputs = (l.history inputs).filterMap Entry.deal? := by
  induction inputs generalizing l with
  | nil => rfl
  | cons input inputs ih =>
    have rest := ih ((moves_accept hb input).wellFormed hb)
    rw [deals, history, List.filterMap_append, deals_accept hb, rest]

end Live

end TradingDesk
