-- SUMMARY: The states of a simulation, between ticks and in the middle of a message.
import TradingDesk.Proofs.Sessions

/-!
# Reachability

A session runs a simulation from message to message, but what a request is resolved
against is the state that the operations before it have left. So a simulation is followed
here call by call, whatever the calls are and whoever makes them. A session makes them
through `Broker.apply`, which takes one call after another: what each of them keeps, a
message keeps.
-/

namespace TradingDesk

/-! ## Messages -/

namespace Broker

variable {β : Type} [Broker β] {P : β → Prop} {b : β}

/-- A property of brokers that the calls of a message keep. -/
structure Keeps (P : β → Prop) : Prop where
  takeInterrupt : ∀ b, P b → P (takeInterrupt b).2
  reserve : ∀ b n, P b → P (reserve b n).state
  execute : ∀ b op, P b → P (execute b op).state

namespace Keeps

theorem executeAll (h : Keeps P) (r : Request) (ops : List Operation) (hb : P b) :
    P (Broker.executeAll r b ops).2.1 := by
  induction ops generalizing b with
  | nil => exact hb
  | cons op ops ih =>
    have first : P (Broker.execute b op).state := h.execute b op hb
    simp only [Broker.executeAll]
    cases (Broker.execute b op).result with
    | ok => exact ih first
    | error e =>
      simp only
      split <;> exact first

theorem admitted (h : Keeps P) (exempt : Bool) (n : Nat) (hb : P b) :
    P (if exempt then .ok () b else Broker.reserve b n : Outcome β Unit).state := by
  cases exempt with
  | true => exact hb
  | false => exact h.reserve b n hb

theorem applyAll (h : Keeps P) (summary : Summary) (rs : List Request) (hb : P b) :
    P (Broker.applyAll summary b rs).broker := by
  induction rs generalizing b summary with
  | nil => exact hb
  | cons r rs ih =>
    simp only [Broker.applyAll]
    split
    · exact ih _ hb
    · have cleared : P (Broker.takeInterrupt b).2 := h.takeInterrupt b hb
      split
      · exact cleared
      · have admitted := h.admitted ((book b).allot r).allotment.exempt
          ((book b).allot r).allotment.operations.length cleared
        split
        · exact admitted
        · have executed := h.executeAll r ((book b).allot r).allotment.operations admitted
          split
          · exact executed
          · exact ih _ executed
          · exact ih _ executed

theorem apply (h : Keeps P) (text : String) (hb : P b) : P (Broker.apply b text).state :=
  h.applyAll _ _ hb

end Keeps

end Broker

/-! ## Simulations -/

namespace Simulation

variable {s : Simulation}

/-- The states that a simulation with an opening book comes to, whatever it is called with. -/
inductive Reachable : Simulation → Prop
  | opened {s : Simulation} (balance : Int) (ts : List Tracked)
      (book : s.book = Book.opening balance ts) : Reachable s
  | advance {s : Simulation} (h : Reachable s) (c : TickContext) : Reachable (s.advance c).state
  | reserve {s : Simulation} (h : Reachable s) (n : Nat) : Reachable (s.reserve n).state
  | execute {s : Simulation} (h : Reachable s) (op : Operation) : Reachable (s.execute op).state
  /-- An interrupt is raised, or noticed and taken back. -/
  | flag {s : Simulation} (h : Reachable s) (interrupted : Bool) : Reachable { s with interrupted }

theorem wellFormed_insert (hb : s.book.WellFormed) (code : String) (side : Side) (price qty : Int) :
    (s.insert code side price qty).state.book.WellFormed := by
  simp only [Simulation.insert]
  cases placed : s.book.insert code side price qty with
  | error e => exact hb
  | ok p =>
    cases found : s.book.find? code with
    | none => simp [Book.insert, found] at placed
    | some i =>
      have foundAfter := Book.find?_of_insert found placed
      have after : p.book.WellFormed := (Book.Step.place found placed).wellFormed hb
      simp only [foundAfter]
      exact after.of_account (after.account_set foundAfter (Instrument.account_stamp side p.answer))

theorem wellFormed_cancel (hb : s.book.WellFormed) (code : String) (key : Key) (qty : Int) :
    (s.cancel code key qty).state.book.WellFormed := by
  cases done : s.book.execute (.cancel code key qty) with
  | ok c => exact (carries_cancel done).moves.wellFormed hb
  | error e =>
    have failed : s.book.cancel code key qty = .error e := by
      simp only [Book.execute] at done
      cases h : s.book.cancel code key qty with
      | error => simpa [h, Except.map] using done
      | ok => simp [h, Except.map] at done
    simp only [Simulation.cancel, failed]
    exact hb

theorem wellFormed_execute (hb : s.book.WellFormed) (op : Operation) :
    (s.execute op).state.book.WellFormed := by
  cases op with
  | insert code side price qty => exact wellFormed_insert hb code side price qty
  | cancel code key qty => exact wellFormed_cancel hb code key qty

theorem Reachable.wellFormed (h : s.Reachable) : s.book.WellFormed := by
  induction h with
  | opened balance ts book =>
    rw [book]
    exact Book.wellFormed_opening balance ts
  | @advance s _ c ih =>
    have any : s.quotes.Holds (·.Shows fun _ => True) := Tape.holds_of_forall shows_true _
    exact (moves_advance any ih).wellFormed ih
  | @reserve s _ n ih =>
    rw [book_reserve]
    exact ih
  | execute _ op ih => exact wellFormed_execute ih op
  | flag _ _ ih => exact ih

theorem keeps_reachable : Broker.Keeps Reachable where
  takeInterrupt _ h := h.flag false
  reserve _ n h := h.reserve n
  execute _ op h := h.execute op

end Simulation

/-! ## Sessions -/

namespace Session

variable {s : Session Simulation}

theorem reachable_accept (h : s.broker.Reachable) (input : Input) :
    (s.accept input).broker.Reachable := by
  cases input with
  | advance =>
    by_cases idle : s.phase = .idle
    · rw [(advance_inTurn idle).1]
      exact h.advance s.nextTick
    · rw [(advance_outOfTurn idle).1]
      exact h
  | buildMsgOut =>
    simp only [accept, Session.buildMsgOut]
    cases s.outOfTurn .buildMsgOut <;> exact h
  | applyMsgIn text =>
    simp only [accept, Session.applyMsgIn]
    cases s.outOfTurn .applyMsgIn with
    | some e => exact h
    | none => exact Simulation.keeps_reachable.apply text h
  | interrupt => exact h.flag true

/-- All that a session makes of its simulation can be reached. -/
theorem reachable_run (h : s.broker.Reachable) (inputs : List Input) :
    (s.run inputs).broker.Reachable := by
  induction inputs generalizing s with
  | nil => exact h
  | cons input inputs ih => exact ih (reachable_accept h input)

end Session

end TradingDesk
