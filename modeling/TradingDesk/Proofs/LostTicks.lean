-- SUMMARY: A tick whose tapes cannot be read costs its records and nothing else.
import TradingDesk.Proofs.Checked

/-!
# Lost ticks

A tick reads its tapes before it matches anything, and looks at them once more at its end, to
see whether anything is left. The last look never fails after the first reads went well: a
tape that was read has a record ahead, or it has come to its end and stays there. So a tick
fails before it has changed anything but the tapes, or not at all.
-/

namespace TradingDesk

/-! ## Reading tapes -/

namespace Tape

variable {α : Type}

/-- Whether the next look at a tape cannot fail: it has a record ahead or has ended. -/
def Ready (t : Tape α) : Prop := t.ahead.isSome = true ∨ t.pending = [] ∧ t.fault = none

/-- What reading a tape comes to: the next look cannot fail, or the medium failed. -/
structure Read (o : Outcome (Tape α) (List (Timed α))) : Prop where
  ready : ∀ rs, o.result = .ok rs → o.state.Ready
  failed : ∀ e, o.result = .error e → e.kind = .replay

namespace Read

variable {o : Outcome (Tape α) (List (Timed α))}

theorem after (h : Read o) (notices : List Notice) : Read (o.after notices) := ⟨h.ready, h.failed⟩

theorem cons (h : Read o) (r : Timed α) : Read { o with result := o.result.map (r :: ·) } := by
  cases result : o.result with
  | ok rs => exact ⟨fun _ _ => h.ready rs result, fun _ error => by cases error⟩
  | error e =>
    refine ⟨fun _ ok => (by cases ok), fun _ error => ?_⟩
    obtain rfl := Except.error.inj error
    exact h.failed e result

/-- Nothing was read off a tape. -/
theorem none {t : Tape α} (ready : t.Ready) : Read (.ok [] t) :=
  ⟨fun _ _ => ready, fun _ error => by cases error⟩

end Read

variable [TapeRecord α] {t : Tape α} {boundary : Nat}

theorem read_readUntil {name : String} {fault : Option String} {line skipped : Nat}
    {lines : List (List UInt8)} :
    Read (readUntil name boundary fault line skipped lines : Outcome (Tape α) (List (Timed α))) := by
  induction lines generalizing line skipped with
  | nil =>
    cases fault with
    | none => exact .none (.inr ⟨rfl, rfl⟩)
    | some text =>
      refine ⟨fun _ ok => (by cases ok), fun _ error => ?_⟩
      obtain rfl := Except.error.inj error
      rfl
  | cons bytes lines ih =>
    simp only [readUntil]
    cases (Entry.ofBytes bytes : Entry α) with
    | nothing => exact ih
    | notText => exact ih.after _
    | malformed => exact ih.after _
    | record r =>
      simp only
      split
      · exact ih.cons r
      · exact .none (.inl rfl)

theorem read_takeUntil : Read (t.takeUntil boundary) := by
  simp only [takeUntil]
  split
  next => exact read_readUntil
  next r ahead =>
    split
    · exact read_readUntil.cons r
    · exact .none (.inl (by rw [ahead, Option.isSome_some]))

/-- Looking ahead on a tape whose last read went well. -/
theorem Ready.isExhausted (ready : t.Ready) : t.isExhausted.result = .ok t.ahead.isNone := by
  simp only [Tape.isExhausted, Tape.takeUntil]
  cases ahead : t.ahead with
  | some r => simp [Outcome.ok, Outcome.bind, ahead]
  | none =>
    obtain ⟨pending, fault⟩ : t.pending = [] ∧ t.fault = none := by
      simpa [Ready, ahead] using ready
    simp [pending, fault, readUntil, Outcome.ok, Outcome.bind]

end Tape

namespace Simulation

variable {s : Simulation} {c : TickContext} {e : Error}

/-- The look at the end of a tick does not fail where its reads went well. -/
theorem checkTapes_result {tick : Nat} (quotes : s.quotes.Ready) (trades : s.trades.Ready) :
    (s.checkTapes tick).result = .ok .goesOn := by
  simp only [checkTapes, Outcome.bind, Outcome.lift, quotes.isExhausted, trades.isExhausted]
  cases s.tapesDone <;> cases s.quotes.ahead.isNone <;> cases s.trades.ahead.isNone <;> rfl

/-- A close fails only where the report cannot be written. -/
theorem close_eq_error (failed : s.close.result = .error e) :
    ∃ file ∈ s.report, ∃ fault, file.fault = some fault ∧ e = .io fault := by
  simp only [close] at failed
  cases report : s.report with
  | none =>
    rw [report] at failed
    cases failed
  | some file =>
    rw [report] at failed
    cases broken : file.fault with
    | none =>
      simp only [broken] at failed
      cases failed
    | some fault =>
      simp only [broken] at failed
      exact ⟨file, rfl, fault, broken, (Except.error.inj failed).symm⟩

/-- A tick fails because a tape could not be read, with nothing done but the turn of the tick
and what was read, or because the report could not be written. -/
theorem advance_eq_error (failed : (s.advance c).result = .error e) :
    (∃ file ∈ s.report, ∃ fault, file.fault = some fault ∧ e = .io fault)
      ∨ e.kind = .replay ∧ ∃ trades,
        (trades = s.trades ∨ trades = (s.trades.takeUntil c.boundary).state)
          ∧ (s.advance c).state = { s.turn c.tick with
            quotes := (s.quotes.takeUntil c.boundary).state, trades } := by
  cases past : c.pastClose with
  | true =>
    simp only [advance, past, if_true] at failed
    exact .inl (close_eq_error (s := s.turn c.tick) failed)
  | false =>
    right
    cases quotes : (s.quotes.takeUntil c.boundary).result with
    | error e' =>
      have taken : ((s.turn c.tick).takeQuotes c.boundary).result = .error e' := quotes
      simp only [advance, past, Bool.false_eq_true, if_false, Outcome.bind, taken] at failed ⊢
      obtain rfl := Except.error.inj failed
      exact ⟨Tape.read_takeUntil.failed e' quotes, s.trades, .inl rfl, rfl⟩
    | ok qs =>
      have taken : ((s.turn c.tick).takeQuotes c.boundary).result = .ok qs := quotes
      cases trades : (s.trades.takeUntil c.boundary).result with
      | error e' =>
        have takenToo : (((s.turn c.tick).takeQuotes c.boundary).state.takeTrades
            c.boundary).result = .error e' := trades
        simp only [advance, past, Bool.false_eq_true, if_false, Outcome.bind, taken, takenToo]
          at failed ⊢
        obtain rfl := Except.error.inj failed
        exact ⟨Tape.read_takeUntil.failed e' trades, _, .inr rfl, rfl⟩
      | ok ts =>
        have due : s.due c = some (qs, ts) := due_eq_some.mpr ⟨past, quotes, trades⟩
        rw [(advance_of_due due).1, checkTapes_result (Tape.read_takeUntil.ready qs quotes)
          (Tape.read_takeUntil.ready ts trades)] at failed
        cases failed

end Simulation

/-! ## Sessions -/

namespace Book

/-- The book without its exhausted orders, at the next tick. -/
def turned (b : Book) (tick : Nat) : Book :=
  { b with
    tick
    instruments := b.instruments.map fun i =>
      { i with orders := i.orders.filter fun o => decide (o.qty ≠ 0) } }

/-- No order has less than nothing open, so a sweep takes those of which nothing is. -/
theorem Sane.turned_eq {b : Book} {tick : Nat} (sane : b.Sane) :
    { b.sweep with tick } = b.turned tick := by
  obtain ⟨_, solvent⟩ := sane.solvent
  have orders : ∀ i ∈ b.instruments, i.sweep
      = { i with orders := i.orders.filter fun o => decide (o.qty ≠ 0) } := by
    intro i hi
    have live : i.liveOrders = i.orders.filter fun o => decide (o.qty ≠ 0) := by
      refine List.filter_congr fun o ho => ?_
      have nonneg := (solvent.funded i hi o ho).qty
      rw [Order.isLive, decide_eq_decide]
      omega
    rw [Instrument.sweep, live]
  exact congrArg (fun is => { b with tick, instruments := is }) (List.map_congr_left orders)

end Book

namespace Session

variable {s : Session Simulation} {e : Error}

/-- In turn, `advance` fails as the broker does, and out of turn it does not fail over a tape. -/
theorem advance_eq_error (failed : s.advance.result = .error e) :
    e.kind = .invalidState ∧ s.phase ≠ .idle
      ∨ s.phase = .idle ∧ (s.broker.advance s.nextTick).result = .error e := by
  cases turn : s.outOfTurn .advance with
  | some e' =>
    simp only [Session.advance, turn] at failed
    obtain rfl := Except.error.inj failed
    refine .inl ⟨kind_of_outOfTurn turn, fun idle => ?_⟩
    rw [outOfTurn_eq_none.mpr idle] at turn
    cases turn
  | none =>
    simp only [Session.advance, turn] at failed
    exact .inr ⟨outOfTurn_eq_none.mp turn, failed⟩

/-- A call of `advance` that fails over a tape loses the tick and what was read for it. -/
theorem advance_lost (sane : s.broker.book.Sane) (failed : s.advance.result = .error e)
    (lost : e.kind = .replay) : s.phase = .idle ∧ ∃ trades,
      (trades = s.broker.trades
          ∨ trades = (s.broker.trades.takeUntil s.nextTick.boundary).state)
        ∧ s.advance.state = { s with
          tick := s.tick + 1
          broker := { s.broker with
            book := s.broker.book.turned (s.tick + 1)
            quotes := (s.broker.quotes.takeUntil s.nextTick.boundary).state
            trades
            budget := s.broker.budget.reset } } := by
  rcases advance_eq_error failed with ⟨kind, -⟩ | ⟨idle, brokerFailed⟩
  · rw [kind] at lost
    cases lost
  refine ⟨idle, ?_⟩
  rcases Simulation.advance_eq_error brokerFailed with ⟨_, _, _, _, rfl⟩ | ⟨-, trades, moved, state⟩
  · cases lost
  have book : { s.broker.book.sweep with tick := s.tick + 1 } = s.broker.book.turned (s.tick + 1) :=
    sane.turned_eq
  refine ⟨trades, moved, ?_⟩
  have inTurn : s.outOfTurn .advance = none := outOfTurn_eq_none.mpr idle
  have failedHere : (Broker.advance s.broker s.nextTick).result = .error e := brokerFailed
  have stateHere : (Broker.advance s.broker s.nextTick).state = _ := state
  simp only [Session.advance, inTurn, failedHere, stateHere, lost, if_true]
  rw [← book]
  rfl

end Session

end TradingDesk
