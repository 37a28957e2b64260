-- SUMMARY: The moves that a simulated session makes, call by call, and the history that it leaves.
import TradingDesk.Proofs.Moves
import TradingDesk.Proofs.Tapes
import TradingDesk.Session.Basic

/-!
# Sessions

Whatever is called on a simulated session, its book makes `Moves`. The operations of a
message fit the book that they meet, because requests are resolved against the book that
the one before left.
-/

namespace TradingDesk

/-! ## Operations -/

namespace Simulation

variable {s : Simulation} {c : Book} {code : String} {side : Side} {price qty : Int} {key : Key}

/-- What is kept of an operation that was carried out in `s`: it succeeds where the book's
own accounting does, as a series of moves, and leaves the same account. -/
structure Carries (s : Simulation) (op : Operation) (c : Book) (after : Outcome Simulation Unit) :
    Prop where
  result : after.result = .ok ()
  moves : Book.MovesBy Cause.IsRequest s.book (s.book.event? op.command).toList after.state.book
  account : after.state.book.account = c.account

theorem carries_insert (hb : s.book.WellFormed) (clear : s.book.Clear (.insert code side price qty))
    (fits : s.book.Fits (.insert code side price qty))
    (done : s.book.execute (.insert code side price qty) = .ok c) :
    s.Carries (.insert code side price qty) c (s.insert code side price qty) := by
  obtain ⟨i, found, -⟩ := id fits
  cases placed : s.book.insert code side price qty with
  | error => simp [Book.insert, found] at placed
  | ok p =>
    have after : p.book = c := by simpa [Book.execute, placed, Except.map] using done
    have answer : p.answer = ⟨price, s.book.nextId⟩ := by
      simp only [Book.insert, found, Except.ok.injEq] at placed
      rw [← placed]
    have foundAfter := Book.find?_of_insert found placed
    have kept := (after ▸ Book.execute_wellFormed hb done : p.book.WellFormed).account_set
      foundAfter (Instrument.account_stamp side ⟨price, s.book.nextId⟩)
    have moves : Book.MovesBy Cause.IsRequest _ _ _ :=
      (Book.Move.place found (clear i found) fits placed).moves trivial
    simp only [Simulation.insert, placed, foundAfter, answer]
    refine ⟨rfl, ?_, after ▸ kept⟩
    simp only [Operation.command, Book.event?, found]
    exact moves

/-- A cancel that takes something from an order is booked, and the ranks behind it are closed. -/
theorem cancel_withdrawn {i i' : Instrument} {o : Order} {w : Withdrawal}
    (found : s.book.find? code = some i) (resting : Orders.find? key i.orders = some o)
    (withdrawn : i.withdraw o qty = some (i', w)) :
    (s.cancel code key qty).result = .ok ()
      ∧ (s.cancel code key qty).state = { s with
          book := { s.book.set (i'.closeRanks o.side key w.qty) with
            balance := s.book.balance + w.release } } := by
  obtain ⟨pos, -, -, after⟩ := Instrument.withdraw_eq_some withdrawn
  have foundAfter : { s.book.set i' with balance := s.book.balance + w.release }.find? code
      = some i' :=
    Book.find?_set_self found (Instrument.code_of_withdraw withdrawn)
  have restingAfter : Orders.find? key i'.orders = some (o.shrink i.kind w.qty) := by
    rw [after, ← Orders.key_of_find? resting]
    rw [← Orders.key_of_find? resting] at resting
    exact Orders.find?_update_self (fun _ => Order.key_shrink) resting
  have joined : ({ s.book with balance := s.book.balance + w.release }.set i').set
      (i'.closeRanks o.side key w.qty)
      = { s.book.set (i'.closeRanks o.side key w.qty) with
          balance := s.book.balance + w.release } :=
    Book.set_set rfl
  simp only [Simulation.cancel, Book.cancel, found, resting, withdrawn, true_and]
  simp only [foundAfter, restingAfter, if_pos pos, Order.shrink_side]
  exact congrArg (fun book => { s with book }) joined

theorem carries_cancel (done : s.book.execute (.cancel code key qty) = .ok c) :
    s.Carries (.cancel code key qty) c (s.cancel code key qty) := by
  cases found : s.book.find? code with
  | none => simp [Book.execute, Book.cancel, found, Except.map] at done
  | some i =>
    cases resting : Orders.find? key i.orders with
    | none => simp [Book.execute, Book.cancel, found, resting, Except.map] at done
    | some o =>
      cases withdrawn : i.withdraw o qty with
      | none =>
        have after : s.book = c := by
          simpa [Book.execute, Book.cancel, found, resting, withdrawn, Except.map] using done
        simp only [Simulation.cancel, Book.cancel, found, resting, withdrawn, lt_irrefl, if_false]
        refine ⟨rfl, ?_, after ▸ rfl⟩
        simp only [Operation.command, Book.event?, found, resting, withdrawn, Option.bind_eq_bind,
          Option.bind_some, Option.bind_none]
        exact .refl s.book
      | some result =>
        obtain ⟨i', w⟩ := result
        obtain ⟨result, state⟩ := cancel_withdrawn found resting withdrawn
        have after : { s.book.set i' with balance := s.book.balance + w.release } = c := by
          simpa [Book.execute, Book.cancel, found, resting, withdrawn, Except.map] using done
        refine ⟨result, ?_, ?_⟩
        · simp only [Operation.command, Book.event?, found, resting, withdrawn,
            Option.bind_eq_bind, Option.bind_some]
          rw [state]
          exact (Book.Move.cancel found resting withdrawn).moves trivial
        · rw [state, ← after]
          exact Book.account_with_balance
            (Book.account_set_congr rfl (Instrument.account_closeRanks o.side key w.qty)) _

/-- An operation that fits a book can be carried out in a simulation of the same account. -/
theorem carries_execute {b : Book} {op : Operation} (hb : s.book.WellFormed)
    (same : s.book.account = b.account) (clear : s.book.Clear op) (fits : b.Fits op)
    (done : b.execute op = .ok c) :
    ∃ c', s.Carries op c' (s.execute op) ∧ c'.account = c.account := by
  obtain ⟨c', done', account⟩ := Book.execute_of_account same done
  refine ⟨c', ?_, account⟩
  cases op with
  | insert => exact carries_insert hb clear (Book.fits_insert_of_account same fits) done'
  | cancel => exact carries_cancel done'

/-- The history of some operations, up to the first one that fails. -/
def executeLog (s : Simulation) : List Operation → List Event
  | [] => []
  | op :: ops =>
    (s.book.event? op.command).toList ++
      match (s.execute op).result with
      | .ok () => (s.execute op).state.executeLog ops
      | .error _ => []

theorem moves_executeAll {b b' : Book} {r : Request} {ops : List Operation} (sane : s.book.Sane)
    (same : s.book.account = b.account) (clear : ∀ op ∈ ops, s.book.Clear op)
    (carried : Book.Carried b ops b') :
    (Broker.executeAll r s ops).1 = .done
      ∧ Book.MovesBy Cause.IsRequest s.book (s.executeLog ops)
          (Broker.executeAll r s ops).2.1.book
      ∧ (Broker.executeAll r s ops).2.1.book.account = b'.account := by
  induction carried generalizing s with
  | nil => exact ⟨rfl, .refl s.book, same⟩
  | @cons b c b'' op ops fits done rest ih =>
    obtain ⟨c', carries, account⟩ :=
      carries_execute sane.wellFormed same (clear op List.mem_cons_self) fits done
    have clearThen : ∀ op' ∈ ops, (s.execute op).state.book.Clear op' := fun op' hop =>
      (clear op' (List.mem_cons_of_mem op hop)).of_venue? carries.moves.venue?
    obtain ⟨ending, moves, applied⟩ :=
      ih (carries.moves.sane sane) (carries.account.trans account) clearThen
    have result : (Broker.execute s op).result = .ok () := carries.result
    simp only [Broker.executeAll, result, executeLog, carries.result]
    exact ⟨ending, carries.moves.trans moves, applied⟩

/-! ## Messages -/

/-- The history of a message's requests. -/
def applyLog (s : Simulation) : List Request → List Event
  | [] => []
  | r :: rs =>
    let resolution := s.book.allot r
    let operations := resolution.allotment.operations
    if operations.isEmpty then s.applyLog rs
    else if s.interrupted then []
    else
      let s : Simulation := { s with interrupted := false }
      let o := if resolution.allotment.exempt then .ok () s else s.reserve operations.length
      match o.result with
      | .error _ => []
      | .ok () =>
        let next := Broker.executeAll r o.state operations
        o.state.executeLog operations ++
          match next.1 with
          | .throttled => []
          | .done => next.2.1.applyLog rs
          | .failed => next.2.1.applyLog rs

theorem book_reserve {n : Nat} : (s.reserve n).state.book = s.book := by
  simp only [reserve]
  split <;> rfl

/-- What no message changes: the tapes, what was made of them, and the limit of the budget. -/
structure Steady (s s' : Simulation) : Prop where
  quotes : s'.quotes = s.quotes
  trades : s'.trades = s.trades
  limit : s'.budget.limit = s.budget.limit
  report : s'.report = s.report
  tapesDone : s'.tapesDone = s.tapesDone

namespace Steady

variable {s' s'' : Simulation}

theorem refl (s : Simulation) : Steady s s := ⟨rfl, rfl, rfl, rfl, rfl⟩

theorem trans (first : Steady s s') (second : Steady s' s'') : Steady s s'' where
  quotes := second.quotes.trans first.quotes
  trades := second.trades.trans first.trades
  limit := second.limit.trans first.limit
  report := second.report.trans first.report
  tapesDone := second.tapesDone.trans first.tapesDone

end Steady

theorem steady_reserve {n : Nat} : Steady s (s.reserve n).state := by
  simp only [reserve, Budget.reserve]
  split
  next reserved =>
    split at reserved
    · cases reserved
      exact ⟨rfl, rfl, rfl, rfl, rfl⟩
    · cases reserved
  next => exact .refl s

/-- Admission to some operations changes neither the book nor the tapes. -/
theorem exists_admitted (s : Simulation) (exempt : Bool) (n : Nat) :
    ∃ o : Outcome Simulation Unit,
      (if exempt then .ok () { s with interrupted := false }
        else reserve { s with interrupted := false } n) = o
      ∧ o.state.book = s.book ∧ Steady s o.state := by
  refine ⟨_, rfl, ?_⟩
  have cleared : Steady s { s with interrupted := false } := ⟨rfl, rfl, rfl, rfl, rfl⟩
  cases exempt with
  | true => exact ⟨rfl, cleared⟩
  | false => exact ⟨book_reserve, cleared.trans steady_reserve⟩

theorem moves_applyAll {summary : Summary} {rs : List Request} (sane : s.book.Sane) :
    Book.MovesBy Cause.IsRequest s.book (s.applyLog rs)
      (Broker.applyAll summary s rs).broker.book := by
  induction rs generalizing s summary with
  | nil => exact .refl s.book
  | cons r rs ih =>
    obtain ⟨b', carried⟩ := Book.carried_allot (r := r) sane.wellFormed sane.idle
    simp only [Broker.applyAll, Broker.book, Broker.takeInterrupt, Broker.reserve, applyLog]
    split
    · exact ih sane
    · split
      · exact .refl s.book
      · obtain ⟨o, admitted, kept, -⟩ := s.exists_admitted (s.book.allot r).allotment.exempt
          (s.book.allot r).allotment.operations.length
        simp only [admitted]
        cases o.result with
        | error e =>
          simp only [kept]
          exact .refl s.book
        | ok _ =>
          have clear : ∀ op ∈ (s.book.allot r).allotment.operations, o.state.book.Clear op := by
            rw [kept]
            exact Book.clear_allot sane
          obtain ⟨ending, moves, -⟩ := moves_executeAll (r := r) (kept ▸ sane)
            (congrArg Book.account kept) clear carried
          simp only [ending]
          rw [kept] at moves
          exact moves.trans (ih (moves.sane sane))

end Simulation

/-! ## Ticks -/

namespace Book

variable {D : Depth → Prop} {P : Cause → Prop} {b b' : Book} {quotes : List (Timed QuoteRecord)}
  {trades : List (Timed Trade)}

/-- The history of one tick of records. -/
def replayLog (b : Book) (quotes : List (Timed QuoteRecord)) (trades : List (Timed Trade)) :
    List Event :=
  let b := quotes.foldl observe b
  b.instruments.flatMap fun i =>
    (i.matchTick (lastDepth i.code quotes) (printsOf i.code trades)).fills.map (.filled i.code)

theorem moves_setDetail {code : String} {detail : Detail} (quiet : P .quiet) (hb : b.WellFormed) :
    MovesBy P b [] (b.setDetail code detail) := by
  simp only [setDetail]
  cases found : b.find? code with
  | none => exact .refl b
  | some i =>
    have same : (b.set { i with detail }).account = b.account := hb.account_set found rfl
    have foundHere : b.find? i.code = some i := find?_of_code found rfl
    exact (Move.quiet same (hb.map_set foundHere rfl)).moves quiet

theorem moves_observe {q : Timed QuoteRecord} (quiet : P .quiet) (hb : b.WellFormed) :
    MovesBy P b [] (b.observe q) := by
  simp only [observe]
  cases q.record with
  | depth => exact .refl b
  | index value =>
    have move : Move b .quiet [] { b with index := value } := .quiet rfl rfl
    exact move.moves quiet
  | warrant => exact moves_setDetail quiet hb
  | nav => exact moves_setDetail quiet hb

/-- Records without market depth are quiet. -/
theorem moves_observeAll (quiet : P .quiet) (hb : b.WellFormed) :
    MovesBy P b [] (quotes.foldl observe b) := by
  induction quotes generalizing b with
  | nil => exact .refl b
  | cons q qs ih =>
    have first : MovesBy P b [] (b.observe q) := moves_observe quiet hb
    exact first.trans (ih (first.wellFormed hb))

/-- Matching an instrument leaves all others alone. -/
theorem find?_matched_ne {i : Instrument} {c code : String} {depth : Option Depth}
    {prints : List Level} {fs : List Fill} (sorted : Orders.Sorted i.orders) (ne : c ≠ i.code) :
    ((b.set (i.matchTick depth prints).instrument).postAll code fs).book.find? c = b.find? c := by
  have other : c ≠ (i.matchTick depth prints).instrument.code := by
    rwa [Instrument.code_matchTick sorted]
  rw [find?_postAll, find?_set_ne other]

/-- Instruments are matched in turn, each against its own records. -/
theorem moves_matchAll {is : List Instrument} (found : ∀ i ∈ is, b.find? i.code = some i)
    (codes : (is.map Instrument.code).Nodup) (shown : ∀ q ∈ quotes, q.Shows D)
    (hb : b.WellFormed) :
    MovesBy (Cause.IsData D) b (is.flatMap fun i =>
        (i.matchTick (lastDepth i.code quotes) (printsOf i.code trades)).fills.map (.filled i.code))
      (b.matchAll quotes trades is).book := by
  induction is generalizing b with
  | nil => exact .refl b
  | cons i is ih =>
    obtain ⟨apart, codes⟩ := List.nodup_cons.mp codes
    have first : MovesBy (Cause.IsData D) b _ _ := (Move.tick (found i List.mem_cons_self)
      (lastDepth i.code quotes) (printsOf i.code trades)).moves (shows_lastDepth shown)
    have sorted := hb.sorted i (mem_of_find? (found i List.mem_cons_self))
    refine first.trans (ih (fun j hj => ?_) codes (first.wellFormed hb))
    have ne : j.code ≠ i.code := fun same => apart (same ▸ List.mem_map_of_mem hj)
    exact (find?_matched_ne sorted ne).trans (found j (List.mem_cons_of_mem i hj))

theorem moves_replay (shown : ∀ q ∈ quotes, q.Shows D) (hb : b.WellFormed) :
    MovesBy (Cause.IsData D) b (b.replayLog quotes trades) (b.replay quotes trades).book := by
  have observed : MovesBy (Cause.IsData D) b [] (quotes.foldl observe b) :=
    moves_observeAll trivial hb
  have hbThen := observed.wellFormed hb
  have matched : MovesBy (Cause.IsData D) b (b.replayLog quotes trades)
      ((quotes.foldl observe b).matchAll quotes trades (quotes.foldl observe b).instruments).book :=
    observed.trans (moves_matchAll (fun i hi => hbThen.find?_eq_some.mpr ⟨hi, rfl⟩) hbThen.nodup shown
      hbThen)
  simp only [replay]
  generalize (quotes.foldl observe b).matchAll quotes trades _ = p at matched
  split
  · have latched : Move p.book .quiet [] p.book.latch := .quiet rfl rfl
    exact List.append_nil (b.replayLog quotes trades) ▸ matched.snoc latched trivial
  · exact matched

end Book

namespace Simulation

variable {D : Depth → Prop} {P : Cause → Prop} {s : Simulation} {c : TickContext}

/-- The history of a tick. A tick whose tapes cannot be read has none. -/
def advanceLog (s : Simulation) (c : TickContext) : List Event :=
  let s := s.turn c.tick
  if c.pastClose then []
  else
    let o := s.takeQuotes c.boundary
    match o.result with
    | .error _ => []
    | .ok quotes =>
      let o := o.state.takeTrades c.boundary
      match o.result with
      | .error _ => []
      | .ok trades => s.book.replayLog quotes trades

theorem book_close : s.close.state.book = s.book := by
  simp only [close]
  split
  · rfl
  · split <;> rfl

/-- The look at the end of a tick moves the tapes on and may tell of their end. -/
theorem checkTapes_state (s : Simulation) (tick : Nat) : ∃ quotes trades tapesDone,
    (s.checkTapes tick).state = { s with quotes, trades, tapesDone } := by
  simp only [checkTapes]
  split
  · exact ⟨_, _, _, rfl⟩
  · simp only [Outcome.bind, Outcome.lift]
    cases s.quotes.isExhausted.result with
    | error => exact ⟨_, _, _, rfl⟩
    | ok quotesDone =>
      simp only
      split
      · exact ⟨_, _, _, rfl⟩
      · cases s.trades.isExhausted.result with
        | error => exact ⟨_, _, _, rfl⟩
        | ok tradesDone =>
          simp only
          split <;> exact ⟨_, _, _, rfl⟩

theorem book_checkTapes {tick : Nat} : (s.checkTapes tick).state.book = s.book := by
  obtain ⟨_, _, _, state⟩ := s.checkTapes_state tick
  rw [state]

/-- The records of a tick. A tick past the close, or whose tapes cannot be read, has none. -/
def due (s : Simulation) (c : TickContext) :
    Option (List (Timed QuoteRecord) × List (Timed Trade)) :=
  if c.pastClose then none
  else
    match (s.takeQuotes c.boundary).result with
    | .error _ => none
    | .ok quotes =>
      match ((s.takeQuotes c.boundary).state.takeTrades c.boundary).result with
      | .error _ => none
      | .ok trades => some (quotes, trades)

/-- A tick replays its records on the book that it begins with. -/
theorem advance_due :
    (s.advance c).state.book = (s.due c).elim (s.turn c.tick).book
        (fun r => ((s.turn c.tick).book.replay r.1 r.2).book)
      ∧ s.advanceLog c = (s.due c).elim [] fun r => (s.turn c.tick).book.replayLog r.1 r.2 := by
  have quotes : ((s.turn c.tick).takeQuotes c.boundary).result = (s.takeQuotes c.boundary).result :=
    rfl
  have trades : (((s.turn c.tick).takeQuotes c.boundary).state.takeTrades c.boundary).result
      = ((s.takeQuotes c.boundary).state.takeTrades c.boundary).result := rfl
  simp only [advance, advanceLog, due, quotes, trades, Outcome.bind]
  split
  · exact ⟨book_close, rfl⟩
  · cases (s.takeQuotes c.boundary).result with
    | error => exact ⟨rfl, rfl⟩
    | ok quotes =>
      cases ((s.takeQuotes c.boundary).state.takeTrades c.boundary).result with
      | error => exact ⟨rfl, rfl⟩
      | ok trades => exact ⟨book_checkTapes, rfl⟩

/-- What a tick reads is on its tapes. -/
theorem holds_due {R : Timed QuoteRecord → Prop} (h : s.quotes.Holds R) :
    ∀ r ∈ s.due c, ∀ q ∈ r.1, R q := by
  intro r hr q hq
  have taken := h.takeUntil c.boundary
  have result : (s.takeQuotes c.boundary).result = (s.quotes.takeUntil c.boundary).result := rfl
  simp only [due, result] at hr
  split at hr
  · cases hr
  · cases read : (s.quotes.takeUntil c.boundary).result with
    | error =>
      rw [read] at hr
      cases hr
    | ok quotes =>
      simp only [read] at hr
      cases read' : ((s.takeQuotes c.boundary).state.takeTrades c.boundary).result with
      | error =>
        rw [read'] at hr
        cases hr
      | ok trades =>
        rw [read'] at hr
        obtain rfl := Option.some.inj hr
        exact taken.records quotes read q hq

/-- A tick begins with a sweep. -/
theorem moves_turn {tick : Nat} (sweep : P .sweep) (quiet : P .quiet) :
    Book.MovesBy P s.book [] (s.turn tick).book := by
  have swept : Book.Move s.book .sweep [] s.book.sweep := .sweep s.book
  have ticked : Book.Move s.book.sweep .quiet [] { s.book.sweep with tick := tick } :=
    .quiet rfl rfl
  exact (swept.moves sweep).snoc ticked quiet

/-- After the sweep, a tick is moves of market data. -/
theorem moves_tick (shown : s.quotes.Holds (·.Shows D)) (hb : (s.turn c.tick).book.WellFormed) :
    Book.MovesBy (Cause.IsData D) (s.turn c.tick).book (s.advanceLog c)
      (s.advance c).state.book := by
  rw [advance_due.1, advance_due.2]
  cases here : s.due c with
  | none => exact .refl _
  | some r => exact Book.moves_replay (holds_due shown r here) hb

/-- A tick carries out no operation of a request. -/
theorem moves_advance (shown : s.quotes.Holds (·.Shows D)) (hb : s.book.WellFormed) :
    Book.MovesBy (fun cause => ¬cause.IsRequest ∧ cause.Meets D) s.book (s.advanceLog c)
      (s.advance c).state.book := by
  have turned : Book.MovesBy (fun cause => ¬cause.IsRequest ∧ cause.Meets D) s.book []
      (s.turn c.tick).book := moves_turn ⟨id, trivial⟩ ⟨id, trivial⟩
  have ticked := moves_tick (c := c) shown (turned.wellFormed hb)
  exact turned.trans (ticked.mono fun _ data => ⟨data.not_isRequest, data.meets⟩)

/-! ### Tapes -/

theorem quotes_close : s.close.state.quotes = s.quotes := by
  simp only [close]
  split
  · rfl
  · split <;> rfl

theorem holds_checkTapes {R : Timed QuoteRecord → Prop} {tick : Nat} (h : s.quotes.Holds R) :
    (s.checkTapes tick).state.quotes.Holds R := by
  simp only [checkTapes]
  split
  · exact h
  · have looked := h.isExhausted
    simp only [Outcome.bind, Outcome.lift]
    cases s.quotes.isExhausted.result with
    | error => exact looked
    | ok quotesDone =>
      simp only
      split
      · exact looked
      · cases s.trades.isExhausted.result with
        | error => exact looked
        | ok tradesDone =>
          simp only
          split <;> exact looked

/-- What holds of all records of a tape holds of all that are left after a tick. -/
theorem holds_advance {R : Timed QuoteRecord → Prop} (h : s.quotes.Holds R) :
    (s.advance c).state.quotes.Holds R := by
  have here : (s.turn c.tick).quotes.Holds R := h
  simp only [advance]
  generalize s.turn c.tick = t at here
  have taken : (t.takeQuotes c.boundary).state.quotes.Holds R := (here.takeUntil c.boundary).tape
  split
  · rw [quotes_close]
    exact here
  · simp only [Outcome.bind]
    cases (t.takeQuotes c.boundary).result with
    | error => exact taken
    | ok quotes =>
      simp only
      have takenBoth :
          ((t.takeQuotes c.boundary).state.takeTrades c.boundary).state.quotes.Holds R := taken
      cases ((t.takeQuotes c.boundary).state.takeTrades c.boundary).result with
      | error => exact takenBoth
      | ok trades =>
        have replayed : (((t.takeQuotes c.boundary).state.takeTrades c.boundary).state.replay
            quotes trades).state.quotes.Holds R := takenBoth
        exact holds_checkTapes replayed

/-- An operation changes nothing but the book. -/
theorem execute_state {op : Operation} :
    (s.execute op).state = { s with book := (s.execute op).state.book } := by
  cases op with
  | insert code side price qty =>
    simp only [execute, Simulation.insert]
    split <;> rfl
  | cancel code key qty =>
    simp only [execute, Simulation.cancel]
    split <;> rfl

theorem steady_execute {op : Operation} : Steady s (s.execute op).state := by
  rw [execute_state]
  exact ⟨rfl, rfl, rfl, rfl, rfl⟩

theorem steady_executeAll (r : Request) (ops : List Operation) :
    Steady s (Broker.executeAll r s ops).2.1 := by
  induction ops generalizing s with
  | nil => exact .refl s
  | cons op ops ih =>
    have first : Steady s (Broker.execute s op).state := steady_execute
    simp only [Broker.executeAll]
    cases (Broker.execute s op).result with
    | ok _ => exact first.trans ih
    | error e =>
      simp only
      split <;> exact first

/-- A message leaves the tapes alone. -/
theorem steady_applyAll {summary : Summary} {rs : List Request} :
    Steady s (Broker.applyAll summary s rs).broker := by
  induction rs generalizing s summary with
  | nil => exact .refl s
  | cons r rs ih =>
    simp only [Broker.applyAll, Broker.takeInterrupt, Broker.reserve]
    split
    · exact ih
    · split
      · exact ⟨rfl, rfl, rfl, rfl, rfl⟩
      · obtain ⟨o, admitted, -, kept⟩ := s.exists_admitted
          ((Broker.book s).allot r).allotment.exempt
          ((Broker.book s).allot r).allotment.operations.length
        simp only [admitted]
        cases o.result with
        | error => exact kept
        | ok _ =>
          have executed := kept.trans
            (steady_executeAll r ((Broker.book s).allot r).allotment.operations)
          simp only
          split
          · exact executed
          · exact executed.trans ih
          · exact executed.trans ih

end Simulation

/-! ## Sessions -/

/-- What can be done to a simulated session from outside: it is called, in any order, and
told that fresh market data have come in. -/
inductive Session.Input where
  | advance
  | buildMsgOut
  | applyMsgIn (text : String)
  | interrupt

namespace Session

variable {D : Depth → Prop} {s : Session Simulation} {input : Input} {inputs : List Input}
  {call : Call} {e : Error}

/-- The session after an input, whatever became of the call. -/
def accept (s : Session Simulation) : Input → Session Simulation
  | .advance => s.advance.state
  | .buildMsgOut => s.buildMsgOut.state
  | .applyMsgIn text => (s.applyMsgIn text).state
  | .interrupt => { s with broker := s.broker.raise }

/-- The events of an input. A call out of turn has none. -/
def log (s : Session Simulation) : Input → List Event
  | .advance =>
    match s.outOfTurn .advance with
    | some _ => []
    | none => s.broker.advanceLog s.nextTick
  | .buildMsgOut => []
  | .applyMsgIn text =>
    match s.outOfTurn .applyMsgIn with
    | some _ => []
    | none => s.broker.applyLog (Message.read text).requests
  | .interrupt => []

/-- The session after some inputs, in turn. -/
def run (s : Session Simulation) (inputs : List Input) : Session Simulation :=
  inputs.foldl accept s

/-- The history of some inputs. -/
def history (s : Session Simulation) : List Input → List Event
  | [] => []
  | input :: inputs => s.log input ++ (s.accept input).history inputs

theorem outOfTurn_eq_none : s.outOfTurn call = none ↔ s.phase = call.phase := by
  simp only [outOfTurn]
  cases s.phase <;> cases call <;> decide

theorem kind_of_outOfTurn (outOfTurn : s.outOfTurn call = some e) :
    e.kind = .invalidState := by
  simp only [Session.outOfTurn] at outOfTurn
  split at outOfTurn
  · cases outOfTurn
    rfl
  · split at outOfTurn
    · cases outOfTurn
    · cases outOfTurn
      rfl

/-- A call of `advance` in its turn advances the broker, whatever becomes of it. -/
theorem advance_inTurn (idle : s.phase = .idle) :
    (s.accept .advance).broker = (s.broker.advance s.nextTick).state
      ∧ s.log .advance = s.broker.advanceLog s.nextTick := by
  have inTurn : s.outOfTurn .advance = none := outOfTurn_eq_none.mpr idle
  simp only [accept, log, Session.advance, inTurn, and_true]
  cases result : (Broker.advance s.broker s.nextTick).result with
  | ok status => cases status <;> rfl
  | error e =>
    simp only
    split <;> rfl

theorem advance_outOfTurn (busy : s.phase ≠ .idle) :
    s.accept .advance = s ∧ s.log .advance = [] := by
  obtain ⟨e, outOfTurn⟩ : ∃ e, s.outOfTurn .advance = some e :=
    Option.ne_none_iff_exists'.mp (mt outOfTurn_eq_none.mp busy)
  simp only [accept, log, Session.advance, outOfTurn, and_true]
  rfl

/-- An input is a tick, or a call of `advance` out of turn, which changes nothing, or it
comes between two ticks. -/
theorem accept_cases (s : Session Simulation) (input : Input) :
    (input = .advance ∧ s.phase = .idle)
      ∨ (input = .advance ∧ s.phase ≠ .idle ∧ s.accept input = s ∧ s.log input = [])
      ∨ input ≠ .advance := by
  by_cases between : input = .advance
  · subst between
    by_cases idle : s.phase = .idle
    · exact .inl ⟨rfl, idle⟩
    · exact .inr (.inl ⟨rfl, idle, advance_outOfTurn idle⟩)
  · exact .inr (.inr between)

/-- Between two ticks, a book makes the moves of requests only. -/
theorem moves_between (between : input ≠ .advance) (sane : s.broker.book.Sane) :
    Book.MovesBy Cause.IsRequest s.broker.book (s.log input) (s.accept input).broker.book := by
  cases input with
  | advance => exact absurd rfl between
  | buildMsgOut =>
    simp only [accept, log, Session.buildMsgOut]
    cases s.outOfTurn .buildMsgOut <;> exact .refl _
  | applyMsgIn text =>
    simp only [accept, log, Session.applyMsgIn]
    cases s.outOfTurn .applyMsgIn with
    | some e => exact .refl _
    | none => exact Simulation.moves_applyAll sane
  | interrupt => exact .refl _

theorem steady_between (between : input ≠ .advance) :
    Simulation.Steady s.broker (s.accept input).broker := by
  cases input with
  | advance => exact absurd rfl between
  | buildMsgOut =>
    simp only [accept, Session.buildMsgOut]
    cases s.outOfTurn .buildMsgOut <;> exact .refl _
  | applyMsgIn text =>
    simp only [accept, Session.applyMsgIn]
    cases s.outOfTurn .applyMsgIn with
    | some e => exact .refl _
    | none => exact Simulation.steady_applyAll
  | interrupt => exact ⟨rfl, rfl, rfl, rfl, rfl⟩

theorem movesBy_accept (shown : s.broker.quotes.Holds (·.Shows D)) (sane : s.broker.book.Sane) :
    Book.MovesBy (Cause.Meets D) s.broker.book (s.log input) (s.accept input).broker.book := by
  rcases accept_cases s input with ⟨rfl, idle⟩ | ⟨-, -, same, log⟩ | between
  · obtain ⟨broker, log⟩ := advance_inTurn idle
    rw [broker, log]
    exact (Simulation.moves_advance shown sane.wellFormed).mono fun _ => And.right
  · rw [same, log]
    exact .refl _
  · exact (moves_between between sane).mono fun _ => Cause.IsRequest.meets

/-- What holds of all records of the quote tape holds of all that are left after a call. -/
theorem holds_accept {R : Timed QuoteRecord → Prop} (h : s.broker.quotes.Holds R) :
    (s.accept input).broker.quotes.Holds R := by
  rcases accept_cases s input with ⟨rfl, idle⟩ | ⟨-, -, same, -⟩ | between
  · rw [(advance_inTurn idle).1]
    exact Simulation.holds_advance h
  · rw [same]
    exact h
  · rw [(steady_between between).quotes]
    exact h

/-- A run of a session is a series of moves of its book, with the run's history. -/
theorem movesBy_run (shown : s.broker.quotes.Holds (·.Shows D)) (sane : s.broker.book.Sane) :
    Book.MovesBy (Cause.Meets D) s.broker.book (s.history inputs) (s.run inputs).broker.book := by
  induction inputs generalizing s with
  | nil => exact .refl _
  | cons input inputs ih =>
    have first : Book.MovesBy (Cause.Meets D) _ (s.log input) _ := movesBy_accept shown sane
    exact first.trans (ih (holds_accept shown) (first.sane sane))

theorem moves_accept (sane : s.broker.book.Sane) :
    Book.Moves s.broker.book (s.log input) (s.accept input).broker.book := by
  have any : s.broker.quotes.Holds (·.Shows fun _ => True) :=
    Tape.holds_of_forall shows_true _
  exact (movesBy_accept any sane).mono fun _ _ => trivial

theorem moves_run (sane : s.broker.book.Sane) :
    Book.Moves s.broker.book (s.history inputs) (s.run inputs).broker.book := by
  have any : s.broker.quotes.Holds (·.Shows fun _ => True) :=
    Tape.holds_of_forall shows_true _
  exact (movesBy_run any sane).mono fun _ _ => trivial

theorem sane_run (sane : s.broker.book.Sane) : (s.run inputs).broker.book.Sane :=
  (moves_run sane).sane sane

end Session

theorem Book.solvent_opening (balance : Int) (ts : List Tracked) :
    (opening balance ts).Solvent (-balance).toNat where
  idle := fun _ hi => (mem_opening hi).2
  funded := by
    intro i hi o ho
    rw [(mem_opening hi).1] at ho
    cases ho
  shortfall := by
    have nothing : (opening balance ts).total Instrument.shortfall = 0 := by
      refine total_opening (fun i none => ?_) balance ts
      rw [Instrument.shortfall, none]
      rfl
    rw [Book.shortfall, nothing, opening_balance.1]
    omega

theorem Book.sane_opening (balance : Int) (ts : List Tracked) : (opening balance ts).Sane :=
  ⟨wellFormed_opening balance ts, _, solvent_opening balance ts⟩

namespace Session

theorem sane_start {broker : Simulation} {clock : SessionClock} {balance : Int} {ts : List Tracked}
    (opened : broker.book = Book.opening balance ts) : (start broker clock).broker.book.Sane := by
  change broker.book.Sane
  rw [opened]
  exact Book.sane_opening balance ts

end Session

end TradingDesk
