-- SUMMARY: Instruments do not reach each other within a tick.
import TradingDesk.Proofs.Printing
import TradingDesk.Proofs.Subjects
import TradingDesk.Proofs.Views

/-!
# Isolation

What a tick makes of an instrument depends on its own records and on itself, and what it
adds to the balance and to the statistics is a sum over the instruments. So the records of
a tick can be told in any order that leaves those about the same thing in theirs.
-/

namespace TradingDesk

/-- The instrument matched against its own records of a tick. -/
def Instrument.matched (i : Instrument) (quotes : List (Timed QuoteRecord))
    (trades : List (Timed Trade)) : Matched :=
  i.matchTick (lastDepth i.code quotes) (printsOf i.code trades)

theorem Instrument.fills_informed {i : Instrument} {quotes : List (Timed QuoteRecord)}
    {trades : List (Timed Trade)} :
    ((i.informed quotes).matched quotes trades).fills = (i.matched quotes trades).fills := by
  have informed : ((i.informed quotes).matched quotes trades).core
      = (i.core.matched quotes trades).core := core_matchTick
  have alone : (i.matched quotes trades).core = (i.core.matched quotes trades).core :=
    core_matchTick
  rw [← Matched.core_fills, informed, ← alone, Matched.core_fills]

/-! ## The figures of statistics -/

namespace Stats

/-- The figures that statistics consist of. -/
inductive Figure where
  | bought
  | sold
  | fees
  | cash (slot : Slot)
  | qty (slot : Slot)
  | fills (slot : Slot)
  deriving DecidableEq, Repr

/-- What statistics say under a figure. -/
def read (s : Stats) : Figure → Int
  | .bought => s.bought
  | .sold => s.sold
  | .fees => s.fees
  | .cash slot => (s.slots.get slot).cash
  | .qty slot => (s.slots.get slot).qty
  | .fills slot => (s.slots.get slot).fills

theorem slot_blank (slot : Slot) : blank.slots.get slot = ⟨0, 0, 0⟩ :=
  Vector.getElem_replicate _

/-- A fill adds to each figure what it would be of this fill alone. -/
theorem read_record {s : Stats} {f : Fill} {figure : Figure} :
    (s.record f).read figure = s.read figure + (blank.record f).read figure := by
  cases figure with
  | bought =>
    simp only [read, record, blank]
    cases f.order.side <;> simp
  | sold =>
    simp only [read, record, blank]
    cases f.order.side <;> simp
  | fees => simp [read, record, blank]
  | cash slot =>
    simp only [read, slot_record, slot_blank]
    split
    · simp only [SlotStats.record]
      cases f.order.side <;> simp only <;> omega
    · exact (add_zero _).symm
  | qty slot =>
    simp only [read, slot_record, slot_blank]
    split
    · simp only [SlotStats.record, zero_add]
    · exact (add_zero _).symm
  | fills slot =>
    simp only [read, slot_record, slot_blank]
    split
    · simp only [SlotStats.record, zero_add]
    · exact (add_zero _).symm

end Stats

namespace Book

variable {b : Book} {i : Instrument} {code : String} {quotes quotes' : List (Timed QuoteRecord)}
  {trades trades' : List (Timed Trade)}

/-- Codes stand for one instrument and keys for one order of it. -/
structure Ordered (b : Book) : Prop where
  codes : b.codes.Pairwise (· < ·)
  sorted : ∀ i ∈ b.instruments, Orders.Sorted i.orders

theorem WellFormed.ordered (hb : b.WellFormed) : b.Ordered := ⟨hb.codes, hb.sorted⟩

theorem Ordered.nodup (h : b.Ordered) : (b.instruments.map Instrument.code).Nodup :=
  nodup_of_codes h.codes

/-! ## The records of a tick in another order -/

theorem matchAll_congr {is : List Instrument}
    (depths : ∀ code, lastDepth code quotes' = lastDepth code quotes)
    (prints : ∀ code, printsOf code trades' = printsOf code trades) :
    b.matchAll quotes' trades' is = b.matchAll quotes trades is := by
  induction is generalizing b with
  | nil => rfl
  | cons i is ih => simp only [matchAll, depths, prints, ih]

theorem replay_reordered (same : Reordered (quotes, trades) (quotes', trades'))
    (nodup : (b.instruments.map Instrument.code).Nodup) :
    b.replay quotes' trades' = b.replay quotes trades := by
  have depths : ∀ code, lastDepth code quotes' = lastDepth code quotes := by
    intro code
    rw [lastDepth_eq, lastDepth_eq, depthsOf, depthsOf, same.quotes]
  have observed : quotes'.foldl observe b = quotes.foldl observe b := by
    simp only [observeAll_eq nodup, Instrument.informed, lastIndex, lastDetail, same.quotes]
  simp only [Book.replay, observed, matchAll_congr depths same.trades]

/-! ## What a tick adds up to -/

/-- A quantity to which each fill adds its part, and which nothing else in a tick changes. -/
structure Counts (read : Book → Int) (part : Fill → Int) : Prop where
  post : ∀ b code f, read (b.post code f).book = read b + part f
  frame : ∀ b b' : Book, b'.balance = b.balance → b'.stats = b.stats → read b' = read b

theorem counts_balance : Counts (·.balance) Fill.cash where
  post := fun _ _ _ => rfl
  frame := fun _ _ balance _ => balance

theorem counts_figure (figure : Stats.Figure) :
    Counts (·.stats.read figure) fun f => (Stats.blank.record f).read figure where
  post := fun _ _ _ => Stats.read_record
  frame := fun _ _ _ stats => congrArg (Stats.read · figure) stats

namespace Counts

variable {read : Book → Int} {part : Fill → Int}

theorem postAll (h : Counts read part) {fs : List Fill} :
    read (b.postAll code fs).book = read b + (fs.map part).sum := by
  induction fs generalizing b with
  | nil => exact (add_zero _).symm
  | cons f fs ih =>
    refine ih.trans ?_
    rw [h.post, List.map_cons, List.sum_cons, add_assoc]

theorem matchAll (h : Counts read part) {is : List Instrument} :
    read (b.matchAll quotes trades is).book
      = read b + (is.map fun i => ((i.matched quotes trades).fills.map part).sum).sum := by
  induction is generalizing b with
  | nil => exact (add_zero _).symm
  | cons i is ih =>
    have replaced : read (b.set (i.matched quotes trades).instrument) = read b :=
      h.frame _ _ rfl rfl
    refine ih.trans ?_
    rw [h.postAll, List.map_cons, List.sum_cons, ← add_assoc, ← replaced]
    rfl

/-- Each instrument adds its part, whatever else is on the book. -/
theorem replay (h : Counts read part) (nodup : (b.instruments.map Instrument.code).Nodup) :
    read (b.replay quotes trades).book
      = read b + b.total fun i => ((i.matched quotes trades).fills.map part).sum := by
  have latched : read (b.replay quotes trades).book
      = read ((quotes.foldl observe b).matchAll quotes trades
          (quotes.foldl observe b).instruments).book := by
    simp only [Book.replay]
    split
    · exact h.frame _ _ rfl rfl
    · rfl
  have observed : read (quotes.foldl observe b) = read b := by
    rw [observeAll_eq nodup]
    exact h.frame _ _ rfl rfl
  rw [latched, h.matchAll, observed, observeAll_eq nodup, List.map_map]
  simp only [Function.comp_def, Instrument.fills_informed]
  rfl

end Counts

/-! ## What a tick makes of one instrument -/

theorem Ordered.sweep (h : b.Ordered) : b.sweep.Ordered where
  codes := by
    rw [codes_sweep]
    exact h.codes
  sorted := by
    intro i hi
    obtain ⟨j, hj, rfl⟩ := List.mem_map.mp hi
    exact (h.sorted j hj).filter

theorem Ordered.observed (h : b.Ordered) : (quotes.foldl observe b).Ordered := by
  rw [observeAll_eq h.nodup]
  refine ⟨?_, fun i hi => ?_⟩
  · rw [Book.codes, List.map_map]
    exact h.codes
  · obtain ⟨j, hj, rfl⟩ := List.mem_map.mp hi
    exact h.sorted j hj

/-- What matching looks at of an instrument depends on it and on its own records only. -/
theorem Ordered.find?_replay (h : b.Ordered) (found : b.find? code = some i) :
    ∃ j, (b.replay quotes trades).book.find? code = some j
      ∧ j.core = (i.core.matched quotes trades).core.instrument := by
  have observed : (quotes.foldl observe b).Ordered := h.observed
  have mem : i.informed quotes ∈ (quotes.foldl observe b).instruments := by
    rw [observeAll_eq h.nodup]
    exact List.mem_map_of_mem (mem_of_find? found)
  obtain rfl := code_of_find? found
  have matched : ((quotes.foldl observe b).matchAll quotes trades
      (quotes.foldl observe b).instruments).book.find? (i.informed quotes).code
        = some ((i.informed quotes).matched quotes trades).instrument :=
    find?_matchAll (fun k hk => (Keyed.find?_eq_some observed.nodup).mpr ⟨hk, rfl⟩)
      observed.nodup observed.sorted mem
  exact ⟨_, Book.find?_replay.trans matched, congrArg Matched.instrument Instrument.core_matchTick⟩

end Book

namespace Simulation

variable {s : Simulation} {c : TickContext} {i : Instrument} {code : String}
  {r : List (Timed QuoteRecord) × List (Timed Trade)}

/-- The simulation with one instrument alone. -/
def alone (s : Simulation) (i : Instrument) : Simulation :=
  { s with book := { s.book with instruments := [i] } }

/-- A tick has records if it is not past the close and both tapes hand over theirs. -/
theorem due_eq_some : s.due c = some r
    ↔ c.pastClose = false ∧ (s.quotes.takeUntil c.boundary).result = .ok r.1
      ∧ (s.trades.takeUntil c.boundary).result = .ok r.2 := by
  simp only [due, takeQuotes, takeTrades, Outcome.lift]
  constructor
  · intro due
    split at due
    · cases due
    next inSession =>
      split at due
      · cases due
      next quotes taken =>
        split at due
        · cases due
        next trades takenToo =>
          cases due
          exact ⟨Bool.eq_false_of_not_eq_true inSession, taken, takenToo⟩
  · rintro ⟨inSession, quotes, trades⟩
    simp only [inSession, quotes, trades, Bool.false_eq_true, if_false]

theorem book_of_due (due : s.due c = some r) :
    (s.advance c).state.book = ((s.turn c.tick).book.replay r.1 r.2).book := by
  rw [advance_due.1, due]
  rfl

theorem ordered_turn {tick : Nat} (ordered : s.book.Ordered) : (s.turn tick).book.Ordered :=
  ⟨ordered.sweep.codes, ordered.sweep.sorted⟩

theorem find?_advance (ordered : s.book.Ordered) (due : s.due c = some r)
    (found : s.book.find? code = some i) : ∃ j, (s.advance c).state.book.find? code = some j
      ∧ j.core = (i.sweep.core.matched r.1 r.2).core.instrument := by
  have foundThen : (s.turn c.tick).book.find? code = some i.sweep := by
    change s.book.sweep.find? code = _
    rw [Book.find?_sweep, found]
    rfl
  rw [book_of_due due]
  exact (ordered_turn ordered).find?_replay foundThen

theorem nodup_turn {tick : Nat} (nodup : (s.book.instruments.map Instrument.code).Nodup) :
    ((s.turn tick).book.instruments.map Instrument.code).Nodup := by
  change ((s.book.instruments.map Instrument.sweep).map Instrument.code).Nodup
  rwa [List.map_map]

theorem read_advance {read : Book → Int} {part : Fill → Int} (counts : Book.Counts read part)
    (nodup : (s.book.instruments.map Instrument.code).Nodup) (due : s.due c = some r) :
    read (s.advance c).state.book
      = read s.book + s.book.total fun i => ((i.sweep.matched r.1 r.2).fills.map part).sum := by
  have turned : read (s.turn c.tick).book = read s.book := counts.frame _ _ rfl rfl
  rw [book_of_due due, counts.replay (nodup_turn nodup), turned]
  refine congrArg (read s.book + ·) ?_
  change ((s.book.instruments.map Instrument.sweep).map _).sum = (s.book.instruments.map _).sum
  rw [List.map_map]
  rfl

/-- What a tick changes of a quantity is the sum of what it changes with each instrument alone. -/
theorem total_advance {read : Book → Int} {part : Fill → Int} (counts : Book.Counts read part)
    (nodup : (s.book.instruments.map Instrument.code).Nodup) (due : s.due c = some r) :
    read (s.advance c).state.book - read s.book
      = s.book.total fun i => read ((s.alone i).advance c).state.book - read s.book := by
  have each : ∀ i, read ((s.alone i).advance c).state.book - read s.book
      = ((i.sweep.matched r.1 r.2).fills.map part).sum := by
    intro i
    have before : read (s.alone i).book = read s.book := counts.frame _ _ rfl rfl
    have dueAlone : (s.alone i).due c = some r := due
    have nodupAlone : ((s.alone i).book.instruments.map Instrument.code).Nodup :=
      List.nodup_singleton i.code
    rw [read_advance counts nodupAlone dueAlone, before, add_sub_cancel_left]
    exact add_zero _
  simp only [each, read_advance counts nodup due, add_sub_cancel_left]

/-- The simulation once it has replayed the records of a tick. -/
def replayed (s : Simulation) (c : TickContext)
    (r : List (Timed QuoteRecord) × List (Timed Trade)) : Simulation :=
  { s.turn c.tick with
    book := ((s.turn c.tick).book.replay r.1 r.2).book
    quotes := (s.quotes.takeUntil c.boundary).state
    trades := (s.trades.takeUntil c.boundary).state }

theorem advance_of_due (due : s.due c = some r) :
    (s.advance c).result = ((s.replayed c r).checkTapes c.tick).result
      ∧ (s.advance c).state = ((s.replayed c r).checkTapes c.tick).state := by
  obtain ⟨inSession, quotes, trades⟩ := due_eq_some.mp due
  have quotesTaken : ((s.turn c.tick).takeQuotes c.boundary).result = .ok r.1 := quotes
  have tradesTaken : (((s.turn c.tick).takeQuotes c.boundary).state.takeTrades c.boundary).result
      = .ok r.2 := trades
  simp only [advance, inSession, Bool.false_eq_true, if_false, Outcome.bind, quotesTaken,
    tradesTaken]
  exact ⟨rfl, rfl⟩

/-- Where the records of a tick are as good as those of another one and the tapes have then
moved on alike, the tick is as good. -/
theorem advance_reordered {quotes : Tape QuoteRecord} {trades : Tape Trade}
    {r' : List (Timed QuoteRecord) × List (Timed Trade)}
    (nodup : (s.book.instruments.map Instrument.code).Nodup) (due : s.due c = some r)
    (dueThen : { s with quotes, trades }.due c = some r') (same : Reordered r r')
    (quotesRest : (quotes.takeUntil c.boundary).state = (s.quotes.takeUntil c.boundary).state)
    (tradesRest : (trades.takeUntil c.boundary).state = (s.trades.takeUntil c.boundary).state) :
    ({ s with quotes, trades }.advance c).result = (s.advance c).result
      ∧ ({ s with quotes, trades }.advance c).state = (s.advance c).state := by
  have replayed : { s with quotes, trades }.replayed c r' = s.replayed c r := by
    have book : ((s.turn c.tick).book.replay r'.1 r'.2).book
        = ((s.turn c.tick).book.replay r.1 r.2).book := by
      rw [Book.replay_reordered same (nodup_turn nodup)]
    simp only [Simulation.replayed, quotesRest, tradesRest]
    exact congrArg (fun book => { s.turn c.tick with
      book
      quotes := (s.quotes.takeUntil c.boundary).state
      trades := (s.trades.takeUntil c.boundary).state }) book
  rw [(advance_of_due due).1, (advance_of_due due).2, (advance_of_due dueThen).1,
    (advance_of_due dueThen).2, replayed]
  exact ⟨rfl, rfl⟩

/-- Instruments do not interfere within a tick. An instrument that two simulations have alike,
and about which the tick has the same depths and trades for them, they have alike after it;
what the tick changes of the balance and of the statistics is the sum of what it changes with
each instrument alone; and the order of records about different things makes no difference. -/
theorem advance_isolates (ordered : s.book.Ordered) (due : s.due c = some r) :
    (∀ (s' : Simulation) (r' : List (Timed QuoteRecord) × List (Timed Trade)) (code : String)
        (i i' : Instrument), s'.book.Ordered → s'.due c = some r' →
        s.book.find? code = some i → s'.book.find? code = some i' → i'.core = i.core →
        depthsOf code r'.1 = depthsOf code r.1 → printsOf code r'.2 = printsOf code r.2 →
        ∃ j j', (s.advance c).state.book.find? code = some j
          ∧ (s'.advance c).state.book.find? code = some j' ∧ j'.core = j.core)
      ∧ (s.advance c).state.book.balance - s.book.balance
        = s.book.total (fun i => ((s.alone i).advance c).state.book.balance - s.book.balance)
      ∧ (∀ figure, (s.advance c).state.book.stats.read figure - s.book.stats.read figure
        = s.book.total fun i =>
          ((s.alone i).advance c).state.book.stats.read figure - s.book.stats.read figure)
      ∧ ∀ (quotes : Tape QuoteRecord) (trades : Tape Trade)
          (r' : List (Timed QuoteRecord) × List (Timed Trade)),
          { s with quotes, trades }.due c = some r' → Reordered r r' →
          (quotes.takeUntil c.boundary).state = (s.quotes.takeUntil c.boundary).state →
          (trades.takeUntil c.boundary).state = (s.trades.takeUntil c.boundary).state →
          ({ s with quotes, trades }.advance c).result = (s.advance c).result
            ∧ ({ s with quotes, trades }.advance c).state = (s.advance c).state := by
  refine ⟨?alike, total_advance Book.counts_balance ordered.nodup due,
    fun figure => total_advance (Book.counts_figure figure) ordered.nodup due,
    fun quotes trades r' => advance_reordered ordered.nodup due⟩
  case alike =>
    intro s' r' code i i' ordered' due' found found' alike depths prints
    obtain ⟨j, hj, coreJ⟩ := find?_advance ordered due found
    obtain ⟨j', hj', coreJ'⟩ := find?_advance ordered' due' found'
    refine ⟨j, j', hj, hj', ?_⟩
    have swept : i'.sweep.core = i.sweep.core := congrArg Instrument.sweep alike
    have named : i.sweep.core.code = code := by
      change i.code = code
      exact Book.code_of_find? found
    have depth : lastDepth code r'.1 = lastDepth code r.1 := by
      rw [lastDepth_eq, lastDepth_eq, depths]
    rw [coreJ, coreJ', swept, Instrument.matched, Instrument.matched, named, depth, prints]

/-- An instrument with a sell of ten at its best bid of twenty. -/
def selling (code : String) (id : Nat) : Instrument :=
  { Instrument.ofHoldings code .equity 0 with
    ladder := Ladder.narrow ⟨9990, 20⟩ ⟨10000, 50⟩
    orders := [⟨9990, id, .sell, 10, none, 0, 0, 0⟩] }

/-- Two instruments with a sell each that prints fill in part and whole, the same prints in
another order, and one of the instruments with its print alone. -/
theorem advance_isolates_two :
    let s := start { Book.opening 1000 [] with instruments := [selling "A" 1, selling "B" 2] }
      "32410 k 17.5\n".toUTF8.toList "32410 A 9990 4\n32411 B 10000 55\n".toUTF8.toList 8
    let other := start s.book [] "32411 B 10000 55\n32410 A 9990 4\n".toUTF8.toList 8
    let apart := start { Book.opening 7 [] with instruments := [selling "A" 1] } []
      "32410 A 9990 4\n".toUTF8.toList 8
    let c : TickContext := ⟨2, 32420, 33000⟩
    (s.advance c).state.book.balance = 140421
      ∧ (∃ j j', (s.advance c).state.book.find? "A" = some j
        ∧ (apart.advance c).state.book.find? "A" = some j' ∧ j'.core = j.core)
      ∧ (s.advance c).state.book.balance - s.book.balance
        = s.book.total (fun i => ((s.alone i).advance c).state.book.balance - s.book.balance)
      ∧ ({ s with trades := other.trades }.advance c).state = (s.advance c).state := by
  intro s other apart c
  have sorted : ∀ i ∈ s.book.instruments, Orders.Sorted i.orders := by
    intro i hi
    rcases List.mem_pair.mp hi with rfl | rfl <;> exact List.pairwise_singleton _ _
  have ordered : s.book.Ordered := ⟨by decide, sorted⟩
  have orderedApart : apart.book.Ordered :=
    ⟨by decide, fun i hi => sorted i (List.mem_cons.mpr (.inl (List.mem_singleton.mp hi)))⟩
  obtain ⟨r, due⟩ := Option.isSome_iff_exists.mp (by decide +kernel : (s.due c).isSome = true)
  obtain ⟨r', dueOther⟩ := Option.isSome_iff_exists.mp (by decide +kernel :
    ({ s with trades := other.trades }.due c).isSome = true)
  obtain ⟨r'', dueApart⟩ := Option.isSome_iff_exists.mp
    (by decide +kernel : (apart.due c).isSome = true)
  have reordered : ∀ r ∈ s.due c, ∀ r' ∈ { s with trades := other.trades }.due c,
      Reordered r r' := by
    decide +kernel
  have same : ∀ r ∈ s.due c, ∀ r' ∈ apart.due c,
      depthsOf "A" r'.1 = depthsOf "A" r.1 ∧ printsOf "A" r'.2 = printsOf "A" r.2 := by
    decide +kernel
  obtain ⟨depths, prints⟩ := same r due r'' dueApart
  obtain ⟨alike, balance, -, reorder⟩ := advance_isolates ordered due
  refine ⟨by decide +kernel, ?_, balance, ?_⟩
  · exact alike apart r'' "A" (selling "A" 1) (selling "A" 1) orderedApart dueApart rfl rfl rfl
      depths prints
  · exact (reorder s.quotes other.trades r' dueOther (reordered r due r' dueOther) rfl
      (by decide +kernel)).2

end Simulation

end TradingDesk
