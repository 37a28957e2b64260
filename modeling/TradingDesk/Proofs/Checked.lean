-- SUMMARY: Matching finds every order and every instrument that it looks up.
import TradingDesk.Proofs.Isolation
import TradingDesk.Proofs.Origins

/-!
# Checked matching

Matching passes over a key without an order and over a code without an instrument. Checked
matching looks up the same keys and codes and fails where there is nothing under them. It
never does: the keys are those of orders that are there when they are collected, and no step
of a tick takes an order away.
-/

namespace TradingDesk

/-- Goes on with a step that may fail. -/
def Matched.andThenChecked (m : Except Error Matched) (step : Instrument → Except Error Matched) :
    Except Error Matched := do
  let first ← m
  let next ← step first.instrument
  return ⟨next.instrument, first.fills ++ next.fills⟩

theorem Matched.andThenChecked_eq {m : Matched} {mChecked : Except Error Matched}
    {step : Instrument → Matched} {stepChecked : Instrument → Except Error Matched}
    (first : mChecked = .ok m) (next : stepChecked m.instrument = .ok (step m.instrument)) :
    andThenChecked mChecked stepChecked = .ok (m.andThen step) := by
  subst first
  simp only [andThenChecked, bind, Except.bind, next]
  rfl

namespace Instrument

variable {i i' : Instrument} {key : Key} {keys : List Key} {price flow : Int} {side : Side}
  {fillPrice : Option Int} {print top : Level} {initiator : Option Side} {market : Ladder}

/-! ## The steps of a tick -/

def popChecked (i : Instrument) (key : Key) (flow price : Int) : Except Error LevelFlow :=
  match Orders.find? key i.orders with
  | none => .error (.popNoOrder i.code key)
  | some _ => .ok (i.pop key flow price)

def flowLevelChecked (fillPrice : Option Int) (flow : Int) (i : Instrument) :
    List Key → Except Error LevelFlow
  | [] => .ok ⟨.start i, 0⟩
  | key :: keys => do
    let first ← i.popChecked key flow (fillPrice.getD key.price)
    let rest ← first.matched.instrument.flowLevelChecked fillPrice flow keys
    return ⟨⟨rest.matched.instrument, first.matched.fills ++ rest.matched.fills⟩,
      max first.used rest.used⟩

def flowLevelsChecked (fillPrice : Option Int) (flow : Int) (i : Instrument) :
    List (List Key) → Except Error Matched
  | [] => .ok (.start i)
  | level :: levels =>
    if flow ≤ 0 then .ok (.start i)
    else do
      let first ← i.flowLevelChecked fillPrice flow level
      Matched.andThenChecked (.ok first.matched) fun i =>
        i.flowLevelsChecked fillPrice (flow - first.used) levels

def flowThroughChecked (i : Instrument) (keys : List Key) (flow : Int) (fillPrice : Option Int) :
    Except Error Matched :=
  i.flowLevelsChecked fillPrice flow (keys.splitBy fun a b => a.price == b.price)

def depleteChecked (i : Instrument) (side : Side) (top : Level) : Except Error Matched :=
  if freshQty (i.marks.get side) top = 0 then .ok (.start (i.marked side top))
  else
    (i.marked side top).flowThroughChecked (i.topQueue side) (freshQty (i.marks.get side) top)
      (some top.price)

def tradeFillChecked (i : Instrument) (print : Level) (initiator : Option Side) :
    Except Error Matched :=
  let buys := i.printQueue print initiator .buy
  let sells := i.printQueue print initiator .sell
  Matched.andThenChecked (i.flowThroughChecked buys print.qty none) fun i =>
    i.flowThroughChecked sells print.qty none

def tradeFillsChecked (market : Ladder) (i : Instrument) : List Level → Except Error Matched
  | [] => .ok (.start i)
  | print :: prints =>
    Matched.andThenChecked (i.tradeFillChecked print (market.aggressor print.price)) fun i =>
      i.tradeFillsChecked market prints

def fillWholeChecked (i : Instrument) (key : Key) (price : Int) : Except Error Matched :=
  match Orders.find? key i.orders with
  | none => .error (.tradeNoOrder i.code key)
  | some _ => .ok (i.fillWhole key price)

def fillAllChecked (i : Instrument) : List (Key × Int) → Except Error Matched
  | [] => .ok (.start i)
  | (key, price) :: rest =>
    Matched.andThenChecked (i.fillWholeChecked key price) fun i => i.fillAllChecked rest

def correctGapChecked (i : Instrument) : Except Error Matched :=
  i.fillAllChecked (i.liveOrders.filterMap fun o => (i.passedBy o).map fun price => (o.key, price))

def serveChecked (i : Instrument) (market : Ladder) (prints : List Level) : Except Error Matched :=
  let buys := Matched.andThenChecked (.ok (.start i.refreshQueue))
    (·.depleteChecked .buy i.ladder.bestAsk)
  let sells := Matched.andThenChecked buys (·.depleteChecked .sell i.ladder.bestBid)
  let printed := Matched.andThenChecked sells (·.tradeFillsChecked market prints)
  Matched.andThenChecked printed (·.correctGapChecked)

def matchTickChecked (i : Instrument) (depth : Option Depth) (prints : List Level) :
    Except Error Matched :=
  if (i.takeOver depth).ladder.isQuoted then
    (i.takeOver depth).serveChecked
      (if i.ladder.isQuoted then i.ladder else (i.takeOver depth).ladder) prints
  else .ok (.start (i.takeOver depth))

/-! ## No lookup misses -/

/-- The keys of all orders, exhausted ones included. -/
def orderKeys (i : Instrument) : List Key := i.orders.map Order.key

theorem orderKeys_of_seats (same : i'.seats = i.seats) : i'.orderKeys = i.orderKeys := by
  have seated : ∀ j : Instrument, j.orderKeys = j.seats.map Prod.fst := by
    intro j
    rw [orderKeys, seats, List.map_map]
    rfl
  rw [seated, seated, same]

theorem exists_find? (mem : key ∈ i.orderKeys) : ∃ o, Orders.find? key i.orders = some o := by
  obtain ⟨o, ho, rfl⟩ := List.mem_map.mp mem
  rw [← Option.isSome_iff_exists, Orders.find?, List.find?_isSome]
  exact ⟨o, ho, beq_self_eq_true _⟩

theorem popChecked_eq (mem : key ∈ i.orderKeys) :
    i.popChecked key flow price = .ok (i.pop key flow price) := by
  obtain ⟨o, found⟩ := exists_find? mem
  rw [popChecked, found]

/-- Orders of which flow takes everything stay under their keys, so the later ones are found. -/
theorem flowLevelChecked_eq (mem : keys ⊆ i.orderKeys) :
    i.flowLevelChecked fillPrice flow keys = .ok (i.flowLevel fillPrice flow keys) := by
  induction keys generalizing i with
  | nil => rfl
  | cons key keys ih =>
    obtain ⟨here, rest⟩ := List.cons_subset.mp mem
    have kept : (i.pop key flow (fillPrice.getD key.price)).matched.instrument.orderKeys
        = i.orderKeys := orderKeys_of_seats keeps_pop.seats
    simp only [flowLevelChecked, flowLevel, popChecked_eq here, bind, Except.bind,
      ih (kept ▸ rest)]
    rfl

theorem flowLevelsChecked_eq {levels : List (List Key)}
    (mem : ∀ level ∈ levels, level ⊆ i.orderKeys) :
    i.flowLevelsChecked fillPrice flow levels = .ok (i.flowLevels fillPrice flow levels) := by
  induction levels generalizing i flow with
  | nil => rfl
  | cons level levels ih =>
    obtain ⟨here, rest⟩ := List.forall_mem_cons.mp mem
    have kept : (i.flowLevel fillPrice flow level).matched.instrument.orderKeys = i.orderKeys :=
      orderKeys_of_seats keeps_flowLevel.seats
    simp only [flowLevelsChecked, flowLevels]
    split
    · rfl
    · simp only [flowLevelChecked_eq here, bind, Except.bind]
      refine Matched.andThenChecked_eq rfl ?_
      exact ih fun l hl => kept ▸ rest l hl

theorem flowThroughChecked_eq (mem : keys ⊆ i.orderKeys) :
    i.flowThroughChecked keys flow fillPrice = .ok (i.flowThrough keys flow fillPrice) := by
  refine flowLevelsChecked_eq fun level hlevel key hkey => mem ?_
  rw [← List.flatten_splitBy (fun a b : Key => a.price == b.price) keys]
  exact List.mem_flatten.mpr ⟨level, hlevel, hkey⟩

/-- A queue is collected from live orders. -/
theorem queue_subset (before : Order → Order → Bool) (p : Order → Bool) :
    ((i.liveOrders.filter p).mergeSort before).map Order.key ⊆ i.orderKeys := by
  intro key hkey
  obtain ⟨o, ho, rfl⟩ := List.mem_map.mp hkey
  have live := List.mem_of_mem_filter (List.mem_mergeSort.mp ho)
  exact List.mem_map_of_mem (List.mem_of_mem_filter live)

theorem depleteChecked_eq : i.depleteChecked side top = .ok (i.deplete side top) := by
  rw [depleteChecked, deplete_eq]
  split
  · rfl
  · exact flowThroughChecked_eq (queue_subset _ _)

theorem tradeFillChecked_eq :
    i.tradeFillChecked print initiator = .ok (i.tradeFill print initiator) := by
  have sells : i.printQueue print initiator .sell
      ⊆ (i.flowThrough (i.printQueue print initiator .buy) print.qty none).instrument.orderKeys :=
    orderKeys_of_seats (i := i) keeps_flowThrough.seats ▸ queue_subset _ _
  simp only [tradeFillChecked, tradeFill]
  refine Matched.andThenChecked_eq ?_ ?_
  · exact flowThroughChecked_eq (queue_subset _ _)
  · exact flowThroughChecked_eq sells

theorem tradeFillsChecked_eq {prints : List Level} :
    i.tradeFillsChecked market prints = .ok (i.tradeFills market prints) := by
  induction prints generalizing i with
  | nil => rfl
  | cons print prints ih =>
    exact Matched.andThenChecked_eq tradeFillChecked_eq ih

theorem fillAllChecked_eq {gaps : List (Key × Int)} (mem : gaps.map Prod.fst ⊆ i.orderKeys) :
    i.fillAllChecked gaps = .ok (i.fillAll gaps) := by
  induction gaps generalizing i with
  | nil => rfl
  | cons gap gaps ih =>
    obtain ⟨here, rest⟩ := List.cons_subset.mp mem
    have kept : (i.fillWhole gap.1 gap.2).instrument.orderKeys = i.orderKeys :=
      orderKeys_of_seats keeps_fillWhole.seats
    have first : i.fillWholeChecked gap.1 gap.2 = .ok (i.fillWhole gap.1 gap.2) := by
      obtain ⟨o, found⟩ := exists_find? here
      rw [fillWholeChecked, found]
    exact Matched.andThenChecked_eq first (ih (kept ▸ rest))

theorem correctGapChecked_eq : i.correctGapChecked = .ok i.correctGap := by
  refine fillAllChecked_eq fun key hkey => ?_
  obtain ⟨gap, hgap, rfl⟩ := List.mem_map.mp hkey
  obtain ⟨o, ho, eq⟩ := List.mem_filterMap.mp hgap
  obtain ⟨_, -, rfl⟩ := Option.map_eq_some_iff.mp eq
  exact List.mem_map_of_mem (List.mem_of_mem_filter ho)

theorem serveChecked_eq {prints : List Level} :
    i.serveChecked market prints = .ok (i.serve market prints) := by
  simp only [serveChecked, serve]
  refine Matched.andThenChecked_eq (Matched.andThenChecked_eq (Matched.andThenChecked_eq
    (Matched.andThenChecked_eq rfl ?buys) ?sells) ?prints) ?gap
  case buys => exact depleteChecked_eq
  case sells => exact depleteChecked_eq
  case prints => exact tradeFillsChecked_eq
  case gap => exact correctGapChecked_eq

theorem matchTickChecked_eq {depth : Option Depth} {prints : List Level} :
    i.matchTickChecked depth prints = .ok (i.matchTick depth prints) := by
  rw [matchTickChecked, matchTick_eq]
  split
  · exact serveChecked_eq
  · rfl

end Instrument

/-! ## All instruments -/

namespace Book

variable {b : Book} {quotes : List (Timed QuoteRecord)} {trades : List (Timed Trade)}

/-- Matches the instruments with these codes in turn, each as the book then has it. -/
def matchAllChecked (quotes : List (Timed QuoteRecord)) (trades : List (Timed Trade)) (b : Book) :
    List String → Except Error (Posted Unit)
  | [] => .ok ⟨(), b, []⟩
  | code :: codes =>
    match b.find? code with
    | none => .error (.unknownInstrument code)
    | some i => do
      let m ← i.matchTickChecked (lastDepth code quotes) (printsOf code trades)
      let first := (b.set m.instrument).postAll code m.fills
      let rest ← first.book.matchAllChecked quotes trades codes
      return { rest with notices := first.notices ++ rest.notices }

def replayChecked (b : Book) (quotes : List (Timed QuoteRecord)) (trades : List (Timed Trade)) :
    Except Error (Posted Unit) := do
  let b := quotes.foldl observe b
  let p ← b.matchAllChecked quotes trades b.codes
  return if p.book.openingValue.isNone && p.book.isQuoted then { p with book := p.book.latch } else p

/-- Matching one instrument takes no other one from the book, nor changes it. -/
theorem matchAllChecked_eq {is : List Instrument} (found : ∀ i ∈ is, b.find? i.code = some i)
    (codes : (is.map Instrument.code).Nodup) (sorted : ∀ i ∈ is, Orders.Sorted i.orders) :
    b.matchAllChecked quotes trades (is.map Instrument.code)
      = .ok (b.matchAll quotes trades is) := by
  induction is generalizing b with
  | nil => rfl
  | cons i is ih =>
    obtain ⟨here, later⟩ := List.forall_mem_cons.mp found
    obtain ⟨apart, codes⟩ := List.nodup_cons.mp codes
    obtain ⟨sortedHere, sortedLater⟩ := List.forall_mem_cons.mp sorted
    let first := (b.set (i.matched quotes trades).instrument).postAll i.code
      (i.matched quotes trades).fills
    have foundThen : ∀ j ∈ is, first.book.find? j.code = some j := by
      intro j hj
      have ne : j.code ≠ i.code := fun same => apart (same ▸ List.mem_map_of_mem hj)
      exact (find?_matched_ne sortedHere ne).trans (later j hj)
    have rest : first.book.matchAllChecked quotes trades (is.map Instrument.code)
        = .ok (first.book.matchAll quotes trades is) := ih foundThen codes sortedLater
    have matched : i.matchTickChecked (lastDepth i.code quotes) (printsOf i.code trades)
        = .ok (i.matched quotes trades) := Instrument.matchTickChecked_eq
    simp only [List.map_cons, matchAllChecked, here, matched, bind, Except.bind]
    simp only [first] at rest
    rw [rest]
    rfl

theorem Ordered.replayChecked_eq (h : b.Ordered) :
    b.replayChecked quotes trades = .ok (b.replay quotes trades) := by
  have observed : (quotes.foldl observe b).Ordered := h.observed
  have matched : (quotes.foldl observe b).matchAllChecked quotes trades
      (quotes.foldl observe b).codes = .ok ((quotes.foldl observe b).matchAll quotes trades
        (quotes.foldl observe b).instruments) :=
    matchAllChecked_eq (fun i hi => (Keyed.find?_eq_some observed.nodup).mpr ⟨hi, rfl⟩)
      observed.nodup observed.sorted
  simp only [replayChecked, matched, bind, Except.bind]
  rfl

end Book

namespace Simulation

variable {s : Simulation} {c : TickContext}

/-- A tick that fails where matching looks up what is not there. -/
def advanceChecked (s : Simulation) (c : TickContext) : Outcome Simulation TickStatus :=
  let s := s.turn c.tick
  if c.pastClose then s.close
  else
    (s.takeQuotes c.boundary).bind fun quotes s =>
      (s.takeTrades c.boundary).bind fun trades s =>
        match s.book.replayChecked quotes trades with
        | .error e => .fail e s
        | .ok p =>
          Outcome.bind ⟨.ok (), { s with book := p.book }, p.notices⟩ fun _ s => s.checkTapes c.tick

theorem advanceChecked_eq (ordered : s.book.Ordered) : s.advanceChecked c = s.advance c := by
  simp only [advanceChecked, advance]
  split
  · rfl
  · cases quotes : ((s.turn c.tick).takeQuotes c.boundary).result with
    | error => simp only [Outcome.bind, quotes]
    | ok qs =>
      cases trades : (((s.turn c.tick).takeQuotes c.boundary).state.takeTrades
          c.boundary).result with
      | error => simp only [Outcome.bind, quotes, trades]
      | ok ts =>
        have replayed : (((s.turn c.tick).takeQuotes c.boundary).state.takeTrades
            c.boundary).state.book.replayChecked qs ts = .ok ((s.turn c.tick).book.replay qs ts) :=
          (ordered_turn ordered).replayChecked_eq
        simp only [Outcome.bind, quotes, trades, replayed]
        rfl

end Simulation

end TradingDesk
