-- SUMMARY: Each order keeps the slot of its origin, so the slots add up to the totals of all fills.
import TradingDesk.Proofs.Conservation
import TradingDesk.Proofs.Fills
import TradingDesk.Proofs.Grid

/-!
# Origins

An order keeps its key, its side and its origin from its placing to its end, and a fill is of
an order that still has them. An order that is placed while its ladder is quoted has a slot
for its origin. If all orders were placed so, each fill counts into a slot, with the cash and
the quantity that it counts for in the totals.
-/

namespace TradingDesk

/-! ## Seats -/

/-- What an order keeps from its placing to its end. -/
def Order.seat (o : Order) : Key × Side × Option Slot := (o.key, o.side, o.origin)

@[simp] theorem Order.seat_shrink {kind : Kind} {o : Order} {n : Int} :
    (o.shrink kind n).seat = o.seat := by
  simp only [seat, key_shrink, shrink_side, shrink_origin]

namespace Instrument

variable {i i' : Instrument} {o : Order} {key : Key} {keys : List Key} {price flow : Int}
  {side : Side} {fillPrice : Option Int} {print top : Level} {initiator : Option Side}

def seats (i : Instrument) : List (Key × Side × Option Slot) := i.orders.map Order.seat

theorem seats_map {g : Order → Order} (kept : ∀ o, (g o).seat = o.seat) :
    { i with orders := i.orders.map g }.seats = i.seats := by
  simp only [seats, List.map_map, Function.comp_def, kept]

theorem mem_seats (h : Orders.find? key i.orders = some o) : o.seat ∈ i.seats :=
  List.mem_map_of_mem (Orders.mem_of_find? h)

theorem seats_shrinkOrder {n : Int} : (i.shrinkOrder key n).seats = i.seats := by
  refine seats_map fun o => ?_
  split
  · exact Order.seat_shrink
  · rfl

theorem seats_closeRanks {qty : Int} : (i.closeRanks side key qty).seats = i.seats := by
  refine seats_map fun o => ?_
  split <;> rfl

/-- Whether orders keep their seats through a step, each of whose fills is of one of them. -/
structure Keeps (i : Instrument) (m : Matched) : Prop where
  seats : m.instrument.seats = i.seats
  fills : ∀ f ∈ m.fills, f.order.seat ∈ i.seats

namespace Keeps

theorem start (same : i'.seats = i.seats) : Keeps i (.start i') :=
  ⟨same, fun _ none => absurd none List.not_mem_nil⟩

theorem of_seats {m : Matched} (h : Keeps i' m) (same : i'.seats = i.seats) : Keeps i m :=
  ⟨h.seats.trans same, fun f hf => same ▸ h.fills f hf⟩

theorem andThen {m : Matched} (first : Keeps i m) (step : Instrument → Matched)
    (next : Keeps m.instrument (step m.instrument)) : Keeps i (m.andThen step) where
  seats := next.seats.trans first.seats
  fills := by
    intro f hf
    rcases List.mem_append.mp hf with hf | hf
    · exact first.fills f hf
    · exact first.seats ▸ next.fills f hf

theorem fill {qty : Int} {f : Fill} (mem : o.seat ∈ i.seats)
    (filled : i.fill o price qty = some (i', f)) : Keeps i ⟨i', [f]⟩ := by
  obtain ⟨-, -, -, rfl, -, -, -, rfl⟩ := fill_eq_some filled
  refine ⟨seats_shrinkOrder, fun g hg => ?_⟩
  obtain rfl := List.mem_singleton.mp hg
  exact mem

end Keeps

theorem keeps_pop : Keeps i (i.pop key flow price).matched := by
  simp only [pop]
  cases resting : Orders.find? key i.orders with
  | none => exact .start rfl
  | some o =>
    simp only
    have passed : (i.passed key (o.intake flow)).seats = i.seats := by
      refine seats_map fun p => ?_
      split <;> rfl
    cases filled : (i.passed key (o.intake flow)).fill (o.advanceQueue (o.intake flow)) price
        (o.intake flow).filled with
    | none =>
      simp only [Instrument.passed] at filled
      simp only [filled]
      exact .start passed
    | some result =>
      have kept : Keeps _ ⟨result.1, [result.2]⟩ := .fill (mem_seats (find?_passed resting)) filled
      simp only [Instrument.passed] at filled
      simp only [filled]
      exact kept.of_seats passed

theorem keeps_flowLevel : Keeps i (i.flowLevel fillPrice flow keys).matched := by
  induction keys generalizing i with
  | nil => exact .start rfl
  | cons key keys ih =>
    have first : Keeps i (i.pop key flow (fillPrice.getD key.price)).matched := keeps_pop
    exact first.andThen (fun j => (j.flowLevel fillPrice flow keys).matched) ih

theorem keeps_flowLevels {levels : List (List Key)} :
    Keeps i (i.flowLevels fillPrice flow levels) := by
  induction levels generalizing i flow with
  | nil => exact .start rfl
  | cons keys levels ih =>
    simp only [flowLevels]
    split
    · exact .start rfl
    · exact keeps_flowLevel.andThen _ ih

theorem keeps_flowThrough : Keeps i (i.flowThrough keys flow fillPrice) := keeps_flowLevels

theorem keeps_deplete : Keeps i (i.deplete side top) := by
  rw [deplete_eq]
  split
  · exact .start rfl
  · exact keeps_flowThrough.of_seats rfl

theorem keeps_tradeFills {market : Ladder} {prints : List Level} :
    Keeps i (i.tradeFills market prints) := by
  induction prints generalizing i with
  | nil => exact .start rfl
  | cons print prints ih =>
    have first : Keeps i (i.tradeFill print (market.aggressor print.price)) := by
      simp only [tradeFill]
      exact keeps_flowThrough.andThen _ keeps_flowThrough
    exact first.andThen _ ih

theorem keeps_fillWhole : Keeps i (i.fillWhole key price) := by
  simp only [fillWhole]
  cases resting : Orders.find? key i.orders with
  | none => exact .start rfl
  | some o =>
    simp only
    cases filled : i.fill o price o.qty with
    | none => exact .start rfl
    | some result => exact .fill (mem_seats resting) filled

theorem keeps_fillAll {gaps : List (Key × Int)} : Keeps i (i.fillAll gaps) := by
  induction gaps generalizing i with
  | nil => exact .start rfl
  | cons gap gaps ih => exact keeps_fillWhole.andThen _ ih

theorem keeps_matchTick {depth : Option Depth} {prints : List Level} :
    Keeps i (i.matchTick depth prints) := by
  have quoted : (i.takeOver depth).seats = i.seats := by cases depth <;> rfl
  have refreshed : (i.takeOver depth).refreshQueue.seats = i.seats := by
    refine (seats_map fun o => ?_).trans quoted
    split <;> rfl
  simp only [matchTick]
  split
  · exact .start quoted
  · exact ((((Keeps.start refreshed).andThen _ keeps_deplete).andThen _ keeps_deplete).andThen _
      keeps_tradeFills).andThen _ keeps_fillAll

end Instrument

/-! ## Histories -/

/-- Whether an order was placed with a seat in an instrument of a code. -/
def Traced (history : List Event) (code : String) (seat : Key × Side × Option Slot) : Prop :=
  ∃ before order, .placed before order ∈ history ∧ before.code = code ∧ order.seat = seat

theorem Traced.mono {history history' : List Event} {code : String}
    {seat : Key × Side × Option Slot} (h : Traced history code seat)
    (later : history ⊆ history') : Traced history' code seat := by
  obtain ⟨before, order, mem, rest⟩ := h
  exact ⟨before, order, later mem, rest⟩

namespace Instrument

variable {i i' : Instrument} {history history' : List Event}

/-- What is kept of an instrument: its ladder has no gaps, and its orders were placed with the
seats that they have. -/
structure Seated (history : List Event) (i : Instrument) : Prop where
  gridded : i.ladder.isQuoted = true → i.ladder.Stepped i.kind
  traced : ∀ seat ∈ i.seats, Traced history i.code seat

theorem Seated.mono (h : Seated history i) (later : history ⊆ history') : Seated history' i :=
  ⟨h.gridded, fun seat mem => (h.traced seat mem).mono later⟩

theorem Seated.of_seats (h : Seated history i) (code : i'.code = i.code) (kind : i'.kind = i.kind)
    (ladder : i'.ladder = i.ladder) (seats : i'.seats ⊆ i.seats) : Seated history i' where
  gridded := by
    rw [ladder, kind]
    exact h.gridded
  traced := by
    rw [code]
    exact fun seat mem => h.traced seat (seats mem)

theorem Seated.takeOver (h : Seated history i) (depth : Option Depth) :
    Seated history (i.takeOver depth) := by
  cases depth with
  | none => exact h
  | some d => exact ⟨Ladder.stepped_regrid, h.traced⟩

theorem Seated.matchTick (h : Seated history i) (sorted : Orders.Sorted i.orders)
    (depth : Option Depth) (prints : List Level) :
    Seated history (i.matchTick depth prints).instrument := by
  have trades : Trades (i.takeOver depth) (i.matchTick depth prints).fills
      (i.matchTick depth prints).instrument := trades_matchTick sorted
  have seats : (i.takeOver depth).seats = i.seats := by cases depth <;> rfl
  refine (h.takeOver depth).of_seats trades.code trades.kind trades.ladder ?_
  rw [keeps_matchTick.seats, seats]
  exact List.Subset.refl _

/-- The new order has its seat, the others have theirs. -/
theorem Seated.place {id : Nat} {side : Side} {price qty : Int} (h : Seated history i)
    (ids : ∀ o ∈ i.orders, o.id < id)
    (new : Traced history i.code (i.newOrder id side price qty).seat) :
    Seated history ((i.place id side price qty).stamp side ⟨price, id⟩) := by
  refine ⟨h.gridded, fun seat mem => ?_⟩
  have stamped : ((i.place id side price qty).stamp side ⟨price, id⟩).seats
      = (i.place id side price qty).seats := by
    refine seats_map fun o => ?_
    split <;> rfl
  rw [stamped] at mem
  obtain ⟨o, ho, rfl⟩ := List.mem_map.mp mem
  rcases (Orders.mem_insert (fresh_of_ids ids side price qty)).mp ho with rfl | ho
  · exact new
  · exact h.traced o.seat (List.mem_map_of_mem ho)

end Instrument

/-- Whether an order was placed where a request may place one, in an instrument without gaps. -/
structure PlacedBy (before : Instrument) (order : Order) : Prop where
  gridded : before.ladder.isQuoted = true → before.ladder.Stepped before.kind
  posed : before.Posed order.side order.price
  price : 0 < order.price
  origin : order.origin = before.ladder.originSlot order.side order.price

/-- An order that was placed while the ladder was quoted has a slot. -/
theorem PlacedBy.exists_slot {before : Instrument} {order : Order} (h : PlacedBy before order)
    (quoted : before.ladder.isQuoted = true) :
    ∃ slot, order.origin = some slot ∧ before.ladder.Places order.side order.price slot := by
  have stepped := h.gridded quoted
  have within := h.posed.within
  rw [h.origin]
  refine stepped.exists_originSlot h.price ?_ h.posed.onGrid
  simp only [Ladder.isQuoted, Bool.and_eq_true, decide_eq_true_eq] at quoted
  cases side : order.side with
  | buy =>
    rw [side] at within
    exact within quoted.2
  | sell =>
    rw [side] at within
    exact within quoted.1

namespace Book

variable {b b' : Book} {history events : List Event} {cause : Cause}

/-- What is kept of the orders of a book and of its history. -/
structure Seated (history : List Event) (b : Book) : Prop where
  instruments : ∀ i ∈ b.instruments, i.Seated history
  fills : ∀ code f, .filled code f ∈ history → Traced history code f.order.seat
  placed : ∀ before order, .placed before order ∈ history → PlacedBy before order

/-- What is kept stays kept where the instruments and the new events keep it. -/
theorem Seated.extend (h : Seated history b)
    (instruments : ∀ i ∈ b'.instruments, i.Seated (history ++ events))
    (fills : ∀ code f, .filled code f ∈ events → Traced history code f.order.seat)
    (placed : ∀ before order, .placed before order ∈ events → PlacedBy before order) :
    Seated (history ++ events) b' where
  instruments := instruments
  fills := by
    intro code f hf
    have traced : Traced history code f.order.seat :=
      (List.mem_append.mp hf).elim (h.fills code f) (fills code f)
    exact traced.mono (List.subset_append_left _ _)
  placed := by
    intro before order ho
    exact (List.mem_append.mp ho).elim (h.placed before order) (placed before order)

theorem Move.seated (move : Move b cause events b') (hb : b.WellFormed) (h : Seated history b) :
    Seated (history ++ events) b' := by
  have kept : ∀ i ∈ b.instruments, i.Seated (history ++ events) := fun i hi =>
    (h.instruments i hi).mono (List.subset_append_left _ _)
  cases move with
  | quiet same rest =>
    refine h.extend (fun i hi => ?_) (by simp) (by simp)
    obtain ⟨j, hj, eq⟩ := exists_of_quiet rest hi
    rw [eq]
    exact (kept j hj).of_seats rfl rfl rfl (List.Subset.refl _)
  | sweep =>
    refine h.extend (fun i hi => ?_) (by simp) (by simp)
    obtain ⟨j, hj, rfl⟩ := List.mem_map.mp hi
    exact (kept j hj).of_seats rfl rfl rfl (List.map_subset _ (List.filter_subset_self _))
  | @tick code i found depth prints =>
    have mem := mem_of_find? found
    have sorted := hb.sorted i mem
    refine h.extend ?_ (fun c f hf => ?_) (by simp)
    · rw [instruments_postAll]
      exact forall_set kept ((kept i mem).matchTick sorted depth prints)
    · obtain ⟨g, hg, eq⟩ := List.mem_map.mp hf
      cases eq
      exact code_of_find? found ▸
        (h.instruments i mem).traced _ (Instrument.keeps_matchTick.fills f hg)
  | @place code i side price qty p found posed fits placed =>
    have mem := mem_of_find? found
    obtain ⟨j, found', hprice, -⟩ := fits
    refine h.extend ?_ (by simp) (fun before order ho => ?_)
    · rw [placed_eq found placed]
      refine forall_set kept ((kept i mem).place (hb.ids i mem) ?_)
      exact ⟨i, _, List.mem_append_right _ (List.mem_singleton_self _), rfl, rfl⟩
    · obtain ⟨rfl, rfl⟩ : before = i ∧ order = i.newOrder b.nextId side price qty := by
        simpa using ho
      exact ⟨(h.instruments before mem).gridded, posed, hprice, rfl⟩
  | @cancel code i i' key o qty w found resting withdrawn =>
    have mem := mem_of_find? found
    obtain ⟨-, -, -, rfl⟩ := Instrument.withdraw_eq_some withdrawn
    refine h.extend (forall_set kept ((kept i mem).of_seats rfl rfl rfl ?_)) (by simp) (by simp)
    rw [Instrument.seats_closeRanks]
    exact fun seat mem => Instrument.seats_shrinkOrder (i := i) ▸ mem

theorem MovesBy.seated {P : Cause → Prop} (moves : MovesBy P b events b') (hb : b.WellFormed)
    (h : Seated history b) : Seated (history ++ events) b' := by
  induction moves with
  | refl => exact (List.append_nil history).symm ▸ h
  | snoc moves move _ ih =>
    rw [← List.append_assoc]
    exact move.seated ((moves.run hb).wellFormed hb) ih

end Book

/-! ## Slots -/

/-- What the slots of some statistics come to together. -/
def Stats.slotTotal (s : Stats) (g : SlotStats → Int) : Int := (s.slots.toList.map g).sum

/-- The quantity that a fill brings in: negative for sells. -/
def Fill.inflow (f : Fill) : Int := f.order.side.sign * f.qty

theorem Event.gain_filled {code : String} {f : Fill} :
    (Event.filled code f).gain code = f.inflow := by
  simp only [gain, filledQty, Fill.inflow, true_and]
  cases f.order.side <;> simp [Side.sign]

namespace Stats

variable {s : Stats} {f : Fill} {fs : List Fill} {slot : Slot}

theorem slotTotal_record (g : SlotStats → Int) (origin : f.order.origin = some slot) :
    (s.record f).slotTotal g
      = s.slotTotal g + (g ((s.slots.get slot).record f) - g (s.slots.get slot)) := by
  have bound : slot.val < (s.slots.toList.map g).length := by simp
  have here : (s.slots.toList.map g)[slot.val] = g (s.slots.get slot) := by
    rw [List.getElem_map, Vector.getElem_toList]
    rfl
  simp only [slotTotal, record, origin, Vector.toList_set, List.map_set]
  rw [List.sum_set', dif_pos bound, here]
  change _ + (-g (s.slots.get slot) + g ((s.slots.get slot).record f)) = _
  omega

/-- A fill with an origin counts for the same in the slots as in the totals. -/
theorem slotTotals_record (origin : f.order.origin.isSome = true) :
    (s.record f).slotTotal SlotStats.cash - (s.record f).cashFlow
        = s.slotTotal SlotStats.cash - s.cashFlow
      ∧ (s.record f).slotTotal SlotStats.qty = s.slotTotal SlotStats.qty + f.inflow
      ∧ (s.record f).slotTotal SlotStats.fills = s.slotTotal SlotStats.fills + 1 := by
  obtain ⟨slot, origin⟩ := Option.isSome_iff_exists.mp origin
  simp only [slotTotal_record _ origin, SlotStats.record, cashFlow_record, Fill.inflow]
  refine ⟨?_, by omega, by omega⟩
  cases f.order.side <;> simp only <;> omega

theorem slotTotals_recordAll (origins : ∀ f ∈ fs, f.order.origin.isSome = true) :
    (s.recordAll fs).slotTotal SlotStats.cash - (s.recordAll fs).cashFlow
        = s.slotTotal SlotStats.cash - s.cashFlow
      ∧ (s.recordAll fs).slotTotal SlotStats.qty
        = s.slotTotal SlotStats.qty + (fs.map Fill.inflow).sum
      ∧ (s.recordAll fs).slotTotal SlotStats.fills = s.slotTotal SlotStats.fills + fs.length := by
  induction fs generalizing s with
  | nil => simp [recordAll]
  | cons f fs ih =>
    obtain ⟨here, later⟩ := List.forall_mem_cons.mp origins
    obtain ⟨cash, qty, fills⟩ := @slotTotals_record s f here
    obtain ⟨cash', qty', fills'⟩ := ih (s := s.record f) later
    simp only [recordAll, List.foldl_cons, List.map_cons, List.sum_cons, List.length_cons] at *
    refine ⟨cash'.trans cash, ?_, ?_⟩
    · rw [qty', qty]
      omega
    · rw [fills', fills]
      omega

end Stats

namespace Book

variable {b b' : Book} {history : List Event}

theorem placed_of_sound {e : Event} (h : b.Sound e) : b.Placed e := by
  cases e with
  | placed => exact h.2.1.le
  | filled => trivial
  | canceled => trivial

/-- The shares of all instruments change with fills only. -/
theorem Step.totalShares {e : Option Event} (step : Step b e b') (hb : b.WellFormed)
    (hs : b.Settled) : b'.total Instrument.shares
      = b.total Instrument.shares + ((fillsOf e.toList).map fun p => p.2.inflow).sum := by
  cases step with
  | observe same =>
    exact (total_of_account (fun _ _ => Instrument.shares_of_account) same).trans
      (Int.add_zero _).symm
  | sweep =>
    have swept : b.sweep.total Instrument.shares = b.total Instrument.shares := by
      rw [total, Book.sweep, List.map_map]
      exact congrArg List.sum
        (List.map_congr_left fun i hi => Instrument.shares_sweep (hs i hi))
    exact swept.trans (Int.add_zero _).symm
  | @place _ i side price qty _ found placed =>
    have kept : (b.set (i.place b.nextId side price qty)).total Instrument.shares
        = b.total Instrument.shares := by
      have foundHere : b.find? (i.place b.nextId side price qty).code = some i :=
        find?_of_code found rfl
      rw [hb.total_set foundHere, Instrument.shares_place (hb.ids i (mem_of_find? found))]
      omega
    rw [insert_eq_ok found placed]
    exact kept.trans (Int.add_zero _).symm
  | @fill c i i' _ o _ _ f found resting filled =>
    have sorted := hb.sorted i (mem_of_find? found)
    rw [← Orders.key_of_find? resting] at resting
    have changed : (b.set i').total Instrument.shares = b.total Instrument.shares + f.inflow := by
      rw [hb.total_set (find?_of_code found (Instrument.code_of_fill filled)),
        Instrument.shares_fill sorted resting filled, Event.gain_filled]
      omega
    exact changed.trans (congrArg _ (Int.add_zero _).symm)
  | @cancel c i i' key o _ w found resting withdrawn =>
    have sorted := hb.sorted i (mem_of_find? found)
    rw [← Orders.key_of_find? resting] at resting
    have kept : (b.set i').total Instrument.shares = b.total Instrument.shares := by
      rw [hb.total_set (find?_of_code found (Instrument.code_of_withdraw withdrawn)),
        Instrument.shares_withdraw sorted resting withdrawn]
      omega
    exact kept.trans (Int.add_zero _).symm

theorem Run.totalShares (run : Run Placed b history b') (hb : b.WellFormed) (hs : b.Settled) :
    b'.total Instrument.shares
      = b.total Instrument.shares + ((fillsOf history).map fun p => p.2.inflow).sum := by
  induction run with
  | refl => simp [fillsOf]
  | snoc run step _ ih =>
    rw [step.totalShares (run.wellFormed hb) (run.settled hb hs), ih]
    simp only [fillsOf, List.filterMap_append, List.map_append, List.sum_append]
    omega

end Book

/-! ## Sessions -/

/-- Whether an event places no order, or one in an instrument with a market on both sides. -/
def Event.whileQuoted : Event → Bool
  | .placed before _ => before.ladder.isQuoted
  | .filled .. => true
  | .canceled .. => true

namespace Book

theorem seated_opening (balance : Int) (ts : List Tracked) : (opening balance ts).Seated [] where
  instruments := by
    intro i hi
    refine ⟨fun quoted => ?_, fun seat mem => ?_⟩
    · rw [ladder_opening hi] at quoted
      exact absurd quoted (by decide)
    · rw [Instrument.seats, (mem_opening hi).1] at mem
      cases mem
  fills := fun _ _ none => absurd none List.not_mem_nil
  placed := fun _ _ none => absurd none List.not_mem_nil

/-- What was placed with a seat has the slot that its ladder gave it, if that was quoted. -/
theorem Seated.exists_origin {b : Book} {history : List Event} {code : String} {o : Order}
    (h : Seated history b) (quoted : ∀ e ∈ history, e.whileQuoted = true)
    (traced : Traced history code o.seat) :
    ∃ before order slot, .placed before order ∈ history ∧ before.code = code
      ∧ order.key = o.key ∧ order.side = o.side ∧ o.origin = some slot
      ∧ before.ladder.Places o.side o.price slot := by
  obtain ⟨before, order, mem, hcode, same⟩ := traced
  obtain ⟨key, side, origin⟩ : order.key = o.key ∧ order.side = o.side
      ∧ order.origin = o.origin := by
    simpa [Order.seat] using same
  obtain ⟨slot, hslot, places⟩ := (h.placed before order mem).exists_slot (quoted _ mem)
  have price : order.price = o.price := congrArg Key.price key
  rw [side, price] at places
  exact ⟨before, order, slot, mem, hcode, key, side, origin ▸ hslot, places⟩

theorem totalShares_opening {balance : Int} {ts : List Tracked} :
    (opening balance ts).total Instrument.shares = (opening balance ts).total Instrument.idle := by
  refine congrArg List.sum (List.map_congr_left fun i hi => ?_)
  rw [Instrument.shares, Instrument.offered, (mem_opening hi).1]
  exact Int.add_zero _

end Book

namespace Session

/-- In a session of which each order was placed while its instrument had a market on both
sides, each order has the slot at which its ladder placed it then, and all slots together come
to what the totals of all fills do: in cash, in shares and in number. -/
theorem run_reconciles {broker : Simulation} {clock : SessionClock} {inputs : List Input}
    {balance : Int} {ts : List Tracked} (opened : broker.book = Book.opening balance ts)
    (quoted : ∀ e ∈ (start broker clock).history inputs, e.whileQuoted = true) :
    let b := ((start broker clock).run inputs).broker.book
    let history := (start broker clock).history inputs
    (∀ i ∈ b.instruments, ∀ o ∈ i.orders, ∃ before order slot, .placed before order ∈ history
        ∧ before.code = i.code ∧ order.key = o.key ∧ order.side = o.side ∧ o.origin = some slot
        ∧ before.ladder.Places o.side o.price slot)
      ∧ b.stats.slotTotal SlotStats.cash = b.stats.sold - b.stats.bought - b.stats.fees
      ∧ b.stats.slotTotal SlotStats.qty
        = b.total (fun i => i.idle + i.offered) - (Book.opening balance ts).total Instrument.idle
      ∧ b.stats.slotTotal SlotStats.fills = (fillsOf history).length := by
  intro b history
  have sane : (start broker clock).broker.book.Sane := sane_start opened
  have moves : Book.Moves (start broker clock).broker.book history b := moves_run sane
  have opening : (start broker clock).broker.book = Book.opening balance ts := opened
  rw [opening] at sane moves
  have run : Book.Run Book.Placed (Book.opening balance ts) history b :=
    (moves.run sane.wellFormed).mono fun _ _ => Book.placed_of_sound
  have seated : b.Seated history := moves.seated sane.wellFormed (Book.seated_opening balance ts)
  have origins : ∀ f ∈ (fillsOf history).map Prod.snd, f.order.origin.isSome = true := by
    intro f hf
    obtain ⟨p, hp, rfl⟩ := List.mem_map.mp hf
    obtain ⟨_, _, slot, _, _, _, _, origin, _⟩ :=
      seated.exists_origin quoted (seated.fills p.1 p.2 (mem_fillsOf.mp hp))
    rw [origin]
    rfl
  have stats : b.stats = Stats.blank.recordAll ((fillsOf history).map Prod.snd) := by
    rw [← Book.opening_balance.2]
    exact run.stats
  obtain ⟨cash, qty, fills⟩ := Stats.slotTotals_recordAll (s := .blank) origins
  rw [← stats] at cash qty fills
  refine ⟨fun i hi o ho => ?_, ?_, ?_, ?_⟩
  · have traced := (seated.instruments i hi).traced _ (List.mem_map_of_mem ho)
    exact seated.exists_origin quoted traced
  · have blank : Stats.blank.slotTotal SlotStats.cash - Stats.blank.cashFlow = 0 := by decide
    rw [blank] at cash
    exact Int.sub_eq_zero.mp cash
  · have shares := run.totalShares sane.wellFormed (Book.settled_opening balance ts)
    have blank : Stats.blank.slotTotal SlotStats.qty = 0 := by decide
    have inflow : (fillsOf history).map (fun p => p.2.inflow)
        = ((fillsOf history).map Prod.snd).map Fill.inflow := by
      rw [List.map_map]
      rfl
    have held : b.total (fun i => i.idle + i.offered) = b.total Instrument.shares := rfl
    rw [held, shares, Book.totalShares_opening, inflow, qty, blank]
    omega
  · have blank : Stats.blank.slotTotal SlotStats.fills = 0 := by decide
    rw [fills, blank, List.length_map, Int.zero_add]

/-- A buy inside the spread and a sell of three of seven, which quotes and prints fill in part. -/
theorem run_reconciles_inside :
    let broker := Simulation.start (Book.opening 1000000 [⟨"A", .equity, 7⟩])
      ("32400 A 0 0 0 0 0 0 0 0 0 0 0 10050 9990 0 0 0 0 0 0 0 0 0 0 0 0 0 0 0 0 0 0 50 20"
        ++ " 0 0 0 0 0 0 0 0 0\n").toUTF8.toList
      "32410 A 10000 5\n32411 A 10050 52\n".toUTF8.toList 8
    let clock : SessionClock := ⟨32400, 33000, 10⟩
    let inputs : List Input :=
      [.advance, .buildMsgOut, .applyMsgIn "b A 10000 8\ns A 10050 3", .advance]
    let b := ((start broker clock).run inputs).broker.book
    let history := (start broker clock).history inputs
    b.instruments.map (fun i => i.orders.map fun o => (o.side, o.qty, o.origin))
        = [[(.buy, 3, some Slot.improvedBid), (.sell, 1, some 9)]]
      ∧ b.stats.slotTotal SlotStats.cash = b.stats.sold - b.stats.bought - b.stats.fees
      ∧ b.stats.slotTotal SlotStats.qty = b.total (fun i => i.idle + i.offered)
        - (Book.opening 1000000 [⟨"A", .equity, 7⟩]).total Instrument.idle
      ∧ b.stats.slotTotal SlotStats.fills = (fillsOf history).length := by
  refine ⟨by decide +kernel, ?_⟩
  exact (run_reconciles rfl (by decide +kernel)).2

end Session

end TradingDesk
