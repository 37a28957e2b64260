-- SUMMARY: What an order waits for in a session, from its placement to the sweep that drops it.
import TradingDesk.Proofs.Fills

/-!
# Waiting

As long as no quote shows a negative quantity, nothing that an order waits for is
negative, and none of it ever grows: an order eases from one state of a session to any
later one. Only the sweep at the beginning of a tick drops orders, and only exhausted
ones; the key of an order that was dropped does not come back.
-/

namespace TradingDesk

/-! ## Quantities that are not negative -/

/-- Nothing of the order is below zero. -/
structure Order.Nonneg (o : Order) : Prop where
  others : 0 ≤ o.aheadOthers
  mine : 0 ≤ o.aheadMine
  qty : 0 ≤ o.qty

theorem Order.Nonneg.eased {o o' : Order} (h : o.Nonneg) (eased : o.Eased o') : o'.Nonneg where
  others := eased.others.2 h.others
  mine := eased.mine.2 h.mine
  qty := eased.qty.2 h.qty

namespace Ladder

variable {l : Ladder} {kind : Kind} {price bid ask : Int}

/-- The ladder shows no negative quantity. -/
def Nonneg (l : Ladder) : Prop := ∀ level ∈ l.levels.toList, 0 ≤ level.qty

theorem Nonneg.qtyAt (h : l.Nonneg) (price : Int) : 0 ≤ l.qtyAt price := by
  unfold Ladder.qtyAt
  split
  next k _ => exact h _ (Vector.mem_toList_iff.mpr (Vector.getElem_mem k.isLt))
  next => exact le_rfl

theorem Nonneg.around (h : l.Nonneg) (kind : Kind) (bid ask : Int) :
    (l.around kind bid ask).Nonneg := by
  intro level hlevel
  rw [Vector.mem_toList_iff, Ladder.around, layOut, Vector.mem_ofFn] at hlevel
  obtain ⟨k, rfl⟩ := hlevel
  exact h.qtyAt _

theorem Nonneg.regrid (h : l.Nonneg) (kind : Kind) : (l.regrid kind).Nonneg := by
  simp only [Ladder.regrid, requantize]
  split
  · exact h
  · split
    · exact h.around _ _ _
    · split <;> exact h.around _ _ _

theorem nonneg_empty : empty.Nonneg := by
  intro level hlevel
  rw [Vector.mem_toList_iff, empty, Vector.mem_replicate] at hlevel
  rw [hlevel.2]

end Ladder

/-- The market depth shows no negative quantity. -/
def Depth.Nonneg (d : Depth) : Prop := d.ladder.Nonneg

instance : DecidablePred Depth.Nonneg :=
  fun d => inferInstanceAs (Decidable (∀ level ∈ d.ladder.levels.toList, 0 ≤ level.qty))

namespace Instrument

variable {i i' : Instrument} {o k : Order} {key : Key} {side : Side} {price qty n : Int}

/-- Neither the ladder nor any order has anything below zero. -/
structure Nonneg (i : Instrument) : Prop where
  ladder : i.ladder.Nonneg
  orders : ∀ o ∈ i.orders, o.Nonneg

theorem Nonneg.of_eases (h : i.Nonneg) (ladder : i'.ladder.Nonneg) (eases : Eases i i') :
    i'.Nonneg where
  ladder := ladder
  orders := by
    intro o ho
    obtain ⟨p, hp, eased⟩ := eases.exists_of_mem ho
    exact (h.orders p hp).eased eased

theorem Nonneg.takeOver {depth : Option Depth} (h : i.Nonneg) (shown : ∀ d ∈ depth, d.Nonneg) :
    (i.takeOver depth).ladder.Nonneg := by
  cases depth with
  | none => exact h.ladder
  | some d => exact (shown d rfl).regrid i.kind

theorem Nonneg.matchTick {depth : Option Depth} (h : i.Nonneg) (sorted : Orders.Sorted i.orders)
    (shown : ∀ d ∈ depth, d.Nonneg) (prints : List Level) :
    Eases i (i.matchTick depth prints).instrument
      ∧ (i.matchTick depth prints).instrument.Nonneg := by
  have ladder := h.takeOver shown
  have eases : Eases i (i.matchTick depth prints).instrument :=
    eases_matchTick sorted ladder.qtyAt fun o ho => (h.orders o ho).others
  have trades : Trades _ (i.matchTick depth prints).fills _ := trades_matchTick sorted
  exact ⟨eases, h.of_eases (trades.ladder ▸ ladder) eases⟩

/-- A new order waits for what is shown at its price and for what I have open there. -/
theorem nonneg_joined {id : Nat} (h : i.Nonneg) (hqty : 0 ≤ qty) :
    (i.joined (i.newOrder id side price qty)).Nonneg where
  others := by
    simp only [joined, queueOfOthers]
    split
    · exact le_rfl
    · exact h.ladder.qtyAt _
  mine := by
    simp only [joined, queueOfMine, sumOf_eq]
    apply List.sum_nonneg
    simp only [List.forall_mem_map]
    exact fun o ho => (h.orders o (List.mem_of_mem_filter ho)).qty
  qty := hqty

/-- A placement leaves the orders that rest already as they are. -/
theorem Nonneg.place {id : Nat} (h : i.Nonneg) (sorted : Orders.Sorted i.orders)
    (ids : ∀ o ∈ i.orders, o.id < id) (hqty : 0 ≤ qty) :
    ((i.place id side price qty).stamp side ⟨price, id⟩).Nonneg
      ∧ ∀ key o, Orders.find? key i.orders = some o →
        Orders.find? key ((i.place id side price qty).stamp side ⟨price, id⟩).orders = some o := by
  have fresh := fresh_of_ids ids side price qty
  refine ⟨⟨h.ladder, fun o ho => ?_⟩, fun key o found => ?_⟩
  · rcases mem_place_stamp ids ho with rfl | ho
    · exact nonneg_joined h hqty
    · exact h.orders o ho
  · obtain ⟨ho, rfl⟩ := (Orders.find?_eq_some sorted).mp found
    have other : ¬o.key = ⟨price, id⟩ := fresh o ho
    have kept : o ∈ ((i.place id side price qty).stamp side ⟨price, id⟩).orders := by
      refine List.mem_map.mpr ⟨o, (Orders.mem_insert fresh).mpr (.inr ho), ?_⟩
      exact if_neg (by simpa using other)
    have sortedThen : Orders.Sorted ((i.place id side price qty).stamp side ⟨price, id⟩).orders :=
      (sorted.insert fresh).update fun _ => rfl
    exact (Orders.find?_eq_some sortedThen).mpr ⟨kept, rfl⟩

/-- A cancel eases the order that it is of, and those behind it. -/
theorem Nonneg.eases_cancel (h : i.Nonneg) (sorted : Orders.Sorted i.orders) (hk : k ∈ i.orders)
    (nonneg : 0 ≤ n) (le : n ≤ k.qty) :
    Eases i ((i.shrinkOrder k.key n).closeRanks k.side k.key n) := by
  refine ⟨closed i.kind k n, closeRanks_shrinkOrder, fun o ho => ?_⟩
  have waits := (h.orders o ho).mine
  unfold closed
  split
  next same =>
    obtain rfl := sorted.eq_of_key ho hk same
    exact Order.eased_shrink nonneg (le.trans (le_max_left _ _))
  next =>
    split
    · refine ⟨rfl, rfl, .refl _, ?_, .refl _⟩
      simp only [Recedes]
      omega
    · exact .refl o

end Instrument

/-! ## Moves -/

namespace Book

variable {b b' b'' : Book} {cause : Cause} {events history : List Event} {code : String} {key : Key}
  {i i' : Instrument} {o : Order}

def Nonneg (b : Book) : Prop := ∀ i ∈ b.instruments, i.Nonneg

theorem nonneg_opening (balance : Int) (ts : List Tracked) : (opening balance ts).Nonneg := by
  intro i hi
  refine ⟨?_, fun o ho => ?_⟩
  · rw [ladder_opening hi]
    exact Ladder.nonneg_empty
  · rw [(mem_opening hi).1] at ho
    cases ho

/-- Every order is still there and has eased. -/
def Eases (b b' : Book) : Prop :=
  ∀ code key o, b.order? code key = some o → ∃ o', b'.order? code key = some o' ∧ o.Eased o'

theorem Eases.refl (b : Book) : Eases b b := fun _ _ o found => ⟨o, found, .refl o⟩

theorem Eases.trans (first : Eases b b') (second : Eases b' b'') : Eases b b'' := by
  intro code key o found
  obtain ⟨o', found', eased⟩ := first code key o found
  obtain ⟨o'', found'', eased'⟩ := second code key o' found'
  exact ⟨o'', found'', eased.trans eased'⟩

/-- Replacing an instrument by one whose orders have eased. -/
theorem Eases.set (found : b.find? code = some i) (same : i'.code = i.code)
    (eases : ∀ key o, Orders.find? key i.orders = some o →
      ∃ o', Orders.find? key i'.orders = some o' ∧ o.Eased o') : Eases b (b.set i') := by
  intro c key o resting
  obtain ⟨j, foundHere, resting⟩ := order?_eq_some.mp resting
  by_cases here : c = code
  · subst here
    obtain rfl : i = j := Option.some.inj (found.symm.trans foundHere)
    obtain ⟨o', resting', eased⟩ := eases key o resting
    exact ⟨o', order?_eq_some.mpr ⟨i', find?_set_self found same, resting'⟩, eased⟩
  · have other : c ≠ i'.code := fun eq => here (eq.trans (same.trans (code_of_find? found)))
    have foundThen : (b.set i').find? c = some j := (find?_set_ne other).trans foundHere
    exact ⟨o, order?_eq_some.mpr ⟨j, foundThen, resting⟩, .refl o⟩

/-- What a move of market data or of a request does to orders none of which has anything
below zero. -/
structure Eased (b b' : Book) : Prop where
  nonneg : b'.Nonneg
  eases : Eases b b'

theorem Move.eased (move : Move b cause events b') (hb : b.WellFormed) (h : b.Nonneg)
    (shown : cause.Meets Depth.Nonneg) (kept : cause ≠ .sweep) : Eased b b' := by
  cases move with
  | quiet _ rest =>
    refine ⟨fun j hj => ?_, fun code key o resting => ?_⟩
    · obtain ⟨i, hi, same⟩ := exists_of_quiet rest hj
      rw [same]
      exact ⟨(h i hi).ladder, (h i hi).orders⟩
    · obtain ⟨i, found, resting⟩ := order?_eq_some.mp resting
      obtain ⟨j, foundThen, same⟩ := find?_of_quiet rest found
      refine ⟨o, order?_eq_some.mpr ⟨j, foundThen, ?_⟩, .refl o⟩
      rw [same]
      exact resting
  | sweep => exact absurd rfl kept
  | @tick code i found depth prints =>
    have mem := mem_of_find? found
    have sorted := hb.sorted i mem
    obtain ⟨eases, nonneg⟩ := (h i mem).matchTick sorted shown prints
    have set : Eases b (b.set (i.matchTick depth prints).instrument) :=
      .set found (Instrument.code_matchTick sorted) fun _ _ resting =>
        eases.exists_find? sorted resting
    refine ⟨fun j hj => ?_, fun code key o resting => ?_⟩
    · rw [instruments_postAll] at hj
      exact forall_set h nonneg j hj
    · rw [order?, find?_postAll]
      exact set code key o resting
  | @place code i side price qty p found _ fits placed =>
    have mem := mem_of_find? found
    obtain ⟨_, _, -, hqty, -⟩ := fits
    obtain ⟨nonneg, kept⟩ := (h i mem).place (hb.sorted i mem) (hb.ids i mem) hqty.le
    have set : Eases b (b.set ((i.place b.nextId side price qty).stamp side ⟨price, b.nextId⟩)) :=
      .set found rfl fun key o resting => ⟨o, kept key o resting, .refl o⟩
    rw [placed_eq found placed]
    exact ⟨forall_set h nonneg, set⟩
  | @cancel code i i' key o qty w found resting withdrawn =>
    have mem := mem_of_find? found
    have sorted := hb.sorted i mem
    obtain ⟨pos, all, -, after⟩ := Instrument.withdraw_eq_some withdrawn
    obtain rfl := Orders.key_of_find? resting
    have eases : Instrument.Eases i (i'.closeRanks o.side o.key w.qty) := by
      rw [after]
      exact (h i mem).eases_cancel sorted (Orders.mem_of_find? resting) pos.le
        (all ▸ min_le_right _ _)
    have ladder : (i'.closeRanks o.side o.key w.qty).ladder.Nonneg := by
      rw [after]
      exact (h i mem).ladder
    have same : i'.code = i.code := Instrument.code_of_withdraw withdrawn
    have set : Eases b (b.set (i'.closeRanks o.side o.key w.qty)) :=
      .set found same fun _ _ resting => eases.exists_find? sorted resting
    exact ⟨forall_set h ((h i mem).of_eases ladder eases), set⟩

/-- Moves without a sweep keep all orders, and ease them. -/
theorem MovesBy.eased {P : Cause → Prop} (moves : MovesBy P b history b') (sane : b.Sane)
    (h : b.Nonneg) (mild : ∀ c, P c → c ≠ .sweep ∧ c.Meets Depth.Nonneg) : Eased b b' := by
  induction moves with
  | refl => exact ⟨h, .refl _⟩
  | snoc moves move meets ih =>
    obtain ⟨kept, shown⟩ := mild _ meets
    have next := move.eased (moves.sane sane).wellFormed ih.nonneg shown kept
    exact ⟨next.nonneg, ih.eases.trans next.eases⟩

theorem Nonneg.sweep (h : b.Nonneg) : b.sweep.Nonneg := by
  simp only [Nonneg, Book.sweep, List.forall_mem_map]
  exact fun i hi => ⟨(h i hi).ladder, fun o ho => (h i hi).orders o (List.mem_of_mem_filter ho)⟩

/-- A sweep drops exhausted orders and no others. -/
theorem order?_sweep (hb : b.WellFormed) (found : b.order? code key = some o) :
    b.sweep.order? code key = if 0 < o.qty then some o else none := by
  obtain ⟨i, foundHere, resting⟩ := order?_eq_some.mp found
  have swept : b.sweep.find? code = some i.sweep := by
    obtain ⟨mem, hcode⟩ := hb.find?_eq_some.mp foundHere
    exact hb.sweep.find?_eq_some.mpr ⟨List.mem_map_of_mem mem, hcode⟩
  have sorted := hb.sorted i (mem_of_find? foundHere)
  have sortedThen : Orders.Sorted i.sweep.orders := sorted.filter
  obtain ⟨ho, rfl⟩ := (Orders.find?_eq_some sorted).mp resting
  rw [order?_eq swept]
  split
  next live =>
    exact (Orders.find?_eq_some sortedThen).mpr ⟨Instrument.mem_liveOrders.mpr ⟨ho, live⟩, rfl⟩
  next dead =>
    rw [Option.eq_none_iff_forall_ne_some]
    intro p foundThen
    obtain ⟨hp, same⟩ := (Orders.find?_eq_some sortedThen).mp foundThen
    obtain ⟨hp, live⟩ := Instrument.mem_liveOrders.mp hp
    obtain rfl := sorted.eq_of_key hp ho same
    exact dead live

/-! ## Keys that do not come back -/

/-- Whether a key was used once and no order has it any more. -/
structure Gone (b : Book) (code : String) (key : Key) : Prop where
  old : key.id < b.nextId
  absent : ∀ i ∈ b.instruments, i.code = code → ∀ o ∈ i.orders, o.key ≠ key

theorem Gone.order? (h : b.Gone code key) : b.order? code key = none := by
  rw [Option.eq_none_iff_forall_ne_some]
  intro o found
  obtain ⟨i, foundHere, resting⟩ := order?_eq_some.mp found
  exact h.absent i (mem_of_find? foundHere) (code_of_find? foundHere) o
    (Orders.mem_of_find? resting) (Orders.key_of_find? resting)

theorem gone_of_order? (hb : b.WellFormed) (old : key.id < b.nextId)
    (none : b.order? code key = none) : b.Gone code key where
  old := old
  absent := by
    intro i hi hcode o ho same
    have resting := (Orders.find?_eq_some (hb.sorted i hi)).mpr ⟨ho, same⟩
    have found := order?_eq_some.mpr ⟨i, hb.find?_eq_some.mpr ⟨hi, hcode⟩, resting⟩
    rw [none] at found
    cases found

theorem Gone.set_shrink {k : Key} {n : Int} (h : b.Gone code key) (hi : i ∈ b.instruments)
    (hcode : i'.code = i.code) (orders : i'.orders = (i.shrinkOrder k n).orders) :
    (b.set i').Gone code key where
  old := h.old
  absent := by
    refine forall_set h.absent fun here o ho => ?_
    rw [orders] at ho
    obtain ⟨p, hp, rfl⟩ := List.mem_map.mp ho
    have apart := h.absent i hi (hcode.symm.trans here) p hp
    split
    · rw [Order.key_shrink]
      exact apart
    · exact apart

theorem Step.gone {e : Option Event} (step : Step b e b') (hb : b.WellFormed)
    (h : b.Gone code key) : b'.Gone code key := by
  cases step with
  | observe same =>
    refine ⟨(nextId_of_account same).symm ▸ h.old, fun i hi hcode => ?_⟩
    obtain ⟨j, hj, eq⟩ := exists_mem_of_account same hi
    have apart := h.absent j hj ((Instrument.code_of_account eq).symm.trans hcode)
    exact (Instrument.forall_of_account (fun _ => Iff.rfl) eq).mpr apart
  | sweep =>
    refine ⟨h.old, ?_⟩
    simp only [Book.sweep, List.forall_mem_map]
    exact fun i hi hcode o ho => h.absent i hi hcode o (List.mem_of_mem_filter ho)
  | @place c i side price qty p found placed =>
    have mem := mem_of_find? found
    rw [insert_eq_ok found placed]
    refine ⟨Nat.lt_succ_of_lt h.old, forall_set h.absent fun hcode o ho => ?_⟩
    rcases (Orders.mem_insert (Instrument.fresh_of_ids (hb.ids i mem) side price qty)).mp ho
      with rfl | ho
    · exact fun same => h.old.ne (congrArg Key.id same).symm
    · exact h.absent i mem hcode o ho
  | @fill c i i' k o price qty f found resting filled =>
    obtain ⟨-, -, -, -, -, -, -, after⟩ := Instrument.fill_eq_some filled
    have set : (b.set i').Gone code key :=
      h.set_shrink (mem_of_find? found) (Instrument.code_of_fill filled) (by rw [after])
    exact ⟨set.old, set.absent⟩
  | @cancel c i i' k o qty w found resting withdrawn =>
    obtain ⟨-, -, -, after⟩ := Instrument.withdraw_eq_some withdrawn
    have set : (b.set i').Gone code key :=
      h.set_shrink (mem_of_find? found) (Instrument.code_of_withdraw withdrawn) (by rw [after])
    exact ⟨set.old, set.absent⟩

theorem Run.gone {P : Book → Event → Prop} (run : Run P b history b') (hb : b.WellFormed)
    (h : b.Gone code key) : b'.Gone code key := by
  induction run with
  | refl => exact h
  | snoc run step _ ih => exact step.gone (run.wellFormed hb) ih

end Book

/-! ## Sessions -/

namespace Session

variable {s : Session Simulation} {input : Input} {inputs : List Input} {code : String} {key : Key}
  {o : Order}

/-- What a session needs to be like for its orders to ease from there on. -/
structure Waits (s : Session Simulation) : Prop where
  sane : s.broker.book.Sane
  nonneg : s.broker.book.Nonneg
  shown : s.broker.quotes.Holds (·.Shows Depth.Nonneg)

/-- Whether a call drops an order: it advances the session, and the sweep of the tick
finds the order exhausted. -/
structure Drops (s : Session Simulation) (input : Input) (code : String) (key : Key) (o : Order) :
    Prop where
  advance : input = .advance
  exhausted : o.qty = 0
  swept : s.broker.book.sweep.order? code key = none
  gone : (s.accept input).broker.book.Gone code key

theorem Waits.sane_turn (h : s.Waits) : (s.broker.turn s.nextTick.tick).book.Sane := by
  have turned : Book.MovesBy (fun _ => True) s.broker.book []
      (s.broker.turn s.nextTick.tick).book := Simulation.moves_turn trivial trivial
  exact turned.sane h.sane

/-- A tick is moves of market data once the sweep is done. -/
theorem Waits.moves_tick (h : s.Waits) (idle : s.phase = .idle) :
    Book.MovesBy (Cause.IsData Depth.Nonneg) (s.broker.turn s.nextTick.tick).book (s.log .advance)
      (s.accept .advance).broker.book := by
  rw [(advance_inTurn idle).1, (advance_inTurn idle).2]
  exact Simulation.moves_tick h.shown h.sane_turn.wellFormed

/-- After its sweep a tick eases all orders. -/
theorem Waits.eased_tick (h : s.Waits) (idle : s.phase = .idle) :
    Book.Eased s.broker.book.sweep (s.accept .advance).broker.book := by
  have nonneg : (s.broker.turn s.nextTick.tick).book.Nonneg := h.nonneg.sweep
  have eased := (h.moves_tick idle).eased h.sane_turn nonneg fun c data =>
    ⟨fun swept => (swept ▸ data : Cause.IsData Depth.Nonneg .sweep), data.meets⟩
  exact ⟨eased.nonneg, fun code key o found => eased.eases code key o found⟩

/-- Between two ticks all orders ease. -/
theorem Waits.eased_between (h : s.Waits) (between : input ≠ .advance) :
    Book.Eased s.broker.book (s.accept input).broker.book :=
  (moves_between between h.sane).eased h.sane h.nonneg fun _ request =>
    ⟨fun swept => (swept ▸ request : Cause.IsRequest .sweep), request.meets⟩

theorem Waits.accept (h : s.Waits) (input : Input) : (s.accept input).Waits where
  sane := (movesBy_accept h.shown h.sane).sane h.sane
  nonneg := by
    rcases accept_cases s input with ⟨rfl, idle⟩ | ⟨-, -, same, -⟩ | between
    · exact (h.eased_tick idle).nonneg
    · rw [same]
      exact h.nonneg
    · exact (h.eased_between between).nonneg
  shown := holds_accept h.shown

theorem Waits.run (h : s.Waits) (inputs : List Input) : (s.run inputs).Waits := by
  induction inputs generalizing s with
  | nil => exact h
  | cons input inputs ih => exact ih (h.accept input)

/-- A tick drops an order that it finds exhausted, and its key does not come back. -/
theorem Waits.drops (h : s.Waits) (idle : s.phase = .idle)
    (found : s.broker.book.order? code key = some o) (dead : ¬0 < o.qty) :
    s.Drops .advance code key o := by
  obtain ⟨i, foundHere, resting⟩ := Book.order?_eq_some.mp found
  have mem := Book.mem_of_find? foundHere
  have memOrder := Orders.mem_of_find? resting
  have swept : s.broker.book.sweep.order? code key = none :=
    (Book.order?_sweep h.sane.wellFormed found).trans (if_neg dead)
  have old : key.id < s.broker.book.nextId :=
    Orders.key_of_find? resting ▸ h.sane.wellFormed.ids i mem o memOrder
  have gone := Book.gone_of_order? h.sane.wellFormed.sweep old swept
  have goneHere : (s.broker.turn s.nextTick.tick).book.Gone code key := ⟨gone.old, gone.absent⟩
  have run := (h.moves_tick idle).run h.sane_turn.wellFormed
  exact {
    advance := rfl
    exhausted := le_antisymm (not_lt.mp dead) ((h.nonneg i mem).orders o memOrder).qty
    swept
    gone := run.gone h.sane_turn.wellFormed goneHere }

/-- A call either eases an order or drops it. -/
theorem Waits.order?_accept (h : s.Waits) (found : s.broker.book.order? code key = some o)
    (input : Input) :
    (∃ o', (s.accept input).broker.book.order? code key = some o' ∧ o.Eased o')
      ∨ s.Drops input code key o := by
  rcases accept_cases s input with ⟨rfl, idle⟩ | ⟨-, -, same, -⟩ | between
  · by_cases live : 0 < o.qty
    · have swept := (Book.order?_sweep h.sane.wellFormed found).trans (if_pos live)
      exact .inl ((h.eased_tick idle).eases code key o swept)
    · exact .inr (h.drops idle found live)
  · rw [same]
    exact .inl ⟨o, found, .refl o⟩
  · exact .inl ((h.eased_between between).eases code key o found)

/-- An order eases until a tick drops it, and then it is gone for good. -/
theorem Waits.order?_run (h : s.Waits) (found : s.broker.book.order? code key = some o)
    (inputs : List Input) :
    (∃ o', (s.run inputs).broker.book.order? code key = some o' ∧ o.Eased o')
      ∨ (s.run inputs).broker.book.order? code key = none
        ∧ ∃ before input after o', inputs = before ++ input :: after
          ∧ (s.run before).broker.book.order? code key = some o' ∧ o.Eased o'
          ∧ (s.run before).Drops input code key o' := by
  induction inputs generalizing s o with
  | nil => exact .inl ⟨o, found, .refl o⟩
  | cons input inputs ih =>
    have next := h.accept input
    rcases h.order?_accept found input with ⟨o', found', eased⟩ | drops
    · rcases ih next found' with ⟨o'', found'', eased'⟩
        | ⟨gone, before, input', after, o'', rfl, found'', eased', drops⟩
      · exact .inl ⟨o'', found'', eased.trans eased'⟩
      · exact .inr
          ⟨gone, input :: before, input', after, o'', rfl, found'', eased.trans eased', drops⟩
    · have run : Book.Run Book.Sound _ _ ((s.accept input).run inputs).broker.book :=
        (moves_run next.sane).run next.sane.wellFormed
      have gone := (run.gone next.sane.wellFormed drops.gone).order?
      exact .inr ⟨gone, [], input, inputs, o, rfl, found, .refl o, drops⟩

/-- If no quote of a session shows a negative quantity, no order ever has anything below zero,
and it eases from each state to all later ones, until a tick finds it exhausted and drops it.
While a ladder is quoted, a live order waits for no more of others than is shown at its
price, and for none at the opposite best or beyond. -/
theorem run_eases {broker : Simulation} {clock : SessionClock} {inputs : List Input}
    {balance : Int} {ts : List Tracked} (opened : broker.book = Book.opening balance ts)
    (shown : broker.quotes.Holds (·.Shows Depth.Nonneg)) :
    let s := (start broker clock).run inputs
    ∀ code i key o, s.broker.book.find? code = some i → Orders.find? key i.orders = some o →
      o.Nonneg
        ∧ (i.ladder.isQuoted = true → 0 < o.qty →
            o.aheadOthers ≤ i.ladder.qtyAt o.price
              ∧ ((∀ level ∈ i.ladder.levels.toList, level.price ≠ o.price) → o.aheadOthers = 0)
              ∧ (i.ladder.isTop o.side o.price = true → o.aheadOthers = 0))
        ∧ ∀ more,
          (∃ o', (s.run more).broker.book.order? code key = some o' ∧ o.Eased o')
            ∨ (s.run more).broker.book.order? code key = none
              ∧ ∃ before input after o', more = before ++ input :: after
                ∧ (s.run before).broker.book.order? code key = some o' ∧ o.Eased o'
                ∧ (s.run before).Drops input code key o' := by
  intro s code i key o found resting
  have first : (start broker clock).Waits := by
    refine ⟨sane_start opened, ?_, shown⟩
    change broker.book.Nonneg
    rw [opened]
    exact Book.nonneg_opening balance ts
  have waits : s.Waits := first.run inputs
  have mem := Book.mem_of_find? found
  have memOrder := Orders.mem_of_find? resting
  have nonneg := ((waits.nonneg i mem).orders o memOrder)
  have shows' := (waits.nonneg i mem).ladder.qtyAt o.price
  refine ⟨nonneg, fun quoted live => ?_,
    waits.order?_run (Book.order?_eq_some.mpr ⟨i, found, resting⟩)⟩
  have settled : s.broker.book.UpToDate := run_upToDate opened
  have capped :=
    ((settled i mem quoted).orders o (Instrument.mem_liveOrders.mpr ⟨memOrder, live⟩)).others
  unfold Instrument.cappedOthers at capped
  refine ⟨?_, fun off => ?_, fun top => ?_⟩
  · split at capped
    · omega
    · omega
  · rw [Ladder.qtyAt_eq_zero off] at capped
    have := nonneg.others
    split at capped <;> omega
  · rw [if_pos top] at capped
    exact capped.symm

/-- A buy waits for twenty; a print of twenty-five takes them away and fills half of it. -/
theorem run_eases_print :
    let broker := Simulation.start (Book.opening 1000000 [⟨"A", .equity, 0⟩])
      steady.toUTF8.toList "32410 A 9990 25\n".toUTF8.toList 8
    let clock : SessionClock := ⟨32400, 33000, 10⟩
    let s := (start broker clock).run [.advance, .buildMsgOut, .applyMsgIn "b A 9990 10"]
    let place (b : Book) := (b.order? "A" ⟨9990, 1⟩).map fun o => (o.aheadOthers, o.qty)
    broker.quotes.Holds (·.Shows Depth.Nonneg)
      ∧ place s.broker.book = some (20, 10)
      ∧ place (s.run [.advance]).broker.book = some (0, 5)
      ∧ ∀ code i key o, s.broker.book.find? code = some i → Orders.find? key i.orders = some o →
        o.Nonneg := by
  refine ⟨by decide +kernel, by decide +kernel, by decide +kernel, ?_⟩
  intro code i key o found resting
  exact (run_eases rfl (by decide +kernel) code i key o found resting).1

end Session

end TradingDesk
