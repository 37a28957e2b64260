-- SUMMARY: What a tick settles of a quoted instrument, and that nothing unsettles it again.
import TradingDesk.Proofs.Easing
import TradingDesk.Proofs.Ranks

/-!
# Upkeep

A tick of a quoted instrument settles three things against its ladder: my orders wait for
no more of others than the ladder lets them, none of them is one that the market has moved
through, and the opposite best prices have been handed out. Orders that flow or cancels
ease stay settled, and so are orders that requests place. So an instrument whose ladder
is quoted is up to date at any time, also when the ladder was not quoted for a while.
-/

namespace TradingDesk

namespace Instrument

variable {i i' : Instrument} {o o' : Order} {side : Side} {price : Int}

/-- Whether an order's place is settled under the instrument's ladder. -/
structure Suits (i : Instrument) (o : Order) : Prop where
  others : i.cappedOthers o = o.aheadOthers
  clear : i.passedBy o = none

/-- Nothing is left to do for the instrument under its ladder. -/
structure UpToDate (i : Instrument) : Prop where
  orders : ∀ o ∈ i.liveOrders, i.Suits o
  marks : i.marks = ⟨i.ladder.bestAsk, i.ladder.bestBid⟩

theorem passedBy_eq_none_iff : i.passedBy o = none ↔ i.Within o.side o.price := by
  simp only [passedBy, Within, Ladder.opposite]
  cases o.side <;> simp

theorem passedBy_congr (ladder : i'.ladder = i.ladder) : i'.passedBy o = i.passedBy o := by
  simp only [passedBy, ladder]

/-! ## Caps -/

/-- A capped order is within the cap. -/
theorem cappedOthers_capped : i.cappedOthers { o with aheadOthers := i.cappedOthers o }
    = i.cappedOthers o := by
  simp only [cappedOthers]
  split <;> omega

theorem capped_of_recedes (h : i.cappedOthers o = o.aheadOthers) (ladder : i'.ladder = i.ladder)
    (side : o'.side = o.side) (price : o'.price = o.price)
    (others : Recedes o.aheadOthers o'.aheadOthers) : i'.cappedOthers o' = o'.aheadOthers := by
  obtain ⟨le, nonneg⟩ := others
  simp only [cappedOthers, ladder, side, price] at h ⊢
  by_cases top : i.ladder.isTop o.side o.price = true
  · rw [if_pos top] at h ⊢
    have := nonneg h.le
    omega
  · rw [if_neg top] at h ⊢
    omega

theorem Suits.of_recedes (h : i.Suits o) (ladder : i'.ladder = i.ladder) (side : o'.side = o.side)
    (price : o'.price = o.price) (others : Recedes o.aheadOthers o'.aheadOthers) : i'.Suits o' where
  others := capped_of_recedes h.others ladder side price others
  clear := by
    have clear := h.clear
    simp only [passedBy, ladder, side, price] at clear ⊢
    exact clear

theorem Suits.of_eased (h : i.Suits o) (ladder : i'.ladder = i.ladder) (eased : o.Eased o') :
    i'.Suits o' :=
  h.of_recedes ladder eased.side eased.price eased.others

/-! ## Ticks -/

theorem market_tradeFills (market : Ladder) (prints : List Level)
    (sorted : Orders.Sorted i.orders) :
    SameMarket i (i.tradeFills market prints).instrument := by
  induction prints generalizing i with
  | nil => exact .refl i
  | cons print prints ih =>
    have first := market_tradeFill print (market.aggressor print.price) sorted
    exact first.trans (ih ((eases_tradeFill sorted).sorted sorted))

theorem suits_refreshQueue (live : o ∈ i.refreshQueue.liveOrders) :
    i.refreshQueue.cappedOthers o = o.aheadOthers := by
  obtain ⟨mem, pos⟩ := mem_liveOrders.mp live
  obtain ⟨p, -, rfl⟩ := List.mem_map.mp mem
  have pos : 0 < (i.refreshed p).qty := pos
  rw [refreshed_qty] at pos
  change i.cappedOthers (i.refreshed p) = (i.refreshed p).aheadOthers
  rw [refreshed_of_live pos]
  exact cappedOthers_capped

/-- A tick leaves an instrument up to date, if its ladder is quoted then. -/
theorem upToDate_matchTick {depth : Option Depth} {prints : List Level}
    (sorted : Orders.Sorted i.orders)
    (quoted : (i.matchTick depth prints).instrument.ladder.isQuoted = true) :
    (i.matchTick depth prints).instrument.UpToDate := by
  have sorted := (sorted_of_account (account_takeOver depth)).mpr sorted
  simp only [matchTick] at quoted ⊢
  generalize (if i.ladder.isQuoted then i.ladder else (i.takeOver depth).ladder) = market
    at quoted ⊢
  generalize i.takeOver depth = i at quoted sorted ⊢
  split at quoted
  next unquoted =>
    have quoted : i.ladder.isQuoted = true := quoted
    simp [quoted] at unquoted
  next isQuoted =>
    rw [if_neg isQuoted]
    have sortedFirst := evenly_refreshQueue.sorted sorted
    have buys := eases_deplete .buy i.ladder.bestAsk sortedFirst
    have depleted : Eases i.refreshQueue i.refreshQueue.depleted :=
      buys.trans (eases_deplete .sell i.ladder.bestBid (buys.sorted sortedFirst))
    have sortedThen := depleted.sorted sortedFirst
    have printed := eases_tradeFills market prints sortedThen
    have sortedLast := printed.sorted sortedThen
    have first := depleted_market sortedFirst
    have rest := (market_tradeFills market prints sortedThen).trans (market_correctGap sortedLast)
    have ladder := rest.ladder.trans first.1
    refine ⟨fun o live => ?_, rest.marks.trans (first.2.trans ?_)⟩
    · obtain ⟨here, clear⟩ := (mem_live_correctGap sortedLast).mp live
      obtain ⟨p, hp, eased⟩ := (depleted.trans printed).exists_of_live here
      refine ⟨?_, (passedBy_congr (market_correctGap sortedLast).ladder).trans clear⟩
      exact capped_of_recedes (suits_refreshQueue hp) ladder eased.side eased.price eased.others
    · exact congrArg (fun l : Ladder => Marks.mk l.bestAsk l.bestBid) ladder.symm

/-! ## Requests -/

theorem suits_joined {id : Nat} {price qty : Int} (within : i.Within side price) :
    i.Suits (i.joined (i.newOrder id side price qty)) where
  others := by
    change (if i.ladder.isTop side price then 0
      else min (i.queueOfOthers side price) (i.ladder.qtyAt price)) = i.queueOfOthers side price
    unfold queueOfOthers
    split
    · rfl
    · exact min_self _
  clear := passedBy_eq_none_iff.mpr within

/-- An order that is placed is settled where it joins. -/
theorem UpToDate.place {id : Nat} {price qty : Int} (h : i.UpToDate)
    (ids : ∀ o ∈ i.orders, o.id < id) (within : i.Within side price) :
    ((i.place id side price qty).stamp side ⟨price, id⟩).UpToDate where
  orders := by
    intro o live
    obtain ⟨mem, pos⟩ := mem_liveOrders.mp live
    rcases mem_place_stamp ids mem with rfl | mem
    · exact (suits_joined within).of_recedes rfl rfl rfl (.refl _)
    · exact (h.orders o (mem_liveOrders.mpr ⟨mem, pos⟩)).of_recedes rfl rfl rfl (.refl _)
  marks := h.marks

theorem aheadOthers_closed {kind : Kind} {k : Order} {n : Int} :
    (closed kind k n o).aheadOthers = o.aheadOthers := by
  unfold closed
  split
  · exact Order.aheadOthers_shrink
  · split <;> rfl

/-- A cancel leaves the queues of others alone. -/
theorem UpToDate.cancel {k : Order} {n : Int} (h : i.UpToDate) (nonneg : 0 ≤ n) :
    ((i.shrinkOrder k.key n).closeRanks k.side k.key n).UpToDate where
  orders := by
    intro o live
    obtain ⟨mem, pos⟩ := mem_liveOrders.mp live
    rw [closeRanks_shrinkOrder] at mem
    obtain ⟨p, hp, rfl⟩ := List.mem_map.mp mem
    have before := h.orders p (mem_liveOrders.mpr ⟨hp, pos_of_closed nonneg pos⟩)
    have others : Recedes p.aheadOthers (closed i.kind k n p).aheadOthers :=
      aheadOthers_closed.symm ▸ .refl _
    exact before.of_recedes rfl closed_side (congrArg Key.price closed_key) others
  marks := h.marks

end Instrument

/-! ## Moves -/

namespace Book

variable {b b' : Book} {cause : Cause} {history events : List Event}

/-- Every instrument whose ladder is quoted is up to date. -/
def UpToDate (b : Book) : Prop := ∀ i ∈ b.instruments, i.ladder.isQuoted = true → i.UpToDate

theorem upToDate_opening (balance : Int) (ts : List Tracked) : (opening balance ts).UpToDate := by
  intro i hi quoted
  rw [ladder_opening hi] at quoted
  exact absurd quoted (by decide)

theorem UpToDate.set {i : Instrument} (h : b.UpToDate)
    (hi : i.ladder.isQuoted = true → i.UpToDate) : (b.set i).UpToDate := forall_set h hi

theorem Move.upToDate (move : Move b cause events b') (hb : b.WellFormed) (h : b.UpToDate) :
    b'.UpToDate := by
  cases move with
  | quiet _ rest =>
    intro i hi quoted
    obtain ⟨j, hj, same⟩ := exists_of_quiet rest hi
    rw [same] at quoted ⊢
    have before := h j hj quoted
    exact ⟨fun o live => (before.orders o live).of_recedes rfl rfl rfl (.refl _), before.marks⟩
  | sweep =>
    intro i hi quoted
    obtain ⟨j, hj, rfl⟩ := List.mem_map.mp hi
    have before := h j hj quoted
    refine ⟨fun o live => ?_, before.marks⟩
    exact (before.orders o (List.mem_of_mem_filter live)).of_recedes rfl rfl rfl (.refl _)
  | @tick code i found depth prints =>
    have sorted := hb.sorted i (mem_of_find? found)
    intro j hj
    rw [instruments_postAll] at hj
    exact h.set (Instrument.upToDate_matchTick sorted) j hj
  | @place code i side price qty p found posed _ placed =>
    have mem := mem_of_find? found
    rw [placed_eq found placed]
    exact h.set fun quoted => (h i mem quoted).place (hb.ids i mem) posed.within
  | @cancel code i i' key o qty w found resting withdrawn =>
    obtain ⟨pos, -, -, rfl⟩ := Instrument.withdraw_eq_some withdrawn
    obtain rfl := Orders.key_of_find? resting
    refine h.set fun quoted => ?_
    have kept := (h i (mem_of_find? found) quoted).cancel (k := o) pos.le
    exact ⟨fun p live => (kept.orders p live).of_recedes rfl rfl rfl (.refl _), kept.marks⟩

theorem MovesBy.upToDate {P : Cause → Prop} (moves : MovesBy P b history b') (sane : b.Sane)
    (h : b.UpToDate) : b'.UpToDate := by
  induction moves with
  | refl => exact h
  | snoc moves move _ ih => exact move.upToDate (moves.sane sane).wellFormed ih

end Book

/-- A session is up to date at any time. -/
theorem Session.run_upToDate {broker : Simulation} {clock : SessionClock}
    {inputs : List Session.Input} {balance : Int} {ts : List Tracked} (opened : broker.book = Book.opening balance ts) :
    ((start broker clock).run inputs).broker.book.UpToDate := by
  have sane : (start broker clock).broker.book.Sane := sane_start opened
  have opening : (start broker clock).broker.book.UpToDate := by
    change broker.book.UpToDate
    rw [opened]
    exact Book.upToDate_opening balance ts
  exact (moves_run sane).upToDate sane opening

end TradingDesk
