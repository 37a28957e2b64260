-- SUMMARY: Market data move my orders up in their queues and fill them, and never the other way.
import TradingDesk.Proofs.Prints

/-!
# Easing

Flow shortens the queue before an order and then fills the order; gaps fill it whole.
None of what an order waits for and none of what is open of it grows by that, and none
of it falls below zero. A ladder that shows nothing negative caps it in the same way.
-/

namespace TradingDesk

/-- A quantity later on: no larger, and not below zero unless it was before. -/
def Recedes (n n' : Int) : Prop := n' ≤ n ∧ (0 ≤ n → 0 ≤ n')

namespace Recedes

variable {n n' n'' : Int}

theorem refl (n : Int) : Recedes n n := ⟨le_rfl, id⟩

theorem trans (first : Recedes n n') (second : Recedes n' n'') : Recedes n n'' :=
  ⟨second.1.trans first.1, fun h => second.2 (first.2 h)⟩

end Recedes

/-! ## Orders -/

/-- An order later on: nearer to the front of its queue and with no more of it open. -/
structure Order.Eased (o o' : Order) : Prop where
  key : o'.key = o.key
  side : o'.side = o.side
  others : Recedes o.aheadOthers o'.aheadOthers
  mine : Recedes o.aheadMine o'.aheadMine
  qty : Recedes o.qty o'.qty

namespace Order

variable {kind : Kind} {o o' o'' : Order} {n : Int}

theorem Eased.refl (o : Order) : o.Eased o := ⟨rfl, rfl, .refl _, .refl _, .refl _⟩

theorem Eased.trans (first : o.Eased o') (second : o'.Eased o'') : o.Eased o'' where
  key := second.key.trans first.key
  side := second.side.trans first.side
  others := first.others.trans second.others
  mine := first.mine.trans second.mine
  qty := first.qty.trans second.qty

theorem Eased.price (h : o.Eased o') : o'.price = o.price := congrArg Key.price h.key

/-- What is live later on was live before. -/
theorem Eased.live (h : o.Eased o') (live : 0 < o'.qty) : 0 < o.qty := live.trans_le h.qty.1

@[simp] theorem aheadOthers_shrink : (o.shrink kind n).aheadOthers = o.aheadOthers := by
  unfold shrink
  split <;> rfl

@[simp] theorem aheadMine_shrink : (o.shrink kind n).aheadMine = o.aheadMine := by
  unfold shrink
  split <;> rfl

theorem eased_shrink (nonneg : 0 ≤ n) (le : n ≤ max o.qty 0) : o.Eased (o.shrink kind n) where
  key := key_shrink
  side := shrink_side
  others := by
    rw [aheadOthers_shrink]
    exact .refl _
  mine := by
    rw [aheadMine_shrink]
    exact .refl _
  qty := by
    rw [shrink_qty, Recedes]
    omega

theorem eased_advanceQueue (flow : Int) : o.Eased (o.advanceQueue (o.intake flow)) where
  key := rfl
  side := rfl
  others := by
    simp only [advanceQueue, intake, Recedes]
    omega
  mine := by
    simp only [advanceQueue, intake, Recedes]
    omega
  qty := .refl _

theorem eased_flowed (flow : Int) : o.Eased (o.flowed kind flow) := by
  have advanced := @eased_advanceQueue o flow
  unfold flowed
  split
  · exact advanced
  · exact advanced.trans (eased_shrink intake_filled_nonneg (min_le_right _ _))

end Order

/-! ## Instruments -/

namespace Instrument

variable {i i' i'' : Instrument} {o : Order} {key : Key} {keys : List Key} {side : Side}
  {price flow : Int} {fillPrice : Option Int} {print top : Level} {initiator : Option Side}

/-- Every order of an instrument has eased, and none has come or gone. -/
def Eases (i i' : Instrument) : Prop :=
  ∃ g, i'.orders = i.orders.map g ∧ ∀ o ∈ i.orders, o.Eased (g o)

namespace Eases

theorem of_orders (same : i'.orders = i.orders) : Eases i i' :=
  ⟨id, by rw [same, List.map_id], fun o _ => .refl o⟩

theorem refl (i : Instrument) : Eases i i := of_orders rfl

theorem trans (first : Eases i i') (second : Eases i' i'') : Eases i i'' := by
  obtain ⟨g, after, eased⟩ := first
  obtain ⟨g', after', eased'⟩ := second
  refine ⟨g' ∘ g, by rw [after', after, List.map_map], fun o ho => ?_⟩
  have memThen : g o ∈ i'.orders := after ▸ List.mem_map_of_mem ho
  exact (eased o ho).trans (eased' (g o) memThen)

theorem exists_of_mem (h : Eases i i') (ho : o ∈ i'.orders) : ∃ p ∈ i.orders, p.Eased o := by
  obtain ⟨g, after, eased⟩ := h
  rw [after] at ho
  obtain ⟨p, hp, rfl⟩ := List.mem_map.mp ho
  exact ⟨p, hp, eased p hp⟩

theorem exists_of_live (h : Eases i i') (ho : o ∈ i'.liveOrders) :
    ∃ p ∈ i.liveOrders, p.Eased o := by
  obtain ⟨mem, live⟩ := mem_liveOrders.mp ho
  obtain ⟨p, hp, eased⟩ := h.exists_of_mem mem
  exact ⟨p, mem_liveOrders.mpr ⟨hp, eased.live live⟩, eased⟩

theorem sorted (h : Eases i i') (sorted : Orders.Sorted i.orders) : Orders.Sorted i'.orders := by
  obtain ⟨g, after, eased⟩ := h
  rw [after, Orders.Sorted, List.pairwise_map]
  refine sorted.imp_of_mem fun ho hp before => ?_
  rwa [(eased _ ho).key, (eased _ hp).key]

theorem exists_find? (h : Eases i i') (sorted : Orders.Sorted i.orders)
    (found : Orders.find? key i.orders = some o) :
    ∃ o', Orders.find? key i'.orders = some o' ∧ o.Eased o' := by
  have sortedThen := h.sorted sorted
  obtain ⟨g, after, eased⟩ := h
  obtain ⟨ho, rfl⟩ := (Orders.find?_eq_some sorted).mp found
  have memThen : g o ∈ i'.orders := after ▸ List.mem_map_of_mem ho
  exact ⟨g o, (Orders.find?_eq_some sortedThen).mpr ⟨memThen, (eased o ho).key⟩, eased o ho⟩

end Eases

/-! ### Flow -/

theorem eases_pop (flow : Int) (sorted : Orders.Sorted i.orders) :
    Eases i (i.pop key flow price).matched.instrument := by
  cases found : Orders.find? key i.orders with
  | none =>
    simp only [pop, found]
    exact .refl i
  | some o =>
    obtain ⟨ho, rfl⟩ := (Orders.find?_eq_some sorted).mp found
    refine ⟨_, (reached_pop flow (some price) sorted ho).orders, fun p _ => ?_⟩
    split
    · exact Order.eased_flowed flow
    · exact .refl p

theorem eases_flowLevel (flow : Int) (sorted : Orders.Sorted i.orders) :
    Eases i (i.flowLevel fillPrice flow keys).matched.instrument := by
  induction keys generalizing i with
  | nil => exact .refl i
  | cons key keys ih =>
    have first : Eases i (i.pop key flow (fillPrice.getD key.price)).matched.instrument :=
      eases_pop flow sorted
    exact first.trans (ih (first.sorted sorted))

theorem eases_flowLevels {levels : List (List Key)} (sorted : Orders.Sorted i.orders) :
    Eases i (i.flowLevels fillPrice flow levels).instrument := by
  induction levels generalizing i flow with
  | nil => exact .refl i
  | cons keys levels ih =>
    simp only [flowLevels]
    split
    · exact .refl i
    · have first : Eases i (i.flowLevel fillPrice flow keys).matched.instrument :=
        eases_flowLevel flow sorted
      exact first.trans (ih (first.sorted sorted))

theorem eases_deplete (side : Side) (top : Level) (sorted : Orders.Sorted i.orders) :
    Eases i (i.deplete side top).instrument := by
  have marked : Eases i (i.marked side top) := .of_orders rfl
  rw [deplete_eq]
  split
  · exact marked
  · exact marked.trans (eases_flowLevels sorted)

theorem eases_tradeFill (sorted : Orders.Sorted i.orders) :
    Eases i (i.tradeFill print initiator).instrument := by
  have buys : Eases i
      (i.flowThrough (i.printQueue print initiator .buy) print.qty none).instrument :=
    eases_flowLevels sorted
  exact buys.trans (eases_flowLevels (buys.sorted sorted))

theorem eases_tradeFills (market : Ladder) (prints : List Level) (sorted : Orders.Sorted i.orders) :
    Eases i (i.tradeFills market prints).instrument := by
  induction prints generalizing i with
  | nil => exact .refl i
  | cons print prints ih =>
    have first : Eases i (i.tradeFill print (market.aggressor print.price)).instrument :=
      eases_tradeFill sorted
    exact first.trans (ih (first.sorted sorted))

/-! ### Gaps -/

theorem eased_exhausted : o.Eased (i.exhausted key o) := by
  unfold exhausted
  split
  next h => exact Order.eased_shrink h.2.le (le_max_left _ _)
  next => exact .refl o

theorem eases_fillAll {gaps : List (Key × Int)} (sorted : Orders.Sorted i.orders) :
    Eases i (i.fillAll gaps).instrument := by
  induction gaps generalizing i with
  | nil => exact .refl i
  | cons gap gaps ih =>
    have first : Eases i (i.fillWhole gap.1 gap.2).instrument :=
      ⟨_, (fillWhole_spec sorted).2, fun _ _ => eased_exhausted⟩
    exact first.trans (ih (first.sorted sorted))

theorem eases_correctGap (sorted : Orders.Sorted i.orders) : Eases i i.correctGap.instrument :=
  eases_fillAll sorted

/-! ### Quotes -/

/-- Caps by a ladder that shows nothing negative ease orders that wait for nothing negative. -/
theorem eases_refreshQueue (shown : ∀ price, 0 ≤ i.ladder.qtyAt price)
    (nonneg : ∀ o ∈ i.orders, 0 ≤ o.aheadOthers) : Eases i i.refreshQueue := by
  refine ⟨i.refreshed, refreshQueue_orders, fun o ho => ?_⟩
  have waits := nonneg o ho
  have shows' := shown o.price
  unfold refreshed
  split
  · refine ⟨rfl, rfl, ?_, .refl _, .refl _⟩
    simp only [cappedOthers, Recedes]
    split <;> omega
  · exact .refl o

/-- A tick eases orders that wait for nothing negative, if the market shows nothing negative. -/
theorem eases_matchTick {depth : Option Depth} {prints : List Level}
    (sorted : Orders.Sorted i.orders) (shown : ∀ price, 0 ≤ (i.takeOver depth).ladder.qtyAt price)
    (nonneg : ∀ o ∈ i.orders, 0 ≤ o.aheadOthers) :
    Eases i (i.matchTick depth prints).instrument := by
  have orders : (i.takeOver depth).orders = i.orders := by cases depth <;> rfl
  have quoted : Eases i (i.takeOver depth) := .of_orders orders
  simp only [matchTick]
  split
  · exact quoted
  · have refreshed := quoted.trans (eases_refreshQueue shown (orders ▸ nonneg))
    have buys := refreshed.trans
      (eases_deplete .buy (i.takeOver depth).ladder.bestAsk (refreshed.sorted sorted))
    have sells := buys.trans
      (eases_deplete .sell (i.takeOver depth).ladder.bestBid (buys.sorted sorted))
    generalize (if i.ladder.isQuoted then i.ladder else (i.takeOver depth).ladder) = market
    have printed := sells.trans (eases_tradeFills market prints (sells.sorted sorted))
    exact printed.trans (eases_correctGap (printed.sorted sorted))

end Instrument

end TradingDesk
