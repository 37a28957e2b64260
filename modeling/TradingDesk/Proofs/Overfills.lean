-- SUMMARY: Ticks that bring two orders of a level to where one traded share fills both.
import Mathlib.Algebra.Order.BigOperators.Group.List
import TradingDesk.Proofs.Facing
import TradingDesk.Proofs.Prints

/-!
# Overfills

When two orders of a level are not apart, two ticks lead to a state in which a print of
one share fills both of them. The first one shows as much of others at the price as makes
the two wait for the same flow, and moves the market through all prices more than one
better. The second one clears that price and prints what is before the common flow.
-/

namespace TradingDesk

namespace Instrument

variable {i i' j : Instrument} {o p : Order} {keys : List Key} {side : Side} {price flow : Int}

theorem Evenly.mem_live (h : Evenly i i') (live : o ∈ i'.liveOrders) :
    ∃ q ∈ i.liveOrders, q.key = o.key ∧ q.side = o.side := by
  obtain ⟨g, after, even⟩ := h.orders
  obtain ⟨mem, pos⟩ := mem_liveOrders.mp live
  rw [after] at mem
  obtain ⟨q, hq, rfl⟩ := List.mem_map.mp mem
  exact ⟨q, mem_liveOrders.mpr ⟨hq, even.live q pos⟩, (even.key q).symm, (even.side q).symm⟩

/-! ## A print at the best price -/

/-- No live order of the side is at a better price. -/
def NoneBetter (i : Instrument) (side : Side) (price : Int) : Prop :=
  ∀ o ∈ i.liveOrders, o.side = side → side.priority price ≤ side.priority o.price

theorem Evenly.noneBetter (h : Evenly i i') (best : i.NoneBetter side price) :
    i'.NoneBetter side price := by
  intro o live hside
  obtain ⟨q, hq, hkey, hside'⟩ := h.mem_live live
  have := best q hq (hside'.trans hside)
  rwa [show q.price = o.price from congrArg Key.price hkey] at this

theorem mem_printQueue {print : Level} {initiator : Option Side} {key : Key} :
    key ∈ i.printQueue print initiator side
      ↔ ∃ o ∈ i.liveOrders, o.key = key ∧ o.side = side ∧ i.printReaches print initiator o = true := by
  simp only [printQueue, List.mem_map, List.mem_mergeSort, List.mem_filter, Bool.and_eq_true,
    beq_iff_eq]
  constructor
  · rintro ⟨o, ⟨live, hside, reaches⟩, rfl⟩
    exact ⟨o, live, rfl, hside, reaches⟩
  · rintro ⟨o, live, rfl, hside, reaches⟩
    exact ⟨o, ⟨live, hside, reaches⟩, rfl⟩

/-- A print that their side did not initiate reaches the orders at its own price. -/
theorem printReaches_own {initiator : Option Side} (pos : 0 < o.price)
    (other : initiator ≠ some o.side) :
    i.printReaches ⟨o.price, flow⟩ initiator o = true := by
  have up := i.kind.lt_tickUp o.price
  have down := i.kind.tickDown_lt pos
  simp only [printReaches, Bool.and_eq_true, Bool.or_eq_true, bne_iff_ne]
  refine ⟨?_, .inl other⟩
  cases o.side <;> simp only [decide_eq_true_eq] <;> omega

theorem price_of_reached {initiator : Option Side} (best : i.NoneBetter side price)
    (live : o ∈ i.liveOrders) (hside : o.side = side)
    (reached : i.printReaches ⟨price, flow⟩ initiator o = true) : o.price = price := by
  have bound := best o live hside
  simp only [printReaches, hside, Bool.and_eq_true] at reached
  cases side with
  | buy =>
    simp only [Side.priority, decide_eq_true_eq] at bound reached
    omega
  | sell =>
    simp only [Side.priority, decide_eq_true_eq] at bound reached
    omega

/-- Flow through orders of one price reaches each of them. -/
theorem flowThrough_level {fillPrice : Option Int} (pos : 0 < flow) (nonempty : keys ≠ [])
    (level : ∀ key ∈ keys, key.price = price) :
    i.flowThrough keys flow fillPrice = (i.flowLevel fillPrice flow keys).matched := by
  have one : (keys.splitBy fun a b => a.price == b.price) = [keys] := by
    refine List.splitBy_of_isChain nonempty (List.Pairwise.isChain ?_)
    refine List.pairwise_of_forall_mem_list fun a ha b hb => ?_
    rw [level a ha, level b hb, beq_self_eq_true]
  unfold flowThrough
  rw [one, flowLevels, if_neg (not_le.mpr pos)]
  simp [flowLevels, Matched.andThen, Matched.start]

/-- What a print at the best price with live orders does: it is the same flow for all of them. -/
structure Shared (i : Instrument) (side : Side) (price flow : Int) (os : List Order) (m : Matched) :
    Prop where
  nodup : os.Nodup
  sided : ∀ o ∈ os, o.side = side
  mem : ∀ o ∈ i.liveOrders, o.side = side → o.price = price → o ∈ os
  filled : side.filled m.fills = (os.map fun o => (o.intake flow).filled).sum
  flowed : ∀ o ∈ os, o.flowed i.kind flow ∈ m.instrument.orders

/-- The same for flow through the orders of a price, if they are a level. -/
theorem shared_flowThrough (fillPrice : Option Int) (sorted : Orders.Sorted i.orders)
    (whole : i.Whole side keys) (pos : 0 < flow) (nonempty : keys ≠ [])
    (level : ∀ key ∈ keys, key.price = price) :
    ∃ os, i.Shared side price flow os (i.flowThrough keys flow fillPrice) := by
  obtain ⟨os, rfl, live⟩ := whole.exists_orders
  have reached := reached_flowLevel fillPrice flow sorted
    (fun o ho => ⟨(mem_liveOrders.mp (live o ho).1).1, (live o ho).2⟩) whole.nodup
  refine ⟨os, whole.nodup.of_map, fun o ho => (live o ho).2, ?_, ?_, ?_⟩
  · intro o ho hside hprice
    obtain ⟨key, hkey⟩ := List.exists_mem_of_ne_nil _ nonempty
    obtain ⟨q, hq, same⟩ := List.mem_map.mp
      (whole.whole o ho hside key hkey ((level key hkey).trans hprice.symm))
    obtain rfl := sorted.eq_of_key (mem_liveOrders.mp (live q hq).1).1 (mem_liveOrders.mp ho).1 same
    exact hq
  · rw [flowThrough_level pos nonempty level]
    exact reached.filled
  · intro o ho
    rw [flowThrough_level pos nonempty level, reached.orders]
    refine List.mem_map.mpr ⟨o, (mem_liveOrders.mp (live o ho).1).1, ?_⟩
    rw [if_pos (List.mem_map_of_mem ho)]

/-- A print at the best price of a side that the side did not initiate. -/
theorem shared_tradeFill (flow : Int) (initiator : Option Side) (sorted : Orders.Sorted i.orders)
    (best : i.NoneBetter side price) (pos : 0 < flow) (other : initiator ≠ some side)
    (live : o ∈ i.liveOrders) (hside : o.side = side) (hprice : o.price = price)
    (positive : 0 < o.price) :
    ∃ os, i.Shared side price flow os (i.tradeFill ⟨price, flow⟩ initiator) := by
  subst hprice hside
  have nonempty : i.printQueue ⟨o.price, flow⟩ initiator o.side ≠ [] :=
    List.ne_nil_of_mem (mem_printQueue.mpr ⟨o, live, rfl, rfl, printReaches_own positive other⟩)
  have level : ∀ key ∈ i.printQueue ⟨o.price, flow⟩ initiator o.side, key.price = o.price := by
    intro key hkey
    obtain ⟨q, hq, rfl, hside, reached⟩ := mem_printQueue.mp hkey
    exact price_of_reached best hq hside reached
  obtain ⟨buys, wholeSells, sells⟩ := spread_tradeFill ⟨o.price, flow⟩ initiator sorted
  have wholeBuys := whole_printQueue ⟨o.price, flow⟩ initiator .buy sorted
  cases hside : o.side with
  | buy =>
    rw [hside] at nonempty level
    obtain ⟨os, shared⟩ := shared_flowThrough none sorted wholeBuys pos nonempty level
    refine ⟨os, shared.nodup, shared.sided, shared.mem, ?_, ?_⟩
    · refine Side.filled_append.trans ?_
      rw [sells.other .buy (by decide), add_zero]
      exact shared.filled
    · intro q hq
      refine (sells.others wholeSells (buys.evenly.sorted sorted) ?_).mpr (shared.flowed q hq)
      rw [Order.flowed_side, shared.sided q hq]
      decide
  | sell =>
    rw [hside] at nonempty level
    have sortedThen := buys.evenly.sorted sorted
    obtain ⟨os, shared⟩ := shared_flowThrough none sortedThen wholeSells pos nonempty level
    refine ⟨os, shared.nodup, shared.sided, ?_, ?_, ?_⟩
    · intro q hq hside hprice
      obtain ⟨mem, qty⟩ := mem_liveOrders.mp hq
      have mem := (buys.others wholeBuys sorted (by simp [hside])).mpr mem
      exact shared.mem q (mem_liveOrders.mpr ⟨mem, qty⟩) hside hprice
    · refine Side.filled_append.trans ?_
      rw [buys.other .sell (by decide), zero_add]
      exact shared.filled
    · rw [← buys.evenly.kind]
      exact shared.flowed

/-! ## Two orders at the front -/

/-- Two orders of some are not filled more than all of them. -/
theorem pair_filled_le (flow : Int) {os : List Order} (ho : o ∈ os) (hp : p ∈ os) (ne : p ≠ o) :
    (o.intake flow).filled + (p.intake flow).filled ≤ (os.map fun o => (o.intake flow).filled).sum := by
  have perm : os.Perm (o :: p :: (os.erase o).erase p) :=
    (List.perm_cons_erase ho).trans
      ((List.perm_cons_erase ((List.mem_erase_of_ne ne).mpr hp)).cons o)
  have rest : 0 ≤ (((os.erase o).erase p).map fun o => (o.intake flow).filled).sum := by
    refine List.sum_nonneg ?_
    rw [List.forall_mem_map]
    exact fun _ _ => Order.intake_filled_nonneg
  rw [(perm.map _).sum_eq, List.map_cons, List.map_cons, List.sum_cons, List.sum_cons]
  omega

/-- Two live orders at the same price that nothing stands before. -/
theorem not_bounded_of_front (sorted : Orders.Sorted i.orders) (best : i.NoneBetter o.side o.price)
    (ho : o ∈ i.liveOrders) (hp : p ∈ i.liveOrders) (hside : p.side = o.side)
    (hprice : p.price = o.price) (ne : p ≠ o) (positive : 0 < o.price) (frontO : o.ahead = 0)
    (frontP : p.ahead = 0) : ¬i.Bounded := by
  intro bounded
  obtain ⟨os, shared⟩ := shared_tradeFill 1 none sorted best one_pos (by simp) ho rfl rfl positive
  have both := pair_filled_le 1 (shared.mem o ho rfl rfl) (shared.mem p hp hside hprice) ne
  have bound := bounded.print ⟨o.price, 1⟩ none o.side
  have liveO := (mem_liveOrders.mp ho).2
  have liveP := (mem_liveOrders.mp hp).2
  rw [shared.filled] at bound
  rw [Order.intake_filled, Order.intake_filled, frontO, frontP] at both
  simp only at bound
  omega

/-! ## Both depletions of a tick -/

variable {top : Level} {s : Side} {l : Ladder} {c f : Int}

theorem mem_topQueue {key : Key} :
    key ∈ i.topQueue side
      ↔ ∃ o ∈ i.liveOrders, o.key = key ∧ o.side = side ∧ i.ladder.isTop side o.price = true := by
  simp only [topQueue, List.mem_map, List.mem_mergeSort, List.mem_filter, Bool.and_eq_true,
    beq_iff_eq]
  constructor
  · rintro ⟨o, ⟨live, hside, isTop⟩, rfl⟩
    exact ⟨o, live, rfl, hside, isTop⟩
  · rintro ⟨o, live, rfl, hside, isTop⟩
    exact ⟨o, ⟨live, hside, isTop⟩, rfl⟩

/-- A depletion leaves the other side and what is not at the top as it is. -/
theorem mem_deplete (sorted : Orders.Sorted i.orders)
    (aside : o.side = s → i.ladder.isTop s o.price = false) :
    o ∈ (i.deplete s top).instrument.orders ↔ o ∈ i.orders := by
  have spread := spread_deplete s top sorted
  by_cases hside : o.side = s
  · refine spread.rest o fun hit => ?_
    obtain ⟨q, -, same, -, isTop⟩ := mem_topQueue.mp hit
    have price : q.price = o.price := congrArg Key.price same
    rw [price, aside hside] at isTop
    cases isTop
  · exact spread.others (whole_topQueue top sorted) sorted hside

theorem deplete_market (side : Side) (top : Level) (sorted : Orders.Sorted i.orders) :
    (i.deplete side top).instrument.ladder = i.ladder
      ∧ (i.deplete side top).instrument.marks = i.marks.set side top := by
  have market := (spread_deplete side top sorted).market
  exact ⟨market.ladder, market.marks⟩

/-- The instrument after both depletions of a tick. -/
def depleted (i : Instrument) : Instrument :=
  ((i.deplete .buy i.ladder.bestAsk).instrument.deplete .sell i.ladder.bestBid).instrument

theorem evenly_depleted (sorted : Orders.Sorted i.orders) : Evenly i i.depleted := by
  have buys := evenly_deplete .buy i.ladder.bestAsk sorted
  exact buys.trans (evenly_deplete _ _ (buys.sorted sorted))

theorem depleted_market (sorted : Orders.Sorted i.orders) :
    i.depleted.ladder = i.ladder ∧ i.depleted.marks = ⟨i.ladder.bestAsk, i.ladder.bestBid⟩ := by
  have buys := evenly_deplete .buy i.ladder.bestAsk sorted
  obtain ⟨ladder, marks⟩ := deplete_market .buy i.ladder.bestAsk sorted
  obtain ⟨ladder', marks'⟩ := deplete_market .sell i.ladder.bestBid (buys.sorted sorted)
  exact ⟨ladder'.trans ladder, marks'.trans (by rw [marks]; rfl)⟩

/-- Orders that are not at the top stay as they are. -/
theorem mem_live_depleted (sorted : Orders.Sorted i.orders) (live : o ∈ i.liveOrders)
    (notTop : i.ladder.isTop o.side o.price = false) : o ∈ i.depleted.liveOrders := by
  obtain ⟨mem, qty⟩ := mem_liveOrders.mp live
  have buys := evenly_deplete .buy i.ladder.bestAsk sorted
  have ladder := (deplete_market .buy i.ladder.bestAsk sorted).1
  refine mem_liveOrders.mpr ⟨(mem_deplete (buys.sorted sorted) fun hside => ?_).mpr ?_, qty⟩
  · rw [ladder, ← hside]
    exact notTop
  · refine (mem_deplete sorted fun hside => ?_).mpr mem
    rw [← hside]
    exact notTop

/-- A depletion that is deep enough leaves nothing at the price that faces a level. -/
theorem noneBetter_deplete (sorted : Orders.Sorted i.orders) (faces : i.ladder.Faces side price c f)
    (room : 0 < side.beyond price) (mark : i.marks.get side = ⟨side.beyond price, 0⟩)
    (best : i.NoneBetter side (side.beyond price))
    (deep : ∀ o ∈ i.liveOrders, o.side = side → o.price = side.beyond price → o.reach ≤ f) :
    (i.deplete side ⟨side.beyond price, f⟩).instrument.NoneBetter side price := by
  have next : ∀ p, side.priority (side.beyond price) ≤ side.priority p →
      side.priority p < side.priority price → p = side.beyond price := by
    intro p
    cases side <;> simp only [Side.priority, Side.beyond] <;> omega
  intro o live hside
  by_contra better
  have evenly := evenly_deplete side ⟨side.beyond price, f⟩ sorted
  obtain ⟨q, hq, hkey, hside'⟩ := evenly.mem_live live
  have hprice : q.price = o.price := congrArg Key.price hkey
  have sideQ : q.side = side := hside'.trans hside
  have priceQ : q.price = side.beyond price :=
    next q.price (best q hq sideQ) (hprice ▸ not_le.mp better)
  have reach := deep q hq sideQ priceQ
  have qty := (mem_liveOrders.mp hq).2
  have pos : 0 < f := by
    have := @Order.ahead_nonneg q
    rw [Order.reach] at reach
    omega
  have fresh : freshQty (i.marks.get side) ⟨side.beyond price, f⟩ = f := by
    rw [mark, freshQty, if_pos ⟨room, rfl⟩]
    simp only
    omega
  have hit : q.key ∈ i.topQueue side := by
    refine mem_topQueue.mpr ⟨q, hq, rfl, sideQ, (faces.isTop q.price).mpr ?_⟩
    rw [hprice]
    exact not_le.mp better
  have level : ∀ key ∈ i.topQueue side, key.price = side.beyond price := by
    intro key hkey
    obtain ⟨r, hr, rfl, sideR, isTop⟩ := mem_topQueue.mp hkey
    exact next r.price (best r hr sideR) ((faces.isTop r.price).mp isTop)
  obtain ⟨os, shared⟩ := shared_flowThrough (i := i.marked side ⟨side.beyond price, f⟩)
    (some (side.beyond price)) sorted (whole_topQueue _ sorted) pos (List.ne_nil_of_mem hit) level
  have flowed := shared.flowed q (shared.mem q hq sideQ priceQ)
  rw [deplete_eq, fresh, if_neg pos.ne'] at live evenly
  obtain ⟨mem, liveO⟩ := mem_liveOrders.mp live
  have same : o = q.flowed i.kind f := by
    refine (evenly.sorted sorted).eq_of_key mem flowed ?_
    rw [Order.flowed_key]
    exact hkey.symm
  have left := @Order.open_flowed i.kind q f
  rw [← same] at left
  omega

/-- Where both depletions leave a level, if what faces it is new and deep enough. -/
theorem noneBetter_depleted (sorted : Orders.Sorted i.orders) (faces : i.ladder.Faces side price c f)
    (room : 0 < side.beyond price) (mark : i.marks.get side = ⟨side.beyond price, 0⟩)
    (best : i.NoneBetter side (side.beyond price))
    (deep : ∀ o ∈ i.liveOrders, o.side = side → o.price = side.beyond price → o.reach ≤ f) :
    i.depleted.NoneBetter side price := by
  have buys := evenly_deplete .buy i.ladder.bestAsk sorted
  have facing := faces.facing
  cases side with
  | buy =>
    have cleared := noneBetter_deplete sorted faces room mark best deep
    rw [← facing] at cleared
    exact (evenly_deplete _ _ (buys.sorted sorted)).noneBetter cleared
  | sell =>
    obtain ⟨ladder, marks⟩ := deplete_market .buy i.ladder.bestAsk sorted
    have cleared := noneBetter_deplete (i := (i.deplete .buy i.ladder.bestAsk).instrument)
      (buys.sorted sorted) (by rw [ladder]; exact faces) room (by rw [marks]; exact mark)
      (buys.noneBetter best) fun o live hside hprice => by
        obtain ⟨mem, qty⟩ := mem_liveOrders.mp live
        have before := (mem_deplete sorted fun h => absurd (hside.symm.trans h) (by decide)).mp mem
        exact deep o (mem_liveOrders.mpr ⟨before, qty⟩) hside hprice
    rw [← facing] at cleared
    exact cleared

/-! ## Ticks -/

/-- Ticks of market data, one after another. -/
inductive Ticks : Instrument → Instrument → Prop
  | refl (i : Instrument) : Ticks i i
  | snoc {i i' : Instrument} (ticks : Ticks i i') (depth : Option Depth) (prints : List Level) :
      Ticks i (i'.matchTick depth prints).instrument

/-- The instrument with a quote taken over and the queue positions capped by it. -/
def shown (i : Instrument) (raw : Ladder) : Instrument :=
  (i.takeOver (some ⟨0, 0, raw⟩)).refreshQueue

theorem evenly_shown (raw : Ladder) : Evenly i (i.shown raw) := by
  have taken : Evenly i (i.takeOver (some ⟨0, 0, raw⟩)) := .of_orders rfl rfl
  exact taken.trans evenly_refreshQueue

/-- What others have before a live order is capped, and nothing else of it changes. -/
theorem mem_live_shown (raw : Ladder) : p ∈ (i.shown raw).liveOrders
    ↔ ∃ o ∈ i.liveOrders, p = { o with
        aheadOthers := (i.takeOver (some ⟨0, 0, raw⟩)).cappedOthers o } := by
  rw [mem_liveOrders]
  constructor
  · rintro ⟨mem, qty⟩
    obtain ⟨o, ho, rfl⟩ := List.mem_map.mp mem
    change 0 < (refreshed _ o).qty at qty
    rw [refreshed_qty] at qty
    exact ⟨o, mem_liveOrders.mpr ⟨ho, qty⟩, refreshed_of_live qty⟩
  · rintro ⟨o, live, rfl⟩
    obtain ⟨mem, qty⟩ := mem_liveOrders.mp live
    exact ⟨List.mem_map.mpr ⟨o, mem, refreshed_of_live qty⟩, qty⟩

/-- A tick of an instrument whose quote shows a market, as far as its state goes. -/
theorem instrument_matchTick (raw : Ladder) (prints : List Level)
    (quoted : (raw.regrid i.kind).isQuoted = true) :
    (i.matchTick (some ⟨0, 0, raw⟩) prints).instrument
      = ((i.shown raw).depleted.tradeFills (if i.ladder.isQuoted then i.ladder else raw.regrid i.kind)
          prints).instrument.correctGap.instrument := by
  simp only [matchTick, takeOver, quote, quoted]
  rfl

section Opened

variable (c f : Int) (sorted : Orders.Sorted i.orders) (room : side.HasBeyond price)

include sorted

theorem evenly_opened (raw : Ladder) : Evenly i (i.shown raw).depleted :=
  (evenly_shown raw).trans (evenly_depleted ((evenly_shown raw).sorted sorted))

include room

theorem opened_market :
    (i.shown (.opening side price c f)).depleted.ladder.Faces side price c f
      ∧ (i.shown (.opening side price c f)).depleted.marks.get side = ⟨side.beyond price, f⟩ := by
  have faces : ((Ladder.opening side price c f).regrid i.kind).Faces side price c f :=
    Ladder.faces_opening room
  obtain ⟨ladder, marks⟩ := depleted_market ((evenly_shown (.opening side price c f)).sorted sorted)
  refine ⟨ladder ▸ faces, ?_⟩
  rw [marks, ← faces.facing]
  cases side <;> rfl

/-- The orders of the level keep what is mine before them, and no more of others than is shown. -/
theorem opened_level (hc : 0 ≤ c) (live : o ∈ i.liveOrders) (hside : o.side = side)
    (hprice : o.price = price) :
    ∃ q ∈ (i.shown (.opening side price c f)).depleted.liveOrders, q.key = o.key ∧ q.side = o.side
      ∧ q.others = min o.others c ∧ q.mine = o.mine ∧ q.qty = o.qty := by
  subst hside hprice
  have faces : ((Ladder.opening o.side o.price c f).regrid i.kind).Faces o.side o.price c f :=
    Ladder.faces_opening room
  have there := (mem_live_shown (.opening o.side o.price c f)).mpr ⟨o, live, rfl⟩
  have others := others_capped (i := i.takeOver (some ⟨0, 0, .opening o.side o.price c f⟩)) (o := o)
  exact ⟨_, mem_live_depleted ((evenly_shown _).sorted sorted) there faces.notTop, rfl, rfl,
    others.trans (congrArg (min o.others) (faces.cap hc)), rfl, rfl⟩

end Opened

/-! ## Overfills -/

theorem passedBy_eq_none (faces : i.ladder.Faces o.side price c f) (room : 0 < o.side.beyond price) :
    i.passedBy o = none ↔ o.side.priority (o.side.beyond price) ≤ o.side.priority o.price := by
  have facing := congrArg Level.price faces.facing
  simp only [passedBy]
  cases hside : o.side with
  | buy =>
    simp only [hside, Side.beyond, Ladder.facing] at facing room
    simp only [facing, Side.priority, Side.beyond, ite_eq_right_iff, reduceCtorEq, imp_false]
    omega
  | sell =>
    simp only [hside, Side.beyond, Ladder.facing] at facing room
    simp only [facing, Side.priority, Side.beyond, ite_eq_right_iff, reduceCtorEq, imp_false]
    omega

/-- The gap spares the level that the market faces. -/
theorem mem_live_gap (sorted : Orders.Sorted i.orders) (faces : i.ladder.Faces side price c f)
    (room : side.HasBeyond price) (live : o ∈ i.liveOrders) (hside : o.side = side)
    (hprice : o.price = price) : o ∈ i.correctGap.instrument.liveOrders := by
  subst hside hprice
  refine (mem_live_correctGap sorted).mpr ⟨live, (passedBy_eq_none faces room.2).mpr ?_⟩
  cases o.side <;> simp only [Side.priority, Side.beyond] <;> omega

/-- What a first tick prepares: the market faces the level, nothing is at a price that is more
than one better, and the level's orders have no more of others before them than is shown. -/
structure Prepared (i : Instrument) (side : Side) (price c : Int) : Prop where
  sorted : Orders.Sorted i.orders
  faces : i.ladder.Faces side price c 0
  mark : i.marks.get side = ⟨side.beyond price, 0⟩
  best : i.NoneBetter side (side.beyond price)

theorem exists_prepared (sorted : Orders.Sorted i.orders) (room : side.HasBeyond price) (hc : 0 ≤ c) :
    ∃ i', Ticks i i' ∧ i'.Prepared side price c
      ∧ ∀ o ∈ i.liveOrders, o.side = side → o.price = price →
        ∃ q ∈ i'.liveOrders, q.key = o.key ∧ q.side = o.side ∧ q.others = min o.others c
          ∧ q.mine = o.mine ∧ q.qty = o.qty := by
  have evenly := evenly_opened sorted (.opening side price c 0)
  have sortedThen := evenly.sorted sorted
  obtain ⟨faces, mark⟩ := opened_market c 0 sorted room
  have quoted : ((Ladder.opening side price c 0).regrid i.kind).isQuoted = true :=
    (Ladder.faces_opening room).quoted
  have after := instrument_matchTick _ [] quoted
  have gap := market_correctGap sortedThen
  refine ⟨_, .snoc (.refl i) (some ⟨0, 0, .opening side price c 0⟩) [], ?_, ?_⟩
  · rw [after]
    refine ⟨?_, ?_, ?_, ?_⟩
    · exact (evenly_correctGap sortedThen).sorted sortedThen
    · exact gap.ladder ▸ faces
    · exact gap.marks ▸ mark
    · intro o live hside
      subst hside
      exact (passedBy_eq_none faces room.2).mp ((mem_live_correctGap sortedThen).mp live).2
  · intro o live hside hprice
    obtain ⟨q, hq, key, side', others, mine, qty⟩ := opened_level c 0 sorted room hc live hside hprice
    refine ⟨q, ?_, key, side', others, mine, qty⟩
    rw [after]
    exact mem_live_gap sortedThen faces room hq (side'.trans hside)
      ((congrArg Key.price key).trans hprice)

/-- What the orders of an instrument could take of flow if others had nothing before them. -/
def depth (i : Instrument) : Int := (i.orders.map fun o => o.mine + max o.qty 0).sum

theorem le_depth (mem : o ∈ i.orders) : o.mine + max o.qty 0 ≤ i.depth := by
  have nonneg : ∀ n ∈ i.orders.map fun o => o.mine + max o.qty 0, 0 ≤ n := by
    rw [List.forall_mem_map]
    exact fun o _ => add_nonneg Order.mine_nonneg (le_max_right _ _)
  exact List.single_le_sum nonneg _ (List.mem_map_of_mem mem)

/-- A second quote that shows more at the price that faces the level clears that price. -/
theorem Prepared.noneBetter (h : i.Prepared side price c) (room : side.HasBeyond price) :
    (i.shown (.opening side price c i.depth)).depleted.NoneBetter side price := by
  have faces : ((Ladder.opening side price c i.depth).regrid i.kind).Faces side price c i.depth :=
    Ladder.faces_opening room
  have evenly := evenly_shown (i := i) (.opening side price c i.depth)
  refine noneBetter_depleted (evenly.sorted h.sorted) faces room.2 h.mark (evenly.noneBetter h.best) ?_
  intro q hq hside hprice
  obtain ⟨o, live, rfl⟩ := (mem_live_shown _).mp hq
  have others := others_capped (i := i.takeOver (some ⟨0, 0, .opening side price c i.depth⟩)) (o := o)
  change o.side = side at hside
  change o.price = side.beyond price at hprice
  subst hside
  have better : o.side.priority o.price < o.side.priority price := by
    rw [hprice]
    cases o.side <;> simp only [Side.priority, Side.beyond] <;> omega
  have none : min o.others
      (((Ladder.opening o.side price c i.depth).regrid i.kind).cap o.side o.price) = 0 := by
    rw [faces.cap_beyond better]
    exact min_eq_right Order.others_nonneg
  have bound := le_depth (mem_liveOrders.mp live).1
  change max _ 0 + o.mine + max o.qty 0 ≤ i.depth
  rw [others.trans none]
  omega

/-- A tick that moves the orders of a level forward by `x`, as far as they last that long. -/
theorem Prepared.exists_forward {x : Int} (h : i.Prepared side price c) (room : side.HasBeyond price)
    (hc : 0 ≤ c) (hx : 0 ≤ x) :
    ∃ i', Ticks i i' ∧ Orders.Sorted i'.orders ∧ i'.NoneBetter side price
      ∧ ∀ o ∈ i.liveOrders, o.side = side → o.price = price → o.others ≤ c → x < o.reach →
        ∃ q ∈ i'.liveOrders, q.key = o.key ∧ q.side = o.side ∧ q.ahead = max (o.ahead - x) 0
          ∧ q.reach = o.reach - x := by
  have quoted : ((Ladder.opening side price c i.depth).regrid i.kind).isQuoted = true :=
    (Ladder.faces_opening room).quoted
  have evenly := evenly_opened h.sorted (.opening side price c i.depth)
  have sortedThen := evenly.sorted h.sorted
  obtain ⟨faces, -⟩ := opened_market c i.depth h.sorted room
  have best := h.noneBetter room
  have places : ∀ o ∈ i.liveOrders, o.side = side → o.price = price → o.others ≤ c →
      ∃ q ∈ (i.shown (.opening side price c i.depth)).depleted.liveOrders, q.key = o.key
        ∧ q.side = o.side ∧ q.ahead = o.ahead ∧ q.reach = o.reach := by
    intro o live hside hprice few
    obtain ⟨q, hq, key, side', others, mine, qty⟩ :=
      opened_level c i.depth h.sorted room hc live hside hprice
    rw [min_eq_left few] at others
    have ahead : q.ahead = o.ahead := congrArg₂ (· + ·) others mine
    exact ⟨q, hq, key, side', ahead, congrArg₂ (· + ·) ahead (by rw [qty])⟩
  rcases hx.eq_or_lt with rfl | pos
  · have after := instrument_matchTick _ [] quoted
    refine ⟨_, .snoc (.refl i) (some ⟨0, 0, .opening side price c i.depth⟩) [], ?_, ?_, ?_⟩
    · rw [after]
      exact (evenly_correctGap sortedThen).sorted sortedThen
    · rw [after]
      exact (evenly_correctGap sortedThen).noneBetter best
    · intro o live hside hprice few stays
      obtain ⟨q, hq, key, side', ahead, reach⟩ := places o live hside hprice few
      have still : q.ahead = max (o.ahead - 0) 0 := by
        rw [ahead, sub_zero, max_eq_left Order.ahead_nonneg]
      refine ⟨q, ?_, key, side', still, reach.trans (sub_zero _).symm⟩
      rw [after]
      exact mem_live_gap sortedThen faces room hq (side'.trans hside)
        ((congrArg Key.price key).trans hprice)
  · have after := instrument_matchTick _ [⟨price, x⟩] quoted
    rw [if_pos h.faces.quoted] at after
    have printed := evenly_tradeFill ⟨price, x⟩ (i.ladder.aggressor price) sortedThen
    have market := market_tradeFill ⟨price, x⟩ (i.ladder.aggressor price) sortedThen
    have sortedPrinted := printed.sorted sortedThen
    have facesPrinted := market.ladder ▸ faces
    refine ⟨_, .snoc (.refl i) (some ⟨0, 0, .opening side price c i.depth⟩) [⟨price, x⟩], ?_, ?_, ?_⟩
    · rw [after]
      exact (evenly_correctGap sortedPrinted).sorted sortedPrinted
    · rw [after]
      exact (evenly_correctGap sortedPrinted).noneBetter (printed.noneBetter best)
    · intro o live hside hprice few stays
      obtain ⟨q, hq, key, side', ahead, reach⟩ := places o live hside hprice few
      have sideQ : q.side = side := side'.trans hside
      have priceQ : q.price = price := (congrArg Key.price key).trans hprice
      obtain ⟨os, shared⟩ := shared_tradeFill x (i.ladder.aggressor price) sortedThen best pos
        h.faces.aggressor hq sideQ priceQ (priceQ ▸ room.1)
      have flowed := shared.flowed q (shared.mem q hq sideQ priceQ)
      have gone := @Order.ahead_flowed
        (i.shown (.opening side price c i.depth)).depleted.kind q x
      have left := @Order.open_flowed
        (i.shown (.opening side price c i.depth)).depleted.kind q x
      have rest := @Order.reach_flowed
        (i.shown (.opening side price c i.depth)).depleted.kind q x
      have qty := (mem_liveOrders.mp hq).2
      refine ⟨_, ?_, Order.flowed_key.trans key, Order.flowed_side.trans side', gone.trans ?_,
        rest.trans ?_⟩
      · rw [after]
        refine mem_live_gap sortedPrinted facesPrinted room (mem_liveOrders.mpr ⟨flowed, ?_⟩)
          (Order.flowed_side.trans sideQ) (Order.flowed_price.trans priceQ)
        omega
      · rw [ahead, max_eq_left hx]
      · omega

theorem Ticks.trans (first : Ticks i i') (second : Ticks i' j) : Ticks i j := by
  induction second with
  | refl => exact first
  | snoc _ depth prints ih => exact ih.snoc depth prints

/-- Two live orders of a level that are not apart can be overfilled. -/
theorem exists_overfill (sorted : Orders.Sorted i.orders) (ho : o ∈ i.liveOrders)
    (hp : p ∈ i.liveOrders) (hside : p.side = o.side) (hprice : p.price = o.price)
    (ne : p.key ≠ o.key) (room : o.side.HasBeyond o.price) (overlap : ¬o.Apart p) :
    ∃ i', Ticks i i' ∧ ¬i'.Bounded := by
  obtain ⟨c, x, hc, hx, comesO, staysO, comesP, staysP⟩ :=
    Order.exists_common_flow (mem_liveOrders.mp ho).2 (mem_liveOrders.mp hp).2 overlap
  obtain ⟨i₁, first, prepared, places⟩ := exists_prepared sorted room hc
  obtain ⟨i₂, second, sorted₂, best, forward⟩ := prepared.exists_forward room hc hx
  have comes : ∀ r ∈ i.liveOrders, r.side = o.side → r.price = o.price →
      min r.others c + r.mine ≤ x → x < min r.others c + r.mine + r.qty →
      ∃ q ∈ i₂.liveOrders, q.key = r.key ∧ q.side = r.side ∧ q.ahead = 0 := by
    intro r live sideR priceR comesR staysR
    obtain ⟨q, hq, keyQ, sideQ, others, mine, qty⟩ := places r live sideR priceR
    have pos := (mem_liveOrders.mp live).2
    obtain ⟨t, ht, keyT, sideT, ahead, -⟩ := forward q hq (sideQ.trans sideR)
      ((congrArg Key.price keyQ).trans priceR) (others ▸ min_le_right _ _)
      (by rw [Order.reach, Order.ahead, others, mine, qty, max_eq_left pos.le]; exact staysR)
    have front : q.ahead - x ≤ 0 := by
      rw [Order.ahead, others, mine]
      exact sub_nonpos.mpr comesR
    exact ⟨t, ht, keyT.trans keyQ, sideT.trans sideQ, ahead.trans (max_eq_right front)⟩
  obtain ⟨q, hq, keyQ, sideQ, frontQ⟩ := comes o ho rfl rfl comesO staysO
  obtain ⟨t, ht, keyT, sideT, frontT⟩ := comes p hp hside hprice comesP staysP
  have priceQ : q.price = o.price := congrArg Key.price keyQ
  have priceT : t.price = p.price := congrArg Key.price keyT
  refine ⟨i₂, first.trans second, not_bounded_of_front sorted₂ ?_ hq ht ?_ ?_ ?_ ?_ frontQ frontT⟩
  · rw [sideQ, priceQ]
    exact best
  · rw [sideT, sideQ, hside]
  · rw [priceT, priceQ, hprice]
  · rintro rfl
    exact ne (keyT.symm.trans keyQ)
  · rw [priceQ]
    exact room.1

/-- Where no tick can lead to an overfill, the orders of every level are apart. -/
theorem apart_of_bounded (sorted : Orders.Sorted i.orders)
    (room : ∀ o ∈ i.liveOrders, o.side.HasBeyond o.price)
    (bounded : ∀ i', Ticks i i' → i'.Bounded) : i.EachPair Order.Apart := by
  intro o ho p hp hside hprice older
  by_contra overlap
  have ne : p.key ≠ o.key := fun same => older.ne' (congrArg Key.id same)
  obtain ⟨i', ticks, overfill⟩ :=
    exists_overfill sorted ho hp hside.symm hprice.symm ne (room o ho) overlap
  exact overfill (bounded i' ticks)

end Instrument

end TradingDesk
