-- SUMMARY: When the steps of a tick never fill more than was traded, and when they can.
import TradingDesk.Proofs.Levels

/-!
# Prints and depletions

The steps of a tick change the orders of a level alike, so orders that are apart stay
apart and no print and no depletion fills more of a side than its quantity. Two orders
of a level that are not apart can be brought by quotes and prints to where one share
that is traded fills one share of each.
-/

namespace TradingDesk

namespace Instrument

variable {i i' : Instrument} {o p : Order} {key : Key} {side : Side} {price : Int}
  {print top : Level} {initiator : Option Side}

/-! ## The steps of a tick -/

theorem freshQty_nonneg {mark top : Level} : 0 ≤ freshQty mark top := by
  simp only [freshQty]
  split
  · exact le_max_right _ _
  · exact le_rfl

/-- The keys of my orders of `side` that are at the top, in turn. -/
def topQueue (i : Instrument) (side : Side) : List Key :=
  ((i.liveOrders.filter fun o => o.side == side && i.ladder.isTop side o.price).mergeSort
    (servedBefore side)).map Order.key

/-- The instrument once a depletion has taken note of the opposite best. -/
def marked (i : Instrument) (side : Side) (top : Level) : Instrument :=
  { i with marks := i.marks.set side top }

theorem whole_topQueue (top : Level) (sorted : Orders.Sorted i.orders) :
    (i.marked side top).Whole side (i.topQueue side) :=
  whole_queue side _ _ sorted fun o p _ hprice => by rw [hprice]

theorem deplete_eq : i.deplete side top
    = if freshQty (i.marks.get side) top = 0 then .start (i.marked side top)
      else (i.marked side top).flowThrough (i.topQueue side) (freshQty (i.marks.get side) top)
        (some top.price) :=
  rfl

theorem spread_deplete (side : Side) (top : Level) (sorted : Orders.Sorted i.orders) :
    (i.marked side top).Spread side (freshQty (i.marks.get side) top) (i.topQueue side)
      (i.deplete side top) := by
  rw [deplete_eq]
  split
  · exact .start _ _ _ _
  · exact spread_flowThrough _ _ sorted (whole_topQueue top sorted) servedBefore_inTurn

theorem evenly_deplete (side : Side) (top : Level) (sorted : Orders.Sorted i.orders) :
    Evenly i (i.deplete side top).instrument := by
  have marked : Evenly i (i.marked side top) := .of_orders rfl rfl
  exact marked.trans (spread_deplete side top sorted).evenly

/-- A print goes through my buys and then through my sells. -/
theorem spread_tradeFill (print : Level) (initiator : Option Side) (sorted : Orders.Sorted i.orders) :
    i.Spread .buy print.qty (i.printQueue print initiator .buy)
        (i.flowThrough (i.printQueue print initiator .buy) print.qty none)
      ∧ (i.flowThrough (i.printQueue print initiator .buy) print.qty none).instrument.Whole .sell
          (i.printQueue print initiator .sell)
      ∧ (i.flowThrough (i.printQueue print initiator .buy) print.qty none).instrument.Spread .sell
          print.qty (i.printQueue print initiator .sell)
          ((i.flowThrough (i.printQueue print initiator .buy) print.qty none).instrument.flowThrough
            (i.printQueue print initiator .sell) print.qty none) := by
  have wholeBuys := whole_printQueue print initiator .buy sorted
  have buys := spread_flowThrough print.qty none sorted wholeBuys reachedBefore_inTurn
  have wholeSells := buys.whole wholeBuys sorted (by decide)
    (whole_printQueue print initiator .sell sorted)
  exact ⟨buys, wholeSells,
    spread_flowThrough print.qty none (buys.evenly.sorted sorted) wholeSells reachedBefore_inTurn⟩

theorem evenly_tradeFill (print : Level) (initiator : Option Side) (sorted : Orders.Sorted i.orders) :
    Evenly i (i.tradeFill print initiator).instrument := by
  obtain ⟨buys, -, sells⟩ := spread_tradeFill print initiator sorted
  exact buys.evenly.trans sells.evenly

theorem market_tradeFill (print : Level) (initiator : Option Side) (sorted : Orders.Sorted i.orders) :
    SameMarket i (i.tradeFill print initiator).instrument := by
  obtain ⟨buys, -, sells⟩ := spread_tradeFill print initiator sorted
  exact buys.market.trans sells.market

/-- The order as the queue is refreshed. -/
def refreshed (i : Instrument) (o : Order) : Order :=
  if o.isLive then { o with aheadOthers := i.cappedOthers o } else o

theorem refreshQueue_orders : i.refreshQueue.orders = i.orders.map i.refreshed := rfl

theorem refreshed_of_live (live : 0 < o.qty) :
    i.refreshed o = { o with aheadOthers := i.cappedOthers o } :=
  if_pos (decide_eq_true live)

theorem refreshed_qty : (i.refreshed o).qty = o.qty := by
  unfold refreshed
  split <;> rfl

theorem evenly_refreshQueue : Evenly i i.refreshQueue where
  kind := rfl
  orders := by
    refine ⟨i.refreshed, refreshQueue_orders, ?_, ?_, ?_, ?_⟩
    · intro o
      unfold refreshed
      split <;> rfl
    · intro o
      unfold refreshed
      split <;> rfl
    · intro o live
      rwa [refreshed_qty] at live
    · intro R stable o _ p _ liveO liveP hside hprice related
      rw [refreshed_qty] at liveO liveP
      rw [refreshed_of_live liveO, refreshed_of_live liveP]
      have cappedP : max (i.cappedOthers p) 0 = min p.others (i.ladder.cap o.side o.price) := by
        rw [hside, hprice]
        exact others_capped
      exact stable.cap Ladder.cap_nonneg related others_capped rfl rfl cappedP rfl rfl

/-! ## Orders that the market has moved through -/

/-- The order once all that is open under a key is filled. -/
def exhausted (i : Instrument) (key : Key) (o : Order) : Order :=
  if o.key = key ∧ 0 < o.qty then o.shrink i.kind o.qty else o

/-- An order that is live after its key was filled whole is another one and stays as it was. -/
theorem exhausted_of_live (live : 0 < (i.exhausted key o).qty) :
    i.exhausted key o = o ∧ o.key ≠ key := by
  unfold exhausted at live ⊢
  split at live
  · rw [Order.shrink_qty, sub_self] at live
    exact absurd live (lt_irrefl 0)
  next other =>
    exact ⟨if_neg other, fun here => other ⟨here, live⟩⟩

theorem exhausted_of_ne (ne : o.key ≠ key) : i.exhausted key o = o := if_neg fun h => ne h.1

theorem fillWhole_spec (sorted : Orders.Sorted i.orders) :
    SameMarket i (i.fillWhole key price).instrument
      ∧ (i.fillWhole key price).instrument.orders = i.orders.map (i.exhausted key) := by
  have untouched : (∀ o ∈ i.orders, ¬(o.key = key ∧ 0 < o.qty)) →
      i.orders = i.orders.map (i.exhausted key) := fun h =>
    (List.map_id' _).symm.trans (List.map_congr_left fun o mem => (if_neg (h o mem)).symm)
  unfold fillWhole
  cases found : Orders.find? key i.orders with
  | none =>
    refine ⟨.refl i, untouched ?_⟩
    rintro o mem ⟨here, -⟩
    rw [(Orders.find?_eq_some sorted).mpr ⟨mem, here⟩] at found
    cases found
  | some q =>
    obtain ⟨hq, rfl⟩ := (Orders.find?_eq_some sorted).mp found
    have unique : ∀ o ∈ i.orders, o.key = q.key → o = q := fun o mem same =>
      sorted.eq_of_key mem hq same
    by_cases live : 0 < q.qty
    · simp only [fill, min_self, if_neg (not_le.mpr live), Orders.update]
      refine ⟨⟨rfl, rfl, rfl⟩, List.map_congr_left ?_⟩
      intro o mem
      by_cases here : o.key = q.key
      · rw [unique o mem here, if_pos (beq_self_eq_true _), exhausted, if_pos ⟨rfl, live⟩]
      · rw [exhausted_of_ne here, if_neg (by simpa using here)]
    · simp only [fill, min_self, if_pos (not_lt.mp live), Matched.start]
      refine ⟨.refl i, untouched ?_⟩
      rintro o mem ⟨here, pos⟩
      exact live (unique o mem here ▸ pos)

theorem evenly_fillWhole (sorted : Orders.Sorted i.orders) :
    Evenly i (i.fillWhole key price).instrument where
  kind := (fillWhole_spec sorted).1.kind
  orders := by
    refine ⟨i.exhausted key, (fillWhole_spec sorted).2, ?_, ?_, ?_, ?_⟩
    · intro o
      unfold exhausted
      split
      · exact Order.key_shrink
      · rfl
    · intro o
      unfold exhausted
      split
      · exact Order.shrink_side
      · rfl
    · intro o live
      rwa [(exhausted_of_live live).1] at live
    · intro R _ o _ p _ liveO liveP _ _ related
      rwa [(exhausted_of_live liveO).1, (exhausted_of_live liveP).1]

theorem mem_live_fillWhole (sorted : Orders.Sorted i.orders) :
    o ∈ (i.fillWhole key price).instrument.liveOrders ↔ o ∈ i.liveOrders ∧ o.key ≠ key := by
  rw [mem_liveOrders, mem_liveOrders, (fillWhole_spec sorted).2, List.mem_map]
  constructor
  · rintro ⟨⟨q, hq, rfl⟩, live⟩
    obtain ⟨same, ne⟩ := exhausted_of_live live
    rw [same] at live ⊢
    exact ⟨⟨hq, live⟩, ne⟩
  · rintro ⟨⟨mem, live⟩, ne⟩
    exact ⟨⟨o, mem, exhausted_of_ne ne⟩, live⟩

variable {gaps : List (Key × Int)}

theorem evenly_fillAll (sorted : Orders.Sorted i.orders) : Evenly i (i.fillAll gaps).instrument := by
  induction gaps generalizing i with
  | nil => exact .refl i
  | cons gap gaps ih =>
    have first : Evenly i (i.fillWhole gap.1 gap.2).instrument := evenly_fillWhole sorted
    exact first.trans (ih (first.sorted sorted))

theorem market_fillAll (sorted : Orders.Sorted i.orders) : SameMarket i (i.fillAll gaps).instrument := by
  induction gaps generalizing i with
  | nil => exact .refl i
  | cons gap gaps ih =>
    have first : Evenly i (i.fillWhole gap.1 gap.2).instrument := evenly_fillWhole sorted
    exact (fillWhole_spec sorted).1.trans (ih (first.sorted sorted))

theorem mem_live_fillAll (sorted : Orders.Sorted i.orders) :
    o ∈ (i.fillAll gaps).instrument.liveOrders
      ↔ o ∈ i.liveOrders ∧ ∀ gap ∈ gaps, o.key ≠ gap.1 := by
  induction gaps generalizing i with
  | nil => simp [fillAll, Matched.start]
  | cons gap gaps ih =>
    have first : Evenly i (i.fillWhole gap.1 gap.2).instrument := evenly_fillWhole sorted
    refine (ih (first.sorted sorted)).trans ?_
    rw [mem_live_fillWhole sorted, List.forall_mem_cons, and_assoc]

theorem evenly_correctGap (sorted : Orders.Sorted i.orders) : Evenly i i.correctGap.instrument :=
  evenly_fillAll sorted

theorem market_correctGap (sorted : Orders.Sorted i.orders) : SameMarket i i.correctGap.instrument :=
  market_fillAll sorted

/-- The gap fills the live orders that the market has moved through, and no others. -/
theorem mem_live_correctGap (sorted : Orders.Sorted i.orders) :
    o ∈ i.correctGap.instrument.liveOrders ↔ o ∈ i.liveOrders ∧ i.passedBy o = none := by
  refine (mem_live_fillAll sorted).trans (and_congr_right fun live => ?_)
  rw [Option.eq_none_iff_forall_ne_some]
  constructor
  · intro h price passed
    refine h (o.key, price) (List.mem_filterMap.mpr ⟨o, live, ?_⟩) rfl
    rw [passed]
    rfl
  · rintro h gap hgap same
    obtain ⟨q, hq, eq⟩ := List.mem_filterMap.mp hgap
    obtain ⟨price, passed, rfl⟩ := Option.map_eq_some_iff.mp eq
    obtain rfl := sorted.eq_of_key (List.mem_of_mem_filter live) (List.mem_of_mem_filter hq) same
    exact h price passed

/-! ## Runs of market data -/

/-- Steps of market data, one after another: those of ticks in their turn, or any others. -/
inductive MarketRun : Instrument → Instrument → Prop
  | quote (i : Instrument) (depth : Option Depth) : MarketRun i (i.takeOver depth)
  | refresh (i : Instrument) : MarketRun i i.refreshQueue
  | deplete (i : Instrument) (side : Side) (top : Level) : MarketRun i (i.deplete side top).instrument
  | print (i : Instrument) (print : Level) (initiator : Option Side) :
      MarketRun i (i.tradeFill print initiator).instrument
  | gap (i : Instrument) : MarketRun i i.correctGap.instrument
  | refl (i : Instrument) : MarketRun i i
  | trans {i i' i'' : Instrument} (first : MarketRun i i') (second : MarketRun i' i'') :
      MarketRun i i''

theorem MarketRun.evenly (run : MarketRun i i') (sorted : Orders.Sorted i.orders) : Evenly i i' := by
  induction run with
  | quote i depth => cases depth <;> exact .of_orders rfl rfl
  | refresh => exact evenly_refreshQueue
  | deplete => exact evenly_deplete _ _ sorted
  | print => exact evenly_tradeFill _ _ sorted
  | gap => exact evenly_correctGap sorted
  | refl i => exact .refl i
  | trans _ _ first second =>
    have before := first sorted
    exact before.trans (second (before.sorted sorted))

theorem marketRun_tradeFills {market : Ladder} {prints : List Level} :
    MarketRun i (i.tradeFills market prints).instrument := by
  induction prints generalizing i with
  | nil => exact .refl i
  | cons print prints ih => exact (MarketRun.print i print (market.aggressor print.price)).trans ih

/-- A tick is a run of market data. -/
theorem marketRun_matchTick (depth : Option Depth) (prints : List Level) :
    MarketRun i (i.matchTick depth prints).instrument := by
  have quoted : MarketRun i (i.takeOver depth) := .quote i depth
  simp only [matchTick]
  split
  · exact quoted
  · have refreshed := quoted.trans (.refresh _)
    have buys := refreshed.trans (.deplete _ .buy (i.takeOver depth).ladder.bestAsk)
    have sells := buys.trans (.deplete _ .sell (i.takeOver depth).ladder.bestBid)
    exact (sells.trans marketRun_tradeFills).trans (.gap _)

/-! ## No more than was traded -/

/-- No print and no depletion fills more of a side than its quantity. -/
structure Bounded (i : Instrument) : Prop where
  print : ∀ (print : Level) (initiator : Option Side) (side : Side),
    side.filled (i.tradeFill print initiator).fills ≤ max print.qty 0
  deplete : ∀ (side : Side) (top : Level),
    side.filled (i.deplete side top).fills ≤ freshQty (i.marks.get side) top

theorem bounded_of_apart (sorted : Orders.Sorted i.orders) (apart : i.EachPair Order.Apart) :
    i.Bounded where
  print := by
    intro print initiator side
    obtain ⟨buys, -, sells⟩ := spread_tradeFill print initiator sorted
    refine Side.filled_append.trans_le ?_
    cases side with
    | buy =>
      rw [sells.other .buy (by decide), add_zero]
      exact buys.bounded apart
    | sell =>
      rw [buys.other .sell (by decide), zero_add]
      exact sells.bounded (buys.evenly.eachPair Order.stable_apart apart)
  deplete := fun side top =>
    ((spread_deplete side top sorted).bounded apart).trans_eq (max_eq_left freshQty_nonneg)

/-- Orders that are apart are never overfilled, whatever market data come. -/
theorem MarketRun.bounded (run : MarketRun i i') (sorted : Orders.Sorted i.orders)
    (apart : i.EachPair Order.Apart) : i'.Bounded := by
  have evenly := run.evenly sorted
  exact bounded_of_apart (evenly.sorted sorted) (evenly.eachPair Order.stable_apart apart)

end Instrument

end TradingDesk
