-- SUMMARY: Time priority at a price: when a later order is filled only once the earlier one is.
import TradingDesk.Proofs.Ranks

/-!
# Turns

Every order of a level sees the whole flow that reaches its price, so nothing but the
places in the queue makes a later order wait for an earlier one. `Precedes` is what an
earlier order must be to a later one so that no share comes to the later one before the
earlier one is complete. Flow and quotes keep it; where it does not hold, two ticks and a
print of one share fill the later order out of turn.
-/

namespace TradingDesk

/-! ## Orders that are served one after the other -/

namespace Order

variable {kind : Kind} {o p : Order} {flow n : Int}

/-- What an order must be to a later one so that it is complete with the first share that
comes to the later one, and still so when others before them leave. The one share that
they may have in common is the last of the first and the first of the second. -/
structure Precedes (o p : Order) : Prop where
  mine : o.mine + max o.qty 0 ≤ p.mine + 1
  reach : o.reach ≤ p.ahead + 1

theorem StandsBefore.precedes (h : o.StandsBefore p) : o.Precedes p where
  mine := h.mine.trans (by omega)
  reach := h.reach.trans (by omega)

theorem stable_precedes : Stable Precedes where
  flow := by
    intro o p kind flow h
    have hm := h.mine
    have hr := h.reach
    have := @ahead_nonneg o
    constructor
    · rw [mine_flowed, open_flowed, mine_flowed]
      rw [Order.reach] at hr ⊢
      simp only [ahead] at hr ⊢
      omega
    · rw [reach_flowed, ahead_flowed]
      omega
  cap := by
    intro o p o' p' c hc h oOthers oMine oQty pOthers pMine pQty
    have hm := h.mine
    have hr := h.reach
    simp only [Order.reach, ahead] at hr
    constructor
    · rw [oMine, oQty, pMine]
      exact hm
    · simp only [Order.reach, ahead, oOthers, oMine, oQty, pOthers, pMine]
      omega

/-- Flow that fills any part of the second order completes the first. -/
theorem Precedes.flowed_qty (h : o.Precedes p) (live : 0 < o.qty)
    (filled : (p.flowed kind flow).qty < p.qty) : (o.flowed kind flow).qty = 0 := by
  have hr := h.reach
  have := @ahead_nonneg o
  rw [Order.flowed_qty, intake_filled] at filled ⊢
  rw [Order.reach] at hr
  omega

/-- Orders of which the first does not precede the second can be brought to where a share
comes to the second and the first is left with some. -/
theorem exists_overtaking (h : ¬o.Precedes p) :
    ∃ c : Int, 0 ≤ c
      ∧ min p.others c + p.mine + 1 < min o.others c + o.mine + max o.qty 0 := by
  have po := @others_nonneg p
  by_cases last : o.mine + max o.qty 0 ≤ p.mine + 1
  · have now : ¬o.reach ≤ p.ahead + 1 := fun reach => h ⟨last, reach⟩
    simp only [Order.reach, ahead] at now
    exact ⟨max o.others p.others, by omega⟩
  · have oo := @others_nonneg o
    exact ⟨0, by omega⟩

end Order

namespace Instrument

variable {i i' : Instrument} {o p : Order} {keys : List Key} {side : Side} {price flow : Int}
  {fillPrice : Option Int}

/-! ## The same flow for a level -/

/-- The same flow has come to any two live orders of a level. -/
def Together (side : Side) (i i' : Instrument) : Prop :=
  ∀ o ∈ i.liveOrders, ∀ p ∈ i.liveOrders, o.side = side → p.side = side → o.price = p.price →
    ∃ flow, o.flowed i.kind flow ∈ i'.orders ∧ p.flowed i.kind flow ∈ i'.orders

theorem together_of_mem (same : ∀ o ∈ i.liveOrders, o.side = side → o ∈ i'.orders) :
    Together side i i' := by
  intro o ho p hp sideO sideP _
  refine ⟨0, ?_, ?_⟩
  · rw [Order.flowed_zero]
    exact same o ho sideO
  · rw [Order.flowed_zero]
    exact same p hp sideP

/-- Flow through a level, and then through others. -/
theorem Together.cons {os : List Order} {r : LevelFlow} {m : Matched} {rest : Int}
    (first : i.Reached side flow os r) (whole : i.Whole side (os.map Order.key))
    (spread : r.matched.instrument.Spread side rest keys m)
    (apart : ∀ key ∈ os.map Order.key, key ∉ keys)
    (then' : Together side r.matched.instrument m.instrument) :
    Together side i m.instrument := by
  intro o ho p hp sideO sideP hprice
  obtain ⟨memO, liveO⟩ := mem_liveOrders.mp ho
  obtain ⟨memP, liveP⟩ := mem_liveOrders.mp hp
  by_cases hitO : o.key ∈ os.map Order.key
  · -- The level has its flow here, and what is left does not come back to its price.
    have stays : ∀ q ∈ i.orders, q.key ∈ os.map Order.key →
        q.flowed i.kind flow ∈ m.instrument.orders := by
      intro q hq hit
      refine (spread.rest _ ?_).mpr ?_
      · rw [Order.flowed_key]
        exact apart q.key hit
      · rw [first.orders]
        exact List.mem_map.mpr ⟨q, hq, if_pos hit⟩
    have hitP : p.key ∈ os.map Order.key := whole.whole p hp sideP o.key hitO hprice
    exact ⟨flow, stays o memO hitO, stays p memP hitP⟩
  · have hitP : p.key ∉ os.map Order.key := fun hit =>
      hitO (whole.whole o ho sideO p.key hit hprice.symm)
    have hereO := mem_liveOrders.mpr ⟨(first.mem_iff hitO).mpr memO, liveO⟩
    have hereP := mem_liveOrders.mpr ⟨(first.mem_iff hitP).mpr memP, liveP⟩
    obtain ⟨n, afterO, afterP⟩ := then' o hereO p hereP sideO sideP hprice
    rw [first.market.kind] at afterO afterP
    exact ⟨n, afterO, afterP⟩

theorem together_flowLevels {levels : List (List Key)} (sorted : Orders.Sorted i.orders)
    (whole : ∀ keys ∈ levels, i.Whole side keys)
    (level : ∀ keys ∈ levels, ∀ a ∈ keys, ∀ b ∈ keys, a.price = b.price)
    (distinct : levels.Pairwise fun ks ls => ∀ a ∈ ks, ∀ b ∈ ls, a.price ≠ b.price) :
    Together side i (i.flowLevels fillPrice flow levels).instrument := by
  induction levels generalizing i flow with
  | nil => exact together_of_mem fun o ho _ => (mem_liveOrders.mp ho).1
  | cons keys levels ih =>
    simp only [flowLevels]
    split
    · exact together_of_mem fun o ho _ => (mem_liveOrders.mp ho).1
    obtain ⟨fresh, distinctRest⟩ := List.pairwise_cons.mp distinct
    obtain ⟨wholeHere, wholeRest⟩ := List.forall_mem_cons.mp whole
    obtain ⟨-, levelRest⟩ := List.forall_mem_cons.mp level
    obtain ⟨os, rfl, live⟩ := wholeHere.exists_orders
    have first := reached_flowLevel fillPrice flow sorted
      (fun o ho => ⟨(mem_liveOrders.mp (live o ho).1).1, (live o ho).2⟩) wholeHere.nodup
    have wholeThen := fun ks hks => first.whole (wholeRest ks hks) (fresh ks hks)
    have sortedThen := first.sorted sorted
    have apart : ∀ key ∈ os.map Order.key, key ∉ levels.flatten := by
      intro key hit again
      obtain ⟨ks, hks, here⟩ := List.mem_flatten.mp again
      exact fresh ks hks key hit key here rfl
    change Together side i (flowLevels fillPrice (flow - _) _ levels).instrument
    exact Together.cons first wholeHere
      (spread_flowLevels sortedThen wholeThen levelRest distinctRest) apart
      (ih sortedThen wholeThen levelRest distinctRest)

theorem together_flowThrough (flow : Int) (fillPrice : Option Int) (sorted : Orders.Sorted i.orders)
    (whole : i.Whole side keys)
    (inTurn : keys.Pairwise fun a b => side.priority a.price ≤ side.priority b.price) :
    Together side i (i.flowThrough keys flow fillPrice).instrument := by
  have layered := whole.layered inTurn
  exact together_flowLevels sorted layered.whole layered.level layered.distinct

theorem together_deplete (side s : Side) (top : Level) (sorted : Orders.Sorted i.orders) :
    Together s i (i.deplete side top).instrument := by
  have whole : (i.marked side top).Whole side _ := whole_topQueue top sorted
  by_cases here : s = side
  · subst here
    rw [deplete_eq]
    split
    · exact together_of_mem fun o ho _ => (mem_liveOrders.mp ho).1
    · have flowing : Together s (i.marked s top) _ :=
        together_flowThrough (freshQty (i.marks.get s) top) (some top.price) sorted whole
          servedBefore_inTurn
      exact flowing
  · refine together_of_mem fun o ho hside => ?_
    exact ((spread_deplete side top sorted).others whole sorted (hside ▸ here)).mpr
      (mem_liveOrders.mp ho).1

theorem together_tradeFill (side : Side) (print : Level) (initiator : Option Side)
    (sorted : Orders.Sorted i.orders) : Together side i (i.tradeFill print initiator).instrument := by
  obtain ⟨buys, wholeSells, sells⟩ := spread_tradeFill print initiator sorted
  have wholeBuys := whole_printQueue print initiator .buy sorted
  have sortedThen := buys.evenly.sorted sorted
  intro o ho p hp sideO sideP hprice
  obtain ⟨memO, liveO⟩ := mem_liveOrders.mp ho
  obtain ⟨memP, liveP⟩ := mem_liveOrders.mp hp
  cases side with
  | buy =>
    obtain ⟨n, afterO, afterP⟩ := together_flowThrough print.qty none sorted wholeBuys
      reachedBefore_inTurn o ho p hp sideO sideP hprice
    refine ⟨n, (sells.others wholeSells sortedThen ?_).mpr afterO,
      (sells.others wholeSells sortedThen ?_).mpr afterP⟩
    · rw [Order.flowed_side, sideO]
      decide
    · rw [Order.flowed_side, sideP]
      decide
  | sell =>
    have hereO := (buys.others wholeBuys sorted (by simp [sideO])).mpr memO
    have hereP := (buys.others wholeBuys sorted (by simp [sideP])).mpr memP
    rw [← buys.evenly.kind]
    exact together_flowThrough print.qty none sortedThen wholeSells reachedBefore_inTurn
      o (mem_liveOrders.mpr ⟨hereO, liveO⟩) p (mem_liveOrders.mpr ⟨hereP, liveP⟩) sideO sideP hprice

/-! ## Priority -/

/-- Where a step fills any part of a live order, it completes each earlier one of the level. -/
def KeepsTurn (i i' : Instrument) : Prop :=
  i.EachPair fun o p => ∀ p' ∈ i'.orders, p'.key = p.key → p'.qty < p.qty →
    ∃ o' ∈ i'.orders, o'.key = o.key ∧ o'.qty = 0

/-- Every print and every depletion serves the orders of a level in the order of their age. -/
structure InTurn (i : Instrument) : Prop where
  print : ∀ (print : Level) (initiator : Option Side),
    KeepsTurn i (i.tradeFill print initiator).instrument
  deplete : ∀ (side : Side) (top : Level), KeepsTurn i (i.deplete side top).instrument

theorem keepsTurn_of_together (sorted : Orders.Sorted i'.orders)
    (together : ∀ side, Together side i i') (precede : i.EachPair Order.Precedes) : KeepsTurn i i' := by
  intro o ho p hp hside hprice older p' hp' keyP filled
  obtain ⟨n, afterO, afterP⟩ := together o.side o ho p hp rfl hside.symm hprice
  obtain rfl := sorted.eq_of_key hp' afterP (keyP.trans Order.flowed_key.symm)
  have done := (precede o ho p hp hside hprice older).flowed_qty (mem_liveOrders.mp ho).2 filled
  exact ⟨_, afterO, Order.flowed_key, done⟩

theorem inTurn_of_precede (sorted : Orders.Sorted i.orders) (precede : i.EachPair Order.Precedes) :
    i.InTurn where
  print := fun print initiator =>
    keepsTurn_of_together ((evenly_tradeFill print initiator sorted).sorted sorted)
      (fun side => together_tradeFill side print initiator sorted) precede
  deplete := fun side top =>
    keepsTurn_of_together ((evenly_deplete side top sorted).sorted sorted)
      (fun s => together_deplete side s top sorted) precede

/-- Orders that precede each other stay so and are served in turn, whatever market data come. -/
theorem MarketRun.inTurn (run : MarketRun i i') (sorted : Orders.Sorted i.orders)
    (precede : i.EachPair Order.Precedes) : i'.InTurn := by
  have evenly := run.evenly sorted
  exact inTurn_of_precede (evenly.sorted sorted) (evenly.eachPair Order.stable_precedes precede)

/-! ## Out of turn -/

/-- A print at the best price that comes to a later order before an earlier one is complete. -/
theorem not_inTurn_of_flow (flow : Int) (sorted : Orders.Sorted i.orders)
    (best : i.NoneBetter o.side o.price) (ho : o ∈ i.liveOrders) (hp : p ∈ i.liveOrders)
    (hside : o.side = p.side) (hprice : o.price = p.price) (older : o.id < p.id)
    (positive : 0 < o.price) (comes : p.ahead < flow) (left : flow < o.reach) : ¬i.InTurn := by
  intro inTurn
  have nonneg := @Order.ahead_nonneg p
  have liveO := (mem_liveOrders.mp ho).2
  have liveP := (mem_liveOrders.mp hp).2
  obtain ⟨os, shared⟩ := shared_tradeFill flow none sorted best (nonneg.trans_lt comes) (by simp)
    ho rfl rfl positive
  have afterO := shared.flowed o (shared.mem o ho rfl rfl)
  have afterP := shared.flowed p (shared.mem p hp hside.symm hprice.symm)
  have filled : (p.flowed i.kind flow).qty < p.qty := by
    rw [Order.flowed_qty, Order.intake_filled]
    omega
  obtain ⟨o', ho', keyO, done⟩ := inTurn.print ⟨o.price, flow⟩ none o ho p hp hside hprice older
    _ afterP Order.flowed_key filled
  obtain rfl := ((evenly_tradeFill _ _ sorted).sorted sorted).eq_of_key ho' afterO
    (keyO.trans Order.flowed_key.symm)
  have rest := @Order.open_flowed i.kind o flow
  omega

/-- Two live orders of a level of which the earlier one does not precede the other can be
served out of turn. -/
theorem exists_outOfTurn (sorted : Orders.Sorted i.orders) (ho : o ∈ i.liveOrders)
    (hp : p ∈ i.liveOrders) (hside : o.side = p.side) (hprice : o.price = p.price)
    (older : o.id < p.id) (room : o.side.HasBeyond o.price) (overtakes : ¬o.Precedes p) :
    ∃ i', Ticks i i' ∧ ¬i'.InTurn := by
  obtain ⟨c, hc, overtaken⟩ := Order.exists_overtaking overtakes
  have liveP := (mem_liveOrders.mp hp).2
  have hx : 0 ≤ min p.others c + p.mine := add_nonneg (le_min Order.others_nonneg hc) Order.mine_nonneg
  obtain ⟨i₁, first, prepared, places⟩ := exists_prepared sorted room hc
  obtain ⟨i₂, second, sorted₂, best, forward⟩ := prepared.exists_forward room hc hx
  have moved : ∀ r ∈ i.liveOrders, r.side = o.side → r.price = o.price →
      min p.others c + p.mine < min r.others c + r.mine + max r.qty 0 →
      ∃ q ∈ i₂.liveOrders, q.key = r.key ∧ q.side = r.side
        ∧ q.ahead = max (min r.others c + r.mine - (min p.others c + p.mine)) 0
        ∧ q.reach = min r.others c + r.mine + max r.qty 0 - (min p.others c + p.mine) := by
    intro r live sideR priceR stays
    obtain ⟨q, hq, keyQ, sideQ, others, mine, qty⟩ := places r live sideR priceR
    have ahead : q.ahead = min r.others c + r.mine := by rw [Order.ahead, others, mine]
    have reach : q.reach = min r.others c + r.mine + max r.qty 0 := by rw [Order.reach, ahead, qty]
    obtain ⟨t, ht, keyT, sideT, aheadT, reachT⟩ := forward q hq (sideQ.trans sideR)
      ((congrArg Key.price keyQ).trans priceR) (others ▸ min_le_right _ _) (reach ▸ stays)
    exact ⟨t, ht, keyT.trans keyQ, sideT.trans sideQ, ahead ▸ aheadT, reach ▸ reachT⟩
  obtain ⟨q, hq, keyQ, sideQ, -, reachQ⟩ := moved o ho rfl rfl (by omega)
  obtain ⟨t, ht, keyT, sideT, aheadT, -⟩ := moved p hp hside.symm hprice.symm (by omega)
  have priceQ : q.price = o.price := congrArg Key.price keyQ
  have priceT : t.price = p.price := congrArg Key.price keyT
  refine ⟨i₂, first.trans second,
    not_inTurn_of_flow 1 sorted₂ ?_ hq ht ?_ ?_ ?_ ?_ ?_ ?_⟩
  · rw [sideQ, priceQ]
    exact best
  · rw [sideQ, sideT, hside]
  · rw [priceQ, priceT, hprice]
  · rw [show q.id = o.id from congrArg Key.id keyQ, show t.id = p.id from congrArg Key.id keyT]
    exact older
  · rw [priceQ]
    exact room.1
  · omega
  · omega

/-- Where no tick can lead to an order that is served out of turn, earlier orders precede
the later ones of their level. -/
theorem precede_of_inTurn (sorted : Orders.Sorted i.orders)
    (room : ∀ o ∈ i.liveOrders, o.side.HasBeyond o.price)
    (inTurn : ∀ i', Ticks i i' → i'.InTurn) : i.EachPair Order.Precedes := by
  intro o ho p hp hside hprice older
  by_contra overtakes
  obtain ⟨i', ticks, outOfTurn⟩ :=
    exists_outOfTurn sorted ho hp hside hprice older (room o ho) overtakes
  exact outOfTurn (inTurn i' ticks)

end Instrument

/-- Every live order has a price beyond its own, sells at a price of one excepted. -/
theorem Book.Sane.hasBeyond {b : Book} {i : Instrument} (sane : b.Sane) (hi : i ∈ b.instruments)
    (above : ∀ o ∈ i.liveOrders, o.side = .sell → 1 < o.price) :
    ∀ o ∈ i.liveOrders, o.side.HasBeyond o.price := by
  obtain ⟨_, solvent⟩ := sane.solvent
  intro o ho
  have pos := (solvent.funded i hi o (Instrument.mem_liveOrders.mp ho).1).price
  refine ⟨pos, ?_⟩
  cases hside : o.side with
  | buy => exact pos.trans (lt_add_one o.price)
  | sell => exact sub_pos.mpr (above o ho hside)

namespace Session

/-- In a session every print and every depletion serves the orders of a level in the order of
their age as long as every order joins behind all of mine at its price. In a state that it
reaches, all that can come will if the earlier orders of its levels precede the later
ones, and if they do not, ticks can lead to one that is served out of turn. Of sells at a
price of one, below which nothing is bid, the latter is not claimed. -/
theorem run_inTurn {broker : Simulation} {clock : SessionClock} {inputs : List Input}
    {balance : Int} {ts : List Tracked} (opened : broker.book = Book.opening balance ts) :
    let s := (start broker clock).run inputs
    ((∀ e ∈ (start broker clock).history inputs, e.JoinsBehind) →
        ∀ i ∈ s.broker.book.instruments, ∀ i', i.MarketRun i' → i'.InTurn)
      ∧ ∀ i ∈ s.broker.book.instruments,
        (i.EachPair Order.Precedes → ∀ i', i.MarketRun i' → i'.InTurn)
          ∧ ((∀ o ∈ i.liveOrders, o.side = .sell → 1 < o.price) →
              (∀ i', i.Ticks i' → i'.InTurn) → i.EachPair Order.Precedes) := by
  have sane : (start broker clock).broker.book.Sane := sane_start opened
  have moves : Book.Moves _ ((start broker clock).history inputs) _ := moves_run sane
  have after := moves.sane sane
  refine ⟨fun joins i hi i' run => ?_, fun i hi => ⟨fun precede i' run => ?_, fun above inTurn => ?_⟩⟩
  · have opening : (start broker clock).broker.book.InLine := by
      change broker.book.InLine
      rw [opened]
      exact Book.inLine_opening balance ts
    have line := moves.inLine sane opening joins i hi
    exact run.inTurn (after.wellFormed.sorted i hi)
      fun o ho p hp hside hprice older => (line o ho p hp hside hprice older).precedes
  · exact run.inTurn (after.wellFormed.sorted i hi) precede
  · exact Instrument.precede_of_inTurn (after.wellFormed.sorted i hi) (after.hasBeyond hi above) inTurn

/-- Two sells that are placed one after the other at a price are served in turn. -/
theorem run_inTurn_joined :
    let broker := Simulation.start (Book.opening 100000 [⟨"A", .equity, 14⟩]) [] [] 8
    let clock : SessionClock := ⟨32400, 33000, 10⟩
    let inputs : List Input := [.advance, .buildMsgOut, .applyMsgIn "s A 1000 10", .advance,
      .buildMsgOut, .applyMsgIn "s A 1000 4"]
    let s := (start broker clock).run inputs
    (s.broker.book.instruments.map fun i => i.liveOrders.length) = [2]
      ∧ ∀ i ∈ s.broker.book.instruments, ∀ i', i.MarketRun i' → i'.InTurn := by
  refine ⟨by decide +kernel, ?_⟩
  exact (run_inTurn rfl).1 (by decide +kernel)

/-- While a buy waits behind twenty, a second one at its price joins behind the five that a
quote without a best bid shows, and the next print can fill some of it and none of the first. -/
theorem run_outOfTurn :
    let broker := Simulation.start (Book.opening 1000000 [⟨"A", .equity, 0⟩])
      thinning.toUTF8.toList [] 8
    let clock : SessionClock := ⟨32400, 33000, 10⟩
    let inputs : List Input := [.advance, .buildMsgOut, .applyMsgIn "b A 9990 10", .advance,
      .buildMsgOut, .applyMsgIn "b A 9990 10"]
    ∃ i ∈ ((start broker clock).run inputs).broker.book.instruments, ¬i.InTurn := by
  intro broker clock inputs
  have overtakes : ∃ i ∈ ((start broker clock).run inputs).broker.book.instruments,
      i.orders.Pairwise (fun o p => o.key.before p.key = true) ∧ ∃ o ∈ i.liveOrders,
        (∀ q ∈ i.liveOrders, q.side = o.side → o.side.priority o.price ≤ o.side.priority q.price)
          ∧ ∃ p ∈ i.liveOrders, o.side = p.side ∧ o.price = p.price ∧ o.id < p.id
            ∧ 0 < o.price ∧ p.ahead < 16 ∧ 16 < o.reach := by
    decide +kernel
  obtain ⟨i, hi, sorted, o, ho, best, p, hp, side, price, older, positive, comes, left⟩ := overtakes
  exact ⟨i, hi, Instrument.not_inTurn_of_flow 16 sorted best ho hp side price older positive comes left⟩

end Session

end TradingDesk
