-- SUMMARY: What a tick of market data does to an instrument, taken apart into single fills.
import Mathlib.Data.List.SplitBy
import TradingDesk.Proofs.History
import TradingDesk.Simulation.Match

/-!
# Matching

A tick of market data moves orders up in their queues and fills some of them, one
after the other. `Trades` says that an instrument went through fills, each of an
order that was resting at that moment, at a price no worse than its limit.
-/

namespace TradingDesk

/-- Whether a price is no worse than a limit. -/
def Side.Fair (side : Side) (price limit : Int) : Prop :=
  match side with
  | .buy => price ≤ limit
  | .sell => limit ≤ price

/-- Whether a fill is at a price that its order was placed for. -/
def Fill.Fair (f : Fill) : Prop := f.order.side.Fair f.price f.order.price

theorem Side.fair_self (side : Side) (price : Int) : side.Fair price price := by
  cases side <;> exact le_rfl

namespace Instrument

/-- A series of fair fills. Between them places in queues and marks may change. -/
inductive Trades : Instrument → List Fill → Instrument → Prop
  | observe {i i' : Instrument} (same : i'.account = i.account) (ladder : i'.ladder = i.ladder) :
      Trades i [] i'
  | fill {i i' : Instrument} {o : Order} {price qty : Int} {f : Fill}
      (resting : Orders.find? o.key i.orders = some o)
      (filled : i.fill o price qty = some (i', f)) (fair : f.Fair) : Trades i [f] i'
  | trans {i i' i'' : Instrument} {fs fs' : List Fill} (first : Trades i fs i')
      (second : Trades i' fs' i'') : Trades i (fs ++ fs') i''

/-- The keys of all orders, with their sides. -/
def handles (i : Instrument) : List (Key × Side) := i.orders.map fun o => (o.key, o.side)

variable {i i' : Instrument} {o : Order} {key : Key} {keys : List Key} {fs : List Fill}
  {price flow : Int} {side : Side} {fillPrice : Option Int}

/-! ## What trades keep -/

theorem handles_of_account (h : i'.account = i.account) : i'.handles = i.handles := by
  refine orders_of_account (List.map fun o => (o.key, o.side)) (fun os => ?_) h
  rw [List.map_map]
  rfl

theorem handles_shrinkOrder {n : Int} : (i.shrinkOrder key n).handles = i.handles := by
  simp only [handles, shrinkOrder, Orders.update, List.map_map]
  apply List.map_congr_left
  intro o _
  simp only [Function.comp_apply]
  split
  · rw [Order.key_shrink, Order.shrink_side]
  · rfl

theorem mem_handles (h : Orders.find? key i.orders = some o) : (key, o.side) ∈ i.handles := by
  rw [← Orders.key_of_find? h]
  exact List.mem_map_of_mem (Orders.mem_of_find? h)

theorem side_of_handles (sorted : Orders.Sorted i.orders) (mem : o ∈ i.orders)
    (h : (o.key, side) ∈ i.handles) : side = o.side := by
  obtain ⟨p, hp, eq⟩ := List.mem_map.mp h
  obtain ⟨hkey, rfl⟩ := Prod.mk.inj eq
  rw [sorted.eq_of_key hp mem hkey]

namespace Trades

theorem handles (h : Trades i fs i') : i'.handles = i.handles := by
  induction h with
  | observe same => exact handles_of_account same
  | fill _ filled =>
    obtain ⟨-, -, -, -, -, -, -, rfl⟩ := fill_eq_some filled
    exact handles_shrinkOrder
  | trans _ _ first second => rw [second, first]

theorem code (h : Trades i fs i') : i'.code = i.code := by
  induction h with
  | observe same => exact code_of_account same
  | fill _ filled => exact code_of_fill filled
  | trans _ _ first second => rw [second, first]

theorem ladder (h : Trades i fs i') : i'.ladder = i.ladder := by
  induction h with
  | observe _ ladder => exact ladder
  | fill _ filled =>
    obtain ⟨-, -, -, -, -, -, -, rfl⟩ := fill_eq_some filled
    rfl
  | trans _ _ first second => rw [second, first]

theorem kind (h : Trades i fs i') : i'.kind = i.kind := by
  induction h with
  | observe same => exact kind_of_account same
  | fill _ filled =>
    obtain ⟨-, -, -, -, -, -, -, rfl⟩ := fill_eq_some filled
    rfl
  | trans _ _ first second => rw [second, first]

theorem sorted (h : Trades i fs i') (sorted : Orders.Sorted i.orders) : Orders.Sorted i'.orders := by
  induction h with
  | observe same => exact (sorted_of_account same).mpr sorted
  | fill _ filled =>
    obtain ⟨-, -, -, -, -, -, -, rfl⟩ := fill_eq_some filled
    exact sorted_shrinkOrder sorted
  | trans _ _ first second => exact second (first sorted)

theorem refl (i : Instrument) : Trades i [] i := .observe rfl rfl

theorem andThen {m : Matched} (step : Instrument → Matched) (first : Trades i m.fills m.instrument)
    (second : Trades m.instrument (step m.instrument).fills (step m.instrument).instrument) :
    Trades i (m.andThen step).fills (m.andThen step).instrument :=
  first.trans second

end Trades

/-! ## Flow -/

/-- The fills of these orders are fair, at the fill price or at their own limits. -/
def FairKeys (i : Instrument) (fillPrice : Option Int) (keys : List Key) : Prop :=
  ∀ key ∈ keys, ∀ side, (key, side) ∈ i.handles → side.Fair (fillPrice.getD key.price) key.price

theorem FairKeys.of_handles (h : i.FairKeys fillPrice keys) (same : i'.handles = i.handles) :
    i'.FairKeys fillPrice keys := by
  rw [FairKeys, same]
  exact h

theorem fairKeys_none : i.FairKeys none keys := fun key _ side _ => side.fair_self key.price

/-- The instrument after flow has gone past the queue before an order. -/
def passed (i : Instrument) (key : Key) (taken : Intake) : Instrument :=
  { i with orders := Orders.update key (·.advanceQueue taken) i.orders }

theorem account_passed {taken : Intake} : (i.passed key taken).account = i.account := by
  refine account_map fun o => ?_
  split <;> rfl

theorem find?_passed {taken : Intake} (h : Orders.find? key i.orders = some o) :
    Orders.find? key (i.passed key taken).orders = some (o.advanceQueue taken) :=
  Orders.find?_update_self (fun _ => rfl) h

theorem trades_pop (flow : Int) (fair : ∀ side, (key, side) ∈ i.handles → side.Fair price key.price) :
    Trades i (i.pop key flow price).matched.fills (i.pop key flow price).matched.instrument := by
  simp only [pop]
  cases resting : Orders.find? key i.orders with
  | none => exact .refl i
  | some o =>
    simp only
    have advanced : Trades i [] (i.passed key (o.intake flow)) := .observe account_passed rfl
    obtain rfl := Orders.key_of_find? resting
    have restingThen : Orders.find? o.key (i.passed o.key (o.intake flow)).orders
        = some (o.advanceQueue (o.intake flow)) := find?_passed resting
    cases filled : (i.passed o.key (o.intake flow)).fill (o.advanceQueue (o.intake flow)) price
        (o.intake flow).filled with
    | none =>
      simp only [passed] at filled
      simp only [filled]
      exact advanced
    | some result =>
      obtain ⟨i', f⟩ := result
      obtain ⟨-, -, -, order, hprice, -⟩ := fill_eq_some filled
      have fairFill : f.Fair := by
        rw [Fill.Fair, order, hprice]
        exact fair o.side (mem_handles resting)
      simp only [passed] at filled
      simp only [filled]
      exact advanced.trans (.fill (o := o.advanceQueue _) restingThen filled fairFill)

theorem trades_flowLevel (flow : Int) (fair : i.FairKeys fillPrice keys) :
    Trades i (i.flowLevel fillPrice flow keys).matched.fills
      (i.flowLevel fillPrice flow keys).matched.instrument := by
  induction keys generalizing i with
  | nil => exact .refl i
  | cons key keys ih =>
    have first := trades_pop flow (fair key List.mem_cons_self)
    refine first.trans (ih ?_)
    have rest : i.FairKeys fillPrice keys := fun k hk => fair k (List.mem_cons_of_mem key hk)
    exact rest.of_handles first.handles

theorem trades_flowLevels {levels : List (List Key)} (fair : ∀ keys ∈ levels, i.FairKeys fillPrice keys) :
    Trades i (i.flowLevels fillPrice flow levels).fills
      (i.flowLevels fillPrice flow levels).instrument := by
  induction levels generalizing i flow with
  | nil => exact .refl i
  | cons keys levels ih =>
    simp only [flowLevels]
    split
    · exact .refl i
    · have first := trades_flowLevel flow (fair keys List.mem_cons_self)
      refine first.andThen _ (ih ?_)
      intro ks hks
      exact (fair ks (List.mem_cons_of_mem keys hks)).of_handles first.handles

theorem trades_flowThrough (fair : i.FairKeys fillPrice keys) :
    Trades i (i.flowThrough keys flow fillPrice).fills
      (i.flowThrough keys flow fillPrice).instrument := by
  apply trades_flowLevels
  intro level hlevel key hkey
  have mem : key ∈ (keys.splitBy fun a b => a.price == b.price).flatten :=
    List.mem_flatten.mpr ⟨level, hlevel, hkey⟩
  rw [List.flatten_splitBy] at mem
  exact fair key mem

/-! ## The steps of a tick -/

theorem fair_of_isTop {top : Int} (h : i.ladder.isTop side price = true)
    (htop : top = i.ladder.opposite side) : side.Fair top price := by
  subst htop
  cases side with
  | buy =>
    simp only [Ladder.isTop, decide_eq_true_eq] at h
    exact h.2
  | sell =>
    simp only [Ladder.isTop, decide_eq_true_eq] at h
    exact h.2

theorem trades_deplete (side : Side) (top : Level) (sorted : Orders.Sorted i.orders)
    (htop : top.price = i.ladder.opposite side) :
    Trades i (i.deplete side top).fills (i.deplete side top).instrument := by
  have marked : Trades i [] { i with marks := i.marks.set side top } := .observe rfl rfl
  simp only [deplete]
  split
  · exact marked
  · refine marked.trans (trades_flowThrough ?_)
    intro key hkey side' hside
    obtain ⟨o, ho, rfl⟩ := List.mem_map.mp hkey
    rw [List.mem_mergeSort] at ho
    obtain ⟨mem, atTop⟩ := List.mem_filter.mp ho
    rw [Bool.and_eq_true, beq_iff_eq] at atTop
    obtain ⟨rfl, isTop⟩ := atTop
    rw [side_of_handles sorted (List.mem_of_mem_filter mem) hside]
    exact fair_of_isTop isTop htop

theorem trades_tradeFill {print : Level} {initiator : Option Side} :
    Trades i (i.tradeFill print initiator).fills (i.tradeFill print initiator).instrument :=
  (trades_flowThrough fairKeys_none).andThen _ (trades_flowThrough fairKeys_none)

theorem trades_tradeFills {market : Ladder} {prints : List Level} :
    Trades i (i.tradeFills market prints).fills (i.tradeFills market prints).instrument := by
  induction prints generalizing i with
  | nil => exact .refl i
  | cons print prints ih => exact trades_tradeFill.andThen _ ih

theorem trades_fillWhole (fair : ∀ side, (key, side) ∈ i.handles → side.Fair price key.price) :
    Trades i (i.fillWhole key price).fills (i.fillWhole key price).instrument := by
  simp only [fillWhole]
  cases resting : Orders.find? key i.orders with
  | none => exact .refl i
  | some o =>
    simp only
    obtain rfl := Orders.key_of_find? resting
    cases filled : i.fill o price o.qty with
    | none => exact .refl i
    | some result =>
      obtain ⟨i', f⟩ := result
      obtain ⟨-, -, -, order, hprice, -⟩ := fill_eq_some filled
      have fairFill : f.Fair := by
        rw [Fill.Fair, order, hprice]
        exact fair o.side (mem_handles resting)
      exact .fill resting filled fairFill

theorem trades_fillAll {gaps : List (Key × Int)}
    (fair : ∀ gap ∈ gaps, ∀ side, (gap.1, side) ∈ i.handles → side.Fair gap.2 gap.1.price) :
    Trades i (i.fillAll gaps).fills (i.fillAll gaps).instrument := by
  induction gaps generalizing i with
  | nil => exact .refl i
  | cons gap gaps ih =>
    have first := trades_fillWhole (fair gap List.mem_cons_self)
    refine first.andThen _ (ih ?_)
    rw [first.handles]
    exact fun g hg => fair g (List.mem_cons_of_mem gap hg)

theorem fair_of_passedBy (h : i.passedBy o = some price) : o.side.Fair price o.price := by
  simp only [passedBy] at h
  cases hside : o.side with
  | buy =>
    rw [hside] at h
    simp only [Option.ite_none_right_eq_some, Option.some.injEq] at h
    obtain ⟨⟨-, lt⟩, rfl⟩ := h
    exact lt.le
  | sell =>
    rw [hside] at h
    simp only [Option.ite_none_right_eq_some, Option.some.injEq] at h
    obtain ⟨⟨-, lt⟩, rfl⟩ := h
    exact lt.le

theorem trades_correctGap (sorted : Orders.Sorted i.orders) :
    Trades i i.correctGap.fills i.correctGap.instrument := by
  apply trades_fillAll
  intro gap hgap side hside
  obtain ⟨o, mem, eq⟩ := List.mem_filterMap.mp hgap
  obtain ⟨price, passed, rfl⟩ := Option.map_eq_some_iff.mp eq
  rw [side_of_handles sorted (List.mem_of_mem_filter mem) hside]
  exact fair_of_passedBy passed

theorem account_takeOver (depth : Option Depth) : (i.takeOver depth).account = i.account := by
  cases depth <;> rfl

theorem account_refreshQueue : i.refreshQueue.account = i.account := by
  refine account_map fun o => ?_
  split <;> rfl

/-- A tick is a series of fair fills, once its quote is taken over. -/
theorem trades_matchTick {depth : Option Depth} {prints : List Level}
    (sorted : Orders.Sorted i.orders) :
    Trades (i.takeOver depth) (i.matchTick depth prints).fills
      (i.matchTick depth prints).instrument := by
  have sorted := (sorted_of_account (account_takeOver depth)).mpr sorted
  simp only [matchTick]
  generalize (if i.ladder.isQuoted then i.ladder else (i.takeOver depth).ladder) = market
  generalize i.takeOver depth = i at sorted
  split
  · exact .refl i
  · have refreshed : Trades i (Matched.start i.refreshQueue).fills
        (Matched.start i.refreshQueue).instrument :=
      .observe account_refreshQueue rfl
    have buys := refreshed.andThen (·.deplete .buy i.ladder.bestAsk)
      (trades_deplete .buy i.ladder.bestAsk (refreshed.sorted sorted) (by rw [refreshed.ladder]; rfl))
    have sells := buys.andThen (·.deplete .sell i.ladder.bestBid)
      (trades_deplete .sell i.ladder.bestBid (buys.sorted sorted) (by rw [buys.ladder]; rfl))
    have printed := sells.andThen (·.tradeFills market prints) trades_tradeFills
    exact printed.andThen _ (trades_correctGap (printed.sorted sorted))

theorem code_matchTick {depth : Option Depth} {prints : List Level}
    (sorted : Orders.Sorted i.orders) : (i.matchTick depth prints).instrument.code = i.code :=
  (trades_matchTick sorted).code.trans (code_of_account (account_takeOver depth))

end Instrument

namespace Book

variable {b : Book} {code : String} {i i' : Instrument} {fs fs' : List Fill}

/-! ## Fills of a book -/

theorem postAll_append :
    (b.postAll code (fs ++ fs')).book = ((b.postAll code fs).book.postAll code fs').book := by
  induction fs generalizing b with
  | nil => rfl
  | cons f fs ih => exact ih

@[simp] theorem instruments_postAll : (b.postAll code fs).book.instruments = b.instruments := by
  induction fs generalizing b with
  | nil => rfl
  | cons f fs ih => exact ih

theorem postAll_set : ((b.set i).postAll code fs).book = (b.postAll code fs).book.set i := by
  induction fs generalizing b with
  | nil => rfl
  | cons f fs ih => exact ih (b := (b.post code f).book)

theorem find?_postAll {c : String} : (b.postAll code fs).book.find? c = b.find? c := by
  rw [find?, instruments_postAll]
  rfl

/-- The fills of an instrument, booked, are a run. -/
theorem run_of_trades {P : Book → Event → Prop} (hP : ∀ b f, f.Fair → P b (.filled code f))
    (hb : b.WellFormed) (found : b.find? code = some i) (trades : i.Trades fs i') :
    Run P b (fs.map (.filled code)) ((b.set i').postAll code fs).book := by
  induction trades generalizing b with
  | observe same => exact .silent (.observe (hb.account_set found same))
  | fill resting filled fair => exact .single (.fill found resting filled) (hP b _ fair)
  | @trans i i' i'' fs fs' firstTrades secondTrades first second =>
    have run := first hb found
    have foundAfter : ((b.set i').postAll code fs).book.find? code = some i' := by
      rw [find?_postAll]
      exact find?_set_self found firstTrades.code
    have rest := second (run.wellFormed hb) foundAfter
    rw [← postAll_set, set_set secondTrades.code.symm, ← postAll_append] at rest
    rw [List.map_append]
    exact run.trans rest

end Book

end TradingDesk
