-- SUMMARY: Flow through the orders of a price, and through one price after another.
import Mathlib.Data.List.SplitBy
import TradingDesk.Proofs.Matching
import TradingDesk.Proofs.Pours

/-!
# Levels

The live orders of a side at a price are a level. Flow that goes through a level reaches
each of its orders; flow that goes through several levels leaves to the next one what it
did not use. As long as the orders of a level are apart, no more is filled than flows.
-/

namespace TradingDesk

/-! ## Runs of equal prices -/

section Runs

variable {α : Type} {f : α → Int} {l run : List α} {runs runs' : List (List α)}

/-- Lists each of which holds what is of one value, and the next one what is of another. -/
structure Runs (f : α → Int) (runs : List (List α)) : Prop where
  nonempty : [] ∉ runs
  const : ∀ run ∈ runs, ∀ a ∈ run, ∀ b ∈ run, f a = f b
  differ : runs.IsChain fun run next => ∀ a ∈ run, ∀ b ∈ next, f a ≠ f b

private theorem const_of_mem_splitBy (h : run ∈ l.splitBy fun a b => f a == f b) :
    ∀ a ∈ run, ∀ b ∈ run, f a = f b := by
  have chain : (run.map f).IsChain Eq := by
    rw [List.isChain_map]
    simpa using List.isChain_of_mem_splitBy h
  have symm : Std.Symm fun a b => f a = f b := ⟨fun _ _ h => h.symm⟩
  have pairwise : run.Pairwise fun a b => f a = f b := List.pairwise_map.mp chain.pairwise
  exact pairwise.forall_of_forall fun _ _ => rfl

theorem Runs.splitBy (l : List α) : Runs f (l.splitBy fun a b => f a == f b) where
  nonempty := List.nil_notMem_splitBy _ l
  const := fun _ => const_of_mem_splitBy
  differ := by
    refine (List.isChain_getLast_head_splitBy (fun a b => f a == f b) l).imp_of_mem_imp ?_
    rintro run next hrun hnext ⟨here, there, ne⟩ a ha b hb same
    rw [const_of_mem_splitBy hrun _ (List.getLast_mem here) a ha, same,
      const_of_mem_splitBy hnext b hb _ (List.head_mem there), beq_self_eq_true] at ne
    cases ne

/-- Put together, runs are split into the same ones again. -/
theorem Runs.splitBy_flatten (h : Runs f runs) : (runs.flatten.splitBy fun a b => f a == f b) = runs := by
  refine List.splitBy_flatten h.nonempty (fun run hrun => ?_) ?_
  · refine List.Pairwise.isChain (List.pairwise_of_forall_mem_list fun a ha b hb => ?_)
    exact beq_iff_eq.mpr (h.const run hrun a ha b hb)
  · refine h.differ.imp_of_mem_imp fun run next hrun hnext ne => ?_
    have here : run ≠ [] := fun none => h.nonempty (none ▸ hrun)
    have there : next ≠ [] := fun none => h.nonempty (none ▸ hnext)
    exact ⟨here, there, beq_eq_false_iff_ne.mpr
      (ne _ (List.getLast_mem here) _ (List.head_mem there))⟩

/-- The order inside runs does not matter. -/
theorem Runs.perm (h : Runs f runs) (perm : List.Forall₂ List.Perm runs runs') : Runs f runs' := by
  induction perm with
  | nil => exact h
  | @cons run run' runs runs' here rest ih =>
    obtain ⟨nonempty, const, differ⟩ := h
    obtain ⟨constHere, constRest⟩ := List.forall_mem_cons.mp const
    have tail := ih ⟨fun mem => nonempty (List.mem_cons_of_mem _ mem), constRest, differ.tail⟩
    refine ⟨?_, List.forall_mem_cons.mpr ⟨?_, tail.const⟩, ?_⟩
    · refine List.not_mem_cons_of_ne_of_not_mem (fun none => nonempty ?_) tail.nonempty
      rw [← none] at here
      rw [here.eq_nil]
      exact List.mem_cons_self
    · exact fun a ha b hb => constHere a (here.mem_iff.mpr ha) b (here.mem_iff.mpr hb)
    · cases rest with
      | nil => exact .singleton _
      | cons next _ =>
        refine List.isChain_cons_cons.mpr ⟨fun a ha b hb => ?_, tail.differ⟩
        exact (List.isChain_cons_cons.mp differ).1 a (here.mem_iff.mpr ha) b (next.mem_iff.mpr hb)

/-- Runs of a sorted list lie above each other. -/
theorem Runs.ascend (h : Runs f runs) (sorted : runs.flatten.Pairwise fun a b => f a ≤ f b) :
    runs.Pairwise fun run next => ∀ a ∈ run, ∀ b ∈ next, f a < f b := by
  induction runs with
  | nil => exact .nil
  | cons run runs ih =>
    obtain ⟨nonempty, const, differ⟩ := h
    obtain ⟨-, sortedRest, between⟩ := List.pairwise_append.mp sorted
    have rest := ih ⟨fun mem => nonempty (List.mem_cons_of_mem run mem),
      (List.forall_mem_cons.mp const).2, differ.tail⟩ sortedRest
    refine List.pairwise_cons.mpr ⟨?_, rest⟩
    cases runs with
    | nil => exact nofun
    | cons next runs =>
      have step : ∀ a ∈ run, ∀ b ∈ next, f a < f b := fun a ha b hb =>
        lt_of_le_of_ne (between a ha b (List.mem_append_left _ hb))
          ((List.isChain_cons_cons.mp differ).1 a ha b hb)
      intro later hlater a ha b hb
      rcases List.mem_cons.mp hlater with rfl | further
      · exact step a ha b hb
      · have inhabited : next ≠ [] := fun none => nonempty (none ▸ by simp)
        obtain ⟨c, hc⟩ := List.exists_mem_of_ne_nil next inhabited
        exact (step a ha c hc).trans ((List.pairwise_cons.mp rest).1 later further c hc b hb)

/-- The runs of a sorted list are what it holds of one value each, no value twice. -/
theorem runs_of_sorted (sorted : l.Pairwise fun a b => f a ≤ f b) :
    (l.splitBy fun a b => f a == f b).Pairwise (fun run next => ∀ a ∈ run, ∀ b ∈ next, f a ≠ f b)
      ∧ ∀ run ∈ l.splitBy fun a b => f a == f b,
          ∃ a ∈ run, ∀ b, b ∈ run ↔ b ∈ l ∧ f b = f a := by
  have flat := List.flatten_splitBy (fun a b => f a == f b) l
  have split : Runs f (l.splitBy fun a b => f a == f b) := .splitBy l
  have apart := (split.ascend (flat.symm ▸ sorted)).imp fun h a ha b hb => (h a ha b hb).ne
  refine ⟨apart, fun run hrun => ?_⟩
  obtain ⟨a, ha⟩ := List.exists_mem_of_ne_nil _ (List.ne_nil_of_mem_splitBy hrun)
  refine ⟨a, ha, fun b => ⟨?_, ?_⟩⟩
  · intro hb
    have mem := List.mem_flatten.mpr ⟨run, hrun, hb⟩
    rw [flat] at mem
    exact ⟨mem, split.const run hrun b hb a ha⟩
  · rintro ⟨hb, same⟩
    rw [← flat] at hb
    obtain ⟨other, hother, hb⟩ := List.mem_flatten.mp hb
    by_cases here : other = run
    · exact here ▸ hb
    · have symm : Std.Symm fun run next : List α => ∀ a ∈ run, ∀ b ∈ next, f a ≠ f b :=
        ⟨fun run next h b hb a ha => (h a ha b hb).symm⟩
      exact absurd same (apart.forall hother hrun here b hb a ha)

end Runs

/-! ## What flow does to an instrument -/

/-- What was filled of the orders of a side. -/
def Side.filled (side : Side) (fs : List Fill) : Int :=
  ((fs.filter fun f => f.order.side == side).map Fill.qty).sum

theorem Side.filled_append {side : Side} {fs fs' : List Fill} :
    side.filled (fs ++ fs') = side.filled fs + side.filled fs' := by
  simp only [filled, List.filter_append, List.map_append, List.sum_append]

theorem Side.filled_bare {side : Side} {fs : List Fill} :
    side.filled (fs.map Fill.bare) = side.filled fs := by
  simp only [filled, List.filter_map, List.map_map]
  rfl

theorem Side.filled_fill? {side : Side} {kind : Kind} {o : Order} {price flow : Int} :
    side.filled (o.fill? kind price flow).toList
      = if o.side = side then (o.intake flow).filled else 0 := by
  rw [Order.fill?]
  by_cases none : (o.intake flow).filled ≤ 0
  · have nothing : (o.intake flow).filled = 0 := le_antisymm none Order.intake_filled_nonneg
    rw [if_pos none, nothing, ite_self]
    rfl
  · rw [if_neg none, Option.toList_some, filled, List.filter_cons, List.filter_nil]
    by_cases same : o.side = side <;> simp [same, Order.advanceQueue]

/-- Flow fills of a side what it fills of the side's orders. -/
theorem Side.filled_fills {side : Side} {kind : Kind} {os : List Order} {price : Order → Int}
    {flow : Int} :
    side.filled (os.filterMap fun o => o.fill? kind (price o) flow)
      = (os.map fun o => if o.side = side then (o.intake flow).filled else 0).sum := by
  rw [List.filterMap_eq_flatMap_toList]
  induction os with
  | nil => rfl
  | cons o os ih =>
    rw [List.flatMap_cons, filled_append, filled_fill?, ih, List.map_cons, List.sum_cons]

namespace Instrument

variable {i i' i'' : Instrument} {o p : Order} {os : List Order} {key : Key} {keys : List Key}
  {side : Side} {price flow : Int} {fillPrice : Option Int} {R : Order → Order → Prop}

theorem mem_liveOrders : o ∈ i.liveOrders ↔ o ∈ i.orders ∧ 0 < o.qty := by
  simp [liveOrders, Order.isLive]

/-- Each two live orders of one side and one price, the older one first, are so related. -/
def EachPair (R : Order → Order → Prop) (i : Instrument) : Prop :=
  ∀ o ∈ i.liveOrders, ∀ p ∈ i.liveOrders, o.side = p.side → o.price = p.price → o.id < p.id → R o p

/-- The market is the same, and what was seen of it. -/
structure SameMarket (i i' : Instrument) : Prop where
  kind : i'.kind = i.kind
  ladder : i'.ladder = i.ladder
  marks : i'.marks = i.marks

theorem SameMarket.refl (i : Instrument) : SameMarket i i := ⟨rfl, rfl, rfl⟩

theorem SameMarket.trans (first : SameMarket i i') (second : SameMarket i' i'') : SameMarket i i'' :=
  ⟨second.kind.trans first.kind, second.ladder.trans first.ladder, second.marks.trans first.marks⟩

/-- A change of orders under their keys that keeps what is stable between two orders
of one side and one price. -/
structure Even (os : List Order) (g : Order → Order) : Prop where
  key : ∀ o, (g o).key = o.key
  side : ∀ o, (g o).side = o.side
  live : ∀ o, 0 < (g o).qty → 0 < o.qty
  pair : ∀ R, Order.Stable R → ∀ o ∈ os, ∀ p ∈ os, 0 < (g o).qty → 0 < (g p).qty →
    o.side = p.side → o.price = p.price → R o p → R (g o) (g p)

theorem Even.price_eq {g : Order → Order} (h : Even os g) (o : Order) : (g o).price = o.price :=
  congrArg Key.price (h.key o)

theorem Even.id_eq {g : Order → Order} (h : Even os g) (o : Order) : (g o).id = o.id :=
  congrArg Key.id (h.key o)

/-- What steps of market data do to an instrument's orders. -/
structure Evenly (i i' : Instrument) : Prop where
  kind : i'.kind = i.kind
  orders : ∃ g, i'.orders = i.orders.map g ∧ Even i.orders g

namespace Evenly

theorem of_orders (kind : i'.kind = i.kind) (same : i'.orders = i.orders) : Evenly i i' where
  kind := kind
  orders := ⟨id, by rw [same, List.map_id], fun _ => rfl, fun _ => rfl, fun _ h => h,
    fun _ _ _ _ _ _ _ _ _ _ h => h⟩

theorem refl (i : Instrument) : Evenly i i := .of_orders rfl rfl

theorem trans (first : Evenly i i') (second : Evenly i' i'') : Evenly i i'' where
  kind := second.kind.trans first.kind
  orders := by
    obtain ⟨g, after, even⟩ := first.orders
    obtain ⟨g', after', even'⟩ := second.orders
    refine ⟨g' ∘ g, by rw [after', after, List.map_map], ?_, ?_, ?_, ?_⟩
    · exact fun o => (even'.key (g o)).trans (even.key o)
    · exact fun o => (even'.side (g o)).trans (even.side o)
    · exact fun o h => even.live o (even'.live (g o) h)
    · intro R stable o ho p hp liveO liveP side price h
      have between := even.pair R stable o ho p hp (even'.live _ liveO) (even'.live _ liveP)
        side price h
      have ho' : g o ∈ i'.orders := after ▸ List.mem_map_of_mem ho
      have hp' : g p ∈ i'.orders := after ▸ List.mem_map_of_mem hp
      have side' : (g o).side = (g p).side := by rw [even.side, even.side, side]
      have price' : (g o).price = (g p).price := by rw [even.price_eq, even.price_eq, price]
      exact even'.pair R stable _ ho' _ hp' liveO liveP side' price' between

theorem sorted (h : Evenly i i') (sorted : Orders.Sorted i.orders) : Orders.Sorted i'.orders := by
  obtain ⟨g, after, even⟩ := h.orders
  rw [after]
  exact sorted.map even.key

/-- What is stable between the orders of every level stays so. -/
theorem eachPair (h : Evenly i i') (stable : Order.Stable R) (pairs : i.EachPair R) :
    i'.EachPair R := by
  obtain ⟨g, after, even⟩ := h.orders
  intro o ho p hp side price older
  obtain ⟨mem, liveO⟩ := mem_liveOrders.mp ho
  obtain ⟨mem', liveP⟩ := mem_liveOrders.mp hp
  rw [after] at mem mem'
  obtain ⟨o, hmem, rfl⟩ := List.mem_map.mp mem
  obtain ⟨p, hmem', rfl⟩ := List.mem_map.mp mem'
  rw [even.side, even.side] at side
  rw [even.price_eq, even.price_eq] at price
  rw [even.id_eq, even.id_eq] at older
  have before := pairs o (mem_liveOrders.mpr ⟨hmem, even.live o liveO⟩)
    p (mem_liveOrders.mpr ⟨hmem', even.live p liveP⟩) side price older
  exact even.pair R stable o hmem p hmem' liveO liveP side price before

end Evenly

/-! ## Flow through a level -/

/-- What flow does that reaches these orders of a side. -/
structure Reached (i : Instrument) (side : Side) (flow : Int) (os : List Order) (r : LevelFlow) :
    Prop where
  used : r.used = Order.deepest flow os
  filled : side.filled r.matched.fills = (os.map fun o => (o.intake flow).filled).sum
  other : ∀ s, s ≠ side → s.filled r.matched.fills = 0
  market : SameMarket i r.matched.instrument
  orders : r.matched.instrument.orders
    = i.orders.map fun o => if o.key ∈ os.map Order.key then o.flowed i.kind flow else o

/-- Flow that comes to orders of one side reaches them. -/
theorem Pours.reached {r : LevelFlow}
    (pours : i.Pours fillPrice (alike flow (os.map Order.key)) os r.matched)
    (used : r.used = Order.deepest flow os) (sided : ∀ o ∈ os, o.side = side) :
    i.Reached side flow os r := by
  have fills : r.matched.fills.map Fill.bare
      = os.filterMap fun o => o.fill? i.kind (fillPrice.getD o.price) flow := by
    rw [pours.fills]
    exact List.filterMap_congr fun o ho => by rw [alike_of_mem (List.mem_map_of_mem ho)]
  refine ⟨used, ?_, fun s ne => ?_, ?_, ?_⟩
  · rw [← Side.filled_bare, fills, Side.filled_fills]
    refine congrArg List.sum (List.map_congr_left fun o ho => if_pos (sided o ho))
  · rw [← Side.filled_bare, fills, Side.filled_fills]
    refine List.sum_eq_zero fun n hn => ?_
    obtain ⟨o, ho, rfl⟩ := List.mem_map.mp hn
    exact if_neg fun same => ne (same.symm.trans (sided o ho))
  · rw [pours.instrument]
    exact ⟨rfl, rfl, rfl⟩
  · rw [pours.instrument]
    refine List.map_congr_left fun o _ => ?_
    rw [alike]
    split
    · rfl
    · exact Order.flowed_zero

theorem reached_pop (flow : Int) (fillPrice : Option Int) (sorted : Orders.Sorted i.orders)
    (mem : o ∈ i.orders) :
    i.Reached o.side flow [o] (i.pop o.key flow (fillPrice.getD o.key.price)) := by
  obtain ⟨pours, used⟩ := pours_pop fillPrice flow sorted mem
  exact pours.reached used fun p hp => by rw [List.mem_singleton.mp hp]

namespace Reached

variable {r : LevelFlow}

theorem sorted (h : i.Reached side flow os r) (sorted : Orders.Sorted i.orders) :
    Orders.Sorted r.matched.instrument.orders := by
  rw [h.orders]
  apply sorted.map
  intro o
  split
  · exact Order.flowed_key
  · rfl

/-- Orders that were not reached stay as they are. -/
theorem mem_iff (h : i.Reached side flow os r) (rest : o.key ∉ os.map Order.key) :
    o ∈ r.matched.instrument.orders ↔ o ∈ i.orders := by
  rw [h.orders, List.mem_map]
  constructor
  · rintro ⟨p, hp, rfl⟩
    by_cases reached : p.key ∈ os.map Order.key
    · rw [if_pos reached, Order.flowed_key] at rest
      exact absurd reached rest
    · rw [if_neg reached]
      exact hp
  · exact fun hmem => ⟨o, hmem, if_neg rest⟩

end Reached

theorem reached_flowLevel (fillPrice : Option Int) (flow : Int) (sorted : Orders.Sorted i.orders)
    (mem : ∀ o ∈ os, o ∈ i.orders ∧ o.side = side) (nodup : (os.map Order.key).Nodup) :
    i.Reached side flow os (i.flowLevel fillPrice flow (os.map Order.key)) := by
  obtain ⟨pours, used⟩ :=
    pours_flowLevel fillPrice flow sorted (fun o ho => (mem o ho).1) nodup
  exact pours.reached used fun o ho => (mem o ho).2

/-! ## Whole levels -/

/-- Keys of live orders of a side; with an order they hold all that are live at its price. -/
structure Whole (i : Instrument) (side : Side) (keys : List Key) : Prop where
  nodup : keys.Nodup
  resting : ∀ key ∈ keys, ∃ o ∈ i.liveOrders, o.key = key ∧ o.side = side
  whole : ∀ o ∈ i.liveOrders, o.side = side → ∀ key ∈ keys, key.price = o.price → o.key ∈ keys

namespace Whole

/-- The orders behind the keys. -/
theorem exists_orders (h : i.Whole side keys) :
    ∃ os : List Order, keys = os.map Order.key ∧ ∀ o ∈ os, o ∈ i.liveOrders ∧ o.side = side := by
  refine Orders.exists_of_keys fun key hkey => ?_
  obtain ⟨o, live, same, hside⟩ := h.resting key hkey
  exact ⟨o, ⟨live, hside⟩, same⟩

/-- Keys stand for live orders of their side only. -/
theorem side_of_mem (h : i.Whole side keys) (sorted : Orders.Sorted i.orders) (mem : o ∈ i.orders)
    (hkey : o.key ∈ keys) : o.side = side ∧ 0 < o.qty := by
  obtain ⟨p, live, same, hside⟩ := h.resting o.key hkey
  obtain ⟨hp, pos⟩ := mem_liveOrders.mp live
  obtain rfl := sorted.eq_of_key hp mem same
  exact ⟨hside, pos⟩

/-- Whole levels stay so while nothing happens to their prices. -/
theorem congr (h : i.Whole side keys)
    (same : ∀ o : Order, o.side = side → (∃ key ∈ keys, key.price = o.price) →
      (o ∈ i'.orders ↔ o ∈ i.orders)) : i'.Whole side keys where
  nodup := h.nodup
  resting := by
    intro key hkey
    obtain ⟨o, live, rfl, hside⟩ := h.resting key hkey
    obtain ⟨mem, pos⟩ := mem_liveOrders.mp live
    exact ⟨o, mem_liveOrders.mpr ⟨(same o hside ⟨o.key, hkey, rfl⟩).mpr mem, pos⟩, rfl, hside⟩
  whole := by
    intro o live hside key hkey hprice
    obtain ⟨mem, pos⟩ := mem_liveOrders.mp live
    have before := (same o hside ⟨key, hkey, hprice⟩).mp mem
    exact h.whole o (mem_liveOrders.mpr ⟨before, pos⟩) hside key hkey hprice

/-- What is whole of a price is whole. -/
theorem group (h : i.Whole side keys) {ks : List Key} (nodup : ks.Nodup) {k : Key}
    (mem : ∀ key, key ∈ ks ↔ key ∈ keys ∧ key.price = k.price) : i.Whole side ks where
  nodup := nodup
  resting := fun key hkey => h.resting key ((mem key).mp hkey).1
  whole := by
    intro o live hside key hkey hprice
    obtain ⟨hmem, same⟩ := (mem key).mp hkey
    exact (mem o.key).mpr ⟨h.whole o live hside key hmem hprice, hprice.symm.trans same⟩

end Whole

/-- Flow that reaches whole levels is the same for all orders of a price. -/
theorem Reached.evenly {r : LevelFlow} (h : i.Reached side flow os r)
    (levels : i.Whole side (os.map Order.key)) (sorted : Orders.Sorted i.orders) :
    Evenly i r.matched.instrument where
  kind := h.market.kind
  orders := by
    have live : ∀ o : Order,
        0 < (if o.key ∈ os.map Order.key then o.flowed i.kind flow else o).qty → 0 < o.qty := by
      intro o
      split
      · exact Order.pos_of_flowed
      · exact id
    have together : ∀ o ∈ i.orders, ∀ p ∈ i.orders, 0 < p.qty → o.side = p.side →
        o.price = p.price → o.key ∈ os.map Order.key → p.key ∈ os.map Order.key := by
      intro o ho p hp pos hside hprice reached
      have here := (levels.side_of_mem sorted ho reached).1
      exact levels.whole p (mem_liveOrders.mpr ⟨hp, pos⟩) (hside.symm.trans here) o.key reached hprice
    refine ⟨_, h.orders, ?_, ?_, live, ?_⟩
    · intro o
      split
      · exact Order.flowed_key
      · rfl
    · intro o
      split
      · exact Order.flowed_side
      · rfl
    · intro R stable o ho p hp liveO liveP hside hprice related
      by_cases reached : o.key ∈ os.map Order.key
      · rw [if_pos reached, if_pos (together o ho p hp (live p liveP) hside hprice reached)]
        exact stable.flow i.kind flow related
      · have neither : p.key ∉ os.map Order.key := fun hit =>
          reached (together p hp o ho (live o liveO) hside.symm hprice.symm hit)
        rw [if_neg reached, if_neg neither]
        exact related

/-- Levels of other prices stay whole. -/
theorem Reached.whole {r : LevelFlow} (h : i.Reached side flow os r) (whole : i.Whole side keys)
    (apart : ∀ a ∈ os.map Order.key, ∀ b ∈ keys, a.price ≠ b.price) :
    r.matched.instrument.Whole side keys := by
  refine whole.congr ?_
  rintro o - ⟨key, hkey, hprice⟩
  exact h.mem_iff fun hit => apart o.key hit key hkey hprice.symm

/-- The orders of one price that flow reaches take no more than they use of it together. -/
theorem filled_le_deepest (flow : Int) (levels : i.Whole side (os.map Order.key))
    (live : ∀ o ∈ os, o ∈ i.liveOrders ∧ o.side = side)
    (level : ∀ a ∈ os.map Order.key, ∀ b ∈ os.map Order.key, a.price = b.price)
    (apart : i.EachPair Order.Apart) :
    (os.map fun o => (o.intake flow).filled).sum ≤ Order.deepest flow os := by
  refine Order.sum_filled_le ?_ fun o ho => (mem_liveOrders.mp (live o ho).1).2
  refine (List.pairwise_map.mp levels.nodup).imp_of_mem ?_
  intro o p ho hp ne
  obtain ⟨liveO, sideO⟩ := live o ho
  obtain ⟨liveP, sideP⟩ := live p hp
  have hside : o.side = p.side := sideO.trans sideP.symm
  have hprice : o.price = p.price :=
    level o.key (List.mem_map_of_mem ho) p.key (List.mem_map_of_mem hp)
  rcases lt_trichotomy o.id p.id with older | same | younger
  · exact apart o liveO p liveP hside hprice older
  · exact absurd (congrArg₂ Key.mk hprice same) ne
  · exact (apart p liveP o liveO hside.symm hprice.symm younger).symm

/-! ## Flow through levels -/

/-- What flow does that goes through levels of a side. -/
structure Spread (i : Instrument) (side : Side) (flow : Int) (keys : List Key) (m : Matched) : Prop where
  evenly : Evenly i m.instrument
  market : SameMarket i m.instrument
  rest : ∀ o : Order, o.key ∉ keys → (o ∈ m.instrument.orders ↔ o ∈ i.orders)
  other : ∀ s, s ≠ side → s.filled m.fills = 0
  bounded : i.EachPair Order.Apart → side.filled m.fills ≤ max flow 0

namespace Spread

variable {m : Matched}

theorem start (i : Instrument) (side : Side) (flow : Int) (keys : List Key) :
    i.Spread side flow keys (.start i) where
  evenly := .refl i
  market := .refl i
  rest := fun _ _ => Iff.rfl
  other := fun _ _ => rfl
  bounded := fun _ => le_max_right _ _

/-- Orders of the other side are out of the flow's reach. -/
theorem others (h : i.Spread side flow keys m) (whole : i.Whole side keys)
    (sorted : Orders.Sorted i.orders) (ne : o.side ≠ side) :
    o ∈ m.instrument.orders ↔ o ∈ i.orders := by
  by_cases hit : o.key ∈ keys
  · constructor
    · intro mem
      obtain ⟨g, after, even⟩ := h.evenly.orders
      rw [after] at mem
      obtain ⟨q, hq, rfl⟩ := List.mem_map.mp mem
      rw [even.key] at hit
      rw [even.side] at ne
      exact absurd (whole.side_of_mem sorted hq hit).1 ne
    · exact fun mem => absurd (whole.side_of_mem sorted mem hit).1 ne
  · exact h.rest o hit

/-- Whole levels of the other side stay whole. -/
theorem whole {s : Side} {ks : List Key} (h : i.Spread side flow keys m) (reached : i.Whole side keys)
    (sorted : Orders.Sorted i.orders) (ne : s ≠ side) (whole : i.Whole s ks) :
    m.instrument.Whole s ks :=
  whole.congr fun _ hside _ => h.others reached sorted (hside ▸ ne)

end Spread

theorem spread_flowLevels {levels : List (List Key)} (sorted : Orders.Sorted i.orders)
    (whole : ∀ keys ∈ levels, i.Whole side keys)
    (level : ∀ keys ∈ levels, ∀ a ∈ keys, ∀ b ∈ keys, a.price = b.price)
    (distinct : levels.Pairwise fun ks ls => ∀ a ∈ ks, ∀ b ∈ ls, a.price ≠ b.price) :
    i.Spread side flow levels.flatten (i.flowLevels fillPrice flow levels) := by
  induction levels generalizing i flow with
  | nil => exact .start i side flow _
  | cons keys levels ih =>
    simp only [flowLevels]
    split
    · exact .start i side flow _
    next pos =>
      obtain ⟨fresh, distinctRest⟩ := List.pairwise_cons.mp distinct
      have wholeHere := whole keys List.mem_cons_self
      obtain ⟨os, rfl, live⟩ := wholeHere.exists_orders
      have first := reached_flowLevel fillPrice flow sorted
        (fun o ho => ⟨(mem_liveOrders.mp (live o ho).1).1, (live o ho).2⟩) wholeHere.nodup
      have wholeThen : ∀ ks ∈ levels,
          (i.flowLevel fillPrice flow (os.map Order.key)).matched.instrument.Whole side ks :=
        fun ks hks => first.whole (whole ks (List.mem_cons_of_mem _ hks)) (fresh ks hks)
      have evenly := first.evenly wholeHere sorted
      have rest : Spread _ side (flow - (i.flowLevel fillPrice flow (os.map Order.key)).used) _ _ :=
        ih (evenly.sorted sorted) wholeThen
          (fun ks hks => level ks (List.mem_cons_of_mem _ hks)) distinctRest
      refine ⟨evenly.trans rest.evenly, first.market.trans rest.market, ?_, ?_, ?_⟩
      · intro o hkey
        rw [List.flatten_cons, List.mem_append, not_or] at hkey
        exact (rest.rest o hkey.2).trans (first.mem_iff hkey.1)
      · intro s ne
        refine Side.filled_append.trans ?_
        rw [first.other s ne, rest.other s ne, add_zero]
      · intro apart
        have here := filled_le_deepest flow wholeHere live (level _ List.mem_cons_self) apart
        have below := rest.bounded (evenly.eachPair Order.stable_apart apart)
        have limit := @Order.deepest_le flow os
        refine Side.filled_append.trans_le ?_
        rw [first.filled]
        refine (add_le_add here below).trans ?_
        rw [first.used]
        omega

/-- The groups of a queue that is sorted by price. -/
structure Layered (i : Instrument) (side : Side) (keys : List Key) (levels : List (List Key)) :
    Prop where
  flatten : levels.flatten = keys
  whole : ∀ ks ∈ levels, i.Whole side ks
  level : ∀ ks ∈ levels, ∀ a ∈ ks, ∀ b ∈ ks, a.price = b.price
  distinct : levels.Pairwise fun ks ls => ∀ a ∈ ks, ∀ b ∈ ls, a.price ≠ b.price

theorem Whole.layered (whole : i.Whole side keys)
    (inTurn : keys.Pairwise fun a b => side.priority a.price ≤ side.priority b.price) :
    i.Layered side keys (keys.splitBy fun a b => a.price == b.price) := by
  have samePrice : ∀ a b : Key, side.priority a.price = side.priority b.price ↔ a.price = b.price := by
    intro a b
    cases side <;> simp [Side.priority]
  have split : (keys.splitBy fun a b => a.price == b.price)
      = keys.splitBy fun a b => side.priority a.price == side.priority b.price := by
    congr 1
    funext a b
    rw [Bool.eq_iff_iff, beq_iff_eq, beq_iff_eq]
    exact (samePrice a b).symm
  obtain ⟨distinct, groups⟩ := runs_of_sorted inTurn
  have flat := List.flatten_splitBy
    (fun a b : Key => side.priority a.price == side.priority b.price) keys
  rw [split]
  refine ⟨flat, ?_, ?_, ?_⟩
  · intro group hgroup
    obtain ⟨a, -, mem⟩ := groups group hgroup
    have part : group.Sublist keys := flat ▸ List.sublist_flatten_of_mem hgroup
    exact whole.group (part.nodup whole.nodup) fun key => (mem key).trans (by rw [samePrice])
  · intro group hgroup a ha b hb
    obtain ⟨c, -, mem⟩ := groups group hgroup
    exact (samePrice a b).mp (((mem a).mp ha).2.trans ((mem b).mp hb).2.symm)
  · exact distinct.imp fun h a ha b hb same => h a ha b hb ((samePrice a b).mpr same)

/-- Flow through a queue that is sorted by price is bounded and even. -/
theorem spread_flowThrough (flow : Int) (fillPrice : Option Int) (sorted : Orders.Sorted i.orders)
    (whole : i.Whole side keys)
    (inTurn : keys.Pairwise fun a b => side.priority a.price ≤ side.priority b.price) :
    i.Spread side flow keys (i.flowThrough keys flow fillPrice) := by
  have layered := whole.layered inTurn
  have spread : i.Spread side flow _ (i.flowThrough keys flow fillPrice) :=
    spread_flowLevels sorted layered.whole layered.level layered.distinct
  rwa [layered.flatten] at spread

/-! ## Queues -/

/-- A queue of the orders of a side that are picked by their price is made of whole levels. -/
theorem whole_queue (side : Side) (pick : Order → Bool) (le : Order → Order → Bool)
    (sorted : Orders.Sorted i.orders)
    (byPrice : ∀ o p : Order, o.side = p.side → o.price = p.price → pick o = pick p) :
    i.Whole side
      (((i.liveOrders.filter fun o => o.side == side && pick o).mergeSort le).map Order.key) := by
  have mem : ∀ o, o ∈ (i.liveOrders.filter fun o => o.side == side && pick o).mergeSort le
      ↔ o ∈ i.liveOrders ∧ o.side = side ∧ pick o = true := by
    intro o
    rw [List.mem_mergeSort, List.mem_filter, Bool.and_eq_true, beq_iff_eq]
  refine ⟨?_, ?_, ?_⟩
  · rw [((List.mergeSort_perm _ le).map Order.key).nodup_iff]
    have live : Orders.Sorted i.liveOrders := sorted.filter
    exact live.filter.nodup
  · intro key hkey
    obtain ⟨o, ho, rfl⟩ := List.mem_map.mp hkey
    obtain ⟨live, hside, -⟩ := (mem o).mp ho
    exact ⟨o, live, rfl, hside⟩
  · intro o live hside key hkey hprice
    obtain ⟨p, hp, rfl⟩ := List.mem_map.mp hkey
    obtain ⟨-, hside', picked⟩ := (mem p).mp hp
    refine List.mem_map_of_mem ((mem o).mpr ⟨live, hside, ?_⟩)
    rw [byPrice o p (hside.trans hside'.symm) hprice.symm]
    exact picked

/-- A queue in an order that goes by price first is sorted by price. -/
theorem queue_inTurn {le : Order → Order → Bool}
    (trans : ∀ a b c, le a b = true → le b c = true → le a c = true)
    (total : ∀ a b, (le a b || le b a) = true)
    (byPrice : ∀ a b, le a b = true → side.priority a.price ≤ side.priority b.price) :
    ((os.mergeSort le).map Order.key).Pairwise
      fun a b => side.priority a.price ≤ side.priority b.price :=
  List.pairwise_map.mpr ((List.pairwise_mergeSort trans total os).imp fun h => byPrice _ _ h)

theorem servedBefore_inTurn :
    ((os.mergeSort (servedBefore side)).map Order.key).Pairwise
      fun a b => side.priority a.price ≤ side.priority b.price := by
  refine queue_inTurn ?_ ?_ ?_
  · intro a b c
    simp only [servedBefore, decide_eq_true_eq]
    omega
  · intro a b
    simp only [servedBefore, Bool.or_eq_true, decide_eq_true_eq]
    omega
  · intro a b
    simp only [servedBefore, decide_eq_true_eq]
    omega

theorem reachedBefore_inTurn :
    ((os.mergeSort (reachedBefore side)).map Order.key).Pairwise
      fun a b => side.priority a.price ≤ side.priority b.price := by
  refine queue_inTurn ?_ ?_ ?_
  · intro a b c
    simp only [reachedBefore, decide_eq_true_eq]
    omega
  · intro a b
    simp only [reachedBefore, Bool.or_eq_true, decide_eq_true_eq]
    omega
  · intro a b
    simp only [reachedBefore, decide_eq_true_eq]
    omega

theorem whole_printQueue (print : Level) (initiator : Option Side) (side : Side)
    (sorted : Orders.Sorted i.orders) :
    i.Whole side (i.printQueue print initiator side) := by
  refine whole_queue side _ _ sorted fun o p hside hprice => ?_
  simp only [printReaches, hside, hprice]

end Instrument

end TradingDesk
