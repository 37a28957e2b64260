-- SUMMARY: What flow does to an instrument that comes to some of its orders.
import TradingDesk.Proofs.Queues

/-!
# Pours

Flow that comes to an order changes nothing but that order and what is idle, so what flow
does to an instrument is told by how much of it comes to each key. `Pours` says so of the
instrument and of the fills, whose reports of amounts below zero are left out: these alone
depend on what was filled before.
-/

namespace TradingDesk

/-- The fill without the amounts that were below zero after it. -/
def Fill.bare (f : Fill) : Fill := { f with deficits := [] }

namespace Order

variable {kind : Kind} {o : Order} {price flow : Int}

/-- What is bought of an order that flow comes to. -/
def bought (o : Order) (flow : Int) : Int :=
  match o.side with
  | .buy => (o.intake flow).filled
  | .sell => 0

/-- The fill of an order that flow comes to, if there is one. -/
def fill? (kind : Kind) (price flow : Int) (o : Order) : Option Fill :=
  let qty := (o.intake flow).filled
  if qty ≤ 0 then none
  else some {
    order := o.advanceQueue (o.intake flow)
    price, qty
    fee := kind.fee o.side (price * qty)
    release := o.freed kind qty
    deficits := [] }

theorem intake_zero : o.intake 0 = ⟨0, 0, 0⟩ := by
  simp only [intake, Intake.mk.injEq]
  omega

theorem flowed_zero : o.flowed kind 0 = o := by
  rw [flowed, intake_zero, if_pos le_rfl, advanceQueue, sub_zero, sub_zero]

theorem bought_zero : o.bought 0 = 0 := by
  rw [bought, intake_zero]
  cases o.side <;> rfl

theorem fill?_zero : o.fill? kind price 0 = none := by
  rw [fill?, intake_zero]
  exact if_pos le_rfl

end Order

namespace Instrument

variable {i : Instrument} {o : Order} {os os' : List Order} {left left' : Key → Int}
  {fillPrice : Option Int} {m m' : Matched}

/-- The instrument after each order has had as much flow as comes to its key. -/
def poured (i : Instrument) (left : Key → Int) : Instrument :=
  { i with
    idle := i.idle + (i.orders.map fun o => o.bought (left o.key)).sum
    orders := i.orders.map fun o => o.flowed i.kind (left o.key) }

theorem poured_zero : i.poured (fun _ => 0) = i := by
  simp [poured, Order.bought_zero, Order.flowed_zero]

/-- Flow that comes to different keys may as well come at once. -/
theorem poured_poured (apart : ∀ key, left key = 0 ∨ left' key = 0) :
    (i.poured left).poured left' = i.poured fun key => left key + left' key := by
  have orders : ∀ o : Order, (o.flowed i.kind (left o.key)).flowed i.kind (left' o.key)
      = o.flowed i.kind (left o.key + left' o.key) := by
    intro o
    rcases apart o.key with none | none
    · rw [none, Order.flowed_zero, zero_add]
    · rw [none, Order.flowed_zero, add_zero]
  have bought : ∀ o : Order,
      o.bought (left o.key) + (o.flowed i.kind (left o.key)).bought (left' o.key)
        = o.bought (left o.key + left' o.key) := by
    intro o
    rcases apart o.key with none | none
    · rw [none, Order.flowed_zero, Order.bought_zero, zero_add, zero_add]
    · rw [none, Order.bought_zero, add_zero, add_zero]
  simp only [poured, List.map_map, Function.comp_def, Order.flowed_key, orders, ← bought,
    List.sum_map_add, add_assoc]

theorem sorted_poured (sorted : Orders.Sorted i.orders) : Orders.Sorted (i.poured left).orders :=
  sorted.map fun _ => Order.flowed_key

/-- An order to which no flow comes stays as it is. -/
theorem mem_poured (none : left o.key = 0) : o ∈ (i.poured left).orders ↔ o ∈ i.orders := by
  simp only [poured, List.mem_map]
  constructor
  · rintro ⟨p, hp, rfl⟩
    rw [Order.flowed_key] at none
    rw [none, Order.flowed_zero]
    exact hp
  · intro ho
    refine ⟨o, ho, ?_⟩
    rw [none, Order.flowed_zero]

/-- What flow comes to that pours into these orders of an instrument, in turn. -/
structure Pours (i : Instrument) (fillPrice : Option Int) (left : Key → Int) (os : List Order)
    (m : Matched) : Prop where
  instrument : m.instrument = i.poured left
  fills : m.fills.map Fill.bare
    = os.filterMap fun o => o.fill? i.kind (fillPrice.getD o.price) (left o.key)

namespace Pours

theorem start (i : Instrument) (fillPrice : Option Int) (os : List Order) :
    i.Pours fillPrice (fun _ => 0) os (.start i) where
  instrument := poured_zero.symm
  fills := by simp [Order.fill?_zero, Matched.start]

theorem andThen (first : i.Pours fillPrice left os m)
    (next : m.instrument.Pours fillPrice left' os' m')
    (here : ∀ o ∈ os, left' o.key = 0) (later : ∀ o ∈ os', left o.key = 0)
    (apart : ∀ key, left key = 0 ∨ left' key = 0) :
    i.Pours fillPrice (fun key => left key + left' key) (os ++ os')
      ⟨m'.instrument, m.fills ++ m'.fills⟩ where
  instrument := by
    rw [next.instrument, first.instrument]
    exact poured_poured apart
  fills := by
    have kind : m.instrument.kind = i.kind := by
      rw [first.instrument]
      rfl
    rw [List.map_append, first.fills, next.fills, kind, List.filterMap_append]
    congr 1
    · exact List.filterMap_congr fun o ho => by rw [here o ho, add_zero]
    · exact List.filterMap_congr fun o ho => by rw [later o ho, zero_add]

end Pours

/-! ## The flow of a level -/

/-- The same flow for all of some keys. -/
def alike (flow : Int) (keys : List Key) (key : Key) : Int := if key ∈ keys then flow else 0

variable {flow : Int}

theorem alike_of_mem {keys : List Key} {key : Key} (mem : key ∈ keys) : alike flow keys key = flow :=
  if_pos mem

theorem alike_of_notMem {keys : List Key} {key : Key} (out : key ∉ keys) : alike flow keys key = 0 :=
  if_neg out

theorem alike_cons {keys : List Key} {key : Key} (fresh : key ∉ keys) :
    (fun k => alike flow [key] k + alike flow keys k) = alike flow (key :: keys) := by
  funext k
  by_cases here : k = key
  · subst here
    rw [alike_of_mem List.mem_cons_self, alike_of_mem List.mem_cons_self, alike_of_notMem fresh,
      add_zero]
  · simp only [alike, List.mem_cons, List.not_mem_nil, here, or_false, false_or, if_false, zero_add]

/-- To change what has the key of an order is to change the order. -/
theorem update_key {f : Order → Order} (sorted : Orders.Sorted i.orders) (mem : o ∈ i.orders) :
    Orders.update o.key f i.orders = i.orders.map fun p => if p.key = o.key then f o else p := by
  refine List.map_congr_left fun p hp => ?_
  simp only [beq_iff_eq]
  split
  next same => rw [sorted.eq_of_key hp mem same]
  next => rfl

theorem poured_one (sorted : Orders.Sorted i.orders) (mem : o ∈ i.orders) :
    i.poured (alike flow [o.key]) = { i with
      idle := i.idle + o.bought flow
      orders := i.orders.map fun p => if p.key = o.key then o.flowed i.kind flow else p } := by
  have others : ∀ p, p ≠ o → p ∈ i.orders → p.bought (alike flow [o.key] p.key) = 0 := by
    intro p ne hp
    have out : p.key ∉ [o.key] := fun same =>
      ne (sorted.eq_of_key hp mem (List.mem_singleton.mp same))
    rw [alike_of_notMem out, Order.bought_zero]
  have once : i.orders.count o = 1 := List.count_eq_one_of_mem sorted.nodup.of_map mem
  have idle : (i.orders.map fun p => p.bought (alike flow [o.key] p.key)).sum = o.bought flow := by
    rw [List.sum_map_eq_nsmul_single o _ others, once, one_nsmul,
      alike_of_mem List.mem_cons_self]
  have orders : (i.orders.map fun p => p.flowed i.kind (alike flow [o.key] p.key))
      = i.orders.map fun p => if p.key = o.key then o.flowed i.kind flow else p := by
    refine List.map_congr_left fun p hp => ?_
    split
    next same =>
      rw [sorted.eq_of_key hp mem same, alike_of_mem List.mem_cons_self]
    next ne =>
      rw [alike_of_notMem (mt List.mem_singleton.mp ne), Order.flowed_zero]
  rw [poured, idle, orders]

theorem pours_pop (fillPrice : Option Int) (flow : Int) (sorted : Orders.Sorted i.orders)
    (mem : o ∈ i.orders) :
    i.Pours fillPrice (alike flow [o.key]) [o] (i.pop o.key flow (fillPrice.getD o.key.price)).matched
      ∧ (i.pop o.key flow (fillPrice.getD o.key.price)).used = Order.deepest flow [o] := by
  have found : Orders.find? o.key i.orders = some o := (Orders.find?_eq_some sorted).mpr ⟨mem, rfl⟩
  have fills : ([o].filterMap fun p =>
      p.fill? i.kind (fillPrice.getD p.price) (alike flow [o.key] p.key))
        = (o.fill? i.kind (fillPrice.getD o.price) flow).toList := by
    simp only [List.filterMap_cons, List.filterMap_nil, alike_of_mem List.mem_cons_self]
    cases o.fill? i.kind (fillPrice.getD o.price) flow <;> rfl
  have limit : (o.intake flow).filled ≤ max o.qty 0 := min_le_right _ _
  simp only [pop, found]
  by_cases none : (o.intake flow).filled ≤ 0
  · have noFill : fill { i with orders := Orders.update o.key (·.advanceQueue (o.intake flow)) i.orders }
        (o.advanceQueue (o.intake flow)) (fillPrice.getD o.key.price) (o.intake flow).filled = .none := by
      simp only [fill, if_pos ((min_le_left _ _).trans none)]
    have nothing : (o.intake flow).filled = 0 := le_antisymm none Order.intake_filled_nonneg
    have idle : o.bought flow = 0 := by
      rw [Order.bought, nothing]
      cases o.side <;> rfl
    have flowed : o.flowed i.kind flow = o.advanceQueue (o.intake flow) := if_pos none
    simp only [noFill]
    refine ⟨⟨?_, ?_⟩, Order.deepest_singleton.symm⟩
    · rw [poured_one sorted mem, idle, add_zero, flowed,
        ← update_key (f := fun p => p.advanceQueue (o.intake flow)) sorted mem]
      rfl
    · rw [fills, Order.fill?, if_pos none]
      rfl
  · have n : min (o.intake flow).filled (o.advanceQueue (o.intake flow)).qty = (o.intake flow).filled :=
      min_eq_left (by change _ ≤ o.qty; omega)
    have flowed : o.flowed i.kind flow
        = (o.advanceQueue (o.intake flow)).shrink i.kind (o.intake flow).filled := if_neg none
    have orders : Orders.update o.key (·.shrink i.kind (o.intake flow).filled)
        (Orders.update o.key (·.advanceQueue (o.intake flow)) i.orders)
          = i.orders.map fun p => if p.key = o.key then o.flowed i.kind flow else p := by
      have advanced : ∀ p : Order, (p.advanceQueue (o.intake flow)).key = p.key := fun _ => rfl
      rw [Orders.update_update advanced, update_key sorted mem, flowed]
    simp only [fill, n, if_neg none]
    refine ⟨⟨?_, ?_⟩, Order.deepest_singleton.symm⟩
    · rw [poured_one sorted mem, ← orders]
      cases side : o.side <;> simp [side, Order.advanceQueue, Order.bought, Order.key]
    · rw [fills, Order.fill?, if_neg none]
      rfl

/-- Flow that comes to a level comes to each of its orders. -/
theorem pours_flowLevel (fillPrice : Option Int) (flow : Int) (sorted : Orders.Sorted i.orders)
    (mem : ∀ o ∈ os, o ∈ i.orders) (nodup : (os.map Order.key).Nodup) :
    i.Pours fillPrice (alike flow (os.map Order.key)) os
        (i.flowLevel fillPrice flow (os.map Order.key)).matched
      ∧ (i.flowLevel fillPrice flow (os.map Order.key)).used = Order.deepest flow os := by
  induction os generalizing i with
  | nil =>
    have none : alike flow [] = fun _ => 0 := rfl
    exact ⟨none ▸ .start i fillPrice [], rfl⟩
  | cons o os ih =>
    obtain ⟨fresh, nodup⟩ := List.nodup_cons.mp nodup
    obtain ⟨memO, mem⟩ := List.forall_mem_cons.mp mem
    obtain ⟨first, used⟩ := pours_pop fillPrice flow sorted memO
    have outside : ∀ p ∈ os, alike flow [o.key] p.key = 0 := fun p hp =>
      alike_of_notMem fun same => fresh (List.mem_singleton.mp same ▸ List.mem_map_of_mem hp)
    have apart : ∀ key, alike flow [o.key] key = 0 ∨ alike flow (os.map Order.key) key = 0 := by
      intro key
      by_cases here : key = o.key
      · exact .inr (alike_of_notMem (here ▸ fresh))
      · exact .inl (alike_of_notMem (mt List.mem_singleton.mp here))
    obtain ⟨rest, restUsed⟩ := @ih
      (i.pop o.key flow (fillPrice.getD o.key.price)).matched.instrument
      (first.instrument ▸ sorted_poured sorted)
      (fun p hp => first.instrument ▸ (mem_poured (outside p hp)).mpr (mem p hp)) nodup
    refine ⟨alike_cons fresh ▸ first.andThen rest ?_ outside apart, ?_⟩
    · rintro p hp
      rw [List.mem_singleton.mp hp]
      exact alike_of_notMem fresh
    · change max _ _ = _
      rw [used, restUsed, Order.deepest_cons, Order.deepest_cons, max_assoc]
      exact congrArg (max _) (max_eq_right Order.deepest_nonneg)

end Instrument

end TradingDesk
