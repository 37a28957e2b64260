-- SUMMARY: What the cancels of a request make of a simulated book, order by order.
import TradingDesk.Proofs.Ranks
import TradingDesk.Proofs.Reachability
import TradingDesk.Proofs.Services

/-!
# Cancels

A plan for cancels is made of the orders as they are before it is carried out, but each
cancel closes the ranks behind it and so changes orders that are canceled next. It changes
their places only: what an order sets free does not depend on its place. So the orders after
all cancels can be told from the plan, each order's from its own part of it.

The plan for a level takes the newest orders first. An order that is still open then is older
than all that were canceled before it, or was the last of them itself, and keeps its place.
-/

namespace TradingDesk

/-! ## Orders -/

namespace Order

variable {o k : Order} {kind : Kind} {n : Int}

theorem shrink_aheadOthers : (o.shrink kind n).aheadOthers = o.aheadOthers := by
  unfold shrink
  split <;> rfl

theorem shrink_aheadMine : (o.shrink kind n).aheadMine = o.aheadMine := by
  unfold shrink
  split <;> rfl

end Order

namespace Instrument

variable {i : Instrument} {kind : Kind} {o k : Order} {n : Int} {plan plan' : List (Order × Int)}
  {side : Side} {price qty : Int}

/-- The order after the cancels of a plan, in turn. -/
def closedBy (kind : Kind) (plan : List (Order × Int)) (o : Order) : Order :=
  plan.foldl (fun o p => closed kind p.1 p.2 o) o

theorem closedBy_append :
    closedBy kind (plan ++ plan') o = closedBy kind plan' (closedBy kind plan o) :=
  List.foldl_append

theorem closedBy_key : (closedBy kind plan o).key = o.key := by
  induction plan generalizing o with
  | nil => rfl
  | cons p plan ih => exact ih.trans closed_key

theorem closedBy_side : (closedBy kind plan o).side = o.side := by
  induction plan generalizing o with
  | nil => rfl
  | cons p plan ih => exact ih.trans closed_side

theorem closedBy_of_fixed (fixed : ∀ p ∈ plan, closed kind p.1 p.2 o = o) :
    closedBy kind plan o = o := by
  induction plan with
  | nil => rfl
  | cons p plan ih =>
    obtain ⟨here, later⟩ := List.forall_mem_cons.mp fixed
    change closedBy kind plan (closed kind p.1 p.2 o) = o
    rw [here, ih later]

/-! ### The account

Closing ranks is no matter of the account. -/

theorem bare_closed_of_ne (ne : o.key ≠ k.key) : (closed kind k n o).bare = o.bare := by
  unfold closed
  rw [if_neg ne]
  split <;> rfl

theorem bare_closed_of_key (same : o.key = k.key) :
    (closed kind k n o).bare = o.bare.shrink kind n := by
  unfold closed
  rw [if_pos same, Order.bare_shrink]

/-- What is not in the plan keeps all that is open. -/
theorem bare_closedBy_of_notMem (apart : ∀ p ∈ plan, o.key ≠ p.1.key) :
    (closedBy kind plan o).bare = o.bare := by
  induction plan generalizing o with
  | nil => rfl
  | cons p plan ih =>
    obtain ⟨here, later⟩ := List.forall_mem_cons.mp apart
    have rest : ∀ q ∈ plan, (closed kind p.1 p.2 o).key ≠ q.1.key := by
      rw [closed_key]
      exact later
    exact (ih rest).trans (bare_closed_of_ne here)

/-- What is in the plan loses its part. -/
theorem bare_closedBy_of_mem (distinct : (plan.map fun p => p.1.key).Nodup) (mem : (k, n) ∈ plan)
    (same : o.key = k.key) : (closedBy kind plan o).bare = o.bare.shrink kind n := by
  induction plan generalizing o with
  | nil => cases mem
  | cons p plan ih =>
    obtain ⟨apart, distinct⟩ := List.nodup_cons.mp distinct
    rcases List.mem_cons.mp mem with rfl | mem
    · have rest : ∀ q ∈ plan, (closed kind k n o).key ≠ q.1.key := by
        rw [closed_key, same]
        exact fun q hq keys => apart (List.mem_map.mpr ⟨q, hq, keys.symm⟩)
      exact (bare_closedBy_of_notMem rest).trans (bare_closed_of_key same)
    · have ne : o.key ≠ p.1.key := by
        rw [same]
        exact fun keys => apart (List.mem_map.mpr ⟨(k, n), mem, keys⟩)
      rw [← bare_closed_of_ne ne]
      exact ih distinct mem (closed_key.trans same)

theorem qty_closedBy_of_mem (distinct : (plan.map fun p => p.1.key).Nodup) (mem : (k, n) ∈ plan)
    (same : o.key = k.key) : (closedBy kind plan o).qty = o.qty - n := by
  have bare : (closedBy kind plan o).bare.qty = (o.bare.shrink kind n).qty :=
    congrArg Order.qty (bare_closedBy_of_mem distinct mem same)
  exact bare.trans Order.shrink_qty

/-- An order that is not open is not in a plan. -/
theorem bare_closedBy_exhausted (hp : i.Plan plan) (sorted : Orders.Sorted i.orders)
    (ho : o ∈ i.orders) (exhausted : o.qty ≤ 0) : (closedBy kind plan o).bare = o.bare := by
  refine bare_closedBy_of_notMem fun p mem keys => ?_
  obtain ⟨pos, le⟩ := hp.parts p mem
  rw [sorted.eq_of_key ho (hp.resting p mem) keys] at exhausted
  exact not_le.mpr (pos.trans_le le) exhausted

theorem qty_closedBy_exhausted (hp : i.Plan plan) (sorted : Orders.Sorted i.orders)
    (ho : o ∈ i.orders) (exhausted : o.qty ≤ 0) : (closedBy kind plan o).qty = o.qty :=
  (congrArg Order.qty (bare_closedBy_exhausted hp sorted ho exhausted) :
    (closedBy kind plan o).bare.qty = o.bare.qty)

/-- The instrument after the cancels of a plan. -/
def afterCancels (i : Instrument) (plan : List (Order × Int)) : Instrument :=
  { i with
    orders := i.orders.map (closedBy i.kind plan)
    idle := i.idle + (plan.map fun p => p.1.returned p.2).sum }

theorem afterCancels_nil : i.afterCancels [] = i := by
  have same : i.orders.map (closedBy i.kind []) = i.orders := List.map_id _
  rw [afterCancels, same, List.map_nil, List.sum_nil, add_zero]

theorem afterCancels_append :
    i.afterCancels (plan ++ plan') = (i.afterCancels plan).afterCancels plan' := by
  have orders : (i.orders.map (closedBy i.kind plan)).map (closedBy i.kind plan')
      = i.orders.map (closedBy i.kind (plan ++ plan')) := by
    rw [List.map_map]
    exact List.map_congr_left fun o _ => closedBy_append.symm
  simp only [afterCancels, orders, List.map_append, List.sum_append, add_assoc]

theorem closeRanks_withdrawn :
    (i.withdrawn o n).closeRanks o.side o.key n = i.afterCancels [(o, n)] := by
  have orders : ((i.withdrawn o n).closeRanks o.side o.key n).orders
      = i.orders.map (closedBy i.kind [(o, n)]) := closeRanks_shrinkOrder
  have idle : i.idle + o.returned n = i.idle + ([(o, n)].map fun p => p.1.returned p.2).sum := by
    rw [List.map_cons, List.map_nil, List.sum_singleton]
  rw [afterCancels, ← orders, ← idle]
  rfl

/-- Whether an order rests in an instrument, in whatever place. -/
def Rests (i : Instrument) (k : Order) : Prop :=
  ∃ o, Orders.find? k.key i.orders = some o ∧ o.bare = k.bare

/-- Another order loses nothing but its place. -/
theorem Rests.afterCancels (h : i.Rests o) (ne : o.key ≠ k.key) :
    (i.afterCancels [(k, n)]).Rests o := by
  obtain ⟨q, resting, same⟩ := h
  refine ⟨closed i.kind k n q, ?_, ?_⟩
  · exact (Orders.find?_map fun _ => closedBy_key).trans (congrArg (Option.map _) resting)
  · refine (bare_closed_of_ne ?_).trans same
    rw [Orders.key_of_find? resting]
    exact ne

end Instrument

/-! ## Executing a plan -/

theorem Book.WellFormed.set_self {b : Book} {i : Instrument} (hb : b.WellFormed)
    (found : b.find? i.code = some i) : b.set i = b := by
  have same : (b.set i).instruments.map id = b.instruments.map id := hb.map_set found rfl
  rw [List.map_id, List.map_id] at same
  exact congrArg (fun instruments => { b with instruments }) same

namespace Simulation

variable {s : Simulation} {i : Instrument} {o k : Order} {n : Int} {plan : List (Order × Int)}

/-- The simulation after the cancels of a plan for one of its instruments. -/
def afterCancels (s : Simulation) (i : Instrument) (plan : List (Order × Int)) : Simulation :=
  { s with
    book := { s.book.set (i.afterCancels plan) with
      balance := s.book.balance + (plan.map fun p => p.1.freed i.kind p.2).sum } }

/-- An order is canceled in whatever place it is. -/
theorem cancel_afterCancels (found : s.book.find? i.code = some i) (rests : i.Rests k)
    (pos : 0 < n) (le : n ≤ k.qty) :
    (s.cancel i.code k.key n).result = .ok ()
      ∧ (s.cancel i.code k.key n).state = s.afterCancels i [(k, n)] := by
  obtain ⟨o, resting, same⟩ := rests
  have key : o.key = k.key := Orders.key_of_find? resting
  have qty : o.qty = k.qty := (congrArg Order.qty same : o.bare.qty = k.bare.qty)
  obtain ⟨w, withdrawn, wqty, release⟩ := Instrument.withdraw_eq (i := i) pos (qty.symm ▸ le)
  rw [← key] at resting ⊢
  obtain ⟨result, state⟩ := cancel_withdrawn found resting withdrawn
  refine ⟨result, ?_⟩
  have here : (s.cancel i.code o.key n).state = s.afterCancels i [(o, n)] := by
    rw [state, wqty, release, Instrument.closeRanks_withdrawn, afterCancels, List.map_cons,
      List.map_nil, List.sum_singleton]
  change _ = s.afterCancels i [(k.bare, n)]
  rw [here, ← same]
  rfl

theorem afterCancels_append (plan plan' : List (Order × Int)) :
    s.afterCancels i (plan ++ plan')
      = (s.afterCancels i plan).afterCancels (i.afterCancels plan) plan' := by
  have book : (s.book.set (i.afterCancels plan)).set ((i.afterCancels plan).afterCancels plan')
      = s.book.set (i.afterCancels (plan ++ plan')) := by
    rw [Instrument.afterCancels_append]
    exact Book.set_set rfl
  have balance : s.book.balance + (plan.map fun p : Order × Int => p.1.freed i.kind p.2).sum
        + (plan'.map fun p => p.1.freed i.kind p.2).sum
      = s.book.balance + ((plan ++ plan').map fun p => p.1.freed i.kind p.2).sum := by
    rw [List.map_append, List.sum_append, add_assoc]
  exact (congrArg₂ (fun (book : Book) (balance : Int) =>
    { s with book := { book with balance } }) book balance).symm

/-- The cancels of a plan are all carried out. It is enough that its orders rest in whatever
places, because the cancels before them change those. -/
theorem executes_cancels_of_rests (hb : s.book.WellFormed) (found : s.book.find? i.code = some i)
    (rests : ∀ p ∈ plan, i.Rests p.1) (parts : ∀ p ∈ plan, 0 < p.2 ∧ p.2 ≤ p.1.qty)
    (distinct : (plan.map fun p => p.1.key).Nodup) :
    Executes s (i.cancels plan) (s.afterCancels i plan) := by
  induction plan generalizing s i with
  | nil =>
    have same : s.afterCancels i [] = s := by
      rw [afterCancels, Instrument.afterCancels_nil, hb.set_self found, List.map_nil, List.sum_nil,
        add_zero]
    rw [same]
    exact .nil s
  | cons p plan ih =>
    obtain ⟨k, n⟩ := p
    obtain ⟨here, later⟩ := List.forall_mem_cons.mp rests
    obtain ⟨⟨pos, le⟩, partsLater⟩ := List.forall_mem_cons.mp parts
    obtain ⟨apart, distinct⟩ := List.nodup_cons.mp distinct
    obtain ⟨result, state⟩ := cancel_afterCancels found here pos le
    have hbThen : (s.afterCancels i [(k, n)]).book.WellFormed := state ▸ wellFormed_cancel hb ..
    have foundThen : (s.afterCancels i [(k, n)]).book.find? i.code
        = some (i.afterCancels [(k, n)]) :=
      Book.find?_set_self (i := i.afterCancels [(k, n)]) found rfl
    have restsThen : ∀ p ∈ plan, (i.afterCancels [(k, n)]).Rests p.1 := fun p hp =>
      (later p hp).afterCancels fun keys => apart (List.mem_map.mpr ⟨p, hp, keys⟩)
    have rest := ih hbThen foundThen restsThen partsLater distinct
    rw [← afterCancels_append, ← state] at rest
    exact .cons result rest

/-- The cancels of a plan are all carried out. -/
theorem executes_cancels (hb : s.book.WellFormed) (found : s.book.find? i.code = some i)
    (hp : i.Plan plan) : Executes s (i.cancels plan) (s.afterCancels i plan) := by
  have sorted := hb.sorted i (Book.mem_of_find? found)
  refine executes_cancels_of_rests hb found (fun p mem => ⟨p.1, ?_, rfl⟩) hp.parts hp.distinct
  exact (Orders.find?_eq_some sorted).mpr ⟨hp.resting p mem, rfl⟩

end Simulation

/-! ## The plan for a level -/

section CancelPlan

variable {wanted : Option Int} {os : List Order} {q : Int}

theorem cancelPlan_none : cancelPlan none os = os.map fun o => (o, o.qty) := by
  induction os with
  | nil => rfl
  | cons o os ih => rw [cancelPlan, ih, List.map_cons]

theorem cancelPlan_of_covered (covered : q ≤ 0) : cancelPlan (some q) os = [] := by
  cases os with
  | nil => rfl
  | cons o os => rw [cancelPlan, if_pos covered]

/-- A plan for some orders: all of the first ones, the newer, and a part of the next one. -/
structure Splits (os : List Order) (plan : List (Order × Int)) (newer : List Order) (pivot : Order)
    (part : Int) (older : List Order) : Prop where
  orders : os = newer ++ pivot :: older
  plan : plan = newer.map (fun o => (o, o.qty)) ++ [(pivot, part)]
  pos : 0 < part
  le : part ≤ pivot.qty

/-- A plan for a bounded quantity ends where the quantity is covered, or with the last order. -/
theorem splits_cancelPlan_some (nonempty : os ≠ []) (live : ∀ o ∈ os, 0 < o.qty) (pos : 0 < q) :
    ∃ newer pivot part older, Splits os (cancelPlan (some q) os) newer pivot part older := by
  induction os generalizing q with
  | nil => exact absurd rfl nonempty
  | cons o os ih =>
    obtain ⟨here, later⟩ := List.forall_mem_cons.mp live
    have plan : cancelPlan (some q) (o :: os)
        = (o, min o.qty q) :: cancelPlan (some (q - min o.qty q)) os := by
      rw [cancelPlan, if_neg (not_le.mpr pos)]
    rw [plan]
    by_cases last : os = [] ∨ q ≤ o.qty
    · have ends : cancelPlan (some (q - min o.qty q)) os = [] := by
        rcases last with rfl | covered
        · rfl
        · exact cancelPlan_of_covered (by omega)
      rw [ends]
      exact ⟨[], o, min o.qty q, os, rfl, rfl, lt_min here pos, min_le_left _ _⟩
    · obtain ⟨more, large⟩ := not_or.mp last
      have large : o.qty < q := not_le.mp large
      rw [min_eq_left large.le]
      obtain ⟨newer, pivot, part, older, split⟩ := ih more later (Int.sub_pos.mpr large)
      refine ⟨o :: newer, pivot, part, older, ?_, ?_, split.pos, split.le⟩
      · rw [split.orders]
        rfl
      · rw [split.plan]
        rfl

/-- A plan for everything ends with the last order. -/
theorem splits_cancelPlan_none (nonempty : os ≠ []) (live : ∀ o ∈ os, 0 < o.qty) :
    ∃ newer pivot part older, Splits os (cancelPlan none os) newer pivot part older := by
  obtain ⟨newer, pivot, rfl⟩ := (List.eq_nil_or_concat' os).resolve_left nonempty
  have here : 0 < pivot.qty := live pivot (by simp)
  refine ⟨newer, pivot, pivot.qty, [], rfl, ?_, here, le_rfl⟩
  rw [cancelPlan_none, List.map_append, List.map_singleton]

/-- The parts of a plan make up what is wanted, as far as there is as much. -/
theorem sum_cancelPlan_some (live : ∀ o ∈ os, 0 < o.qty) (nonneg : 0 ≤ q) :
    ((cancelPlan (some q) os).map Prod.snd).sum = min q (os.map Order.qty).sum := by
  induction os generalizing q with
  | nil => simpa [cancelPlan] using nonneg
  | cons o os ih =>
    obtain ⟨here, later⟩ := List.forall_mem_cons.mp live
    have rest : 0 ≤ (os.map Order.qty).sum :=
      List.sum_nonneg (List.forall_mem_map.mpr fun p hp => (later p hp).le)
    rw [cancelPlan, List.map_cons, List.sum_cons]
    split
    · simp only [List.map_nil, List.sum_nil]
      omega
    · rw [List.map_cons, List.sum_cons, ih later (by omega)]
      omega

end CancelPlan

section Splits

variable {os newer older : List Order} {plan : List (Order × Int)} {pivot o : Order} {part : Int}

/-- What orders lose together, where each loses what a plan says of it. -/
theorem Splits.sum_eq {f : Order → Int → Int} {g : Order → Int}
    (split : Splits os plan newer pivot part older) (whole : ∀ o ∈ newer, g o = f o o.qty)
    (partly : g pivot = f pivot part) (none : ∀ o ∈ older, g o = 0) :
    (os.map g).sum = (plan.map fun p => f p.1 p.2).sum := by
  have first : newer.map g = newer.map fun o => f o o.qty := List.map_congr_left whole
  have last : older.map g = older.map fun _ => 0 := List.map_congr_left none
  have zero : (older.map fun _ => (0 : Int)).sum = 0 := by simp
  rw [split.orders, split.plan, List.map_append, List.map_append, List.sum_append, List.sum_append,
    List.map_cons, List.sum_cons, first, partly, last, zero, List.map_map, List.map_singleton,
    List.sum_singleton, add_zero]
  rfl

/-- No order of a plan is older than the last one. -/
theorem Splits.pivot_le (split : Splits os plan newer pivot part older)
    (ids : os.Pairwise fun o p => p.id < o.id) : ∀ p ∈ plan, pivot.id ≤ p.1.id := by
  rw [split.orders] at ids
  have before := (List.pairwise_append.mp ids).2.2
  rw [split.plan]
  intro p hp
  rcases List.mem_append.mp hp with hp | hp
  · obtain ⟨o, ho, rfl⟩ := List.mem_map.mp hp
    exact (before o ho pivot List.mem_cons_self).le
  · rw [List.mem_singleton.mp hp]

theorem Splits.older_lt (split : Splits os plan newer pivot part older)
    (ids : os.Pairwise fun o p => p.id < o.id) (ho : o ∈ older) : o.id < pivot.id := by
  rw [split.orders] at ids
  exact List.rel_of_pairwise_cons (List.pairwise_append.mp ids).2.1 ho

/-- What is newer than the last order of a plan is one of the first orders. -/
theorem Splits.mem_newer (split : Splits os plan newer pivot part older)
    (ids : os.Pairwise fun o p => p.id < o.id) (ho : o ∈ os) (younger : pivot.id < o.id) :
    o ∈ newer := by
  rw [split.orders] at ho
  rcases List.mem_append.mp ho with ho | ho
  · exact ho
  · rcases List.mem_cons.mp ho with rfl | ho
    · exact absurd younger (lt_irrefl _)
    · exact absurd (split.older_lt ids ho) younger.not_gt

end Splits

/-- The orders of a level get older. -/
theorem Orders.level_ids {os : List Order} (sorted : Sorted os) (side : Side) (price : Int) :
    (level side price os).Pairwise fun o p => p.id < o.id := by
  rw [level, List.pairwise_reverse]
  refine sorted.filter.imp_of_mem fun ho hp before => ?_
  have priceO := (List.mem_filter.mp ho).2
  have priceP := (List.mem_filter.mp hp).2
  simp only [Bool.and_eq_true, beq_iff_eq] at priceO priceP
  rcases Key.before_iff.mp before with lower | same
  · exact absurd lower (by simp only [Order.key]; omega)
  · exact same.2

namespace Instrument

variable {i : Instrument} {side : Side} {price qty total part : Int} {newer older : List Order}
  {pivot o : Order} {kind : Kind}

/-- What is asked of a cancel of `total` of a level that takes it from the newest orders, where
`after` is what becomes of each order of the instrument. -/
structure NewestFirst (i : Instrument) (side : Side) (price total : Int) (after : Order → Order) :
    Prop where
  same : ∀ o, (after o).key = o.key ∧ (after o).side = o.side
  amount : ((Orders.level side price i.orders).map fun o => o.qty - (after o).qty).sum = total
  /-- Of one order of the level a part is canceled, or all of it. -/
  pivot : Orders.level side price i.orders ≠ [] → ∃ pivot ∈ Orders.level side price i.orders,
    0 ≤ (after pivot).qty ∧ (after pivot).qty < pivot.qty
      ∧ (∀ o ∈ Orders.level side price i.orders, pivot.id < o.id → (after o).qty = 0)
      ∧ ∀ o ∈ i.orders, o.id < pivot.id → after o = o
  elsewhere : ∀ o ∈ i.orders, ¬(o.side = side ∧ o.price = price) → after o = o
  exhausted : ∀ o ∈ i.orders, o.qty ≤ 0 → (after o).bare = o.bare
  places : ∀ o ∈ i.orders, 0 < (after o).qty →
    (after o).aheadOthers = o.aheadOthers ∧ (after o).aheadMine = o.aheadMine

/-- The cancels of a level change nothing elsewhere. -/
theorem closedBy_elsewhere (sorted : Orders.Sorted i.orders) (ho : o ∈ i.orders)
    (elsewhere : ¬(o.side = side ∧ o.price = price)) :
    closedBy kind (i.cancelPlan side price qty) o = o := by
  refine closedBy_of_fixed fun p hp => ?_
  obtain ⟨mem, hprice, hside, -⟩ := mem_level (mem_cancelPlan hp)
  refine closed_of_elsewhere (fun ne keys => ne (sorted.eq_of_key ho mem keys)) ?_
  rwa [hside, hprice]

section Splits

variable (split : Splits (Orders.level side price i.orders) (i.cancelPlan side price qty) newer
  pivot part older)
include split

theorem closedBy_older (sorted : Orders.Sorted i.orders) (older : o.id < pivot.id) :
    closedBy kind (i.cancelPlan side price qty) o = o := by
  have ids := Orders.level_ids sorted side price
  exact closedBy_of_fixed fun p hp => closed_of_older (older.trans_le (split.pivot_le ids p hp))

/-- The last order is as it was when its turn comes. -/
theorem closedBy_pivot (sorted : Orders.Sorted i.orders) :
    closedBy kind (i.cancelPlan side price qty) pivot = pivot.shrink kind part := by
  have ids := Orders.level_ids sorted side price
  rw [split.orders] at ids
  have before := (List.pairwise_append.mp ids).2.2
  have waits : closedBy kind (newer.map fun o => (o, o.qty)) pivot = pivot := by
    refine closedBy_of_fixed fun p hp => ?_
    obtain ⟨o, ho, rfl⟩ := List.mem_map.mp hp
    exact closed_of_older (before o ho pivot List.mem_cons_self)
  rw [split.plan, closedBy_append, waits]
  exact closed_self

theorem mem_plan_newer (ho : o ∈ newer) : (o, o.qty) ∈ i.cancelPlan side price qty := by
  rw [split.plan]
  exact List.mem_append_left _ (List.mem_map_of_mem ho)

theorem qty_closedBy_newer (sorted : Orders.Sorted i.orders) (ho : o ∈ newer) :
    (closedBy kind (i.cancelPlan side price qty) o).qty = 0 := by
  have plan := plan_cancelPlan sorted side price qty
  rw [qty_closedBy_of_mem plan.distinct (mem_plan_newer split ho) rfl, sub_self]

/-- What the orders of a level lose of their quantities or of their escrow, the plan says. -/
theorem sum_closedBy (sorted : Orders.Sorted i.orders) {f : Order → Int → Int} {g : Order → Int}
    (hg : ∀ o, g o.bare = g o) (hf : ∀ o n, g o - g (o.shrink kind n) = f o n)  :
    ((Orders.level side price i.orders).map fun o =>
        g o - g (closedBy kind (i.cancelPlan side price qty) o)).sum
      = ((i.cancelPlan side price qty).map fun p => f p.1 p.2).sum := by
  have ids := Orders.level_ids sorted side price
  refine split.sum_eq (fun o ho => ?_) ?_ (fun o ho => ?_)
  · have plan := plan_cancelPlan sorted side price qty
    rw [← hf, ← hg (closedBy kind _ o),
      bare_closedBy_of_mem plan.distinct (mem_plan_newer split ho) rfl, ← Order.bare_shrink, hg]
  · rw [← hf, closedBy_pivot split sorted]
  · rw [closedBy_older split sorted (split.older_lt ids ho), sub_self]

/-- What is still open is older than all that was canceled, or the last of it: it has its place. -/
theorem places_closedBy (sorted : Orders.Sorted i.orders) (ho : o ∈ i.orders)
    (live : 0 < (closedBy kind (i.cancelPlan side price qty) o).qty) :
    (closedBy kind (i.cancelPlan side price qty) o).aheadOthers = o.aheadOthers
      ∧ (closedBy kind (i.cancelPlan side price qty) o).aheadMine = o.aheadMine := by
  have ids := Orders.level_ids sorted side price
  by_cases level : o.side = side ∧ o.price = price
  · rcases lt_trichotomy o.id pivot.id with older | here | younger
    · rw [closedBy_older split sorted older]
      exact ⟨rfl, rfl⟩
    · have mem : pivot ∈ Orders.level side price i.orders := by
        rw [split.orders]
        exact List.mem_append_right _ List.mem_cons_self
      obtain ⟨hpivot, hprice, -, -⟩ := mem_level mem
      have keys : o.key = pivot.key := congrArg₂ Key.mk (level.2.trans hprice.symm) here
      rw [sorted.eq_of_key ho hpivot keys, closedBy_pivot split sorted]
      exact ⟨Order.shrink_aheadOthers, Order.shrink_aheadMine⟩
    · exfalso
      rcases lt_or_ge 0 o.qty with before | exhausted
      · have mem : o ∈ Orders.level side price i.orders :=
          mem_level_iff.mpr ⟨ho, level.2, level.1, before⟩
        exact live.ne' (qty_closedBy_newer split sorted (split.mem_newer ids mem younger))
      · have plan := plan_cancelPlan sorted side price qty
        exact not_lt.mpr exhausted (live.trans_eq (qty_closedBy_exhausted plan sorted ho exhausted))
  · rw [closedBy_elsewhere sorted ho level]
    exact ⟨rfl, rfl⟩

theorem newestFirst_of_splits (sorted : Orders.Sorted i.orders) :
    i.NewestFirst side price ((i.cancelPlan side price qty).map Prod.snd).sum
      (closedBy i.kind (i.cancelPlan side price qty)) := by
  have ids := Orders.level_ids sorted side price
  have mem : pivot ∈ Orders.level side price i.orders := by
    rw [split.orders]
    exact List.mem_append_right _ List.mem_cons_self
  refine ⟨fun o => ⟨closedBy_key, closedBy_side⟩, ?_, fun _ => ⟨pivot, mem, ?_⟩,
    fun o ho => closedBy_elsewhere sorted ho,
    fun o ho => bare_closedBy_exhausted (plan_cancelPlan sorted side price qty) sorted ho,
    fun o ho => places_closedBy split sorted ho⟩
  · refine sum_closedBy split sorted (f := fun _ n => n) (fun _ => rfl) fun o n => ?_
    rw [Order.shrink_qty, sub_sub_cancel]
  · have := split.pos
    have := split.le
    rw [closedBy_pivot split sorted, Order.shrink_qty]
    exact ⟨by omega, by omega,
      fun o ho younger => qty_closedBy_newer split sorted (split.mem_newer ids ho younger),
      fun o _ older => closedBy_older split sorted older⟩

end Splits

/-- How much a cancel of a level takes: all that is open where no quantity is given. -/
def cancelable (i : Instrument) (side : Side) (price qty : Int) : Int :=
  let opened := ((Orders.level side price i.orders).map Order.qty).sum
  if qty = 0 then opened else min qty opened

theorem sum_cancelPlan (nonneg : 0 ≤ qty) :
    ((i.cancelPlan side price qty).map Prod.snd).sum = i.cancelable side price qty := by
  by_cases all : qty = 0
  · rw [cancelPlan, cancelable, if_pos all, if_pos all, cancelPlan_none, List.map_map]
    rfl
  · rw [cancelPlan, cancelable, if_neg all, if_neg all]
    exact sum_cancelPlan_some (fun o ho => (mem_level ho).2.2.2) nonneg

theorem cancelPlan_of_empty (none : Orders.level side price i.orders = []) :
    i.cancelPlan side price qty = [] := by
  rw [cancelPlan, none]
  rfl

theorem exists_splits (nonneg : 0 ≤ qty) (some : Orders.level side price i.orders ≠ []) :
    ∃ newer pivot part older, Splits (Orders.level side price i.orders)
      (i.cancelPlan side price qty) newer pivot part older := by
  have live : ∀ o ∈ Orders.level side price i.orders, 0 < o.qty := fun o ho => (mem_level ho).2.2.2
  by_cases all : qty = 0
  · rw [cancelPlan, if_pos all]
    exact splits_cancelPlan_none some live
  · rw [cancelPlan, if_neg all]
    exact splits_cancelPlan_some some live (nonneg.lt_of_ne' all)

theorem newestFirst_cancelPlan (sorted : Orders.Sorted i.orders) (nonneg : 0 ≤ qty) :
    i.NewestFirst side price (i.cancelable side price qty)
      (closedBy i.kind (i.cancelPlan side price qty)) := by
  rw [← sum_cancelPlan nonneg]
  by_cases some : Orders.level side price i.orders = []
  · rw [cancelPlan_of_empty some]
    refine ⟨fun o => ⟨rfl, rfl⟩, ?_, fun more => absurd some more, fun _ _ _ => rfl,
      fun _ _ _ => rfl, fun _ _ _ => ⟨rfl, rfl⟩⟩
    rw [some]
    rfl
  · obtain ⟨newer, pivot, part, older, split⟩ := exists_splits nonneg some
    exact newestFirst_of_splits split sorted

/-- What a plan for a level sets free is what its orders lose of their escrow. -/
theorem freed_cancelPlan (sorted : Orders.Sorted i.orders) (nonneg : 0 ≤ qty) :
    ((i.cancelPlan side price qty).map fun p => p.1.freed i.kind p.2).sum
      = ((Orders.level side price i.orders).map fun o =>
          o.escrow - (closedBy i.kind (i.cancelPlan side price qty) o).escrow).sum := by
  by_cases some : Orders.level side price i.orders = []
  · rw [cancelPlan_of_empty some, some]
    rfl
  · obtain ⟨newer, pivot, part, older, split⟩ := exists_splits nonneg some
    refine (sum_closedBy split sorted (f := fun o n => o.freed i.kind n) (fun _ => rfl) ?_).symm
    intro o n
    rw [Order.shrink_escrow, sub_sub_cancel]

/-- Buys give no shares back. -/
theorem returned_cancelPlan_buy :
    ((i.cancelPlan .buy price qty).map fun p => p.1.returned p.2).sum = 0 := by
  refine List.sum_eq_zero (List.forall_mem_map.mpr fun p hp => ?_)
  rw [Order.returned, (mem_level (mem_cancelPlan hp)).2.2.1]

/-- Sells give back what is canceled of them. -/
theorem returned_cancelPlan_sell (nonneg : 0 ≤ qty) :
    ((i.cancelPlan .sell price qty).map fun p => p.1.returned p.2).sum
      = i.cancelable .sell price qty := by
  rw [← sum_cancelPlan nonneg]
  refine congrArg List.sum (List.map_congr_left fun p hp => ?_)
  rw [Order.returned, (mem_level (mem_cancelPlan hp)).2.2.1]

/-- Sells set no cash free. -/
theorem freed_cancelPlan_sell :
    ((i.cancelPlan .sell price qty).map fun p => p.1.freed i.kind p.2).sum = 0 := by
  refine List.sum_eq_zero (List.forall_mem_map.mpr fun p hp => ?_)
  rw [Order.freed, (mem_level (mem_cancelPlan hp)).2.2.1]

end Instrument

/-! ## Requests -/

theorem Simulation.Executes.done {s s' : Simulation} {ops : List Operation} (h : Executes s ops s')
    (r : Request) :
    (Broker.executeAll r s ops).1 = .done ∧ (Broker.executeAll r s ops).2.1 = s' := by
  induction h with
  | nil s => exact ⟨rfl, rfl⟩
  | @cons s _ op ops done _ ih =>
    have result : (Broker.execute s op).result = .ok () := done
    simp only [Broker.executeAll, result]
    exact ih

theorem Book.operations_cancel {b : Book} {i : Instrument} {r : Request} {side : Side}
    (found : b.find? r.code = some i) (canceling : r.action = .cancel side) :
    (b.allot r).allotment.operations = i.cancels (i.cancelPlan side r.price r.qty) := by
  rw [allot, canceling]
  simp only [found, Instrument.allotCancel]
  split
  next none =>
    rw [none]
    rfl
  · rfl

end TradingDesk
