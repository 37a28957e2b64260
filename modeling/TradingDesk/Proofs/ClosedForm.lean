-- SUMMARY: What flow through the levels of a queue comes to, as a formula.
import Mathlib.Algebra.Order.BigOperators.Group.List
import TradingDesk.Proofs.Levels

/-!
# The closed form of flow

A level takes as much of the flow as its deepest order reaches, and leaves the rest to the
next one. So what comes to an order is known in advance: the flow less what the levels before
its own can take. From the formula it is plain that a level has to wait for all orders of the
levels before it, that nothing depends on the order of keys inside a level, and that more flow
fills no order less.
-/

namespace TradingDesk

namespace Order

variable {kind : Kind} {o : Order} {os ps : List Order} {flow c : Int}

/-- An order after `left` of a flow has come to it, which goes first to what others have before
it, then to what my earlier orders have, and fills the order with the rest. -/
structure Takes (left : Int) (o o' : Order) : Prop where
  key : o'.key = o.key
  side : o'.side = o.side
  others : o.aheadOthers - o'.aheadOthers = min left (max o.aheadOthers 0)
  mine : o.aheadMine - o'.aheadMine
    = min (left - min left (max o.aheadOthers 0)) (max o.aheadMine 0)
  filled : o.qty - o'.qty = max 0 (min o.qty (left - o.ahead))

theorem takes_flowed (nonneg : 0 ≤ flow) : Takes flow o (o.flowed kind flow) where
  key := flowed_key
  side := flowed_side
  others := by
    rw [aheadOthers_flowed]
    simp only [intake]
    omega
  mine := by
    rw [aheadMine_flowed]
    simp only [intake]
    omega
  filled := by
    rw [flowed_qty, intake_filled]
    omega

/-- Flow that an order does not exhaust fills all that it has open. -/
theorem Takes.complete {left : Int} {o' : Order} (h : o.Takes left o') (whole : o.reach ≤ left) :
    o'.qty = min o.qty 0 := by
  have filled := h.filled
  rw [reach] at whole
  omega

theorem isSome_fill? {price : Int} :
    (o.fill? kind price flow).isSome = decide ((o.flowed kind flow).qty < o.qty) := by
  rw [fill?, flowed_qty]
  split
  next none => exact (decide_eq_false (by omega)).symm
  next some => exact (decide_eq_true (by omega)).symm

/-- More flow fills no order less. -/
theorem flowed_qty_mono {more : Int} (le : flow ≤ more) :
    (o.flowed kind more).qty ≤ (o.flowed kind flow).qty := by
  rw [flowed_qty, flowed_qty, intake_filled, intake_filled]
  omega

/-! ## The deepest order -/

/-- The furthest that some orders reach. -/
def extent (os : List Order) : Int := (os.map reach).foldr max 0

theorem extent_le (bound : 0 ≤ c) : extent os ≤ c ↔ ∀ o ∈ os, o.reach ≤ c := by
  induction os with
  | nil => exact iff_of_true bound nofun
  | cons o os ih => rw [extent, List.map_cons, List.foldr_cons, max_le_iff, ← extent, ih,
      List.forall_mem_cons]

theorem extent_nonneg : 0 ≤ extent os := by
  cases os with
  | nil => exact le_rfl
  | cons o os => exact reach_nonneg.trans (le_max_left _ _)

theorem reach_le_extent (mem : o ∈ os) : o.reach ≤ extent os :=
  (extent_le extent_nonneg).mp le_rfl o mem

theorem extent_congr (same : ∀ o, o ∈ os ↔ o ∈ ps) : extent os = extent ps :=
  le_antisymm
    ((extent_le extent_nonneg).mpr fun o ho => reach_le_extent ((same o).mp ho))
    ((extent_le extent_nonneg).mpr fun o ho => reach_le_extent ((same o).mpr ho))

/-- Some orders use of a flow what the deepest of them reaches. -/
theorem deepest_eq : deepest flow os = min (max flow 0) (extent os) := by
  induction os with
  | nil => exact (min_eq_right (le_max_right _ _)).symm
  | cons o os ih =>
    rw [deepest_cons, intake_used, ih, ← min_max_distrib_left]
    rfl

end Order

/-! ## What comes to a key -/

/-- What comes to a key of a flow through levels, each of which takes as much as it can. -/
def allotted (capacity : List Key → Int) : Int → List (List Key) → Key → Int
  | _, [], _ => 0
  | flow, level :: levels, key =>
    if key ∈ level then max 0 flow else allotted capacity (flow - capacity level) levels key

section Allotted

variable {capacity capacity' : List Key → Int} {flow more : Int} {levels levels' : List (List Key)}
  {level : List Key} {key : Key}

theorem allotted_of_notMem (out : key ∉ levels.flatten) : allotted capacity flow levels key = 0 := by
  induction levels generalizing flow with
  | nil => rfl
  | cons level levels ih =>
    rw [List.flatten_cons, List.mem_append, not_or] at out
    rw [allotted, if_neg out.1]
    exact ih out.2

theorem allotted_congr (same : ∀ level ∈ levels, capacity' level = capacity level) :
    allotted capacity' flow levels = allotted capacity flow levels := by
  induction levels generalizing flow with
  | nil => rfl
  | cons level levels ih =>
    obtain ⟨here, rest⟩ := List.forall_mem_cons.mp same
    funext key
    rw [allotted, allotted, here, ih rest]

/-- To a key of a level comes what the levels before it leave. -/
theorem allotted_eq (nodup : levels.flatten.Nodup) {l : Nat} (here : levels[l]? = some level)
    (mem : key ∈ level) :
    allotted capacity flow levels key = max 0 (flow - ((levels.take l).map capacity).sum) := by
  induction levels generalizing flow l with
  | nil => cases here
  | cons first levels ih =>
    cases l with
    | zero =>
      obtain rfl := Option.some.inj here
      rw [allotted, if_pos mem, List.take_zero, List.map_nil, List.sum_nil, sub_zero]
    | succ l =>
      rw [List.flatten_cons, List.nodup_append'] at nodup
      have later : key ∈ levels.flatten :=
        List.mem_flatten.mpr ⟨level, List.mem_of_getElem? here, mem⟩
      have elsewhere : key ∉ first := fun again => nodup.2.2 again later
      rw [allotted, if_neg elsewhere, ih nodup.2.1 here, List.take_succ_cons, List.map_cons,
        List.sum_cons, sub_sub]

theorem allotted_mono (le : flow ≤ more) :
    allotted capacity flow levels key ≤ allotted capacity more levels key := by
  induction levels generalizing flow more with
  | nil => exact le_rfl
  | cons level levels ih =>
    rw [allotted, allotted]
    split
    · omega
    · exact ih (by omega)

/-- The order of keys inside a level does not matter. -/
theorem allotted_perm (perm : List.Forall₂ List.Perm levels levels')
    (even : ∀ ks ls : List Key, ks.Perm ls → capacity ks = capacity ls) :
    allotted capacity flow levels' = allotted capacity flow levels := by
  induction perm generalizing flow with
  | nil => rfl
  | cons here _ ih =>
    funext key
    rw [allotted, allotted, even _ _ here, ih]
    simp only [here.mem_iff]

theorem alike_add_allotted (pos : 0 < flow) (disjoint : level.Disjoint levels.flatten) :
    (fun key => Instrument.alike flow level key
        + allotted capacity (flow - capacity level) levels key)
      = allotted capacity flow (level :: levels) := by
  funext key
  rw [allotted]
  split
  next here =>
    rw [Instrument.alike_of_mem here, allotted_of_notMem (disjoint here), add_zero,
      max_eq_right pos.le]
  next out => rw [Instrument.alike_of_notMem out, zero_add]

variable (nonneg : ∀ level, 0 ≤ capacity level)
include nonneg

theorem allotted_of_nonpos (none : flow ≤ 0) : allotted capacity flow levels = fun _ => 0 := by
  induction levels generalizing flow with
  | nil => rfl
  | cons level levels ih =>
    funext key
    have := nonneg level
    rw [allotted, ih (by omega), max_eq_left none, ite_self]

/-- A level that takes all leaves nothing, however deep it is. -/
theorem allotted_sub_min :
    allotted capacity (flow - min flow (capacity level)) levels
      = allotted capacity (flow - capacity level) levels := by
  rcases le_total flow (capacity level) with all | some
  · rw [min_eq_left all, sub_self, allotted_of_nonpos nonneg le_rfl,
      allotted_of_nonpos nonneg (by omega)]
  · rw [min_eq_right some]

end Allotted

namespace Instrument

variable {i : Instrument} {os : List Order} {o : Order} {left : Key → Int} {keys level : List Key}
  {levels : List (List Key)} {flow : Int} {fillPrice : Option Int}

/-- How much flow a level can take. -/
def capacity (i : Instrument) (level : List Key) : Int :=
  Order.extent (i.orders.filter fun o => decide (o.key ∈ level))

theorem capacity_nonneg : 0 ≤ i.capacity level := Order.extent_nonneg

theorem reach_le_capacity (mem : o ∈ i.orders) (here : o.key ∈ level) :
    o.reach ≤ i.capacity level :=
  Order.reach_le_extent (List.mem_filter.mpr ⟨mem, decide_eq_true here⟩)

theorem capacity_perm {level' : List Key} (perm : level.Perm level') :
    i.capacity level = i.capacity level' := by
  simp only [capacity, perm.mem_iff]

/-- Some of the orders are those with their keys. -/
theorem mem_iff_key (sorted : Orders.Sorted i.orders) (mem : ∀ o ∈ os, o ∈ i.orders) :
    o ∈ os ↔ o ∈ i.orders ∧ o.key ∈ os.map Order.key := by
  constructor
  · exact fun ho => ⟨mem o ho, List.mem_map_of_mem ho⟩
  · rintro ⟨ho, hkey⟩
    obtain ⟨p, hp, same⟩ := List.mem_map.mp hkey
    exact sorted.eq_of_key (mem p hp) ho same ▸ hp

theorem capacity_map (sorted : Orders.Sorted i.orders) (mem : ∀ o ∈ os, o ∈ i.orders) :
    i.capacity (os.map Order.key) = Order.extent os := by
  refine Order.extent_congr fun o => ?_
  rw [List.mem_filter, decide_eq_true_eq, mem_iff_key sorted mem]

/-- Flow that comes to other keys does not change what a level can take. -/
theorem capacity_poured (none : ∀ key ∈ level, left key = 0) :
    (i.poured left).capacity level = i.capacity level := by
  refine Order.extent_congr fun o => ?_
  rw [List.mem_filter, List.mem_filter, decide_eq_true_eq]
  exact and_congr_left fun here => mem_poured (none o.key here)

/-- What later levels can take of the flow that a level leaves. -/
theorem allotted_poured (sorted : Orders.Sorted i.orders) (mem : ∀ o ∈ os, o ∈ i.orders)
    (pos : 0 < flow) (outside : ∀ key ∈ levels.flatten, left key = 0) :
    allotted (i.poured left).capacity (flow - Order.deepest flow os) levels
      = allotted i.capacity (flow - i.capacity (os.map Order.key)) levels := by
  have same : ∀ level ∈ levels, (i.poured left).capacity level = i.capacity level :=
    fun level hlevel => capacity_poured fun key hkey =>
      outside key (List.mem_flatten.mpr ⟨level, hlevel, hkey⟩)
  rw [allotted_congr same, Order.deepest_eq, max_eq_left pos.le, ← capacity_map sorted mem,
    allotted_sub_min fun _ => capacity_nonneg]

/-- Flow through levels pours into each of their orders what is allotted to its key. -/
theorem pours_flowLevels (fillPrice : Option Int) (flow : Int) (sorted : Orders.Sorted i.orders)
    (nodup : levels.flatten.Nodup) (resting : ∀ key ∈ levels.flatten, ∃ o ∈ i.orders, o.key = key) :
    ∃ os, levels.flatten = os.map Order.key ∧ (∀ o ∈ os, o ∈ i.orders)
      ∧ i.Pours fillPrice (allotted i.capacity flow levels) os (i.flowLevels fillPrice flow levels) := by
  induction levels generalizing i flow with
  | nil => exact ⟨[], rfl, nofun, .start i fillPrice []⟩
  | cons level levels ih =>
    rw [flowLevels]
    by_cases none : flow ≤ 0
    · obtain ⟨os, same, mem⟩ := Orders.exists_of_keys resting
      refine ⟨os, same, mem, ?_⟩
      rw [if_pos none, allotted_of_nonpos (fun _ => capacity_nonneg) none]
      exact .start i fillPrice os
    · rw [if_neg none]
      obtain ⟨here, rest⟩ := List.forall_mem_append.mp resting
      obtain ⟨nodupHere, nodupRest, disjoint⟩ := List.nodup_append'.mp nodup
      obtain ⟨os, rfl, mem⟩ := Orders.exists_of_keys here
      obtain ⟨first, used⟩ := pours_flowLevel fillPrice flow sorted mem nodupHere
      generalize i.flowLevel fillPrice flow (os.map Order.key) = r at first used
      have outside : ∀ key ∈ levels.flatten, alike flow (os.map Order.key) key = 0 :=
        fun key later => alike_of_notMem fun again => disjoint again later
      have untouched : ∀ o : Order, o.key ∈ levels.flatten →
          (o ∈ r.matched.instrument.orders ↔ o ∈ i.orders) := by
        intro o later
        rw [first.instrument]
        exact mem_poured (outside o.key later)
      obtain ⟨os', same, mem', next⟩ := @ih r.matched.instrument (flow - r.used)
        (first.instrument ▸ sorted_poured sorted) nodupRest fun key later => by
          obtain ⟨o, ho, rfl⟩ := rest key later
          exact ⟨o, (untouched o later).mpr ho, rfl⟩
      have later : ∀ o ∈ os', o.key ∈ levels.flatten := fun o ho => same ▸ List.mem_map_of_mem ho
      have left : allotted r.matched.instrument.capacity (flow - r.used) levels
          = allotted i.capacity (flow - i.capacity (os.map Order.key)) levels := by
        rw [used, first.instrument]
        exact allotted_poured sorted mem (not_le.mp none) outside
      refine ⟨os ++ os', by rw [List.flatten_cons, same, List.map_append], ?_, ?_⟩
      · exact List.forall_mem_append.mpr
          ⟨mem, fun o ho => (untouched o (later o ho)).mp (mem' o ho)⟩
      · have both := first.andThen (left ▸ next)
          (fun o ho => allotted_of_notMem (disjoint (List.mem_map_of_mem ho)))
          (fun o ho => outside o.key (later o ho)) fun key => ?_
        · rwa [alike_add_allotted (not_le.mp none) disjoint] at both
        · by_cases here : key ∈ os.map Order.key
          · exact .inr (allotted_of_notMem (disjoint here))
          · exact .inl (alike_of_notMem here)

/-! ## Flow through a queue -/

/-- What the levels before one leave to it of a flow. -/
def remaining (i : Instrument) (flow : Int) (levels : List (List Key)) (l : Nat) : Int :=
  max 0 (flow - ((levels.take l).map i.capacity).sum)

theorem remaining_nonneg {l : Nat} : 0 ≤ i.remaining flow levels l := le_max_left _ _

/-- A level that is left anything comes after levels that are left more than they can take. -/
theorem capacity_lt_remaining {l n : Nat} (left : 0 < i.remaining flow levels l) (before : n < l)
    (here : levels[n]? = some level) : i.capacity level < i.remaining flow levels n := by
  have upTo : ((levels.take (n + 1)).map i.capacity).sum ≤ ((levels.take l).map i.capacity).sum := by
    refine List.Sublist.sum_le_sum ((List.take_prefix_take_left before).sublist.map _) ?_
    intro c hc
    obtain ⟨level, -, rfl⟩ := List.mem_map.mp hc
    exact capacity_nonneg
  rw [List.take_add_one, here, Option.toList_some, List.map_append, List.sum_append] at upTo
  simp only [remaining, List.map_cons, List.map_nil, List.sum_cons, List.sum_nil] at left upTo ⊢
  omega

/-- It does not matter in which order the same flow pours. -/
theorem Pours.perm {m m' : Matched} {os' : List Order} (h : i.Pours fillPrice left os m)
    (h' : i.Pours fillPrice left os' m') (perm : os'.Perm os) :
    m'.instrument = m.instrument ∧ (m'.fills.map Fill.bare).Perm (m.fills.map Fill.bare) := by
  rw [h.instrument, h'.instrument, h.fills, h'.fills]
  exact ⟨rfl, perm.filterMap _⟩

/-- There is one fill for each order that is filled. -/
theorem Pours.length_fills {m : Matched} (pours : i.Pours fillPrice left os m) (nodup : os.Nodup)
    (nodup' : i.orders.Nodup) (mem : ∀ o ∈ os, o ∈ i.orders)
    (none : ∀ o ∈ i.orders, o ∉ os → left o.key = 0) :
    m.fills.length
      = i.orders.countP fun o => decide ((o.flowed i.kind (left o.key)).qty < o.qty) := by
  have perm : (os.filter fun o => decide ((o.flowed i.kind (left o.key)).qty < o.qty)).Perm
      (i.orders.filter fun o => decide ((o.flowed i.kind (left o.key)).qty < o.qty)) := by
    refine (List.perm_ext_iff_of_nodup (nodup.filter _) (nodup'.filter _)).mpr fun o => ?_
    rw [List.mem_filter, List.mem_filter]
    refine and_congr_left fun filled => ⟨mem o, fun ho => ?_⟩
    by_contra out
    rw [none o ho out, Order.flowed_zero] at filled
    exact absurd (of_decide_eq_true filled) (lt_irrefl _)
  rw [List.countP_eq_length_filter, ← perm.length_eq, ← List.countP_eq_length_filter,
    ← List.length_map Fill.bare, pours.fills, List.length_filterMap_eq_countP]
  exact List.countP_congr fun o _ => by rw [Order.isSome_fill?]

/-- Every fill is of an order as much as it has less open. -/
theorem Pours.fill {m : Matched} (pours : i.Pours fillPrice left os m) :
    ∀ f ∈ m.fills, ∃ o ∈ os, f.order.key = o.key ∧ f.price = fillPrice.getD o.price
      ∧ f.qty = o.qty - (o.flowed i.kind (left o.key)).qty := by
  intro f hf
  have bare : f.bare ∈ m.fills.map Fill.bare := List.mem_map_of_mem hf
  rw [pours.fills] at bare
  obtain ⟨o, ho, filled⟩ := List.mem_filterMap.mp bare
  rw [Order.fill?] at filled
  split at filled
  · cases filled
  · have fields := Option.some.inj filled
    refine ⟨o, ho, ?_, (congrArg Fill.price fields).symm, ?_⟩
    · exact (congrArg (fun f : Fill => f.order.key) fields).symm
    · have qty : (o.intake (left o.key)).filled = f.qty := congrArg Fill.qty fields
      rw [Order.flowed_qty, qty]
      omega

theorem takes_allotted {l : Nat} (nodup : levels.flatten.Nodup) (here : levels[l]? = some level)
    (mem : o.key ∈ level) :
    o.Takes (i.remaining flow levels l)
      (o.flowed i.kind (allotted i.capacity flow levels o.key)) := by
  rw [allotted_eq nodup here mem]
  exact Order.takes_flowed remaining_nonneg

theorem pours_flowThrough (fillPrice : Option Int) (flow : Int) (sorted : Orders.Sorted i.orders)
    (nodup : keys.Nodup) (resting : ∀ key ∈ keys, ∃ o ∈ i.orders, o.key = key) :
    ∃ os, keys = os.map Order.key ∧ (∀ o ∈ os, o ∈ i.orders)
      ∧ i.Pours fillPrice (allotted i.capacity flow (keys.splitBy fun a b => a.price == b.price)) os
          (i.flowThrough keys flow fillPrice) := by
  have flat := List.flatten_splitBy (fun a b : Key => a.price == b.price) keys
  obtain ⟨os, same, pours⟩ :=
    pours_flowLevels fillPrice flow sorted (flat.symm ▸ nodup) (flat.symm ▸ resting)
  exact ⟨os, flat.symm.trans same, pours⟩

/-- Keys that change places inside their levels are served alike. -/
theorem flowThrough_perm {levels' : List (List Key)} (sorted : Orders.Sorted i.orders)
    (nodup : keys.Nodup) (resting : ∀ key ∈ keys, ∃ o ∈ i.orders, o.key = key)
    (perm : List.Forall₂ List.Perm (keys.splitBy fun a b => a.price == b.price) levels') :
    let m := i.flowThrough keys flow fillPrice
    let m' := i.flowThrough levels'.flatten flow fillPrice
    m'.instrument = m.instrument ∧ (m'.fills.map Fill.bare).Perm (m.fills.map Fill.bare) := by
  have keysPerm : keys.Perm levels'.flatten := by
    have flat := List.flatten_splitBy (fun a b : Key => a.price == b.price) keys
    exact flat ▸ List.Perm.flatten_congr perm
  have split : (levels'.flatten.splitBy fun a b => a.price == b.price) = levels' :=
    ((Runs.splitBy keys).perm perm).splitBy_flatten
  have nodup' : levels'.flatten.Nodup := keysPerm.nodup_iff.mp nodup
  obtain ⟨os, same, mem, here⟩ := pours_flowThrough fillPrice flow sorted nodup resting
  obtain ⟨os', same', mem', there⟩ := pours_flowThrough fillPrice flow sorted nodup'
    fun key hkey => resting key (keysPerm.mem_iff.mpr hkey)
  rw [split, allotted_perm perm fun _ _ => capacity_perm] at there
  have orders : os'.Perm os := by
    refine (List.perm_ext_iff_of_nodup (same' ▸ nodup').of_map (same ▸ nodup).of_map).mpr fun o => ?_
    rw [mem_iff_key sorted mem', mem_iff_key sorted mem, ← same, ← same', keysPerm.mem_iff]
  exact here.perm there orders

/-- The closed form of flow through a queue. The keys fall into levels, one for each run of a
price, and what comes to a level is the flow less what the levels before it can take. Of that an
order takes what goes past those before it, and no other order is touched. So a level is left
anything only where all orders of the levels before it are filled; the order of keys inside the
levels does not matter, but for what the fills report; and more flow fills no order less. -/
theorem flowThrough_closedForm (sorted : Orders.Sorted i.orders) (nodup : keys.Nodup)
    (resting : ∀ key ∈ keys, ∃ o ∈ i.orders, o.key = key) :
    let levels := keys.splitBy fun a b => a.price == b.price
    let m := i.flowThrough keys flow fillPrice
    ∃ after : Order → Order,
      m.instrument.orders = i.orders.map after
        ∧ (∀ l level, levels[l]? = some level → ∀ o ∈ i.orders, o.key ∈ level →
            o.Takes (i.remaining flow levels l) (after o))
        ∧ (∀ o ∈ i.orders, o.key ∉ keys → after o = o)
        ∧ m.fills.length = i.orders.countP (fun o => decide ((after o).qty < o.qty))
        ∧ (∀ f ∈ m.fills, ∃ o ∈ i.orders, f.order.key = o.key ∧ f.price = fillPrice.getD o.price
            ∧ f.qty = o.qty - (after o).qty)
        ∧ (∀ l, 0 < i.remaining flow levels l → ∀ n < l, ∀ level, levels[n]? = some level →
            ∀ o ∈ i.orders, o.key ∈ level → (after o).qty = min o.qty 0)
        ∧ (∀ levels', List.Forall₂ List.Perm levels levels' →
            let m' := i.flowThrough levels'.flatten flow fillPrice
            m'.instrument = m.instrument
              ∧ (m'.fills.map Fill.bare).Perm (m.fills.map Fill.bare))
        ∧ ∀ more, flow ≤ more →
            List.Forall₂ (fun o p : Order => p.key = o.key ∧ p.qty ≤ o.qty)
              m.instrument.orders (i.flowThrough keys more fillPrice).instrument.orders := by
  intro levels m
  have flat : levels.flatten = keys := List.flatten_splitBy _ keys
  obtain ⟨os, same, mem, here⟩ := pours_flowThrough fillPrice flow sorted nodup resting
  have takes : ∀ l level, levels[l]? = some level → ∀ o ∈ i.orders, o.key ∈ level →
      o.Takes (i.remaining flow levels l)
        (o.flowed i.kind (allotted i.capacity flow levels o.key)) :=
    fun l level at' o _ hkey => takes_allotted (flat.symm ▸ nodup) at' hkey
  refine ⟨fun o => o.flowed i.kind (allotted i.capacity flow levels o.key), ?_, takes, ?_, ?_, ?_,
    ?_, fun levels' => flowThrough_perm sorted nodup resting, ?_⟩
  · rw [here.instrument]
    rfl
  · intro o ho out
    simp only [allotted_of_notMem (flat.symm ▸ out), Order.flowed_zero]
  · refine here.length_fills (same ▸ nodup).of_map sorted.nodup.of_map mem fun o ho out => ?_
    have other : o.key ∉ keys := fun hkey => out ((mem_iff_key sorted mem).mpr ⟨ho, same ▸ hkey⟩)
    exact allotted_of_notMem (flat.symm ▸ other)
  · intro f hf
    obtain ⟨o, ho, fill⟩ := here.fill f hf
    exact ⟨o, mem o ho, fill⟩
  · intro l left n before level at' o ho hkey
    exact (takes n level at' o ho hkey).complete
      ((reach_le_capacity ho hkey).trans (capacity_lt_remaining left before at').le)
  · intro more le
    obtain ⟨_, -, -, there⟩ := pours_flowThrough fillPrice more sorted nodup resting
    rw [here.instrument, there.instrument]
    refine List.forall₂_map_left_iff.mpr (List.forall₂_map_right_iff.mpr ?_)
    refine List.forall₂_same.mpr fun o _ => ⟨?_, Order.flowed_qty_mono (allotted_mono le)⟩
    rw [Order.flowed_key, Order.flowed_key]

/-- Two sells at a price share a flow of twenty, of which the deeper one reaches up to fifteen;
of the rest two go to others before the sell at the next price. -/
theorem flowThrough_closedForm_shared :
    let sell (price qty aheadOthers aheadMine : Int) (id : Nat) : Order :=
      { price, id, side := .sell, qty, origin := none, escrow := 0, aheadOthers, aheadMine }
    let i : Instrument := { Instrument.ofHoldings "A" .equity 100 with
      orders := [sell 1000 10 5 0 1, sell 1000 4 (-3) 10 2, sell 1005 7 2 0 3] }
    let keys : List Key := [⟨1000, 2⟩, ⟨1000, 1⟩, ⟨1005, 3⟩]
    let swapped : List Key := [⟨1000, 1⟩, ⟨1000, 2⟩, ⟨1005, 3⟩]
    Orders.Sorted i.orders ∧ keys.Nodup ∧ (∀ key ∈ keys, ∃ o ∈ i.orders, o.key = key)
      ∧ i.remaining 20 [[⟨1000, 2⟩, ⟨1000, 1⟩], [⟨1005, 3⟩]] 1 = 5
      ∧ (i.flowThrough keys 20 none).instrument.orders.map Order.qty = [0, 0, 4]
      ∧ (i.flowThrough keys 20 none).fills.length = 3
      ∧ (i.flowThrough swapped 20 none).instrument = (i.flowThrough keys 20 none).instrument := by
  intro sell i keys swapped
  have sorted : Orders.Sorted i.orders := by unfold Orders.Sorted; decide
  have nodup : keys.Nodup := by decide
  have resting : ∀ key ∈ keys, ∃ o ∈ i.orders, o.key = key := by decide
  obtain ⟨_, -, -, -, -, -, -, perm, -⟩ :=
    @flowThrough_closedForm i keys 20 none sorted nodup resting
  refine ⟨sorted, nodup, resting, by decide, by decide, by decide, ?_⟩
  refine (perm [[⟨1000, 1⟩, ⟨1000, 2⟩], [⟨1005, 3⟩]] ?_).1
  exact .cons (.swap _ _ _) (.cons (.refl _) .nil)

end Instrument

end TradingDesk
