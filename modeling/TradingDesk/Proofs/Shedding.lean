-- SUMMARY: Exhausted orders take no part in prints, so that it does not matter when they are swept.
import TradingDesk.Proofs.Upkeep

/-!
# Shedding

An exhausted order stays in the list until the next sweep. `Sheds` relates an instrument
to one that has dropped some of its exhausted orders already: they have the same live
orders, and prints do the same to both. The average price, the volume, the detail and
the marks have no part in prints, so they may differ.
-/

namespace TradingDesk

namespace Instrument

variable {keep keep' : Key → Bool} {i j k : Instrument} {o : Order} {key : Key} {keys : List Key}
  {flow price : Int} {fillPrice : Option Int} {print : Level} {initiator : Option Side}

/-- The second instrument is the first without some exhausted orders, whose keys are not kept. -/
structure ShedsBy (keep : Key → Bool) (i j : Instrument) : Prop where
  code : j.code = i.code
  kind : j.kind = i.kind
  ladder : j.ladder = i.ladder
  idle : j.idle = i.idle
  orders : j.orders = i.orders.filter fun o => keep o.key
  dropped : ∀ o ∈ i.orders, keep o.key = false → o.qty = 0 ∧ 0 ≤ o.escrow

namespace ShedsBy

theorem keep_of_live (h : ShedsBy keep i j) (live : o ∈ i.liveOrders) : keep o.key = true := by
  obtain ⟨mem, pos⟩ := mem_liveOrders.mp live
  by_contra dropped
  have := (h.dropped o mem (by simpa using dropped)).1
  omega

theorem liveOrders (h : ShedsBy keep i j) : j.liveOrders = i.liveOrders := by
  simp only [Instrument.liveOrders, h.orders, List.filter_filter]
  apply List.filter_congr
  intro o mem
  by_cases live : o.isLive = true
  · have kept := h.keep_of_live (mem_liveOrders.mpr ⟨mem, of_decide_eq_true live⟩)
    rw [live, kept]
    rfl
  · simp [live]

theorem find? (h : ShedsBy keep i j) (kept : keep key = true) :
    Orders.find? key j.orders = Orders.find? key i.orders := by
  simp only [Orders.find?, h.orders, List.find?_filter]
  congr 1
  funext o
  by_cases here : o.key = key
  · simp [here, kept]
  · simp [here]

/-- Changing an order that both have. -/
theorem update (h : ShedsBy keep i j) (kept : keep key = true) {f : Order → Order}
    (hf : ∀ o, (f o).key = o.key) :
    ShedsBy keep { i with orders := Orders.update key f i.orders }
      { j with orders := Orders.update key f j.orders } where
  code := h.code
  kind := h.kind
  ladder := h.ladder
  idle := h.idle
  orders := by
    simp only [Orders.update, h.orders, List.filter_map]
    congr 1
    apply List.filter_congr
    intro o _
    simp only [Function.comp_apply]
    split
    · rw [hf]
    · rfl
  dropped := by
    intro o ho notKept
    obtain ⟨p, hp, rfl⟩ := List.mem_map.mp ho
    by_cases here : p.key = key
    · rw [if_pos (beq_iff_eq.mpr here), hf, here, kept] at notKept
      cases notKept
    · rw [if_neg (by simpa using here)] at notKept ⊢
      exact h.dropped p hp notKept

theorem deficits (h : ShedsBy keep i j) : j.deficits = i.deficits := by
  simp only [Instrument.deficits, h.idle, h.code, h.orders, List.filter_filter]
  congr 2
  apply List.filter_congr
  intro o ho
  by_cases kept : keep o.key = true
  · simp [kept]
  · obtain ⟨none, nonneg⟩ := h.dropped o ho (by simpa using kept)
    have : ¬(o.qty < 0 ∨ o.escrow < 0) := by omega
    simp [kept, this]

/-- Nothing is shed between instruments that differ in what has no part in prints. -/
theorem of_same (code : j.code = i.code) (kind : j.kind = i.kind) (ladder : j.ladder = i.ladder)
    (idle : j.idle = i.idle) (orders : j.orders = i.orders) : ShedsBy (fun _ => true) i j where
  code := code
  kind := kind
  ladder := ladder
  idle := idle
  orders := by simp [orders]
  dropped := by simp

theorem trans (first : ShedsBy keep i j) (second : ShedsBy keep' j k) :
    ShedsBy (fun key => keep key && keep' key) i k where
  code := second.code.trans first.code
  kind := second.kind.trans first.kind
  ladder := second.ladder.trans first.ladder
  idle := second.idle.trans first.idle
  orders := by
    rw [second.orders, first.orders, List.filter_filter]
    exact List.filter_congr fun o _ => Bool.and_comm _ _
  dropped := by
    intro o ho notBoth
    by_cases kept : keep o.key = true
    · have mem : o ∈ j.orders := by
        rw [first.orders, List.mem_filter]
        exact ⟨ho, kept⟩
      exact second.dropped o mem (by simpa [kept] using notBoth)
    · exact first.dropped o ho (by simpa using kept)

end ShedsBy

/-! ## Fills -/

/-- What prints do alike: the fills are the same, and what is left differs by exhausted orders. -/
structure Alike (keep : Key → Bool) (m n : Matched) : Prop where
  fills : n.fills = m.fills
  sheds : ShedsBy keep m.instrument n.instrument

theorem alike_start (h : ShedsBy keep i j) : Alike keep (.start i) (.start j) := ⟨rfl, h⟩

theorem Alike.trans {m n p : Matched} (first : Alike keep m n) (second : Alike keep' n p) :
    Alike (fun key => keep key && keep' key) m p :=
  ⟨second.fills.trans first.fills, first.sheds.trans second.sheds⟩

theorem Alike.append {m n p : Matched} {step : Instrument → Matched} (first : Alike keep m n)
    (second : Alike keep' (step m.instrument) p) :
    Alike keep' (m.andThen step) ⟨p.instrument, n.fills ++ p.fills⟩ where
  fills := congrArg₂ (· ++ ·) first.fills second.fills
  sheds := second.sheds

theorem Alike.andThen {m n : Matched} {step step' : Instrument → Matched} (first : Alike keep m n)
    (second : Alike keep' (step m.instrument) (step' n.instrument)) :
    Alike keep' (m.andThen step) (n.andThen step') := first.append second

theorem ShedsBy.shrinkOrder {idle idle' : Int} (h : ShedsBy keep i j) (kept : keep key = true)
    (n : Int) (same : idle' = idle) :
    ShedsBy keep { i.shrinkOrder key n with idle } { j.shrinkOrder key n with idle := idle' } := by
  have updated := h.update kept fun p => @Order.key_shrink i.kind p n
  simp only [Instrument.shrinkOrder, h.kind]
  exact ⟨h.code, rfl, h.ladder, same, updated.orders, updated.dropped⟩

/-- A fill of an order that both have. -/
theorem ShedsBy.fill (h : ShedsBy keep i j) (kept : keep o.key = true) (price qty : Int) :
    i.fill o price qty = none ∧ j.fill o price qty = none
      ∨ ∃ i' j' f, i.fill o price qty = some (i', f) ∧ j.fill o price qty = some (j', f)
        ∧ ShedsBy keep i' j' := by
  unfold Instrument.fill
  by_cases none : min qty o.qty ≤ 0
  · exact .inl ⟨if_pos none, if_pos none⟩
  · cases o.side with
    | buy =>
      have after := h.shrinkOrder kept (min qty o.qty) (congrArg (· + min qty o.qty) h.idle)
      refine .inr ⟨_, _, _, if_neg none, (if_neg none).trans ?_, after⟩
      rw [Option.some.injEq, Prod.mk.injEq, Fill.mk.injEq]
      exact ⟨rfl, rfl, rfl, rfl, by rw [h.kind], by rw [h.kind], after.deficits⟩
    | sell =>
      have after := h.shrinkOrder kept (min qty o.qty) h.idle
      refine .inr ⟨_, _, _, if_neg none, (if_neg none).trans ?_, after⟩
      rw [Option.some.injEq, Prod.mk.injEq, Fill.mk.injEq]
      exact ⟨rfl, rfl, rfl, rfl, by rw [h.kind], rfl, after.deficits⟩

theorem ShedsBy.pop (h : ShedsBy keep i j) (kept : keep key = true) (flow price : Int) :
    (j.pop key flow price).used = (i.pop key flow price).used
      ∧ Alike keep (i.pop key flow price).matched (j.pop key flow price).matched := by
  simp only [Instrument.pop, h.find? kept]
  cases found : Orders.find? key i.orders with
  | none => exact ⟨rfl, alike_start h⟩
  | some o =>
    obtain rfl := Orders.key_of_find? found
    have advanced : ShedsBy keep (i.passed o.key (o.intake flow))
        (j.passed o.key (o.intake flow)) := h.update kept fun _ => rfl
    have keptThen : keep (o.advanceQueue (o.intake flow)).key = true := kept
    have filled := advanced.fill keptThen price (o.intake flow).filled
    simp only [passed] at filled
    rcases filled with ⟨noneI, noneJ⟩ | ⟨i', j', f, someI, someJ, after⟩
    · simp only [noneI, noneJ, true_and]
      exact alike_start advanced
    · simp only [someI, someJ, true_and]
      exact ⟨rfl, after⟩

theorem ShedsBy.flowLevel (h : ShedsBy keep i j) (kept : ∀ key ∈ keys, keep key = true)
    (fillPrice : Option Int) (flow : Int) :
    (j.flowLevel fillPrice flow keys).used = (i.flowLevel fillPrice flow keys).used
      ∧ Alike keep (i.flowLevel fillPrice flow keys).matched
          (j.flowLevel fillPrice flow keys).matched := by
  induction keys generalizing i j with
  | nil => exact ⟨rfl, alike_start h⟩
  | cons key keys ih =>
    obtain ⟨here, later⟩ := List.forall_mem_cons.mp kept
    obtain ⟨used, first⟩ := h.pop here flow (fillPrice.getD key.price)
    obtain ⟨usedThen, rest⟩ := ih first.sheds later
    exact ⟨congrArg₂ max used usedThen, congrArg₂ (· ++ ·) first.fills rest.fills, rest.sheds⟩

theorem ShedsBy.flowLevels {levels : List (List Key)} (h : ShedsBy keep i j)
    (kept : ∀ keys ∈ levels, ∀ key ∈ keys, keep key = true) :
    Alike keep (i.flowLevels fillPrice flow levels) (j.flowLevels fillPrice flow levels) := by
  induction levels generalizing i j flow with
  | nil => exact alike_start h
  | cons keys levels ih =>
    obtain ⟨here, later⟩ := List.forall_mem_cons.mp kept
    simp only [Instrument.flowLevels]
    split
    · exact alike_start h
    · obtain ⟨used, first⟩ := h.flowLevel here fillPrice flow
      rw [used]
      exact first.andThen (ih first.sheds later)

theorem ShedsBy.flowThrough (h : ShedsBy keep i j) (kept : ∀ key ∈ keys, keep key = true) :
    Alike keep (i.flowThrough keys flow fillPrice) (j.flowThrough keys flow fillPrice) := by
  apply h.flowLevels
  intro level hlevel key hkey
  have mem : key ∈ (keys.splitBy fun a b => a.price == b.price).flatten :=
    List.mem_flatten.mpr ⟨level, hlevel, hkey⟩
  rw [List.flatten_splitBy] at mem
  exact kept key mem

/-! ## Prints -/

theorem ShedsBy.printQueue (h : ShedsBy keep i j) (side : Side) :
    j.printQueue print initiator side = i.printQueue print initiator side := by
  simp only [Instrument.printQueue, printReaches, h.liveOrders, h.kind, h.ladder]

theorem ShedsBy.kept_printQueue (h : ShedsBy keep i j) (side : Side) :
    ∀ key ∈ i.printQueue print initiator side, keep key = true := by
  intro key hkey
  obtain ⟨o, live, rfl, -⟩ := mem_printQueue.mp hkey
  exact h.keep_of_live live

theorem ShedsBy.tradeFill (h : ShedsBy keep i j) (print : Level) (initiator : Option Side) :
    Alike keep (i.tradeFill print initiator) (j.tradeFill print initiator) := by
  simp only [Instrument.tradeFill, h.printQueue]
  have buys : Alike keep (i.flowThrough (i.printQueue print initiator .buy) print.qty none)
      (j.flowThrough (i.printQueue print initiator .buy) print.qty none) :=
    h.flowThrough (h.kept_printQueue .buy)
  exact buys.andThen (buys.sheds.flowThrough (h.kept_printQueue .sell))

/-- Prints do the same with and without exhausted orders. -/
theorem ShedsBy.tradeFills (h : ShedsBy keep i j) (market : Ladder) (prints : List Level) :
    Alike keep (i.tradeFills market prints) (j.tradeFills market prints) := by
  induction prints generalizing i j with
  | nil => exact alike_start h
  | cons print prints ih =>
    have first := h.tradeFill print (market.aggressor print.price)
    exact first.andThen (ih first.sheds)

/-! ## Sweeps -/

/-- A sweep sheds the exhausted orders. -/
theorem shedsBy_sweep (sorted : Orders.Sorted i.orders)
    (funded : ∀ o ∈ i.orders, 0 ≤ o.qty ∧ 0 ≤ o.escrow) :
    ShedsBy (fun key => i.liveOrders.any (·.key == key)) i i.sweep where
  code := rfl
  kind := rfl
  ladder := rfl
  idle := rfl
  orders := by
    apply List.filter_congr
    intro o ho
    by_cases live : o.isLive = true
    · rw [live, eq_comm, List.any_eq_true]
      exact ⟨o, List.mem_filter.mpr ⟨ho, live⟩, beq_self_eq_true o.key⟩
    · rw [Bool.eq_false_iff.mpr live, eq_comm, List.any_eq_false]
      intro p hp same
      obtain rfl := sorted.eq_of_key (List.mem_of_mem_filter hp) ho (eq_of_beq same)
      exact live (List.mem_filter.mp hp).2
  dropped := by
    intro o ho gone
    obtain ⟨nonneg, escrow⟩ := funded o ho
    have dead : ¬0 < o.qty := fun live => by
      have kept : i.liveOrders.any (·.key == o.key) = true :=
        List.any_eq_true.mpr ⟨o, mem_liveOrders.mpr ⟨ho, live⟩, beq_self_eq_true o.key⟩
      rw [gone] at kept
      cases kept
    exact ⟨le_antisymm (not_lt.mp dead) nonneg, escrow⟩

end Instrument

end TradingDesk
