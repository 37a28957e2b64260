-- SUMMARY: Requests resolve into operations that can be carried out, as large as they can be.
import Mathlib.Order.Bounds.Basic
import TradingDesk.Proofs.Fees
import TradingDesk.Proofs.Opening
import TradingDesk.Proofs.Operations

/-!
# Allotments are sound and greatest

Whatever is asked, the operations that a request resolves to can be carried out in
turn, and what they place is the greatest quantity in whole lots that the cash or the
idle holdings are enough for. A modified order is priced before its cancels are
carried out; that it is covered afterwards is because they set free what was foreseen.
-/

namespace TradingDesk

/-! ## Whole lots -/

theorem Kind.isGreatest_roundLot {kind : Kind} {m : Int} (pos : 0 < kind.roundLot m) :
    IsGreatest {q | 0 < q ∧ kind.lot ∣ q ∧ q ≤ m} (kind.roundLot m) := by
  have nonneg : 0 ≤ m := by
    by_contra neg
    have : kind.roundLot m = 0 := if_pos (by omega)
    omega
  refine ⟨⟨pos, kind.lot_dvd_roundLot m, kind.roundLot_le nonneg⟩, ?_⟩
  rintro q ⟨-, lots, le⟩
  exact kind.le_roundLot lots le

theorem Kind.eq_empty_of_roundLot {kind : Kind} {m : Int} (none : kind.roundLot m ≤ 0) :
    {q | 0 < q ∧ kind.lot ∣ q ∧ q ≤ m} = ∅ := by
  rw [Set.eq_empty_iff_forall_notMem]
  rintro q ⟨pos, lots, le⟩
  have := kind.le_roundLot lots le
  omega

theorem Kind.pos_of_validPrice {kind : Kind} {price : Int} (h : kind.validPrice price = true) :
    0 < price := by
  simp only [validPrice, Bool.and_eq_true, decide_eq_true_eq] at h
  exact h.1

namespace Instrument

variable {i : Instrument} {side : Side} {price cash : Int}

/-! ## Prices -/

/-- The price at which an order asked for at `price` is placed: no further than the
opposite best. -/
def limit (i : Instrument) (side : Side) (price : Int) : Int :=
  if i.ladder.opposite side ≤ 0 then price
  else match side with
    | .buy => min price (i.ladder.opposite side)
    | .sell => max price (i.ladder.opposite side)

/-- Whether a price is not beyond the opposite best, where there is one. -/
def Within (i : Instrument) (side : Side) (price : Int) : Prop :=
  0 < i.ladder.opposite side → match side with
    | .buy => price ≤ i.ladder.opposite side
    | .sell => i.ladder.opposite side ≤ price

theorem within_limit : i.Within side (i.limit side price) := by
  intro pos
  simp only [limit, if_neg (not_le.mpr pos)]
  cases side with
  | buy => exact min_le_right _ _
  | sell => exact le_max_right _ _

theorem clampPrice_of_valid (valid : i.kind.validPrice (i.limit side price) = true) :
    i.clampPrice side price = .ok (i.limit side price) :=
  if_pos valid

theorem clampPrice_of_invalid (invalid : ¬i.kind.validPrice (i.limit side price) = true) :
    i.clampPrice side price = .error (.invalidTick side i.code (i.limit side price)) :=
  if_neg invalid

/-! ## Quantities -/

/-- The quantities that an order may have: whole lots that the cash or the idle holdings
are enough for, and no more than `wanted`. -/
def allowed (i : Instrument) (cash : Int) (side : Side) (price : Int) (wanted : Option Int) :
    Set Int :=
  {q | 0 < q ∧ i.kind.lot ∣ q ∧ i.Covers cash side price q ∧ ∀ m ∈ wanted, q ≤ m}

/-- The most that the cash or the idle holdings are enough for. -/
def most (i : Instrument) (cash : Int) (side : Side) (price : Int) : Int :=
  match side with
  | .buy => i.kind.maxAffordable price cash
  | .sell => i.idle

theorem covers_iff {q : Int} (pos : 0 < price) (lots : i.kind.lot ∣ q) (hq : 0 < q) :
    i.Covers cash side price q ↔ q ≤ i.most cash side price := by
  cases side with
  | buy => exact (i.kind.le_maxAffordable pos lots hq).symm
  | sell => exact Iff.rfl

theorem allowed_eq {bound : Int} {wanted : Option Int} (pos : 0 < price)
    (hbound : ∀ q, q ≤ bound ↔ q ≤ i.most cash side price ∧ ∀ m ∈ wanted, q ≤ m) :
    i.allowed cash side price wanted = {q | 0 < q ∧ i.kind.lot ∣ q ∧ q ≤ bound} := by
  ext q
  simp only [allowed, Set.mem_ofPred_eq, hbound]
  constructor
  · rintro ⟨hq, lots, covers, le⟩
    exact ⟨hq, lots, (covers_iff pos lots hq).mp covers, le⟩
  · rintro ⟨hq, lots, le, rest⟩
    exact ⟨hq, lots, (covers_iff pos lots hq).mpr le, rest⟩

/-- The most that a modified order can have: no more than its cancels take away, and
paid for with the cash that they set free. -/
def mostReplaced (i : Instrument) (cash : Int) (side : Side) (price : Int)
    (plan : List (Order × Int)) : Int :=
  match side with
  | .buy =>
    min (plan.map Prod.snd).sum
      (i.kind.maxAffordable price (cash + (plan.map fun (o, n) => o.release i.kind n).sum))
  | .sell => (plan.map Prod.snd).sum

private theorem operations_ite {c : Prop} [Decidable c] {why : Refusal} {ops : List Operation} :
    (if c then Resolution.refuse why else Resolution.of ops).allotment.operations
      = if c then [] else ops := by
  split <;> rfl

theorem allotPlace_of_valid {qty : Int} (valid : i.kind.validPrice (i.limit side price) = true) :
    (i.allotPlace cash side price qty).allotment.operations =
      let most := i.most cash side (i.limit side price)
      let placed := i.kind.roundLot (if qty = 0 then most else min qty most)
      if placed ≤ 0 then [] else [.insert i.code side (i.limit side price) placed] := by
  simp only [allotPlace, placeUpTo, clampPrice_of_valid valid]
  cases side <;> exact operations_ite

theorem allotModify_of_valid {qty newPrice : Int}
    (some : i.cancelPlan side price qty ≠ [])
    (valid : i.kind.validPrice (i.limit side newPrice) = true)
    (other : i.limit side newPrice ≠ price) :
    (i.allotModify cash side price qty newPrice).allotment.operations =
      let plan := i.cancelPlan side price qty
      let placed := i.kind.roundLot (i.mostReplaced cash side (i.limit side newPrice) plan)
      if placed ≤ 0 then []
      else i.cancels plan ++ [.insert i.code side (i.limit side newPrice) placed] := by
  simp only [allotModify, replaceUpTo, clampPrice_of_valid valid, if_neg other, sumOf_eq]
  cases plan : i.cancelPlan side price qty with
  | nil => exact absurd plan some
  | cons part parts => cases side <;> exact operations_ite

theorem allotModify_of_invalid {qty newPrice : Int}
    (h : i.cancelPlan side price qty = [] ∨ ¬i.kind.validPrice (i.limit side newPrice) = true
      ∨ i.limit side newPrice = price) :
    (i.allotModify cash side price qty newPrice).allotment.operations = [] := by
  cases plan : i.cancelPlan side price qty with
  | nil => simp only [allotModify, plan]; rfl
  | cons part parts =>
    by_cases valid : i.kind.validPrice (i.limit side newPrice) = true
    · have same : i.limit side newPrice = price := by simpa [plan, valid] using h
      simp only [allotModify, plan, clampPrice_of_valid valid, if_pos same]
      rfl
    · simp only [allotModify, plan, clampPrice_of_invalid valid]
      rfl

end Instrument

/-! ## Plans for cancels -/

section CancelPlan

variable {wanted : Option Int} {os : List Order}

theorem cancelPlan_sublist : ((cancelPlan wanted os).map Prod.fst).Sublist os := by
  induction os generalizing wanted with
  | nil => exact List.nil_sublist []
  | cons o os ih =>
    cases wanted with
    | none =>
      have rest : ((cancelPlan none os).map Prod.fst).Sublist os := ih
      exact rest.cons_cons o
    | some left =>
      simp only [cancelPlan]
      split
      · exact List.nil_sublist _
      · exact ih.cons_cons o

theorem parts_of_cancelPlan (live : ∀ o ∈ os, 0 < o.qty) :
    ∀ p ∈ cancelPlan wanted os, 0 < p.2 ∧ p.2 ≤ p.1.qty := by
  induction os generalizing wanted with
  | nil => simp [cancelPlan]
  | cons o os ih =>
    have first := live o List.mem_cons_self
    have rest : ∀ wanted, ∀ p ∈ cancelPlan wanted os, 0 < p.2 ∧ p.2 ≤ p.1.qty :=
      fun _ => ih fun q hq => live q (List.mem_cons_of_mem o hq)
    cases wanted with
    | none =>
      refine List.forall_mem_cons.mpr ⟨⟨first, le_rfl⟩, rest none⟩
    | some left =>
      simp only [cancelPlan]
      split
      · simp
      next more =>
        refine List.forall_mem_cons.mpr ⟨⟨lt_min first (not_le.mp more), min_le_left _ _⟩, rest _⟩

end CancelPlan

namespace Instrument

variable {i : Instrument} {side : Side} {price qty : Int}

theorem mem_level_iff {o : Order} : o ∈ Orders.level side price i.orders
    ↔ o ∈ i.orders ∧ o.price = price ∧ o.side = side ∧ 0 < o.qty := by
  simp [Orders.level, Order.isLive, and_assoc]

theorem mem_level {o : Order} (h : o ∈ Orders.level side price i.orders) :
    o ∈ i.orders ∧ o.price = price ∧ o.side = side ∧ 0 < o.qty :=
  mem_level_iff.mp h

theorem nodup_level (sorted : Orders.Sorted i.orders) :
    ((Orders.level side price i.orders).map Order.key).Nodup := by
  rw [Orders.level, List.map_reverse, List.nodup_reverse]
  exact sorted.filter.nodup

theorem mem_cancelPlan {p : Order × Int} (h : p ∈ i.cancelPlan side price qty) :
    p.1 ∈ Orders.level side price i.orders :=
  cancelPlan_sublist.subset (List.mem_map_of_mem h)

theorem plan_cancelPlan (sorted : Orders.Sorted i.orders) (side : Side) (price qty : Int) :
    i.Plan (i.cancelPlan side price qty) where
  resting := fun _ hp => (mem_level (mem_cancelPlan hp)).1
  parts := parts_of_cancelPlan fun _ ho => (mem_level ho).2.2.2
  distinct := by
    have keys : (i.cancelPlan side price qty).map (fun p => p.1.key)
        = ((i.cancelPlan side price qty).map Prod.fst).map Order.key := by
      rw [List.map_map]
      rfl
    rw [keys]
    exact (nodup_level sorted).sublist (cancelPlan_sublist.map Order.key)

/-- The plan that cancels all live orders. -/
theorem plan_all (sorted : Orders.Sorted i.orders) :
    i.Plan (i.liveOrders.map fun o => (o, o.qty)) where
  resting := by
    simp only [List.forall_mem_map]
    exact fun o ho => List.mem_of_mem_filter ho
  parts := by
    simp only [List.forall_mem_map]
    intro o ho
    have live : 0 < o.qty := by simpa [Order.isLive] using List.of_mem_filter ho
    exact ⟨live, le_rfl⟩
  distinct := by
    rw [List.map_map]
    exact sorted.filter.nodup

theorem targets_cancels (plan : List (Order × Int)) :
    (i.cancels plan).filterMap Operation.target? = plan.map fun p => (i.code, p.1.key) := by
  simp only [cancels, List.filterMap_map]
  rw [← List.filterMap_eq_map]
  rfl

theorem Plan.targets {plan : List (Order × Int)} (h : i.Plan plan) :
    ((i.cancels plan).filterMap Operation.target?).Nodup := by
  rw [targets_cancels]
  have paired : plan.map (fun p => (i.code, p.1.key))
      = (plan.map fun p => p.1.key).map fun key => (i.code, key) := by
    rw [List.map_map]
    rfl
  rw [paired]
  exact h.distinct.map fun _ _ same => (Prod.mk.inj same).2

end Instrument

namespace Book

variable {b : Book} {r : Request} {side : Side}

/-! ## Resolutions -/

/-- The books that can come about: instruments are added, calls are made in any order,
and market data and places in queues change in any way. -/
inductive Reachable : Book → Prop
  | ofBalance (balance : Int) : Reachable (ofBalance balance)
  | add {b : Book} (h : Reachable b) (code : String) (kind : Kind) (holdings : Int) :
      Reachable (b.add code kind holdings)
  | call {b : Book} (h : Reachable b) (c : Command) : Reachable (b.call c)
  | observe {b b' : Book} (h : Reachable b) (same : b'.account = b.account) : Reachable b'

theorem Reachable.wellFormed (h : b.Reachable) : b.WellFormed := by
  induction h with
  | ofBalance balance => exact wellFormed_ofBalance balance
  | add _ code kind holdings ih => exact ih.add code kind holdings
  | call _ c ih => exact ih.call c
  | observe _ same ih => exact ih.of_account same

/-- A request to place an order resolves to nothing, or to one order at the limit price
with the greatest allowed quantity. It resolves to nothing only if the price is not
valid or no quantity is allowed. -/
def PlacesMost (b : Book) (side : Side) (r : Request) (ops : List Operation) : Prop :=
  match b.find? r.code with
  | none => ops = []
  | some i =>
    let price := i.limit side r.price
    let allowed := i.allowed b.balance side price (if r.qty = 0 then none else some r.qty)
    (ops = [] ∧ (¬i.kind.validPrice price = true ∨ allowed = ∅))
    ∨ ∃ q, ops = [.insert r.code side price q] ∧ i.kind.validPrice price = true
        ∧ i.Within side price ∧ IsGreatest allowed q

/-- A request to modify orders resolves to nothing, or to its cancels and one order at
another price, with the greatest quantity that is allowed once they are carried out and
that is not above what they cancel. It resolves to nothing only if there is nothing to
cancel, the price is not valid or unchanged, or no quantity is allowed. -/
def ReplacesMost (b : Book) (side : Side) (r : Request) (ops : List Operation) : Prop :=
  match b.find? r.code with
  | none => ops = []
  | some i =>
    let price := i.limit side r.newPrice
    let plan := i.cancelPlan side r.price r.qty
    ∃ b' i', Carried b (i.cancels plan) b' ∧ b'.find? r.code = some i' ∧
      let allowed := i'.allowed b'.balance side price (some (plan.map Prod.snd).sum)
      (ops = [] ∧ (plan = [] ∨ ¬i.kind.validPrice price = true ∨ price = r.price ∨ allowed = ∅))
      ∨ ∃ q, ops = i.cancels plan ++ [.insert r.code side price q] ∧ plan ≠ []
          ∧ i.kind.validPrice price = true ∧ i.Within side price ∧ price ≠ r.price
          ∧ IsGreatest allowed q

/-- What is asked of the operations that a request resolves to. -/
structure Resolves (b : Book) (r : Request) (ops : List Operation) : Prop where
  carried : ∃ b', Carried b ops b'
  distinct : (ops.filterMap Operation.target?).Nodup
  placed : ∀ side, r.action = .place side → b.PlacesMost side r ops
  replaced : ∀ side, r.action = .modify side → b.ReplacesMost side r ops

/-- Placing the greatest whole number of lots within a bound is placing the greatest
allowed quantity, if the bound says what is allowed. -/
theorem isGreatest_or_empty {i : Instrument} {cash price bound : Int} {wanted : Option Int}
    (valid : i.kind.validPrice price = true)
    (hbound : ∀ q, q ≤ bound ↔ q ≤ i.most cash side price ∧ ∀ m ∈ wanted, q ≤ m) :
    (i.kind.roundLot bound ≤ 0 ∧ i.allowed cash side price wanted = ∅)
    ∨ (¬i.kind.roundLot bound ≤ 0
        ∧ IsGreatest (i.allowed cash side price wanted) (i.kind.roundLot bound)) := by
  rw [Instrument.allowed_eq (Kind.pos_of_validPrice valid) hbound]
  by_cases nothing : i.kind.roundLot bound ≤ 0
  · exact .inl ⟨nothing, Kind.eq_empty_of_roundLot nothing⟩
  · exact .inr ⟨nothing, Kind.isGreatest_roundLot (not_le.mp nothing)⟩

theorem placesMost_allot (h : r.action = .place side) :
    b.PlacesMost side r (b.allot r).allotment.operations := by
  unfold PlacesMost
  rw [allot, h]
  cases found : b.find? r.code with
  | none => rfl
  | some i =>
    simp only
    by_cases valid : i.kind.validPrice (i.limit side r.price) = true
    · have most : ∀ q, q ≤ (if r.qty = 0 then i.most b.balance side (i.limit side r.price)
          else min r.qty (i.most b.balance side (i.limit side r.price)))
          ↔ q ≤ i.most b.balance side (i.limit side r.price)
            ∧ ∀ m ∈ (if r.qty = 0 then none else some r.qty), q ≤ m := by
        intro q
        split
        · simp
        · simp [and_comm]
      rw [Instrument.allotPlace_of_valid valid, code_of_find? found]
      rcases isGreatest_or_empty valid most with ⟨nothing, empty⟩ | ⟨some, greatest⟩
      · exact .inl ⟨if_pos nothing, .inr empty⟩
      · exact .inr ⟨_, if_neg some, valid, Instrument.within_limit, greatest⟩
    · rw [Instrument.allotPlace, Instrument.clampPrice_of_invalid valid]
      exact .inl ⟨rfl, .inl valid⟩

/-- What the cancels of a level set free, as `allotModify` foresees it. -/
theorem most_of_freed {i i' : Instrument} {b' : Book} {price price' qty : Int}
    (freed : Freed b i (i.cancelPlan side price qty) b' i') (idle : 0 ≤ i.idle) (q : Int) :
    let plan := i.cancelPlan side price qty
    q ≤ i.mostReplaced b.balance side price' plan
      ↔ q ≤ i'.most b'.balance side price' ∧ ∀ m ∈ some (plan.map Prod.snd).sum, q ≤ m := by
  intro plan
  have sides : ∀ p ∈ plan, p.1.side = side := fun p hp =>
    (Instrument.mem_level (Instrument.mem_cancelPlan hp)).2.2.1
  simp only [Option.mem_some_iff, forall_eq']
  cases side with
  | buy =>
    have released : (plan.map fun p => p.1.freed i.kind p.2)
        = plan.map fun p => p.1.release i.kind p.2 := by
      apply List.map_congr_left
      intro p hp
      rw [Order.freed, sides p hp]
    have cash : b'.balance = b.balance + (plan.map fun p => p.1.release i.kind p.2).sum := by
      rw [← released]
      exact freed.balance
    simp only [Instrument.mostReplaced, Instrument.most, freed.kind, cash, le_min_iff]
    exact and_comm
  | sell =>
    have returned : (plan.map fun p => p.1.returned p.2) = plan.map Prod.snd := by
      apply List.map_congr_left
      intro p hp
      rw [Order.returned, sides p hp]
    have enough : i'.idle = i.idle + (plan.map Prod.snd).sum := by
      rw [← returned]
      exact freed.idle
    simp only [Instrument.mostReplaced, Instrument.most, enough]
    omega

theorem replacesMost_allot (hb : b.WellFormed) (idle : ∀ i ∈ b.instruments, 0 ≤ i.idle)
    (h : r.action = .modify side) : b.ReplacesMost side r (b.allot r).allotment.operations := by
  unfold ReplacesMost
  rw [allot, h]
  cases found : b.find? r.code with
  | none => rfl
  | some i =>
    have mem := mem_of_find? found
    have hcode := code_of_find? found
    simp only
    rw [← hcode] at found ⊢
    obtain ⟨b', i', carried, freed⟩ :=
      carried_cancels hb found (Instrument.plan_cancelPlan (hb.sorted i mem) side r.price r.qty)
    refine ⟨b', i', carried, freed.found, ?_⟩
    by_cases impossible : i.cancelPlan side r.price r.qty = []
        ∨ ¬i.kind.validPrice (i.limit side r.newPrice) = true ∨ i.limit side r.newPrice = r.price
    · rw [Instrument.allotModify_of_invalid impossible]
      refine .inl ⟨rfl, ?_⟩
      rcases impossible with nothing | invalid | same
      · exact .inl nothing
      · exact .inr (.inl invalid)
      · exact .inr (.inr (.inl same))
    · obtain ⟨some, valid, other⟩ : _ ≠ [] ∧ i.kind.validPrice (i.limit side r.newPrice) = true
          ∧ i.limit side r.newPrice ≠ r.price := by
        simpa only [not_or, not_not] using impossible
      rw [Instrument.allotModify_of_valid some valid other]
      have validAfter : i'.kind.validPrice (i.limit side r.newPrice) = true := by
        rw [freed.kind]
        exact valid
      have greatest := isGreatest_or_empty validAfter (most_of_freed freed (idle i mem))
      rw [freed.kind] at greatest
      rcases greatest with ⟨nothing, empty⟩ | ⟨more, greatest⟩
      · exact .inl ⟨if_pos nothing, .inr (.inr (.inr empty))⟩
      · exact .inr ⟨_, if_neg more, some, valid, Instrument.within_limit, other, greatest⟩

/-! ## Operations of each kind of request -/

theorem fits_of_allowed {i : Instrument} {price q : Int} {wanted : Option Int}
    (found : b.find? i.code = some i) (pos : 0 < price)
    (h : q ∈ i.allowed b.balance side price wanted) : b.Fits (.insert i.code side price q) :=
  ⟨i, found, pos, h.1, h.2.1, h.2.2.1⟩

theorem carried_insert {code : String} {i : Instrument} {price q : Int} {wanted : Option Int}
    (hb : b.WellFormed) (found : b.find? code = some i) (pos : 0 < price)
    (h : q ∈ i.allowed b.balance side price wanted) :
    ∃ b', Carried b [.insert code side price q] b' ∧ b'.WellFormed
      ∧ ∀ c, c ≠ code → b'.find? c = b.find? c := by
  have hcode := code_of_find? found
  subst hcode
  obtain ⟨b', done, hb', others⟩ := execute_insert hb found side price q
  exact ⟨b', .single (fits_of_allowed found pos h) done, hb', others⟩

theorem carried_place (hb : b.WellFormed) (h : r.action = .place side) :
    ∃ b', Carried b (b.allot r).allotment.operations b' := by
  have most := placesMost_allot (b := b) h
  unfold PlacesMost at most
  split at most
  next => exact ⟨b, most ▸ .nil b⟩
  next i found =>
    rcases most with ⟨nothing, -⟩ | ⟨q, ops, valid, -, greatest⟩
    · exact ⟨b, nothing ▸ .nil b⟩
    · obtain ⟨b', carried, -⟩ :=
        carried_insert hb found (Kind.pos_of_validPrice valid) greatest.1
      exact ⟨b', ops ▸ carried⟩

theorem carried_modify (hb : b.WellFormed) (idle : ∀ i ∈ b.instruments, 0 ≤ i.idle)
    (h : r.action = .modify side) : ∃ b', Carried b (b.allot r).allotment.operations b' := by
  have most := replacesMost_allot hb idle h
  unfold ReplacesMost at most
  split at most
  next => exact ⟨b, most ▸ .nil b⟩
  next i found =>
    obtain ⟨b', i', carried, found', most⟩ := most
    rcases most with ⟨nothing, -⟩ | ⟨q, ops, -, valid, -, -, greatest⟩
    · exact ⟨b, nothing ▸ .nil b⟩
    · obtain ⟨b'', inserted, -⟩ :=
        carried_insert (carried.wellFormed hb) found' (Kind.pos_of_validPrice valid) greatest.1
      exact ⟨b'', ops ▸ carried.append inserted⟩

theorem carried_cancel {i : Instrument} {price qty : Int} (hb : b.WellFormed)
    (found : b.find? i.code = some i) :
    ∃ b', Carried b (i.allotCancel side price qty).allotment.operations b' := by
  simp only [Instrument.allotCancel]
  split
  next => exact ⟨b, .nil b⟩
  next plan =>
    obtain ⟨b', -, carried, -⟩ := carried_cancels hb found
      (Instrument.plan_cancelPlan (hb.sorted i (mem_of_find? found)) side price qty)
    exact ⟨b', carried⟩

theorem carried_cancelAll (hb : b.WellFormed) :
    ∃ b', Carried b b.allotCancelAll.allotment.operations b' := by
  apply carried_flatMap hb (fun i hi => hb.find?_eq_some.mpr ⟨hi, rfl⟩) hb.nodup
  intro i hi b' hb' found
  obtain ⟨b'', _, carried, freed⟩ := carried_cancels hb' found (Instrument.plan_all (hb.sorted i hi))
  exact ⟨b'', carried, freed.wellFormed, freed.others⟩

theorem carried_sellAll (hb : b.WellFormed) :
    ∃ b', Carried b b.allotSellAll.allotment.operations b' := by
  simp only [allotSellAll, List.flatMap_map]
  apply carried_flatMap hb (fun i hi => hb.find?_eq_some.mpr ⟨hi, rfl⟩) hb.nodup
  intro i hi b' hb' found
  simp only [Instrument.sellOff]
  split
  next => exact ⟨b', .nil b', hb', fun _ _ => rfl⟩
  next some =>
    split
    next => exact ⟨b', .nil b', hb', fun _ _ => rfl⟩
    next bid =>
      obtain ⟨⟨pos, lots, le⟩, -⟩ := Kind.isGreatest_roundLot (not_le.mp some)
      have allowed : i.kind.roundLot i.idle ∈ i.allowed b'.balance .sell i.ladder.bestBid.price none :=
        ⟨pos, lots, le, by simp⟩
      exact carried_insert hb' found (not_le.mp bid) allowed

theorem distinct_cancelAll (hb : b.WellFormed) :
    (b.allotCancelAll.allotment.operations.filterMap Operation.target?).Nodup := by
  simp only [allotCancelAll, List.filterMap_flatMap]
  rw [List.nodup_flatMap]
  refine ⟨fun i hi => (Instrument.plan_all (hb.sorted i hi)).targets, ?_⟩
  have codes := hb.nodup
  rw [List.Nodup, List.pairwise_map] at codes
  apply codes.imp
  intro i j ne
  simp only [Function.onFun, Instrument.targets_cancels]
  rw [List.disjoint_left]
  intro t hi hj
  obtain ⟨p, -, rfl⟩ := List.mem_map.mp hi
  obtain ⟨q, -, same⟩ := List.mem_map.mp hj
  exact ne (Prod.mk.inj same).1.symm

theorem targets_sellAll :
    b.allotSellAll.allotment.operations.filterMap Operation.target? = [] := by
  simp only [allotSellAll, List.flatMap_map, List.filterMap_flatMap, List.flatMap_eq_nil_iff]
  intro i _
  simp only [Instrument.sellOff]
  split
  · rfl
  · split <;> rfl

theorem distinct_cancel {i : Instrument} {price qty : Int} (sorted : Orders.Sorted i.orders) :
    ((i.allotCancel side price qty).allotment.operations.filterMap Operation.target?).Nodup := by
  simp only [Instrument.allotCancel]
  split
  next => exact List.nodup_nil
  next => exact (Instrument.plan_cancelPlan sorted ..).targets

theorem carried_allot (hb : b.WellFormed) (idle : ∀ i ∈ b.instruments, 0 ≤ i.idle) :
    ∃ b', Carried b (b.allot r).allotment.operations b' := by
  cases h : r.action with
  | place side => exact carried_place hb h
  | modify side => exact carried_modify hb idle h
  | cancelAll =>
    rw [allot, h]
    exact carried_cancelAll hb
  | sellAll =>
    rw [allot, h]
    exact carried_sellAll hb
  | cancel side =>
    rw [allot, h]
    cases found : b.find? r.code with
    | none => exact ⟨b, .nil b⟩
    | some i =>
      rw [← code_of_find? found] at found
      exact carried_cancel hb found

theorem distinct_allot (hb : b.WellFormed) (idle : ∀ i ∈ b.instruments, 0 ≤ i.idle) :
    ((b.allot r).allotment.operations.filterMap Operation.target?).Nodup := by
  cases h : r.action with
  | cancelAll =>
    rw [allot, h]
    exact distinct_cancelAll hb
  | sellAll =>
    rw [allot, h, targets_sellAll]
    exact List.nodup_nil
  | cancel side =>
    rw [allot, h]
    cases found : b.find? r.code with
    | none => exact List.nodup_nil
    | some i => exact distinct_cancel (hb.sorted i (mem_of_find? found))
  | place side =>
    have most := placesMost_allot (b := b) h
    unfold PlacesMost at most
    split at most
    next => simp [most]
    next =>
      rcases most with ⟨nothing, -⟩ | ⟨q, ops, -⟩
      · simp [nothing]
      · rw [ops]
        exact List.nodup_nil
  | modify side =>
    have most := replacesMost_allot hb idle h
    unfold ReplacesMost at most
    split at most
    next => simp [most]
    next i found =>
      obtain ⟨_, _, -, -, most⟩ := most
      rcases most with ⟨nothing, -⟩ | ⟨q, ops, -⟩
      · simp [nothing]
      · have inserted : [Operation.insert r.code side (i.limit side r.newPrice) q].filterMap
            Operation.target? = [] := rfl
        rw [ops, List.filterMap_append, inserted, List.append_nil]
        exact (Instrument.plan_cancelPlan (hb.sorted i (mem_of_find? found)) ..).targets

/-- Whatever is asked of a book that can come about, in which no idle holdings are below
zero, the operations of the request can be carried out in turn, cancel different orders
and place the greatest quantities there are. -/
theorem allot_resolves (hb : b.Reachable) (idle : ∀ i ∈ b.instruments, 0 ≤ i.idle) :
    b.Resolves r (b.allot r).allotment.operations := by
  have hb := hb.wellFormed
  exact ⟨carried_allot hb idle, distinct_allot hb idle, fun _ h => placesMost_allot h,
    fun _ h => replacesMost_allot hb idle h⟩

end Book

end TradingDesk
