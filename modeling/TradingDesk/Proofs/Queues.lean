-- SUMMARY: Places in a queue as intervals of market flow, and when two orders never take the same flow.
import Mathlib.Data.List.Sort
import Mathlib.Tactic.Linarith
import TradingDesk.Proofs.Account
import TradingDesk.Simulation.Flow

/-!
# Places in a queue

Market flow fills an order from `ahead` on, up to its `reach`. Flow that has gone by
moves both ends toward zero, and a cap on what others have before the orders of a price
moves them as well. `StandsBefore` is what an earlier order must be to a later one so
that they never take the same flow, however the two changes follow each other.
-/

namespace TradingDesk

namespace Order

variable {kind : Kind} {o p : Order} {flow : Int}

/-- What others have before the order. -/
def others (o : Order) : Int := max o.aheadOthers 0

/-- What my earlier orders have before the order. -/
def mine (o : Order) : Int := max o.aheadMine 0

/-- The flow that goes by before the order is filled. -/
def ahead (o : Order) : Int := o.others + o.mine

/-- The flow that fills the order. -/
def reach (o : Order) : Int := o.ahead + max o.qty 0

theorem others_nonneg : 0 ≤ o.others := le_max_right _ _

theorem mine_nonneg : 0 ≤ o.mine := le_max_right _ _

theorem ahead_nonneg : 0 ≤ o.ahead := add_nonneg others_nonneg mine_nonneg

theorem reach_nonneg : 0 ≤ o.reach := add_nonneg ahead_nonneg (le_max_right _ _)

/-! ## Flow -/

theorem intake_used : (o.intake flow).used = min (max flow 0) o.reach := by
  simp only [intake, Intake.used, reach, ahead, others, mine]
  omega

theorem intake_filled :
    (o.intake flow).filled = min (max (max flow 0 - o.ahead) 0) (max o.qty 0) := by
  simp only [intake, ahead, others, mine]
  omega

theorem intake_filled_nonneg : 0 ≤ (o.intake flow).filled := by
  rw [intake_filled]
  exact le_min (le_max_right _ _) (le_max_right _ _)

/-- The order after flow has reached it. -/
def flowed (kind : Kind) (flow : Int) (o : Order) : Order :=
  if (o.intake flow).filled ≤ 0 then o.advanceQueue (o.intake flow)
  else (o.advanceQueue (o.intake flow)).shrink kind (o.intake flow).filled

@[simp] theorem flowed_key : (o.flowed kind flow).key = o.key := by
  unfold flowed
  split
  · rfl
  · rw [key_shrink]
    rfl

@[simp] theorem flowed_side : (o.flowed kind flow).side = o.side := by
  unfold flowed
  split
  · rfl
  · rw [shrink_side]
    rfl

theorem others_shrink {n : Int} : (o.shrink kind n).others = o.others := by
  unfold shrink
  split <;> rfl

theorem mine_shrink {n : Int} : (o.shrink kind n).mine = o.mine := by
  unfold shrink
  split <;> rfl

@[simp] theorem flowed_price : (o.flowed kind flow).price = o.price :=
  congrArg Key.price flowed_key

theorem aheadOthers_flowed :
    (o.flowed kind flow).aheadOthers = o.aheadOthers - (o.intake flow).others := by
  simp only [flowed, shrink]
  repeat' split
  all_goals rfl

theorem aheadMine_flowed :
    (o.flowed kind flow).aheadMine = o.aheadMine - (o.intake flow).mine := by
  simp only [flowed, shrink]
  repeat' split
  all_goals rfl

theorem flowed_qty : (o.flowed kind flow).qty = o.qty - (o.intake flow).filled := by
  have nonneg := @intake_filled_nonneg o flow
  unfold flowed
  split
  · change o.qty = _
    omega
  · rw [shrink_qty]
    rfl

theorem ahead_flowed : (o.flowed kind flow).ahead = max (o.ahead - max flow 0) 0 := by
  simp only [ahead, others, mine, aheadOthers_flowed, aheadMine_flowed, intake]
  omega

theorem mine_flowed :
    (o.flowed kind flow).mine = min o.mine (max (o.ahead - max flow 0) 0) := by
  simp only [ahead, others, mine, aheadMine_flowed, intake]
  omega

theorem open_flowed :
    max (o.flowed kind flow).qty 0 = min (max o.qty 0) (max (o.reach - max flow 0) 0) := by
  have := @ahead_nonneg o
  rw [flowed_qty, intake_filled, reach]
  omega

theorem reach_flowed : (o.flowed kind flow).reach = max (o.reach - max flow 0) 0 := by
  have := @ahead_nonneg o
  have ahead := @ahead_flowed kind o flow
  have rest := @open_flowed kind o flow
  simp only [reach] at rest ⊢
  omega

theorem pos_of_flowed (h : 0 < (o.flowed kind flow).qty) : 0 < o.qty := by
  have nonneg := @intake_filled_nonneg o flow
  rw [flowed_qty] at h
  omega

/-! ## Orders that never take the same flow -/

/-- What an order must be to a later one so that flow is done with it before it comes to
the later one, and still so when others before them leave. -/
structure StandsBefore (o p : Order) : Prop where
  mine : o.mine + max o.qty 0 ≤ p.mine
  reach : o.reach ≤ p.ahead

instance (o p : Order) : Decidable (o.StandsBefore p) :=
  decidable_of_iff (o.mine + max o.qty 0 ≤ p.mine ∧ o.reach ≤ p.ahead)
    ⟨fun h => ⟨h.1, h.2⟩, fun h => ⟨h.mine, h.reach⟩⟩

/-- Two orders one of which stands before the other. -/
def Apart (o p : Order) : Prop := o.StandsBefore p ∨ p.StandsBefore o

instance (o p : Order) : Decidable (o.Apart p) := inferInstanceAs (Decidable (_ ∨ _))

theorem Apart.symm (h : o.Apart p) : p.Apart o := Or.symm h

/-- A relation of two orders at a price that flow, and the leaving of others, keep. -/
structure Stable (R : Order → Order → Prop) : Prop where
  flow : ∀ {o p : Order} (kind : Kind) (flow : Int), R o p → R (o.flowed kind flow) (p.flowed kind flow)
  cap : ∀ {o p o' p' : Order} {c : Int}, 0 ≤ c → R o p →
    o'.others = min o.others c → o'.mine = o.mine → o'.qty = o.qty →
    p'.others = min p.others c → p'.mine = p.mine → p'.qty = p.qty → R o' p'

theorem stable_standsBefore : Stable StandsBefore where
  flow := by
    intro o p kind flow h
    have hm := h.mine
    have hr := h.reach
    have := @ahead_nonneg o
    constructor
    · rw [mine_flowed, open_flowed, mine_flowed]
      rw [Order.reach] at hr ⊢
      omega
    · rw [reach_flowed, ahead_flowed]
      omega
  cap := by
    intro o p o' p' c hc h oOthers oMine oQty pOthers pMine pQty
    have hm := h.mine
    have hr := h.reach
    simp only [Order.reach, ahead] at hr
    constructor
    · rw [oMine, oQty, pMine]
      exact hm
    · simp only [Order.reach, ahead, oOthers, oMine, oQty, pOthers, pMine]
      omega

theorem stable_apart : Stable Apart where
  flow := fun kind flow h =>
    h.imp (stable_standsBefore.flow kind flow) (stable_standsBefore.flow kind flow)
  cap := fun hc h oOthers oMine oQty pOthers pMine pQty =>
    h.imp (fun h => stable_standsBefore.cap hc h oOthers oMine oQty pOthers pMine pQty)
      fun h => stable_standsBefore.cap hc h pOthers pMine pQty oOthers oMine oQty

/-- Orders that are not apart can be brought to where the same flow fills both. -/
theorem exists_common_flow (ho : 0 < o.qty) (hp : 0 < p.qty) (h : ¬o.Apart p) :
    ∃ c x : Int, 0 ≤ c ∧ 0 ≤ x
      ∧ min o.others c + o.mine ≤ x ∧ x < min o.others c + o.mine + o.qty
      ∧ min p.others c + p.mine ≤ x ∧ x < min p.others c + p.mine + p.qty := by
  have oo := @others_nonneg o
  have om := @mine_nonneg o
  have po := @others_nonneg p
  have pm := @mine_nonneg p
  have op : ¬(o.mine + o.qty ≤ p.mine ∧ o.others + o.mine + o.qty ≤ p.others + p.mine) := by
    rintro ⟨mine, reach⟩
    refine h (.inl ⟨?_, ?_⟩)
    · omega
    · simp only [Order.reach, ahead]
      omega
  have pq : ¬(p.mine + p.qty ≤ o.mine ∧ p.others + p.mine + p.qty ≤ o.others + o.mine) := by
    rintro ⟨mine, reach⟩
    refine h (.inr ⟨?_, ?_⟩)
    · omega
    · simp only [Order.reach, ahead]
      omega
  -- Either they overlap now, or once all others have left, or their order turns round in
  -- between, and then they start at the same place when it does.
  by_cases now : o.others + o.mine + o.qty ≤ p.others + p.mine
  · by_cases last : p.mine + p.qty ≤ o.mine
    · exact ⟨o.others + o.mine - p.mine, o.others + o.mine, by omega⟩
    · exact ⟨0, max o.mine p.mine, by omega⟩
  · by_cases now' : p.others + p.mine + p.qty ≤ o.others + o.mine
    · by_cases last : o.mine + o.qty ≤ p.mine
      · exact ⟨p.others + p.mine - o.mine, p.others + p.mine, by omega⟩
      · exact ⟨0, max o.mine p.mine, by omega⟩
    · exact ⟨max o.others p.others, max (o.others + o.mine) (p.others + p.mine), by omega⟩

/-! ## The flow that a level takes -/

/-- The flow up to the deepest place reached. -/
def deepest (flow : Int) (os : List Order) : Int :=
  os.foldr (fun o used => max (o.intake flow).used used) 0

theorem deepest_cons {os : List Order} :
    deepest flow (o :: os) = max (o.intake flow).used (deepest flow os) := rfl

theorem deepest_singleton : deepest flow [o] = (o.intake flow).used := by
  have := @reach_nonneg o
  rw [deepest_cons, intake_used]
  exact max_eq_left (le_min (le_max_right _ _) this)

theorem deepest_nonneg {os : List Order} : 0 ≤ deepest flow os := by
  induction os with
  | nil => exact le_rfl
  | cons o os ih => exact ih.trans (le_max_right _ _)

/-- The deepest reach uses no more flow than there is. -/
theorem deepest_le {os : List Order} : deepest flow os ≤ max flow 0 := by
  induction os with
  | nil => exact le_max_right _ _
  | cons o os ih =>
    refine max_le ?_ ih
    rw [intake_used]
    exact min_le_left _ _

theorem deepest_perm {os ps : List Order} (perm : os.Perm ps) : deepest flow os = deepest flow ps :=
  perm.foldr_eq' (fun o _ p _ _ => max_left_comm (p.intake flow).used (o.intake flow).used _) 0

/-- Orders of which each stands behind the ones before it do not take more flow together
than reaches the last of them. -/
theorem sum_filled_le_of_sorted (flow : Int) {os : List Order} {low : Int} (hlow : 0 ≤ low)
    (sorted : os.Pairwise fun o p => o.reach ≤ p.ahead) (above : ∀ o ∈ os, low ≤ o.ahead) :
    (os.map fun o => (o.intake flow).filled).sum
      ≤ max (deepest flow os - low) 0 := by
  induction os generalizing low with
  | nil =>
    simp
  | cons o os ih =>
    obtain ⟨first, rest⟩ := List.pairwise_cons.mp sorted
    have here := above o List.mem_cons_self
    have further := ih (by rw [reach]; omega) rest first
    simp only [List.map_cons, List.sum_cons, deepest_cons, intake_filled, intake_used] at further ⊢
    simp only [reach] at further ⊢
    omega

/-- Orders that are apart take no more flow together than the deepest reach used. -/
theorem sum_filled_le {os : List Order} (apart : os.Pairwise Apart) (live : ∀ o ∈ os, 0 < o.qty) :
    (os.map fun o => (o.intake flow).filled).sum ≤ deepest flow os := by
  let le : Order → Order → Bool := fun o p => decide (o.ahead ≤ p.ahead)
  have perm : (os.mergeSort le).Perm os := List.mergeSort_perm os le
  have sorted : (os.mergeSort le).Pairwise fun o p => le o p = true :=
    List.pairwise_mergeSort (fun a b c hab hbc => by simp only [le, decide_eq_true_eq] at *; omega)
      (fun a b => by simp only [le, Bool.or_eq_true, decide_eq_true_eq]; omega) os
  have inOrder : (os.mergeSort le).Pairwise fun o p => o.reach ≤ p.ahead := by
    have both := sorted.and ((perm.pairwise_iff fun h => Apart.symm h).mpr apart)
    refine both.imp_of_mem ?_
    intro o p ho hp h
    have first : o.ahead ≤ p.ahead := by simpa [le] using h.1
    rcases h.2 with before | after
    · exact before.reach
    · have := live p (perm.mem_iff.mp hp)
      have := after.reach
      simp only [reach] at this
      omega
  have bound := sum_filled_le_of_sorted flow le_rfl inOrder fun o _ => ahead_nonneg
  rw [deepest_perm perm, sub_zero, max_eq_left deepest_nonneg] at bound
  rw [← (perm.map fun o => (o.intake flow).filled).sum_eq]
  exact bound

end Order

/-! ## Caps -/

/-- The most that others can have before an order of a side at a price. -/
def Ladder.cap (l : Ladder) (side : Side) (price : Int) : Int :=
  if l.isTop side price then 0 else max (l.qtyAt price) 0

theorem Ladder.cap_nonneg {l : Ladder} {side : Side} {price : Int} : 0 ≤ l.cap side price := by
  rw [cap]
  split
  · exact le_rfl
  · exact le_max_right _ _

theorem Instrument.others_capped {i : Instrument} {o : Order} :
    max (i.cappedOthers o) 0 = min o.others (i.ladder.cap o.side o.price) := by
  simp only [cappedOthers, Ladder.cap, Order.others]
  split <;> omega

end TradingDesk
