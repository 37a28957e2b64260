-- SUMMARY: The search for an affordable quantity ends, and ends at the greatest one.
import Mathlib.Logic.Function.Iterate
import Mathlib.Order.Bounds.Basic
import TradingDesk.Proofs.Fees

/-!
# Affordable quantities

The search starts from a quotient that takes the fee for a fixed part of the notional, while
the fee of an order is rounded. So the quantity is first lowered, lot by lot, until it is
paid for, and then raised as long as one lot more is. Both loops end, and they end at the
greatest quantity from whatever whole number of lots they start.
-/

namespace TradingDesk

/-- A loop that takes another round as long as `again` holds starts at `first` and ends at
`last`, after `n` rounds. -/
structure Exits (again : Int → Prop) (round : Int → Int) (first : Int) (n : Nat) (last : Int) :
    Prop where
  rounds : round^[n] first = last
  goesOn : ∀ m < n, again (round^[m] first)
  stops : ¬again last

namespace Exits

variable {again : Int → Prop} {round : Int → Int} {first last : Int} {n : Nat}

theorem atOnce (stops : ¬again first) : Exits again round first 0 first :=
  ⟨rfl, nofun, stops⟩

/-- One round before the others. -/
theorem cons (here : again first) (rest : Exits again round (round first) n last) :
    Exits again round first (n + 1) last where
  rounds := rest.rounds
  goesOn := by
    intro m hm
    cases m with
    | zero => exact here
    | succ m => exact rest.goesOn m (Nat.lt_of_succ_lt_succ hm)
  stops := rest.stops

end Exits

namespace Kind

variable {kind : Kind} {price cash : Int}

/-- The whole numbers of lots that the cash pays for, the fee included. -/
def affordable (kind : Kind) (price cash : Int) : Set Int :=
  {q | 0 ≤ q ∧ kind.lot ∣ q ∧ price * q + kind.buyFee (price * q) ≤ cash}

/-- Whether a quantity has to be lowered: it is not paid for, and there is something to give up. -/
def TooDear (kind : Kind) (price cash q : Int) : Prop := 0 < q ∧ cash < kind.cost price q

/-- Whether one lot more is paid for. -/
def RoomForLot (kind : Kind) (price cash q : Int) : Prop := kind.cost price (q + kind.lot) ≤ cash

theorem affordable_mono {cash' : Int} (le : cash ≤ cash') :
    kind.affordable price cash ⊆ kind.affordable price cash' :=
  fun _ ⟨nonneg, lots, paid⟩ => ⟨nonneg, lots, paid.trans le⟩

/-! ## The two loops -/

theorem exits_shrinkToCash (kind : Kind) (price cash q : Int) :
    ∃ n, Exits (kind.TooDear price cash) (· - kind.lot) q n (kind.shrinkToCash price cash q) := by
  fun_induction shrinkToCash kind price cash q with
  | case1 q dear ih =>
    obtain ⟨n, rest⟩ := ih
    exact ⟨n + 1, .cons dear rest⟩
  | case2 q paid => exact ⟨0, .atOnce paid⟩

theorem exits_growToCash (kind : Kind) (cash : Int) (pos : 0 < price) (q : Int) :
    ∃ n, Exits (kind.RoomForLot price cash) (· + kind.lot) q n
      (kind.growToCash price cash pos q) := by
  fun_induction growToCash kind price cash pos q with
  | case1 q room ih =>
    obtain ⟨n, rest⟩ := ih
    exact ⟨n + 1, .cons room rest⟩
  | case2 q most => exact ⟨0, .atOnce most⟩

/-- Where the loops end does not depend on the guess that they start from. -/
theorem isGreatest_growToCash (pos : 0 < price) (funded : 0 < cash) {guess : Int}
    (nonneg : 0 ≤ guess) (lots : kind.lot ∣ guess) :
    IsGreatest (kind.affordable price cash)
      (kind.growToCash price cash pos (kind.shrinkToCash price cash guess)) := by
  obtain ⟨least, whole, paid, most⟩ := kind.settleToCash_spec pos funded nonneg lots
  refine ⟨⟨least, whole, paid⟩, ?_⟩
  rintro q ⟨-, hq, covered⟩
  exact kind.le_of_lot_more pos hq whole covered most

/-! ## The affordable quantity -/

theorem isGreatest_maxAffordable (pos : 0 < price) (funded : 0 < cash) :
    IsGreatest (kind.affordable price cash) (kind.maxAffordable price cash) := by
  rw [kind.maxAffordable_eq pos funded]
  exact isGreatest_growToCash pos funded (kind.roundLot_nonneg _) (kind.lot_dvd_roundLot _)

theorem maxAffordable_nonneg : 0 ≤ kind.maxAffordable price cash := by
  by_cases h : 0 < price ∧ 0 < cash
  · exact (isGreatest_maxAffordable h.1 h.2).1.1
  · exact (kind.maxAffordable_of_nonpos h).ge

/-- More cash affords no less. -/
theorem maxAffordable_mono {cash cash' : Int} (le : cash ≤ cash') :
    kind.maxAffordable price cash ≤ kind.maxAffordable price cash' := by
  by_cases h : 0 < price ∧ 0 < cash
  · obtain ⟨pos, funded⟩ := h
    have fits : kind.maxAffordable price cash ∈ kind.affordable price cash' :=
      affordable_mono le (isGreatest_maxAffordable pos funded).1
    exact (isGreatest_maxAffordable pos (funded.trans_le le)).2 fits
  · rw [kind.maxAffordable_of_nonpos h]
    exact maxAffordable_nonneg

/-- For every price and every amount of cash, the search lowers its guess in finitely many
rounds, raises it again in finitely many rounds, and ends at the greatest whole number of lots
that the cash pays for with the fee. Without a price or without cash that is none. More cash
never affords less. -/
theorem maxAffordable_exact (kind : Kind) (price : Int) :
    (∀ cash, 0 < price → 0 < cash →
        let guess := kind.roundLot (cash * 100000 / (price * (100000 + commissionRate)))
        let paid := kind.shrinkToCash price cash guess
        (∃ n, Exits (kind.TooDear price cash) (· - kind.lot) guess n paid)
          ∧ (∃ n, Exits (kind.RoomForLot price cash) (· + kind.lot) paid n
              (kind.maxAffordable price cash))
          ∧ IsGreatest {q | 0 ≤ q ∧ kind.lot ∣ q ∧ price * q + kind.buyFee (price * q) ≤ cash}
              (kind.maxAffordable price cash))
      ∧ (∀ cash, price ≤ 0 ∨ cash ≤ 0 → kind.maxAffordable price cash = 0)
      ∧ ∀ cash cash', cash ≤ cash' →
          kind.maxAffordable price cash ≤ kind.maxAffordable price cash' := by
  refine ⟨fun cash pos funded => ?_, fun cash none => ?_, fun _ _ => maxAffordable_mono⟩
  · refine ⟨exits_shrinkToCash .., ?_, isGreatest_maxAffordable pos funded⟩
    rw [kind.maxAffordable_eq pos funded]
    exact exits_growToCash ..
  · refine kind.maxAffordable_of_nonpos fun some => ?_
    omega

/-- The guess that 1000 in cash pay for one unit at 1000 is too low, because the rounded fee of
one unit is nothing. -/
theorem maxAffordable_exact_one :
    equity.roundLot (1000 * 100000 / (1000 * (100000 + commissionRate))) = 0
      ∧ equity.maxAffordable 1000 1000 = 1 ∧ equity.maxAffordable 1000 999 = 0
      ∧ IsGreatest {q | 0 ≤ q ∧ equity.lot ∣ q ∧ 1000 * q + equity.buyFee (1000 * q) ≤ 1000} 1
      ∧ equity.maxAffordable 1000 0 = 0
      ∧ equity.maxAffordable 1000 999 ≤ equity.maxAffordable 1000 1000 := by
  have one : equity.maxAffordable 1000 1000 = 1 := by decide +kernel
  obtain ⟨exact', none, mono⟩ := maxAffordable_exact equity 1000
  refine ⟨by decide, one, by decide +kernel, ?_, none 0 (by decide), mono 999 1000 (by decide)⟩
  exact one ▸ (exact' 1000 (by decide) (by decide)).2.2

end Kind

end TradingDesk
