-- SUMMARY: How fees round, and that the affordable quantity is the largest one.
import Mathlib.Tactic.Linarith
import Mathlib.Tactic.Positivity
import TradingDesk.Market.Fee

/-!
# Fees and affordable quantities

A fee is rounded on the notional of the whole order, so the costs of two parts may
exceed the cost of the whole, but by no more than one. `le_maxAffordable` says that
the search for an affordable quantity finds the largest one, whatever it starts from.
-/

namespace TradingDesk.Kind

variable (kind : Kind) {price cash : Int}

/-! ## Costs -/

theorem buyFee_mono {a b : Int} (h : a ≤ b) : kind.buyFee a ≤ kind.buyFee b := by
  simp only [buyFee, chargeRounded, commissionRate]
  split <;> split <;> omega

/-- The fees of two parts exceed the fee of the whole by no more than one. -/
theorem buyFee_add_le {a b : Int} (ha : 0 ≤ a) (hb : 0 ≤ b) :
    kind.buyFee a + kind.buyFee b ≤ kind.buyFee (a + b) + 1 := by
  simp only [buyFee, chargeRounded, commissionRate]
  split <;> split <;> split <;> omega

/-- Nor does the fee of the whole exceed those of two parts by more. -/
theorem buyFee_le_add {a b : Int} (ha : 0 ≤ a) (hb : 0 ≤ b) :
    kind.buyFee (a + b) ≤ kind.buyFee a + kind.buyFee b + 1 := by
  simp only [buyFee, chargeRounded, commissionRate]
  split <;> split <;> split <;> omega

@[simp] theorem cost_zero : kind.cost price 0 = 0 := by
  simp [cost, buyFee]

theorem cost_mono {price' a b : Int} (h : price * a ≤ price' * b) :
    kind.cost price a ≤ kind.cost price' b := by
  have := kind.buyFee_mono h
  simp only [cost]
  omega

theorem cost_nonneg {a : Int} (hp : 0 ≤ price) (ha : 0 ≤ a) : 0 ≤ kind.cost price a := by
  have hraw : 0 ≤ price * a := mul_nonneg hp ha
  have := kind.le_cost price a
  omega

theorem cost_add_le {a b : Int} (hp : 0 ≤ price) (ha : 0 ≤ a) (hb : 0 ≤ b) :
    kind.cost price a + kind.cost price b ≤ kind.cost price (a + b) + 1 := by
  have := kind.buyFee_add_le (mul_nonneg hp ha) (mul_nonneg hp hb)
  simp only [cost, mul_add]
  omega

theorem cost_le_add {a b : Int} (hp : 0 ≤ price) (ha : 0 ≤ a) (hb : 0 ≤ b) :
    kind.cost price (a + b) ≤ kind.cost price a + kind.cost price b + 1 := by
  have := kind.buyFee_le_add (mul_nonneg hp ha) (mul_nonneg hp hb)
  simp only [cost, mul_add]
  omega

theorem cost_strictMono {a b : Int} (hp : 0 < price) (h : a < b) :
    kind.cost price a < kind.cost price b := by
  have hraw : price * a < price * b := mul_lt_mul_of_pos_left h hp
  have := kind.buyFee_mono hraw.le
  simp only [cost]
  omega

/-! ## Proceeds -/

/-- Fees and taxes never take more than a sale brings. -/
theorem sellFee_le {a : Int} (ha : 0 ≤ a) : kind.sellFee a ≤ a := by
  simp only [sellFee, chargeRounded, chargeFloored, commissionRate, taxRate]
  cases kind <;> simp only <;> split <;> omega

/-! ## Lots -/

theorem roundLot_nonneg (q : Int) : 0 ≤ kind.roundLot q := by
  simp only [roundLot]
  split
  · exact le_rfl
  · cases kind <;> simp only [lot] <;> omega

theorem roundLot_le {q : Int} (hq : 0 ≤ q) : kind.roundLot q ≤ q := by
  have := Int.emod_nonneg q kind.lot_pos.ne'
  simp only [roundLot]
  split <;> omega

theorem lot_dvd_roundLot (q : Int) : kind.lot ∣ kind.roundLot q := by
  simp only [roundLot]
  split
  · exact dvd_zero _
  · exact Int.dvd_self_sub_emod

/-- Rounding finds the largest whole number of lots. -/
theorem le_roundLot {m q : Int} (hm : kind.lot ∣ m) (h : m ≤ q) : m ≤ kind.roundLot q := by
  simp only [roundLot]
  split
  · omega
  · obtain ⟨n, rfl⟩ := hm
    have pos := kind.lot_pos
    have quotient : n ≤ q / kind.lot := (Int.le_ediv_iff_mul_le pos).mpr (by linarith)
    have split := Int.emod_add_mul_ediv q kind.lot
    have := mul_le_mul_of_nonneg_left quotient pos.le
    linarith

/-! ## The affordable quantity -/

theorem shrinkToCash_spec {q : Int} (hq : 0 ≤ q) (hl : kind.lot ∣ q) :
    let r := kind.shrinkToCash price cash q
    0 ≤ r ∧ kind.lot ∣ r ∧ (r = 0 ∨ kind.cost price r ≤ cash) := by
  fun_induction shrinkToCash kind price cash q with
  | case1 q h ih =>
    have fits : kind.lot ≤ q := Int.le_of_dvd h.1 hl
    exact ih (by omega) ((dvd_sub_self_right).mpr hl)
  | case2 q h =>
    refine ⟨hq, hl, ?_⟩
    omega

theorem growToCash_spec (pos : 0 < price) {q : Int} (hl : kind.lot ∣ q)
    (hc : kind.cost price q ≤ cash) :
    let r := kind.growToCash price cash pos q
    q ≤ r ∧ kind.lot ∣ r ∧ kind.cost price r ≤ cash ∧ cash < kind.cost price (r + kind.lot) := by
  fun_induction growToCash kind price cash pos q with
  | case1 q h ih =>
    obtain ⟨le, rest⟩ := ih (dvd_add_self_right.mpr hl) h
    have := kind.lot_pos
    exact ⟨by omega, rest⟩
  | case2 q h => exact ⟨le_rfl, hl, hc, by omega⟩

/-- Both loops together, from any guess: what they end at is paid for, and one lot more is not. -/
theorem settleToCash_spec (hp : 0 < price) (hc : 0 < cash) {guess : Int} (hg : 0 ≤ guess)
    (hl : kind.lot ∣ guess) :
    let q := kind.growToCash price cash hp (kind.shrinkToCash price cash guess)
    0 ≤ q ∧ kind.lot ∣ q ∧ kind.cost price q ≤ cash ∧ cash < kind.cost price (q + kind.lot) := by
  obtain ⟨nonneg, lots, paid⟩ := @shrinkToCash_spec kind price cash guess hg hl
  have paid : kind.cost price (kind.shrinkToCash price cash guess) ≤ cash := by
    rcases paid with zero | paid
    · rw [zero, kind.cost_zero]
      exact hc.le
    · exact paid
  obtain ⟨le, lots, paid, most⟩ := kind.growToCash_spec hp lots paid
  exact ⟨nonneg.trans le, lots, paid, most⟩

theorem maxAffordable_of_nonpos (h : ¬(0 < price ∧ 0 < cash)) : kind.maxAffordable price cash = 0 := by
  simp [maxAffordable, h]

/-- The affordable quantity is what the loops make of their first guess. -/
theorem maxAffordable_eq (hp : 0 < price) (hc : 0 < cash) :
    let guess := kind.roundLot (cash * 100000 / (price * (100000 + commissionRate)))
    kind.maxAffordable price cash
      = kind.growToCash price cash hp (kind.shrinkToCash price cash guess) := by
  intro guess
  obtain ⟨nonneg, -⟩ := kind.settleToCash_spec hp hc (kind.roundLot_nonneg _)
    (kind.lot_dvd_roundLot (cash * 100000 / (price * (100000 + commissionRate))))
  simp only [maxAffordable, hp, hc, and_self, dite_true]
  exact max_eq_left nonneg

/-- The affordable quantity is paid for and one lot more is not. -/
theorem maxAffordable_spec (hp : 0 < price) (hc : 0 < cash) :
    let q := kind.maxAffordable price cash
    0 ≤ q ∧ kind.lot ∣ q ∧ kind.cost price q ≤ cash ∧ cash < kind.cost price (q + kind.lot) := by
  rw [kind.maxAffordable_eq hp hc]
  exact kind.settleToCash_spec hp hc (kind.roundLot_nonneg _) (kind.lot_dvd_roundLot _)

/-- What is paid for is not above a quantity of which one lot more is not: anything above it
would be at least one lot above. -/
theorem le_of_lot_more {q r : Int} (hp : 0 < price) (hq : kind.lot ∣ q) (hr : kind.lot ∣ r)
    (paid : kind.cost price q ≤ cash) (most : cash < kind.cost price (r + kind.lot)) : q ≤ r := by
  by_contra! more
  have apart : kind.lot ≤ q - r := Int.le_of_dvd (by omega) (dvd_sub hq hr)
  have := kind.cost_mono (mul_le_mul_of_nonneg_left (show r + kind.lot ≤ q by omega) hp.le)
  omega

/-- A whole number of lots is affordable if and only if its cost fits in the cash. -/
theorem le_maxAffordable {q : Int} (hp : 0 < price) (hl : kind.lot ∣ q) (hq : 0 < q) :
    q ≤ kind.maxAffordable price cash ↔ kind.cost price q ≤ cash := by
  by_cases hc : 0 < cash
  · obtain ⟨nonneg, lots, paid, most⟩ := kind.maxAffordable_spec hp hc
    constructor
    · intro le
      exact (kind.cost_mono (mul_le_mul_of_nonneg_left le hp.le)).trans paid
    · intro fits
      exact kind.le_of_lot_more hp hl lots fits most
  · rw [kind.maxAffordable_of_nonpos (fun h => hc h.2)]
    have := kind.cost_strictMono hp hq
    rw [kind.cost_zero] at this
    omega

end TradingDesk.Kind
