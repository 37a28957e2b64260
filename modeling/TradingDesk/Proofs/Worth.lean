-- SUMMARY: Placing and canceling orders does not move what the account is worth.
import TradingDesk.Proofs.Allotment

/-!
# Worth

What an account is worth is its cash, the cash that buys hold back, and what its idle and its
offered shares would bring at the best bid. Placing and canceling orders only moves cash and
shares between these. Cash is worth the same wherever it is. Shares are charged for by the
notional that they are part of, so moving them shifts each rounded charge by no more than one.
-/

namespace TradingDesk

/-! ## Charges -/

section Charges

variable {a b c d : Int}

/-- Two notionals are charged as two others of the same sum, up to one, whatever is added to
each before it is rounded down. -/
theorem abs_quotients_sub_le (rate k : Int) (same : a + b = c + d) :
    |(a * rate + k) / 100000 + (b * rate + k) / 100000
      - ((c * rate + k) / 100000 + (d * rate + k) / 100000)| ≤ 1 := by
  have scaled : a * rate + b * rate = c * rate + d * rate := by
    rw [← add_mul, same, add_mul]
  rw [abs_le]
  omega

theorem abs_chargeRounded_sub_le (rate : Int) (same : a + b = c + d) :
    |chargeRounded rate a + chargeRounded rate b
      - (chargeRounded rate c + chargeRounded rate d)| ≤ 1 :=
  abs_quotients_sub_le rate 50000 same

theorem abs_chargeFloored_sub_le (rate : Int) (same : a + b = c + d) :
    |chargeFloored rate a + chargeFloored rate b
      - (chargeFloored rate c + chargeFloored rate d)| ≤ 1 := by
  simpa only [chargeFloored, add_zero] using abs_quotients_sub_le rate 0 same

end Charges

namespace Kind

variable (kind : Kind) {a b c d : Int}

/-- The number of charges on a sale. Each is rounded by itself. -/
def charges : Kind → Int
  | equity => 3
  | warrant => 1
  | tracker => 1

theorem charges_nonneg : 0 ≤ kind.charges := by
  cases kind <;> decide

/-- The taxes on a sale. -/
def tax (kind : Kind) (notional : Int) : Int :=
  match kind with
  | equity => chargeFloored taxRate notional + chargeRounded taxRate notional
  | warrant => 0
  | tracker => 0

/-- A sale of nothing needs no rule of its own. -/
theorem sellFee_of_nonneg (ha : 0 ≤ a) :
    kind.sellFee a = chargeRounded commissionRate a + kind.tax a := by
  rcases ha.lt_or_eq with pos | rfl
  · simp only [sellFee, if_neg (not_le.mpr pos), tax]
    cases kind <;> simp only <;> omega
  · cases kind <;> rfl

theorem abs_tax_sub_le (same : a + b = c + d) :
    |kind.tax a + kind.tax b - (kind.tax c + kind.tax d)| ≤ kind.charges - 1 := by
  cases kind with
  | equity =>
    have floored := abs_chargeFloored_sub_le taxRate same
    have rounded := abs_chargeRounded_sub_le taxRate same
    simp only [abs_le] at *
    simp only [tax, charges]
    omega
  | warrant => simp [tax, charges]
  | tracker => simp [tax, charges]

/-- Two sales cost as much as two others of the same sum, up to one for each charge. -/
theorem abs_sellFee_sub_le (ha : 0 ≤ a) (hb : 0 ≤ b) (hc : 0 ≤ c) (hd : 0 ≤ d)
    (same : a + b = c + d) :
    |kind.sellFee a + kind.sellFee b - (kind.sellFee c + kind.sellFee d)| ≤ kind.charges := by
  have commission := abs_chargeRounded_sub_le commissionRate same
  have tax := kind.abs_tax_sub_le same
  rw [kind.sellFee_of_nonneg ha, kind.sellFee_of_nonneg hb, kind.sellFee_of_nonneg hc,
    kind.sellFee_of_nonneg hd]
  rw [abs_le] at *
  omega

end Kind

/-! ## Instruments -/

/-- What an order adds to the worth of the account, with its instrument at a mark price. -/
def Order.worth (kind : Kind) (mark : Int) (o : Order) : Int :=
  if o.isLive then
    match o.side with
    | .buy => o.escrow
    | .sell => mark * o.qty - kind.sellFee (mark * o.qty)
  else 0

namespace Instrument

variable {i : Instrument} {o : Order} {id : Nat} {side : Side} {price qty n a b c d : Int}

/-- The price at which an account is valued. -/
def mark (i : Instrument) : Int := max i.ladder.bestBid.price 0

/-- What an instrument adds to the worth of the account. -/
def worth (i : Instrument) : Int :=
  i.proceeds i.mark i.idle + (i.orders.map (Order.worth i.kind i.mark)).sum

theorem staged_eq :
    i.stagedBuy + i.stagedSell i.mark = (i.orders.map (Order.worth i.kind i.mark)).sum := by
  simp only [stagedBuy, stagedSell, liveOrders, sumOf_eq]
  generalize i.orders = orders
  induction orders with
  | nil => rfl
  | cons o os ih =>
    by_cases live : o.isLive = true
    · cases side : o.side with
      | buy => simp [live, side, Order.worth, ← ih, add_assoc]
      | sell => simp [live, side, Order.worth, ← ih, proceeds, add_left_comm]
    · rw [List.filter_cons_of_neg live, ih]
      simp [live, Order.worth]

/-- Shares that are moved between two sales bring the same, up to one for each charge. -/
theorem abs_proceeds_sub_le (ha : 0 ≤ a) (hb : 0 ≤ b) (hc : 0 ≤ c) (hd : 0 ≤ d)
    (same : a + b = c + d) :
    |i.proceeds i.mark a + i.proceeds i.mark b - (i.proceeds i.mark c + i.proceeds i.mark d)|
      ≤ i.kind.charges := by
  have mark : 0 ≤ i.mark := le_max_right _ _
  have notionals : i.mark * a + i.mark * b = i.mark * c + i.mark * d := by
    rw [← mul_add, same, mul_add]
  have fees := i.kind.abs_sellFee_sub_le (mul_nonneg mark ha) (mul_nonneg mark hb)
    (mul_nonneg mark hc) (mul_nonneg mark hd) notionals
  rw [abs_le] at *
  simp only [proceeds]
  omega

theorem proceeds_zero : i.proceeds i.mark 0 = 0 := by
  rw [proceeds, mul_zero]
  cases i.kind <;> rfl

theorem worth_place (ids : ∀ o ∈ i.orders, o.id < id) :
    (i.place id side price qty).worth
      = i.worth - i.proceeds i.mark i.idle + i.proceeds i.mark (i.place id side price qty).idle
        + (i.newOrder id side price qty).worth i.kind i.mark := by
  have orders : ((i.place id side price qty).orders.map (Order.worth i.kind i.mark)).sum = _ :=
    sum_place (Order.worth i.kind i.mark) ids side price qty
  change i.proceeds i.mark _ + (List.map (Order.worth i.kind i.mark) _).sum = _
  rw [orders, worth]
  omega

theorem worth_withdrawn (sorted : Orders.Sorted i.orders) (ho : o ∈ i.orders) :
    (i.withdrawn o n).worth
      = i.worth - i.proceeds i.mark i.idle + i.proceeds i.mark (i.idle + o.returned n)
        - o.worth i.kind i.mark + (o.shrink i.kind n).worth i.kind i.mark := by
  have resting := (Orders.find?_eq_some sorted).mpr ⟨ho, rfl⟩
  have orders : ((i.withdrawn o n).orders.map (Order.worth i.kind i.mark)).sum = _ :=
    sum_shrinkOrder (Order.worth i.kind i.mark) sorted resting
  change i.proceeds i.mark (i.idle + o.returned n) + (List.map (Order.worth i.kind i.mark) _).sum = _
  rw [orders, worth]
  omega

/-- A buy is worth the cash that is held back for it. -/
theorem worth_newBuy (pos : 0 < qty) :
    (i.newOrder id .buy price qty).worth i.kind i.mark = i.kind.cost price qty :=
  if_pos (decide_eq_true pos)

theorem worth_buy_shrink (buy : o.side = .buy) (pos : 0 < n) (le : n ≤ o.qty) :
    (o.shrink i.kind n).worth i.kind i.mark = o.worth i.kind i.mark - o.release i.kind n := by
  have live : 0 < o.qty := pos.trans_le le
  have escrow : (o.shrink i.kind n).escrow = o.escrow - o.release i.kind n := by
    rw [Order.shrink_escrow, Order.freed, buy]
  simp only [Order.worth, Order.isLive, Order.shrink_qty, Order.shrink_side, buy, escrow, live,
    decide_true, if_true, decide_eq_true_eq]
  split
  · rfl
  next dead =>
    -- What leaves last takes all of the escrow along.
    obtain rfl : n = o.qty := by omega
    rw [Order.release_whole, sub_self]

/-- A sell is worth what its shares would bring, also when none are left. -/
theorem worth_sell (sell : o.side = .sell) (nonneg : 0 ≤ o.qty) :
    o.worth i.kind i.mark = i.proceeds i.mark o.qty := by
  simp only [Order.worth, Order.isLive, sell, decide_eq_true_eq]
  split
  · rfl
  next dead =>
    obtain none : o.qty = 0 := by omega
    rw [none, proceeds_zero]

end Instrument

/-! ## Books -/

namespace Book

variable {b : Book} {i : Instrument} {o : Order} {price qty : Int}

theorem total_evaluate : b.evaluate.total = b.balance + b.total Instrument.worth := by
  have worth : b.total Instrument.worth
      = b.evaluate.holdings + (b.evaluate.stagedBuy + b.evaluate.stagedSell) := by
    simp only [evaluate, evaluateWith, sumOf_eq, total, ← List.sum_map_add]
    congr 1
    apply List.map_congr_left
    intro i _
    rw [Instrument.worth, ← Instrument.staged_eq]
    rfl
  rw [Valuation.total, worth]
  simp only [evaluate, evaluateWith]
  omega

/-- What replacing an instrument and paying for it does to the worth of the account. -/
theorem total_evaluate_set (hb : b.WellFormed) (found : b.find? i.code = some i)
    (i' : Instrument) (same : i'.code = i.code) (balance : Int) (nextId : Nat) :
    { b.set i' with balance, nextId }.evaluate.total - b.evaluate.total
      = balance - b.balance + (i'.worth - i.worth) := by
  have replaced := hb.total_set (find?_of_code found same) Instrument.worth
  rw [total_evaluate, total_evaluate]
  change balance + (b.set i').total Instrument.worth - _ = _
  rw [replaced]
  omega

theorem total_insert (hb : b.WellFormed) (hi : i ∈ b.instruments) (side : Side) (price qty : Int) :
    ∃ p, b.insert i.code side price qty = .ok p ∧
      p.book.evaluate.total - b.evaluate.total
        = b.charged i.kind side price qty - b.balance
          + ((i.place b.nextId side price qty).worth - i.worth) := by
  have found := hb.find?_eq_some.mpr ⟨hi, rfl⟩
  cases placed : b.insert i.code side price qty with
  | error => simp [insert, found] at placed
  | ok p =>
    refine ⟨p, rfl, ?_⟩
    rw [insert_eq_ok found placed]
    exact total_evaluate_set hb found (i.place b.nextId side price qty) rfl _ _

/-- A cancel of an order takes some of it out of the book, or nothing. -/
theorem total_cancel (hb : b.WellFormed) (hi : i ∈ b.instruments) (ho : o ∈ i.orders) (qty : Int) :
    ∃ p, b.cancel i.code o.key qty = .ok p ∧
      (p.book = b ∨ ∃ n, 0 < n ∧ n ≤ o.qty ∧
        p.book.evaluate.total - b.evaluate.total
          = o.freed i.kind n + ((i.withdrawn o n).worth - i.worth)) := by
  have found := hb.find?_eq_some.mpr ⟨hi, rfl⟩
  have resting := (Orders.find?_eq_some (hb.sorted i hi)).mpr ⟨ho, rfl⟩
  by_cases pos : 0 < min qty o.qty
  · obtain ⟨w, withdrawn, -, release⟩ := Instrument.withdraw_of_pos (i := i) pos
    simp only [cancel, found, resting, withdrawn]
    refine ⟨_, rfl, .inr ⟨min qty o.qty, pos, min_le_right _ _, ?_⟩⟩
    have replaced := total_evaluate_set hb found (i.withdrawn o (min qty o.qty)) rfl
      (b.balance + w.release) b.nextId
    rw [add_sub_cancel_left, release] at replaced
    rw [release]
    exact replaced
  · simp only [cancel, found, resting, Instrument.withdraw_eq_none pos]
    exact ⟨_, rfl, .inl rfl⟩

end Book

end TradingDesk
