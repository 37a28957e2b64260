-- SUMMARY: With words of 64 bits, a book with headroom resolves requests and carries them out exactly.
import TradingDesk.Proofs.Allotment
import TradingDesk.Proofs.Spending
import TradingDesk.Word64.Book

/-!
# Headroom

What the cash and the idle holdings can become while orders are canceled and placed is bounded
by what is in them and in the orders together, and that bound is kept: what an order gives up
is what the account gains. So a book whose amounts leave enough headroom resolves requests and
carries them out with words as it does with integers. Two more results can leave the range,
and both are results of the request alone: the cost of one lot more than the cash is enough
for, which the search for that quantity ends with, and the notional of a sell, which is worked
out and not used.
-/

namespace TradingDesk

theorem FitsWord.of_abs_le {n : Int} (h : |n| ≤ 9223372036854775807) : FitsWord n := by
  have bounds := abs_le.mp h
  exact ⟨by omega, by omega⟩

/-! ## What an order holds -/

namespace Order

variable {o : Order} {n : Int}

/-- How far a buy can move the cash until it is gone. What is held back comes back; a price
below zero, at which only direct calls place orders, can take as much again, twice. -/
def cashSway (o : Order) : Int :=
  match o.side with
  | .buy => |o.escrow| + 2 * max 0 (-(o.price * o.qty))
  | .sell => 0

/-- How far a sell can move the idle holdings. -/
def shareSway (o : Order) : Int :=
  match o.side with
  | .buy => 0
  | .sell => |o.qty|

theorem cashSway_nonneg : 0 ≤ o.cashSway := by
  unfold cashSway
  split
  · have := abs_nonneg o.escrow
    omega
  · exact le_rfl

theorem shareSway_nonneg : 0 ≤ o.shareSway := by
  unfold shareSway
  split
  · exact le_rfl
  · exact abs_nonneg o.qty

/-- What a cancel frees leaves the order's sway. -/
theorem abs_freed_add_le (kind : Kind) (pos : 0 < n) (le : n ≤ o.qty) :
    |o.freed kind n| + (o.shrink kind n).cashSway ≤ o.cashSway := by
  have parts : o.price * (o.qty - n) = o.price * o.qty - o.price * n := mul_sub ..
  cases side : o.side with
  | sell => simp [freed, cashSway, shrink, side]
  | buy =>
    simp only [freed, cashSway, shrink, side, release, parts, abs_eq_max_neg]
    rcases le_or_gt 0 o.price with price | price
    · -- The cost of a part is not below zero, and what is freed is not above the escrow.
      have here : 0 ≤ o.price * n := mul_nonneg price pos.le
      have rest : 0 ≤ o.price * (o.qty - n) := mul_nonneg price (by omega)
      have cost : 0 ≤ kind.cost o.price n := kind.cost_nonneg price pos.le
      split <;> omega
    · have here : o.price * n ≤ 0 := mul_nonpos_of_nonpos_of_nonneg price.le pos.le
      have rest : o.price * (o.qty - n) ≤ 0 :=
        mul_nonpos_of_nonpos_of_nonneg price.le (by omega)
      have cost : kind.cost o.price n = o.price * n := by
        rw [Kind.cost, Kind.buyFee, if_pos here, Int.add_zero]
      split <;> omega

/-- What a cancel returns leaves the order's sway. -/
theorem abs_returned_add_le (kind : Kind) (pos : 0 < n) (le : n ≤ o.qty) :
    |o.returned n| + (o.shrink kind n).shareSway ≤ o.shareSway := by
  simp only [returned, shareSway, shrink_side, shrink_qty, abs_eq_max_neg]
  cases o.side <;> simp only <;> omega

end Order

/-- Whether the amounts of an order are words, up to the cost of what is open. -/
structure Order.InRange (kind : Kind) (o : Order) : Prop where
  qty : FitsWord o.qty
  cost : o.side = .buy → FitsWord (kind.cost o.price o.qty)

instance {kind : Kind} {o : Order} : Decidable (o.InRange kind) :=
  decidable_of_iff (FitsWord o.qty ∧ (o.side = .buy → FitsWord (kind.cost o.price o.qty)))
    ⟨fun h => ⟨h.1, h.2⟩, fun h => ⟨h.qty, h.cost⟩⟩

theorem Order.InRange.shrink {kind : Kind} {o : Order} {n : Int} (h : o.InRange kind) (pos : 0 < n)
    (le : n ≤ o.qty) : (o.shrink kind n).InRange kind where
  qty := by
    rw [shrink_qty]
    exact h.qty.of_between (by omega) (by omega)
  cost := by
    intro buy
    rw [shrink_side] at buy
    rw [shrink_qty, shrink_price]
    exact (Kind.fitsWord_cost_of_le (by omega) (by omega) (h.cost buy)).2

namespace Instrument

variable {i : Instrument} {o : Order}

def cashSway (i : Instrument) : Int := (i.orders.map Order.cashSway).sum

def shareSway (i : Instrument) : Int := (i.orders.map Order.shareSway).sum

theorem cashSway_nonneg : 0 ≤ i.cashSway :=
  List.sum_nonneg (List.forall_mem_map.mpr fun _ _ => Order.cashSway_nonneg)

theorem shareSway_nonneg : 0 ≤ i.shareSway :=
  List.sum_nonneg (List.forall_mem_map.mpr fun _ _ => Order.shareSway_nonneg)

theorem cashSway_le (mem : o ∈ i.orders) : o.cashSway ≤ i.cashSway :=
  List.single_le_sum (List.forall_mem_map.mpr fun _ _ => Order.cashSway_nonneg) _
    (List.mem_map_of_mem mem)

theorem shareSway_le (mem : o ∈ i.orders) : o.shareSway ≤ i.shareSway :=
  List.single_le_sum (List.forall_mem_map.mpr fun _ _ => Order.shareSway_nonneg) _
    (List.mem_map_of_mem mem)

end Instrument

/-- Only one order has the key, so giving each order of the key one value is to change it. -/
theorem Orders.update_const {os : List Order} {o : Order} (sorted : Sorted os)
    (found : find? o.key os = some o) (f : Order → Order) :
    update o.key (fun _ => f o) os = update o.key f os := by
  refine List.map_congr_left fun p hp => ?_
  split
  next same =>
    have there : find? o.key os = some p := (find?_eq_some sorted).mpr ⟨hp, beq_iff_eq.mp same⟩
    rw [Option.some.inj (found.symm.trans there)]
  · rfl

/-! ## Books in range -/

namespace Book

variable {b : Book} {i : Instrument} {order : Order} {n : Int} {code : String} {key : Key}

/-- Whether the cash and the idle holdings are words, whatever the orders give back, and so are
the amounts of the orders. -/
structure InRange (b : Book) : Prop where
  cash : |b.balance| + b.total Instrument.cashSway ≤ 9223372036854775807
  shares : ∀ i ∈ b.instruments, |i.idle| + i.shareSway ≤ 9223372036854775807
  orders : ∀ i ∈ b.instruments, ∀ o ∈ i.orders, o.InRange i.kind

theorem cashSway_le (mem : i ∈ b.instruments) : i.cashSway ≤ b.total Instrument.cashSway :=
  List.single_le_sum (List.forall_mem_map.mpr fun _ _ => Instrument.cashSway_nonneg) _
    (List.mem_map_of_mem mem)

theorem InRange.balance (h : b.InRange) : FitsWord b.balance := by
  have sways : 0 ≤ b.total Instrument.cashSway :=
    List.sum_nonneg (List.forall_mem_map.mpr fun _ _ => Instrument.cashSway_nonneg)
  have cash := h.cash
  exact .of_abs_le (by omega)

theorem InRange.idle (h : b.InRange) (mem : i ∈ b.instruments) : FitsWord i.idle := by
  have sways := i.shareSway_nonneg
  have shares := h.shares i mem
  exact .of_abs_le (by omega)

theorem InRange.cash_add_le (h : b.InRange) (mem : i ∈ b.instruments) :
    |b.balance| + i.cashSway ≤ 9223372036854775807 :=
  (Int.add_le_add_left (cashSway_le mem) _).trans h.cash

/-- The cancel of a part keeps a book in range. -/
theorem InRange.cancel (h : b.InRange) (hb : b.WellFormed) (found : b.find? code = some i)
    (resting : Orders.find? key i.orders = some order) (pos : 0 < n) (le : n ≤ order.qty) :
    { b.set (i.withdrawn order n) with balance := b.balance + order.freed i.kind n }.InRange := by
  have mem := mem_of_find? found
  have sorted := hb.sorted i mem
  have hkey : order.key = key := Orders.key_of_find? resting
  subst hkey
  have foundHere : b.find? (i.withdrawn order n).code = some i := find?_of_code found rfl
  refine ⟨?_, ?_, ?_⟩
  · have total := hb.total_set foundHere Instrument.cashSway
    have sway : (i.withdrawn order n).cashSway
        = i.cashSway - order.cashSway + (order.shrink i.kind n).cashSway :=
      Instrument.sum_shrinkOrder Order.cashSway sorted resting
    have moved := Order.abs_freed_add_le i.kind pos le
    have sum := abs_add_le b.balance (order.freed i.kind n)
    have before := h.cash
    change |b.balance + order.freed i.kind n| + (b.set (i.withdrawn order n)).total _ ≤ _
    omega
  · refine forall_set h.shares ?_
    have sway : (i.withdrawn order n).shareSway
        = i.shareSway - order.shareSway + (order.shrink i.kind n).shareSway :=
      Instrument.sum_shrinkOrder Order.shareSway sorted resting
    have moved := Order.abs_returned_add_le i.kind pos le
    have sum := abs_add_le i.idle (order.returned n)
    have before := h.shares i mem
    change |i.idle + order.returned n| + (i.withdrawn order n).shareSway ≤ _
    omega
  · refine forall_set (P := fun i => ∀ o ∈ i.orders, o.InRange i.kind) h.orders ?_
    intro o ho
    rcases (Instrument.mem_shrinkOrder sorted resting).mp ho with rfl | ⟨ho, -⟩
    · exact (h.orders i mem order (Orders.mem_of_find? resting)).shrink pos le
    · exact h.orders i mem o ho

/-- What is covered is in range. -/
theorem InRange.of_covers {side : Side} {price qty : Int} (h : b.InRange) (id : Nat)
    (mem : i ∈ b.instruments) (hprice : 0 < price) (hqty : 0 < qty)
    (covers : i.Covers b.balance side price qty) :
    (i.newOrder id side price qty).InRange i.kind := by
  cases side with
  | buy =>
    have paid : i.kind.cost price qty ≤ b.balance := covers
    have cost : FitsWord (i.kind.cost price qty) :=
      h.balance.of_between (i.kind.cost_nonneg hprice.le hqty.le) paid
    exact ⟨Overflow.fitsWord_of_cost hprice hqty.le cost, fun _ => cost⟩
  | sell =>
    have offered : qty ≤ i.idle := covers
    exact ⟨(h.idle mem).of_between hqty.le offered, fun buy => nomatch buy⟩

/-- What a covered order takes of the cash goes into its sway. -/
theorem abs_charged_add_le {side : Side} {price qty : Int} (id : Nat) (hprice : 0 < price)
    (hqty : 0 < qty) (covers : i.Covers b.balance side price qty) :
    |b.charged i.kind side price qty| + (i.newOrder id side price qty).cashSway ≤ |b.balance| := by
  cases side with
  | buy =>
    have paid : i.kind.cost price qty ≤ b.balance := covers
    have notional : 0 < price * qty := mul_pos hprice hqty
    have costs : price * qty ≤ i.kind.cost price qty := i.kind.le_cost price qty
    simp only [charged, Instrument.newOrder, Order.cashSway, abs_eq_max_neg]
    omega
  | sell => exact (add_zero _).le

/-- What a covered order takes of the idle holdings goes into its sway. -/
theorem abs_idle_place_add_le {side : Side} {price qty : Int} (id : Nat) (hqty : 0 < qty)
    (covers : i.Covers b.balance side price qty) :
    |(i.place id side price qty).idle| + (i.newOrder id side price qty).shareSway ≤ |i.idle| := by
  cases side with
  | buy => exact (add_zero _).le
  | sell =>
    have offered : qty ≤ i.idle := covers
    simp only [Instrument.place, Instrument.newOrder, Order.shareSway, abs_eq_max_neg]
    omega

/-- An order that is covered keeps a book in range. -/
theorem InRange.place {side : Side} {price qty : Int} (h : b.InRange) (hb : b.WellFormed)
    (found : b.find? code = some i) (hprice : 0 < price) (hqty : 0 < qty)
    (covers : i.Covers b.balance side price qty) :
    { b.set (i.place b.nextId side price qty) with
      balance := b.charged i.kind side price qty, nextId := b.nextId + 1 }.InRange := by
  have mem := mem_of_find? found
  have ids := hb.ids i mem
  have foundHere : b.find? (i.place b.nextId side price qty).code = some i :=
    find?_of_code found rfl
  refine ⟨?_, forall_set h.shares ?_,
    forall_set (P := fun i => ∀ o ∈ i.orders, o.InRange i.kind) h.orders ?_⟩
  · have total := hb.total_set foundHere Instrument.cashSway
    have sway : (i.place b.nextId side price qty).cashSway
        = i.cashSway + (i.newOrder b.nextId side price qty).cashSway :=
      Instrument.sum_place Order.cashSway ids side price qty
    have moved := abs_charged_add_le b.nextId hprice hqty covers
    have before := h.cash
    change |b.charged i.kind side price qty| + (b.set (i.place b.nextId side price qty)).total _ ≤ _
    omega
  · have sway : (i.place b.nextId side price qty).shareSway
        = i.shareSway + (i.newOrder b.nextId side price qty).shareSway :=
      Instrument.sum_place Order.shareSway ids side price qty
    have moved := abs_idle_place_add_le b.nextId hqty covers
    have before := h.shares i mem
    omega
  · intro o ho
    rw [Instrument.place_orders] at ho
    rcases (Orders.mem_insert (Instrument.fresh_of_ids ids side price qty)).mp ho with rfl | ho
    · have new : (i.newOrder b.nextId side price qty).InRange i.kind :=
        h.of_covers b.nextId mem hprice hqty covers
      exact new
    · exact h.orders i mem o ho

end Book

namespace Overflow

variable {o : Overflow} {b : Book} {i : Instrument} {order : Order} {n : Int} {code : String}
  {key : Key} {kind : Kind}

/-! ## Operations -/

theorem release_exact (h : order.InRange kind) (buy : order.side = .buy) (pos : 0 < n)
    (le : n ≤ order.qty) : o.release kind order n = some (order.release kind n) := by
  simp only [release, Order.release]
  split
  · rfl
  · rw [cost_exact_of_le pos.le le (h.cost buy)]
    rfl

theorem freed_exact (h : order.InRange kind) (pos : 0 < n) (le : n ≤ order.qty) :
    o.freed kind order n = some (order.freed kind n) := by
  simp only [freed, Order.freed]
  cases side : order.side with
  | buy => exact release_exact h side pos le
  | sell => rfl

theorem shrink_exact (h : order.InRange kind) (sway : order.cashSway ≤ 9223372036854775807)
    (pos : 0 < n) (le : n ≤ order.qty) : o.shrink kind order n = some (order.shrink kind n) := by
  have left : o.word (order.qty - n) = some (order.qty - n) :=
    word_of_fitsWord (h.qty.of_between (by omega) (by omega))
  cases side : order.side with
  | buy =>
    have escrow : o.word (order.escrow - order.release kind n)
        = some (order.escrow - order.release kind n) := by
      have moved := Order.abs_freed_add_le kind pos le
      have sway : |(order.shrink kind n).escrow| ≤ (order.shrink kind n).cashSway := by
        simp only [Order.cashSway, Order.shrink_side, side]
        omega
      rw [Order.shrink_escrow] at sway
      have bound := abs_nonneg (order.freed kind n)
      have word : FitsWord (order.escrow - order.freed kind n) := .of_abs_le (by omega)
      simp only [Order.freed, side] at word
      exact word_of_fitsWord word
    simp only [shrink, left, side, release_exact h side pos le, escrow, Option.bind_eq_bind,
      Option.bind_some, Order.shrink]
  | sell => simp only [shrink, left, side, Option.bind_eq_bind, Option.bind_some, Order.shrink]

theorem withdraw_exact (h : b.InRange) (sorted : Orders.Sorted i.orders) (mem : i ∈ b.instruments)
    (resting : Orders.find? order.key i.orders = some order) :
    o.withdraw i order n = some (i.withdraw order n) := by
  simp only [withdraw, Instrument.withdraw]
  split
  · rfl
  next some =>
    have pos : 0 < min n order.qty := not_le.mp some
    have le : min n order.qty ≤ order.qty := min_le_right _ _
    have inOrders := Orders.mem_of_find? resting
    have words := h.orders i mem order inOrders
    have sway : order.cashSway ≤ i.cashSway := Instrument.cashSway_le inOrders
    have cash := h.cash_add_le mem
    have balance := abs_nonneg b.balance
    have freed := freed_exact (o := o) words pos le
    have shrunk := shrink_exact (o := o) words (by omega) pos le
    have update := Orders.update_const sorted resting (·.shrink i.kind (min n order.qty))
    cases side : order.side with
    | buy =>
      simp only [Order.freed, side] at freed
      simp only [freed, shrunk, update, Option.bind_eq_bind, Option.bind_some]
    | sell =>
      have idle : o.word (i.idle + min n order.qty) = Option.some (i.idle + min n order.qty) := by
        have offers : order.shareSway ≤ i.shareSway := Instrument.shareSway_le inOrders
        have shares := h.shares i mem
        simp only [Order.shareSway, side, abs_eq_max_neg] at offers shares
        exact word_of_fitsWord ⟨by omega, by omega⟩
      simp only [Order.freed, side] at freed
      simp only [freed, idle, shrunk, update, Option.bind_eq_bind, Option.bind_some]

/-- A cancel of an order of a book in range is the one on the integers. -/
theorem cancel_exact (h : b.InRange) (hb : b.WellFormed) (found : b.find? code = some i)
    (resting : Orders.find? key i.orders = some order) :
    o.cancel b code key n = some (b.cancel code key n) := by
  have mem := Book.mem_of_find? found
  have hkey : order.key = key := Orders.key_of_find? resting
  subst hkey
  have exact' : o.withdraw i order n = some (i.withdraw order n) :=
    withdraw_exact h (hb.sorted i mem) mem resting
  simp only [cancel, Book.cancel, found, resting, exact', Option.bind_eq_bind, Option.bind_some]
  cases withdrawn : i.withdraw order n with
  | none => rfl
  | some result =>
    obtain ⟨after, w⟩ := result
    obtain ⟨pos, least, release, -⟩ := Instrument.withdraw_eq_some withdrawn
    have le : w.qty ≤ order.qty := least ▸ min_le_right _ _
    have range := (h.cancel hb found resting pos le).balance
    have balance : o.word (b.balance + w.release) = some (b.balance + w.release) :=
      word_of_fitsWord (release ▸ range)
    simp only [balance, Option.bind_some]

/-- Placing a covered order in a book in range is placing it on the integers, if the notional of
a sell is in range as well. -/
theorem insert_exact {side : Side} {price qty : Int} (h : b.InRange)
    (found : b.find? code = some i) (hprice : 0 < price) (hqty : 0 < qty)
    (covers : i.Covers b.balance side price qty) (sale : side = .sell → FitsWord (price * qty)) :
    o.insert b code side price qty = some (b.insert code side price qty) := by
  have mem := Book.mem_of_find? found
  have words := h.of_covers b.nextId mem hprice hqty covers
  cases side with
  | buy =>
    have paid : i.kind.cost price qty ≤ b.balance := covers
    have nonneg : 0 ≤ i.kind.cost price qty := i.kind.cost_nonneg hprice.le hqty.le
    have cost : o.cost i.kind price qty = some (i.kind.cost price qty) :=
      cost_exact_of_le hqty.le le_rfl (words.cost rfl)
    have balance : o.word (b.balance - i.kind.cost price qty)
        = some (b.balance - i.kind.cost price qty) :=
      word_of_fitsWord (h.balance.of_between (by omega) (by omega))
    simp only [insert, Book.insert, found, held, cost, balance, Option.bind_eq_bind,
      Option.bind_some, Instrument.place]
  | sell =>
    have offered : qty ≤ i.idle := covers
    have notional : o.word (price * qty) = some (price * qty) := word_of_fitsWord (sale rfl)
    have balance : o.word (b.balance - 0) = some b.balance := by
      rw [sub_zero]
      exact word_of_fitsWord h.balance
    have idle : o.word (i.idle - qty) = some (i.idle - qty) :=
      word_of_fitsWord ((h.idle mem).of_between (by omega) (by omega))
    simp only [insert, Book.insert, found, held, notional, balance, idle, Option.map_some,
      Option.bind_eq_bind, Option.bind_some, Instrument.place]

/-- The book after an operation of a request. -/
def execute (o : Overflow) (b : Book) : Operation → Option (Except Error Book)
  | .insert code side price qty => (o.insert b code side price qty).map (Except.map Posted.book)
  | .cancel code key qty => (o.cancel b code key qty).map (Except.map Posted.book)

/-- Operations that are carried out in turn with words and without an error, each fit for the
book that it meets. -/
inductive Carried (o : Overflow) : Book → List Operation → Book → Prop
  | nil (b : Book) : Carried o b [] b
  | cons {b b' b'' : Book} {op : Operation} {ops : List Operation} (fits : b.Fits op)
      (done : o.execute b op = some (.ok b')) (rest : Carried o b' ops b'') :
      Carried o b (op :: ops) b''

end Overflow

/-- Whether the notional of a sell, which is worked out and not used, is in range. -/
def Operation.SaleInRange : Operation → Prop
  | .insert _ side price qty => side = .sell → FitsWord (price * qty)
  | .cancel .. => True

instance : DecidablePred Operation.SaleInRange
  | .insert _ side price qty => inferInstanceAs (Decidable (side = .sell → FitsWord (price * qty)))
  | .cancel .. => inferInstanceAs (Decidable True)

namespace Book

variable {b b' : Book} {op : Operation}

theorem InRange.execute (h : b.InRange) (hb : b.WellFormed) (fits : b.Fits op)
    (done : b.execute op = .ok b') : b'.InRange := by
  cases op with
  | insert code side price qty =>
    obtain ⟨i, found, hprice, hqty, -, covers⟩ := fits
    cases placed : b.insert code side price qty with
    | error => simp [Book.execute, placed, Except.map] at done
    | ok p =>
      simp only [Book.execute, placed, Except.map, Except.ok.injEq] at done
      subst done
      rw [insert_eq_ok found placed]
      exact h.place hb found hprice hqty covers
  | cancel code key n =>
    obtain ⟨order, -, resting, pos, le, -⟩ := fits
    obtain ⟨i, found, resting⟩ := order?_eq_some.mp resting
    rw [execute_cancel found resting, min_eq_left le, if_pos pos] at done
    cases done
    exact h.cancel hb found resting pos le

end Book

namespace Overflow

variable {o : Overflow} {b b' : Book} {op : Operation} {ops : List Operation}

theorem execute_exact (h : b.InRange) (hb : b.WellFormed) (fits : b.Fits op)
    (sale : op.SaleInRange) : o.execute b op = some (b.execute op) := by
  cases op with
  | insert code side price qty =>
    obtain ⟨i, found, hprice, hqty, -, covers⟩ := fits
    rw [execute, insert_exact h found hprice hqty covers sale]
    rfl
  | cancel code key n =>
    obtain ⟨order, -, resting, -⟩ := fits
    obtain ⟨i, found, resting⟩ := Book.order?_eq_some.mp resting
    rw [execute, cancel_exact h hb found resting]
    rfl

/-- Operations that can be carried out in turn on the integers are carried out with words in
the same way, from a book in range. -/
theorem carried_exact (carried : Book.Carried b ops b') (h : b.InRange) (hb : b.WellFormed)
    (sales : ∀ op ∈ ops, op.SaleInRange) : o.Carried b ops b' := by
  induction carried with
  | nil b => exact .nil b
  | cons fits done _ ih =>
    obtain ⟨sale, sales⟩ := List.forall_mem_cons.mp sales
    refine .cons fits ?_ (ih (h.execute hb fits done) (Book.execute_wellFormed hb done) sales)
    rw [execute_exact h hb fits sale, done]

/-! ## Allotment -/

section Plans

variable {os : List Order} {wanted : Int}

theorem cancelPlan_exact (live : ∀ order ∈ os, 0 < order.qty) (word : FitsWord wanted) :
    o.cancelPlan wanted os = some (TradingDesk.cancelPlan (some wanted) os) := by
  induction os generalizing wanted with
  | nil => rfl
  | cons order os ih =>
    obtain ⟨here, later⟩ := List.forall_mem_cons.mp live
    simp only [cancelPlan, TradingDesk.cancelPlan]
    split
    · rfl
    next more =>
      have left : FitsWord (wanted - min order.qty wanted) := word.of_between (by omega) (by omega)
      simp only [word_of_fitsWord left, ih later left, Option.bind_eq_bind, Option.bind_some]

/-- A bound that the orders do not reach is none. -/
theorem cancelPlan_some_of_le (live : ∀ order ∈ os, 0 < order.qty)
    (le : (os.map Order.qty).sum ≤ wanted) :
    TradingDesk.cancelPlan (some wanted) os = TradingDesk.cancelPlan none os := by
  induction os generalizing wanted with
  | nil => rfl
  | cons order os ih =>
    obtain ⟨here, later⟩ := List.forall_mem_cons.mp live
    have rest : 0 ≤ (os.map Order.qty).sum :=
      List.sum_nonneg (List.forall_mem_map.mpr fun p hp => (later p hp).le)
    rw [List.map_cons, List.sum_cons] at le
    have more : ¬wanted ≤ 0 := by omega
    have first : order.qty ≤ wanted := by omega
    have left : (os.map Order.qty).sum ≤ wanted - order.qty := by omega
    simp only [TradingDesk.cancelPlan, if_neg more, min_eq_left first, ih later left]

variable {α : Type} {f : α → Option Int} {g : α → Int} {as : List α} {sum : Int}

theorem abs_sum_le (g : α → Int) (as : List α) :
    |(as.map g).sum| ≤ (as.map fun a => |g a|).sum := by
  have := Multiset.abs_sum_le_sum_abs (s := (as.map g : Multiset Int))
  rwa [Multiset.map_coe, List.map_map, Multiset.sum_coe, Multiset.sum_coe] at this

theorem addUp_exact (h : ∀ a ∈ as, f a = some (g a))
    (range : |sum| + (as.map fun a => |g a|).sum ≤ 9223372036854775807) :
    o.addUp f sum as = some (sum + (as.map g).sum) := by
  induction as generalizing sum with
  | nil => simp [addUp]
  | cons a as ih =>
    obtain ⟨here, later⟩ := List.forall_mem_cons.mp h
    have rest : 0 ≤ (as.map fun a => |g a|).sum :=
      List.sum_nonneg (List.forall_mem_map.mpr fun a _ => abs_nonneg (g a))
    rw [List.map_cons, List.sum_cons] at range
    have step := abs_add_le sum (g a)
    have added : o.word (sum + g a) = some (sum + g a) :=
      word_of_fitsWord (.of_abs_le (by omega))
    simp only [addUp, here, added, Option.bind_eq_bind, Option.bind_some]
    rw [ih later (by omega), List.map_cons, List.sum_cons, add_assoc]

end Plans

variable {i : Instrument} {side : Side} {price qty newPrice balance : Int}
  {plan : List (Order × Int)}

theorem planAt_exact (word : FitsWord qty)
    (level : ((Orders.level side price i.orders).map Order.qty).sum ≤ 9223372036854775807) :
    o.planAt i side price qty = some (i.cancelPlan side price qty) := by
  have live : ∀ order ∈ Orders.level side price i.orders, 0 < order.qty :=
    fun order ho => (Instrument.mem_level ho).2.2.2
  rw [planAt, Instrument.cancelPlan]
  split
  · rw [cancelPlan_exact live (by decide), cancelPlan_some_of_le live level]
  · exact cancelPlan_exact live word

/-- A plan cancels no more than the level has. -/
theorem sum_plan_le :
    ((i.cancelPlan side price qty).map fun part => |part.2|).sum
      ≤ ((Orders.level side price i.orders).map Order.qty).sum := by
  have live : ∀ order ∈ Orders.level side price i.orders, 0 < order.qty :=
    fun order ho => (Instrument.mem_level ho).2.2.2
  have parts : ((i.cancelPlan side price qty).map fun part => |part.2|).sum
      ≤ ((i.cancelPlan side price qty).map fun part => part.1.qty).sum := by
    refine List.sum_le_sum fun part hp => ?_
    obtain ⟨pos, le⟩ := parts_of_cancelPlan live part hp
    exact (abs_of_pos pos).trans_le le
  have orders : (((i.cancelPlan side price qty).map Prod.fst).map Order.qty).sum
      ≤ ((Orders.level side price i.orders).map Order.qty).sum :=
    (cancelPlan_sublist.map Order.qty).sum_le_sum
      (List.forall_mem_map.mpr fun order ho => (live order ho).le)
  rw [List.map_map] at orders
  exact parts.trans orders

/-- A plan frees no more than its orders can move the cash. -/
theorem sum_released_le (buy : ∀ part ∈ plan, part.1.side = .buy)
    (parts : ∀ part ∈ plan, 0 < part.2 ∧ part.2 ≤ part.1.qty) :
    (plan.map fun part => |part.1.release i.kind part.2|).sum
      ≤ (plan.map fun part => part.1.cashSway).sum := by
  refine List.sum_le_sum fun part hp => ?_
  obtain ⟨pos, le⟩ := parts part hp
  have moved := Order.abs_freed_add_le i.kind pos le
  have rest : 0 ≤ (part.1.shrink i.kind part.2).cashSway := Order.cashSway_nonneg
  simp only [Order.freed, buy part hp] at moved
  omega

theorem sum_sway_le : ((i.cancelPlan side price qty).map fun part => part.1.cashSway).sum
    ≤ i.cashSway := by
  have level : (Orders.level side price i.orders).Perm
      (i.orders.filter fun o => o.price == price && o.side == side && o.isLive) :=
    List.reverse_perm _
  have nonneg : ∀ os : List Order, ∀ n ∈ os.map Order.cashSway, 0 ≤ n :=
    fun os => List.forall_mem_map.mpr fun _ _ => Order.cashSway_nonneg
  have orders : (((i.cancelPlan side price qty).map Prod.fst).map Order.cashSway).sum
      ≤ ((Orders.level side price i.orders).map Order.cashSway).sum :=
    (cancelPlan_sublist.map Order.cashSway).sum_le_sum (nonneg _)
  rw [List.map_map, (level.map Order.cashSway).sum_eq] at orders
  exact orders.trans ((List.filter_sublist.map Order.cashSway).sum_le_sum (nonneg _))

theorem mostReplaced_exact {limit : Int} (words : ∀ order ∈ i.orders, order.InRange i.kind)
    (level : ((Orders.level side price i.orders).map Order.qty).sum ≤ 9223372036854775807)
    (cash : |balance| + i.cashSway ≤ 9223372036854775807)
    (search : side = .buy → i.kind.Searchable limit (balance
      + ((i.cancelPlan side price qty).map fun part => part.1.release i.kind part.2).sum)) :
    o.mostReplaced i balance side limit (i.cancelPlan side price qty)
      = some (i.mostReplaced balance side limit (i.cancelPlan side price qty)) := by
  have inLevel : ∀ part ∈ i.cancelPlan side price qty,
      part.1 ∈ i.orders ∧ part.1.price = price ∧ part.1.side = side ∧ 0 < part.1.qty :=
    fun part hp => Instrument.mem_level (Instrument.mem_cancelPlan hp)
  have total : o.addUp (fun part => some part.2) 0 (i.cancelPlan side price qty)
      = some (0 + ((i.cancelPlan side price qty).map Prod.snd).sum) := by
    refine addUp_exact (fun part _ => rfl) ?_
    rw [abs_zero, zero_add]
    exact sum_plan_le.trans level
  rw [zero_add] at total
  cases side with
  | sell =>
    simp only [mostReplaced, total, Option.bind_eq_bind, Option.bind_some, Instrument.mostReplaced]
  | buy =>
    have parts : ∀ part ∈ i.cancelPlan .buy price qty, 0 < part.2 ∧ part.2 ≤ part.1.qty :=
      parts_of_cancelPlan fun order ho => (Instrument.mem_level ho).2.2.2
    have sways := (sum_released_le (i := i) (fun part hp => (inLevel part hp).2.2.1) parts).trans
      sum_sway_le
    have released : o.addUp (fun part => o.release i.kind part.1 part.2) 0
        (i.cancelPlan .buy price qty)
        = some (0 + ((i.cancelPlan .buy price qty).map
          fun part => part.1.release i.kind part.2).sum) := by
      refine addUp_exact (fun part hp => ?_) ?_
      · obtain ⟨mem, -, buy, -⟩ := inLevel part hp
        exact release_exact (words part.1 mem) buy (parts part hp).1 (parts part hp).2
      · have := abs_nonneg balance
        rw [abs_zero]
        omega
    rw [zero_add] at released
    have funds : FitsWord (balance
        + ((i.cancelPlan .buy price qty).map fun part => part.1.release i.kind part.2).sum) := by
      have apart := abs_add_le balance
        ((i.cancelPlan .buy price qty).map fun part => part.1.release i.kind part.2).sum
      have added := abs_sum_le (fun part => part.1.release i.kind part.2)
        (i.cancelPlan .buy price qty)
      exact .of_abs_le (by omega)
    simp only [mostReplaced, total, released, word_of_fitsWord funds,
      maxAffordable_exact_words (search rfl), Option.bind_eq_bind, Option.bind_some,
      Instrument.mostReplaced]

theorem allotPlace_exact (search : side = .buy → i.kind.validPrice (i.limit side price) = true →
      i.kind.Searchable (i.limit side price) balance) :
    o.allotPlace i balance side price qty = some (i.allotPlace balance side price qty) := by
  by_cases valid : i.kind.validPrice (i.limit side price) = true
  · simp only [allotPlace, Instrument.allotPlace, Instrument.clampPrice_of_valid valid]
    cases side with
    | buy =>
      simp only [mostPlaced, maxAffordable_exact_words (search rfl valid), Option.bind_eq_bind,
        Option.bind_some]
    | sell => rfl
  · simp only [allotPlace, Instrument.allotPlace, Instrument.clampPrice_of_invalid valid]

theorem allotCancel_exact (word : FitsWord qty)
    (level : ((Orders.level side price i.orders).map Order.qty).sum ≤ 9223372036854775807) :
    o.allotCancel i side price qty = some (i.allotCancel side price qty) := by
  simp only [allotCancel, planAt_exact word level, Option.bind_eq_bind, Option.bind_some,
    Instrument.allotCancel]
  cases i.cancelPlan side price qty <;> rfl

theorem allotModify_exact (words : ∀ order ∈ i.orders, order.InRange i.kind) (word : FitsWord qty)
    (level : ((Orders.level side price i.orders).map Order.qty).sum ≤ 9223372036854775807)
    (cash : |balance| + i.cashSway ≤ 9223372036854775807)
    (search : side = .buy → i.kind.validPrice (i.limit side newPrice) = true →
      i.kind.Searchable (i.limit side newPrice) (balance
        + ((i.cancelPlan side price qty).map fun part => part.1.release i.kind part.2).sum)) :
    o.allotModify i balance side price qty newPrice
      = some (i.allotModify balance side price qty newPrice) := by
  have replaced : i.kind.validPrice (i.limit side newPrice) = true →
      o.mostReplaced i balance side (i.limit side newPrice) (i.cancelPlan side price qty)
        = some (i.mostReplaced balance side (i.limit side newPrice)
            (i.cancelPlan side price qty)) :=
    fun valid => mostReplaced_exact words level cash fun buy => search buy valid
  simp only [allotModify, planAt_exact word level, Option.bind_eq_bind, Option.bind_some,
    Instrument.allotModify]
  cases plan : i.cancelPlan side price qty with
  | nil => rfl
  | cons part parts =>
    by_cases valid : i.kind.validPrice (i.limit side newPrice) = true
    · have replaced := replaced valid
      rw [plan] at replaced
      simp only [Instrument.clampPrice_of_valid valid]
      split
      · rfl
      · rw [replaced]
        cases side with
        | buy => simp only [Option.bind_some, Instrument.mostReplaced, sumOf_eq]
        | sell => simp only [Option.bind_some, Instrument.mostReplaced, sumOf_eq]
    · simp only [Instrument.clampPrice_of_invalid valid]

end Overflow

namespace Book

variable {o : Overflow} {b : Book} {r : Request}

/-- Whether a book in range leaves enough headroom for a request: what it can cancel of a level
is in range, and so are the cost that its search for a quantity ends with and the notionals of
its sells. -/
structure Headroom (b : Book) (r : Request) : Prop extends InRange b where
  wanted : FitsWord r.qty
  level : ∀ i ∈ b.find? r.code, ∀ side ∈ [Side.buy, .sell],
    ((Orders.level side r.price i.orders).map Order.qty).sum ≤ 9223372036854775807
  placed : r.action = .place .buy → ∀ i ∈ b.find? r.code,
    i.kind.validPrice (i.limit .buy r.price) = true →
      i.kind.Searchable (i.limit .buy r.price) b.balance
  replaced : r.action = .modify .buy → ∀ i ∈ b.find? r.code,
    i.kind.validPrice (i.limit .buy r.newPrice) = true →
      i.kind.Searchable (i.limit .buy r.newPrice) (b.balance
        + ((i.cancelPlan .buy r.price r.qty).map fun part => part.1.release i.kind part.2).sum)
  sales : ∀ op ∈ (b.allot r).allotment.operations, op.SaleInRange

theorem Headroom.level_le {i : Instrument} (h : b.Headroom r) (found : b.find? r.code = some i)
    (side : Side) :
    ((Orders.level side r.price i.orders).map Order.qty).sum ≤ 9223372036854775807 :=
  h.level i found side (by cases side <;> decide)

theorem Headroom.allot_exact (h : b.Headroom r) : o.allot b r = some (b.allot r) := by
  simp only [Overflow.allot, allot]
  cases action : r.action with
  | cancelAll => rfl
  | sellAll => rfl
  | place side =>
    cases found : b.find? r.code with
    | none => rfl
    | some i =>
      refine Overflow.allotPlace_exact ?_
      rintro rfl
      exact h.placed action i found
  | cancel side =>
    cases found : b.find? r.code with
    | none => rfl
    | some i => exact Overflow.allotCancel_exact h.wanted (h.level_le found side)
  | modify side =>
    cases found : b.find? r.code with
    | none => rfl
    | some i =>
      have mem := mem_of_find? found
      refine Overflow.allotModify_exact (h.orders i mem) h.wanted (h.level_le found side)
        (h.cash_add_le mem) ?_
      rintro rfl
      exact h.replaced action i found

end Book

end TradingDesk
