-- SUMMARY: What an account can be overdrawn by when orders are covered and fills are fair.
import TradingDesk.Proofs.Fees
import TradingDesk.Proofs.Matching
import TradingDesk.Proofs.Operations

/-!
# Solvency

An order is covered when it is placed, but each of its fills pays a fee of its own,
rounded, and these fees may add up to more than the escrow holds. The `shortfall` of a
book is what it is overdrawn by and what is missing from the escrow of its buys. A fill
or a cancel that leaves something of a buy open raises it by no more than one, and
nothing else raises it.
-/

namespace TradingDesk

/-! ## Orders -/

namespace Order

variable {kind : Kind} {o : Order} {n paid : Int}

/-- What is missing from the escrow of a buy to pay for all that is open of it. -/
def shortfall (kind : Kind) (o : Order) : Int :=
  match o.side with
  | .buy => max (kind.cost o.price o.qty - o.escrow) 0
  | .sell => 0

theorem shortfall_nonneg : 0 ≤ o.shortfall kind := by
  simp only [shortfall]
  cases o.side with
  | buy => exact le_max_right _ _
  | sell => exact le_rfl

/-- What an order must be like for its costs to be bounded. -/
structure Funded (o : Order) : Prop where
  price : 0 < o.price
  qty : 0 ≤ o.qty
  escrow : 0 ≤ o.escrow

theorem funded_bare : o.bare.Funded ↔ o.Funded :=
  ⟨fun h => ⟨h.price, h.qty, h.escrow⟩, fun h => ⟨h.price, h.qty, h.escrow⟩⟩

theorem Funded.shrink (h : o.Funded) (le : n ≤ o.qty) : (o.shrink kind n).Funded where
  price := by
    rw [shrink_price]
    exact h.price
  qty := by
    rw [shrink_qty]
    omega
  escrow := by
    have := h.escrow
    rw [shrink_escrow, freed]
    cases o.side with
    | buy =>
      have := @release_le kind o n
      simp only
      omega
    | sell =>
      simp only
      omega

/-- A part of a buy that is paid for with no more than its cost, or given up, raises the
overdraft and the shortfall together by no more than one, and the last part by nothing. -/
theorem shortfall_shrink (balance : Int) (buy : o.side = .buy) (h : o.Funded) (pos : 0 < n)
    (le : n ≤ o.qty) (hpaid : paid ≤ kind.cost o.price n) :
    max (-(balance + o.release kind n - paid)) 0 + (o.shrink kind n).shortfall kind
      ≤ max (-balance) 0 + o.shortfall kind + if n < o.qty then 1 else 0 := by
  have escrow := h.escrow
  have after : (o.shrink kind n).shortfall kind
      = max (kind.cost o.price (o.qty - n) - (o.escrow - o.release kind n)) 0 := by
    simp only [shortfall, shrink_side, buy, shrink_price, shrink_qty, shrink_escrow, freed]
  have before : o.shortfall kind = max (kind.cost o.price o.qty - o.escrow) 0 := by
    simp only [shortfall, buy]
  rw [after, before]
  by_cases whole : o.qty ≤ n
  · have all : n = o.qty := le_antisymm le whole
    rw [all] at hpaid
    simp only [all, release_whole, sub_self, kind.cost_zero, lt_irrefl, if_false]
    omega
  · have parts := kind.cost_add_le h.price.le pos.le (show 0 ≤ o.qty - n by omega)
    rw [add_sub_cancel] at parts
    simp only [release, if_neg whole, if_pos (not_le.mp whole)]
    have rest := kind.cost_nonneg h.price.le (show 0 ≤ o.qty - n by omega)
    omega

end Order

/-! ## Instruments and books -/

/-- What is missing from the escrow of an instrument's buys. -/
def Instrument.shortfall (i : Instrument) : Int := (i.orders.map (Order.shortfall i.kind)).sum

theorem Instrument.shortfall_of_account {i i' : Instrument} (h : i'.account = i.account) :
    i'.shortfall = i.shortfall := by
  rw [shortfall, shortfall, kind_of_account h]
  exact sum_of_account _ (fun _ => rfl) h

theorem Instrument.shortfall_sweep {i : Instrument} : i.sweep.shortfall ≤ i.shortfall := by
  have dropped : ∀ os : List Order, ((os.filter Order.isLive).map (Order.shortfall i.kind)).sum
      ≤ (os.map (Order.shortfall i.kind)).sum := by
    intro os
    induction os with
    | nil => exact le_rfl
    | cons o os ih =>
      have := @Order.shortfall_nonneg i.kind o
      by_cases live : o.isLive = true
      · simp only [List.filter_cons_of_pos live, List.map_cons, List.sum_cons]
        omega
      · simp only [List.filter_cons_of_neg live, List.map_cons, List.sum_cons]
        omega
  exact dropped i.orders

/-- Whether an event leaves something of a buy open. -/
def Event.splits : Event → Bool
  | .placed .. => false
  | .filled _ f => f.order.side == .buy && decide (f.qty < f.order.qty)
  | .canceled _ o qty => o.side == .buy && decide (qty < o.qty)

namespace Book

variable {b b' : Book} {code : String} {i i' : Instrument} {history : List Event}

/-- What the account is overdrawn by and what is missing from the escrow of its buys. -/
def shortfall (b : Book) : Int := max (-b.balance) 0 + b.total Instrument.shortfall

/-- What is asked of the events of a run: orders are placed at positive prices, for
positive quantities that are covered, and fills are fair. -/
def Sound (b : Book) : Event → Prop
  | .placed i o => 0 < o.price ∧ 0 < o.qty ∧ i.Covers b.balance o.side o.price o.qty
  | .filled _ f => f.Fair
  | .canceled .. => True

/-- No holdings below zero, all orders funded, and a shortfall of no more than `k`. -/
structure Solvent (b : Book) (k : Nat) : Prop where
  idle : ∀ i ∈ b.instruments, 0 ≤ i.idle
  funded : ∀ i ∈ b.instruments, ∀ o ∈ i.orders, o.Funded
  shortfall : b.shortfall ≤ k

/-- An order that shrinks stays funded, and its instrument's shortfall changes with its own. -/
theorem solvent_set_shrink {key : Key} {o : Order} {n cash : Int} {k m : Nat} (hb : b.WellFormed)
    (solvent : b.Solvent k) (found : b.find? code = some i)
    (resting : Orders.find? key i.orders = some o) (le : n ≤ o.qty) (hcode : i'.code = i.code)
    (hkind : i'.kind = i.kind) (horders : i'.orders = (i.shrinkOrder key n).orders)
    (hidle : 0 ≤ i'.idle)
    (raise : max (-(b.balance + cash)) 0 + (o.shrink i.kind n).shortfall i.kind
      ≤ max (-b.balance) 0 + o.shortfall i.kind + m) :
    { b.set i' with balance := b.balance + cash }.Solvent (k + m) := by
  have mem := mem_of_find? found
  refine ⟨forall_set solvent.idle hidle, ?_, ?_⟩
  · exact Each.shrink solvent.funded hb found resting horders (·.shrink le)
  · have changed : i'.shortfall
        = i.shortfall - o.shortfall i.kind + (o.shrink i.kind n).shortfall i.kind := by
      rw [Instrument.shortfall, hkind, horders]
      exact Instrument.sum_shrinkOrder _ (hb.sorted i mem) resting
    have total := hb.total_set (find?_of_code found hcode) Instrument.shortfall
    have before := solvent.shortfall
    simp only [Book.shortfall] at before ⊢
    change max (-(b.balance + cash)) 0 + (b.set i').total Instrument.shortfall ≤ _
    rw [total, changed]
    push_cast
    omega

theorem Solvent.of_account {k : Nat} (solvent : b.Solvent k) (same : b'.account = b.account) :
    b'.Solvent k where
  idle := by
    intro i hi
    obtain ⟨j, hj, eq⟩ := exists_mem_of_account same hi
    rw [Instrument.idle_of_account eq]
    exact solvent.idle j hj
  funded := Each.of_account solvent.funded (fun _ => Order.funded_bare) same
  shortfall := by
    rw [Book.shortfall, balance_of_account same,
      total_of_account (fun _ _ => Instrument.shortfall_of_account) same]
    exact solvent.shortfall

theorem Solvent.sweep {k : Nat} (solvent : b.Solvent k) : b.sweep.Solvent k where
  idle := by
    simp only [Book.sweep, List.forall_mem_map]
    exact solvent.idle
  funded := Each.sweep solvent.funded
  shortfall := by
    have swept : b.sweep.total Instrument.shortfall ≤ b.total Instrument.shortfall := by
      simp only [total, Book.sweep, List.map_map]
      exact List.sum_le_sum fun i _ => Instrument.shortfall_sweep
    have before := solvent.shortfall
    simp only [Book.shortfall] at before ⊢
    change max (-b.balance) 0 + _ ≤ _
    omega

/-- A covered order is paid for when it is placed. -/
theorem Solvent.place {k : Nat} {side : Side} {price qty : Int} (solvent : b.Solvent k)
    (hb : b.WellFormed) (found : b.find? code = some i) (hprice : 0 < price) (hqty : 0 < qty)
    (covers : i.Covers b.balance side price qty) :
    { b.set (i.place b.nextId side price qty) with
      balance := b.charged i.kind side price qty, nextId := b.nextId + 1 }.Solvent k := by
  have mem := mem_of_find? found
  have foundHere : b.find? (i.place b.nextId side price qty).code = some i :=
    find?_of_code found rfl
  refine ⟨?_, ?_, ?_⟩
  · refine forall_set solvent.idle ?_
    cases side with
    | buy => exact solvent.idle i mem
    | sell => exact sub_nonneg.mpr covers
  · refine Each.place solvent.funded hb found ⟨hprice, hqty.le, ?_⟩
    cases side with
    | buy => exact i.kind.cost_nonneg hprice.le hqty.le
    | sell => exact le_rfl
  · have paid : (i.newOrder b.nextId side price qty).shortfall i.kind = 0 := by
      cases side <;> simp [Order.shortfall, Instrument.newOrder]
    have changed : (i.place b.nextId side price qty).shortfall = i.shortfall := by
      have sum := Instrument.sum_place (Order.shortfall i.kind) (hb.ids i mem) side price qty
      rw [paid, add_zero] at sum
      exact sum
    have total := hb.total_set foundHere Instrument.shortfall
    have before := solvent.shortfall
    simp only [Book.shortfall] at before ⊢
    change max (-_) 0 + (b.set (i.place b.nextId side price qty)).total Instrument.shortfall ≤ _
    rw [total, changed]
    cases side with
    | buy =>
      have covers : i.kind.cost price qty ≤ b.balance := covers
      simp only [charged]
      omega
    | sell =>
      simp only [charged]
      omega

theorem Solvent.fill {key : Key} {o : Order} {price qty : Int} {f : Fill} {k : Nat}
    (solvent : b.Solvent k) (hb : b.WellFormed) (found : b.find? code = some i)
    (resting : Orders.find? key i.orders = some o) (filled : i.fill o price qty = some (i', f))
    (fair : f.Fair) :
    ((b.set i').post code f).book.Solvent (k + [Event.filled code f].countP Event.splits) := by
  obtain ⟨pos, -, le, order, -, fee, release, after⟩ := Instrument.fill_eq_some filled
  have funded := solvent.funded i (mem_of_find? found) o (Orders.mem_of_find? resting)
  have idle := solvent.idle i (mem_of_find? found)
  rw [Fill.Fair, order] at fair
  rw [← Orders.key_of_find? resting] at resting
  have kept : { b.set i' with balance := b.balance + f.cash }.Solvent
      (k + [Event.filled code f].countP Event.splits) := by
    refine solvent_set_shrink hb solvent found resting le (Instrument.code_of_fill filled)
      (by rw [after]; rfl) (by rw [after]) ?_ ?_
    · rw [after]
      cases o.side <;> simp only <;> omega
    · cases hside : o.side with
      | buy =>
        rw [hside] at fair fee
        have paid : i.kind.cost f.price f.qty ≤ i.kind.cost o.price f.qty :=
          i.kind.cost_mono (mul_le_mul_of_nonneg_right fair pos.le)
        have bound := Order.shortfall_shrink b.balance hside funded pos le paid
        have cash : f.cash = o.release i.kind f.qty - i.kind.cost f.price f.qty := by
          simp only [Fill.cash, order, hside, release, Order.freed, fee]
          rfl
        rw [cash, ← add_sub_assoc]
        refine bound.trans (le_of_eq ?_)
        simp only [List.countP_singleton, Event.splits, order, hside]
        simp
      | sell =>
        rw [hside] at fair fee
        have notional : 0 ≤ f.notional :=
          mul_nonneg (funded.price.le.trans fair) pos.le
        have cash : 0 ≤ f.cash := by
          have := i.kind.sellFee_le notional
          simp only [Fill.cash, order, hside, fee, Kind.fee]
          omega
        have none : ∀ p : Order, p.side = .sell → p.shortfall i.kind = 0 := by
          intro p hp
          simp only [Order.shortfall, hp]
        rw [none o hside, none _ (by rw [Order.shrink_side, hside])]
        omega
  exact ⟨kept.idle, kept.funded, kept.shortfall⟩

theorem Solvent.cancel {key : Key} {o : Order} {qty : Int} {w : Withdrawal} {k : Nat}
    (solvent : b.Solvent k) (hb : b.WellFormed) (found : b.find? code = some i)
    (resting : Orders.find? key i.orders = some o) (withdrawn : i.withdraw o qty = some (i', w)) :
    { b.set i' with balance := b.balance + w.release }.Solvent
      (k + [Event.canceled code o w.qty].countP Event.splits) := by
  obtain ⟨pos, least, release, after⟩ := Instrument.withdraw_eq_some withdrawn
  have le : w.qty ≤ o.qty := least ▸ min_le_right qty o.qty
  have funded := solvent.funded i (mem_of_find? found) o (Orders.mem_of_find? resting)
  have idle := solvent.idle i (mem_of_find? found)
  rw [← Orders.key_of_find? resting] at resting
  refine solvent_set_shrink hb solvent found resting le (Instrument.code_of_withdraw withdrawn)
    (by rw [after]; rfl) (by rw [after]) ?_ ?_
  · rw [after]
    cases o.side <;> simp only <;> omega
  · cases hside : o.side with
    | buy =>
      have nothing : 0 ≤ i.kind.cost o.price w.qty := i.kind.cost_nonneg funded.price.le pos.le
      have bound := Order.shortfall_shrink b.balance hside funded pos le nothing
      rw [sub_zero] at bound
      simp only [release, Order.freed, hside]
      refine bound.trans (le_of_eq ?_)
      simp only [List.countP_singleton, Event.splits, hside]
      simp
    | sell =>
      have none : ∀ p : Order, p.side = .sell → p.shortfall i.kind = 0 := by
        intro p hp
        simp only [Order.shortfall, hp]
      rw [none o hside, none _ (by rw [Order.shrink_side, hside]), release]
      simp only [Order.freed, hside]
      omega

theorem Step.solvent {e : Option Event} {k : Nat} (step : Step b e b') (sound : ∀ x ∈ e, b.Sound x)
    (hb : b.WellFormed) (solvent : b.Solvent k) :
    b'.Solvent (k + e.toList.countP Event.splits) := by
  cases step with
  | observe same => exact solvent.of_account same
  | sweep => exact solvent.sweep
  | place found ok =>
    obtain ⟨price, qty, covers⟩ := sound _ rfl
    rw [insert_eq_ok found ok]
    exact solvent.place hb found price qty covers
  | fill found resting filled => exact solvent.fill hb found resting filled (sound _ rfl)
  | cancel found resting withdrawn => exact solvent.cancel hb found resting withdrawn

/-- A run raises the shortfall by no more than one for each split of a buy. -/
theorem Run.solvent {k : Nat} (run : Run Sound b history b') (hb : b.WellFormed)
    (solvent : b.Solvent k) : b'.Solvent (k + history.countP Event.splits) := by
  induction run with
  | refl => exact solvent
  | snoc run step sound ih =>
    rw [List.countP_append, ← add_assoc]
    exact step.solvent sound (run.wellFormed hb) ih

theorem Solvent.balance {k : Nat} (solvent : b.Solvent k) : -(k : Int) ≤ b.balance := by
  have orders : 0 ≤ b.total Instrument.shortfall := by
    apply List.sum_nonneg
    simp only [List.forall_mem_map]
    intro i _
    apply List.sum_nonneg
    simp only [List.forall_mem_map]
    exact fun o _ => Order.shortfall_nonneg
  have bound := solvent.shortfall
  rw [Book.shortfall] at bound
  omega

end Book

end TradingDesk
