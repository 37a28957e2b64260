-- SUMMARY: No history of a book creates or loses cash or shares.
import TradingDesk.Proofs.Fees
import TradingDesk.Proofs.History
import TradingDesk.Proofs.Opening

/-!
# Conservation

Cash is in the balance or in escrow, and only fills change the sum of both, by what
the statistics record. Shares are idle or offered, and only fills change their
number. What makes the sweep harmless is that an order with nothing open holds
nothing back, however its escrow was released piece by piece.
-/

namespace TradingDesk

/-! ## Settled orders -/

/-- What is left of an order is not negative, and when nothing is left, nothing is
held back; a sell never holds anything back. -/
structure Order.Settled (o : Order) : Prop where
  nonneg : 0 ≤ o.qty
  released : o.qty = 0 → o.escrow = 0
  sell : o.side = .sell → o.escrow = 0

namespace Order

variable {kind : Kind} {o : Order} {n : Int}

theorem settled_bare : o.bare.Settled ↔ o.Settled :=
  ⟨fun h => ⟨h.nonneg, h.released, h.sell⟩, fun h => ⟨h.nonneg, h.released, h.sell⟩⟩

theorem Settled.shrink (h : o.Settled) (le : n ≤ o.qty) : (o.shrink kind n).Settled where
  nonneg := by
    rw [shrink_qty]
    omega
  released := by
    intro done
    rw [shrink_qty] at done
    have whole : n = o.qty := by omega
    rw [shrink_escrow, freed, whole]
    cases hs : o.side with
    | buy => simp [release_whole]
    | sell => simp [h.sell hs]
  sell := by
    intro hs
    rw [shrink_side] at hs
    simp [shrink_escrow, freed, hs, h.sell hs]

/-- A settled order that is swept takes nothing along. -/
theorem Settled.of_not_live (h : o.Settled) (dead : ¬o.isLive = true) :
    o.qty = 0 ∧ o.escrow = 0 := by
  have := h.nonneg
  have nothing : o.qty = 0 := by
    simp only [isLive, decide_eq_true_eq] at dead
    omega
  exact ⟨nothing, h.released nothing⟩

end Order

theorem Instrument.settled_newOrder {i : Instrument} {id : Nat} {side : Side} {price qty : Int}
    (hq : 0 ≤ qty) : (i.newOrder id side price qty).Settled where
  nonneg := hq
  released := by
    intro nothing
    change qty = 0 at nothing
    cases side <;> simp [newOrder, nothing]
  sell := by
    intro hs
    change side = .sell at hs
    simp [newOrder, hs]

/-- A sum over orders to which dead ones contribute nothing is that over the live ones. -/
theorem Instrument.sum_liveOrders {i : Instrument} {f : Order → Int}
    (h : ∀ o ∈ i.orders, ¬o.isLive = true → f o = 0) :
    (i.liveOrders.map f).sum = (i.orders.map f).sum := by
  simp only [liveOrders]
  generalize i.orders = orders at h
  induction orders with
  | nil => rfl
  | cons o os ih =>
    have rest := ih fun p hp => h p (List.mem_cons_of_mem o hp)
    by_cases live : o.isLive = true
    · simp [List.filter_cons_of_pos live, rest]
    · simp [List.filter_cons_of_neg live, rest, h o List.mem_cons_self live]

namespace Book

variable {b b' : Book} {code : String} {i i' : Instrument}

def Settled (b : Book) : Prop := ∀ i ∈ b.instruments, ∀ o ∈ i.orders, o.Settled

/-- What is asked of the placing of orders: a quantity that is not negative. -/
def Placed (_ : Book) : Event → Prop
  | .placed _ o => 0 ≤ o.qty
  | .filled .. => True
  | .canceled .. => True

theorem Step.settled {e : Option Event} (step : Step b e b') (placed : ∀ x ∈ e, b.Placed x)
    (hb : b.WellFormed) (hs : b.Settled) : b'.Settled :=
  step.each hb hs (fun _ => Order.settled_bare)
    (fun _ _ _ _ _ eq => Instrument.settled_newOrder (placed _ eq)) fun _ _ _ le h => h.shrink le

theorem Run.settled {history : List Event} (run : Run Placed b history b') (hb : b.WellFormed)
    (hs : b.Settled) : b'.Settled := by
  induction run with
  | refl => exact hs
  | snoc run step placed ih => exact step.settled placed (run.wellFormed hb) ih

end Book

/-! ## Cash -/

/-- The cash that all fills together brought in. -/
def Stats.cashFlow (s : Stats) : Int := s.sold - s.bought - s.fees

theorem Stats.cashFlow_record (s : Stats) (f : Fill) :
    (s.record f).cashFlow = s.cashFlow + match f.order.side with
      | .buy => -(f.notional + f.fee)
      | .sell => f.notional - f.fee := by
  simp only [cashFlow, record]
  cases f.order.side <;> simp only <;> omega

theorem Fill.cash_eq {f : Fill} {kind : Kind} (h : f.release = f.order.freed kind f.qty) :
    f.cash = f.release + match f.order.side with
      | .buy => -(f.notional + f.fee)
      | .sell => f.notional - f.fee := by
  rw [Order.freed] at h
  simp only [cash]
  cases hs : f.order.side with
  | buy =>
    simp only
    omega
  | sell =>
    rw [hs] at h
    simp only at h ⊢
    omega

namespace Book

variable {b b' : Book} {code : String} {i i' : Instrument}

/-- The cash of the account, apart from what fills brought in. -/
def principal (b : Book) : Int := b.balance + b.escrow - b.stats.cashFlow

theorem escrow_sweep (hs : b.Settled) : b.sweep.escrow = b.escrow := by
  simp only [escrow, total, sweep, List.map_map]
  congr 1
  apply List.map_congr_left
  intro i hi
  exact Instrument.sum_liveOrders fun o ho dead => ((hs i hi o ho).of_not_live dead).2

/-- An order that shrinks sets cash free. -/
theorem escrow_set_shrink {key : Key} {o : Order} {n : Int} (hb : b.WellFormed)
    (found : b.find? code = some i) (resting : Orders.find? key i.orders = some o)
    (hcode : i'.code = i.code) (horders : i'.orders = (i.shrinkOrder key n).orders) :
    (b.set i').escrow = b.escrow - o.freed i.kind n := by
  have released := Instrument.escrow_shrinkOrder (n := n) (hb.sorted i (mem_of_find? found)) resting
  have same : i'.escrow = (i.shrinkOrder key n).escrow := by
    simp only [Instrument.escrow, horders]
  rw [escrow, hb.total_set (find?_of_code found hcode), same, released, escrow]
  omega

theorem Step.principal {e : Option Event} (step : Step b e b') (hb : b.WellFormed)
    (hs : b.Settled) : b'.principal = b.principal := by
  cases step with
  | observe same =>
    have escrow : b'.escrow = b.escrow :=
      total_of_account (fun _ _ => Instrument.escrow_of_account) same
    simp only [Book.principal, escrow, balance_of_account same, stats_of_account same]
  | sweep =>
    simp only [Book.principal, escrow_sweep hs]
    rfl
  | @place _ i side price qty _ found ok =>
    rw [insert_eq_ok found ok]
    have mem := mem_of_find? found
    have foundHere : b.find? (i.place b.nextId side price qty).code = some i :=
      find?_of_code found rfl
    have heldBack : (i.place b.nextId side price qty).escrow
        = i.escrow + (i.newOrder b.nextId side price qty).escrow :=
      Instrument.sum_place Order.escrow (hb.ids i mem) side price qty
    have escrow : (b.set (i.place b.nextId side price qty)).escrow
        = b.escrow + (i.newOrder b.nextId side price qty).escrow := by
      rw [Book.escrow, hb.total_set foundHere, heldBack, Book.escrow]
      omega
    change _ + (b.set (i.place b.nextId side price qty)).escrow - b.stats.cashFlow = _
    rw [escrow, Book.principal]
    cases side <;> simp only [charged, Instrument.newOrder] <;> omega
  | @fill _ i i' _ o _ _ f found resting filled =>
    obtain ⟨-, -, -, order, -, -, release, after⟩ := Instrument.fill_eq_some filled
    rw [← Orders.key_of_find? resting] at resting
    have escrow : (b.set i').escrow = b.escrow - o.freed i.kind f.qty :=
      escrow_set_shrink hb found resting (by rw [after]; rfl) (by rw [after])
    have cash : f.cash = _ := Fill.cash_eq (by rw [order]; exact release)
    change b.balance + f.cash + (b.set i').escrow - (b.stats.record f).cashFlow = _
    rw [escrow, Stats.cashFlow_record, cash, release, Book.principal]
    omega
  | @cancel _ i i' _ o _ w found resting withdrawn =>
    obtain ⟨-, -, release, after⟩ := Instrument.withdraw_eq_some withdrawn
    rw [← Orders.key_of_find? resting] at resting
    have escrow : (b.set i').escrow = b.escrow - o.freed i.kind w.qty :=
      escrow_set_shrink hb found resting (by rw [after]; rfl) (by rw [after])
    change b.balance + w.release + (b.set i').escrow - b.stats.cashFlow = _
    rw [escrow, release, Book.principal]
    omega

theorem Run.principal {history : List Event} (run : Run Placed b history b') (hb : b.WellFormed)
    (hs : b.Settled) : b'.principal = b.principal := by
  induction run with
  | refl => rfl
  | snoc run step _ ih => rw [step.principal (run.wellFormed hb) (run.settled hb hs), ih]

end Book

/-! ## Shares -/

/-- The quantity of a code that an event fills on a side. -/
def Event.filledQty (side : Side) (code : String) : Event → Int
  | .placed .. => 0
  | .filled c f => if c = code ∧ f.order.side = side then f.qty else 0
  | .canceled .. => 0

/-- The shares of a code that an event brings in. -/
def Event.gain (code : String) (e : Event) : Int :=
  e.filledQty .buy code - e.filledQty .sell code

/-- The quantity of a code that a history fills on a side. -/
def filledQty (side : Side) (code : String) (history : List Event) : Int :=
  (history.map (Event.filledQty side code)).sum

theorem sum_gain {code : String} {history : List Event} :
    (history.map (Event.gain code)).sum
      = filledQty .buy code history - filledQty .sell code history := by
  induction history with
  | nil => rfl
  | cons e es ih =>
    simp only [filledQty, Event.gain, List.map_cons, List.sum_cons] at ih ⊢
    omega

namespace Instrument

variable {i i' : Instrument} {o : Order} {key : Key} {n : Int}

/-- All shares of an instrument, idle or offered. -/
def shares (i : Instrument) : Int := i.idle + i.offered

theorem shares_of_account (h : i'.account = i.account) : i'.shares = i.shares := by
  rw [shares, shares, idle_of_account h, offered_of_account h]

theorem shares_sweep (hi : ∀ o ∈ i.orders, o.Settled) : i.sweep.shares = i.shares := by
  have offered : i.sweep.offered = i.offered := sum_liveOrders fun o ho dead => by
    have nothing := ((hi o ho).of_not_live dead).1
    simp only [Order.offered, nothing]
    cases o.side <;> rfl
  rw [shares, shares, offered]
  rfl

theorem shares_place {bound : Nat} (ids : ∀ o ∈ i.orders, o.id < bound) (side : Side)
    (price qty : Int) : (i.place bound side price qty).shares = i.shares := by
  have offered : (i.place bound side price qty).offered
      = i.offered + (i.newOrder bound side price qty).offered :=
    sum_place Order.offered ids side price qty
  rw [shares, shares, offered]
  cases side
  · change i.idle + (i.offered + 0) = _
    omega
  · change i.idle - qty + (i.offered + qty) = _
    omega

theorem shares_fill {price qty : Int} {f : Fill} (sorted : Orders.Sorted i.orders)
    (resting : Orders.find? o.key i.orders = some o) (filled : i.fill o price qty = some (i', f)) :
    i'.shares = i.shares + (Event.filled i.code f).gain i.code := by
  obtain ⟨-, -, -, order, -, -, -, rfl⟩ := fill_eq_some filled
  have offered := offered_shrinkOrder (n := f.qty) sorted resting
  simp only [Instrument.offered] at offered
  simp only [shares, Instrument.offered, offered, Event.gain, Event.filledQty, order]
  cases o.side <;> simp <;> omega

theorem shares_withdraw {qty : Int} {w : Withdrawal} (sorted : Orders.Sorted i.orders)
    (resting : Orders.find? o.key i.orders = some o) (withdrawn : i.withdraw o qty = some (i', w)) :
    i'.shares = i.shares := by
  obtain ⟨-, -, -, rfl⟩ := withdraw_eq_some withdrawn
  have offered := offered_shrinkOrder (n := w.qty) sorted resting
  simp only [Instrument.offered] at offered
  simp only [shares, Instrument.offered, offered]
  cases o.side <;> simp

end Instrument

namespace Book

variable {b b' : Book} {code : String} {i i' : Instrument}

/-- The shares of a code in the book. -/
def shares (b : Book) (code : String) : Int :=
  match b.find? code with
  | some i => i.shares
  | none => 0

theorem shares_of_find? (h : b.find? code = some i) : b.shares code = i.shares := by
  simp only [shares, h]

theorem shares_congr (h : b'.find? code = b.find? code) : b'.shares code = b.shares code := by
  simp only [shares, h]

/-- Replacing an instrument is a matter of the shares of its code. -/
theorem shares_set {c : String} (found : b.find? c = some i) (hcode : i'.code = i.code) :
    (b.set i').shares code = b.shares code + if c = code then i'.shares - i.shares else 0 := by
  split
  next here =>
    subst here
    rw [shares_of_find? (find?_set_self found hcode), shares_of_find? found]
    omega
  next there =>
    have here : i'.code = c := hcode.trans (code_of_find? found)
    rw [shares_congr (find?_set_ne fun h => there (here.symm.trans h.symm))]
    omega

theorem shares_of_account (h : b'.account = b.account) : b'.shares code = b.shares code := by
  simp only [shares]
  cases found' : b'.find? code with
  | some i' =>
    obtain ⟨i, found, same⟩ := exists_find?_of_account h found'
    rw [found]
    exact Instrument.shares_of_account same
  | none =>
    cases found : b.find? code with
    | some i =>
      obtain ⟨i', found'', -⟩ := exists_find?_of_account h.symm found
      rw [found'] at found''
      cases found''
    | none => rfl

theorem find?_sweep : b.sweep.find? code = (b.find? code).map Instrument.sweep := by
  simp only [find?, Book.sweep, List.find?_map]
  rfl

theorem Step.shares {e : Option Event} (step : Step b e b') (hb : b.WellFormed)
    (hs : b.Settled) : b'.shares code = b.shares code + (e.toList.map (Event.gain code)).sum := by
  cases step with
  | observe same => simp [shares_of_account same]
  | sweep =>
    simp only [Book.shares, find?_sweep]
    cases found : b.find? code with
    | none => rfl
    | some i => simp [Instrument.shares_sweep (hs i (mem_of_find? found))]
  | @place c i side price qty _ found ok =>
    have changed : (b.set (i.place b.nextId side price qty)).shares code = _ :=
      shares_set found rfl
    rw [Instrument.shares_place (hb.ids i (mem_of_find? found))] at changed
    rw [insert_eq_ok found ok]
    change (b.set _).shares code = b.shares code + 0
    rw [changed]
    simp
  | @fill c i i' key o _ _ f found resting filled =>
    have sorted := hb.sorted i (mem_of_find? found)
    have changed : (b.set i').shares code = _ :=
      shares_set found (Instrument.code_of_fill filled)
    rw [← Orders.key_of_find? resting] at resting
    rw [Instrument.shares_fill sorted resting filled, code_of_find? found] at changed
    change (b.set i').shares code = b.shares code + ((Event.filled c f).gain code + 0)
    rw [changed]
    by_cases here : c = code
    · simp [here]
    · simp [here, Event.gain, Event.filledQty]
  | @cancel c i i' key o _ w found resting withdrawn =>
    have sorted := hb.sorted i (mem_of_find? found)
    have changed : (b.set i').shares code = _ :=
      shares_set found (Instrument.code_of_withdraw withdrawn)
    rw [← Orders.key_of_find? resting] at resting
    rw [Instrument.shares_withdraw sorted resting withdrawn] at changed
    change (b.set i').shares code = b.shares code + 0
    rw [changed]
    simp

theorem Run.shares {history : List Event} (run : Run Placed b history b') (hb : b.WellFormed)
    (hs : b.Settled) :
    b'.shares code = b.shares code + filledQty .buy code history - filledQty .sell code history := by
  have total : b'.shares code = b.shares code + (history.map (Event.gain code)).sum := by
    induction run with
    | refl => simp
    | snoc run step _ ih =>
      rw [step.shares (run.wellFormed hb) (run.settled hb hs), ih, List.map_append, List.sum_append]
      omega
  rw [sum_gain] at total
  omega

/-! ## Conservation -/

theorem settled_opening (balance : Int) (ts : List Tracked) : (opening balance ts).Settled := by
  intro i hi o ho
  rw [(mem_opening hi).1] at ho
  cases ho

theorem escrow_opening {balance : Int} {ts : List Tracked} : (opening balance ts).escrow = 0 := by
  refine total_opening (fun i none => ?_) balance ts
  rw [Instrument.escrow, none]
  rfl

theorem stagedBuy_eq_escrow (hs : b.Settled) : b.evaluate.stagedBuy = b.escrow := by
  simp only [evaluate, evaluateWith, sumOf_eq, escrow, total]
  congr 1
  apply List.map_congr_left
  intro i hi
  have live : i.escrow = (i.liveOrders.map Order.escrow).sum :=
    (Instrument.sum_liveOrders fun o ho dead => ((hs i hi o ho).of_not_live dead).2).symm
  have sells : ∀ os : List Order, (∀ o ∈ os, o.Settled) →
      ((os.filter (·.side == .buy)).map Order.escrow).sum = (os.map Order.escrow).sum := by
    intro os
    induction os with
    | nil => simp
    | cons o os ih =>
      intro settled
      have rest := ih fun p hp => settled p (List.mem_cons_of_mem o hp)
      cases hside : o.side with
      | buy => simp [hside, rest]
      | sell => simp [hside, rest, (settled o List.mem_cons_self).sell hside]
  rw [live, Instrument.stagedBuy, sumOf_eq]
  exact sells i.liveOrders fun o ho => hs i hi o (List.mem_of_mem_filter ho)

end Book

/-- A call that places no negative quantity. -/
def Command.PlacesSome : Command → Prop
  | .quote .. => True
  | .sweep => True
  | .insert _ _ _ qty => 0 ≤ qty
  | .trade .. => True
  | .cancel .. => True

instance : DecidablePred Command.PlacesSome
  | .quote .. => .isTrue trivial
  | .sweep => .isTrue trivial
  | .insert _ _ _ qty => inferInstanceAs (Decidable (0 ≤ qty))
  | .trade .. => .isTrue trivial
  | .cancel .. => .isTrue trivial

namespace Book

theorem placed_of_placesSome {b : Book} {c : Command} (h : c.PlacesSome) :
    ∀ x ∈ b.event? c, b.Placed x := by
  intro x hx
  cases x with
  | filled => trivial
  | canceled => trivial
  | placed i o =>
    obtain ⟨code, side, price, qty, rfl, rfl⟩ := eq_insert_of_placed hx
    exact h

/-- No series of calls creates or loses cash or shares. Cash is in the balance or in
escrow, shares are idle or offered, and both sums are what the account was opened with
and what fills have brought since. An order with nothing open holds nothing back, so the
cash of the valuation is all the cash there is. Amounts are taken to stay within 64 bits
(`Word64.Basic`). -/
theorem calls_conserve {balance : Int} {ts : List Tracked} {cs : List Command}
    (places : ∀ c ∈ cs, c.PlacesSome) :
    let b := (opening balance ts).calls cs
    let history := (opening balance ts).history cs
    b.balance + b.escrow = balance + b.stats.sold - b.stats.bought - b.stats.fees
    ∧ (∀ i ∈ b.instruments, ∃ t, ts.find? (·.code == i.code) = some t ∧
        i.idle + i.offered
          = max t.holdings 0 + filledQty .buy i.code history - filledQty .sell i.code history)
    ∧ (∀ i ∈ b.instruments, ∀ o ∈ i.orders, o.qty = 0 → o.escrow = 0)
    ∧ b.sweep.balance + b.sweep.escrow = b.balance + b.escrow
    ∧ b.evaluate.cash + b.evaluate.stagedBuy
        = balance + b.stats.sold - b.stats.bought - b.stats.fees := by
  intro b history
  have opened := wellFormed_opening balance ts
  have run : Run Placed (opening balance ts) history b :=
    calls_run opened fun c hc _ => placed_of_placesSome (places c hc)
  have settled : b.Settled := run.settled opened (settled_opening balance ts)
  have cash : b.balance + b.escrow = balance + b.stats.sold - b.stats.bought - b.stats.fees := by
    have kept := run.principal opened (settled_opening balance ts)
    obtain ⟨opened, stats⟩ := @opening_balance ts balance
    have held : (opening balance ts).escrow = 0 := escrow_opening
    simp only [Book.principal, Stats.cashFlow, opened, stats, held, Stats.blank] at kept
    omega
  have staged : b.evaluate.stagedBuy = b.escrow := stagedBuy_eq_escrow settled
  refine ⟨cash, ?_, ?_, ?_, ?_⟩
  · intro i hi
    have found := (run.wellFormed opened).find?_eq_some.mpr ⟨hi, rfl⟩
    have tracked : i.code ∈ (opening balance ts).codes := by
      rw [← run.codes]
      exact List.mem_map_of_mem hi
    obtain ⟨j, hj, hcode⟩ := List.mem_map.mp tracked
    have before := opened.find?_eq_some.mpr ⟨hj, hcode⟩
    have kept : b.shares i.code = _ := run.shares opened (settled_opening balance ts)
    rw [shares_of_find? found, shares_of_find? before] at kept
    rw [find?_opening] at before
    obtain ⟨t, ht, rfl⟩ := Option.map_eq_some_iff.mp before
    exact ⟨t, ht, kept.trans (by simp [Instrument.shares, Instrument.offered, Instrument.ofHoldings])⟩
  · intro i hi o ho
    exact (settled i hi o ho).released
  · rw [escrow_sweep settled]
    rfl
  · rw [staged]
    exact cash

/-- A buy is filled in two parts, the second one more than is open, a sell is placed
and canceled in part, and a call on an unknown code fails. -/
theorem calls_conserve_overfilled :
    let cs : List Command := [.insert "A" .buy 1000 10, .trade "A" ⟨1000, 1⟩ 990 4,
      .trade "A" ⟨1000, 1⟩ 1000 9, .insert "A" .sell 1010 3, .cancel "A" ⟨1010, 2⟩ 1,
      .insert "B" .buy 1000 10]
    let b := (opening 100000 [⟨"A", .equity, -5⟩]).calls cs
    (∀ c ∈ cs, c.PlacesSome) ∧ b.stats.bought = 9960
      ∧ b.balance + b.escrow = 100000 + b.stats.sold - b.stats.bought - b.stats.fees := by
  refine ⟨by decide, by decide +kernel, ?_⟩
  exact (calls_conserve (by decide)).1

end Book

end TradingDesk
