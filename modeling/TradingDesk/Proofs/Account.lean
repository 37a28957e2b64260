-- SUMMARY: The accounting side of a book, and what each change of an order does to it.
import Mathlib.Tactic.Linarith
import TradingDesk.Book.Basic
import TradingDesk.Proofs.Orders

/-!
# Accounts

Of an order the accounts know its quantity and its escrow, of an instrument its idle
holdings, of a book its cash. `account` drops the rest, market data, origins and places
in queues, so that a change of those is no change of the account. The lemmas below say
what placing, shrinking and sweeping orders do to the sums over an account.
-/

namespace TradingDesk

/-! ## Orders -/

namespace Order

variable {kind : Kind} {o : Order} {n : Int}

/-- The order without its origin and without its place in the queue. -/
def bare (o : Order) : Order := { o with origin := none, aheadOthers := 0, aheadMine := 0 }

@[simp] theorem bare_key : o.bare.key = o.key := rfl
@[simp] theorem bare_side : o.bare.side = o.side := rfl
@[simp] theorem bare_release : o.bare.release kind n = o.release kind n := rfl

theorem bare_shrink : (o.shrink kind n).bare = o.bare.shrink kind n := by
  simp only [shrink, bare_side, bare_release]
  split <;> rfl

/-- The cash that `n` of an order sets free. -/
def freed (kind : Kind) (o : Order) (n : Int) : Int :=
  match o.side with
  | .buy => o.release kind n
  | .sell => 0

/-- What an order of mine offers for sale. -/
def offered (o : Order) : Int :=
  match o.side with
  | .buy => 0
  | .sell => o.qty

@[simp] theorem shrink_side : (o.shrink kind n).side = o.side := by
  unfold shrink
  split <;> rfl

@[simp] theorem shrink_price : (o.shrink kind n).price = o.price := by
  unfold shrink
  split <;> rfl

@[simp] theorem shrink_id : (o.shrink kind n).id = o.id := by
  unfold shrink
  split <;> rfl

@[simp] theorem shrink_origin : (o.shrink kind n).origin = o.origin := by
  unfold shrink
  split <;> rfl

@[simp] theorem shrink_qty : (o.shrink kind n).qty = o.qty - n := by
  unfold shrink
  split <;> rfl

theorem shrink_escrow : (o.shrink kind n).escrow = o.escrow - o.freed kind n := by
  simp only [shrink, freed]
  cases o.side <;> simp

/-- What leaves last takes all of the escrow with it. -/
theorem release_whole : o.release kind o.qty = o.escrow := by
  simp [release]

theorem release_le : o.release kind n ≤ o.escrow := by
  unfold release
  split
  · exact le_rfl
  · exact min_le_right _ _

end Order

/-! ## Instruments -/

namespace Instrument

variable {i i' : Instrument} {o : Order} {key : Key} {n : Int}

/-- The instrument without market data and without places in queues. -/
def account (i : Instrument) : Instrument :=
  { i with
    avgPrice := 0
    traded := 0
    ladder := .empty
    orders := i.orders.map Order.bare
    detail := .equity
    marks := .blank }

@[simp] theorem account_code : i.account.code = i.code := rfl
@[simp] theorem account_idle : i.account.idle = i.idle := rfl
@[simp] theorem account_kind : i.account.kind = i.kind := rfl

@[simp] theorem account_account : i.account.account = i.account := by
  simp [account, Order.bare]

theorem code_of_account (h : i'.account = i.account) : i'.code = i.code := by
  rw [← account_code, h, account_code]

theorem idle_of_account (h : i'.account = i.account) : i'.idle = i.idle := by
  rw [← account_idle, h, account_idle]

theorem kind_of_account (h : i'.account = i.account) : i'.kind = i.kind := by
  rw [← account_kind, h, account_kind]

/-- The cash that the orders hold back. -/
def escrow (i : Instrument) : Int := (i.orders.map Order.escrow).sum

/-- What the sell orders offer. -/
def offered (i : Instrument) : Int := (i.orders.map Order.offered).sum

/-- Orders that are the same when bare make no difference to the account. -/
theorem account_map {f : Order → Order} (hf : ∀ o, (f o).bare = o.bare) :
    { i with orders := i.orders.map f }.account = i.account := by
  simp only [account, List.map_map, Function.comp_def, hf]

/-- What can be told from the bare orders is a matter of the account. -/
theorem orders_of_account {β : Type} (f : List Order → β) (hf : ∀ os, f (os.map Order.bare) = f os)
    (h : i'.account = i.account) : f i'.orders = f i.orders := by
  have bareOrders : i'.orders.map Order.bare = i.orders.map Order.bare :=
    congrArg Instrument.orders h
  rw [← hf, bareOrders, hf]

theorem sum_of_account (f : Order → Int) (hf : ∀ o, f o.bare = f o) (h : i'.account = i.account) :
    (i'.orders.map f).sum = (i.orders.map f).sum := by
  refine orders_of_account (fun os => (os.map f).sum) (fun os => ?_) h
  simp only [List.map_map, Function.comp_def, hf]

theorem escrow_of_account (h : i'.account = i.account) : i'.escrow = i.escrow :=
  sum_of_account _ (fun _ => rfl) h

theorem offered_of_account (h : i'.account = i.account) : i'.offered = i.offered :=
  sum_of_account _ (fun _ => rfl) h

theorem forall_of_account {P : Order → Prop} (hP : ∀ o, P o.bare ↔ P o)
    (h : i'.account = i.account) : (∀ o ∈ i'.orders, P o) ↔ ∀ o ∈ i.orders, P o := by
  refine (orders_of_account (fun os => ∀ o ∈ os, P o) (fun os => ?_) h).to_iff
  simp only [List.forall_mem_map, hP]

theorem sorted_of_account (h : i'.account = i.account) :
    Orders.Sorted i'.orders ↔ Orders.Sorted i.orders := by
  refine (orders_of_account Orders.Sorted (fun os => ?_) h).to_iff
  simp only [Orders.Sorted, List.pairwise_map, Order.bare_key]

/-! ### Placing an order -/

/-- The order that `place` adds. -/
def newOrder (i : Instrument) (id : Nat) (side : Side) (price qty : Int) : Order where
  price := price
  id := id
  side := side
  qty := qty
  origin := i.ladder.originSlot side price
  escrow := match side with
    | .buy => i.kind.cost price qty
    | .sell => 0

theorem place_orders (id : Nat) (side : Side) (price qty : Int) :
    (i.place id side price qty).orders = Orders.insert (i.newOrder id side price qty) i.orders :=
  rfl

theorem fresh_of_ids {bound : Nat} (ids : ∀ o ∈ i.orders, o.id < bound) (side : Side)
    (price qty : Int) : ∀ o ∈ i.orders, o.key ≠ (i.newOrder bound side price qty).key := by
  intro o ho eq
  have := ids o ho
  have : o.id = bound := congrArg Key.id eq
  omega

theorem sum_place (f : Order → Int) {bound : Nat} (ids : ∀ o ∈ i.orders, o.id < bound)
    (side : Side) (price qty : Int) :
    ((i.place bound side price qty).orders.map f).sum
      = (i.orders.map f).sum + f (i.newOrder bound side price qty) := by
  rw [place_orders, ((Orders.insert_perm (fresh_of_ids ids side price qty)).map f).sum_eq,
    List.map_cons, List.sum_cons, add_comm]

/-! ### Shrinking an order -/

/-- The instrument after `n` has left an order. -/
def shrinkOrder (i : Instrument) (key : Key) (n : Int) : Instrument :=
  { i with orders := Orders.update key (·.shrink i.kind n) i.orders }

theorem sorted_shrinkOrder (h : Orders.Sorted i.orders) :
    Orders.Sorted (i.shrinkOrder key n).orders :=
  h.update fun _ => Order.key_shrink

theorem mem_shrinkOrder (h : Orders.Sorted i.orders) (ho : Orders.find? key i.orders = some o)
    {p : Order} :
    p ∈ (i.shrinkOrder key n).orders ↔ p = o.shrink i.kind n ∨ p ∈ i.orders ∧ p.key ≠ key :=
  Orders.mem_update h ho

theorem sum_shrinkOrder (f : Order → Int) (h : Orders.Sorted i.orders)
    (ho : Orders.find? key i.orders = some o) :
    ((i.shrinkOrder key n).orders.map f).sum
      = (i.orders.map f).sum - f o + f (o.shrink i.kind n) :=
  Orders.sum_update h ho

theorem escrow_shrinkOrder (h : Orders.Sorted i.orders)
    (ho : Orders.find? key i.orders = some o) :
    (i.shrinkOrder key n).escrow = i.escrow - o.freed i.kind n := by
  have := sum_shrinkOrder (n := n) Order.escrow h ho
  rw [Order.shrink_escrow] at this
  simp only [escrow]
  omega

theorem offered_shrinkOrder (h : Orders.Sorted i.orders)
    (ho : Orders.find? key i.orders = some o) :
    (i.shrinkOrder key n).offered = i.offered - match o.side with | .buy => 0 | .sell => n := by
  have := sum_shrinkOrder (n := n) Order.offered h ho
  simp only [Order.offered, Order.shrink_side, Order.shrink_qty] at this
  simp only [offered]
  rw [this]
  cases o.side <;> simp only <;> omega

/-! ### Fills and cancels -/

/-- What a fill does: the quantity leaves the order, and a buy brings it in. -/
theorem fill_eq_some {price qty : Int} {f : Fill} (h : i.fill o price qty = some (i', f)) :
    0 < f.qty ∧ f.qty ≤ qty ∧ f.qty ≤ o.qty ∧ f.order = o ∧ f.price = price
      ∧ f.fee = i.kind.fee o.side f.notional ∧ f.release = o.freed i.kind f.qty
      ∧ i' = { i.shrinkOrder o.key f.qty with
          idle := match o.side with
            | .buy => i.idle + f.qty
            | .sell => i.idle } := by
  unfold fill at h
  simp only at h
  split at h
  · cases h
  next pos =>
    simp only [Option.some.injEq, Prod.mk.injEq] at h
    obtain ⟨rfl, rfl⟩ := h
    exact ⟨not_le.mp pos, min_le_left _ _, min_le_right _ _, rfl, rfl, rfl, rfl, rfl⟩

/-- What a cancel does: the quantity leaves the order, and a sell gives it back. -/
theorem withdraw_eq_some {qty : Int} {w : Withdrawal} (h : i.withdraw o qty = some (i', w)) :
    0 < w.qty ∧ w.qty = min qty o.qty ∧ w.release = o.freed i.kind w.qty
      ∧ i' = { i.shrinkOrder o.key w.qty with
          idle := match o.side with
            | .buy => i.idle
            | .sell => i.idle + w.qty } := by
  unfold withdraw at h
  simp only at h
  split at h
  · cases h
  next pos =>
    simp only [Option.some.injEq, Prod.mk.injEq] at h
    obtain ⟨rfl, rfl⟩ := h
    exact ⟨not_le.mp pos, rfl, rfl, rfl⟩

theorem code_of_fill {price qty : Int} {f : Fill} (h : i.fill o price qty = some (i', f)) :
    i'.code = i.code := by
  obtain ⟨-, -, -, -, -, -, -, rfl⟩ := fill_eq_some h
  rfl

theorem code_of_withdraw {qty : Int} {w : Withdrawal} (h : i.withdraw o qty = some (i', w)) :
    i'.code = i.code := by
  obtain ⟨-, -, -, rfl⟩ := withdraw_eq_some h
  rfl

end Instrument

/-! ## Statistics -/

theorem SlotStats.record_comm (s : SlotStats) (f g : Fill) :
    (s.record f).record g = (s.record g).record f := by
  simp only [record, SlotStats.mk.injEq]
  refine ⟨?_, by omega, trivial⟩
  cases f.order.side <;> cases g.order.side <;> simp only <;> omega

attribute [ext] Stats

namespace Stats

variable {s : Stats} {f g : Fill} {slot : Slot}

theorem slot_record : (s.record f).slots.get slot
    = if f.order.origin = some slot then (s.slots.get slot).record f else s.slots.get slot := by
  cases placed : f.order.origin with
  | none => simp [record, placed]
  | some origin =>
    by_cases here : origin = slot
    · subst here
      simp only [record, placed, if_true]
      exact Vector.getElem_set_self _
    · have apart : (origin : Nat) ≠ slot := fun same => here (Fin.ext same)
      simp only [record, placed, Option.some.injEq, here, if_false]
      exact Vector.getElem_set_ne _ _ apart

theorem record_comm : (s.record f).record g = (s.record g).record f := by
  have bought : ((s.record f).record g).bought = ((s.record g).record f).bought := by
    simp only [record]
    cases f.order.side <;> cases g.order.side <;> simp only [add_right_comm]
  have sold : ((s.record f).record g).sold = ((s.record g).record f).sold := by
    simp only [record]
    cases f.order.side <;> cases g.order.side <;> simp only [add_right_comm]
  have fees : ((s.record f).record g).fees = ((s.record g).record f).fees := add_right_comm _ _ _
  have slots : ((s.record f).record g).slots = ((s.record g).record f).slots := by
    ext k hk
    have here (slot : Slot) : ((s.record f).record g).slots.get slot
        = ((s.record g).record f).slots.get slot := by
      simp only [slot_record]
      split <;> split <;> simp only [SlotStats.record_comm _ f g]
    exact here ⟨k, hk⟩
  exact Stats.ext bought sold fees slots

/-- Of a fill only its order's side and origin, its amounts and its fee are recorded. -/
theorem record_congr (side : f.order.side = g.order.side) (origin : f.order.origin = g.order.origin)
    (price : f.price = g.price) (qty : f.qty = g.qty) (fee : f.fee = g.fee) :
    s.record f = s.record g := by
  simp only [record, SlotStats.record, Fill.notional, side, origin, price, qty, fee]

end Stats

/-! ## Books -/

namespace Book

variable {b b' : Book} {i j : Instrument} {code : String}

/-- The book without market data, without places in queues and without the tick. -/
def account (b : Book) : Book :=
  { b with
    tick := 0
    instruments := b.instruments.map Instrument.account
    index := Binary64.zero
    openingValue := none
    referenceValue := none }

/-- A sum over the instruments. -/
def total (b : Book) (f : Instrument → Int) : Int := (b.instruments.map f).sum

/-- The cash that all orders hold back. -/
def escrow (b : Book) : Int := b.total Instrument.escrow

/-- The codes that the book tracks. -/
def codes (b : Book) : List String := b.instruments.map Instrument.code

/-- Codes stand for one instrument, keys for one order of it, and the next number
for none. -/
structure WellFormed (b : Book) : Prop where
  codes : b.codes.Pairwise (· < ·)
  sorted : ∀ i ∈ b.instruments, Orders.Sorted i.orders
  ids : ∀ i ∈ b.instruments, ∀ o ∈ i.orders, o.id < b.nextId

/-! ### Finding and replacing an instrument -/

theorem nodup_of_codes (codes : b.codes.Pairwise (· < ·)) :
    (b.instruments.map Instrument.code).Nodup := by
  apply codes.imp
  rintro c d lt rfl
  exact String.lt_irrefl c lt

theorem WellFormed.nodup (hb : b.WellFormed) : (b.instruments.map Instrument.code).Nodup :=
  nodup_of_codes hb.codes

theorem code_of_find? (h : b.find? code = some i) : i.code = code := by
  simpa using List.find?_some h

theorem mem_of_find? (h : b.find? code = some i) : i ∈ b.instruments := List.mem_of_find?_eq_some h

theorem WellFormed.find?_eq_some (hb : b.WellFormed) :
    b.find? code = some i ↔ i ∈ b.instruments ∧ i.code = code :=
  Keyed.find?_eq_some hb.nodup

theorem find?_of_code (h : b.find? code = some j) (same : i.code = j.code) :
    b.find? i.code = some j := by
  rw [same, code_of_find? h]
  exact h

theorem find?_set_self (h : b.find? code = some j) (same : i.code = j.code) :
    (b.set i).find? code = some i := by
  have hcode : i.code = code := same.trans (code_of_find? h)
  subst hcode
  exact Keyed.find?_modify_self (g := fun _ => i) (fun _ _ => rfl) h

theorem find?_set_ne (ne : code ≠ i.code) : (b.set i).find? code = b.find? code :=
  Keyed.find?_modify_ne (g := fun _ => i) (fun _ _ => rfl) ne

theorem WellFormed.total_set (hb : b.WellFormed) (h : b.find? i.code = some j)
    (f : Instrument → Int) : (b.set i).total f = b.total f - f j + f i :=
  Keyed.sum_modify hb.nodup (mem_of_find? h) (code_of_find? h)

/-- What holds of each instrument holds of each once one is replaced by one of which it holds. -/
theorem forall_set {P : Instrument → Prop} (h : ∀ k ∈ b.instruments, P k) (hi : P i) :
    ∀ k ∈ (b.set i).instruments, P k := by
  intro k hk
  obtain ⟨l, hl, rfl⟩ := List.mem_map.mp hk
  split
  · exact hi
  · exact h l hl

theorem set_set (h : i.code = j.code) : (b.set i).set j = b.set j := by
  simp only [set, List.map_map]
  congr 1
  apply List.map_congr_left
  intro k _
  simp only [Function.comp_apply, h]
  split <;> simp_all

@[simp] theorem codes_set : (b.set i).codes = b.codes := Keyed.map_modify fun _ _ hk => hk.symm

/-- Replacing an instrument changes nothing that it has in common with the new one. -/
theorem WellFormed.map_set {β : Type} {f : Instrument → β} (hb : b.WellFormed)
    (h : b.find? i.code = some j) (same : f i = f j) :
    (b.set i).instruments.map f = b.instruments.map f := by
  refine Keyed.map_modify fun k hk hcode => ?_
  have foundHere : b.find? i.code = some k := hb.find?_eq_some.mpr ⟨hk, hcode⟩
  obtain rfl : j = k := Option.some.inj (h.symm.trans foundHere)
  exact same

theorem balance_of_account (h : b'.account = b.account) : b'.balance = b.balance :=
  show b'.account.balance = b.account.balance by rw [h]

theorem nextId_of_account (h : b'.account = b.account) : b'.nextId = b.nextId :=
  show b'.account.nextId = b.account.nextId by rw [h]

theorem stats_of_account (h : b'.account = b.account) : b'.stats = b.stats :=
  show b'.account.stats = b.account.stats by rw [h]

theorem codes_of_account (h : b'.account = b.account) : b'.codes = b.codes := by
  have same : b'.account.codes = b.account.codes := by rw [h]
  simpa only [codes, account, List.map_map, Function.comp_def, Instrument.account_code] using same

/-- Replacing an instrument by one with sorted orders, none of which has a number
that is still to come, keeps a book well-formed. -/
theorem WellFormed.set (hb : b.WellFormed) (sorted : Orders.Sorted i.orders)
    (ids : ∀ o ∈ i.orders, o.id < b.nextId) : (b.set i).WellFormed where
  codes := by
    rw [codes_set]
    exact hb.codes
  sorted := forall_set hb.sorted sorted
  ids := forall_set hb.ids ids

/-! ### Books of one account -/

theorem find?_account : b.account.find? code = (b.find? code).map Instrument.account := by
  simp only [find?, account, List.find?_map, Function.comp_def, Instrument.account_code]

/-- Books of one account have the same instruments, up to what is no matter of it. -/
theorem exists_find?_of_account (h : b'.account = b.account) (hi : b'.find? code = some i) :
    ∃ j, b.find? code = some j ∧ i.account = j.account := by
  have same := congrArg (·.find? code) h
  simp only [find?_account, hi, Option.map_some] at same
  obtain ⟨j, hj, eq⟩ := Option.map_eq_some_iff.mp same.symm
  exact ⟨j, hj, eq.symm⟩

theorem exists_mem_of_account (h : b'.account = b.account) (hi : i ∈ b'.instruments) :
    ∃ j ∈ b.instruments, i.account = j.account := by
  have same : b'.instruments.map Instrument.account = b.instruments.map Instrument.account :=
    congrArg Book.instruments h
  have mem : i.account ∈ b.instruments.map Instrument.account := same ▸ List.mem_map_of_mem hi
  obtain ⟨j, hj, eq⟩ := List.mem_map.mp mem
  exact ⟨j, hj, eq.symm⟩

theorem total_of_account {f : Instrument → Int}
    (hf : ∀ i j : Instrument, i.account = j.account → f i = f j) (h : b'.account = b.account) :
    b'.total f = b.total f := by
  have same : b'.instruments.map Instrument.account = b.instruments.map Instrument.account :=
    congrArg Book.instruments h
  have throughAccount : ∀ is : List Instrument, is.map f = (is.map Instrument.account).map f := by
    intro is
    rw [List.map_map]
    exact List.map_congr_left fun i _ => hf i i.account Instrument.account_account.symm
  simp only [total]
  rw [throughAccount b'.instruments, same, ← throughAccount]

theorem account_set (b : Book) (i : Instrument) : (b.set i).account = b.account.set i.account := by
  simp only [account, set, List.map_map]
  congr 1
  apply List.map_congr_left
  intro k _
  exact apply_ite Instrument.account ..

/-- Replacing an instrument by one of the same account is no change of the account. -/
theorem WellFormed.account_set (hb : b.WellFormed) (h : b.find? code = some j)
    (same : i.account = j.account) : (b.set i).account = b.account := by
  have hcode : i.code = j.code := Instrument.code_of_account same
  simp only [account, hb.map_set (find?_of_code h hcode) same]
  rfl

theorem WellFormed.of_account (hb : b.WellFormed) (h : b'.account = b.account) : b'.WellFormed where
  codes := by
    rw [codes_of_account h]
    exact hb.codes
  sorted := by
    intro i hi
    obtain ⟨j, hj, eq⟩ := exists_mem_of_account h hi
    exact (Instrument.sorted_of_account eq).mpr (hb.sorted j hj)
  ids := by
    intro i hi
    obtain ⟨j, hj, eq⟩ := exists_mem_of_account h hi
    rw [nextId_of_account h]
    exact (Instrument.forall_of_account (fun _ => Iff.rfl) eq).mpr (hb.ids j hj)

end Book

end TradingDesk
