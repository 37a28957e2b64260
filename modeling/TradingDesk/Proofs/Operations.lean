-- SUMMARY: Carrying out the operations of a request, one after the other.
import TradingDesk.Book.Allot
import TradingDesk.Proofs.History

/-!
# Operations

`Carried` says that operations can be carried out in turn, each of them fit for the
book that it meets. The cancels of a plan are, whatever the plan: they shrink
different orders, so none of them gets in the way of another, and together they set
free what was foreseen of each.
-/

namespace TradingDesk

/-- The order that an operation cancels, if it is a cancel. -/
def Operation.target? : Operation → Option (String × Key)
  | .insert .. => none
  | .cancel code key _ => some (code, key)

/-- The call that an operation is. -/
def Operation.command : Operation → Command
  | .insert code side price qty => .insert code side price qty
  | .cancel code key qty => .cancel code key qty

/-- Whether the cash or the idle holdings are enough for an order. -/
def Instrument.Covers (i : Instrument) (cash : Int) (side : Side) (price qty : Int) : Prop :=
  match side with
  | .buy => price * qty + i.kind.buyFee (price * qty) ≤ cash
  | .sell => qty ≤ i.idle

namespace Book

/-- The book after an operation of a request. -/
def execute (b : Book) : Operation → Except Error Book
  | .insert code side price qty => (b.insert code side price qty).map Posted.book
  | .cancel code key qty => (b.cancel code key qty).map Posted.book

/-- What is asked of an operation in the book that it meets. An order that is placed has
a positive price and whole lots, and is covered; a cancel takes exactly its quantity out of
a live order. -/
def Fits (b : Book) : Operation → Prop
  | .insert code side price qty =>
    ∃ i, b.find? code = some i ∧ 0 < price ∧ 0 < qty ∧ i.kind.lot ∣ qty
      ∧ i.Covers b.balance side price qty
  | .cancel code key qty =>
    ∃ o p, b.order? code key = some o ∧ 0 < qty ∧ qty ≤ o.qty ∧ b.cancel code key qty = .ok p
      ∧ p.answer = qty ∧ (p.book.order? code key).map Order.qty = some (o.qty - qty)

/-- Operations that are carried out in turn without an error, each fit for the book that
it meets. -/
inductive Carried : Book → List Operation → Book → Prop
  | nil (b : Book) : Carried b [] b
  | cons {b b' b'' : Book} {op : Operation} {ops : List Operation} (fits : b.Fits op)
      (done : b.execute op = .ok b') (rest : Carried b' ops b'') : Carried b (op :: ops) b''

variable {b b' b'' : Book} {op : Operation} {ops ops' : List Operation} {code : String}
  {i i' : Instrument} {o : Order} {key : Key} {n : Int}

theorem Carried.append (first : Carried b ops b') (second : Carried b' ops' b'') :
    Carried b (ops ++ ops') b'' := by
  induction first with
  | nil => exact second
  | cons fits done _ ih => exact .cons fits done (ih second)

theorem Carried.single (fits : b.Fits op) (done : b.execute op = .ok b') : Carried b [op] b' :=
  .cons fits done (.nil b')

theorem execute_eq_call (done : b.execute op = .ok b') : b' = b.call op.command := by
  cases op with
  | insert code side price qty =>
    simp only [execute] at done
    simp only [Operation.command, call]
    cases ok : b.insert code side price qty with
    | error => simp [ok, Except.map] at done
    | ok p =>
      rw [ok] at done
      cases done
      rfl
  | cancel code key qty =>
    simp only [execute] at done
    simp only [Operation.command, call]
    cases ok : b.cancel code key qty with
    | error => simp [ok, Except.map] at done
    | ok p =>
      rw [ok] at done
      cases done
      rfl

theorem execute_wellFormed (hb : b.WellFormed) (done : b.execute op = .ok b') : b'.WellFormed := by
  rw [execute_eq_call done]
  exact hb.call op.command

theorem Carried.wellFormed (carried : Carried b ops b') (hb : b.WellFormed) : b'.WellFormed := by
  induction carried with
  | nil => exact hb
  | cons _ done _ ih => exact ih (execute_wellFormed hb done)

theorem order?_eq (found : b.find? code = some i) :
    b.order? code key = Orders.find? key i.orders := by
  rw [order?, found]
  rfl

theorem order?_eq_some : b.order? code key = some o ↔
    ∃ i, b.find? code = some i ∧ Orders.find? key i.orders = some o := by
  simp [order?, Option.bind_eq_some_iff]

/-! ## Placing -/

/-- An order of an instrument of the book can always be placed. -/
theorem execute_insert (hb : b.WellFormed) (found : b.find? code = some i) (side : Side)
    (price qty : Int) :
    ∃ b', b.execute (.insert code side price qty) = .ok b' ∧ b'.WellFormed
      ∧ ∀ c, c ≠ code → b'.find? c = b.find? c := by
  cases ok : b.insert code side price qty with
  | error => simp [insert, found] at ok
  | ok p =>
    refine ⟨p.book, by simp [execute, ok, Except.map], ?_, ?_⟩
    · exact (Step.place found ok).wellFormed hb
    · exact fun c ne => find?_of_insert_ne found ok ne

/-! ## Canceling -/

end Book

/-- The shares that a cancel of `n` of an order returns to the idle holdings. -/
def Order.returned (o : Order) (n : Int) : Int :=
  match o.side with
  | .buy => 0
  | .sell => n

namespace Instrument

/-- The instrument after a cancel of `n` of an order. -/
def withdrawn (i : Instrument) (o : Order) (n : Int) : Instrument :=
  { i.shrinkOrder o.key n with idle := i.idle + o.returned n }

variable {i : Instrument} {o : Order} {n : Int}

theorem withdraw_eq_none (none : ¬0 < min n o.qty) : i.withdraw o n = Option.none := by
  simp only [withdraw, if_pos (not_lt.mp none)]

theorem withdraw_of_pos (pos : 0 < min n o.qty) :
    ∃ w, i.withdraw o n = some (i.withdrawn o (min n o.qty), w) ∧ w.qty = min n o.qty
      ∧ w.release = o.freed i.kind (min n o.qty) := by
  cases h : i.withdraw o n with
  | none => simp only [withdraw, if_neg (not_le.mpr pos), reduceCtorEq] at h
  | some result =>
    obtain ⟨i', w⟩ := result
    obtain ⟨-, qty, release, after⟩ := withdraw_eq_some h
    rw [qty] at release after
    refine ⟨w, ?_, qty, release⟩
    rw [after, withdrawn, Order.returned]
    cases o.side <;> simp

theorem withdraw_eq (pos : 0 < n) (le : n ≤ o.qty) :
    ∃ w, i.withdraw o n = some (i.withdrawn o n, w) ∧ w.qty = n ∧ w.release = o.freed i.kind n := by
  have least : min n o.qty = n := min_eq_left le
  have withdrawn := withdraw_of_pos (i := i) (least.symm ▸ pos)
  rw [least] at withdrawn
  exact withdrawn

/-- A plan for cancels: parts of different orders of the instrument. -/
structure Plan (i : Instrument) (plan : List (Order × Int)) : Prop where
  resting : ∀ p ∈ plan, p.1 ∈ i.orders
  parts : ∀ p ∈ plan, 0 < p.2 ∧ p.2 ≤ p.1.qty
  distinct : (plan.map fun p => p.1.key).Nodup

end Instrument

namespace Book

variable {b b' : Book} {i i' : Instrument} {o : Order} {n : Int} {plan : List (Order × Int)}

theorem cancel_eq_ok (found : b.find? i.code = some i)
    (resting : Orders.find? o.key i.orders = some o) (pos : 0 < n) (le : n ≤ o.qty) :
    ∃ p, b.cancel i.code o.key n = .ok p ∧ p.answer = n
      ∧ p.book = { b.set (i.withdrawn o n) with balance := b.balance + o.freed i.kind n } := by
  obtain ⟨w, withdrawn, qty, release⟩ := Instrument.withdraw_eq (i := i) pos le
  simp only [cancel, found, resting, withdrawn]
  exact ⟨_, rfl, qty, by rw [release]⟩

/-- What the cancels of a plan leave of a book. -/
structure Freed (b : Book) (i : Instrument) (plan : List (Order × Int)) (b' : Book)
    (i' : Instrument) : Prop where
  wellFormed : b'.WellFormed
  found : b'.find? i.code = some i'
  others : ∀ code, code ≠ i.code → b'.find? code = b.find? code
  kind : i'.kind = i.kind
  balance : b'.balance = b.balance + (plan.map fun p => p.1.freed i.kind p.2).sum
  idle : i'.idle = i.idle + (plan.map fun p => p.1.returned p.2).sum

/-- The cancels of a plan can be carried out, and set free what the plan says. -/
theorem carried_cancels (hb : b.WellFormed) (found : b.find? i.code = some i) (hp : i.Plan plan) :
    ∃ b' i', Carried b (i.cancels plan) b' ∧ Freed b i plan b' i' := by
  induction plan generalizing b i with
  | nil =>
    exact ⟨b, i, .nil b, hb, found, fun _ _ => rfl, rfl, by simp, by simp⟩
  | cons part rest ih =>
    obtain ⟨o, n⟩ := part
    have sorted := hb.sorted i (mem_of_find? found)
    have mem : o ∈ i.orders := hp.resting (o, n) List.mem_cons_self
    obtain ⟨pos, le⟩ : 0 < n ∧ n ≤ o.qty := hp.parts (o, n) List.mem_cons_self
    have resting := (Orders.find?_eq_some sorted).mpr ⟨mem, rfl⟩
    obtain ⟨p, ok, answer, book⟩ := cancel_eq_ok found resting pos le
    obtain ⟨w, withdrawn, qty, release⟩ := Instrument.withdraw_eq (i := i) pos le
    have step := Step.cancel found resting withdrawn
    rw [release, ← book] at step
    have foundAfter : p.book.find? i.code = some (i.withdrawn o n) := by
      rw [book]
      exact find?_set_self (i := i.withdrawn o n) found rfl
    -- What is left of the plan concerns other orders, which are still as they were.
    obtain ⟨apart, distinct⟩ := List.nodup_cons.mp hp.distinct
    have planAfter : (i.withdrawn o n).Plan rest := by
      refine ⟨?_, fun q hq => hp.parts q (List.mem_cons_of_mem _ hq), distinct⟩
      intro q hq
      refine (Instrument.mem_shrinkOrder sorted resting).mpr (.inr ?_)
      refine ⟨hp.resting q (List.mem_cons_of_mem _ hq), ?_⟩
      intro same
      exact apart (List.mem_map.mpr ⟨q, hq, same⟩)
    obtain ⟨b', i', carried, freed⟩ := ih (step.wellFormed hb) foundAfter planAfter
    have fits : b.Fits (.cancel i.code o.key n) := by
      refine ⟨o, p, by rw [order?_eq found, resting], pos, le, ok, answer, ?_⟩
      rw [order?_eq foundAfter]
      have after : Orders.find? o.key (i.withdrawn o n).orders = some (o.shrink i.kind n) :=
        Orders.find?_update_self (fun _ => Order.key_shrink) resting
      rw [after, Option.map_some, Order.shrink_qty]
    have done : b.execute (.cancel i.code o.key n) = .ok p.book := by
      simp [execute, ok, Except.map]
    refine ⟨b', i', .cons fits done carried, freed.wellFormed, freed.found, ?_, freed.kind, ?_, ?_⟩
    · intro code ne
      rw [freed.others code ne, book]
      exact find?_set_ne (i := i.withdrawn o n) ne
    · have before : p.book.balance = b.balance + o.freed i.kind n := by rw [book]
      rw [freed.balance, before, List.map_cons, List.sum_cons]
      exact add_assoc ..
    · rw [freed.idle, List.map_cons, List.sum_cons]
      exact add_assoc ..

/-- Operations on different instruments do not get in each other's way. -/
theorem carried_flatMap {operations : Instrument → List Operation} {is : List Instrument}
    (hb : b.WellFormed) (found : ∀ i ∈ is, b.find? i.code = some i)
    (codes : (is.map Instrument.code).Nodup)
    (one : ∀ i ∈ is, ∀ b : Book, b.WellFormed → b.find? i.code = some i →
      ∃ b', Carried b (operations i) b' ∧ b'.WellFormed
        ∧ ∀ code, code ≠ i.code → b'.find? code = b.find? code) :
    ∃ b', Carried b (is.flatMap operations) b' := by
  induction is generalizing b with
  | nil => exact ⟨b, .nil b⟩
  | cons i is ih =>
    obtain ⟨apart, codes⟩ := List.nodup_cons.mp codes
    obtain ⟨b', first, hb', others⟩ := one i List.mem_cons_self b hb (found i List.mem_cons_self)
    have foundAfter : ∀ j ∈ is, b'.find? j.code = some j := by
      intro j hj
      rw [others j.code fun h => apart (h ▸ List.mem_map_of_mem hj)]
      exact found j (List.mem_cons_of_mem i hj)
    obtain ⟨b'', rest⟩ := ih hb' foundAfter codes fun j hj => one j (List.mem_cons_of_mem i hj)
    exact ⟨b'', first.append rest⟩

end Book

/-! ## Operations on books of one account -/

namespace Instrument

variable {i j : Instrument} {o p : Order} {n : Int}

private theorem orders_account (i : Instrument) :
    i.account.orders.map Order.bare = i.orders.map Order.bare := by
  simp only [account, List.map_map]
  rfl

theorem account_place (i : Instrument) (id : Nat) (side : Side) (price qty : Int) :
    (i.place id side price qty).account = (i.account.place id side price qty).account := by
  have orders : ∀ i : Instrument, (i.place id side price qty).account.orders
      = Orders.insert (i.newOrder id side price qty).bare (i.orders.map Order.bare) :=
    fun i => Orders.insert_map (f := Order.bare) fun _ => rfl
  have same : (i.place id side price qty).account.orders
      = (i.account.place id side price qty).account.orders := by
    rw [orders, orders, orders_account]
    rfl
  simp only [account, place] at same ⊢
  rw [same]

theorem account_withdrawn (i : Instrument) (o : Order) (n : Int) :
    (i.withdrawn o n).account = (i.account.withdrawn o.bare n).account := by
  have orders : ∀ (i : Instrument) (o : Order), (i.withdrawn o n).account.orders
      = Orders.update o.key (·.shrink i.kind n) (i.orders.map Order.bare) :=
    fun i _ => Orders.update_map (f := Order.bare) (fun _ => rfl) fun _ => Order.bare_shrink
  have same : (i.withdrawn o n).account.orders = (i.account.withdrawn o.bare n).account.orders := by
    rw [orders, orders, orders_account]
    rfl
  simp only [account, withdrawn, shrinkOrder] at same ⊢
  rw [same]
  rfl

end Instrument

namespace Book

variable {b b' c : Book} {code : String} {i : Instrument} {o : Order} {key : Key} {n : Int}

theorem fits_insert_of_account {side : Side} {price qty : Int} (same : b'.account = b.account)
    (fits : b.Fits (.insert code side price qty)) : b'.Fits (.insert code side price qty) := by
  obtain ⟨i, found, hprice, hqty, lots, covers⟩ := fits
  obtain ⟨j, found', eq⟩ := exists_find?_of_account same.symm found
  have kind := Instrument.kind_of_account eq
  have idle := Instrument.idle_of_account eq
  refine ⟨j, found', hprice, hqty, kind ▸ lots, ?_⟩
  simp only [Instrument.Covers, kind, idle] at covers
  simp only [Instrument.Covers, balance_of_account same]
  exact covers

/-- Replacing instruments of one account keeps books of one account. -/
theorem account_set_congr {i j : Instrument} (same : b'.account = b.account)
    (eq : i.account = j.account) : (b'.set i).account = (b.set j).account := by
  rw [account_set, account_set, same, eq]

theorem account_with (same : b'.account = b.account) (balance : Int) (nextId : Nat) :
    { b' with balance, nextId }.account = { b with balance, nextId }.account :=
  congrArg (fun b : Book => { b with balance, nextId }) same

theorem account_with_balance (same : b'.account = b.account) (balance : Int) :
    { b' with balance }.account = { b with balance }.account :=
  congrArg (fun b : Book => { b with balance }) same

theorem execute_insert_of_account {side : Side} {price qty : Int} (same : b'.account = b.account)
    (done : b.execute (.insert code side price qty) = .ok c) :
    ∃ c', b'.execute (.insert code side price qty) = .ok c' ∧ c'.account = c.account := by
  cases ok : b.insert code side price qty with
  | error => simp [execute, ok, Except.map] at done
  | ok p =>
    simp only [execute, ok, Except.map, Except.ok.injEq] at done
    subst done
    cases found : b.find? code with
    | none => simp [insert, found] at ok
    | some i =>
      obtain ⟨j, found', eq⟩ := exists_find?_of_account same.symm found
      cases ok' : b'.insert code side price qty with
      | error => simp [insert, found'] at ok'
      | ok p' =>
        refine ⟨p'.book, by simp [execute, ok', Except.map], ?_⟩
        have placed : (j.place b.nextId side price qty).account
            = (i.place b.nextId side price qty).account := by
          rw [Instrument.account_place, ← eq, ← Instrument.account_place]
        have kept := account_set_congr same placed
        rw [insert_eq_ok found ok, insert_eq_ok found' ok', nextId_of_account same]
        have charged : b'.charged j.kind side price qty = b.charged i.kind side price qty := by
          simp only [Book.charged, Instrument.kind_of_account eq, balance_of_account same]
        rw [charged]
        exact account_with kept _ _

/-- A cancel of an order of the book takes what it can. -/
theorem execute_cancel (found : b.find? code = some i)
    (resting : Orders.find? key i.orders = some o) :
    b.execute (.cancel code key n) = .ok
      (if 0 < min n o.qty then
        { b.set (i.withdrawn o (min n o.qty)) with
          balance := b.balance + o.freed i.kind (min n o.qty) }
      else b) := by
  simp only [execute, cancel, found, resting]
  by_cases pos : 0 < min n o.qty
  · obtain ⟨w, withdrawn, -, release⟩ := Instrument.withdraw_of_pos (i := i) pos
    simp only [withdrawn, if_pos pos, Except.map, release]
  · simp only [Instrument.withdraw_eq_none pos, if_neg pos, Except.map]

theorem execute_cancel_of_account (same : b'.account = b.account)
    (done : b.execute (.cancel code key n) = .ok c) :
    ∃ c', b'.execute (.cancel code key n) = .ok c' ∧ c'.account = c.account := by
  cases found : b.find? code with
  | none => simp [execute, cancel, found, Except.map] at done
  | some i =>
    obtain ⟨j, found', eq⟩ := exists_find?_of_account same.symm found
    have orders : i.orders.map Order.bare = j.orders.map Order.bare := congrArg Instrument.orders eq
    have bares : (Orders.find? key i.orders).map Order.bare
        = (Orders.find? key j.orders).map Order.bare := by
      rw [← Orders.find?_map fun _ => Order.bare_key, orders,
        Orders.find?_map fun _ => Order.bare_key]
    cases resting : Orders.find? key i.orders with
    | none => simp [execute, cancel, found, resting, Except.map] at done
    | some o =>
      rw [resting, Option.map_some] at bares
      obtain ⟨p, resting', bare⟩ := Option.map_eq_some_iff.mp bares.symm
      rw [execute_cancel found resting] at done
      cases done
      refine ⟨_, execute_cancel found' resting', ?_⟩
      have qty : p.bare.qty = o.bare.qty := by rw [bare]
      have freed : p.bare.freed j.kind (min n o.qty) = o.bare.freed i.kind (min n o.qty) := by
        rw [bare, Instrument.kind_of_account eq]
      change p.qty = o.qty at qty
      change p.freed _ _ = o.freed _ _ at freed
      have withdrawn : (j.withdrawn p (min n o.qty)).account
          = (i.withdrawn o (min n o.qty)).account := by
        rw [Instrument.account_withdrawn, ← eq, bare, ← Instrument.account_withdrawn]
      rw [qty, freed, balance_of_account same]
      split
      · exact account_with_balance (account_set_congr same withdrawn) _
      · exact same

theorem execute_of_account {op : Operation} (same : b'.account = b.account)
    (done : b.execute op = .ok c) : ∃ c', b'.execute op = .ok c' ∧ c'.account = c.account := by
  cases op with
  | insert => exact execute_insert_of_account same done
  | cancel => exact execute_cancel_of_account same done

end Book

end TradingDesk
