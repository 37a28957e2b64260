-- SUMMARY: Each line of a state block tells the reader what it was written for.
import TradingDesk.Proofs.Account
import TradingDesk.Proofs.Decimals
import TradingDesk.StateBlock.Parse
import TradingDesk.Word64.Basic

/-!
# Blocks

A reader takes a value from the fields that it was written as, whatever fields follow. From
this it goes upward: a row of fields tells of the part of the book that it was written for,
the rows of an instrument tell of the instrument, and the rows of a block of the whole book.
-/

namespace TradingDesk.StateBlock

variable {α : Type} {line : List Char} {n : Nat}

/-! ## Fields -/

theorem next_cons {read : List Char → Option α} {f : List Char} {fs : List (List Char)} {a : α}
    (h : read f = some a) : FieldReader.next line read (f :: fs) = .ok (a, fs) := by
  simp only [FieldReader.next, FieldReader.field, bind, Except.bind, h]

theorem next_amount {n : Int} {fs : List (List Char)} (h : FitsWord n) :
    FieldReader.next line Text.readSigned ((toString n).toList :: fs) = .ok (n, fs) :=
  next_cons (Text.readSigned_toString h)

theorem next_count {limit : Nat} {fs : List (List Char)} (h : n ≤ limit) :
    FieldReader.next line (Text.readCount limit) ((toString n).toList :: fs) = .ok (n, fs) :=
  next_cons (Text.readCount_toString h)

theorem next_number {x : Binary64} {fs : List (List Char)} :
    FieldReader.next line Binary64.read ((toString x).toList :: fs) = .ok (x, fs) :=
  next_cons (Binary64.read_toString x)

theorem vector_append {read : List Char → Option α} {write : α → List Char} {v : Vector α n}
    {fs : List (List Char)} (h : ∀ a ∈ v.toList, read (write a) = some a) :
    FieldReader.vector line read n (v.toList.map write ++ fs) = .ok (v, fs) := by
  induction n generalizing fs with
  | zero =>
    obtain rfl : v = #v[] := Vector.eq_empty
    rfl
  | succ n ih =>
    obtain ⟨w, a, rfl⟩ := v.exists_push
    rw [Vector.toList_push] at h ⊢
    obtain ⟨before, last⟩ := List.forall_mem_append.mp h
    rw [FieldReader.vector, List.map_append, List.append_assoc, ih before]
    simp only [bind, Except.bind, List.map_cons, List.map_nil, List.cons_append, List.nil_append,
      next_cons (last a (List.mem_singleton_self a))]

theorem readSigned_map {v : Vector α n} {f : α → Int} (fits : ∀ a ∈ v.toList, FitsWord (f a)) :
    ∀ x ∈ (v.map f).toList, Text.readSigned (toString x).toList = some x := by
  intro x hx
  rw [Vector.toList_map] at hx
  obtain ⟨a, ha, rfl⟩ := List.mem_map.mp hx
  exact Text.readSigned_toString (fits a ha)

/-- A ladder is put together from its prices and its quantities. -/
theorem zipWith_levels {v : Vector Level n} :
    (v.map Level.price).zipWith Level.mk (v.map Level.qty) = v := by
  ext k hk
  simp

/-- The fields of one slot. -/
def slotFields (t : SlotStats) : List (List Char) :=
  [(toString t.cash).toList, (toString t.qty).toList, (toString t.fills).toList]

theorem readSlot_append {t : SlotStats} {fs : List (List Char)}
    (h : FitsWord t.cash ∧ FitsWord t.qty ∧ FitsWord t.fills) :
    readSlot line (slotFields t ++ fs) = .ok (t, fs) := by
  obtain ⟨cash, qty, fills⟩ := h
  simp only [readSlot, slotFields, List.cons_append, List.nil_append, bind, Except.bind,
    next_amount cash, next_amount qty, next_amount fills]

theorem readSlots_append {v : Vector SlotStats n} {fs : List (List Char)}
    (h : ∀ t ∈ v.toList, FitsWord t.cash ∧ FitsWord t.qty ∧ FitsWord t.fills) :
    readSlots line n (v.toList.flatMap slotFields ++ fs) = .ok (v, fs) := by
  induction n generalizing fs with
  | zero =>
    obtain rfl : v = #v[] := Vector.eq_empty
    rfl
  | succ n ih =>
    obtain ⟨w, t, rfl⟩ := v.exists_push
    rw [Vector.toList_push] at h ⊢
    obtain ⟨before, last⟩ := List.forall_mem_append.mp h
    rw [readSlots, List.flatMap_append, List.append_assoc, ih before]
    simp only [bind, Except.bind, List.flatMap_cons, List.flatMap_nil, List.append_nil,
      readSlot_append (last t (List.mem_singleton_self t))]

/-! ## Rows -/

/-- A row as a reader has it. -/
def Row.fields (r : Row) : List (List Char) := r.map String.toList

section Rows

variable {b m : Book} {i : Instrument} {done : List Instrument} {header : Bool}

theorem readLine_header (words : Text.words line = Row.fields (headerRow b))
    (tick : b.tick ≤ Text.maxWord) (balance : FitsWord b.balance) (bought : FitsWord b.stats.bought) (sold : FitsWord b.stats.sold)
    (fees : FitsWord b.stats.fees) :
    readLine m line = .ok ({ m with
      tick := b.tick
      balance := b.balance
      stats := { m.stats with
        bought := b.stats.bought, sold := b.stats.sold, fees := b.stats.fees } },
      true) := by
  have tag : Row.fields (headerRow b) = ['b'] :: [(toString b.tick).toList,
    (toString b.balance).toList, (toString b.stats.bought).toList, (toString b.stats.sold).toList,
    (toString b.stats.fees).toList] := rfl
  simp only [readLine, words, tag, readHeader, bind, Except.bind, next_count tick,
    next_amount balance, next_amount bought, next_amount sold, next_amount fees, Except.map]

theorem readLine_slots (words : Text.words line = Row.fields (slotsRow b.stats))
    (slots : ∀ t ∈ b.stats.slots.toList, FitsWord t.cash ∧ FitsWord t.qty ∧ FitsWord t.fills) :
    readLine m line = .ok ({ m with stats := { m.stats with slots := b.stats.slots } }, false) := by
  have tag : Row.fields (slotsRow b.stats)
      = ['s'] :: (b.stats.slots.toList.flatMap slotFields ++ []) := by
    rw [List.append_nil, Row.fields, slotsRow, List.map_cons, List.map_flatMap]
    rfl
  simp only [readLine, words, tag, readStats, bind, Except.bind, readSlots_append slots, Except.map]

theorem readLine_index {index : Binary64}
    (words : Text.words line = Row.fields ["k", toString index]) :
    readLine m line = .ok ({ m with index }, false) := by
  have tag : Row.fields ["k", toString index] = ['k'] :: [(toString index).toList] := rfl
  simp only [readLine, words, tag, readIndex, bind, Except.bind, next_number, Except.map]

/-! ### Market data -/

theorem insertInstrument_last {is : List Instrument} (before : ∀ j ∈ is, j.code < i.code) :
    insertInstrument i is = is ++ [i] := by
  induction is with
  | nil => rfl
  | cons j js ih =>
    obtain ⟨here, later⟩ := List.forall_mem_cons.mp before
    have ne : ¬i.code = j.code := fun same => String.lt_irrefl _ (same ▸ here)
    have notBefore : ¬i.code < j.code := String.lt_asymm here
    simp only [insertInstrument, beq_iff_eq, ne, notBefore, if_false, ih later, List.cons_append]

variable {is : List Instrument} {j : Instrument}

theorem find?_last (apart : ∀ j ∈ is, j.code ≠ i.code) :
    Book.find? { m with instruments := is ++ [i] } i.code = some i := by
  have none : is.find? (·.code == i.code) = none := by
    rw [List.find?_eq_none]
    intro j hj same
    exact apart j hj (eq_of_beq same)
  simp [Book.find?, List.find?_append, none]

theorem known_last (apart : ∀ j ∈ is, j.code ≠ i.code) :
    known { m with instruments := is ++ [i] } i.code.toList line = .ok i := by
  rw [known, String.ofList_toList, find?_last apart]

theorem set_last (apart : ∀ j ∈ is, j.code ≠ i.code) (same : j.code = i.code) :
    Book.set { m with instruments := is ++ [i] } j = { m with instruments := is ++ [j] } := by
  have others : is.map (fun k => if k.code == j.code then j else k) = is := by
    refine (List.map_congr_left fun k hk => ?_).trans (List.map_id _)
    exact if_neg (by simpa [same] using apart k hk)
  rw [Book.set, List.map_append, others]
  simp [same]

/-- The instrument after its market data. -/
def quoted (i : Instrument) : Instrument :=
  { Instrument.ofHoldings i.code .equity 0 with
    avgPrice := i.avgPrice, traded := i.traded, ladder := i.ladder }

theorem readLine_depth (before : ∀ j ∈ m.instruments, j.code < i.code)
    (words : Text.words line = Row.fields (depthRow i)) (avgPrice : FitsWord i.avgPrice)
    (traded : FitsWord i.traded)
    (levels : ∀ l ∈ i.ladder.levels.toList, FitsWord l.price ∧ FitsWord l.qty) :
    readLine m line = .ok ({ m with instruments := m.instruments ++ [quoted i] }, false) := by
  have tag : Row.fields (depthRow i) = ['d'] :: i.code.toList :: (toString i.avgPrice).toList
      :: (toString i.traded).toList
      :: ((i.ladder.levels.map Level.price).toList.map (fun n => (toString n).toList)
        ++ ((i.ladder.levels.map Level.qty).toList.map (fun n => (toString n).toList) ++ [])) := by
    simp [Row.fields, depthRow, Vector.toList_map, Function.comp_def]
  have prices := readSigned_map (f := Level.price) fun l hl => (levels l hl).1
  have qtys := readSigned_map (f := Level.qty) fun l hl => (levels l hl).2
  have apart : ∀ j ∈ m.instruments, j.code ≠ i.code := fun j hj same =>
    String.lt_irrefl _ (same ▸ before j hj)
  have added : m.add (String.ofList i.code.toList) .equity 0
      = { m with instruments := m.instruments ++ [.ofHoldings i.code .equity 0] } := by
    rw [Book.add, String.ofList_toList]
    congr 1
    exact insertInstrument_last before
  have found : known { m with instruments := m.instruments ++ [.ofHoldings i.code .equity 0] }
      i.code.toList line = .ok (.ofHoldings i.code .equity 0) := known_last apart
  simp only [readLine, words, tag, readDepth, FieldReader.field, bind, Except.bind, added, found,
    next_amount avgPrice, next_amount traded, vector_append prices, vector_append qtys,
    zipWith_levels, Except.map]
  exact congrArg (fun b => Except.ok (b, false))
    (set_last (i := .ofHoldings i.code .equity 0) (j := quoted i) apart rfl)

/-! ### Details -/

/-- The instrument after its market data and its detail. -/
def detailed (i : Instrument) : Instrument :=
  { quoted i with kind := i.kind, detail := i.detail }

theorem set_detailed {kind : Kind} {detail : Detail} (apart : ∀ j ∈ is, j.code ≠ i.code)
    (hkind : i.kind = kind) (hdetail : i.detail = detail) :
    Book.set { m with instruments := is ++ [quoted i] } { quoted i with kind, detail }
      = { m with instruments := is ++ [detailed i] } := by
  subst hkind hdetail
  exact set_last (i := quoted i) apart rfl

theorem readLine_warrant {terms : WarrantTerms} (apart : ∀ j ∈ is, j.code ≠ i.code)
    (kind : i.kind = .warrant) (detail : i.detail = .warrant terms)
    (words : Text.words line = Row.fields
      (["e", i.code, String.singleton terms.callPut, toString terms.expiry]
        ++ terms.greeks.toList.map toString))
    (expiry : terms.expiry ≤ Text.maxWord) :
    readLine { m with instruments := is ++ [quoted i] } line
      = .ok ({ m with instruments := is ++ [detailed i] }, false) := by
  have tag : Row.fields (["e", i.code, String.singleton terms.callPut, toString terms.expiry]
      ++ terms.greeks.toList.map toString) = ['e'] :: i.code.toList :: [terms.callPut]
        :: (toString terms.expiry).toList
        :: terms.greeks.toList.map fun x => (toString x).toList := by
    simp [Row.fields, Function.comp_def]
  have found : known { m with instruments := is ++ [quoted i] } i.code.toList line
      = .ok (quoted i) := known_last (i := quoted i) apart
  have greeks : FieldReader.vector line Binary64.read 8
      (terms.greeks.toList.map fun x => (toString x).toList) = .ok (terms.greeks, []) :=
    (congrArg _ (List.append_nil _).symm).trans (vector_append fun x _ => Binary64.read_toString x)
  have callPut : Text.readChar [terms.callPut] = some terms.callPut := rfl
  simp only [readLine, words, tag, readWarrant, FieldReader.field, bind, Except.bind,
    next_cons callPut, next_count expiry, greeks, found, set_detailed apart kind detail, Except.map]

theorem readLine_tracker {deviation : Binary64} (apart : ∀ j ∈ is, j.code ≠ i.code)
    (kind : i.kind = .tracker) (detail : i.detail = .tracker deviation)
    (words : Text.words line = Row.fields ["n", i.code, toString deviation]) :
    readLine { m with instruments := is ++ [quoted i] } line
      = .ok ({ m with instruments := is ++ [detailed i] }, false) := by
  have found : known { m with instruments := is ++ [quoted i] } i.code.toList line
      = .ok (quoted i) := known_last (i := quoted i) apart
  have tag : Row.fields ["n", i.code, toString deviation]
      = ['n'] :: i.code.toList :: [(toString deviation).toList] := rfl
  simp only [readLine, words, tag, readTracker, FieldReader.field, bind, Except.bind, next_number,
    found, set_detailed apart kind detail, Except.map]

/-! ### Holdings and orders -/

/-- My orders as a reader has them, numbered from `id` on. -/
def renumbered (i : Instrument) : Nat → List Order → List Order
  | _, [] => []
  | id, o :: os => orderOf i id o.price (o.side.sign * o.qty) :: renumbered i (id + 1) os

/-- The fields of some orders. -/
def orderFields (os : List Order) : List (List Char) :=
  os.flatMap fun o => [(toString o.price).toList, (toString (o.side.sign * o.qty)).toList]

/-- An order with a key after all others goes last. -/
theorem insert_last {o : Order} {os : List Order} (before : ∀ p ∈ os, p.key.before o.key = true) :
    Orders.insert o os = os ++ [o] := by
  induction os with
  | nil => rfl
  | cons p ps ih =>
    obtain ⟨here, later⟩ := List.forall_mem_cons.mp before
    have notBefore : ¬o.key.before p.key = true := fun back =>
      Key.not_before_self _ (Key.before_trans back here)
    have ne : ¬o.key = p.key := fun same => Key.not_before_self _ (same ▸ here)
    simp [Orders.insert, notBefore, ne, ih later]

theorem renumbered_with_orders {j : Instrument} {id : Nat} {os ps : List Order} :
    renumbered { j with orders := ps } id os = renumbered j id os := by
  induction os generalizing id with
  | nil => rfl
  | cons o os ih => exact congrArg _ ih

/-- Orders are read back in their order, after those that are there already. -/
theorem readOrders_append {os : List Order} {j : Instrument} {id : Nat}
    (sorted : Orders.Sorted os)
    (amounts : ∀ o ∈ os, FitsWord o.price ∧ FitsWord (o.side.sign * o.qty))
    (before : ∀ p ∈ j.orders, p.id < id ∧ ∀ o ∈ os, p.price ≤ o.price) :
    readOrders line j id (orderFields os)
      = .ok ({ j with orders := j.orders ++ renumbered j id os }, id + os.length) := by
  induction os generalizing j id with
  | nil => simp [orderFields, readOrders, renumbered]
  | cons o os ih =>
    obtain ⟨first, sortedRest⟩ := List.pairwise_cons.mp sorted
    obtain ⟨⟨price, qty⟩, amountsRest⟩ := List.forall_mem_cons.mp amounts
    have fields : orderFields (o :: os) = (toString o.price).toList
        :: (toString (o.side.sign * o.qty)).toList :: orderFields os := rfl
    have last : Orders.insert (orderOf j id o.price (o.side.sign * o.qty)) j.orders
        = j.orders ++ [orderOf j id o.price (o.side.sign * o.qty)] := by
      apply insert_last
      intro p hp
      obtain ⟨older, cheaper⟩ := before p hp
      have le := cheaper o List.mem_cons_self
      exact Key.before_iff.mpr (le.lt_or_eq.imp_right fun same => ⟨same, older⟩)
    have beforeRest : ∀ p ∈ j.orders ++ [orderOf j id o.price (o.side.sign * o.qty)],
        p.id < id + 1 ∧ ∀ q ∈ os, p.price ≤ q.price := by
      intro p hp
      rcases List.mem_append.mp hp with hp | hp
      · obtain ⟨older, cheaper⟩ := before p hp
        exact ⟨by omega, fun q hq => cheaper q (List.mem_cons_of_mem o hq)⟩
      · obtain rfl := List.mem_singleton.mp hp
        exact ⟨Nat.lt_succ_self id,
          fun q hq => (Key.before_iff.mp (first q hq)).elim le_of_lt (·.1.le)⟩
    rw [fields, readOrders, Text.readSigned_toString price, Text.readSigned_toString qty]
    simp only [last]
    refine (ih sortedRest amountsRest beforeRest).trans ?_
    rw [renumbered_with_orders, List.append_assoc, List.length_cons, Nat.add_right_comm]
    rfl

/-- The instrument as a reader has it after its rows, its orders numbered from `id` on. -/
def mirrored (i : Instrument) (id : Nat) : Instrument :=
  let held : Instrument := { detailed i with idle := i.idle }
  { held with orders := renumbered held id i.liveOrders }

theorem readLine_orders (apart : ∀ j ∈ is, j.code ≠ i.code) (sorted : Orders.Sorted i.orders)
    (words : Text.words line = Row.fields (ordersRow i)) (idle : FitsWord i.idle)
    (orders : ∀ o ∈ i.orders, FitsWord o.price ∧ FitsWord o.qty) :
    readLine { m with instruments := is ++ [detailed i] } line
      = .ok ({ m with
          instruments := is ++ [mirrored i m.nextId]
          nextId := m.nextId + i.liveOrders.length }, false) := by
  have tag : Row.fields (ordersRow i) = ['o'] :: i.code.toList :: (toString i.idle).toList
      :: orderFields i.liveOrders := by
    simp [Row.fields, ordersRow, orderFields, List.map_flatMap]
  have found : known { m with instruments := is ++ [detailed i] } i.code.toList line
      = .ok (detailed i) := known_last (i := detailed i) apart
  have even : (orderFields i.liveOrders).length % 2 = 0 := by
    generalize i.liveOrders = os
    induction os with
    | nil => rfl
    | cons o os ih => exact (Nat.add_mod_right _ 2).trans ih
  have amounts : ∀ o ∈ i.liveOrders, FitsWord o.price ∧ FitsWord (o.side.sign * o.qty) := by
    intro o ho
    obtain ⟨mem, live⟩ := List.mem_filter.mp ho
    have live := of_decide_eq_true live
    obtain ⟨price, qty⟩ := orders o mem
    refine ⟨price, ?_⟩
    simp only [FitsWord] at *
    cases o.side <;> simp only [Side.sign] <;> omega
  have none : ∀ p ∈ ({ detailed i with idle := i.idle } : Instrument).orders,
      p.id < m.nextId ∧ ∀ o ∈ i.liveOrders, p.price ≤ o.price :=
    fun _ hp => absurd hp List.not_mem_nil
  have read : readOrders line { detailed i with idle := i.idle } m.nextId (orderFields i.liveOrders)
      = .ok (mirrored i m.nextId, m.nextId + i.liveOrders.length) :=
    readOrders_append sorted.filter amounts none
  have after : Book.set { m with instruments := is ++ [detailed i] } (mirrored i m.nextId)
      = { m with instruments := is ++ [mirrored i m.nextId] } := set_last apart rfl
  simp only [readLine, words, tag, readHoldings, FieldReader.field, bind, Except.bind,
    next_amount idle, even, found, ne_eq, not_true_eq_false, if_false, read, after,
    Except.map]

end Rows

end TradingDesk.StateBlock
