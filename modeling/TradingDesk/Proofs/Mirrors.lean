-- SUMMARY: A state block read back mirrors the book that it was written for.
import TradingDesk.Proofs.Allotment
import TradingDesk.Proofs.Blocks

/-!
# Mirrors

What an agent reads from a block has the same account, the same market data and the same
live orders as the book; only the numbers of the orders, their escrow and what they stand
behind in the queue are its own. Since a block tells of nothing else, the mirror is written
as the same block.
-/

namespace TradingDesk

/-- The kind of the instruments that have a detail. -/
def Detail.kind : Detail → Kind
  | .equity => .equity
  | .warrant _ => .warrant
  | .tracker _ => .tracker

/-- Whether a detail can be told from its text. -/
def Detail.isLegible : Detail → Bool
  | .warrant terms => !Text.isBlank terms.callPut
  | _ => true

/-- Whether the amounts of a detail fit the words that the desk keeps them in. -/
def Detail.fitsWords : Detail → Bool
  | .warrant terms => decide (terms.expiry ≤ Text.maxWord)
  | _ => true

/-- What a block tells of an order. -/
def Order.shown (o : Order) : Int × Side × Int := (o.price, o.side, o.qty)

namespace Instrument

open StateBlock

/-- Whether an instrument can be told from its text. -/
structure Legible (i : Instrument) : Prop where
  code : Text.IsField i.code.toList
  kind : i.kind = i.detail.kind
  detail : i.detail.isLegible = true

instance (i : Instrument) : Decidable i.Legible :=
  decidable_of_iff (Text.IsField i.code.toList ∧ i.kind = i.detail.kind ∧ i.detail.isLegible = true)
    ⟨fun h => ⟨h.1, h.2.1, h.2.2⟩, fun h => ⟨h.code, h.kind, h.detail⟩⟩

/-- Whether the amounts of an instrument fit the words that the desk keeps them in. -/
structure InWords (i : Instrument) : Prop where
  avgPrice : FitsWord i.avgPrice
  traded : FitsWord i.traded
  levels : ∀ l ∈ i.ladder.levels.toList, FitsWord l.price ∧ FitsWord l.qty
  detail : i.detail.fitsWords = true
  idle : FitsWord i.idle
  orders : ∀ o ∈ i.orders, FitsWord o.price ∧ FitsWord o.qty

instance (i : Instrument) : Decidable i.InWords :=
  decidable_of_iff (FitsWord i.avgPrice ∧ FitsWord i.traded
      ∧ (∀ l ∈ i.ladder.levels.toList, FitsWord l.price ∧ FitsWord l.qty)
      ∧ i.detail.fitsWords = true ∧ FitsWord i.idle
      ∧ ∀ o ∈ i.orders, FitsWord o.price ∧ FitsWord o.qty)
    ⟨fun ⟨avgPrice, traded, levels, detail, idle, orders⟩ =>
        ⟨avgPrice, traded, levels, detail, idle, orders⟩,
      fun h => ⟨h.avgPrice, h.traded, h.levels, h.detail, h.idle, h.orders⟩⟩

theorem Legible.callPut {i : Instrument} {terms : WarrantTerms} (h : i.Legible)
    (detail : i.detail = .warrant terms) : Text.isBlank terms.callPut = false := by
  have legible := h.detail
  rw [detail] at legible
  exact Bool.eq_false_of_not_eq_true' legible

theorem InWords.expiry {i : Instrument} {terms : WarrantTerms} (h : i.InWords)
    (detail : i.detail = .warrant terms) : terms.expiry ≤ Text.maxWord := by
  have fits := h.detail
  rw [detail] at fits
  exact of_decide_eq_true fits

/-- What a mirror of an instrument has in common with it. -/
structure Mirrors (i j : Instrument) : Prop where
  code : j.code = i.code
  kind : j.kind = i.kind
  avgPrice : j.avgPrice = i.avgPrice
  traded : j.traded = i.traded
  ladder : j.ladder = i.ladder
  detail : j.detail = i.detail
  idle : j.idle = i.idle
  orders : j.liveOrders.map Order.shown = i.liveOrders.map Order.shown

end Instrument

namespace Book

open StateBlock

def Legible (b : Book) : Prop := ∀ i ∈ b.instruments, i.Legible

/-- Whether the amounts of a book fit the words that the desk keeps them in. -/
structure InWords (b : Book) : Prop where
  tick : b.tick ≤ Text.maxWord
  balance : FitsWord b.balance
  totals : FitsWord b.stats.bought ∧ FitsWord b.stats.sold ∧ FitsWord b.stats.fees
  slots : ∀ t ∈ b.stats.slots.toList, FitsWord t.cash ∧ FitsWord t.qty ∧ FitsWord t.fills
  instruments : ∀ i ∈ b.instruments, i.InWords

instance (b : Book) : Decidable b.Legible := inferInstanceAs (Decidable (∀ i ∈ _, _))

instance (b : Book) : Decidable b.InWords :=
  decidable_of_iff (b.tick ≤ Text.maxWord ∧ FitsWord b.balance
      ∧ (FitsWord b.stats.bought ∧ FitsWord b.stats.sold ∧ FitsWord b.stats.fees)
      ∧ (∀ t ∈ b.stats.slots.toList, FitsWord t.cash ∧ FitsWord t.qty ∧ FitsWord t.fills)
      ∧ ∀ i ∈ b.instruments, i.InWords)
    ⟨fun ⟨tick, balance, totals, slots, instruments⟩ => ⟨tick, balance, totals, slots, instruments⟩,
      fun h => ⟨h.tick, h.balance, h.totals, h.slots, h.instruments⟩⟩

/-- What a mirror of a book has in common with it. -/
structure Mirrors (b m : Book) : Prop where
  tick : m.tick = b.tick
  balance : m.balance = b.balance
  stats : m.stats = b.stats
  index : b.hasWarrants = true → m.index = b.index
  instruments : List.Forall₂ Instrument.Mirrors b.instruments m.instruments

end Book

namespace StateBlock

variable {b m m' m'' told : Book} {i j : Instrument} {id : Nat} {is : List Instrument} {r : Row}
  {rs rs' : List Row}

/-! ## Mirrored instruments -/

/-- The instruments as a reader has them, their orders numbered from `id` on. -/
def mirrorAll : Nat → List Instrument → List Instrument
  | _, [] => []
  | id, i :: is => mirrored i id :: mirrorAll (id + i.liveOrders.length) is

/-- The sign of a quantity gives the side back. -/
theorem shown_orderOf {o : Order} (live : 0 < o.qty) :
    (orderOf j id o.price (o.side.sign * o.qty)).shown = o.shown := by
  simp only [Order.shown, orderOf, Prod.mk.injEq, true_and]
  cases side : o.side with
  | buy =>
    have signed : Side.sign .buy * o.qty = o.qty := Int.one_mul o.qty
    rw [signed, if_pos live.le]
    exact ⟨rfl, Int.natAbs_of_nonneg live.le⟩
  | sell =>
    have signed : Side.sign .sell * o.qty = -o.qty := Int.neg_one_mul o.qty
    rw [signed, if_neg (by omega), Int.natAbs_neg]
    exact ⟨rfl, Int.natAbs_of_nonneg live.le⟩

theorem shown_renumbered {os : List Order} (live : ∀ o ∈ os, 0 < o.qty) :
    ((renumbered j id os).filter Order.isLive).map Order.shown = os.map Order.shown := by
  induction os generalizing id with
  | nil => rfl
  | cons o os ih =>
    obtain ⟨here, later⟩ := List.forall_mem_cons.mp live
    have same := @shown_orderOf j id o here
    have kept : (orderOf j id o.price (o.side.sign * o.qty)).isLive = true := by
      have qty : (orderOf j id o.price (o.side.sign * o.qty)).qty = o.qty := congrArg (·.2.2) same
      rw [Order.isLive, qty, decide_eq_true here]
    rw [renumbered, List.filter_cons_of_pos kept, List.map_cons, List.map_cons, same, ih later]

theorem mirrors_mirrored : i.Mirrors (mirrored i id) where
  code := rfl
  kind := rfl
  avgPrice := rfl
  traded := rfl
  ladder := rfl
  detail := rfl
  idle := rfl
  orders := shown_renumbered fun _ ho => of_decide_eq_true (List.mem_filter.mp ho).2

theorem mirrors_mirrorAll : List.Forall₂ Instrument.Mirrors is (mirrorAll id is) := by
  induction is generalizing id with
  | nil => exact .nil
  | cons i is ih => exact .cons mirrors_mirrored ih

/-! ## Blocks of mirrors -/

theorem rows_of_mirrors (h : i.Mirrors j) : instrumentRows j = instrumentRows i := by
  have orders : j.liveOrders.flatMap (fun o => [toString o.price, toString (o.side.sign * o.qty)])
      = i.liveOrders.flatMap fun o => [toString o.price, toString (o.side.sign * o.qty)] := by
    have told : ∀ os : List Order,
        os.flatMap (fun o => [toString o.price, toString (o.side.sign * o.qty)])
        = (os.map Order.shown).flatMap fun p => [toString p.1, toString (p.2.1.sign * p.2.2)] := by
      intro os
      rw [List.flatMap_map]
      rfl
    rw [told, told, h.orders]
  simp only [instrumentRows, depthRow, detailRow, ordersRow, h.code, h.avgPrice, h.traded, h.ladder,
    h.detail, h.idle, orders]

theorem map_of_mirrors {α : Type} {f : Instrument → α} {js : List Instrument}
    (h : List.Forall₂ Instrument.Mirrors is js) (same : ∀ i j, i.Mirrors j → f j = f i) :
    js.map f = is.map f := by
  induction h with
  | nil => rfl
  | cons here _ ih => rw [List.map_cons, List.map_cons, same _ _ here, ih]

/-- A mirror is written as the same block. -/
theorem render_of_mirrors (h : b.Mirrors m) : render m = render b := by
  have warrants : m.hasWarrants = b.hasWarrants := by
    have kinds := map_of_mirrors h.instruments fun _ _ h => h.kind
    have told : ∀ b : Book,
        b.hasWarrants = (b.instruments.map Instrument.kind).any (· == .warrant) := by
      intro b
      rw [List.any_map]
      rfl
    rw [told, told, kinds]
  have instruments :
      m.instruments.flatMap instrumentRows = b.instruments.flatMap instrumentRows := by
    rw [List.flatMap_def, List.flatMap_def, map_of_mirrors h.instruments fun _ _ => rows_of_mirrors]
  have index : indexRow m = indexRow b := by
    simp only [indexRow, warrants]
    split
    next some => rw [h.index some]
    next => rfl
  simp only [render, rows, headerRow, h.tick, h.balance, h.stats, index, instruments]

/-! ## Lines -/

/-- A row as a line. -/
def Row.line (r : Row) : List Char := Text.join r.fields

/-- Whether reading some rows leads from one book to another, whatever lines follow. -/
def Leads (rs : List Row) (m m' : Book) : Prop :=
  ∀ header rest, readLines m header (rs.map Row.line ++ rest) = readLines m' header rest

theorem Leads.nil : Leads [] m m := fun _ _ => rfl

theorem Leads.append (first : Leads rs m m') (rest : Leads rs' m' m'') :
    Leads (rs ++ rs') m m'' := by
  intro header lines
  rw [List.map_append, List.append_assoc, first, rest]

/-- The first and the last line of a block are one field each, which is no other row's tag. -/
theorem Row.line_ne {tag text : String} (line : Text.IsLine r.fields) (htag : r.head? = some tag)
    (single : Text.words text.toList = [text.toList]) (other : tag ≠ text) :
    r.line ≠ text.toList := by
  intro same
  obtain ⟨s, rfl⟩ : ∃ s, r = tag :: s := by
    cases r with
    | nil => cases htag
    | cons t s =>
      obtain rfl := Option.some.inj htag
      exact ⟨s, rfl⟩
  have fields := Text.words_join line.fields
  rw [← Row.line, same, single] at fields
  exact other (String.toList_inj.mp (List.cons.inj fields).1.symm)

/-- A line that is neither the first nor the last of a block is read. -/
theorem readLines_cons {tag : String} {header isHeader : Bool} {rest : List (List Char)}
    (line : Text.IsLine r.fields) (htag : r.head? = some tag)
    (inner : tag ≠ opening ∧ tag ≠ closing) (read : readLine m r.line = .ok (m', isHeader)) :
    readLines m header (r.line :: rest) = readLines m' (header || isHeader) rest := by
  have passed : (r.line == opening.toList || r.line == closing.toList) = false := by
    rw [Bool.or_eq_false_iff, beq_eq_false_iff_ne, beq_eq_false_iff_ne]
    exact ⟨r.line_ne line htag rfl inner.1, r.line_ne line htag rfl inner.2⟩
  rw [readLines, if_neg (by simp [passed]), read]
  rfl

theorem Leads.cons {tag : String} (line : Text.IsLine r.fields) (htag : r.head? = some tag)
    (inner : tag ≠ opening ∧ tag ≠ closing) (read : readLine m r.line = .ok (m', false))
    (rest : Leads rs m' m'') : Leads (r :: rs) m m'' := by
  intro header lines
  rw [List.map_cons, List.cons_append, readLines_cons line htag inner read, Bool.or_false, rest]

/-! ## Rows -/

theorem isLine_fields (nonempty : r ≠ []) (fields : ∀ s ∈ r, Text.IsField s.toList) :
    Text.IsLine r.fields where
  nonempty := fun none => nonempty (List.map_eq_nil_iff.mp none)
  fields := by
    intro f hf
    obtain ⟨s, hs, rfl⟩ := List.mem_map.mp hf
    exact fields s hs

theorem isField_tag {c : Char} (solid : Text.isBlank c = false) :
    Text.IsField (String.singleton c).toList := by
  rw [String.toList_singleton]
  exact ⟨List.cons_ne_nil _ _, by simpa using solid⟩

theorem isLine_header : Text.IsLine (Row.fields (headerRow b)) := by
  apply isLine_fields (List.cons_ne_nil _ _)
  simp only [List.forall_mem_cons]
  exact ⟨by decide, Text.isField_toString b.tick, Text.isField_toString _,
    Text.isField_toString _, Text.isField_toString _, Text.isField_toString _, by simp⟩

theorem isLine_slots {t : Stats} : Text.IsLine (Row.fields (slotsRow t)) := by
  apply isLine_fields (List.cons_ne_nil _ _)
  simp only [List.forall_mem_cons, List.mem_flatMap]
  refine ⟨by decide, ?_⟩
  rintro s ⟨slot, -, hs⟩
  simp only [List.mem_cons, List.not_mem_nil, or_false] at hs
  rcases hs with rfl | rfl | rfl <;> exact Text.isField_toString _

theorem isLine_index {x : Binary64} : Text.IsLine (Row.fields ["k", toString x]) := by
  apply isLine_fields (List.cons_ne_nil _ _)
  simp only [List.forall_mem_cons]
  exact ⟨by decide, Binary64.isField_toString x, by simp⟩

theorem isLine_depth (code : Text.IsField i.code.toList) :
    Text.IsLine (Row.fields (depthRow i)) := by
  apply isLine_fields (by simp [depthRow])
  intro s hs
  simp only [depthRow, List.mem_append, List.mem_cons, List.mem_map, List.not_mem_nil, or_false]
    at hs
  rcases hs with ((rfl | rfl | rfl | rfl) | ⟨l, -, rfl⟩) | ⟨l, -, rfl⟩
  · decide
  · exact code
  all_goals exact Text.isField_toString _

theorem isLine_orders (code : Text.IsField i.code.toList) :
    Text.IsLine (Row.fields (ordersRow i)) := by
  apply isLine_fields (by simp [ordersRow])
  intro s hs
  simp only [ordersRow, List.mem_append, List.mem_cons, List.mem_flatMap, List.not_mem_nil,
    or_false] at hs
  rcases hs with (rfl | rfl | rfl) | ⟨o, -, rfl | rfl⟩
  · decide
  · exact code
  all_goals exact Text.isField_toString _

theorem isLine_warrant {terms : WarrantTerms} (code : Text.IsField i.code.toList)
    (callPut : Text.isBlank terms.callPut = false) :
    Text.IsLine (Row.fields (["e", i.code, String.singleton terms.callPut, toString terms.expiry]
      ++ terms.greeks.toList.map toString)) := by
  apply isLine_fields (by simp)
  intro s hs
  simp only [List.mem_append, List.mem_cons, List.mem_map, List.not_mem_nil, or_false] at hs
  rcases hs with (rfl | rfl | rfl | rfl) | ⟨x, -, rfl⟩
  · decide
  · exact code
  · exact isField_tag callPut
  · exact Text.isField_toString terms.expiry
  · exact Binary64.isField_toString x

theorem isLine_tracker {deviation : Binary64} (code : Text.IsField i.code.toList) :
    Text.IsLine (Row.fields ["n", i.code, toString deviation]) := by
  apply isLine_fields (List.cons_ne_nil _ _)
  simp only [List.forall_mem_cons]
  exact ⟨by decide, code, Binary64.isField_toString deviation, by simp⟩

/-- The rows of an instrument lead to its mirror. -/
theorem leads_instrument (legible : i.Legible) (words : i.InWords) (sorted : Orders.Sorted i.orders)
    (before : ∀ j ∈ m.instruments, j.code < i.code) :
    Leads (instrumentRows i) m { m with
      instruments := m.instruments ++ [mirrored i m.nextId]
      nextId := m.nextId + i.liveOrders.length } := by
  have apart : ∀ j ∈ m.instruments, j.code ≠ i.code := fun j hj same =>
    String.lt_irrefl _ (same ▸ before j hj)
  have depth := readLine_depth before (Text.words_join (isLine_depth legible.code).fields)
    words.avgPrice words.traded words.levels
  have orders := readLine_orders (m := m) apart sorted
    (Text.words_join (isLine_orders legible.code).fields) words.idle words.orders
  have last : Leads [ordersRow i] { m with instruments := m.instruments ++ [detailed i] } _ :=
    Leads.cons (isLine_orders legible.code) rfl (by decide) orders .nil
  refine Leads.cons (isLine_depth legible.code) rfl (by decide) depth ?_
  have kind := legible.kind
  cases detail : i.detail with
  | equity =>
    rw [detail] at kind
    have same : quoted i = detailed i := by
      rw [detailed, kind, detail]
      rfl
    rw [detailRow, detail, same]
    exact last
  | warrant terms =>
    rw [detail] at kind
    have line := isLine_warrant legible.code (legible.callPut detail)
    have read := readLine_warrant (m := m) apart kind detail (Text.words_join line.fields)
      (words.expiry detail)
    rw [detailRow, detail]
    exact Leads.cons line rfl (by decide) read last
  | tracker deviation =>
    rw [detail] at kind
    have line := @isLine_tracker i deviation legible.code
    have read := readLine_tracker (m := m) apart kind detail (Text.words_join line.fields)
    rw [detailRow, detail]
    exact Leads.cons line rfl (by decide) read last

/-- The rows of some instruments lead to their mirrors, after those that are there already. -/
theorem leads_instruments (legible : ∀ i ∈ is, i.Legible) (words : ∀ i ∈ is, i.InWords)
    (sorted : ∀ i ∈ is, Orders.Sorted i.orders) (codes : (is.map Instrument.code).Pairwise (· < ·))
    (before : ∀ j ∈ m.instruments, ∀ i ∈ is, j.code < i.code) :
    ∃ nextId, Leads (is.flatMap instrumentRows) m { m with
      instruments := m.instruments ++ mirrorAll m.nextId is, nextId } := by
  induction is generalizing m with
  | nil =>
    have same : { m with instruments := m.instruments ++ mirrorAll m.nextId [] } = m := by
      simp [mirrorAll]
    exact ⟨m.nextId, same.symm ▸ .nil⟩
  | cons i is ih =>
    obtain ⟨legibleHere, legibleRest⟩ := List.forall_mem_cons.mp legible
    obtain ⟨wordsHere, wordsRest⟩ := List.forall_mem_cons.mp words
    obtain ⟨sortedHere, sortedRest⟩ := List.forall_mem_cons.mp sorted
    obtain ⟨first, codesRest⟩ := List.pairwise_cons.mp codes
    have here := leads_instrument legibleHere wordsHere sortedHere fun j hj =>
      before j hj i List.mem_cons_self
    have beforeRest : ∀ j ∈ m.instruments ++ [mirrored i m.nextId], ∀ k ∈ is, j.code < k.code := by
      intro j hj k hk
      rcases List.mem_append.mp hj with hj | hj
      · exact before j hj k (List.mem_cons_of_mem i hk)
      · obtain rfl := List.mem_singleton.mp hj
        exact first k.code (List.mem_map_of_mem hk)
    obtain ⟨nextId, rest⟩ := ih (m := { m with
      instruments := m.instruments ++ [mirrored i m.nextId]
      nextId := m.nextId + i.liveOrders.length })
      legibleRest wordsRest sortedRest codesRest beforeRest
    rw [List.append_assoc] at rest
    exact ⟨nextId, here.append rest⟩

/-! ## Blocks -/

theorem toList_render : (render b).toList
    = ([opening] :: rows b ++ [[closing]]).flatMap fun r => Row.line r ++ ['\n'] := by
  have same : render b
      = unlines (([opening] :: rows b ++ [[closing]]).map (String.intercalate " ")) := by
    simp [render]
  rw [same, unlines, String.toList_join, List.map_map, List.flatMap_map]
  congr 1
  funext r
  rw [Function.comp_apply, String.toList_append, String.toList_intercalate]
  rfl

theorem isLine_instrument (code : Text.IsField i.code.toList) (detail : i.detail.isLegible = true) :
    ∀ r ∈ instrumentRows i, Text.IsLine (Row.fields r) := by
  intro r hr
  simp only [instrumentRows, List.cons_append, List.mem_cons, List.mem_append, List.not_mem_nil,
    or_false] at hr
  rcases hr with rfl | hr | rfl
  · exact isLine_depth code
  · rw [detailRow] at hr
    cases terms : i.detail with
    | equity =>
      rw [terms] at hr
      cases hr
    | warrant =>
      rw [terms] at hr detail
      obtain rfl := List.mem_singleton.mp hr
      exact isLine_warrant code (Bool.eq_false_of_not_eq_true' detail)
    | tracker deviation =>
      rw [terms] at hr
      obtain rfl := List.mem_singleton.mp hr
      exact isLine_tracker code
  · exact isLine_orders code

/-- The rows of a book, with those of an index where `told` has it written. -/
def rowsTelling (told b : Book) : List Row :=
  headerRow b :: slotsRow b.stats :: indexRow told ++ b.instruments.flatMap instrumentRows

theorem isLine_rowsTelling (legible : ∀ i ∈ b.instruments,
    Text.IsField i.code.toList ∧ i.detail.isLegible = true) :
    ∀ r ∈ [opening] :: rowsTelling told b ++ [[closing]], Text.IsLine (Row.fields r) := by
  have ends : ∀ text : String, Text.IsField text.toList → Text.IsLine (Row.fields [text]) :=
    fun text field => isLine_fields (List.cons_ne_nil _ _) (by simpa using field)
  intro r hr
  simp only [rowsTelling, List.cons_append, List.append_assoc, List.mem_cons, List.mem_append,
    List.mem_flatMap, List.not_mem_nil, or_false] at hr
  rcases hr with rfl | rfl | rfl | hr | ⟨i, hi, hr⟩ | rfl
  · exact ends opening (by decide)
  · exact isLine_header
  · exact isLine_slots
  · rw [indexRow] at hr
    split at hr
    · obtain rfl := List.mem_singleton.mp hr
      exact isLine_index
    · cases hr
  · exact isLine_instrument (legible i hi).1 (legible i hi).2 r hr
  · exact ends closing (by decide)

theorem isLine_rows (legible : ∀ i ∈ b.instruments,
    Text.IsField i.code.toList ∧ i.detail.isLegible = true) :
    ∀ r ∈ [opening] :: rows b ++ [[closing]], Text.IsLine (Row.fields r) :=
  @isLine_rowsTelling b b legible

/-- The index is told where it matters. -/
theorem leads_index : ∃ index, Leads (indexRow b) m { m with index }
    ∧ (b.hasWarrants = true → index = b.index) := by
  rw [indexRow]
  split
  · have read := readLine_index (m := m) (Text.words_join (@isLine_index b.index).fields)
    exact ⟨b.index, .cons isLine_index rfl (by decide) read .nil, fun _ => rfl⟩
  next none => exact ⟨m.index, .nil, fun some => absurd some none⟩

/-- What is read from the rows of a book, with the index that `told` has written. -/
structure Reads (told b m : Book) : Prop where
  tick : m.tick = b.tick
  balance : m.balance = b.balance
  stats : m.stats = b.stats
  index : told.hasWarrants = true → m.index = told.index
  instruments : m.instruments = mirrorAll 1 b.instruments

theorem Reads.mirrors (h : Reads b b m) : b.Mirrors m where
  tick := h.tick
  balance := h.balance
  stats := h.stats
  index := h.index
  instruments := h.instruments ▸ mirrors_mirrorAll

/-- The rows of a book lead an empty book to its mirror. -/
theorem readLines_rows {rest : List (List Char)} (hb : b.WellFormed) (legible : b.Legible)
    (words : b.InWords) :
    ∃ m, readLines (Book.ofBalance 0) false ((rowsTelling told b).map Row.line ++ rest)
        = readLines m true rest ∧ Reads told b m := by
  have header := readLine_header (m := .ofBalance 0) (Text.words_join isLine_header.fields)
    words.tick words.balance words.totals.1 words.totals.2.1 words.totals.2.2
  have slots := readLine_slots (m := { Book.ofBalance 0 with
      tick := b.tick
      balance := b.balance
      stats := { b.stats with slots := Stats.blank.slots } })
    (Text.words_join isLine_slots.fields) words.slots
  obtain ⟨index, toldIndex, same⟩ := @leads_index told { Book.ofBalance 0 with
    tick := b.tick
    balance := b.balance
    stats := b.stats }
  obtain ⟨nextId, instruments⟩ := leads_instruments legible words.instruments hb.sorted hb.codes
    (m := { Book.ofBalance 0 with tick := b.tick, balance := b.balance, stats := b.stats, index })
    fun _ hj => absurd hj List.not_mem_nil
  have inner := Leads.cons isLine_slots rfl (by decide) slots (toldIndex.append instruments)
  refine ⟨{ Book.ofBalance 0 with
    tick := b.tick
    balance := b.balance
    stats := b.stats
    index
    instruments := mirrorAll 1 b.instruments
    nextId }, ?_, rfl, rfl, rfl, same, rfl⟩
  rw [rowsTelling, List.cons_append, List.cons_append, List.map_cons, List.cons_append]
  refine (readLines_cons isLine_header rfl (by decide) header).trans ?_
  exact inner true rest

/-- The text of the rows of a book is read back as a mirror of it. -/
theorem parse_rows {text : String} (hb : b.WellFormed) (legible : b.Legible) (words : b.InWords)
    (written : text.toList
      = ([opening] :: rowsTelling told b ++ [[closing]]).flatMap fun r => Row.line r ++ ['\n']) :
    ∃ m, parse text = .ok m ∧ Reads told b m := by
  obtain ⟨m, read, reads⟩ := @readLines_rows b told [closing.toList] hb legible words
  refine ⟨m, ?_, reads⟩
  have isLine : ∀ fields ∈ ([opening] :: rowsTelling told b ++ [[closing]]).map Row.fields,
      Text.IsLine fields := by
    intro fields hfields
    obtain ⟨r, hr, rfl⟩ := List.mem_map.mp hfields
    exact isLine_rowsTelling (fun i hi => ⟨(legible i hi).code, (legible i hi).detail⟩) r hr
  have lines : Text.lines text.toList
      = opening.toList :: ((rowsTelling told b).map Row.line ++ [closing.toList]) := by
    have cut := Text.lines_unlines isLine
    rw [List.flatMap_map, List.map_map] at cut
    rw [written]
    refine cut.trans ?_
    rw [List.cons_append, List.map_cons, List.map_append]
    rfl
  have first : ∀ rest, readLines (.ofBalance 0) false (opening.toList :: rest)
      = readLines (.ofBalance 0) false rest := fun _ => rfl
  have last : readLines m true [closing.toList] = .ok (m, true) := rfl
  rw [parse, lines, first, read, last]
  rfl

/-- The block of a book is read back as a mirror of it, which is written as the same block. -/
theorem parse_render (reachable : b.Reachable) (legible : b.Legible) (words : b.InWords) :
    ∃ m, parse (render b) = .ok m ∧ b.Mirrors m ∧ render m = render b := by
  obtain ⟨m, read, reads⟩ := parse_rows reachable.wellFormed legible words (@toList_render b)
  exact ⟨m, read, reads.mirrors, render_of_mirrors reads.mirrors⟩

/-- A warrant, and a share with a buy and a sell in the book. -/
theorem parse_render_two :
    let b := ((((Book.ofBalance 1000000).add "57JA01" .warrant 0).add "005930" .equity 10).call
      (.insert "005930" .buy 9990 3)).call (.insert "005930" .sell 10050 4)
    b.instruments.map (fun i => i.liveOrders.map Order.shown)
        = [[(9990, .buy, 3), (10050, .sell, 4)], []]
      ∧ ∃ m, parse (render b) = .ok m ∧ b.Mirrors m ∧ render m = render b := by
  refine ⟨by decide +kernel, ?_⟩
  have reachable : (((((Book.ofBalance 1000000).add "57JA01" .warrant 0).add "005930" .equity 10).call
      (.insert "005930" .buy 9990 3)).call (.insert "005930" .sell 10050 4)).Reachable :=
    .call (.call (.add (.add (.ofBalance 1000000) "57JA01" .warrant 0) "005930" .equity 10) _) _
  exact parse_render reachable (by decide +kernel) (by decide +kernel)

end StateBlock

end TradingDesk
