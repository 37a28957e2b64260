-- SUMMARY: A live broker's order numbers and its orders stand for each other.
import TradingDesk.Proofs.Recording

/-!
# Order numbers

A live broker keeps the brokerage's number of each order and the order of each number. An
entry is made when the brokerage takes an order and forgotten when the order is swept. The
numbers of orders are kept by key, without the code of the instrument, so that keys have to
be distinct across the whole book.

If the brokerage never gives a number twice, both maps are determined by the orders that
were placed and by those that are in the book (`Numbered`). So the brokerage is asked for each
cancel under the number of its own order, and what it reports under a number is booked on the
order that was placed under it, or rejected once that order is gone.
-/

namespace TradingDesk

/-! ## Addresses -/

/-- The code and the key of each order of an instrument. -/
def Instrument.addresses (i : Instrument) : List (String × Key) :=
  i.orders.map fun o => (i.code, o.key)

namespace Book

variable {b b' : Book} {i i' : Instrument} {code : String} {a : String × Key}

/-- The code and the key of each order. -/
def addresses (b : Book) : List (String × Key) := b.instruments.flatMap Instrument.addresses

theorem mem_addresses (hb : b.WellFormed) : a ∈ b.addresses ↔ (b.order? a.1 a.2).isSome := by
  rw [Option.isSome_iff_exists]
  simp only [addresses, Instrument.addresses, List.mem_flatMap, List.mem_map, order?_eq_some]
  constructor
  · rintro ⟨i, hi, o, ho, rfl⟩
    exact ⟨o, i, hb.find?_eq_some.mpr ⟨hi, rfl⟩,
      (Orders.find?_eq_some (hb.sorted i hi)).mpr ⟨ho, rfl⟩⟩
  · rintro ⟨o, i, found, resting⟩
    refine ⟨i, mem_of_find? found, o, Orders.mem_of_find? resting, ?_⟩
    rw [code_of_find? found, Orders.key_of_find? resting]

theorem nodup_addresses (hb : b.WellFormed) : b.addresses.Nodup := by
  refine List.nodup_flatMap.mpr ⟨fun i hi => ?_, ?_⟩
  · apply List.Nodup.of_map Prod.snd
    rw [Instrument.addresses, List.map_map]
    exact (hb.sorted i hi).nodup
  · have codes : b.instruments.Pairwise fun i j => i.code ≠ j.code := List.pairwise_map.mp hb.nodup
    refine codes.imp fun ne => ?_
    intro a ha ha'
    obtain ⟨o, -, rfl⟩ := List.mem_map.mp ha
    obtain ⟨o', -, eq⟩ := List.mem_map.mp ha'
    exact ne (congrArg Prod.fst eq).symm

theorem addresses_of_account (same : b'.account = b.account) : b'.addresses = b.addresses := by
  have throughAccount : ∀ b : Book, b.account.addresses = b.addresses := by
    intro b
    simp only [addresses, account, List.flatMap_map, Instrument.addresses, Instrument.account,
      List.map_map]
    rfl
  rw [← throughAccount, same, throughAccount]

theorem addresses_set (hb : b.WellFormed) (found : b.find? code = some i) (hcode : i'.code = i.code)
    {key : Key} {n : Int} (orders : i'.orders = (i.shrinkOrder key n).orders) :
    (b.set i').addresses = b.addresses := by
  have same : i'.addresses = i.addresses := by
    simp only [Instrument.addresses, orders, hcode, Instrument.shrinkOrder, Orders.update, List.map_map]
    refine List.map_congr_left fun o _ => ?_
    simp only [Function.comp_apply]
    split <;> simp
  simp only [addresses, List.flatMap_def, hb.map_set (find?_of_code found hcode) same]

theorem mem_of_mem_sweep (ha : a ∈ b.sweep.addresses) : a ∈ b.addresses := by
  simp only [addresses, sweep, List.flatMap_map, List.mem_flatMap] at ha ⊢
  obtain ⟨i, hi, ha⟩ := ha
  obtain ⟨o, ho, rfl⟩ := List.mem_map.mp ha
  exact ⟨i, hi, List.mem_map_of_mem (List.mem_of_mem_filter ho)⟩

theorem mem_addresses_insert {side : Side} {price qty : Int} {p : Posted Key} (hb : b.WellFormed)
    (found : b.find? code = some i) (ok : b.insert code side price qty = .ok p) :
    a ∈ p.book.addresses ↔ a = (code, ⟨price, b.nextId⟩) ∨ a ∈ b.addresses := by
  have fresh := Instrument.fresh_of_ids (hb.ids i (mem_of_find? found)) side price qty
  obtain ⟨c, key⟩ := a
  rw [mem_addresses ((Step.place found ok).wellFormed hb), mem_addresses hb]
  by_cases here : c = code
  · subst here
    rw [order?_eq (find?_of_insert found ok), order?_eq found, Orders.find?, Orders.find?,
      List.find?_isSome, List.find?_isSome]
    simp only [Instrument.place_orders, Orders.mem_insert fresh, exists_eq_or_imp, Prod.mk.injEq,
      true_and, beq_iff_eq, eq_comm (b := key)]
    rfl
  · simp only [order?, find?_of_insert_ne found ok here, Prod.mk.injEq, here, false_and, false_or]

/-- Fills and cancels leave all orders where they are. -/
theorem Step.addresses {key : Key} {e : Event} (step : Step b (some e) b') (hb : b.WellFormed)
    (concerns : e.Concerns code key) : b'.addresses = b.addresses ∧ b'.nextId = b.nextId := by
  cases step with
  | place => exact concerns.elim
  | @fill _ _ i' _ _ _ _ _ found _ filled =>
    obtain ⟨-, -, -, -, -, -, -, after⟩ := Instrument.fill_eq_some filled
    have kept : (b.set i').addresses = b.addresses :=
      addresses_set hb found (Instrument.code_of_fill filled) (by rw [after])
    exact ⟨kept, rfl⟩
  | @cancel _ _ i' _ _ _ _ found _ withdrawn =>
    obtain ⟨-, -, -, after⟩ := Instrument.withdraw_eq_some withdrawn
    have kept : (b.set i').addresses = b.addresses :=
      addresses_set hb found (Instrument.code_of_withdraw withdrawn) (by rw [after])
    exact ⟨kept, rfl⟩

end Book

namespace Live

/-! ## Placements -/

/-- The number, the code and the key of an order that was placed. -/
def Entry.placement? : Entry → Option (Nat × String × Key)
  | .placed _ number i o => some (number, i.code, o.key)
  | _ => none

/-- All orders that were placed, with their numbers. -/
def placements (history : List Entry) : List (Nat × String × Key) :=
  history.filterMap Entry.placement?

variable {β : Type}

/-- The numbers are those of the placed orders that are still in the book, under distinct ids. -/
structure Numbered (l : Live β) (ps : List (Nat × String × Key)) : Prop where
  wellFormed : l.book.WellFormed
  byNumber : l.byNumber = ps.reverse.filter fun p => decide (p.2 ∈ l.book.addresses)
  byKey : l.byKey = l.byNumber.map fun p => (p.2.2, p.1)
  ids : (ps.map fun p => p.2.2.id).Nodup
  old : ∀ p ∈ ps, p.2.2.id < l.book.nextId
  placed : ∀ a ∈ l.book.addresses, ∃ number, (number, a) ∈ ps

section Numbered

variable {l l' : Live β} {ps : List (Nat × String × Key)} {h : List Entry} {e : Option Entry}

theorem Fresh.numbered (fresh : l.Fresh) : Numbered l [] where
  wellFormed := fresh.wellFormed
  byNumber := fresh.byNumber
  byKey := by simp [fresh.byKey, fresh.byNumber]
  ids := List.nodup_nil
  old := by simp
  placed := by
    intro a ha
    obtain ⟨balance, ts, opened⟩ := fresh.book
    obtain ⟨i, hi, ha⟩ := List.mem_flatMap.mp ha
    rw [opened] at hi
    simp [Instrument.addresses, (Book.mem_opening hi).1] at ha

/-- A change under which all orders and their numbers stay. -/
theorem Numbered.congr (numbered : Numbered l ps) (wellFormed : l'.book.WellFormed)
    (addresses : l'.book.addresses = l.book.addresses) (nextId : l'.book.nextId = l.book.nextId)
    (byNumber : l'.byNumber = l.byNumber) (byKey : l'.byKey = l.byKey) : Numbered l' ps where
  wellFormed := wellFormed
  byNumber := by rw [byNumber, numbered.byNumber, addresses]
  byKey := by rw [byKey, numbered.byKey, byNumber]
  ids := numbered.ids
  old := nextId ▸ numbered.old
  placed := addresses ▸ numbered.placed

theorem Numbered.sublist (numbered : Numbered l ps) : l.byNumber.Sublist ps.reverse := by
  rw [numbered.byNumber]
  exact List.filter_sublist

theorem Numbered.numbers (numbered : Numbered l ps) (distinct : (ps.map Prod.fst).Nodup) :
    (l.byNumber.map Prod.fst).Nodup := by
  refine (numbered.sublist.map _).nodup ?_
  rw [List.map_reverse]
  exact List.nodup_reverse.mpr distinct

theorem Numbered.keys (numbered : Numbered l ps) : (l.byKey.map Prod.fst).Nodup := by
  rw [numbered.byKey, List.map_map]
  have ids : (l.byNumber.map fun p => p.2.2.id).Nodup := by
    refine (numbered.sublist.map _).nodup ?_
    rw [List.map_reverse]
    exact List.nodup_reverse.mpr numbered.ids
  apply List.Nodup.of_map Key.id
  rw [List.map_map]
  exact ids

theorem Numbered.mem (numbered : Numbered l ps) {p : Nat × String × Key} :
    p ∈ l.byNumber ↔ p ∈ ps ∧ (l.book.order? p.2.1 p.2.2).isSome := by
  rw [numbered.byNumber, List.mem_filter, List.mem_reverse, decide_eq_true_iff,
    Book.mem_addresses numbered.wellFormed]

/-- The two passes of pruning forget the same orders. -/
theorem Numbered.turn (numbered : Numbered l ps) (distinct : (ps.map Prod.fst).Nodup) (tick : Nat) :
    Numbered (l.turn tick) ps where
  wellFormed := numbered.wellFormed.sweep.congr rfl le_rfl
  byNumber := by
    change List.filter _ l.byNumber = _
    rw [numbered.byNumber, List.filter_filter]
    refine List.filter_congr ?_
    rintro ⟨number, code, key⟩ -
    have resting := Book.mem_addresses (a := (code, key)) numbered.wellFormed.sweep
    rw [Bool.eq_iff_iff, Bool.and_eq_true, decide_eq_true_iff, decide_eq_true_iff]
    change (l.book.sweep.order? code key).isSome = true ∧ _ ↔ (code, key) ∈ l.book.sweep.addresses
    rw [resting]
    exact ⟨And.left, fun kept => ⟨kept, Book.mem_of_mem_sweep (resting.mpr kept)⟩⟩
  byKey := by
    change List.filter _ l.byKey = List.map _ (List.filter _ l.byNumber)
    rw [numbered.byKey, List.filter_map]
    congr 1
    refine List.filter_congr fun p hp => ?_
    exact Keyed.isSome_lookup_filter (numbered.numbers distinct) hp
  ids := numbered.ids
  old := numbered.old
  placed := fun a ha => numbered.placed a (Book.mem_of_mem_sweep ha)

/-- A new order has a new key, and if its number is new too, nothing is overwritten. -/
theorem Numbered.enter {number : Nat} {code : String} {i : Instrument} {side : Side}
    {price qty : Int} {p : Posted Key} (numbered : Numbered l ps)
    (fresh : ∀ q ∈ ps, q.1 ≠ number) (found : l.book.find? code = some i)
    (ok : l.book.insert code side price qty = .ok p) :
    Numbered (l.enter number code p) (ps ++ [(number, code, ⟨price, l.book.nextId⟩)]) := by
  have hb := numbered.wellFormed
  have answer : p.answer = ⟨price, l.book.nextId⟩ := by
    simp only [Book.insert, found, Except.ok.injEq] at ok
    rw [← ok]
  have nextId : p.book.nextId = l.book.nextId + 1 := by rw [Book.insert_eq_ok found ok]
  have addresses : ∀ a, a ∈ p.book.addresses ↔ _ := fun a => Book.mem_addresses_insert hb found ok
  have newKey : ∀ q ∈ ps, q.2.2 ≠ ⟨price, l.book.nextId⟩ := by
    intro q hq same
    have := numbered.old q hq
    rw [same] at this
    exact lt_irrefl _ this
  have byNumber : (l.enter number code p).byNumber
      = (number, code, ⟨price, l.book.nextId⟩) :: l.byNumber := by
    have kept : l.byNumber.filter (·.1 != number) = l.byNumber := by
      refine List.filter_eq_self.mpr fun q hq => ?_
      simpa using fresh q (numbered.mem.mp hq).1
    simp only [Live.enter, kept, answer]
  have byKey : (l.enter number code p).byKey = (⟨price, l.book.nextId⟩, number) :: l.byKey := by
    have kept : l.byKey.filter (·.1 != ⟨price, l.book.nextId⟩) = l.byKey := by
      refine List.filter_eq_self.mpr fun k hk => ?_
      rw [numbered.byKey] at hk
      obtain ⟨q, hq, rfl⟩ := List.mem_map.mp hk
      simpa using newKey q (numbered.mem.mp hq).1
    simp only [Live.enter, answer, kept]
  refine ⟨(Book.Step.place found ok).wellFormed hb, ?_, ?_, ?_, ?_, ?_⟩
  · have here : (code, ⟨price, l.book.nextId⟩) ∈ (l.enter number code p).book.addresses :=
      (addresses _).mpr (.inl rfl)
    rw [byNumber, List.reverse_append, numbered.byNumber]
    change _ = List.filter _ (_ :: ps.reverse)
    rw [List.filter_cons_of_pos (by simpa using here)]
    congr 1
    refine List.filter_congr fun q hq => ?_
    have other : q.2 ≠ (code, ⟨price, l.book.nextId⟩) := fun same =>
      newKey q (List.mem_reverse.mp hq) (congrArg Prod.snd same)
    change _ = decide (q.2 ∈ p.book.addresses)
    simp only [addresses, other, false_or]
  · rw [byKey, byNumber, numbered.byKey]
    rfl
  · rw [List.map_append, List.nodup_append]
    refine ⟨numbered.ids, List.nodup_singleton _, ?_⟩
    simp only [List.mem_map, List.map_cons, List.map_nil, List.mem_singleton]
    rintro _ ⟨q, hq, rfl⟩ _ rfl
    exact (numbered.old q hq).ne
  · have raised : (l.enter number code p).book.nextId = l.book.nextId + 1 := nextId
    rw [raised]
    refine List.forall_mem_append.mpr ⟨fun q hq => ?_, by simp⟩
    exact (numbered.old q hq).trans (Nat.lt_succ_self _)
  · intro a ha
    rcases (addresses a).mp ha with rfl | ha
    · exact ⟨number, List.mem_append_right _ List.mem_cons_self⟩
    · obtain ⟨n, hn⟩ := numbered.placed a ha
      exact ⟨n, List.mem_append_left _ hn⟩

theorem Move.numbered (move : Move l e l') (numbered : Numbered l ps)
    (distinct : ((ps ++ e.toList.filterMap Entry.placement?).map Prod.fst).Nodup) :
    Numbered l' (ps ++ e.toList.filterMap Entry.placement?) := by
  have hb := numbered.wellFormed
  cases move with
  | rest account byNumber byKey =>
    rw [Option.toList_none, List.filterMap_nil, List.append_nil]
    exact numbered.congr (hb.of_account account) (Book.addresses_of_account account)
      (Book.nextId_of_account account) byNumber byKey
  | turn tick =>
    rw [Option.toList_none, List.filterMap_nil, List.append_nil] at distinct ⊢
    exact numbered.turn distinct tick
  | @placed _ number code i _ _ _ _ found _ _ _ ok =>
    obtain rfl := Book.code_of_find? found
    rw [List.map_append, List.nodup_append] at distinct
    have fresh : ∀ q ∈ ps, q.1 ≠ number := fun q hq =>
      distinct.2.2 q.1 (List.mem_map_of_mem hq) number List.mem_cons_self
    exact numbered.enter fresh found ok
  | asked => exact (List.append_nil ps).symm ▸ numbered
  | unnumbered => exact (List.append_nil ps).symm ▸ numbered
  | booked _ step concerns =>
    obtain ⟨addresses, nextId⟩ := step.addresses hb concerns
    exact (List.append_nil ps).symm ▸
      numbered.congr (step.wellFormed hb) addresses nextId rfl rfl

theorem Moves.numbered (moves : Moves l h l') (fresh : l.Fresh)
    (distinct : ((placements h).map Prod.fst).Nodup) : Numbered l' (placements h) := by
  induction moves with
  | refl => exact fresh.numbered
  | snoc _ move ih =>
    rw [placements, List.filterMap_append] at distinct ⊢
    have before := List.map_append ▸ distinct
    exact move.numbered (ih (List.nodup_append.mp before).1) distinct

end Numbered

/-! ## Dealings -/

/-- Whether a dealing was about the order that was placed under its number. -/
def Entry.Addressed (ps : List (Nat × String × Key)) : Entry → Prop
  | .placed .. => True
  | .asked _ number code key _ => (number, code, key) ∈ ps
  | .unnumbered .. => False
  | .booked number e => ∃ code key, (number, code, key) ∈ ps ∧ e.Concerns code key

section Dealings

variable {l l' : Live β} {ps : List (Nat × String × Key)} {h : List Entry} {e : Entry}
  {number : Nat} {code : String} {key : Key}

theorem Numbered.lookup_byNumber (numbered : Numbered l ps) (distinct : (ps.map Prod.fst).Nodup) :
    l.byNumber.lookup number = some (code, key)
      ↔ (number, code, key) ∈ ps ∧ (l.book.order? code key).isSome := by
  rw [Keyed.lookup_eq_some (numbered.numbers distinct), numbered.mem]

theorem Numbered.lookup_byKey (numbered : Numbered l ps) :
    l.byKey.lookup key = some number
      ↔ ∃ code, (number, code, key) ∈ ps ∧ (l.book.order? code key).isSome := by
  rw [Keyed.lookup_eq_some numbered.keys, numbered.byKey, List.mem_map]
  constructor
  · rintro ⟨⟨n, code, k⟩, known, eq⟩
    obtain ⟨rfl, rfl⟩ := Prod.mk.inj eq
    exact ⟨code, numbered.mem.mp known⟩
  · rintro ⟨code, known⟩
    exact ⟨(number, code, key), numbered.mem.mpr known, rfl⟩

/-- An order of the book goes by the number that it was placed under. -/
theorem Numbered.exists_number (numbered : Numbered l ps)
    (resting : (l.book.order? code key).isSome) :
    ∃ number, (number, code, key) ∈ ps ∧ l.byKey.lookup key = some number := by
  have here : (code, key) ∈ l.book.addresses := (Book.mem_addresses numbered.wellFormed).mpr resting
  obtain ⟨number, placed⟩ := numbered.placed (code, key) here
  exact ⟨number, placed, numbered.lookup_byKey.mpr ⟨code, placed, resting⟩⟩

theorem Entry.Addressed.mono {ps' : List (Nat × String × Key)} (addressed : e.Addressed ps)
    (sub : ps ⊆ ps') : e.Addressed ps' := by
  cases e with
  | placed => trivial
  | asked => exact sub addressed
  | unnumbered => exact addressed
  | booked =>
    obtain ⟨code, key, placed, concerns⟩ := addressed
    exact ⟨code, key, sub placed, concerns⟩

theorem Move.addressed (move : Move l (some e) l') (numbered : Numbered l ps)
    (distinct : (ps.map Prod.fst).Nodup) : e.Addressed ps := by
  cases move with
  | placed => trivial
  | asked resting known =>
    obtain ⟨number, placed, known'⟩ := numbered.exists_number (Option.isSome_of_eq_some resting)
    obtain rfl := Option.some.inj (known.symm.trans known')
    exact placed
  | unnumbered resting unknown =>
    obtain ⟨number, -, known⟩ := numbered.exists_number (Option.isSome_of_eq_some resting)
    cases unknown.symm.trans known
  | booked known _ concerns =>
    exact ⟨_, _, ((numbered.lookup_byNumber distinct).mp known).1, concerns⟩

theorem Moves.addressed (moves : Moves l h l') (fresh : l.Fresh)
    (distinct : ((placements h).map Prod.fst).Nodup) : ∀ e ∈ h, e.Addressed (placements h) := by
  induction moves with
  | refl => simp
  | @snoc _ _ h e moves move ih =>
    have parts : placements (h ++ e.toList) = placements h ++ placements e.toList :=
      List.filterMap_append
    rw [parts] at distinct ⊢
    have before : ((placements h).map Prod.fst).Nodup := by
      rw [List.map_append] at distinct
      exact (List.nodup_append.mp distinct).1
    have sub := List.subset_append_left (placements h) (placements e.toList)
    refine List.forall_mem_append.mpr ⟨fun x hx => (ih before x hx).mono sub, fun x hx => ?_⟩
    obtain rfl := Option.mem_toList.mp hx
    exact (move.addressed (moves.numbered fresh before) before).mono sub

/-! ## Exactness -/

/-- The maps of a broker are inverse to each other and exactly about the orders in the book,
all cancels can be sent, and reports reach the order they are about if it is still there. -/
structure Exact [Brokerage β] (l : Live β) (ps : List (Nat × String × Key)) : Prop where
  ids : (l.book.instruments.flatMap fun i => i.orders.map Order.id).Nodup
  inverse : ∀ number key, (∃ code, l.byNumber.lookup number = some (code, key))
    ↔ l.byKey.lookup key = some number
  named : ∀ number code key, l.byNumber.lookup number = some (code, key) →
    (l.book.order? code key).isSome
  numbered : ∀ code key, (l.book.order? code key).isSome →
    ∃ number, l.byNumber.lookup number = some (code, key)
  /-- A cancel is asked for under the number of its order, unless the quota is used up. -/
  sendable : ∀ r code key qty, .cancel code key qty ∈ (l.book.allot r).allotment.operations →
    ∃ number, l.byKey.lookup key = some number ∧ (number, code, key) ∈ ps
      ∧ (∀ e, l.gate.acquire.result = .error e →
          l.cancel code key qty = .fail e { l with gate := l.gate.acquire.state })
      ∧ (l.gate.acquire.result = .ok () → l.cancel code key qty
          = ⟨(Brokerage.cancel l.brokerage number code qty).1,
              { l with
                gate := l.gate.acquire.state
                brokerage := (Brokerage.cancel l.brokerage number code qty).2 }, []⟩)
  /-- A fill or a cancel is booked on the order that was placed under its number. -/
  reached : ∀ number code key, (number, code, key) ∈ ps → (l.book.order? code key).isSome →
    (∀ print, (l.handle (.fill number print)).state
      = { l with book := l.book.call (.trade code key print.price print.qty) })
    ∧ ∀ qty, (l.handle (.canceled number qty)).state
        = { l with book := l.book.call (.cancel code key qty) }
  /-- It is rejected if that order is gone, or if there never was one. -/
  rejected : ∀ number,
    (∀ code key, (number, code, key) ∈ ps → l.book.order? code key = none) →
      (∀ print, l.handle (.fill number print)
        = ⟨.ok (), l, [.eventNotApplied (.fillUnknown number)]⟩)
      ∧ ∀ qty, l.handle (.canceled number qty)
          = ⟨.ok (), l, [.eventNotApplied (.cancelUnknown number)]⟩

theorem Numbered.nodup_ids (numbered : Numbered l ps) :
    (l.book.instruments.flatMap fun i => i.orders.map Order.id).Nodup := by
  have ids : (l.book.instruments.flatMap fun i => i.orders.map Order.id)
      = l.book.addresses.map fun a => a.2.id := by
    simp only [Book.addresses, Instrument.addresses, List.map_flatMap, List.map_map]
    rfl
  rw [ids]
  refine (Book.nodup_addresses numbered.wellFormed).map_on fun a ha b hb same => ?_
  obtain ⟨n, hn⟩ := numbered.placed a ha
  obtain ⟨m, hm⟩ := numbered.placed b hb
  exact congrArg Prod.snd (List.inj_on_of_nodup_map numbered.ids hn hm same)

theorem Numbered.exact [Brokerage β] (numbered : Numbered l ps)
    (distinct : (ps.map Prod.fst).Nodup) : Exact l ps where
  ids := numbered.nodup_ids
  inverse := by
    intro number key
    simp only [numbered.lookup_byNumber distinct, numbered.lookup_byKey]
  named := fun _ _ _ known => ((numbered.lookup_byNumber distinct).mp known).2
  numbered := by
    intro code key resting
    obtain ⟨number, placed, -⟩ := numbered.exists_number resting
    exact ⟨number, (numbered.lookup_byNumber distinct).mpr ⟨placed, resting⟩⟩
  sendable := by
    intro r code key qty sent
    obtain ⟨o, resting, -⟩ := (Book.sends_allot numbered.wellFormed r).admitted _ sent
    obtain ⟨number, placed, known⟩ := numbered.exists_number (Option.isSome_of_eq_some resting)
    refine ⟨number, known, placed, fun e full => ?_, fun free => ?_⟩
    · simp only [cancel, known, full]
    · simp only [cancel, known, free]
  reached := by
    intro number code key placed resting
    have known := (numbered.lookup_byNumber distinct).mpr ⟨placed, resting⟩
    refine ⟨fun print => ?_, fun qty => ?_⟩
    · have reported : l.report? (.fill number print) = some _ := congrArg (Option.map _) known
      exact handle_report reported
    · have reported : l.report? (.canceled number qty) = some _ := congrArg (Option.map _) known
      exact handle_report reported
  rejected := by
    intro number gone
    have unknown : l.byNumber.lookup number = none := by
      rw [Option.eq_none_iff_forall_ne_some]
      rintro ⟨code, key⟩ known
      obtain ⟨placed, resting⟩ := (numbered.lookup_byNumber distinct).mp known
      rw [gone code key placed] at resting
      cases resting
    exact ⟨fun _ => by simp only [handle, bookAfter, unknown],
      fun _ => by simp only [handle, bookAfter, unknown]⟩

end Dealings

/-- From the connection on, if the brokerage takes no two orders under one number, the
numbers stay exact, and all dealings of the run were about the order of their number: none
was lost for want of one. These dealings are what the brokerage itself has written down, order
by order that it took and cancel by cancel that it was asked for. -/
theorem run_exact {β : Type} [Brokerage β] {brokerage : β} {gate : Gate} {ts : List Tracked}
    {limit : Nat} {l : Live β} (connected : (connect brokerage gate ts limit).result = .ok l)
    (inputs : List (Input β)) (distinct : ((placements (l.history inputs)).map Prod.fst).Nodup) :
    Exact (l.run inputs) (placements (l.history inputs))
      ∧ (∀ e ∈ l.history inputs, e.Addressed (placements (l.history inputs)))
      ∧ l.deals inputs = (l.history inputs).filterMap Entry.deal? := by
  have fresh := fresh_connect connected
  have moves := moves_run fresh.wellFormed inputs
  exact ⟨(moves.numbered fresh distinct).exact distinct, moves.addressed fresh distinct,
    deals_eq fresh.wellFormed inputs⟩

/-- Two orders are placed, one is filled and swept, the cancel of the other is asked for. -/
def served : List (Input ScriptedBrokerage) :=
  [.advance ⟨1, 32410, 50000⟩, .apply "b A 1000 3\nb B 1000 2", .send (.fill 101 ⟨990, 3⟩),
    .advance ⟨2, 32420, 50000⟩, .apply "cb B 1000 0", .advance ⟨3, 32430, 50000⟩]

/-- The number of the order that was swept is forgotten. -/
theorem run_exact_served :
    ∃ l, (connect (scripted 100000 []) (Gate.ofQuota 10 0) [⟨"A", .equity, 0⟩, ⟨"B", .equity, 0⟩]
        8).result = .ok l
      ∧ placements (l.history served) = [(101, "A", ⟨1000, 1⟩), (102, "B", ⟨1000, 2⟩)]
      ∧ (l.run served).byNumber = [(102, "B", ⟨1000, 2⟩)]
      ∧ (l.run served).brokerage.calls = [.balance, .holdings, .place "A" .buy 1000 3,
        .place "B" .buy 1000 2, .cancel 102 "B" 2]
      ∧ l.deals served
        = [.order 101 "A" .buy 1000 3, .order 102 "B" .buy 1000 2, .cancel 102 "B" 2]
      ∧ Exact (l.run served) (placements (l.history served)) := by
  have connected : (connect (scripted 100000 []) (Gate.ofQuota 10 0)
      [⟨"A", .equity, 0⟩, ⟨"B", .equity, 0⟩] 8).result = .ok _ := rfl
  obtain ⟨stays, -, written⟩ := run_exact connected served (by decide +kernel)
  refine ⟨_, rfl, by decide +kernel, by decide +kernel, by decide +kernel, ?_, stays⟩
  exact written.trans (by decide +kernel)

end Live

end TradingDesk
