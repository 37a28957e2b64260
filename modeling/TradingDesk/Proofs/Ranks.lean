-- SUMMARY: When my orders stay in line, so that no print of a session fills more than its quantity.
import TradingDesk.Proofs.Overfills
import TradingDesk.Proofs.Sessions

/-!
# Ranks

An order that is placed gets its place from what my earlier orders at the price still
have open, but an earlier order can have more before it than that, and then both wait
for the same flow. As long as every order joins behind my earlier ones, each order of a
level stands before all later ones: flow and quotes keep it so, and so does a cancel,
which closes the ranks behind it.
-/

namespace TradingDesk

/-! ## Closing ranks -/

theorem Order.ahead_shrink {kind : Kind} {o : Order} {n : Int} : (o.shrink kind n).ahead = o.ahead :=
  congrArg₂ (· + ·) others_shrink mine_shrink

theorem Order.mine_closeUp {o : Order} {n : Int} (nonneg : 0 ≤ n) :
    { o with aheadMine := max (o.aheadMine - n) 0 : Order }.mine = max (o.mine - n) 0 := by
  simp only [mine]
  omega

namespace Order.StandsBefore

variable {o p k o' p' k' : Order} {n : Int}

/-- Something leaves an order between the two. -/
theorem closeBetween (hok : o.StandsBefore k) (hkp : k.StandsBefore p)
    (le : n ≤ k.qty) (mine : p'.mine = max (p.mine - n) 0) (others : p'.others = p.others) :
    o.StandsBefore p' := by
  obtain ⟨okMine, okReach⟩ := hok
  obtain ⟨kpMine, kpReach⟩ := hkp
  simp only [Order.reach, ahead] at okReach kpReach
  constructor
  · omega
  · simp only [Order.reach, ahead]
    omega

/-- Something leaves the first of the two. -/
theorem closeFirst (hkp : k.StandsBefore p) (le : n ≤ k.qty) (kMine : k'.mine = k.mine)
    (kOthers : k'.others = k.others) (qty : k'.qty = k.qty - n)
    (mine : p'.mine = max (p.mine - n) 0) (others : p'.others = p.others) : k'.StandsBefore p' := by
  obtain ⟨kpMine, kpReach⟩ := hkp
  simp only [Order.reach, ahead] at kpReach
  constructor
  · omega
  · simp only [Order.reach, ahead]
    omega

/-- Something leaves an order before both. -/
theorem closeBoth (hko : k.StandsBefore o) (hop : o.StandsBefore p) (le : n ≤ k.qty)
    (oMine : o'.mine = max (o.mine - n) 0) (oOthers : o'.others = o.others) (qty : o'.qty = o.qty)
    (mine : p'.mine = max (p.mine - n) 0) (others : p'.others = p.others) : o'.StandsBefore p' := by
  obtain ⟨koMine, koReach⟩ := hko
  obtain ⟨opMine, opReach⟩ := hop
  have := @mine_nonneg k
  have := @mine_nonneg o
  simp only [Order.reach, ahead] at koReach opReach
  constructor
  · omega
  · simp only [Order.reach, ahead]
    omega

end Order.StandsBefore

namespace Instrument

variable {i : Instrument} {o p k : Order} {key : Key} {side : Side} {n : Int}

/-- Each order of a level stands before the later ones. -/
def InLine (i : Instrument) : Prop := i.EachPair Order.StandsBefore

theorem InLine.apart (h : i.InLine) : i.EachPair Order.Apart :=
  fun o ho p hp hside hprice older => .inl (h o ho p hp hside hprice older)

/-- The order after a cancel of `n` of the order `k` at its price. -/
def closed (kind : Kind) (k : Order) (n : Int) (o : Order) : Order :=
  if o.key = k.key then o.shrink kind n
  else if o.side = k.side ∧ o.price = k.price ∧ k.id < o.id then
    { o with aheadMine := max (o.aheadMine - n) 0 }
  else o

theorem closeRanks_shrinkOrder :
    ((i.shrinkOrder k.key n).closeRanks k.side k.key n).orders = i.orders.map (closed i.kind k n) := by
  simp only [closeRanks, shrinkOrder, Orders.update, List.map_map]
  apply List.map_congr_left
  intro o ho
  simp only [Function.comp_apply, closed, beq_iff_eq]
  by_cases here : o.key = k.key
  · have notBehind : ¬k.key.id < o.id := (congrArg Key.id here).le.not_gt
    rw [if_pos here, if_pos here]
    exact if_neg (by simp [notBehind])
  · simp only [if_neg here, Bool.and_eq_true, beq_iff_eq, decide_eq_true_eq]
    refine if_congr ?_ rfl rfl
    simp only [Order.key]
    tauto

section Closed

variable {kind : Kind}

theorem closed_key : (closed kind k n o).key = o.key := by
  unfold closed
  split
  · exact Order.key_shrink
  · split <;> rfl

theorem closed_side : (closed kind k n o).side = o.side := by
  unfold closed
  split
  · exact Order.shrink_side
  · split <;> rfl

theorem pos_of_closed (nonneg : 0 ≤ n) (live : 0 < (closed kind k n o).qty) : 0 < o.qty := by
  unfold closed at live
  split at live
  · rw [Order.shrink_qty] at live
    omega
  · split at live <;> exact live

theorem closed_self : closed kind k n k = k.shrink kind n := if_pos rfl

theorem closed_of_older (older : o.id < k.id) : closed kind k n o = o := by
  unfold closed
  rw [if_neg fun same => older.ne (congrArg Key.id same), if_neg fun behind => behind.2.2.not_gt older]

theorem closed_of_younger (hside : o.side = k.side) (hprice : o.price = k.price)
    (younger : k.id < o.id) :
    closed kind k n o = { o with aheadMine := max (o.aheadMine - n) 0 } := by
  unfold closed
  rw [if_neg fun same => younger.ne' (congrArg Key.id same), if_pos ⟨hside, hprice, younger⟩]

theorem closed_of_elsewhere (ne : o ≠ k → o.key ≠ k.key)
    (elsewhere : ¬(o.side = k.side ∧ o.price = k.price)) :
    closed kind k n o = o := by
  have other : o ≠ k := fun same => elsewhere ⟨congrArg Order.side same, congrArg Order.price same⟩
  unfold closed
  rw [if_neg (ne other), if_neg fun behind => elsewhere ⟨behind.1, behind.2.1⟩]

end Closed

/-- A cancel keeps my orders in line. -/
theorem InLine.cancel (h : i.InLine) (sorted : Orders.Sorted i.orders) (hk : k ∈ i.liveOrders)
    (nonneg : 0 ≤ n) (le : n ≤ k.qty) :
    ((i.shrinkOrder k.key n).closeRanks k.side k.key n).InLine := by
  have after := closeRanks_shrinkOrder (i := i) (k := k) (n := n)
  have same : ∀ q ∈ i.liveOrders, q.key = k.key → q = k := fun q hq keys =>
    sorted.eq_of_key (mem_liveOrders.mp hq).1 (mem_liveOrders.mp hk).1 keys
  intro o' ho' p' hp' hside hprice older
  obtain ⟨memO, liveO⟩ := mem_liveOrders.mp ho'
  obtain ⟨memP, liveP⟩ := mem_liveOrders.mp hp'
  rw [after] at memO memP
  obtain ⟨o, ho, rfl⟩ := List.mem_map.mp memO
  obtain ⟨p, hp, rfl⟩ := List.mem_map.mp memP
  have ho : o ∈ i.liveOrders := mem_liveOrders.mpr ⟨ho, pos_of_closed nonneg liveO⟩
  have hp : p ∈ i.liveOrders := mem_liveOrders.mpr ⟨hp, pos_of_closed nonneg liveP⟩
  have prices : ∀ q, (closed i.kind k n q).price = q.price := fun q => congrArg Key.price closed_key
  have ids : ∀ q, (closed i.kind k n q).id = q.id := fun q => congrArg Key.id closed_key
  rw [closed_side, closed_side] at hside
  rw [prices, prices] at hprice
  rw [ids, ids] at older
  have before := h o ho p hp hside hprice older
  by_cases level : o.side = k.side ∧ o.price = k.price
  · obtain ⟨sideO, priceO⟩ := level
    have sideP : p.side = k.side := hside.symm.trans sideO
    have priceP : p.price = k.price := hprice.symm.trans priceO
    rcases lt_trichotomy o.id k.id with olderO | here | youngerO
    · rw [closed_of_older olderO]
      have beforeK := h o ho k hk sideO priceO olderO
      rcases lt_trichotomy p.id k.id with olderP | here | youngerP
      · rw [closed_of_older olderP]
        exact before
      · obtain rfl := same p hp (congrArg₂ Key.mk priceP here)
        rw [closed_self]
        exact ⟨before.mine.trans_eq Order.mine_shrink.symm,
          before.reach.trans_eq Order.ahead_shrink.symm⟩
      · have afterK := h k hk p hp sideP.symm priceP.symm youngerP
        rw [closed_of_younger sideP priceP youngerP]
        exact beforeK.closeBetween afterK le (Order.mine_closeUp nonneg) rfl
    · obtain rfl := same o ho (congrArg₂ Key.mk priceO here)
      rw [closed_self, closed_of_younger sideP priceP older]
      exact before.closeFirst le Order.mine_shrink Order.others_shrink Order.shrink_qty
        (Order.mine_closeUp nonneg) rfl
    · have beforeO := h k hk o ho sideO.symm priceO.symm youngerO
      rw [closed_of_younger sideO priceO youngerO, closed_of_younger sideP priceP (youngerO.trans older)]
      exact beforeO.closeBoth before le (Order.mine_closeUp nonneg) rfl rfl
        (Order.mine_closeUp nonneg) rfl
  · have elsewhere : ¬(p.side = k.side ∧ p.price = k.price) := by
      rwa [← hside, ← hprice]
    rw [closed_of_elsewhere (fun ne keys => ne (same o ho keys)) level,
      closed_of_elsewhere (fun ne keys => ne (same p hp keys)) elsewhere]
    exact before

/-! ## Joining a level -/

/-- The order with the place that it gets when it joins. -/
def joined (i : Instrument) (o : Order) : Order :=
  { o with aheadOthers := i.queueOfOthers o.side o.price, aheadMine := i.queueOfMine o.side o.key }

theorem queueOfMine_place {id : Nat} {price qty : Int} (ids : ∀ o ∈ i.orders, o.id < id) :
    (i.place id side price qty).queueOfMine side ⟨price, id⟩ = i.queueOfMine side ⟨price, id⟩ := by
  have perm := Orders.insert_perm (fresh_of_ids ids side price qty)
  simp only [queueOfMine, sumOf_eq, place_orders]
  rw [((perm.filter _).map _).sum_eq, List.filter_cons_of_neg (by simp [newOrder])]

/-- A new order has the place of one that joins, and the others keep theirs. -/
theorem mem_place_stamp {id : Nat} {price qty : Int} (ids : ∀ o ∈ i.orders, o.id < id)
    (mem : o ∈ ((i.place id side price qty).stamp side ⟨price, id⟩).orders) :
    o = i.joined (i.newOrder id side price qty) ∨ o ∈ i.orders := by
  obtain ⟨q, hq, rfl⟩ := List.mem_map.mp mem
  rcases (Orders.mem_insert (fresh_of_ids ids side price qty)).mp hq with rfl | hq
  · left
    rw [if_pos (by exact beq_self_eq_true _), queueOfMine_place ids]
    rfl
  · right
    have other : q.key ≠ ⟨price, id⟩ := fresh_of_ids ids side price qty q hq
    rwa [if_neg (by simpa using other)]

/-- An order that joins behind my others keeps them in line. -/
theorem InLine.place {id : Nat} {price qty : Int} (h : i.InLine) (ids : ∀ o ∈ i.orders, o.id < id)
    (joins : ∀ o ∈ i.liveOrders, o.side = side → o.price = price →
      o.StandsBefore (i.joined (i.newOrder id side price qty))) :
    ((i.place id side price qty).stamp side ⟨price, id⟩).InLine := by
  intro o ho p hp hside hprice older
  obtain ⟨memO, liveO⟩ := mem_liveOrders.mp ho
  obtain ⟨memP, liveP⟩ := mem_liveOrders.mp hp
  rcases mem_place_stamp ids memO with rfl | memO <;> rcases mem_place_stamp ids memP with rfl | memP
  · exact absurd older (lt_irrefl _)
  · exact absurd older (ids p memP).not_gt
  · exact joins o (mem_liveOrders.mpr ⟨memO, liveO⟩) hside hprice
  · exact h o (mem_liveOrders.mpr ⟨memO, liveO⟩) p (mem_liveOrders.mpr ⟨memP, liveP⟩) hside hprice older

end Instrument

/-- Whether an order that is placed stands behind all that I have at its price. -/
def Event.JoinsBehind : Event → Prop
  | .placed before order =>
    ∀ o ∈ before.liveOrders, o.side = order.side → o.price = order.price →
      o.StandsBefore (before.joined order)
  | .filled .. => True
  | .canceled .. => True

instance : DecidablePred Event.JoinsBehind
  | .placed before order => by unfold Event.JoinsBehind; infer_instance
  | .filled .. => .isTrue trivial
  | .canceled .. => .isTrue trivial

namespace Book

variable {b b' : Book} {history events : List Event} {i j : Instrument}

/-- The orders of all instruments are in line. -/
def InLine (b : Book) : Prop := ∀ i ∈ b.instruments, i.InLine

theorem InLine.set (h : b.InLine) (hi : i.InLine) : (b.set i).InLine := forall_set h hi

theorem inLine_opening (balance : Int) (ts : List Tracked) : (opening balance ts).InLine := by
  intro i hi o ho
  have mem := (Instrument.mem_liveOrders.mp ho).1
  rw [(mem_opening hi).1] at mem
  cases mem

/-- A move keeps the orders in line, if it is not the placement of one that is not behind. -/
theorem Move.inLine {cause : Cause} (move : Move b cause events b') (hb : b.WellFormed) (h : b.InLine)
    (joins : ∀ e ∈ events, e.JoinsBehind) : b'.InLine := by
  cases move with
  | quiet _ rest =>
    intro i hi
    obtain ⟨j, hj, same⟩ := exists_of_quiet rest hi
    have line := h j hj
    rw [same]
    exact line
  | sweep =>
    intro i hi
    obtain ⟨j, hj, rfl⟩ := List.mem_map.mp hi
    have line := h j hj
    exact fun o ho p hp => line o (List.mem_of_mem_filter ho) p (List.mem_of_mem_filter hp)
  | @tick code i found depth prints =>
    have mem := mem_of_find? found
    have evenly := (Instrument.marketRun_matchTick depth prints).evenly (hb.sorted i mem)
    have line : Instrument.InLine _ := evenly.eachPair Order.stable_standsBefore (h i mem)
    intro j hj
    rw [instruments_postAll] at hj
    exact h.set line j hj
  | @place code i side price qty p found _ fits placed =>
    have mem := mem_of_find? found
    have line : ((i.place b.nextId side price qty).stamp side ⟨price, b.nextId⟩).InLine :=
      (h i mem).place (hb.ids i mem) (joins _ List.mem_cons_self)
    rw [placed_eq found placed]
    exact h.set line
  | @cancel code i i' key o qty w found resting withdrawn =>
    have mem := mem_of_find? found
    obtain ⟨pos, all, -, rfl⟩ := Instrument.withdraw_eq_some withdrawn
    obtain rfl := Orders.key_of_find? resting
    have le : w.qty ≤ o.qty := all ▸ min_le_right _ _
    have live := Instrument.mem_liveOrders.mpr ⟨Orders.mem_of_find? resting, pos.trans_le le⟩
    have line := (h i mem).cancel (hb.sorted i mem) live pos.le le
    exact h.set line

theorem MovesBy.inLine {P : Cause → Prop} (moves : MovesBy P b history b') (sane : b.Sane) (h : b.InLine)
    (joins : ∀ e ∈ history, e.JoinsBehind) : b'.InLine := by
  induction moves with
  | refl => exact h
  | snoc moves move _ ih =>
    rw [List.forall_mem_append] at joins
    exact move.inLine (moves.sane sane).wellFormed (ih joins.1) joins.2

end Book

namespace Session

/-- In a session no print and no depletion ever fills more than its quantity as long as every
order joins behind all of mine at its price. In a state that it reaches, none ever will if
the orders of its levels are apart, and if they are not, ticks can lead to one that does.
Of sells at a price of one, below which nothing is bid, the latter is not claimed. -/
theorem run_bounded {broker : Simulation} {clock : SessionClock} {inputs : List Input}
    {balance : Int} {ts : List Tracked} (opened : broker.book = Book.opening balance ts) :
    let s := (start broker clock).run inputs
    ((∀ e ∈ (start broker clock).history inputs, e.JoinsBehind) →
        ∀ i ∈ s.broker.book.instruments, ∀ i', i.MarketRun i' → i'.Bounded)
      ∧ ∀ i ∈ s.broker.book.instruments,
        (i.EachPair Order.Apart → ∀ i', i.MarketRun i' → i'.Bounded)
          ∧ ((∀ o ∈ i.liveOrders, o.side = .sell → 1 < o.price) →
              (∀ i', i.Ticks i' → i'.Bounded) → i.EachPair Order.Apart) := by
  have sane : (start broker clock).broker.book.Sane := sane_start opened
  have moves : Book.Moves _ ((start broker clock).history inputs) _ := moves_run sane
  have after := moves.sane sane
  refine ⟨fun joins i hi i' run => ?_, fun i hi => ⟨fun apart i' run => ?_, fun above bounded => ?_⟩⟩
  · have opening : (start broker clock).broker.book.InLine := by
      change broker.book.InLine
      rw [opened]
      exact Book.inLine_opening balance ts
    have line := moves.inLine sane opening joins i hi
    exact run.bounded (after.wellFormed.sorted i hi) line.apart
  · exact run.bounded (after.wellFormed.sorted i hi) apart
  · obtain ⟨_, solvent⟩ := after.solvent
    refine Instrument.apart_of_bounded (after.wellFormed.sorted i hi) (fun o ho => ?_) bounded
    have pos := (solvent.funded i hi o (Instrument.mem_liveOrders.mp ho).1).price
    have above := above o ho
    refine ⟨pos, ?_⟩
    cases hside : o.side with
    | buy =>
      simp only [Side.beyond]
      omega
    | sell =>
      have := above hside
      simp only [Side.beyond]
      omega

/-- Two buys that are placed one after the other at a price stand in line. -/
theorem run_bounded_joined :
    let broker := Simulation.start (Book.opening 100000 [⟨"A", .equity, 3⟩]) [] [] 8
    let clock : SessionClock := ⟨32400, 33000, 10⟩
    let inputs : List Input := [.advance, .buildMsgOut, .applyMsgIn "b A 1000 10", .advance,
      .buildMsgOut, .applyMsgIn "b A 1000 4"]
    let s := (start broker clock).run inputs
    (s.broker.book.instruments.map fun i => i.liveOrders.length) = [2]
      ∧ ∀ i ∈ s.broker.book.instruments, ∀ i', i.MarketRun i' → i'.Bounded := by
  refine ⟨by decide +kernel, ?_⟩
  exact (run_bounded rfl).1 (by decide +kernel)

/-- A queue of twenty, of which a quote without a best bid shows only five. -/
def thinning : String :=
  "32400 A 0 0 0 0 0 0 0 0 0 0 0 10000 9990 0 0 0 0 0 0 0 0 0 0 0 0 0 0 0 0 0 0 50 20 0 0 0 0 0 0 0 0 0\n"
    ++ "32410 A 0 0 0 0 0 0 0 0 0 0 0 0 0 9990 0 0 0 0 0 0 0 0 0 0 0 0 0 0 0 0 0 0 0 5 0 0 0 0 0 0 0 0\n"

/-- The second of two buys joins behind five while the first one still waits behind twenty,
and ticks can lead from there to a print that fills more than its quantity. -/
theorem run_overfilled :
    let broker := Simulation.start (Book.opening 1000000 [⟨"A", .equity, 0⟩])
      thinning.toUTF8.toList [] 8
    let clock : SessionClock := ⟨32400, 33000, 10⟩
    let inputs : List Input := [.advance, .buildMsgOut, .applyMsgIn "b A 9990 10", .advance,
      .buildMsgOut, .applyMsgIn "b A 9990 10"]
    ∃ i ∈ ((start broker clock).run inputs).broker.book.instruments,
      ∃ i', i.Ticks i' ∧ ¬i'.Bounded := by
  intro broker clock inputs
  have overlap : ∃ i ∈ ((start broker clock).run inputs).broker.book.instruments,
      i.orders.Pairwise (fun o p => o.key.before p.key = true) ∧ ∃ o ∈ i.liveOrders,
        ∃ p ∈ i.liveOrders, p.side = o.side ∧ p.price = o.price ∧ p.key ≠ o.key
          ∧ (0 < o.price ∧ 0 < o.side.beyond o.price) ∧ ¬o.Apart p := by
    decide +kernel
  obtain ⟨i, hi, sorted, o, ho, p, hp, side, price, ne, room, overlap⟩ := overlap
  exact ⟨i, hi, Instrument.exists_overfill sorted ho hp side price ne room overlap⟩

end Session

end TradingDesk
