-- SUMMARY: Fills and cancels that fit what is open commute, amid any market data.
import TradingDesk.Proofs.Fees
import TradingDesk.Proofs.Relays

/-!
# Commuting reports

What a brokerage reports of my orders, their fills and their confirmed cancels, arrives in
no particular order. A report takes a quantity out of one order, and the cash that an order
sets free on the way depends on what has left it before. But two reports that both fit what
is open set free the same together, whichever comes first: what their parts cost, or all
that is held back if that is less or if nothing is left open. Market data changes nothing
that a report reads.
-/

namespace TradingDesk

/-! ## Two quantities of one order -/

namespace Order

variable {kind : Kind} {o : Order} {m n : Int}

/-- Two quantities that leave a buy one after the other set free what they cost, as far as
that is held back; the last one sets free all that is left. -/
theorem release_add (buy : o.side = .buy) (price : 0 ≤ o.price) (hm : 0 < m) (hn : 0 < n)
    (le : m + n ≤ o.qty) :
    o.release kind m + (o.shrink kind m).release kind n
      = if o.qty = m + n then o.escrow
        else min (kind.cost o.price m + kind.cost o.price n) o.escrow := by
  have costs := kind.cost_nonneg price hm.le
  have costs' := kind.cost_nonneg price hn.le
  have first : o.release kind m = min (kind.cost o.price m) o.escrow := if_neg (by omega)
  simp only [release, shrink_qty, shrink_price, shrink_escrow, freed, buy] at first ⊢
  rw [first]
  by_cases done : o.qty = m + n
  · rw [if_pos (by omega), if_pos done]
    omega
  · rw [if_neg (by omega), if_neg done]
    omega

theorem freed_comm (price : 0 ≤ o.price) (hm : 0 < m) (hn : 0 < n) (le : m + n ≤ o.qty) :
    o.freed kind m + (o.shrink kind m).freed kind n
      = o.freed kind n + (o.shrink kind n).freed kind m := by
  cases side : o.side with
  | buy =>
    simp only [freed, shrink_side, side]
    rw [release_add side price hm hn le, release_add side price hn hm (by omega), add_comm n m,
      add_comm (kind.cost o.price n)]
  | sell => simp only [freed, shrink_side, side]

theorem shrink_comm (price : 0 ≤ o.price) (hm : 0 < m) (hn : 0 < n) (le : m + n ≤ o.qty) :
    (o.shrink kind m).shrink kind n = (o.shrink kind n).shrink kind m := by
  have freed : o.freed kind m + _ = _ := freed_comm price hm hn le
  cases side : o.side with
  | buy =>
    simp only [Order.freed, shrink, side] at freed
    simp only [shrink, side, Order.mk.injEq, true_and, and_true]
    omega
  | sell => simp only [shrink, side, sub_right_comm]

end Order

/-- Changes of the orders of two keys commute if they do on the order that has both. -/
theorem Orders.update_comm {f g : Order → Order} {k l : Key} {os : List Order}
    (hf : ∀ o, (f o).key = o.key) (hg : ∀ o, (g o).key = o.key)
    (comm : ∀ o ∈ os, o.key = k → o.key = l → g (f o) = f (g o)) :
    update l g (update k f os) = update k f (update l g os) := by
  simp only [update, List.map_map]
  refine List.map_congr_left fun o ho => ?_
  simp only [Function.comp_apply, beq_iff_eq]
  by_cases hk : o.key = k <;> by_cases hl : o.key = l
  · simp only [if_pos hk, if_pos hl, hf, hg]
    exact comm o ho hk hl
  · simp only [if_pos hk, if_neg hl, hf]
  · simp only [if_neg hk, if_pos hl, hg]
  · simp only [if_neg hk, if_neg hl]

/-! ## Reports -/

namespace OrderReport

/-- What the idle holdings gain: the shares of a buy that is filled or of a sell that is not. -/
def idle (r : OrderReport) (side : Side) : Int :=
  match side, r.price with
  | .buy, some _ => r.qty
  | .buy, none => 0
  | .sell, some _ => 0
  | .sell, none => r.qty

/-- The fill that a report is, as far as it is recorded. -/
def fill? (r : OrderReport) (kind : Kind) (o : Order) : Option Fill :=
  r.price.map fun price => ⟨o, price, r.qty, kind.fee o.side (price * r.qty), 0, []⟩

/-- The cash that a report brings besides what the order sets free. -/
def cash (r : OrderReport) (kind : Kind) (o : Order) : Int := (r.fill? kind o).elim 0 Fill.cash

def record (r : OrderReport) (kind : Kind) (o : Order) (s : Stats) : Stats :=
  (r.fill? kind o).elim s s.record

variable {r s : OrderReport} {kind kind' : Kind} {o p : Order} {n : Int}

theorem cash_shrink : r.cash kind (o.shrink kind' n) = r.cash kind o := by
  simp only [cash, fill?, Order.shrink_side]
  cases r.price with
  | none => rfl
  | some price =>
    simp only [Option.map_some, Option.elim_some, Fill.cash, Fill.notional, Order.shrink_side]

theorem record_shrink : r.record kind (o.shrink kind' n) = r.record kind o := by
  funext stats
  simp only [record, fill?, Order.shrink_side]
  cases r.price with
  | none => rfl
  | some price => exact Stats.record_congr Order.shrink_side Order.shrink_origin rfl rfl rfl

theorem record_comm (stats : Stats) :
    s.record kind' p (r.record kind o stats) = r.record kind o (s.record kind' p stats) := by
  simp only [record]
  cases r.fill? kind o with
  | none => rfl
  | some f =>
    cases s.fill? kind' p with
    | none => rfl
    | some g => exact Stats.record_comm

end OrderReport

/-- The instrument after a report on an order of a side. -/
def Instrument.reported (i : Instrument) (r : OrderReport) (side : Side) : Instrument :=
  { i.shrinkOrder r.key r.qty with idle := i.idle + r.idle side }

namespace Instrument

variable {i : Instrument} {r s : OrderReport} {o : Order}

theorem withdraw_reported (price : r.price = none) (pos : 0 < r.qty) (le : r.qty ≤ o.qty)
    (key : o.key = r.key) :
    ∃ w, i.withdraw o r.qty = some (i.reported r o.side, w) ∧ w.release = o.freed i.kind r.qty := by
  obtain ⟨w, withdrawn, -, release⟩ := withdraw_eq (i := i) pos le
  have idle : r.idle o.side = o.returned r.qty := by
    cases side : o.side <;> simp only [OrderReport.idle, Order.returned, price, side]
  refine ⟨w, ?_, release⟩
  rw [withdrawn, Instrument.withdrawn, reported, key, idle]

theorem fill_reported {price : Int} (hprice : r.price = some price) (pos : 0 < r.qty)
    (le : r.qty ≤ o.qty) (key : o.key = r.key) :
    ∃ f, i.fill o price r.qty = some (i.reported r o.side, f)
      ∧ f.cash = o.freed i.kind r.qty + r.cash i.kind o
      ∧ ∀ stats : Stats, stats.record f = r.record i.kind o stats := by
  simp only [fill, min_eq_left le, if_neg (not_le.mpr pos), key, OrderReport.cash, OrderReport.record,
    OrderReport.fill?, hprice, Option.map_some, Option.elim_some]
  refine ⟨_, congrArg some (Prod.ext ?_ rfl), ?_, fun stats => Stats.record_congr rfl rfl rfl rfl rfl⟩
  · cases side : o.side <;> simp only [reported, shrinkOrder, OrderReport.idle, hprice, add_zero]
  · simp only [Fill.cash, Fill.notional, Order.freed]
    cases side : o.side <;> simp only <;> omega

theorem find?_reported_self {side : Side} (resting : Orders.find? r.key i.orders = some o) :
    Orders.find? r.key (i.reported r side).orders = some (o.shrink i.kind r.qty) :=
  Orders.find?_update_self (fun _ => Order.key_shrink) resting

theorem find?_reported_ne {side : Side} {key : Key} (apart : key ≠ r.key) :
    Orders.find? key (i.reported r side).orders = Orders.find? key i.orders :=
  Keyed.find?_modify_ne (fun _ hk => Order.key_shrink.trans hk) apart

/-- Two reports on one instrument leave it the same, whichever comes first. -/
theorem reported_comm (comm : ∀ x ∈ i.orders, x.key = r.key → x.key = s.key →
      (x.shrink i.kind r.qty).shrink i.kind s.qty = (x.shrink i.kind s.qty).shrink i.kind r.qty)
    (side side' : Side) :
    (i.reported r side).reported s side' = (i.reported s side').reported r side := by
  have orders := Orders.update_comm (fun _ => Order.key_shrink) (fun _ => Order.key_shrink) comm
  simp only [reported, shrinkOrder, orders, add_right_comm]

end Instrument

namespace Book

variable {b : Book} {r s : OrderReport} {i j : Instrument} {o p : Order}

/-- A report of an order that has enough open for it. -/
structure Meets (b : Book) (r : OrderReport) (i : Instrument) (o : Order) : Prop where
  found : b.find? r.code = some i
  resting : Orders.find? r.key i.orders = some o
  pos : 0 < r.qty
  le : r.qty ≤ o.qty

/-- A change of the cash and of the statistics in between makes no difference to the instruments. -/
theorem set_congr {c : Book} {balance : Int} {stats : Stats} (h : (b.set i).set j = c) :
    { b.set i with balance, stats }.set j = { c with balance, stats } := by
  rw [← h]
  rfl

theorem Meets.call (meets : b.Meets r i o) : b.call r.command =
    { b.set (i.reported r o.side) with
      balance := b.balance + (o.freed i.kind r.qty + r.cash i.kind o)
      stats := r.record i.kind o b.stats } := by
  obtain ⟨found, resting, pos, le⟩ := meets
  have key := Orders.key_of_find? resting
  cases hprice : r.price with
  | none =>
    obtain ⟨w, withdrawn, release⟩ := Instrument.withdraw_reported (i := i) hprice pos le key
    simp only [OrderReport.command, hprice, Book.call, cancel, found, resting, withdrawn, release,
      OrderReport.cash, OrderReport.record, OrderReport.fill?, Option.map_none, Option.elim_none,
      add_zero]
    rfl
  | some price =>
    obtain ⟨f, filled, cash, record⟩ := Instrument.fill_reported (i := i) hprice pos le key
    simp only [OrderReport.command, hprice, Book.call, trade, found, resting, filled, post, cash]
    rw [← record]
    rfl

theorem set_comm (apart : i.code ≠ j.code) : (b.set i).set j = (b.set j).set i := by
  simp only [set, List.map_map]
  congr 1
  refine List.map_congr_left fun k _ => ?_
  simp only [Function.comp_apply, beq_iff_eq]
  by_cases hi : k.code = i.code
  · have other : k.code ≠ j.code := hi ▸ apart
    simp only [if_pos hi, if_neg other, apart, if_false]
  · by_cases hj : k.code = j.code
    · simp only [if_pos hj, if_neg hi, apart.symm, if_false]
    · simp only [if_neg hi, if_neg hj]

theorem Meets.find?_call (meets : b.Meets r i o) (code : String) :
    (b.call r.command).find? code
      = if code = r.code then some (i.reported r o.side) else b.find? code := by
  have hcode := code_of_find? meets.found
  rw [meets.call]
  split
  next here =>
    rw [here]
    exact find?_set_self (i := i.reported r o.side) meets.found rfl
  next other => exact find?_set_ne fun same => other (same.trans hcode)

/-- A report of another instrument finds it as it was. -/
theorem Meets.after_other (meets : b.Meets r i o) (other : b.Meets s j p) (apart : s.code ≠ r.code) :
    (b.call r.command).Meets s j p where
  found := by
    rw [meets.find?_call, if_neg apart]
    exact other.found
  resting := other.resting
  pos := other.pos
  le := other.le

/-- A report of another order of the instrument finds it as it was. -/
theorem Meets.after_beside (meets : b.Meets r i o) (other : b.Meets s i p) (same : s.code = r.code)
    (apart : s.key ≠ r.key) : (b.call r.command).Meets s (i.reported r o.side) p where
  found := by rw [meets.find?_call, if_pos same]
  resting := (Instrument.find?_reported_ne apart).trans other.resting
  pos := other.pos
  le := other.le

/-- A report of the same order finds what is left of it. -/
theorem Meets.after_same (meets : b.Meets r i o) (again : b.Meets s i o) (same : s.code = r.code)
    (sameKey : s.key = r.key) (both : r.qty + s.qty ≤ o.qty) :
    (b.call r.command).Meets s (i.reported r o.side) (o.shrink i.kind r.qty) where
  found := by rw [meets.find?_call, if_pos same]
  resting := by
    rw [sameKey]
    exact Instrument.find?_reported_self meets.resting
  pos := again.pos
  le := by
    rw [Order.shrink_qty]
    omega

/-- What two reports come to, each of them after the other one. -/
theorem Meets.comm_of {i' j' : Instrument} {o' p' : Order} (meets : b.Meets r i o)
    (other : b.Meets s j p) (later : (b.call r.command).Meets s j' p')
    (later' : (b.call s.command).Meets r i' o')
    (instruments : (b.set (i.reported r o.side)).set (j'.reported s p'.side)
      = (b.set (j.reported s p.side)).set (i'.reported r o'.side))
    (freed : o.freed i.kind r.qty + p'.freed j'.kind s.qty
      = p.freed j.kind s.qty + o'.freed i'.kind r.qty)
    (cash : r.cash i'.kind o' = r.cash i.kind o) (cash' : s.cash j'.kind p' = s.cash j.kind p)
    (record : r.record i'.kind o' = r.record i.kind o)
    (record' : s.record j'.kind p' = s.record j.kind p) :
    (b.call r.command).call s.command = (b.call s.command).call r.command := by
  have balance : b.balance + (o.freed i.kind r.qty + r.cash i.kind o)
        + (p'.freed j'.kind s.qty + s.cash j'.kind p')
      = b.balance + (p.freed j.kind s.qty + s.cash j.kind p)
        + (o'.freed i'.kind r.qty + r.cash i'.kind o') := by omega
  have stats : s.record j'.kind p' (r.record i.kind o b.stats)
      = r.record i'.kind o' (s.record j.kind p b.stats) := by
    rw [record, record', OrderReport.record_comm]
  calc (b.call r.command).call s.command
      = { (b.set (i.reported r o.side)).set (j'.reported s p'.side) with
          balance := b.balance + (o.freed i.kind r.qty + r.cash i.kind o)
            + (p'.freed j'.kind s.qty + s.cash j'.kind p')
          stats := s.record j'.kind p' (r.record i.kind o b.stats) } := by
        rw [later.call, meets.call]
        rfl
    _ = { (b.set (j.reported s p.side)).set (i'.reported r o'.side) with
          balance := b.balance + (p.freed j.kind s.qty + s.cash j.kind p)
            + (o'.freed i'.kind r.qty + r.cash i'.kind o')
          stats := r.record i'.kind o' (s.record j.kind p b.stats) } := by
        rw [instruments, balance, stats]
    _ = (b.call s.command).call r.command := by
        rw [later'.call, other.call]
        rfl

/-- Two reports that fit together what is open come to the same in either order. -/
theorem Meets.comm (hb : b.WellFormed) (meets : b.Meets r i o) (other : b.Meets s j p)
    (price : 0 ≤ o.price)
    (both : s.code = r.code → s.key = r.key → r.qty + s.qty ≤ o.qty) :
    (b.call r.command).call s.command = (b.call s.command).call r.command := by
  by_cases code : s.code = r.code
  · obtain rfl : j = i := Option.some.inj (other.found.symm.trans (code ▸ meets.found))
    have sorted := hb.sorted j (mem_of_find? other.found)
    have twice : ∀ (r s : OrderReport) (side side' : Side),
        (b.set (j.reported r side)).set ((j.reported r side).reported s side')
          = b.set ((j.reported r side).reported s side') := fun _ _ _ _ => set_set rfl
    by_cases key : s.key = r.key
    · obtain rfl : p = o := Option.some.inj (other.resting.symm.trans (key ▸ meets.resting))
      have le := both code key
      refine meets.comm_of other (meets.after_same other code key le)
        (other.after_same meets code.symm key.symm (by omega)) ?_
        (Order.freed_comm price meets.pos other.pos le) OrderReport.cash_shrink OrderReport.cash_shrink
        OrderReport.record_shrink OrderReport.record_shrink
      rw [twice, twice, Order.shrink_side, Order.shrink_side]
      refine congrArg b.set (Instrument.reported_comm (fun x hx hr _ => ?_) _ _)
      obtain rfl : x = p := sorted.eq_of_key hx (Orders.mem_of_find? other.resting)
        (hr.trans (Orders.key_of_find? meets.resting).symm)
      exact Order.shrink_comm price meets.pos other.pos le
    · refine meets.comm_of other (meets.after_beside other code key)
        (other.after_beside meets code.symm (Ne.symm key)) ?_ (add_comm _ _) rfl rfl rfl rfl
      rw [twice, twice]
      refine congrArg b.set (Instrument.reported_comm (fun x _ hr hs => ?_) _ _)
      exact absurd (hs.symm.trans hr) key
  · refine meets.comm_of other (meets.after_other other code)
      (other.after_other meets (Ne.symm code)) ?_ (add_comm _ _) rfl rfl rfl rfl
    refine set_comm fun same => code ?_
    rw [← code_of_find? other.found, ← code_of_find? meets.found]
    exact same.symm

/-! ## Market data -/

theorem call_quote {code : String} {avgPrice traded : Int} {ladder : Ladder} :
    b.call (.quote code avgPrice traded ladder)
      = (b.find? code).elim b fun i => b.set (i.quote avgPrice traded ladder) := by
  simp only [Book.call, quote]
  cases b.find? code <;> rfl

/-- Market data and a report come to the same in either order. -/
theorem Meets.market_comm (meets : b.Meets r i o) (e : MarketEvent) :
    (b.call r.command).market e = (b.market e).call r.command := by
  cases e with
  | quote code avgPrice traded ladder =>
    simp only [market, call_quote, meets.find?_call]
    split
    next here =>
      let quoted (i : Instrument) := i.quote avgPrice traded ladder
      have still : (b.set (quoted i)).Meets r (quoted i) o :=
        ⟨find?_set_self meets.found rfl, meets.resting, meets.pos, meets.le⟩
      have same : (b.set (i.reported r o.side)).set (quoted (i.reported r o.side))
          = (b.set (quoted i)).set ((quoted i).reported r o.side) :=
        calc _ = b.set (quoted (i.reported r o.side)) := set_set (by rfl)
          _ = _ := (set_set (by rfl)).symm
      simp only [here, meets.found, Option.elim_some]
      rw [still.call, meets.call]
      exact set_congr same
    next other =>
      cases found : b.find? code with
      | none => rfl
      | some j =>
        have hcode : j.code = code := code_of_find? found
        have apart : i.code ≠ j.code := by
          rw [code_of_find? meets.found, hcode]
          exact Ne.symm other
        have still : (b.set (j.quote avgPrice traded ladder)).Meets r i o := by
          have kept : (b.set (j.quote avgPrice traded ladder)).find? r.code = b.find? r.code :=
            find?_set_ne fun same => other (hcode.symm.trans same.symm)
          exact ⟨kept.trans meets.found, meets.resting, meets.pos, meets.le⟩
        simp only [Option.elim_some, still.call, meets.call]
        exact set_congr (set_comm apart)
  | index value =>
    have still : { b with index := value }.Meets r i o :=
      ⟨meets.found, meets.resting, meets.pos, meets.le⟩
    simp only [market, still.call, meets.call]
    rfl
  | trade => rfl
  | fill => rfl
  | canceled => rfl

/-! ## Many reports -/

/-- What some reports come to for one order. -/
def reportedQty (code : String) (key : Key) (rs : List OrderReport) : Int :=
  ((rs.filter fun r => decide (r.code = code ∧ r.key = key)).map OrderReport.qty).sum

/-- What is open of an order. -/
def openQty (b : Book) (code : String) (key : Key) : Int := (b.order? code key).elim 0 Order.qty

/-- Reports of positive quantities that together fit what is open of each order. -/
structure Room (b : Book) (rs : List OrderReport) : Prop where
  pos : ∀ r ∈ rs, 0 < r.qty
  fits : ∀ r ∈ rs, reportedQty r.code r.key rs ≤ b.openQty r.code r.key

/-- What reports rely on of a book. -/
structure Priced (b : Book) : Prop where
  wellFormed : b.WellFormed
  price : b.Each fun o => 0 ≤ o.price

variable {b' : Book} {rs ss : List OrderReport} {code : String} {key : Key}

theorem reportedQty_cons : reportedQty code key (r :: rs)
    = (if r.code = code ∧ r.key = key then r.qty else 0) + reportedQty code key rs := by
  simp only [reportedQty, List.filter_cons, decide_eq_true_eq]
  split
  · rw [List.map_cons, List.sum_cons]
  · rw [zero_add]

theorem reportedQty_nonneg (pos : ∀ r ∈ rs, 0 < r.qty) : 0 ≤ reportedQty code key rs := by
  apply List.sum_nonneg
  simp only [List.forall_mem_map]
  exact fun r hr => (pos r (List.mem_of_mem_filter hr)).le

theorem reportedQty_perm (perm : rs.Perm ss) : reportedQty code key rs = reportedQty code key ss :=
  ((perm.filter _).map _).sum_eq

theorem Room.perm (room : b.Room rs) (perm : rs.Perm ss) : b.Room ss where
  pos := fun r hr => room.pos r (perm.mem_iff.mpr hr)
  fits := fun r hr => reportedQty_perm perm ▸ room.fits r (perm.mem_iff.mpr hr)

/-- The first report meets an order that has enough open for all the reports of it. -/
theorem Room.exists_meets (room : b.Room (r :: rs)) :
    ∃ i o, b.Meets r i o ∧ r.qty + reportedQty r.code r.key rs ≤ o.qty := by
  have pos := room.pos r List.mem_cons_self
  have rest : 0 ≤ reportedQty r.code r.key rs :=
    reportedQty_nonneg fun s hs => room.pos s (List.mem_cons_of_mem r hs)
  have fits := room.fits r List.mem_cons_self
  simp only [reportedQty_cons, and_self, if_true, openQty] at fits
  cases resting : b.order? r.code r.key with
  | none =>
    rw [resting, Option.elim_none] at fits
    omega
  | some o =>
    rw [resting, Option.elim_some] at fits
    obtain ⟨i, found, resting⟩ := order?_eq_some.mp resting
    exact ⟨i, o, ⟨found, resting, pos, by omega⟩, fits⟩

theorem Meets.openQty_call (meets : b.Meets r i o) (code : String) (key : Key) :
    (b.call r.command).openQty code key
      = b.openQty code key - if r.code = code ∧ r.key = key then r.qty else 0 := by
  by_cases here : r.code = code
  · subst here
    have found : (b.call r.command).find? r.code = some (i.reported r o.side) := by
      rw [meets.find?_call, if_pos rfl]
    simp only [openQty, order?_eq found, order?_eq meets.found, true_and]
    by_cases same : r.key = key
    · subst same
      rw [Instrument.find?_reported_self meets.resting, meets.resting, if_pos rfl]
      exact Order.shrink_qty
    · rw [Instrument.find?_reported_ne (Ne.symm same), if_neg same, sub_zero]
  · have found : (b.call r.command).find? code = b.find? code := by
      rw [meets.find?_call, if_neg (Ne.symm here)]
    simp only [openQty, order?, found, here, false_and, if_false, sub_zero]

theorem Priced.call (priced : b.Priced) (meets : b.Meets r i o) : (b.call r.command).Priced where
  wellFormed := priced.wellFormed.call _
  price := by
    rw [meets.call]
    refine Each.shrink priced.price priced.wellFormed meets.found meets.resting rfl ?_
    exact fun price => Order.shrink_price.symm ▸ price

theorem Room.call (room : b.Room (r :: rs)) (meets : b.Meets r i o) : (b.call r.command).Room rs where
  pos := fun s hs => room.pos s (List.mem_cons_of_mem r hs)
  fits := by
    intro s hs
    have fits := room.fits s (List.mem_cons_of_mem r hs)
    rw [reportedQty_cons] at fits
    rw [meets.openQty_call]
    omega

/-- Reports for which there is room come to the same in any order. -/
theorem foldl_call_perm (priced : b.Priced) (room : b.Room rs) (perm : rs.Perm ss) :
    rs.foldl (fun b r => b.call r.command) b = ss.foldl (fun b r => b.call r.command) b := by
  induction perm generalizing b with
  | nil => rfl
  | cons r perm ih =>
    obtain ⟨i, o, meets, -⟩ := room.exists_meets
    exact ih (priced.call meets) (room.call meets)
  | swap r s rest =>
    obtain ⟨i, o, meets, both⟩ := room.exists_meets
    obtain ⟨j, p, other, -⟩ := (room.perm (.swap r s rest)).exists_meets
    have comm : (b.call s.command).call r.command = (b.call r.command).call s.command := by
      refine meets.comm priced.wellFormed other ?_ fun code key => ?_
      · exact priced.price i (mem_of_find? meets.found) o (Orders.mem_of_find? meets.resting)
      · have rest : 0 ≤ reportedQty s.code s.key rest := reportedQty_nonneg fun q hq =>
          room.pos q (List.mem_cons_of_mem _ (List.mem_cons_of_mem _ hq))
        rw [reportedQty_cons, if_pos ⟨code, key⟩] at both
        omega
    simp only [List.foldl_cons, comm]
  | trans perm perm' ih ih' => exact (ih priced room).trans (ih' priced (room.perm perm))

/-- Market data that comes before some reports might as well come after them. -/
theorem foldl_call_market (priced : b.Priced) (room : b.Room rs) (e : MarketEvent) :
    rs.foldl (fun b r => b.call r.command) (b.market e)
      = (rs.foldl (fun b r => b.call r.command) b).market e := by
  induction rs generalizing b with
  | nil => rfl
  | cons r rs ih =>
    obtain ⟨i, o, meets, -⟩ := room.exists_meets
    rw [List.foldl_cons, List.foldl_cons, ← meets.market_comm]
    exact ih (priced.call meets) (room.call meets)

theorem order?_account : b.account.order? code key = (b.order? code key).map Order.bare := by
  simp only [order?, find?_account]
  cases b.find? code with
  | none => rfl
  | some i => exact Orders.find?_map fun _ => rfl

theorem openQty_of_account (same : b'.account = b.account) :
    b'.openQty code key = b.openQty code key := by
  have throughAccount : ∀ b : Book, b.account.openQty code key = b.openQty code key := by
    intro b
    simp only [openQty, order?_account]
    cases b.order? code key <;> rfl
  rw [← throughAccount, same, throughAccount]

theorem Priced.of_account (priced : b.Priced) (same : b'.account = b.account) : b'.Priced where
  wellFormed := priced.wellFormed.of_account same
  price := Each.of_account priced.price (fun _ => Iff.rfl) same

theorem Room.of_account (room : b.Room rs) (same : b'.account = b.account) : b'.Room rs where
  pos := room.pos
  fits := fun r hr => openQty_of_account same ▸ room.fits r hr

end Book

/-! ## Events -/

/-- Whether an event is about an order of mine. -/
def MarketEvent.isReport (e : MarketEvent) : Bool := e.number?.isSome

namespace Live

variable {β : Type}

section Events

variable {l : Live β} {e : MarketEvent} {es : List MarketEvent} {r : OrderReport}

theorem isReport_of_report? (reported : l.report? e = some r) : e.isReport = true := by
  obtain ⟨number, about, -⟩ := report?_eq_some reported
  rw [MarketEvent.isReport, about, Option.isSome_some]

/-- A report under an unknown number changes nothing. -/
theorem market_of_isReport (isReport : e.isReport = true) (b : Book) : b.market e = b := by
  cases e with
  | fill => rfl
  | canceled => rfl
  | quote => cases isReport
  | trade => cases isReport
  | index => cases isReport

/-- The reports among some events can be handled first, and the market data after them. -/
theorem handleAll_state (priced : l.book.Priced) (room : l.book.Room (es.filterMap l.report?)) :
    (l.handleAll es).state = { l with
      book := (es.filter (!·.isReport)).foldl Book.market
        ((es.filterMap l.report?).foldl (fun b r => b.call r.command) l.book) } := by
  induction es generalizing l with
  | nil => rfl
  | cons e es ih =>
    simp only [handleAll, state_bind_handle]
    cases reported : l.report? e with
    | some r =>
      have isReport := isReport_of_report? reported
      rw [List.filterMap_cons_some reported] at room ⊢
      obtain ⟨i, o, meets, -⟩ := room.exists_meets
      have later := @ih { l with book := l.book.call r.command } (priced.call meets) (room.call meets)
      rw [handle_report reported, List.filter_cons_of_neg (by simp [isReport]), List.foldl_cons]
      exact later
    | none =>
      rw [List.filterMap_cons_none reported] at room ⊢
      have same := Book.account_market priced.wellFormed e
      have later := @ih { l with book := l.book.market e } (priced.of_account same)
        (room.of_account same)
      rw [handle_market reported]
      refine later.trans ?_
      have moved := Book.foldl_call_market priced room e
      cases isReport : e.isReport with
      | true =>
        rw [List.filter_cons_of_neg (by simp [isReport])]
        simp only [market_of_isReport isReport]
      | false =>
        rw [List.filter_cons_of_pos (by simp [isReport]), List.foldl_cons, ← moved]
        rfl

theorem filterMap_report? (l : Live β) (es : List MarketEvent) :
    (es.filter MarketEvent.isReport).filterMap l.report? = es.filterMap l.report? := by
  rw [List.filterMap_filter]
  refine List.filterMap_congr fun e _ => ?_
  cases reported : l.report? e with
  | none => exact ite_self _
  | some r => rw [if_pos (isReport_of_report? reported)]

end Events

/-! ## Runs -/

theorem priced_run {b b' : Book} {history : List Event} (run : Book.Run Positive b history b')
    (priced : b.Priced) : b'.Priced := by
  induction run with
  | refl => exact priced
  | snoc _ step positive ih =>
    refine ⟨step.wellFormed ih.wellFormed, step.each ih.wellFormed ih.price (fun _ => Iff.rfl) ?_ ?_⟩
    · exact fun _ _ _ _ _ placed => (positive _ placed).1.le
    · exact fun _ _ _ _ price => Order.shrink_price.symm ▸ price

theorem Fresh.priced {l : Live β} (fresh : l.Fresh) : l.book.Priced where
  wellFormed := fresh.wellFormed
  price := by
    obtain ⟨balance, ts, opened⟩ := fresh.book
    intro i hi o ho
    rw [opened] at hi
    rw [(Book.mem_opening hi).1] at ho
    cases ho

variable [Brokerage β]

/-- Of what comes in, only the order of the market data counts: reports on orders of mine, of
positive quantities that together fit what is open, can be handled anywhere in between.
Reports under unknown numbers may be among them, they change nothing. Amounts are taken to stay
within 64 bits (`Word64.Basic`), in whichever order they are summed up. -/
theorem run_commutes {brokerage : β} {gate : Gate} {ts : List Tracked} {limit : Nat} {l : Live β}
    (connected : (connect brokerage gate ts limit).result = .ok l) (inputs : List (Input β))
    {xs ys : List MarketEvent}
    (reports : (xs.filter MarketEvent.isReport).Perm (ys.filter MarketEvent.isReport))
    (market : xs.filter (!·.isReport) = ys.filter (!·.isReport))
    (room : (l.run inputs).book.Room (xs.filterMap (l.run inputs).report?)) :
    ((l.run inputs).handleAll xs).state = ((l.run inputs).handleAll ys).state := by
  have fresh := fresh_connect connected
  have priced := priced_run (moves_run fresh.wellFormed inputs).run fresh.priced
  have perm := reports.filterMap (l.run inputs).report?
  rw [filterMap_report?, filterMap_report?] at perm
  rw [handleAll_state priced room, handleAll_state priced (room.perm perm), market,
    Book.foldl_call_perm priced room perm]

/-- A buy of ten that is filled by three and by four and canceled for the rest, with a quote
and a value of the index in between. -/
theorem run_commutes_split :
    ∃ l, (connect (scripted 100000 []) (Gate.ofQuota 10 0) [⟨"A", .equity, 0⟩] 8).result = .ok l
      ∧ let s := l.run [.advance ⟨1, 32410, 50000⟩, .apply "b A 1000 10"]
        let quote : MarketEvent := .quote "A" 1000 5 Ladder.empty
        let index : MarketEvent := .index (.quotient 1 2)
        s.book.openQty "A" ⟨1000, 1⟩ = 10
        ∧ (s.handleAll [.fill 101 ⟨990, 3⟩, quote, .canceled 101 3, index, .fill 101 ⟨1000, 4⟩]).state
          = (s.handleAll
              [quote, .fill 101 ⟨1000, 4⟩, .canceled 101 3, .fill 101 ⟨990, 3⟩, index]).state := by
  have connected : (connect (scripted 100000 []) (Gate.ofQuota 10 0) [⟨"A", .equity, 0⟩]
      8).result = .ok _ := rfl
  refine ⟨_, connected, by decide +kernel, ?_⟩
  exact run_commutes connected _ (by decide) rfl ⟨by decide +kernel, by decide +kernel⟩

end Live

end TradingDesk
