-- SUMMARY: A mirror values the account as the book does, up to the splits of its live buys.
import TradingDesk.Proofs.Mirrors
import TradingDesk.Proofs.Numbers
import TradingDesk.Proofs.Solvency

/-!
# Estimates

A block does not tell what a buy holds back. A mirror takes it to be the whole cost of what is
open, while in the book it is what fills and cancels have left of the cost of the whole order.
The two are the same until the order is split, and each split moves them apart by one at most,
since the cost of a part is rounded by itself. The escrow of a part is cut off where nothing is
left of the order's, and being cut off brings the two together.
-/

namespace TradingDesk

/-! ## Orders -/

namespace Order

variable {kind : Kind} {o : Order} {k k' : Nat} {n : Int}

/-- Whether a buy holds back the whole cost of what is open, up to `k`. -/
structure Estimated (kind : Kind) (k : Nat) (o : Order) : Prop where
  funded : o.Funded
  escrow : o.side = .buy → |o.escrow - kind.cost o.price o.qty| ≤ k

theorem estimated_bare : o.bare.Estimated kind k ↔ o.Estimated kind k :=
  ⟨fun h => ⟨funded_bare.mp h.funded, h.escrow⟩, fun h => ⟨funded_bare.mpr h.funded, h.escrow⟩⟩

theorem Estimated.mono (h : o.Estimated kind k) (le : k ≤ k') : o.Estimated kind k' :=
  ⟨h.funded, fun buy => (h.escrow buy).trans (Int.ofNat_le.mpr le)⟩

theorem Estimated.shrink (h : o.Estimated kind k) (pos : 0 < n) (le : n ≤ o.qty)
    (counted : o.side = .buy → n < o.qty → k + 1 ≤ k') :
    (o.shrink kind n).Estimated kind k' where
  funded := h.funded.shrink le
  escrow := by
    intro buy
    rw [shrink_side] at buy
    have before := h.escrow buy
    rw [shrink_escrow, shrink_price, shrink_qty, freed, buy]
    simp only
    by_cases whole : o.qty ≤ n
    · obtain rfl : n = o.qty := le_antisymm le whole
      rw [release_whole, sub_self, sub_self, kind.cost_zero]
      simp
    · have nonneg := h.funded.price.le
      have some : 0 ≤ o.qty - n := by omega
      have above := kind.cost_add_le nonneg pos.le some
      have below := kind.cost_le_add nonneg pos.le some
      have rest := kind.cost_nonneg nonneg some
      have more := counted buy (not_le.mp whole)
      rw [add_sub_cancel] at above below
      simp only [release, if_neg whole]
      rw [abs_le] at before ⊢
      omega

end Order

/-! ## Splits -/

/-- The code and the key of the order that something is booked on. -/
def Event.subject? : Event → Option (String × Key)
  | .placed .. => none
  | .filled code f => some (code, f.order.key)
  | .canceled code o _ => some (code, o.key)

/-- The buys that a history leaves partly open, each as often as it does. -/
def splitBuys (history : List Event) : List (String × Key) :=
  (history.filter Event.splits).filterMap Event.subject?

theorem splitBuys_append {h h' : List Event} : splitBuys (h ++ h') = splitBuys h ++ splitBuys h' := by
  simp only [splitBuys, List.filter_append, List.filterMap_append]

/-- A split counts for the order that it leaves open. -/
theorem count_splitBuys {e : Event} {address : String × Key} (subject : e.subject? = some address)
    (splits : e.splits = true) : (splitBuys [e]).count address = 1 := by
  simp [splitBuys, splits, subject]

namespace Instrument

variable {i i' : Instrument} {o : Order} {key : Key} {n : Int} {splits more : List (String × Key)}

/-- Whether each buy holds back the whole cost of what is open, up to the number of its splits. -/
def Estimated (splits : List (String × Key)) (i : Instrument) : Prop :=
  ∀ o ∈ i.orders, o.Estimated i.kind (splits.count (i.code, o.key))

theorem Estimated.append (h : i.Estimated splits) : i.Estimated (splits ++ more) := by
  intro o ho
  refine (h o ho).mono ?_
  rw [List.count_append]
  exact Nat.le_add_right _ _

theorem Estimated.of_account (h : i.Estimated splits) (same : i'.account = i.account) :
    i'.Estimated splits := by
  have orders := (forall_of_account (P := fun o => o.Estimated i.kind (splits.count (i.code, o.key)))
    (fun _ => Order.estimated_bare) same).mpr h
  unfold Estimated
  rw [kind_of_account same, code_of_account same]
  exact orders

/-- A new buy holds back its whole cost. -/
theorem estimated_newOrder {id : Nat} {side : Side} {price qty : Int} (hprice : 0 < price)
    (hqty : 0 < qty) : (i.newOrder id side price qty).Estimated i.kind 0 where
  funded := by
    refine ⟨hprice, hqty.le, ?_⟩
    cases side with
    | buy => exact i.kind.cost_nonneg hprice.le hqty.le
    | sell => exact le_rfl
  escrow := by
    rintro rfl
    simp [newOrder]

theorem Estimated.place {id : Nat} {side : Side} {price qty : Int} (h : i.Estimated splits)
    (ids : ∀ o ∈ i.orders, o.id < id) (hprice : 0 < price) (hqty : 0 < qty) :
    (i.place id side price qty).Estimated splits := by
  intro o ho
  rcases (Orders.mem_insert (fresh_of_ids ids side price qty)).mp ho with rfl | ho
  · exact (estimated_newOrder hprice hqty).mono (Nat.zero_le _)
  · exact h o ho

theorem Estimated.shrink (h : i.Estimated splits) (sorted : Orders.Sorted i.orders)
    (resting : Orders.find? o.key i.orders = some o) (pos : 0 < n) (le : n ≤ o.qty)
    (counted : o.side = .buy → n < o.qty → more.count (i.code, o.key) = 1)
    (hcode : i'.code = i.code) (hkind : i'.kind = i.kind)
    (horders : i'.orders = (i.shrinkOrder o.key n).orders) : i'.Estimated (splits ++ more) := by
  intro p hp
  rw [hkind, hcode]
  rw [horders] at hp
  rcases (mem_shrinkOrder sorted resting).mp hp with rfl | ⟨hp, -⟩
  · rw [Order.key_shrink, List.count_append]
    refine (h o (Orders.mem_of_find? resting)).shrink pos le fun buy some => ?_
    rw [counted buy some]
  · exact h.append p hp

end Instrument

namespace Book

variable {b b' m : Book} {history : List Event} {splits : List (String × Key)}

def Estimated (b : Book) (splits : List (String × Key)) : Prop :=
  ∀ i ∈ b.instruments, i.Estimated splits

/-- What is asked of the placing of orders: a positive price and a positive quantity. -/
def PlacedPositive (_ : Book) : Event → Prop
  | .placed _ o => 0 < o.price ∧ 0 < o.qty
  | .filled .. => True
  | .canceled .. => True

theorem Step.estimated {e : Option Event} (step : Step b e b')
    (positive : ∀ x ∈ e, b.PlacedPositive x) (hb : b.WellFormed) (h : b.Estimated splits) :
    b'.Estimated (splits ++ splitBuys e.toList) := by
  have kept : ∀ i ∈ b.instruments, i.Estimated (splits ++ splitBuys e.toList) :=
    fun i hi => (h i hi).append
  cases step with
  | observe same =>
    intro i hi
    obtain ⟨j, hj, eq⟩ := exists_mem_of_account same hi
    exact (kept j hj).of_account eq
  | sweep =>
    simp only [Estimated, Book.sweep, List.forall_mem_map]
    intro i hi o ho
    exact kept i hi o (List.mem_of_mem_filter ho)
  | @place _ i side price qty _ found ok =>
    obtain ⟨hprice, hqty⟩ := positive _ rfl
    have mem := mem_of_find? found
    rw [insert_eq_ok found ok]
    exact forall_set kept ((kept i mem).place (hb.ids i mem) hprice hqty)
  | @fill code i i' _ o _ _ f found resting filled =>
    obtain ⟨pos, -, le, order, -, -, -, after⟩ := Instrument.fill_eq_some filled
    have mem := mem_of_find? found
    rw [← Orders.key_of_find? resting] at resting
    refine forall_set kept ((h i mem).shrink (hb.sorted i mem) resting pos le ?_
      (Instrument.code_of_fill filled) (by rw [after]; rfl) (by rw [after]))
    intro buy some
    refine count_splitBuys ?_ ?_
    · rw [code_of_find? found, ← order]
      rfl
    · simp [Event.splits, order, buy, some]
  | @cancel code i i' _ o _ w found resting withdrawn =>
    obtain ⟨pos, least, -, after⟩ := Instrument.withdraw_eq_some withdrawn
    have mem := mem_of_find? found
    have le : w.qty ≤ o.qty := least ▸ min_le_right _ _
    rw [← Orders.key_of_find? resting] at resting
    refine forall_set kept ((h i mem).shrink (hb.sorted i mem) resting pos le ?_
      (Instrument.code_of_withdraw withdrawn) (by rw [after]; rfl) (by rw [after]))
    intro buy some
    refine count_splitBuys ?_ ?_
    · rw [code_of_find? found]
      rfl
    · simp [Event.splits, buy, some]

theorem Run.estimated (run : Run PlacedPositive b history b') (hb : b.WellFormed)
    (h : b.Estimated splits) : b'.Estimated (splits ++ splitBuys history) := by
  induction run with
  | refl => simpa [splitBuys] using h
  | snoc run step positive ih =>
    rw [splitBuys_append, ← List.append_assoc]
    exact step.estimated positive (run.wellFormed hb) ih

end Book

/-! ## Sums -/

section Sums

variable {α : Type}

theorem abs_sum_sub_le {f g : α → Int} {k : α → Nat} {as : List α}
    (h : ∀ a ∈ as, |f a - g a| ≤ k a) : |(as.map f).sum - (as.map g).sum| ≤ (as.map k).sum := by
  induction as with
  | nil => simp
  | cons a as ih =>
    obtain ⟨here, rest⟩ := List.forall_mem_cons.mp h
    have rest := ih rest
    simp only [List.map_cons, List.sum_cons, Nat.cast_add, abs_le] at *
    omega

variable [BEq α] [LawfulBEq α] {a : α} {as bs : List α}

theorem countP_mem_cons (fresh : a ∉ as) :
    bs.countP (· ∈ a :: as) = bs.count a + bs.countP (· ∈ as) := by
  induction bs with
  | nil => rfl
  | cons b bs ih =>
    rw [List.countP_cons, List.count_cons, List.countP_cons, ih]
    by_cases here : b = a
    · subst here
      simp [fresh]
      omega
    · simp [here]
      omega

/-- Counting each of some distinct entries counts all that are any of them. -/
theorem sum_count_eq (nodup : as.Nodup) : (as.map bs.count).sum = bs.countP (· ∈ as) := by
  induction as with
  | nil => simp
  | cons a as ih =>
    obtain ⟨fresh, nodup⟩ := List.nodup_cons.mp nodup
    rw [List.map_cons, List.sum_cons, ih nodup, countP_mem_cons fresh]

end Sums

/-! ## Valuations -/

attribute [ext] Valuation

namespace Instrument

variable {i j : Instrument}

def liveBuys (i : Instrument) : List Order := i.liveOrders.filter (·.side == .buy)

/-- What the live buys would hold back if each held back its whole cost. -/
def buyCost (i : Instrument) : Int := (i.liveBuys.map fun o => i.kind.cost o.price o.qty).sum

theorem stagedBuy_eq : i.stagedBuy = (i.liveBuys.map Order.escrow).sum := sumOf_eq

/-- The live orders of a mirror have the same prices and quantities, side by side. -/
theorem Mirrors.map_side (h : i.Mirrors j) (side : Side) (f : Int → Int → Int) :
    (j.liveOrders.filter (·.side == side)).map (fun o => f o.price o.qty)
      = (i.liveOrders.filter (·.side == side)).map fun o => f o.price o.qty := by
  have told : ∀ os : List Order, (os.filter (·.side == side)).map (fun o => f o.price o.qty)
      = ((os.map Order.shown).filter (·.2.1 == side)).map fun p => f p.1 p.2.2 := by
    intro os
    rw [List.filter_map, List.map_map]
    rfl
  rw [told, told, h.orders]

theorem Mirrors.buyCost (h : i.Mirrors j) : j.buyCost = i.buyCost := by
  rw [Instrument.buyCost, h.kind]
  exact congrArg List.sum (h.map_side .buy i.kind.cost)

theorem Mirrors.stagedSell (h : i.Mirrors j) (mark : Int) : j.stagedSell mark = i.stagedSell mark := by
  simp only [Instrument.stagedSell, sumOf_eq, proceeds, h.kind]
  exact congrArg List.sum (h.map_side .sell fun _ qty => mark * qty - i.kind.sellFee (mark * qty))

/-- What the live buys of an instrument hold back is their whole cost, up to the splits of each. -/
theorem Estimated.stagedBuy {splits : List (String × Key)} (h : i.Estimated splits) :
    |i.buyCost - i.stagedBuy|
      ≤ (i.liveBuys.map fun o => splits.count (i.code, o.key)).sum := by
  rw [stagedBuy_eq, buyCost]
  refine abs_sum_sub_le fun o ho => ?_
  obtain ⟨live, buy⟩ := List.mem_filter.mp ho
  rw [abs_sub_comm]
  exact (h o (List.mem_of_mem_filter live)).escrow (by simpa using buy)

end Instrument

namespace StateBlock

variable {b m : Book} {i : Instrument} {id : Nat} {is : List Instrument}

theorem escrow_orderOf {price qty : Int} (buy : (orderOf i id price qty).side = .buy) :
    (orderOf i id price qty).escrow
      = i.kind.cost (orderOf i id price qty).price (orderOf i id price qty).qty := by
  simp only [orderOf] at buy ⊢
  rw [buy]

/-- A mirror takes each buy to hold back its whole cost. -/
theorem escrow_renumbered {os : List Order} :
    ∀ o ∈ renumbered i id os, o.side = .buy → o.escrow = i.kind.cost o.price o.qty := by
  induction os generalizing id with
  | nil => simp [renumbered]
  | cons o os ih => exact List.forall_mem_cons.mpr ⟨escrow_orderOf, ih⟩

theorem stagedBuy_mirrored : (mirrored i id).stagedBuy = (mirrored i id).buyCost := by
  have whole : ∀ o ∈ (mirrored i id).orders, o.side = .buy → o.escrow = i.kind.cost o.price o.qty :=
    escrow_renumbered
  rw [Instrument.stagedBuy_eq, Instrument.buyCost]
  congr 1
  refine List.map_congr_left fun o ho => ?_
  obtain ⟨live, buy⟩ := List.mem_filter.mp ho
  exact whole o (List.mem_of_mem_filter live) (by simpa using buy)

theorem stagedBuy_mirrorAll :
    (mirrorAll id is).map Instrument.stagedBuy = is.map Instrument.buyCost := by
  induction is generalizing id with
  | nil => rfl
  | cons i is ih =>
    rw [mirrorAll, List.map_cons, List.map_cons, ih, stagedBuy_mirrored, mirrors_mirrored.buyCost]

theorem Reads.stagedBuy (h : Reads b b m) :
    m.evaluate.stagedBuy = (b.instruments.map Instrument.buyCost).sum := by
  rw [← stagedBuy_mirrorAll, ← h.instruments]
  exact sumOf_eq

theorem Reads.holdings (h : Reads b b m) : m.evaluate.holdings = b.evaluate.holdings := by
  have same := map_of_mirrors h.mirrors.instruments
    (f := fun i => i.proceeds (max i.ladder.bestBid.price 0) i.idle)
    fun _ _ h => by simp only [Instrument.proceeds, h.kind, h.ladder, h.idle]
  simp only [Book.evaluate, Book.evaluateWith, sumOf_eq, same]

theorem Reads.stagedSell (h : Reads b b m) : m.evaluate.stagedSell = b.evaluate.stagedSell := by
  have same := map_of_mirrors h.mirrors.instruments
    (f := fun i => i.stagedSell (max i.ladder.bestBid.price 0))
    fun _ _ h => by rw [h.stagedSell, h.ladder]
  simp only [Book.evaluate, Book.evaluateWith, sumOf_eq, same]

end StateBlock

namespace Book

variable {b : Book} {splits : List (String × Key)}

/-- The codes and the keys of the live buys. -/
def liveBuys (b : Book) : List (String × Key) :=
  b.instruments.flatMap fun i => i.liveBuys.map fun o => (i.code, o.key)

theorem nodup_liveBuys (hb : b.WellFormed) : b.liveBuys.Nodup := by
  refine (nodup_addresses hb).sublist (List.Sublist.flatMap_right _ fun i _ => ?_)
  exact (List.filter_sublist.trans List.filter_sublist).map _

/-- What the live buys of a book hold back is their whole cost, up to their splits. -/
theorem Estimated.stagedBuy (h : b.Estimated splits) (hb : b.WellFormed) :
    |(b.instruments.map Instrument.buyCost).sum - b.evaluate.stagedBuy|
      ≤ splits.countP (· ∈ b.liveBuys) := by
  have counted : (b.instruments.map fun i => (i.liveBuys.map fun o => splits.count (i.code, o.key)).sum).sum
      = splits.countP (· ∈ b.liveBuys) := by
    rw [← sum_count_eq (nodup_liveBuys hb), liveBuys, List.map_flatMap, List.flatMap_def,
      List.sum_flatten, List.map_map]
    congr 1
    refine List.map_congr_left fun i _ => ?_
    rw [Function.comp_apply, List.map_map]
    rfl
  have staged : b.evaluate.stagedBuy = (b.instruments.map Instrument.stagedBuy).sum := sumOf_eq
  rw [staged, ← counted]
  exact abs_sum_sub_le fun i hi => (h i hi).stagedBuy

/-- The number of times that a history leaves a buy partly open that is still live. -/
def openSplits (b : Book) (history : List Event) : Nat :=
  (splitBuys history).countP (· ∈ b.liveBuys)

theorem estimated_opening (balance : Int) (ts : List Tracked) : (opening balance ts).Estimated [] := by
  intro i hi o ho
  rw [(mem_opening hi).1] at ho
  cases ho

end Book

/-- A call that places no orders but at a positive price and for a positive quantity. -/
def Command.PlacesPositive : Command → Prop
  | .quote .. => True
  | .sweep => True
  | .insert _ _ price qty => 0 < price ∧ 0 < qty
  | .trade .. => True
  | .cancel .. => True

instance : DecidablePred Command.PlacesPositive
  | .quote .. => .isTrue trivial
  | .sweep => .isTrue trivial
  | .insert _ _ price qty => inferInstanceAs (Decidable (0 < price ∧ 0 < qty))
  | .trade .. => .isTrue trivial
  | .cancel .. => .isTrue trivial

theorem Book.placedPositive_of_placesPositive {b : Book} {c : Command} (h : c.PlacesPositive) :
    ∀ x ∈ b.event? c, b.PlacedPositive x := by
  intro x hx
  cases x with
  | filled => trivial
  | canceled => trivial
  | placed i o =>
    obtain ⟨code, side, price, qty, rfl, rfl⟩ := eq_insert_of_placed hx
    exact h

namespace StateBlock

/-- Whatever market data an account is opened with and whatever calls are made, a mirror of its
book values the account as the book does, up to what live buys hold back. There the two differ
by no more than the number of times that one of these buys was left partly open. If none ever
was, the valuations are the same. The letters of warrants are taken to be no blanks, as a blank
cannot be told from the space between two fields. -/
theorem parse_render_estimates {balance : Int} {ts : List Tracked} {start : Book} {cs : List Command}
    (opened : start.account = (Book.opening balance ts).account)
    (positive : ∀ c ∈ cs, c.PlacesPositive) (legible : (start.calls cs).Legible)
    (words : (start.calls cs).InWords) :
    let b := start.calls cs
    let splits := b.openSplits (start.history cs)
    ∃ m, parse (render b) = .ok m
      ∧ m.evaluate.cash = b.evaluate.cash
      ∧ m.evaluate.holdings = b.evaluate.holdings
      ∧ m.evaluate.stagedSell = b.evaluate.stagedSell
      ∧ |m.evaluate.stagedBuy - b.evaluate.stagedBuy| ≤ splits
      ∧ (splits = 0 → m.evaluate = b.evaluate) := by
  intro b splits
  have wellFormed : start.WellFormed := (Book.wellFormed_opening balance ts).of_account opened
  have run : Book.Run Book.PlacedPositive start (start.history cs) b :=
    Book.calls_run wellFormed fun c hc _ => Book.placedPositive_of_placesPositive (positive c hc)
  have started : start.Estimated [] := (Book.Step.observe opened).estimated (fun _ h => by cases h)
    (Book.wellFormed_opening balance ts) (Book.estimated_opening balance ts)
  have estimated : b.Estimated (splitBuys (start.history cs)) := run.estimated wellFormed started
  have hb := run.wellFormed wellFormed
  obtain ⟨m, read, reads⟩ := parse_rows hb legible words (@toList_render b)
  have bound : |m.evaluate.stagedBuy - b.evaluate.stagedBuy| ≤ splits := by
    rw [reads.stagedBuy]
    exact estimated.stagedBuy hb
  refine ⟨m, read, reads.balance, reads.holdings, reads.stagedSell, bound, fun none => ?_⟩
  refine Valuation.ext reads.balance ?_ reads.holdings reads.stagedSell
  rw [none, abs_le] at bound
  omega

/-- Three of a buy of ten are filled and four are canceled. The book holds back 29975 for the
rest, whose whole cost is 29974. -/
theorem parse_render_estimates_split :
    let start := Book.opening 1000000 [⟨"A", .equity, 0⟩, ⟨"B", .tracker, 5⟩]
    let cs : List Command := [.insert "A" .buy 9990 10, .trade "A" ⟨9990, 1⟩ 9990 3,
      .cancel "A" ⟨9990, 1⟩ 4, .insert "B" .sell 5000 2]
    let b := start.calls cs
    b.openSplits (start.history cs) = 2 ∧ b.evaluate.stagedBuy = 29975
      ∧ Kind.equity.cost 9990 3 = 29974
      ∧ ∃ m, parse (render b) = .ok m ∧ m.evaluate.holdings = b.evaluate.holdings
        ∧ |m.evaluate.stagedBuy - b.evaluate.stagedBuy| ≤ b.openSplits (start.history cs) := by
  intro start cs b
  obtain ⟨m, read, -, holdings, -, bound, -⟩ := @parse_render_estimates _ _ start cs
    rfl (by decide) (by decide +kernel) (by decide +kernel)
  exact ⟨by decide +kernel, by decide +kernel, by decide, m, read, holdings, bound⟩

end StateBlock

end TradingDesk
