-- SUMMARY: Every valid price between the ends of a quoted ladder is one of its levels.
import TradingDesk.Proofs.Facing

/-!
# The grid

The spacing of a band divides that of every higher one, so what is a multiple of its own
spacing is one of every lower band's. Hence a step up or down the grid passes over no valid
price, also where the step leaves its band or starts off the grid, and a ladder without gaps
around its best prices shows all of them between its ends.
-/

namespace TradingDesk

namespace Kind

variable {kind : Kind} {p q : Int}

theorem tickSize_dvd (kind : Kind) (le : p ≤ q) : kind.tickSize p ∣ kind.tickSize q := by
  cases kind with
  | equity =>
    simp only [tickSize]
    split_ifs <;> omega
  | warrant => exact dvd_rfl
  | tracker => exact dvd_rfl

theorem validPrice_iff : kind.validPrice p = true ↔ 0 < p ∧ kind.tickSize p ∣ p := by
  simp only [validPrice, Bool.and_eq_true, decide_eq_true_eq, beq_iff_eq, Int.dvd_iff_emod_eq_zero]

/-- A valid price is on the grid of every lower price. -/
theorem dvd_of_valid (valid : kind.validPrice q = true) (le : p ≤ q) : kind.tickSize p ∣ q :=
  (kind.tickSize_dvd le).trans (validPrice_iff.mp valid).2

theorem add_le_of_dvd {t a b : Int} (ha : t ∣ a) (hb : t ∣ b) (lt : a < b) : a + t ≤ b := by
  have := Int.le_of_dvd (Int.sub_pos.mpr lt) (Int.dvd_sub hb ha)
  omega

theorem dvd_alignDown : kind.tickSize p ∣ kind.alignDown p := by
  simp only [alignDown]
  split
  · exact dvd_zero _
  · exact Int.dvd_self_sub_emod

theorem alignDown_le (nonneg : 0 ≤ p) : kind.alignDown p ≤ p := by
  have rest := Int.emod_nonneg p (kind.tickSize_pos p).ne'
  simp only [alignDown]
  split <;> omega

theorem alignDown_nonneg (kind : Kind) (p : Int) : 0 ≤ kind.alignDown p := by
  simp only [alignDown]
  split
  · exact le_rfl
  next pos =>
    have step := (kind.tickSize_pos p).le
    rw [← Int.mul_ediv_self]
    exact mul_nonneg step (Int.ediv_nonneg (not_le.mp pos).le step)

/-- Only one multiple of the spacing is less than a spacing below a price. -/
theorem alignDown_eq {a : Int} (nonneg : 0 ≤ p) (onGrid : kind.tickSize p ∣ a) (le : a ≤ p)
    (lt : p < a + kind.tickSize p) : kind.alignDown p = a := by
  have below : kind.alignDown p ≤ p := alignDown_le nonneg
  have above : p < kind.alignDown p + kind.tickSize p := kind.lt_alignDown_add p
  rcases lt_trichotomy (kind.alignDown p) a with less | same | more
  · have := add_le_of_dvd dvd_alignDown onGrid less
    omega
  · exact same
  · have := add_le_of_dvd onGrid dvd_alignDown more
    omega

/-- No valid price lies between a price and what it is rounded down to. -/
theorem le_alignDown (valid : kind.validPrice q = true) (le : q ≤ p) : q ≤ kind.alignDown p := by
  by_contra above
  have lt := not_le.mp above
  -- The two lie in one band, and so does a multiple of its spacing between them.
  have onGrid : kind.tickSize p ∣ q := kind.tickSize_alignDown p ▸ dvd_of_valid valid lt.le
  have := add_le_of_dvd dvd_alignDown onGrid lt
  have : p < kind.alignDown p + kind.tickSize p := kind.lt_alignDown_add p
  omega

theorem tickUp_eq (nonneg : 0 ≤ p) : kind.tickUp p = kind.alignDown p + kind.tickSize p := by
  simp only [tickUp]
  split
  · rw [tickSize_alignDown]
  next exact' => rw [le_antisymm (alignDown_le nonneg) (not_lt.mp exact')]

/-- A step up passes over no valid price. -/
theorem tickUp_le (nonneg : 0 ≤ p) (valid : kind.validPrice q = true) (lt : p < q) :
    kind.tickUp p ≤ q := by
  rw [tickUp_eq nonneg]
  exact add_le_of_dvd dvd_alignDown (dvd_of_valid valid lt.le) ((alignDown_le nonneg).trans_lt lt)

/-- A step down leads to what the next lower price is rounded down to. -/
theorem tickDown_eq (pos : 0 < p) : kind.tickDown p = kind.alignDown (p - 1) := by
  have low : 0 ≤ p - 1 := Int.sub_nonneg_of_le pos
  have finer : kind.tickSize (p - 1) ∣ kind.tickSize p := kind.tickSize_dvd (by omega)
  simp only [tickDown, if_neg (not_le.mpr pos)]
  split
  next below =>
    -- What lies between a price and its rounding is in their band.
    have le : kind.alignDown p ≤ p - 1 := Int.le_sub_one_of_lt below
    have coarser : kind.tickSize p ∣ kind.tickSize (p - 1) :=
      kind.tickSize_alignDown p ▸ kind.tickSize_dvd le
    refine (alignDown_eq low (finer.trans dvd_alignDown) le ?_).symm
    have next : kind.tickSize p ≤ kind.tickSize (p - 1) :=
      Int.le_of_dvd (kind.tickSize_pos (p - 1)) coarser
    have := kind.lt_alignDown_add p
    omega
  next exact' =>
    -- The price itself is on the grid of the prices below it.
    have same : kind.alignDown p = p := le_antisymm (alignDown_le pos.le) (not_lt.mp exact')
    have aligned : kind.tickSize p ∣ kind.alignDown p := dvd_alignDown
    rw [same] at aligned
    have onGrid : kind.tickSize (p - 1) ∣ p := finer.trans aligned
    have step := kind.tickSize_pos (p - 1)
    rw [max_eq_left (Int.sub_nonneg_of_le (Int.le_of_dvd pos onGrid))]
    exact (alignDown_eq low (Int.dvd_sub onGrid dvd_rfl) (by omega) (by omega)).symm

/-- A step down passes over no valid price. -/
theorem le_tickDown (valid : kind.validPrice q = true) (lt : q < p) : q ≤ kind.tickDown p := by
  rw [tickDown_eq ((validPrice_iff.mp valid).1.trans lt)]
  exact le_alignDown valid (Int.le_sub_one_of_lt lt)

theorem tickDown_nonneg (kind : Kind) (p : Int) : 0 ≤ kind.tickDown p := by
  rcases lt_or_ge 0 p with pos | none
  · rw [tickDown_eq pos]
    exact kind.alignDown_nonneg (p - 1)
  · exact (if_pos none).ge

/-! ## Several steps -/

/-- What is valid and not above a price is met on the way down, or lies further down. -/
theorem exists_descend (valid : kind.validPrice q = true) (n : Nat) (le : q ≤ p) :
    (∃ k ≤ n, kind.descend k p = q) ∨ q < kind.descend n p := by
  induction n generalizing p with
  | zero => exact le.eq_or_lt.imp (fun same => ⟨0, le_rfl, same.symm⟩) id
  | succ n ih =>
    rcases le.eq_or_lt with same | lt
    · exact .inl ⟨0, Nat.zero_le _, same.symm⟩
    · exact (ih (le_tickDown valid lt)).imp_left fun ⟨k, hk, met⟩ =>
        ⟨k + 1, Nat.succ_le_succ hk, met⟩

/-- What is valid and not below a price is met on the way up, or lies further up. -/
theorem exists_climb (valid : kind.validPrice q = true) (n : Nat) (nonneg : 0 ≤ p) (le : p ≤ q) :
    (∃ k ≤ n, kind.climb k p = q) ∨ kind.climb n p < q := by
  induction n generalizing p with
  | zero => exact le.eq_or_lt.imp (fun same => ⟨0, le_rfl, same⟩) id
  | succ n ih =>
    rcases le.eq_or_lt with same | lt
    · exact .inl ⟨0, Nat.zero_le _, same⟩
    · have up := kind.lt_tickUp p
      exact (ih (nonneg.trans up.le) (tickUp_le nonneg valid lt)).imp_left fun ⟨k, hk, met⟩ =>
        ⟨k + 1, Nat.succ_le_succ hk, met⟩

theorem climb_succ (kind : Kind) (n : Nat) (p : Int) :
    kind.climb (n + 1) p = kind.tickUp (kind.climb n p) := by
  induction n generalizing p with
  | zero => rfl
  | succ n ih => exact ih _

theorem lt_climb_succ (kind : Kind) (n : Nat) (p : Int) : kind.climb n p < kind.climb (n + 1) p :=
  climb_succ kind n p ▸ kind.lt_tickUp _

theorem climb_lt {m n : Nat} (lt : m < n) : kind.climb m p < kind.climb n p :=
  strictMono_nat_of_lt_succ (f := fun n => kind.climb n p) (fun n => kind.lt_climb_succ n p) lt

theorem climb_le {m n : Nat} (le : m ≤ n) : kind.climb m p ≤ kind.climb n p := by
  rcases le.lt_or_eq with lt | rfl
  · exact (climb_lt lt).le
  · exact le_rfl

theorem descend_succ (kind : Kind) (n : Nat) (p : Int) :
    kind.descend (n + 1) p = kind.tickDown (kind.descend n p) := by
  induction n generalizing p with
  | zero => rfl
  | succ n ih => exact ih _

theorem descend_nonneg (n : Nat) (nonneg : 0 ≤ p) : 0 ≤ kind.descend n p := by
  induction n generalizing p with
  | zero => exact nonneg
  | succ n ih => exact ih (kind.tickDown_nonneg p)

/-- As long as the way down has not come to zero, it leads lower with each step. -/
theorem descend_lt {m n : Nat} (lt : m < n) (pos : 0 < kind.descend n p) :
    kind.descend n p < kind.descend m p := by
  induction n with
  | zero => omega
  | succ n ih =>
    have before : 0 < kind.descend n p := by
      by_contra none
      rw [descend_succ, tickDown, if_pos (not_lt.mp none)] at pos
      omega
    have last : kind.descend (n + 1) p < kind.descend n p :=
      descend_succ kind n p ▸ tickDown_lt kind before
    rcases Nat.lt_succ_iff_lt_or_eq.mp lt with earlier | rfl
    · exact last.trans (ih earlier before)
    · exact last

theorem descend_le {m n : Nat} (le : m ≤ n) (pos : 0 < kind.descend n p) :
    kind.descend n p ≤ kind.descend m p :=
  le.lt_or_eq.elim (fun lt => (descend_lt lt pos).le) fun same => same ▸ le_rfl

end Kind

/-! ## Ladders -/

namespace Ladder

variable {l raw : Ladder} {kind : Kind} {side : Side} {price bid ask : Int} {j k : Fin 20}

/-- Whether a ladder has no gaps on either side of its best prices. A bid of zero is none. -/
structure Gapless (l : Ladder) (kind : Kind) : Prop where
  bid : 0 ≤ l.bestBid.price
  spread : l.bestBid.price < l.bestAsk.price
  asks : ∀ k : Fin 20, k.val < 10 →
    (l.levels.get k).price = kind.climb (9 - k.val) l.bestAsk.price
  bids : ∀ k : Fin 20, 10 ≤ k.val →
    (l.levels.get k).price = kind.descend (k.val - 10) l.bestBid.price

/-- Whether a ladder has two sides and no gaps in either of them. -/
structure Stepped (l : Ladder) (kind : Kind) : Prop extends Gapless l kind where
  bidden : 0 < l.bestBid.price

theorem gapless_around (nonneg : 0 ≤ bid) (lt : bid < ask) :
    (raw.around kind bid ask).Gapless kind := by
  have level : ∀ k : Fin 20, ((raw.around kind bid ask).levels.get k).price
      = if k.val < 10 then kind.climb (9 - k.val) ask else kind.descend (k.val - 10) bid := by
    intro k
    change ((raw.around kind bid ask).levels[k.val]).price = _
    simp only [around, layOut, Vector.getElem_ofFn]
  refine ⟨?_, ?_, fun k hk => ?_, fun k hk => ?_⟩
  · rwa [bestBid_around]
  · rwa [bestBid_around, bestAsk_around]
  · rw [level, if_pos hk, bestAsk_around]
  · rw [level, if_neg (not_lt.mpr hk), bestBid_around]

/-- Best prices in order are requantized around, if the bid is known or one step below the ask. -/
theorem requantize_of_lt (lt : bid < ask) (known : 0 < bid ∨ 0 < ask ∧ bid = kind.tickDown ask) :
    raw.requantize kind bid ask = raw.around kind bid ask := by
  rw [requantize]
  rcases known with pos | ⟨pos, below⟩
  · rw [if_neg fun none => not_le.mpr pos none.1, if_neg (not_le.mpr pos), if_neg (not_le.mpr lt)]
  · rw [if_neg fun none => not_le.mpr pos none.2, if_neg (not_le.mpr lt), ← below, ite_self]

/-- Where a best price is known, ladders are laid out around a bid and an ask in order, and
around these two in the same way. -/
theorem exists_around (kind : Kind) (known : 0 < bid ∨ 0 < ask) :
    ∃ b a, 0 ≤ b ∧ b < a
      ∧ (∀ l : Ladder, l.requantize kind bid ask = l.around kind b a)
      ∧ ∀ l : Ladder, l.requantize kind b a = l.around kind b a := by
  have some : ¬(bid ≤ 0 ∧ ask ≤ 0) := by omega
  by_cases noBid : bid ≤ 0
  · have pos : 0 < ask := known.resolve_left (not_lt.mpr noBid)
    have lt : kind.tickDown ask < ask := kind.tickDown_lt pos
    refine ⟨_, ask, kind.tickDown_nonneg ask, lt, fun l => ?_,
      fun l => requantize_of_lt lt (.inr ⟨pos, rfl⟩)⟩
    rw [requantize, if_neg some, if_pos noBid]
  · have pos : 0 < bid := not_le.mp noBid
    by_cases crossed : ask ≤ bid
    · have lt : bid < kind.tickUp bid := kind.lt_tickUp bid
      refine ⟨bid, _, pos.le, lt, fun l => ?_, fun l => requantize_of_lt lt (.inl pos)⟩
      rw [requantize, if_neg some, if_neg noBid, if_pos crossed]
    · have lt : bid < ask := not_le.mp crossed
      exact ⟨bid, ask, pos.le, lt, fun l => requantize_of_lt lt (.inl pos),
        fun l => requantize_of_lt lt (.inl pos)⟩

/-- Market data with a market on both sides leave no gaps. -/
theorem stepped_regrid (quoted : (raw.regrid kind).isQuoted = true) :
    (raw.regrid kind).Stepped kind := by
  simp only [isQuoted, Bool.and_eq_true, decide_eq_true_eq] at quoted
  by_cases known : 0 < raw.bestBid.price ∨ 0 < raw.bestAsk.price
  · obtain ⟨b, a, nonneg, lt, laid, -⟩ := exists_around kind known
    rw [regrid, laid raw] at quoted ⊢
    have gapless : (raw.around kind b a).Gapless kind := gapless_around nonneg lt
    exact ⟨gapless, quoted.1⟩
  · have none : raw.bestBid.price ≤ 0 ∧ raw.bestAsk.price ≤ 0 := by omega
    rw [regrid, requantize, if_pos none] at quoted
    exact absurd quoted.1 (not_lt.mpr none.1)

/-! ### Levels -/

namespace Gapless

theorem ask_le (h : l.Gapless kind) (hk : k.val < 10) :
    l.bestAsk.price ≤ (l.levels.get k).price := by
  rw [h.asks k hk]
  exact Kind.climb_le (Nat.zero_le (9 - k.val))

theorem le_bid (h : l.Gapless kind) (hk : 10 ≤ k.val) (pos : 0 < (l.levels.get k).price) :
    (l.levels.get k).price ≤ l.bestBid.price := by
  rw [h.bids k hk] at pos ⊢
  exact Kind.descend_le (Nat.zero_le (k.val - 10)) pos

/-- Prices fall with the index. -/
theorem price_lt (h : l.Gapless kind) (lt : j < k) (pos : 0 < (l.levels.get k).price) :
    (l.levels.get k).price < (l.levels.get j).price := by
  rw [Fin.lt_def] at lt
  rcases lt_or_ge k.val 10 with ask | bid
  · rw [h.asks k ask, h.asks j (by omega)]
    exact Kind.climb_lt (show 9 - k.val < 9 - j.val by omega)
  · rcases lt_or_ge j.val 10 with ask' | bid'
    · exact (h.le_bid bid pos).trans_lt (h.spread.trans_le (h.ask_le ask'))
    · rw [h.bids k bid] at pos ⊢
      rw [h.bids j bid']
      exact Kind.descend_lt (by omega) pos

theorem eq_of_price (h : l.Gapless kind) (pos : 0 < (l.levels.get k).price)
    (same : (l.levels.get j).price = (l.levels.get k).price) : j = k := by
  rcases lt_trichotomy j k with lt | same' | lt
  · exact absurd same (h.price_lt lt pos).ne'
  · exact same'
  · exact absurd same (h.price_lt lt (same ▸ pos)).ne

end Gapless

namespace Stepped

/-- What is valid and not above the best bid is a level or below all of them. -/
theorem exists_bid (h : l.Stepped kind) (valid : kind.validPrice price = true)
    (le : price ≤ l.bestBid.price) :
    (∃ k, (l.levels.get k).price = price) ∨ price < (l.levels.get 19).price := by
  rw [h.bids 19 (by decide)]
  refine (Kind.exists_descend valid 9 le).imp_left fun ⟨n, hn, met⟩ => ?_
  refine ⟨⟨10 + n, by omega⟩, ?_⟩
  rw [h.bids _ (Nat.le_add_right 10 n), Nat.add_sub_cancel_left, met]

/-- What is valid and not below the best ask is a level or above all of them. -/
theorem exists_ask (h : l.Stepped kind) (valid : kind.validPrice price = true)
    (le : l.bestAsk.price ≤ price) :
    (∃ k, (l.levels.get k).price = price) ∨ (l.levels.get 0).price < price := by
  rw [h.asks 0 (by decide)]
  refine (Kind.exists_climb valid 9 (h.bidden.trans h.spread).le le).imp_left fun ⟨n, hn, met⟩ => ?_
  refine ⟨⟨9 - n, by omega⟩, ?_⟩
  rw [h.asks _ (show 9 - n < 10 by omega), show 9 - (9 - n) = n by omega, met]

end Stepped

/-! ### Origins -/

/-- What is asked of the slot of an order that a ladder places: the level at its price if
there is one, a slot of its own inside the spread, and the outermost level of its side beyond
the visible depth, one of which is the case. -/
structure Places (l : Ladder) (side : Side) (price : Int) (slot : Slot) : Prop where
  level : ∀ k : Fin 20, (l.levels.get k).price = price → slot = k.castLE (by decide)
  improvedBid : slot = Slot.improvedBid
    ↔ side = .buy ∧ l.bestBid.price < price ∧ price < l.bestAsk.price
  improvedAsk : slot = Slot.improvedAsk
    ↔ side = .sell ∧ l.bestBid.price < price ∧ price < l.bestAsk.price
  lowest : side = .buy → price < (l.levels.get 19).price → slot = 19
  highest : side = .sell → (l.levels.get 0).price < price → slot = 0
  somewhere : (∃ k, (l.levels.get k).price = price)
    ∨ (l.bestBid.price < price ∧ price < l.bestAsk.price)
    ∨ (side = .buy ∧ price < (l.levels.get 19).price)
    ∨ (side = .sell ∧ (l.levels.get 0).price < price)

theorem ne_of_indexOf? (pos : 0 < price) (h : l.indexOf? price = none) (k : Fin 20) :
    (l.levels.get k).price ≠ price := by
  rw [indexOf?, if_neg (not_le.mpr pos), Vector.findFinIdx?_eq_none_iff] at h
  simpa using h (l.levels.get k) (Vector.getElem_mem k.isLt)

namespace Stepped

/-- No level is inside the spread. -/
theorem off_inside (h : l.Stepped kind) (above : l.bestBid.price < price)
    (below : price < l.bestAsk.price) (k : Fin 20) : (l.levels.get k).price ≠ price := by
  intro same
  rcases lt_or_ge k.val 10 with ask | bid
  · exact not_le.mpr below (same ▸ h.toGapless.ask_le ask)
  · exact not_le.mpr above (same ▸ h.toGapless.le_bid bid (same ▸ h.bidden.trans above))

theorem places_level (h : l.Stepped kind) (pos : 0 < (l.levels.get k).price) :
    l.Places side (l.levels.get k).price (k.castLE (by decide)) where
  level := fun j same => by rw [h.toGapless.eq_of_price pos same]
  improvedBid := iff_of_false (Fin.ne_of_lt k.isLt) fun inside =>
    h.off_inside inside.2.1 inside.2.2 k rfl
  improvedAsk := iff_of_false (Fin.ne_of_lt (k.isLt.trans (by decide))) fun inside =>
    h.off_inside inside.2.1 inside.2.2 k rfl
  lowest := by
    intro _ lower
    rcases (Fin.le_last k).lt_or_eq with lt | same
    · exact absurd (h.toGapless.price_lt lt (pos.trans lower)) (not_lt.mpr lower.le)
    · exact absurd lower (same ▸ lt_irrefl _)
  highest := by
    intro _ higher
    rcases (Fin.zero_le k).lt_or_eq with lt | same
    · exact absurd (h.toGapless.price_lt lt pos) (not_lt.mpr higher.le)
    · exact absurd higher (same ▸ lt_irrefl _)
  somewhere := .inl ⟨k, rfl⟩

theorem places_improvedBid (h : l.Stepped kind) (above : l.bestBid.price < price)
    (below : price < l.bestAsk.price) : l.Places .buy price Slot.improvedBid where
  level := fun k same => absurd same (h.off_inside above below k)
  improvedBid := iff_of_true rfl ⟨rfl, above, below⟩
  improvedAsk := iff_of_false (by decide) fun sell => nomatch sell.1
  lowest := by
    intro _ lower
    have pos := (h.bidden.trans above).trans lower
    exact absurd (h.toGapless.le_bid (k := 19) (by decide) pos) (not_le.mpr (above.trans lower))
  highest := fun sell => nomatch sell
  somewhere := .inr (.inl ⟨above, below⟩)

theorem places_improvedAsk (h : l.Stepped kind) (above : l.bestBid.price < price)
    (below : price < l.bestAsk.price) : l.Places .sell price Slot.improvedAsk where
  level := fun k same => absurd same (h.off_inside above below k)
  improvedBid := iff_of_false (by decide) fun buy => nomatch buy.1
  improvedAsk := iff_of_true rfl ⟨rfl, above, below⟩
  lowest := fun buy => nomatch buy
  highest := by
    intro _ higher
    exact absurd (h.toGapless.ask_le (k := 0) (by decide)) (not_le.mpr (higher.trans below))
  somewhere := .inr (.inl ⟨above, below⟩)

theorem places_lowest (off : ∀ k, (l.levels.get k).price ≠ price) (under : price ≤ l.bestBid.price)
    (lower : price < (l.levels.get 19).price) : l.Places .buy price 19 where
  level := fun k same => absurd same (off k)
  improvedBid := iff_of_false (by decide) fun inside => not_lt.mpr under inside.2.1
  improvedAsk := iff_of_false (by decide) fun sell => nomatch sell.1
  lowest := fun _ _ => rfl
  highest := fun sell => nomatch sell
  somewhere := .inr (.inr (.inl ⟨rfl, lower⟩))

theorem places_highest (off : ∀ k, (l.levels.get k).price ≠ price) (above : l.bestAsk.price ≤ price)
    (higher : (l.levels.get 0).price < price) : l.Places .sell price 0 where
  level := fun k same => absurd same (off k)
  improvedBid := iff_of_false (by decide) fun buy => nomatch buy.1
  improvedAsk := iff_of_false (by decide) fun inside => not_lt.mpr above inside.2.2
  lowest := fun buy => nomatch buy
  highest := fun _ _ => rfl
  somewhere := .inr (.inr (.inr ⟨rfl, higher⟩))

/-- What is valid or the best bid, and not beyond the opposite best, has a slot. -/
theorem exists_originSlot (h : l.Stepped kind) (pos : 0 < price)
    (within : match side with
      | .buy => price ≤ l.bestAsk.price
      | .sell => l.bestBid.price ≤ price)
    (onGrid : kind.validPrice price = true ∨ side = .sell ∧ price = l.bestBid.price) :
    ∃ slot, l.originSlot side price = some slot ∧ l.Places side price slot := by
  simp only [originSlot]
  cases found : l.indexOf? price with
  | some k =>
    obtain rfl := price_of_indexOf? found
    exact ⟨_, rfl, h.places_level pos⟩
  | none =>
    have off := ne_of_indexOf? pos found
    have two : ¬(l.bestBid.price ≤ 0 ∨ l.bestAsk.price ≤ 0) :=
      not_or.mpr ⟨not_le.mpr h.bidden, not_le.mpr (h.bidden.trans h.spread)⟩
    have valid : kind.validPrice price = true :=
      onGrid.resolve_right fun sellOff => off 10 sellOff.2.symm
    simp only [if_neg two]
    cases side with
    | buy =>
      have below : price < l.bestAsk.price := within.lt_of_ne fun same => off 9 same.symm
      rcases lt_or_ge l.bestBid.price price with above | under
      · exact ⟨_, if_pos ⟨above, below⟩, h.places_improvedBid above below⟩
      · have lower : price < (l.levels.get 19).price :=
          (h.exists_bid valid under).resolve_left fun ⟨k, same⟩ => off k same
        have outside : ¬(l.bestBid.price < price ∧ price < l.bestAsk.price) :=
          fun inside => not_lt.mpr under inside.1
        exact ⟨19, (if_neg outside).trans (if_pos lower), places_lowest off under lower⟩
    | sell =>
      have above : l.bestBid.price < price := within.lt_of_ne fun same => off 10 same
      rcases lt_or_ge price l.bestAsk.price with below | beyond
      · exact ⟨_, if_pos ⟨above, below⟩, h.places_improvedAsk above below⟩
      · have higher : (l.levels.get 0).price < price :=
          (h.exists_ask valid beyond).resolve_left fun ⟨k, same⟩ => off k same
        have outside : ¬(l.bestBid.price < price ∧ price < l.bestAsk.price) :=
          fun inside => not_lt.mpr beyond inside.2
        exact ⟨0, (if_neg outside).trans (if_pos higher), places_highest off beyond higher⟩

end Stepped

end Ladder

end TradingDesk
