-- SUMMARY: Market data after which the market faces a price of a side.
import Mathlib.Tactic.SplitIfs
import TradingDesk.Proofs.Queues
import TradingDesk.Simulation.Match

/-!
# Markets that face a price

When the market faces a price of a side, that price is the best of the side and the next
better one is what the other side offers. An order at the price is not at the top then,
and one at any better price is. Every price that has a positive one beyond it can be
faced, with any quantities shown on both sides.
-/

namespace TradingDesk

namespace Kind

/-- A price and the valid price below it lie in one band. -/
theorem tickSize_alignDown (kind : Kind) (price : Int) :
    kind.tickSize (kind.alignDown price) = kind.tickSize price := by
  simp only [alignDown]
  split
  next none =>
    cases kind with
    | equity => rw [tickSize, tickSize, if_pos (by decide), if_pos (by omega)]
    | warrant => rfl
    | tracker => rfl
  next pos =>
    cases kind with
    | equity =>
      obtain ⟨tick, band⟩ : ∃ tick, equity.tickSize price = tick := ⟨_, rfl⟩
      rw [band]
      simp only [tickSize] at band ⊢
      split_ifs at band <;> subst band <;> split_ifs <;> omega
    | warrant => rfl
    | tracker => rfl

theorem lt_alignDown_add (kind : Kind) (price : Int) :
    price < kind.alignDown price + kind.tickSize price := by
  have step := kind.tickSize_pos price
  have rest := Int.emod_lt_of_pos price step
  simp only [alignDown]
  split <;> omega

theorem lt_tickUp (kind : Kind) (price : Int) : price < kind.tickUp price := by
  simp only [tickUp]
  split
  · rw [tickSize_alignDown]
    exact kind.lt_alignDown_add price
  · exact Int.lt_add_of_pos_right price (kind.tickSize_pos price)

theorem tickDown_lt (kind : Kind) {price : Int} (pos : 0 < price) : kind.tickDown price < price := by
  have step := kind.tickSize_pos (price - 1)
  simp only [tickDown, if_neg (not_le.mpr pos)]
  split
  next below => exact below
  · omega

end Kind

namespace Side

/-- The price next to one that is better for a side. -/
def beyond (side : Side) (price : Int) : Int :=
  match side with
  | .buy => price + 1
  | .sell => price - 1

/-- Prices that a quote can show with a better one beyond them. -/
def HasBeyond (side : Side) (price : Int) : Prop := 0 < price ∧ 0 < side.beyond price

end Side

namespace Ladder

variable {l : Ladder} {kind : Kind} {side : Side} {price c f bid ask : Int}

/-- The best level that an order of a side trades against. -/
def facing (l : Ladder) : Side → Level
  | .buy => l.bestAsk
  | .sell => l.bestBid

theorem price_of_indexOf? {k : Fin 20} (h : l.indexOf? price = some k) :
    (l.levels.get k).price = price := by
  simp only [indexOf?] at h
  split at h
  · cases h
  · have first : l.levels.find? (·.price == price) = some (l.levels.get k) := by
      rw [Vector.find?_eq_map_findFinIdx?_getElem, h]
      rfl
    simpa using Vector.find?_some first

/-- What a ladder shows at a price, when all its levels at that price agree. -/
theorem qtyAt_eq {qty : Int} (pos : 0 < price) (shown : ∃ k : Fin 20, l.levels[k].price = price)
    (agree : ∀ k : Fin 20, l.levels[k].price = price → l.levels[k].qty = qty) :
    l.qtyAt price = qty := by
  obtain ⟨k, hk⟩ := shown
  simp only [qtyAt]
  cases found : l.indexOf? price with
  | none =>
    rw [indexOf?, if_neg (not_le.mpr pos), Vector.findFinIdx?_eq_none_iff] at found
    exact absurd hk (by simpa using found l.levels[k] (by simp))
  | some j => exact agree j (price_of_indexOf? found)

/-- Nothing is shown at a price that is not on the ladder. -/
theorem qtyAt_eq_zero (off : ∀ level ∈ l.levels.toList, level.price ≠ price) :
    l.qtyAt price = 0 := by
  simp only [qtyAt]
  cases found : l.indexOf? price with
  | none => rfl
  | some k =>
    have mem : l.levels.get k ∈ l.levels.toList :=
      Vector.mem_toList_iff.mpr (Vector.getElem_mem k.isLt)
    exact absurd (price_of_indexOf? found) (off _ mem)

theorem bestBid_around : (l.around kind bid ask).bestBid = ⟨bid, l.qtyAt bid⟩ := by
  simp [bestBid, around, layOut, Kind.descend]

theorem bestAsk_around : (l.around kind bid ask).bestAsk = ⟨ask, l.qtyAt ask⟩ := by
  simp [bestAsk, around, layOut, Kind.climb]

/-- At each price that it shows, a ladder has the quantity that it was laid out from. -/
theorem qtyAt_layOut_of_shown {prices : Fin 20 → Int} (pos : 0 < price)
    (shown : ∃ k : Fin 20, (l.layOut prices).levels[k].price = price) :
    (l.layOut prices).qtyAt price = l.qtyAt price := by
  refine qtyAt_eq pos shown ?_
  intro k
  simp only [layOut, Fin.getElem_fin, Vector.getElem_ofFn]
  intro here
  rw [here]

theorem qtyAt_around (pos : 0 < price) (best : bid = price ∨ ask = price) :
    (l.around kind bid ask).qtyAt price = l.qtyAt price := by
  refine qtyAt_layOut_of_shown pos ?_
  rcases best with rfl | rfl
  · exact ⟨10, congrArg Level.price bestBid_around⟩
  · exact ⟨9, congrArg Level.price bestAsk_around⟩

/-- Market data with a best bid and a best ask and nothing else. -/
def narrow (bid ask : Level) : Ladder where
  levels := Vector.ofFn fun k => if k = 10 then bid else if k = 9 then ask else ⟨0, 0⟩

theorem qtyAt_narrow (bid ask : Level) (hbid : 0 < bid.price) (lt : bid.price < ask.price) :
    (narrow bid ask).qtyAt bid.price = bid.qty ∧ (narrow bid ask).qtyAt ask.price = ask.qty := by
  constructor
  · refine qtyAt_eq hbid ⟨10, by simp [narrow]⟩ fun k => ?_
    simp only [narrow, Fin.getElem_fin, Vector.getElem_ofFn]
    split
    · exact fun _ => rfl
    · split
      · omega
      · simp only
        omega
  · refine qtyAt_eq (hbid.trans lt) ⟨9, by simp [narrow]⟩ fun k => ?_
    simp only [narrow, Fin.getElem_fin, Vector.getElem_ofFn]
    split
    · omega
    · split
      · exact fun _ => rfl
      · simp only
        omega

theorem regrid_narrow (bid ask : Level) (hbid : 0 < bid.price) (lt : bid.price < ask.price) :
    (narrow bid ask).regrid kind = (narrow bid ask).around kind bid.price ask.price := by
  have hb : (narrow bid ask).bestBid = bid := by simp [bestBid, narrow]
  have ha : (narrow bid ask).bestAsk = ask := by simp [bestAsk, narrow]
  rw [regrid, requantize, hb, ha, if_neg (by omega), if_neg (by omega), if_neg (by omega)]

/-- A market in which a price is the best of its side, with the next better one facing it. -/
structure Faces (l : Ladder) (side : Side) (price c f : Int) : Prop where
  quoted : l.isQuoted = true
  shown : l.qtyAt price = c
  facing : l.facing side = ⟨side.beyond price, f⟩
  isTop : ∀ p, l.isTop side p = true ↔ side.priority p < side.priority price
  aggressor : l.aggressor price ≠ some side

namespace Faces

theorem notTop (h : l.Faces side price c f) : l.isTop side price = false := by
  rw [← Bool.not_eq_true, h.isTop]
  exact lt_irrefl _

theorem cap (h : l.Faces side price c f) (hc : 0 ≤ c) : l.cap side price = c := by
  rw [Ladder.cap, h.notTop, h.shown]
  simp [hc]

/-- At a better price others have nothing before an order. -/
theorem cap_beyond (h : l.Faces side price c f) {p : Int}
    (better : side.priority p < side.priority price) :
    l.cap side p = 0 :=
  if_pos ((h.isTop p).mpr better)

end Faces

/-- Market data for it. -/
def opening (side : Side) (price c f : Int) : Ladder :=
  match side with
  | .buy => narrow ⟨price, c⟩ ⟨side.beyond price, f⟩
  | .sell => narrow ⟨side.beyond price, f⟩ ⟨price, c⟩

theorem faces_opening (h : side.HasBeyond price) :
    ((opening side price c f).regrid kind).Faces side price c f := by
  obtain ⟨pos, room⟩ := h
  cases side with
  | buy =>
    have lt : (⟨price, c⟩ : Level).price < (⟨price + 1, f⟩ : Level).price := by simp
    obtain ⟨hbid, hask⟩ := qtyAt_narrow _ _ pos lt
    have grid : (opening .buy price c f).regrid kind
        = (narrow ⟨price, c⟩ ⟨price + 1, f⟩).around kind price (price + 1) := regrid_narrow _ _ pos lt
    have bid : ((opening .buy price c f).regrid kind).bestBid = ⟨price, c⟩ := by
      rw [grid, bestBid_around, hbid]
    have ask : ((opening .buy price c f).regrid kind).bestAsk = ⟨price + 1, f⟩ := by
      rw [grid, bestAsk_around, hask]
    simp only [Side.beyond] at room
    refine ⟨?_, ?_, ask, fun p => ?_, ?_⟩
    · simp [isQuoted, bid, ask, pos, room]
    · rw [grid, qtyAt_around pos (.inl rfl), hbid]
    · simp only [isTop, ask, Side.priority, decide_eq_true_eq]
      omega
    · simp [aggressor, bid, pos]
  | sell =>
    simp only [Side.beyond] at room
    have lt : (⟨price - 1, f⟩ : Level).price < (⟨price, c⟩ : Level).price := by simp
    obtain ⟨hbid, hask⟩ := qtyAt_narrow _ _ room lt
    have grid : (opening .sell price c f).regrid kind
        = (narrow ⟨price - 1, f⟩ ⟨price, c⟩).around kind (price - 1) price := regrid_narrow _ _ room lt
    have bid : ((opening .sell price c f).regrid kind).bestBid = ⟨price - 1, f⟩ := by
      rw [grid, bestBid_around, hbid]
    have ask : ((opening .sell price c f).regrid kind).bestAsk = ⟨price, c⟩ := by
      rw [grid, bestAsk_around, hask]
    refine ⟨?_, ?_, bid, fun p => ?_, ?_⟩
    · simp only [isQuoted, bid, ask, Bool.and_eq_true, decide_eq_true_eq]
      exact ⟨room, pos⟩
    · rw [grid, qtyAt_around pos (.inr rfl), hask]
    · simp only [isTop, bid, Side.priority, decide_eq_true_eq]
      omega
    · simp [aggressor, bid, ask, pos]

end Ladder

end TradingDesk
