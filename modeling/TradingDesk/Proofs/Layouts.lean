-- SUMMARY: With words of 64 bits, ladders are exact as long as their asks are in range, and stable.
import TradingDesk.Proofs.Requantizing
import TradingDesk.Proofs.Words

/-!
# Ladders with words

The bids of a ladder go down and are exact; its asks go up and are exact as long as the highest
of them is in range. So within that range a requantized ladder is the one that the integers
give. That it stays as it is when it is requantized again does not depend on the range: the same
prices come out of the same steps, wherever these lead, and each of them is found again.
-/

namespace TradingDesk

/-! ## Rows of prices -/

section Rows

variable {step : Int → Option Int} {n : Nat} {price : Int} {row : List Int}

/-- A row in which every step is known but the last one, which is taken and not shown. -/
theorem priceRow_exact {f : Nat → Int} (h : ∀ m < n, step (f m) = some (f (m + 1)))
    (last : (step (f n)).isSome) :
    priceRow step (n + 1) (f 0) = some ((List.range (n + 1)).map f) := by
  induction n generalizing f with
  | zero =>
    obtain ⟨next, hnext⟩ := Option.isSome_iff_exists.mp last
    simp [priceRow, hnext]
  | succ n ih =>
    have rest : priceRow step (n + 1) (f 1) = some ((List.range (n + 1)).map fun m => f (m + 1)) :=
      ih (f := fun m => f (m + 1)) (fun m hm => h (m + 1) (by omega)) last
    rw [priceRow, h 0 (by omega), List.range_succ_eq_map, List.map_cons, List.map_map]
    simp only [Option.bind_eq_bind, Option.bind_some, rest]
    rfl

theorem length_priceRow (h : priceRow step n price = some row) : row.length = n := by
  induction n generalizing price row with
  | zero =>
    cases h
    rfl
  | succ n ih =>
    simp only [priceRow, Option.bind_eq_bind, Option.bind_eq_some_iff, Option.some.injEq] at h
    obtain ⟨next, -, rest, hrest, rfl⟩ := h
    exact congrArg Nat.succ (ih hrest)

theorem head_priceRow (h : priceRow step (n + 1) price = some row) : row.head? = some price := by
  simp only [priceRow, Option.bind_eq_bind, Option.bind_eq_some_iff, Option.some.injEq] at h
  obtain ⟨next, -, rest, -, rfl⟩ := h
  rfl

/-- Two rows one after the other, the first one from its end. -/
theorem getD_rows {f g : Nat → Int} (k : Fin 20) :
    (((List.range 10).map f).reverse ++ (List.range 10).map g).getD k.val 0
      = if k.val < 10 then f (9 - k.val) else g (k.val - 10) := by
  rw [List.getD_eq_getElem?_getD]
  split
  next first =>
    rw [List.getElem?_append_left (by simpa using first),
      List.getElem?_reverse (by simpa using first), List.length_map, List.length_range,
      List.getElem?_map, List.getElem?_range (by omega)]
    rfl
  next second =>
    rw [List.getElem?_append_right (by simpa using second), List.length_reverse, List.length_map,
      List.length_range, List.getElem?_map, List.getElem?_range (by omega)]
    rfl

end Rows

namespace Overflow

open Ladder

variable {o : Overflow} {kind : Kind} {raw l : Ladder} {bid ask b a : Int}

/-- How many steps up from the best ask have to be in range. The tenth leads beyond the asks
that are shown, but a desk that stops takes it as well. -/
def stepsUp : Overflow → Nat
  | wraps => 9
  | stops => 10

/-! ## Exact ladders -/

theorem asks_exact (nonneg : 0 ≤ a) (range : FitsWord (kind.climb o.stepsUp a)) :
    priceRow (o.tickUp kind) 10 a = some ((List.range 10).map (kind.climb · a)) := by
  have nine : 9 ≤ o.stepsUp := by cases o <;> decide
  have up : ∀ m, 0 ≤ kind.climb m a := fun m => nonneg.trans (Kind.climb_le (Nat.zero_le m))
  have within : ∀ m ≤ o.stepsUp, FitsWord (kind.climb m a) := fun m => fitsWord_climb nonneg range
  refine priceRow_exact (f := (kind.climb · a)) (fun m hm => ?_) ?_
  · rw [Kind.climb_succ]
    refine tickUp_exact (up m) (within m (by omega)) ?_
    rw [← Kind.climb_succ]
    exact within (m + 1) (by omega)
  · rw [tickUp_eq_word (up 9) (within 9 nine), ← Kind.climb_succ]
    cases o with
    | wraps => rfl
    | stops => exact Option.isSome_iff_exists.mpr ⟨_, word_of_fitsWord range⟩

theorem bids_exact (h : FitsWord b) :
    priceRow (o.tickDown kind) 10 b = some ((List.range 10).map (kind.descend · b)) := by
  refine priceRow_exact (f := (kind.descend · b)) (fun m _ => ?_) ?_
  · rw [Kind.descend_succ]
    exact tickDown_exact (fitsWord_descend h)
  · rw [tickDown_exact (fitsWord_descend h)]
    rfl

theorem fitsWord_ask (nonneg : 0 ≤ a) (range : FitsWord (kind.climb o.stepsUp a)) : FitsWord a :=
  range.of_between nonneg (Kind.climb_le (Nat.zero_le _))

theorem around_exact (nonneg : 0 ≤ b) (lt : b < a) (range : FitsWord (kind.climb o.stepsUp a)) :
    o.around raw kind b a = some (raw.around kind b a) := by
  have word : FitsWord a := fitsWord_ask (nonneg.trans lt.le) range
  simp only [around, asks_exact (nonneg.trans lt.le) range,
    bids_exact (word.of_between nonneg lt.le), Option.bind_eq_bind, Option.bind_some,
    Ladder.around]
  exact congrArg some (congrArg raw.layOut (funext fun k => getD_rows k))

/-- A ladder is requantized to the one that the integers give if the asks of that one are in
range. -/
theorem requantize_exact
    (range : FitsWord (kind.climb o.stepsUp (raw.requantize kind bid ask).bestAsk.price)) :
    o.requantize raw kind bid ask = some (raw.requantize kind bid ask) := by
  simp only [requantize, Ladder.requantize] at range ⊢
  by_cases unknown : bid ≤ 0 ∧ ask ≤ 0
  · rw [if_pos unknown, if_pos unknown]
  · simp only [if_neg unknown] at range ⊢
    by_cases noBid : bid ≤ 0
    · have pos : 0 < ask := not_le.mp fun none => unknown ⟨noBid, none⟩
      simp only [if_pos noBid, bestAsk_around] at range ⊢
      have below : o.tickDown kind ask = some (kind.tickDown ask) :=
        tickDown_exact (fitsWord_ask pos.le range)
      simp only [below, Option.bind_eq_bind, Option.bind_some]
      exact around_exact (kind.tickDown_nonneg ask) (kind.tickDown_lt pos) range
    · have nonneg : 0 ≤ bid := (not_le.mp noBid).le
      by_cases crossed : ask ≤ bid
      · simp only [if_neg noBid, if_pos crossed, bestAsk_around] at range ⊢
        have up : bid < kind.tickUp bid := kind.lt_tickUp bid
        have next : FitsWord (kind.tickUp bid) := fitsWord_ask (nonneg.trans up.le) range
        simp only [tickUp_exact nonneg (next.of_between nonneg up.le) next, Option.bind_eq_bind,
          Option.bind_some]
        exact around_exact nonneg up range
      · simp only [if_neg noBid, if_neg crossed, bestAsk_around] at range ⊢
        exact around_exact nonneg (not_le.mp crossed) range

/-! ## Stable ladders -/

/-- Where best prices lead to prices at all, every ladder is laid out with them. -/
theorem around_eq_some (h : o.around raw kind b a = some l) :
    ∃ prices : Fin 20 → Int, prices 9 = a ∧ prices 10 = b
      ∧ ∀ l' : Ladder, o.around l' kind b a = some (l'.layOut prices) := by
  simp only [around, Option.bind_eq_bind, Option.bind_eq_some_iff, Option.some.injEq] at h ⊢
  obtain ⟨asks, hasks, bids, hbids, -⟩ := h
  have lengthAsks : asks.length = 10 := length_priceRow hasks
  have first : asks[0]? = some a := List.head?_eq_getElem? ▸ head_priceRow hasks
  have firstBid : bids[0]? = some b := List.head?_eq_getElem? ▸ head_priceRow hbids
  refine ⟨fun k => (asks.reverse ++ bids).getD k.val 0, ?_, ?_,
    fun l' => ⟨asks, hasks, bids, hbids, rfl⟩⟩
  · change (asks.reverse ++ bids).getD 9 0 = a
    rw [List.getD_eq_getElem?_getD, List.getElem?_append_left (by simp [lengthAsks]),
      List.getElem?_reverse (by simp [lengthAsks]), lengthAsks, first]
    rfl
  · change (asks.reverse ++ bids).getD 10 0 = b
    rw [List.getD_eq_getElem?_getD, List.getElem?_append_right (by simp [lengthAsks]),
      List.length_reverse, lengthAsks, firstBid]
    rfl

/-- Where one of the best prices is known, ladders are laid out around a bid and an ask, and
around these two in the same way. -/
theorem exists_around_words (hask : FitsWord ask) (known : 0 < bid ∨ 0 < ask)
    (h : o.requantize raw kind bid ask = some l) :
    ∃ b a, (∀ l' : Ladder, o.requantize l' kind bid ask = o.around l' kind b a)
      ∧ ∀ l' : Ladder, o.requantize l' kind b a = o.around l' kind b a := by
  have some : ¬(bid ≤ 0 ∧ ask ≤ 0) := by omega
  by_cases noBid : bid ≤ 0
  · have pos : 0 < ask := known.resolve_left (not_lt.mpr noBid)
    have lt : kind.tickDown ask < ask := kind.tickDown_lt pos
    have down : o.tickDown kind ask = Option.some (kind.tickDown ask) := tickDown_exact hask
    refine ⟨kind.tickDown ask, ask, fun l' => ?_, fun l' => ?_⟩
    · simp only [requantize, if_neg some, if_pos noBid, down, Option.bind_eq_bind, Option.bind_some]
    · have some' : ¬(kind.tickDown ask ≤ 0 ∧ ask ≤ 0) := fun none => not_le.mpr pos none.2
      simp only [requantize, if_neg some', if_neg (not_le.mpr lt), down, Option.bind_eq_bind,
        Option.bind_some, ite_self]
  · have pos : 0 < bid := not_le.mp noBid
    by_cases crossed : ask ≤ bid
    · simp only [requantize, if_neg some, if_neg noBid, if_pos crossed, Option.bind_eq_bind,
        Option.bind_eq_some_iff] at h
      obtain ⟨above, up, -⟩ := h
      have some' : ¬(bid ≤ 0 ∧ above ≤ 0) := fun none => noBid none.1
      refine ⟨bid, above, fun l' => ?_, fun l' => ?_⟩
      · simp only [requantize, if_neg some, if_neg noBid, if_pos crossed, up, Option.bind_eq_bind,
          Option.bind_some]
      · simp only [requantize, if_neg some', if_neg noBid, up, Option.bind_eq_bind,
          Option.bind_some, ite_self]
    · refine ⟨bid, ask, fun l' => ?_, fun l' => ?_⟩ <;>
        simp only [requantize, if_neg some, if_neg noBid, if_neg crossed]

/-- Requantizing again changes nothing, also where prices have left the words. -/
theorem requantize_requantize_words (hask : FitsWord ask) (known : 0 < bid ∨ 0 < ask)
    (h : o.requantize raw kind bid ask = some l) :
    o.requantize l kind bid ask = some l
      ∧ o.requantize l kind l.bestBid.price l.bestAsk.price = some l := by
  obtain ⟨b, a, laid, again⟩ := exists_around_words hask known h
  rw [laid] at h
  obtain ⟨prices, top, below, out⟩ := around_eq_some h
  rw [out] at h
  obtain rfl : raw.layOut prices = l := Option.some.inj h
  have bestAsk : (raw.layOut prices).bestAsk.price = a := by
    simpa [Ladder.bestAsk, layOut] using top
  have bestBid : (raw.layOut prices).bestBid.price = b := by
    simpa [Ladder.bestBid, layOut] using below
  constructor
  · rw [laid, out, layOut_layOut]
  · rw [bestBid, bestAsk, again, out, layOut_layOut]

/-! ## Instruments -/

/-- An instrument that has been quoted with words keeps its ladder when it is quoted that. -/
theorem quote_quote {i i' : Instrument} {avgPrice traded : Int}
    (hask : FitsWord raw.bestAsk.price) (h : o.quote i avgPrice traded raw = some i')
    (avgPrice' traded' : Int) :
    o.quote i' avgPrice' traded' i'.ladder
      = some { i' with avgPrice := avgPrice', traded := traded' } := by
  simp only [quote, Option.bind_eq_bind, Option.bind_eq_some_iff, Option.some.injEq] at h
  obtain ⟨l, laid, rfl⟩ := h
  have again : o.requantize l i.kind l.bestBid.price l.bestAsk.price = some l := by
    by_cases known : 0 < raw.bestBid.price ∨ 0 < raw.bestAsk.price
    · exact (requantize_requantize_words hask known laid).2
    · have unknown : raw.bestBid.price ≤ 0 ∧ raw.bestAsk.price ≤ 0 := by omega
      rw [requantize, if_pos unknown] at laid
      obtain rfl : raw = l := Option.some.inj laid
      rw [requantize, if_pos unknown]
  simp only [quote, again, Option.bind_eq_bind, Option.bind_some]

theorem quote_exact {i : Instrument} (regridded : i.Regridded)
    (range : FitsWord (i.kind.climb o.stepsUp i.ladder.bestAsk.price)) (avgPrice traded : Int) :
    o.quote i avgPrice traded i.ladder = some { i with avgPrice, traded } := by
  have same : i.ladder.requantize i.kind i.ladder.bestBid.price i.ladder.bestAsk.price = i.ladder :=
    regridded
  have laid : o.requantize i.ladder i.kind i.ladder.bestBid.price i.ladder.bestAsk.price
      = some i.ladder := by
    rw [requantize_exact (same.symm ▸ range), same]
  simp only [quote, laid, Option.bind_eq_bind, Option.bind_some]

end Overflow

end TradingDesk
