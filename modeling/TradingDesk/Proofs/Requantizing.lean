-- SUMMARY: Requantized ladders have no gaps, and requantizing them again changes nothing.
import TradingDesk.Proofs.Grid
import TradingDesk.Proofs.Reachability
import TradingDesk.Proofs.Relays

/-!
# Requantizing

A requantized ladder is laid out around two best prices in order, with the quantities that
the raw ladder shows at the prices it gets. Where two of its prices were the same, so would
their quantities be; so laying it out again around the same prices finds every quantity
unchanged, whether or not the prices are on the grid. Its own best prices are those that it
was laid out around, and a ladder that was never quoted has none and is left alone. Hence
the ladder of an instrument is at any time the one that it is requantized to.
-/

namespace TradingDesk

namespace Ladder

variable {l raw : Ladder} {kind : Kind} {price bid ask b a : Int} {prices : Fin 20 → Int}

/-! ## Quantities -/

/-- The quantity shown at a price is that of the first level there. -/
theorem qtyAt_eq_find? (pos : 0 < price) :
    l.qtyAt price = ((l.levels.toList.find? (·.price == price)).map Level.qty).getD 0 := by
  rw [Vector.find?_toList, Vector.find?_eq_map_findFinIdx?_getElem, qtyAt, indexOf?,
    if_neg (not_le.mpr pos)]
  cases l.levels.findFinIdx? (·.price == price) <;> rfl

theorem qtyAt_of_nonpos (none : price ≤ 0) : l.qtyAt price = 0 := by
  rw [qtyAt, indexOf?, if_pos none]

theorem qty_layOut (k : Fin 20) :
    ((raw.layOut prices).levels.get k).qty
      = raw.qtyAt ((raw.layOut prices).levels.get k).price := by
  change (raw.layOut prices).levels[k.val].qty = raw.qtyAt (raw.layOut prices).levels[k.val].price
  simp only [layOut, Vector.getElem_ofFn]

/-! ## Laying out again -/

/-- A ladder that is laid out again with the same prices stays as it is, whatever they are. -/
theorem layOut_layOut : (raw.layOut prices).layOut prices = raw.layOut prices := by
  have shows : ∀ k : Fin 20, (raw.layOut prices).qtyAt (prices k) = raw.qtyAt (prices k) := by
    intro k
    have here : ((raw.layOut prices).levels[k]).price = prices k := by
      simp only [layOut, Fin.getElem_fin, Vector.getElem_ofFn]
    rcases lt_or_ge 0 (prices k) with pos | none
    · exact qtyAt_layOut_of_shown pos ⟨k, here⟩
    · rw [qtyAt_of_nonpos none, qtyAt_of_nonpos none]
  refine congrArg Ladder.mk (Vector.ext fun k hk => ?_)
  simp only [layOut, Vector.getElem_ofFn] at shows ⊢
  rw [shows ⟨k, hk⟩]

theorem around_around : (raw.around kind b a).around kind b a = raw.around kind b a :=
  layOut_layOut

/-- Requantizing again, with the same known prices or with the best prices of the result,
changes nothing. -/
theorem requantize_requantize (known : 0 < bid ∨ 0 < ask) :
    (raw.requantize kind bid ask).requantize kind bid ask = raw.requantize kind bid ask
      ∧ (raw.requantize kind bid ask).regrid kind = raw.requantize kind bid ask := by
  obtain ⟨b, a, -, -, laid, again⟩ := exists_around kind known
  constructor
  · rw [laid, laid, around_around]
  · rw [laid, regrid, bestBid_around, bestAsk_around, again, around_around]

theorem regrid_regrid : (l.regrid kind).regrid kind = l.regrid kind := by
  by_cases known : 0 < l.bestBid.price ∨ 0 < l.bestAsk.price
  · exact (requantize_requantize known).2
  · have none : l.bestBid.price ≤ 0 ∧ l.bestAsk.price ≤ 0 := by omega
    have same : l.regrid kind = l := if_pos none
    rw [same, same]

theorem regrid_empty : empty.regrid kind = empty := by
  have none : empty.bestBid.price ≤ 0 ∧ empty.bestAsk.price ≤ 0 := by decide
  rw [regrid, requantize, if_pos none]

/-! ## Requantized ladders -/

namespace Gapless

theorem price_nonneg (h : l.Gapless kind) (k : Fin 20) : 0 ≤ (l.levels.get k).price := by
  rcases lt_or_ge k.val 10 with ask | bid
  · exact (h.bid.trans h.spread.le).trans (h.ask_le ask)
  · rw [h.bids k bid]
    exact Kind.descend_nonneg _ h.bid

/-- Prices fall with the index until there are none left. -/
theorem falls (h : l.Gapless kind) {j k : Fin 20} (lt : j < k) :
    (l.levels.get k).price < (l.levels.get j).price
      ∨ (l.levels.get j).price = 0 ∧ (l.levels.get k).price = 0 := by
  rcases (h.price_nonneg k).lt_or_eq with pos | none
  · exact .inl (h.price_lt lt pos)
  · rw [← none]
    exact (h.price_nonneg j).lt_or_eq.imp id fun zero => ⟨zero.symm, rfl⟩

end Gapless

/-- What is asked of a ladder that `raw` is requantized to. A price of zero is none. -/
structure Requantized (raw l : Ladder) (kind : Kind) : Prop extends Gapless l kind where
  nonneg : ∀ k, 0 ≤ (l.levels.get k).price
  falls : ∀ j k, j < k → (l.levels.get k).price < (l.levels.get j).price
    ∨ (l.levels.get j).price = 0 ∧ (l.levels.get k).price = 0
  quantities : ∀ k, 0 < (l.levels.get k).price → (l.levels.get k).qty
    = ((raw.levels.toList.find? (·.price == (l.levels.get k).price)).map Level.qty).getD 0

theorem requantized_requantize (known : 0 < bid ∨ 0 < ask) :
    Requantized raw (raw.requantize kind bid ask) kind := by
  obtain ⟨b, a, nonneg, lt, laid, -⟩ := exists_around kind known
  rw [laid]
  have gapless : (raw.around kind b a).Gapless kind := gapless_around nonneg lt
  exact {
    toGapless := gapless
    nonneg := gapless.price_nonneg
    falls := fun _ _ lt => gapless.falls lt
    quantities := fun k pos => (qty_layOut k).trans (qtyAt_eq_find? pos) }

end Ladder

/-! ## Instruments -/

/-- Whether the ladder is the one that it is requantized to. -/
def Instrument.Regridded (i : Instrument) : Prop := i.ladder.regrid i.kind = i.ladder

namespace Instrument

variable {i j : Instrument}

theorem Regridded.congr (h : j.Regridded) (kind : i.kind = j.kind) (ladder : i.ladder = j.ladder) :
    i.Regridded := by
  rw [Regridded, kind, ladder]
  exact h

theorem Regridded.takeOver (h : i.Regridded) (depth : Option Depth) :
    (i.takeOver depth).Regridded := by
  cases depth with
  | none => exact h
  | some d => exact Ladder.regrid_regrid

end Instrument

namespace Book

variable {b b' : Book} {code : String} {i j : Instrument} {cause : Cause} {e : Event}
  {history events : List Event}

def Regridded (b : Book) : Prop := ∀ i ∈ b.instruments, i.Regridded

theorem regridded_opening (balance : Int) (ts : List Tracked) : (opening balance ts).Regridded := by
  intro i hi
  rw [Instrument.Regridded, ladder_opening hi]
  exact Ladder.regrid_empty

theorem Regridded.sweep (h : b.Regridded) : b.sweep.Regridded := by
  intro i hi
  obtain ⟨j, hj, rfl⟩ := List.mem_map.mp hi
  exact (h j hj).congr rfl rfl

theorem Regridded.set (h : b.Regridded) (found : b.find? code = some j) (kind : i.kind = j.kind)
    (ladder : i.ladder = j.ladder) : (b.set i).Regridded :=
  forall_set h ((h j (mem_of_find? found)).congr kind ladder)

/-- Placing, filling or canceling an order leaves the ladder alone. -/
theorem Step.regridded (step : Step b (some e) b') (h : b.Regridded) : b'.Regridded := by
  cases step with
  | place found placed =>
    rw [insert_eq_ok found placed]
    exact h.set found rfl rfl
  | fill found _ filled =>
    obtain ⟨-, -, -, -, -, -, -, rfl⟩ := Instrument.fill_eq_some filled
    exact h.set found rfl rfl
  | cancel found _ withdrawn =>
    obtain ⟨-, -, -, rfl⟩ := Instrument.withdraw_eq_some withdrawn
    exact h.set found rfl rfl

theorem Regridded.quote {avgPrice traded : Int} {raw : Ladder} (h : b.Regridded) :
    (b.call (.quote code avgPrice traded raw)).Regridded := by
  simp only [call, Book.quote]
  cases b.find? code with
  | none => exact h
  | some i => exact forall_set h Ladder.regrid_regrid

theorem Regridded.insert {side : Side} {price qty : Int} {p : Posted Key} (h : b.Regridded)
    (placed : b.insert code side price qty = .ok p) : p.book.Regridded := by
  cases found : b.find? code with
  | none => simp [Book.insert, found] at placed
  | some i => exact (Step.place found placed).regridded h

theorem Regridded.call (h : b.Regridded) (c : Command) : (b.call c).Regridded := by
  cases c with
  | quote => exact h.quote
  | sweep => exact h.sweep
  | insert code side price qty =>
    simp only [Book.call]
    cases placed : b.insert code side price qty with
    | error => exact h
    | ok p => exact h.insert placed
  | trade code key price qty =>
    rcases b.call_trade code key price qty with ⟨-, same⟩ | ⟨e, -, step, -⟩
    · rw [same]
      exact h
    · exact step.regridded h
  | cancel code key qty =>
    rcases b.call_cancel code key qty with ⟨-, same⟩ | ⟨e, -, step, -⟩
    · rw [same]
      exact h
    · exact step.regridded h

theorem Regridded.calls (h : b.Regridded) (cs : List Command) : (b.calls cs).Regridded := by
  induction cs generalizing b with
  | nil => exact h
  | cons c cs ih => exact ih (h.call c)

/-- Market data are requantized when they come in. -/
theorem Move.regridded (move : Move b cause events b') (data : ¬cause.IsRequest) (hb : b.WellFormed)
    (h : b.Regridded) : b'.Regridded := by
  cases move with
  | quiet _ rest =>
    intro i hi
    obtain ⟨j, hj, same⟩ := exists_of_quiet rest hi
    rw [same]
    exact (h j hj).congr rfl rfl
  | sweep => exact h.sweep
  | @tick code i found depth prints =>
    have mem := mem_of_find? found
    have trades : (i.takeOver depth).Trades (i.matchTick depth prints).fills _ :=
      Instrument.trades_matchTick (hb.sorted i mem)
    intro j hj
    rw [instruments_postAll] at hj
    exact forall_set h (((h i mem).takeOver depth).congr trades.kind trades.ladder) j hj
  | place => exact absurd trivial data
  | cancel => exact absurd trivial data

theorem MovesBy.regridded {P : Cause → Prop} (moves : MovesBy P b history b')
    (data : ∀ c, P c → ¬c.IsRequest) (hb : b.WellFormed) (h : b.Regridded) : b'.Regridded := by
  induction moves with
  | refl => exact h
  | snoc moves move meets ih => exact move.regridded (data _ meets) (moves.wellFormed hb) ih

end Book

/-! ## Brokers -/

namespace Simulation

variable {s : Simulation}

theorem regridded_execute (h : s.book.Regridded) (op : Operation) :
    (s.execute op).state.book.Regridded := by
  cases op with
  | insert code side price qty =>
    simp only [execute, Simulation.insert]
    cases placed : s.book.insert code side price qty with
    | error e => exact h
    | ok p =>
      have after := h.insert placed
      simp only
      split
      next found => exact after.set found rfl rfl
      · exact after
  | cancel code key qty =>
    simp only [execute, Simulation.cancel]
    have after := h.call (.cancel code key qty)
    simp only [Book.call] at after
    cases canceled : s.book.cancel code key qty with
    | error e => exact h
    | ok p =>
      rw [canceled] at after
      simp only
      split
      · exact after
      next found =>
        split
        · exact after
        · split
          · exact after.set found rfl rfl
          · exact after

theorem Reachable.regridded (h : s.Reachable) : s.book.Regridded := by
  induction h with
  | opened balance ts book =>
    rw [book]
    exact Book.regridded_opening balance ts
  | @advance s h c ih =>
    have any : s.quotes.Holds (·.Shows fun _ => True) := Tape.holds_of_forall shows_true _
    exact (moves_advance any h.wellFormed).regridded (fun _ => And.left) h.wellFormed ih
  | @reserve s _ n ih =>
    rw [book_reserve]
    exact ih
  | execute _ op ih => exact regridded_execute ih op
  | flag _ _ ih => exact ih

end Simulation

namespace Live

variable {β : Type} {l : Live β}

theorem regridded_handle (h : l.book.Regridded) (e : MarketEvent) :
    (l.handle e).state.book.Regridded := by
  cases reported : l.report? e with
  | some r =>
    rw [handle_report reported]
    exact h.call r.command
  | none =>
    rw [handle_market reported]
    cases e with
    | quote => exact h.quote
    | index => exact h
    | trade => exact h
    | fill => exact h
    | canceled => exact h

theorem regridded_handleAll (h : l.book.Regridded) (es : List MarketEvent) :
    (l.handleAll es).state.book.Regridded := by
  induction es generalizing l with
  | nil => exact h
  | cons e es ih =>
    rw [handleAll, state_bind_handle]
    exact ih (regridded_handle h e)

theorem regridded_waitUntil (h : l.book.Regridded) (boundary : Nat) (readings : List Nat) :
    (waitUntil boundary readings l).state.book.Regridded := by
  induction readings generalizing l with
  | nil => exact h
  | cons now later ih =>
    simp only [waitUntil]
    split
    · exact h
    · cases l.events with
      | nil =>
        simp only
        split
        · exact ih h
        · exact h
      | cons e es =>
        simp only [state_bind_handle]
        exact ih (regridded_handle (l := { l with events := es }) h e)

theorem regridded_settle (h : l.book.Regridded) : l.settle.book.Regridded := by
  simp only [settle]
  split <;> exact h

theorem regridded_advance (h : l.book.Regridded) (c : TickContext) :
    (l.advance c).state.book.Regridded := by
  have turned : (l.turn c.tick).book.Regridded := h.sweep
  simp only [advance]
  split
  · exact turned
  · have waited := regridded_waitUntil turned c.boundary (l.turn c.tick).readings
    generalize waitUntil c.boundary (l.turn c.tick).readings (l.turn c.tick) = o at waited
    obtain ⟨result, w, notices⟩ := o
    cases result with
    | error => exact waited
    | ok =>
      have drained := regridded_handleAll (l := { w with events := [] }) waited w.events
      simp only [Outcome.bind, drain, handleAll_result]
      exact regridded_settle drained

variable [Brokerage β]

theorem regridded_execute (h : l.book.Regridded) (op : Operation) :
    (l.execute op).state.book.Regridded := by
  cases op with
  | insert code side price qty =>
    simp only [execute, insert]
    cases l.gate.acquire.result with
    | error e => exact h
    | ok =>
      simp only
      cases (Brokerage.place l.brokerage code side price qty).1 with
      | error e => exact h
      | ok number =>
        simp only
        cases placed : l.book.insert code side price qty with
        | error e => exact h
        | ok p => exact h.insert placed
  | cancel code key qty =>
    simp only [execute, cancel]
    cases l.byKey.lookup key with
    | none => exact h
    | some number =>
      simp only
      cases l.gate.acquire.result <;> exact h

theorem keeps_regridded : Broker.Keeps fun l : Live β => l.book.Regridded where
  takeInterrupt _ h := h
  reserve l n h := by
    change (l.reserve n).state.book.Regridded
    simp only [reserve]
    cases l.budget.reserve n <;> exact h
  execute _ op h := regridded_execute h op

theorem regridded_accept (h : l.book.Regridded) (input : Input β) :
    (l.accept input).book.Regridded := by
  cases input with
  | send e =>
    simp only [accept, send]
    split <;> exact h
  | hangUp => exact h
  | raise => exact h
  | clock => exact h
  | become => exact h
  | time => exact h
  | advance c => exact regridded_advance h c
  | apply text => exact keeps_regridded.apply text h

theorem regridded_run (h : l.book.Regridded) (inputs : List (Input β)) :
    (l.run inputs).book.Regridded := by
  induction inputs generalizing l with
  | nil => exact h
  | cons input inputs ih => exact ih (regridded_accept h input)

end Live

/-- The instruments that come about: in a book that is called from outside, in a simulation
and in live trading. -/
inductive Instrument.Arises : Instrument → Prop
  | called {i : Instrument} (balance : Int) (ts : List Tracked) (cs : List Command)
      (mem : i ∈ ((Book.opening balance ts).calls cs).instruments) : Arises i
  | simulated {i : Instrument} {s : Simulation} (reachable : s.Reachable)
      (mem : i ∈ s.book.instruments) : Arises i
  | traded {i : Instrument} {β : Type} [Brokerage β] {l : Live β} (fresh : l.Fresh)
      (inputs : List (Live.Input β)) (mem : i ∈ (l.run inputs).book.instruments) : Arises i

theorem Instrument.Arises.regridded {i : Instrument} (h : i.Arises) : i.Regridded := by
  cases h with
  | called balance ts cs mem =>
    have start := Book.regridded_opening balance ts
    exact start.calls cs i mem
  | simulated reachable mem => exact reachable.regridded i mem
  | traded fresh inputs mem =>
    obtain ⟨balance, ts, opened⟩ := fresh.book
    have start := Book.regridded_opening balance ts
    rw [← opened] at start
    exact Live.regridded_run start inputs i mem

/-- Whatever a raw ladder shows, and whichever of the best prices is known, it is requantized
to a ladder without gaps and with the raw quantities, which requantizing again changes no more.
So an instrument that is quoted its own ladder keeps it. -/
theorem Ladder.requantize_settles :
    (∀ (raw : Ladder) (kind : Kind) (bid ask : Int), 0 < bid ∨ 0 < ask →
        let l := raw.requantize kind bid ask
        Requantized raw l kind
          ∧ l.requantize kind bid ask = l
          ∧ l.requantize kind l.bestBid.price l.bestAsk.price = l)
      ∧ ∀ i : Instrument, i.Arises → ∀ avgPrice traded,
          i.quote avgPrice traded i.ladder = { i with avgPrice, traded } := by
  refine ⟨fun raw kind bid ask known => ?_, fun i arises avgPrice traded => ?_⟩
  · exact ⟨requantized_requantize known, requantize_requantize known⟩
  · have same : i.ladder.regrid i.kind = i.ladder := arises.regridded
    rw [Instrument.quote, same]

end TradingDesk
