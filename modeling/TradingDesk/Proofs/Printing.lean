-- SUMMARY: A tick without a new ladder does what its prints do, however they are spread over ticks.
import TradingDesk.Proofs.Conservation
import TradingDesk.Proofs.Fills
import TradingDesk.Proofs.Shedding

/-!
# Printing

An instrument that is up to date is still: refreshing its queues, handing out the opposite
best and correcting gaps change nothing. A tick that leaves its ladder as it is can do
nothing to it but print. Prints keep it up to date, and sweeps between them make no
difference, so it does not matter how they are spread over ticks.
-/

namespace TradingDesk

namespace Matched

variable {i : Instrument} {m : Matched} {step : Instrument → Matched}

theorem start_andThen : (start i).andThen step = step i := rfl

theorem andThen_of_still (still : step m.instrument = .start m.instrument) :
    m.andThen step = m := by
  rw [andThen, still]
  exact congrArg (Matched.mk m.instrument) (List.append_nil m.fills)

end Matched

namespace Instrument

variable {i j : Instrument} {keep : Key → Bool} {depth : Option Depth} {prints prints' : List Level}

/-! ## Stillness -/

/-- Under its ladder, nothing happens to the instrument but prints. -/
structure Still (i : Instrument) : Prop where
  refresh : i.refreshQueue = i
  buys : i.deplete .buy i.ladder.bestAsk = .start i
  sells : i.deplete .sell i.ladder.bestBid = .start i
  gap : i.correctGap = .start i

/-- An opposite best that was handed out already has nothing new. -/
theorem deplete_of_marked {side : Side} {top : Level} (seen : i.marks.get side = top)
    (same : i.marks.set side top = i.marks) : i.deplete side top = .start i := by
  have nothing : freshQty (i.marks.get side) top = 0 := by
    simp [freshQty, seen]
  rw [deplete_eq, if_pos nothing, marked, same]

theorem UpToDate.still (h : i.UpToDate) : i.Still where
  refresh := by
    have same : i.orders.map i.refreshed = i.orders := by
      refine (List.map_congr_left fun o ho => ?_).trans (List.map_id _)
      by_cases live : 0 < o.qty
      · rw [refreshed_of_live live, (h.orders o (mem_liveOrders.mpr ⟨ho, live⟩)).others]
        rfl
      · exact if_neg (by simpa [Order.isLive] using live)
    change { i with orders := i.orders.map i.refreshed } = i
    rw [same]
  buys := deplete_of_marked (by rw [h.marks]; rfl) (by rw [h.marks]; rfl)
  sells := deplete_of_marked (by rw [h.marks]; rfl) (by rw [h.marks]; rfl)
  gap := by
    have none :
        (i.liveOrders.filterMap fun o => (i.passedBy o).map fun price => (o.key, price)) = [] := by
      rw [List.filterMap_eq_nil_iff]
      intro o live
      rw [(h.orders o live).clear, Option.map_none]
    rw [correctGap, none, fillAll]

theorem UpToDate.tradeFills (h : i.UpToDate) (sorted : Orders.Sorted i.orders) (market : Ladder)
    (prints : List Level) : (i.tradeFills market prints).instrument.UpToDate := by
  have same := market_tradeFills market prints sorted
  refine ⟨fun o live => ?_, by rw [same.marks, same.ladder, h.marks]⟩
  obtain ⟨p, hp, eased⟩ := (eases_tradeFills market prints sorted).exists_of_live live
  exact (h.orders p hp).of_eased same.ladder eased

/-- An instrument of the same orders and market is up to date as well. -/
theorem UpToDate.congr (h : i.UpToDate) (orders : j.orders = i.orders)
    (ladder : j.ladder = i.ladder) (marks : j.marks = i.marks) : j.UpToDate where
  orders := by
    intro o live
    rw [liveOrders, orders] at live
    exact (h.orders o live).of_recedes ladder rfl rfl (.refl _)
  marks := by rw [marks, ladder, h.marks]

/-! ## Prints alone -/

/-- What prints do to an instrument, if its ladder is quoted. -/
def printed (i : Instrument) (prints : List Level) : Matched :=
  if i.ladder.isQuoted then i.tradeFills i.ladder prints else .start i

/-- A tick that leaves the ladder as it is only prints. -/
theorem matchTick_eq_printed (h : i.ladder.isQuoted = true → i.UpToDate)
    (sorted : Orders.Sorted i.orders) (same : (i.takeOver depth).ladder = i.ladder) :
    i.matchTick depth prints = (i.takeOver depth).printed prints := by
  have rest : (i.takeOver depth).orders = i.orders ∧ (i.takeOver depth).marks = i.marks := by
    cases depth <;> exact ⟨rfl, rfl⟩
  simp only [matchTick, printed, same]
  by_cases quoted : i.ladder.isQuoted = true
  · have upToDate : (i.takeOver depth).UpToDate := (h quoted).congr rest.1 same rest.2
    have still := upToDate.still
    have buys := still.buys
    have sells := still.sells
    have gap := (upToDate.tradeFills (rest.1 ▸ sorted) i.ladder prints).still.gap
    rw [same] at buys sells
    simp only [quoted, Bool.not_true, Bool.false_eq_true, if_false, if_true]
    rw [still.refresh, Matched.start_andThen, buys, Matched.start_andThen, sells,
      Matched.start_andThen, Matched.andThen_of_still gap]
  · simp only [Bool.eq_false_iff.mpr quoted, Bool.not_false, Bool.false_eq_true, if_false, if_true]

theorem tradeFills_append {market : Ladder} :
    i.tradeFills market (prints ++ prints')
      = (i.tradeFills market prints).andThen (·.tradeFills market prints') := by
  induction prints generalizing i with
  | nil => rfl
  | cons print prints ih =>
    simp only [List.cons_append, tradeFills, Matched.andThen, ih, List.append_assoc]

/-- It makes no difference where a list of prints is split. -/
theorem printed_append :
    i.printed (prints ++ prints') = (i.printed prints).andThen (·.printed prints') := by
  have ladder : (i.tradeFills i.ladder prints).instrument.ladder = i.ladder :=
    trades_tradeFills.ladder
  by_cases quoted : i.ladder.isQuoted = true
  · simp only [printed, quoted, if_true, tradeFills_append, Matched.andThen, ladder]
  · simp only [printed, if_neg quoted, Matched.andThen, Matched.start, List.nil_append]

theorem ShedsBy.printed (h : ShedsBy keep i j) (prints : List Level) :
    Alike keep (i.printed prints) (j.printed prints) := by
  simp only [Instrument.printed, h.ladder]
  split
  · exact h.tradeFills i.ladder prints
  · exact alike_start h

theorem printed_nil : i.printed [] = .start i := ite_self _

end Instrument

/-! ## Histories by code -/

/-- The fills of one instrument in a history. -/
def fillsIn (code : String) (history : List Event) : List Fill :=
  (fillsOf history).filterMap fun p => if p.1 = code then some p.2 else none

section FillsIn

variable {code c : String} {history history' : List Event} {fs : List Fill}

theorem fillsIn_append :
    fillsIn code (history ++ history') = fillsIn code history ++ fillsIn code history' := by
  simp only [fillsIn, fillsOf, List.filterMap_append]

theorem fillsOf_filled : fillsOf (fs.map (.filled c)) = fs.map (Prod.mk c) := by
  rw [fillsOf, List.filterMap_map]
  exact congrFun List.filterMap_eq_map fs

theorem fillsIn_filled : fillsIn code (fs.map (.filled c)) = if c = code then fs else [] := by
  rw [fillsIn, fillsOf_filled, List.filterMap_map]
  split
  next here => simp [here]
  next other => simp [other]

/-- Of instruments that are matched in turn, each has its own fills. -/
theorem fillsIn_flatMap {is : List Instrument} (codes : (is.map Instrument.code).Nodup)
    (fills : Instrument → List Fill) :
    fillsIn code (is.flatMap fun i => (fills i).map (.filled i.code))
      = (is.find? (·.code == code)).elim [] fills := by
  induction is with
  | nil => rfl
  | cons i is ih =>
    obtain ⟨apart, codes⟩ := List.nodup_cons.mp codes
    rw [List.flatMap_cons, fillsIn_append, fillsIn_filled, ih codes]
    by_cases here : i.code = code
    · have none : is.find? (·.code == code) = none := by
        rw [List.find?_eq_none]
        intro j hj same
        exact apart (here.trans (eq_of_beq same).symm ▸ List.mem_map_of_mem hj)
      simp [none, here]
    · simp [here]

end FillsIn

/-! ## Ticks of a book -/

namespace Book

variable {b b' : Book} {code : String} {i : Instrument} {history : List Event}
  {quotes : List (Timed QuoteRecord)} {trades : List (Timed Trade)}

/-- Without operations of requests, the balance changes by the cash of the fills. -/
theorem balance_postAll {fs : List Fill} :
    (b.postAll code fs).book.balance = b.balance + (fs.map Fill.cash).sum := by
  induction fs generalizing b with
  | nil => exact (add_zero _).symm
  | cons f fs ih =>
    refine ih.trans ?_
    rw [List.map_cons, List.sum_cons, ← add_assoc]
    rfl

theorem Move.cash {cause : Cause} (move : Move b cause history b') (mild : ¬cause.IsRequest) :
    b'.balance = b.balance + ((fillsOf history).map (·.2.cash)).sum := by
  cases move with
  | quiet same => exact (balance_of_account same).trans (add_zero _).symm
  | sweep => exact (add_zero _).symm
  | tick found depth prints =>
    rw [fillsOf_filled, List.map_map]
    exact balance_postAll
  | place => exact absurd trivial mild
  | cancel => exact absurd trivial mild

/-- Without operations of requests, the balance changes by the cash of the fills. -/
theorem MovesBy.cash {P : Cause → Prop} (moves : MovesBy P b history b')
    (mild : ∀ c, P c → ¬c.IsRequest) :
    b'.balance = b.balance + ((fillsOf history).map (·.2.cash)).sum := by
  induction moves with
  | refl => exact (add_zero _).symm
  | snoc _ move meets ih =>
    rw [move.cash (mild _ meets), ih, fillsOf, fillsOf, fillsOf, List.filterMap_append,
      List.map_append, List.sum_append, add_assoc]

theorem MovesBy.quiet (moves : MovesBy (· = .quiet) b history b') :
    b'.instruments.map Instrument.undetailed = b.instruments.map Instrument.undetailed := by
  induction moves with
  | refl => rfl
  | snoc _ move meets ih =>
    subst meets
    cases move with
    | quiet _ rest => exact rest.trans ih

/-- Instruments that are not matched stay as they are. -/
theorem find?_matchAll_of_notMem {is : List Instrument} (other : ∀ i ∈ is, i.code ≠ code)
    (sorted : ∀ i ∈ is, Orders.Sorted i.orders) :
    (b.matchAll quotes trades is).book.find? code = b.find? code := by
  induction is generalizing b with
  | nil => rfl
  | cons i is ih =>
    obtain ⟨ne, others⟩ := List.forall_mem_cons.mp other
    obtain ⟨sortedHere, sortedRest⟩ := List.forall_mem_cons.mp sorted
    exact (ih others sortedRest).trans (find?_matched_ne sortedHere ne.symm)

theorem find?_matchAll {is : List Instrument} (found : ∀ i ∈ is, b.find? i.code = some i)
    (codes : (is.map Instrument.code).Nodup) (sorted : ∀ i ∈ is, Orders.Sorted i.orders)
    (hi : i ∈ is) :
    (b.matchAll quotes trades is).book.find? i.code
      = some (i.matchTick (lastDepth i.code quotes) (printsOf i.code trades)).instrument := by
  induction is generalizing b with
  | nil => cases hi
  | cons j js ih =>
    obtain ⟨apart, codes⟩ := List.nodup_cons.mp codes
    obtain ⟨sortedHere, sortedRest⟩ := List.forall_mem_cons.mp sorted
    have others : ∀ k ∈ js, k.code ≠ j.code := fun k hk same =>
      apart (same ▸ List.mem_map_of_mem hk)
    rcases List.mem_cons.mp hi with rfl | hi
    · refine (find?_matchAll_of_notMem others sortedRest).trans ?_
      rw [find?_postAll]
      exact find?_set_self (found i List.mem_cons_self) (Instrument.code_matchTick sortedHere)
    · refine ih (fun k hk => ?_) codes sortedRest hi
      exact (find?_matched_ne sortedHere (others k hk)).trans (found k (List.mem_cons_of_mem j hk))

theorem find?_replay : (b.replay quotes trades).book.find? code
    = ((quotes.foldl observe b).matchAll quotes trades
        (quotes.foldl observe b).instruments).book.find? code := by
  simp only [replay]
  split <;> rfl

theorem find?_eq_none_iff : b.find? code = none ↔ code ∉ b.codes := by
  simp [find?, codes]

/-- The history of a tick has the fills of each instrument against its own records. -/
theorem fillsIn_replayLog (hb : (quotes.foldl observe b).WellFormed) :
    fillsIn code (b.replayLog quotes trades)
      = ((quotes.foldl observe b).find? code).elim [] fun i =>
          (i.matchTick (lastDepth i.code quotes) (printsOf i.code trades)).fills :=
  fillsIn_flatMap hb.nodup _

/-- The book has an instrument as a matching left it, up to exhausted orders, and the history
the fills. -/
def Results (m : Matched) (code : String) (history : List Event) (b : Book) : Prop :=
  ∃ j keep, b.find? code = some j ∧ Instrument.Alike keep m ⟨j, fillsIn code history⟩

/-- Records that give an instrument no new ladder only print. -/
theorem results_replay (sane : b.Sane) (upToDate : b.UpToDate) (found : b.find? code = some i)
    (repeats : ∀ d ∈ lastDepth code quotes, d.ladder.regrid i.kind = i.ladder) :
    Results (i.printed (printsOf code trades)) code (b.replayLog quotes trades)
      (b.replay quotes trades).book := by
  have observed : MovesBy (· = .quiet) b [] (quotes.foldl observe b) :=
    moves_observeAll rfl sane.wellFormed
  have saneThen := observed.sane sane
  have upToDateThen := observed.upToDate sane upToDate
  obtain ⟨j, foundThen, same⟩ := find?_of_quiet observed.quiet found
  have mem := mem_of_find? foundThen
  have sorted := saneThen.wellFormed.sorted j mem
  obtain rfl := code_of_find? foundThen
  have kind : j.kind = i.kind := (congrArg Instrument.kind same :)
  have ladder : j.ladder = i.ladder := (congrArg Instrument.ladder same :)
  have taken : (j.takeOver (lastDepth j.code quotes)).ladder = j.ladder := by
    cases depth : lastDepth j.code quotes with
    | none => rfl
    | some d =>
      change d.ladder.regrid j.kind = j.ladder
      rw [kind, ladder]
      exact repeats d depth
  have sheds : Instrument.ShedsBy (fun _ => true) i (j.takeOver (lastDepth j.code quotes)) := by
    have idle : j.idle = i.idle := (congrArg Instrument.idle same :)
    have orders : j.orders = i.orders := (congrArg Instrument.orders same :)
    have code : j.code = i.code := (congrArg Instrument.code same :)
    refine .of_same ?_ ?_ (taken.trans ladder) ?_ ?_ <;>
      cases lastDepth j.code quotes <;> assumption
  have matched : j.matchTick (lastDepth j.code quotes) (printsOf j.code trades)
      = (j.takeOver (lastDepth j.code quotes)).printed (printsOf j.code trades) :=
    Instrument.matchTick_eq_printed (upToDateThen j mem) sorted taken
  have foundLast : (b.replay quotes trades).book.find? j.code
      = some (j.matchTick (lastDepth j.code quotes) (printsOf j.code trades)).instrument :=
    find?_replay.trans <| find?_matchAll
      (fun k hk => saneThen.wellFormed.find?_eq_some.mpr ⟨hk, rfl⟩)
      saneThen.wellFormed.nodup saneThen.wellFormed.sorted mem
  have fills : fillsIn j.code (b.replayLog quotes trades)
      = (j.matchTick (lastDepth j.code quotes) (printsOf j.code trades)).fills := by
    rw [fillsIn_replayLog saneThen.wellFormed, foundThen]
    rfl
  have alike := sheds.printed (printsOf j.code trades)
  rw [← matched] at alike
  exact ⟨_, _, foundLast, fills.trans alike.fills, alike.sheds⟩

end Book

/-! ## Ticks of a simulation -/

namespace Simulation

variable {s : Simulation} {c : TickContext} {code : String} {i : Instrument}

/-- The quotes and the trades of a tick; there are none past the close and in a tick whose
tapes cannot be read. -/
def records (s : Simulation) (c : TickContext) : List (Timed QuoteRecord) × List (Timed Trade) :=
  (s.due c).getD ([], [])

/-- A tick that gives an instrument no new ladder only prints. -/
theorem results_advance (sane : s.book.Sane) (upToDate : s.book.UpToDate)
    (found : s.book.find? code = some i)
    (repeats : ∀ d ∈ lastDepth code (s.records c).1, d.ladder.regrid i.kind = i.ladder) :
    Book.Results (i.printed (printsOf code (s.records c).2)) code (s.advanceLog c)
      (s.advance c).state.book := by
  have mem := Book.mem_of_find? found
  obtain ⟨_, solvent⟩ := sane.solvent
  have swept := Instrument.shedsBy_sweep (sane.wellFormed.sorted i mem) fun o ho =>
    ⟨(solvent.funded i mem o ho).qty, (solvent.funded i mem o ho).escrow⟩
  have foundSwept : (s.turn c.tick).book.find? code = some i.sweep := by
    have here : s.book.sweep.find? code = some i.sweep := by
      rw [Book.find?_sweep, found, Option.map_some]
    exact here
  have turned : Book.MovesBy (fun _ => True) s.book [] (s.turn c.tick).book :=
    moves_turn trivial trivial
  rw [advance_due.1, advance_due.2]
  cases due : s.due c with
  | none =>
    have still := Instrument.alike_start swept
    rw [← Instrument.printed_nil (i := i)] at still
    rw [records, due]
    exact ⟨i.sweep, _, foundSwept, still⟩
  | some r =>
    rw [records, due] at repeats ⊢
    have replayed : Book.Results (i.sweep.printed (printsOf code r.2)) code _ _ :=
      Book.results_replay (turned.sane sane) (turned.upToDate sane upToDate) foundSwept repeats
    obtain ⟨j, _, foundThen, alike⟩ := replayed
    exact ⟨j, _, foundThen, (swept.printed _).trans alike⟩

end Simulation

end TradingDesk
