-- SUMMARY: The fills of a history: the prices that they are at, and what they add up to.
import TradingDesk.Proofs.Upkeep

/-!
# Fills

Prints fill my orders at their own limits, depletions at the opposite best, gaps at the
best price that the market has moved to. All of these are positive and none is worse than
the limit of the order, and when a tick is over none of my orders is left beyond the
opposite best. The statistics are what the fills of the history record, one by one.
-/

namespace TradingDesk

/-! ## Prices -/

/-- Whether a fill is at the limit of its order or at some positive price. -/
def Fill.Priced (f : Fill) : Prop := f.price = f.order.price ∨ 0 < f.price

namespace Instrument

variable {i : Instrument} {o : Order} {key : Key} {keys : List Key} {side : Side}
  {price flow : Int} {fillPrice : Option Int} {f : Fill}

theorem price_of_pop (h : f ∈ (i.pop key flow price).matched.fills) :
    f.order.key = key ∧ f.price = price := by
  simp only [pop] at h
  cases resting : Orders.find? key i.orders with
  | none =>
    rw [resting] at h
    cases h
  | some o =>
    simp only [resting] at h
    split at h
    · cases h
    next i' g filled =>
      obtain rfl := List.mem_singleton.mp h
      obtain ⟨-, -, -, order, hprice, -⟩ := fill_eq_some filled
      have same : o.key = key := Orders.key_of_find? resting
      rw [order]
      exact ⟨same, hprice⟩

theorem price_of_flowLevel (h : f ∈ (i.flowLevel fillPrice flow keys).matched.fills) :
    f.price = fillPrice.getD f.order.price := by
  induction keys generalizing i with
  | nil => cases h
  | cons key keys ih =>
    rcases List.mem_append.mp h with h | h
    · obtain ⟨rfl, hprice⟩ := price_of_pop h
      exact hprice
    · exact ih h

theorem price_of_flowLevels {levels : List (List Key)}
    (h : f ∈ (i.flowLevels fillPrice flow levels).fills) :
    f.price = fillPrice.getD f.order.price := by
  induction levels generalizing i flow with
  | nil => cases h
  | cons keys levels ih =>
    simp only [flowLevels] at h
    split at h
    · cases h
    · rcases List.mem_append.mp h with h | h
      · exact price_of_flowLevel h
      · exact ih h

/-- Quantity that is new is handed out at the opposite best. -/
theorem price_of_deplete {top : Level} (h : f ∈ (i.deplete side top).fills) : 0 < f.price := by
  rw [deplete_eq] at h
  split at h
  · cases h
  next fresh =>
    rw [price_of_flowLevels h]
    by_contra nonpos
    refine fresh ?_
    rw [freshQty, if_neg fun shown => nonpos shown.1]

/-- A print fills each order at its own limit. -/
theorem price_of_tradeFills {market : Ladder} {prints : List Level}
    (h : f ∈ (i.tradeFills market prints).fills) : f.price = f.order.price := by
  induction prints generalizing i with
  | nil => cases h
  | cons print prints ih =>
    rcases List.mem_append.mp h with h | h
    · rcases List.mem_append.mp h with h | h <;> exact price_of_flowLevels h
    · exact ih h

theorem price_of_fillAll {gaps : List (Key × Int)} (pos : ∀ gap ∈ gaps, 0 < gap.2)
    (h : f ∈ (i.fillAll gaps).fills) : 0 < f.price := by
  induction gaps generalizing i with
  | nil => cases h
  | cons gap gaps ih =>
    obtain ⟨first, rest⟩ := List.forall_mem_cons.mp pos
    rcases List.mem_append.mp h with h | h
    · simp only [fillWhole] at h
      split at h
      · cases h
      · split at h
        · cases h
        next i' g filled =>
          obtain rfl := List.mem_singleton.mp h
          obtain ⟨-, -, -, -, hprice, -⟩ := fill_eq_some filled
          rw [hprice]
          exact first
    · exact ih rest h

theorem pos_of_passedBy (h : i.passedBy o = some price) : 0 < price := by
  simp only [passedBy] at h
  cases hside : o.side with
  | buy =>
    simp only [hside, Option.ite_none_right_eq_some, Option.some.injEq] at h
    obtain ⟨⟨pos, -⟩, rfl⟩ := h
    exact pos
  | sell =>
    simp only [hside, Option.ite_none_right_eq_some, Option.some.injEq] at h
    obtain ⟨⟨pos, -⟩, rfl⟩ := h
    exact pos

/-- A gap fills at the best price that the market has moved to. -/
theorem price_of_correctGap (h : f ∈ i.correctGap.fills) : 0 < f.price := by
  refine price_of_fillAll (fun gap hgap => ?_) h
  obtain ⟨o, -, eq⟩ := List.mem_filterMap.mp hgap
  obtain ⟨price, passed, rfl⟩ := Option.map_eq_some_iff.mp eq
  exact pos_of_passedBy passed

theorem priced_matchTick {depth : Option Depth} {prints : List Level}
    (h : f ∈ (i.matchTick depth prints).fills) : f.Priced := by
  simp only [matchTick] at h
  split at h
  · cases h
  · rcases List.mem_append.mp h with h | gap
    · rcases List.mem_append.mp h with h | print
      · rcases List.mem_append.mp h with h | sells
        · rcases List.mem_append.mp h with h | buys
          · cases h
          · exact .inr (price_of_deplete buys)
        · exact .inr (price_of_deplete sells)
      · exact .inl (price_of_tradeFills print)
    · exact .inr (price_of_correctGap gap)

end Instrument

/-! ## Histories -/

/-- The fill that an event is, if it is one, with its code. -/
def Event.fill? : Event → Option (String × Fill)
  | .placed .. => none
  | .filled code f => some (code, f)
  | .canceled .. => none

/-- The fills of a history, in order. -/
def fillsOf (history : List Event) : List (String × Fill) := history.filterMap Event.fill?

theorem mem_fillsOf {history : List Event} {code : String} {f : Fill} :
    (code, f) ∈ fillsOf history ↔ .filled code f ∈ history := by
  rw [fillsOf, List.mem_filterMap]
  constructor
  · rintro ⟨e, he, same⟩
    cases e with
    | placed => cases same
    | filled c g =>
      cases same
      exact he
    | canceled => cases same
  · exact fun h => ⟨_, h, rfl⟩

/-- Statistics with some fills added to them, in turn. -/
def Stats.recordAll (s : Stats) (fs : List Fill) : Stats := fs.foldl Stats.record s

namespace Book

variable {b b' : Book} {code : String} {history events : List Event} {f : Fill}

theorem Move.priced {cause : Cause} (move : Move b cause events b')
    (h : .filled code f ∈ events) : f.Priced := by
  cases move with
  | quiet => cases h
  | sweep => cases h
  | tick found depth prints =>
    obtain ⟨g, hg, same⟩ := List.mem_map.mp h
    cases same
    exact Instrument.priced_matchTick hg
  | place => simp at h
  | cancel => simp at h

theorem MovesBy.priced {P : Cause → Prop} (moves : MovesBy P b history b')
    (h : .filled code f ∈ history) : f.Priced := by
  induction moves with
  | refl => cases h
  | snoc _ move _ ih => exact (List.mem_append.mp h).elim ih move.priced

/-- A fill is of an order that was placed at a positive price, at a fair one. -/
theorem Step.fair {e : Option Event} {k : Nat} (step : Step b e b') (sound : ∀ x ∈ e, b.Sound x)
    (solvent : b.Solvent k) (h : .filled code f ∈ e.toList) : f.Fair ∧ 0 < f.order.price := by
  cases step with
  | observe => cases h
  | sweep => cases h
  | place => simp at h
  | cancel => simp at h
  | fill found resting filled =>
    obtain ⟨rfl, rfl⟩ : code = _ ∧ f = _ := by simpa using h
    obtain ⟨-, -, -, order, -⟩ := Instrument.fill_eq_some filled
    refine ⟨sound _ rfl, ?_⟩
    rw [order]
    exact (solvent.funded _ (mem_of_find? found) _ (Orders.mem_of_find? resting)).price

theorem Run.fair {k : Nat} (run : Run Sound b history b') (hb : b.WellFormed)
    (solvent : b.Solvent k) (h : .filled code f ∈ history) : f.Fair ∧ 0 < f.order.price := by
  induction run with
  | refl => cases h
  | snoc run step sound ih =>
    rcases List.mem_append.mp h with before | here
    · exact ih before
    · exact step.fair sound (run.solvent hb solvent) here

theorem Step.stats {e : Option Event} (step : Step b e b') :
    b'.stats = b.stats.recordAll ((fillsOf e.toList).map Prod.snd) := by
  cases step with
  | observe same => exact stats_of_account same
  | sweep => rfl
  | place found placed =>
    rw [insert_eq_ok found placed]
    rfl
  | fill => rfl
  | cancel => rfl

/-- The statistics are what the fills of the history record. -/
theorem Run.stats {P : Book → Event → Prop} (run : Run P b history b') :
    b'.stats = b.stats.recordAll ((fillsOf history).map Prod.snd) := by
  induction run with
  | refl => rfl
  | snoc _ step _ ih =>
    simp only [fillsOf, Stats.recordAll, List.filterMap_append, List.map_append, List.foldl_append]
      at ih ⊢
    rw [← ih]
    exact step.stats

end Book

/-! ## Sessions -/

namespace Session

/-- At any time of a session, none of my orders in an instrument whose ladder is quoted is
beyond the opposite best, and all fills so far, which are those of the statistics, were at
positive prices no worse than the limits of their orders. -/
theorem run_uncrossed {broker : Simulation} {clock : SessionClock} {inputs : List Input}
    {balance : Int} {ts : List Tracked} (opened : broker.book = Book.opening balance ts) :
    let b := ((start broker clock).run inputs).broker.book
    let history := (start broker clock).history inputs
    (∀ i ∈ b.instruments, i.ladder.isQuoted = true → ∀ o ∈ i.liveOrders,
        (o.side = .buy → o.price ≤ i.ladder.bestAsk.price)
          ∧ (o.side = .sell → i.ladder.bestBid.price ≤ o.price))
      ∧ b.stats = Stats.blank.recordAll ((fillsOf history).map Prod.snd)
      ∧ ∀ code f, .filled code f ∈ history →
          0 < f.price ∧ (f.order.side = .buy → f.price ≤ f.order.price)
            ∧ (f.order.side = .sell → f.order.price ≤ f.price) := by
  have sane : (start broker clock).broker.book.Sane := sane_start opened
  have moves : Book.Moves _ ((start broker clock).history inputs) _ := moves_run sane
  have run := moves.run sane.wellFormed
  refine ⟨fun i hi quoted o live => ?_, ?_, fun code f hf => ?_⟩
  · have clear := ((run_upToDate opened i hi quoted).orders o live).clear
    have within := Instrument.passedBy_eq_none_iff.mp clear
    simp only [Ladder.isQuoted, Bool.and_eq_true, decide_eq_true_eq] at quoted
    simp only [Instrument.Within, Ladder.opposite] at within
    constructor
    · intro buy
      rw [buy] at within
      exact within quoted.2
    · intro sell
      rw [sell] at within
      exact within quoted.1
  · have blank : (start broker clock).broker.book.stats = .blank := by
      change broker.book.stats = .blank
      rw [opened]
      exact Book.opening_balance.2
    rw [← blank]
    exact run.stats
  · obtain ⟨_, solvent⟩ := sane.solvent
    obtain ⟨fair, limit⟩ := run.fair sane.wellFormed solvent hf
    have pos : 0 < f.price := (moves.priced hf).elim (fun own => own ▸ limit) id
    simp only [Fill.Fair, Side.Fair] at fair
    refine ⟨pos, fun buy => ?_, fun sell => ?_⟩
    · rw [buy] at fair
      exact fair
    · rw [sell] at fair
      exact fair

/-- A market of fifty at 10000 against twenty at 9990. -/
def steady : String :=
  "32400 A 0 0 0 0 0 0 0 0 0 0 0 10000 9990 0 0 0 0 0 0 0 0 0 0 0 0 0 0 0 0 0 0 50 20 0 0 0 0 0 0 0 0 0\n"

/-- A buy joins twenty at its price, of which a print of twenty-five leaves five to it. -/
theorem run_uncrossed_print :
    let broker := Simulation.start (Book.opening 1000000 [⟨"A", .equity, 0⟩])
      steady.toUTF8.toList "32410 A 9990 25\n".toUTF8.toList 8
    let clock : SessionClock := ⟨32400, 33000, 10⟩
    let inputs : List Input := [.advance, .buildMsgOut, .applyMsgIn "b A 9990 10", .advance]
    let b := ((start broker clock).run inputs).broker.book
    let history := (start broker clock).history inputs
    (fillsOf history).map (fun p => (p.2.price, p.2.qty)) = [(9990, 5)]
      ∧ b.stats = Stats.blank.recordAll ((fillsOf history).map Prod.snd)
      ∧ ∀ code f, .filled code f ∈ history →
          0 < f.price ∧ (f.order.side = .buy → f.price ≤ f.order.price)
            ∧ (f.order.side = .sell → f.order.price ≤ f.price) := by
  refine ⟨by decide +kernel, ?_⟩
  exact (run_uncrossed rfl).2

end Session

end TradingDesk
