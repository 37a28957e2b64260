-- SUMMARY: What a simulation does to its book, move by move, and what each move comes from.
import TradingDesk.Proofs.Allotment
import TradingDesk.Proofs.Solvency

/-!
# Moves

Whatever happens to a simulation, its book makes `Move`s: market data change, exhausted
orders are swept, a tick of an instrument is matched, an order is placed and gets its
place in the queue, an order is canceled and the ranks behind it are closed. Each move
is a run of sound events, and it has a `Cause`; requests make some of the moves and the
records of a tick make others.
-/

namespace TradingDesk

/-! ## Moves -/

namespace Instrument

variable {i : Instrument}

theorem account_stamp (side : Side) (key : Key) : (i.stamp side key).account = i.account := by
  refine account_map fun o => ?_
  split <;> rfl

theorem account_closeRanks (side : Side) (key : Key) (qty : Int) :
    (i.closeRanks side key qty).account = i.account := by
  refine account_map fun o => ?_
  split <;> rfl

end Instrument

/-- Whether a request may place an order of a side at a price: it is not beyond the opposite
best, and it is on the grid or the best bid, at which holdings are sold off. -/
structure Instrument.Posed (i : Instrument) (side : Side) (price : Int) : Prop where
  within : i.Within side price
  onGrid : i.kind.validPrice price = true ∨ side = .sell ∧ price = i.ladder.bestBid.price

/-- The instrument without what only instruments of its kind have. -/
def Instrument.undetailed (i : Instrument) : Instrument := { i with detail := .equity }

/-- What a move comes from. -/
inductive Cause where
  | quiet
  | sweep
  /-- Prints of a tick, and its market depth if there is any. -/
  | tick (depth : Option Depth)
  | place
  | cancel

namespace Cause

/-- Operations of requests. -/
def IsRequest : Cause → Prop
  | place | cancel => True
  | _ => False

/-- Records of a tick, whose market depth meets `D`. -/
def IsData (D : Depth → Prop) : Cause → Prop
  | quiet => True
  | tick depth => ∀ d ∈ depth, D d
  | _ => False

/-- Anything, as long as market depth meets `D`. -/
def Meets (D : Depth → Prop) : Cause → Prop
  | tick depth => ∀ d ∈ depth, D d
  | _ => True

variable {D : Depth → Prop} {c : Cause}

theorem IsRequest.meets (h : c.IsRequest) : c.Meets D := by
  cases c <;> trivial

theorem IsData.meets (h : c.IsData D) : c.Meets D := by
  cases c <;> trivial

theorem IsData.not_isRequest (h : c.IsData D) : ¬c.IsRequest := by
  cases c <;> first | exact id | exact h.elim

end Cause

namespace Book

/-- One move of a simulation's book with the events that it is. -/
inductive Move : Book → Cause → List Event → Book → Prop
  | quiet {b b' : Book} (same : b'.account = b.account)
      (rest : b'.instruments.map Instrument.undetailed = b.instruments.map Instrument.undetailed) :
      Move b .quiet [] b'
  | sweep (b : Book) : Move b .sweep [] b.sweep
  | tick {b : Book} {code : String} {i : Instrument} (found : b.find? code = some i)
      (depth : Option Depth) (prints : List Level) :
      Move b (.tick depth) ((i.matchTick depth prints).fills.map (.filled code))
        ((b.set (i.matchTick depth prints).instrument).postAll code
          (i.matchTick depth prints).fills).book
  | place {b : Book} {code : String} {i : Instrument} {side : Side} {price qty : Int}
      {p : Posted Key} (found : b.find? code = some i) (posed : i.Posed side price)
      (fits : b.Fits (.insert code side price qty))
      (placed : b.insert code side price qty = .ok p) :
      Move b .place [.placed i (i.newOrder b.nextId side price qty)]
        (p.book.set ((i.place b.nextId side price qty).stamp side ⟨price, b.nextId⟩))
  | cancel {b : Book} {code : String} {i i' : Instrument} {key : Key} {o : Order} {qty : Int}
      {w : Withdrawal} (found : b.find? code = some i)
      (resting : Orders.find? key i.orders = some o)
      (withdrawn : i.withdraw o qty = some (i', w)) :
      Move b .cancel [.canceled code o w.qty]
        { b.set (i'.closeRanks o.side key w.qty) with balance := b.balance + w.release }

/-- A series of moves with its history, each of whose causes meets `P`. -/
inductive MovesBy (P : Cause → Prop) : Book → List Event → Book → Prop
  | refl (b : Book) : MovesBy P b [] b
  | snoc {b b' b'' : Book} {history events : List Event} {cause : Cause}
      (moves : MovesBy P b history b') (move : Move b' cause events b'') (meets : P cause) :
      MovesBy P b (history ++ events) b''

/-- A series of moves with its history. -/
abbrev Moves : Book → List Event → Book → Prop := MovesBy fun _ => True

variable {P Q : Cause → Prop} {D : Depth → Prop} {cause : Cause} {b b' b'' : Book}
  {history history' events : List Event} {code : String} {i i' : Instrument}

theorem MovesBy.trans (first : MovesBy P b history b') (second : MovesBy P b' history' b'') :
    MovesBy P b (history ++ history') b'' := by
  induction second with
  | refl => simpa using first
  | snoc _ move meets ih =>
    rw [← List.append_assoc]
    exact ih.snoc move meets

theorem MovesBy.mono (moves : MovesBy P b history b') (h : ∀ c, P c → Q c) :
    MovesBy Q b history b' := by
  induction moves with
  | refl => exact .refl _
  | snoc _ move meets ih => exact ih.snoc move (h _ meets)

theorem Move.moves (move : Move b cause events b') (meets : P cause) : MovesBy P b events b' :=
  (MovesBy.refl b).snoc move meets

/-- The book after an order was placed in it and got its place in the queue. -/
theorem placed_eq {side : Side} {price qty : Int} {p : Posted Key} (found : b.find? code = some i)
    (placed : b.insert code side price qty = .ok p) :
    p.book.set ((i.place b.nextId side price qty).stamp side ⟨price, b.nextId⟩)
      = { b.set ((i.place b.nextId side price qty).stamp side ⟨price, b.nextId⟩) with
          balance := b.charged i.kind side price qty, nextId := b.nextId + 1 } := by
  have joined : (b.set (i.place b.nextId side price qty)).set
      ((i.place b.nextId side price qty).stamp side ⟨price, b.nextId⟩)
      = b.set ((i.place b.nextId side price qty).stamp side ⟨price, b.nextId⟩) := set_set rfl
  rw [insert_eq_ok found placed]
  exact congrArg (fun c : Book =>
    { c with balance := b.charged i.kind side price qty, nextId := b.nextId + 1 }) joined

theorem eq_of_undetailed (h : i'.undetailed = i.undetailed) :
    i' = { i with detail := i'.detail } := by
  have detailed : ∀ k : Instrument, k = { k.undetailed with detail := k.detail } := fun _ => rfl
  rw [detailed i', h]
  rfl

/-- A quiet move changes details only. -/
theorem exists_of_quiet
    (rest : b'.instruments.map Instrument.undetailed = b.instruments.map Instrument.undetailed)
    (hi : i ∈ b'.instruments) : ∃ j ∈ b.instruments, i = { j with detail := i.detail } := by
  have mem : i.undetailed ∈ b.instruments.map Instrument.undetailed :=
    rest ▸ List.mem_map_of_mem hi
  obtain ⟨j, hj, same⟩ := List.mem_map.mp mem
  exact ⟨j, hj, eq_of_undetailed same.symm⟩

theorem find?_of_quiet
    (rest : b'.instruments.map Instrument.undetailed = b.instruments.map Instrument.undetailed)
    (found : b.find? code = some i) :
    ∃ j, b'.find? code = some j ∧ j = { i with detail := j.detail } := by
  have through : ∀ is : List Instrument, (is.find? (·.code == code)).map Instrument.undetailed
      = (is.map Instrument.undetailed).find? (·.code == code) := by
    intro is
    rw [List.find?_map]
    rfl
  have same : (b'.find? code).map Instrument.undetailed = some i.undetailed := by
    rw [find?, through, rest, ← through]
    exact congrArg (Option.map Instrument.undetailed) found
  obtain ⟨j, foundThen, eq⟩ := Option.map_eq_some_iff.mp same
  exact ⟨j, foundThen, eq_of_undetailed eq⟩

/-- Every move is a run of sound events. -/
theorem Move.run (move : Move b cause events b') (hb : b.WellFormed) : Run Sound b events b' := by
  cases move with
  | quiet same => exact .silent (.observe same)
  | sweep => exact .silent (.sweep b)
  | @tick code i found depth prints =>
    have account : (i.takeOver depth).account = i.account := Instrument.account_takeOver depth
    have hcode : (i.takeOver depth).code = i.code := Instrument.code_of_account account
    have quoted : Run Sound b [] (b.set (i.takeOver depth)) :=
      .silent (.observe (hb.account_set found account))
    have trades : (i.takeOver depth).Trades (i.matchTick depth prints).fills _ :=
      Instrument.trades_matchTick (hb.sorted i (mem_of_find? found))
    have foundQuoted : (b.set (i.takeOver depth)).find? code = some (i.takeOver depth) :=
      find?_set_self found hcode
    have filled := run_of_trades (P := Sound) (fun _ _ fair => fair) (quoted.wellFormed hb)
      foundQuoted trades
    rw [set_set trades.code.symm] at filled
    exact quoted.trans filled
  | @place code i side price qty p found _ fits placed =>
    obtain ⟨j, found', hprice, hqty, -, covers⟩ := fits
    obtain rfl : i = j := Option.some.inj (found.symm.trans found')
    have run : Run Sound b [.placed i (i.newOrder b.nextId side price qty)] p.book :=
      .single (.place found placed) ⟨hprice, hqty, covers⟩
    have stamped := (run.wellFormed hb).account_set (find?_of_insert found placed)
      (Instrument.account_stamp side ⟨price, b.nextId⟩)
    exact run.trans (.silent (.observe stamped))
  | @cancel code i i' key o qty w found resting withdrawn =>
    have run : Run Sound b [.canceled code o w.qty] _ :=
      .single (.cancel found resting withdrawn) trivial
    have foundAfter : (b.set i').find? code = some i' :=
      find?_set_self found (Instrument.code_of_withdraw withdrawn)
    have closed := (run.wellFormed hb).account_set foundAfter
      (Instrument.account_closeRanks o.side key w.qty)
    have joined : ({ b with balance := b.balance + w.release }.set i').set
        (i'.closeRanks o.side key w.qty)
        = { b with balance := b.balance + w.release }.set (i'.closeRanks o.side key w.qty) :=
      set_set rfl
    change (({ b with balance := b.balance + w.release }.set i').set _).account = _ at closed
    rw [joined] at closed
    exact run.trans (.silent (.observe closed))

theorem MovesBy.run (moves : MovesBy P b history b') (hb : b.WellFormed) :
    Run Sound b history b' := by
  induction moves with
  | refl => exact .refl _
  | snoc _ move _ ih => exact ih.trans (move.run (ih.wellFormed hb))

theorem MovesBy.wellFormed (moves : MovesBy P b history b') (hb : b.WellFormed) : b'.WellFormed :=
  (moves.run hb).wellFormed hb

/-- What every book of a session is like: it is well-formed, and its shortfall has a bound. -/
structure Sane (b : Book) : Prop where
  wellFormed : b.WellFormed
  solvent : ∃ k, b.Solvent k

theorem MovesBy.sane (moves : MovesBy P b history b') (sane : b.Sane) : b'.Sane where
  wellFormed := moves.wellFormed sane.wellFormed
  solvent := by
    obtain ⟨k, solvent⟩ := sane.solvent
    exact ⟨_, (moves.run sane.wellFormed).solvent sane.wellFormed solvent⟩

theorem Sane.idle (sane : b.Sane) : ∀ i ∈ b.instruments, 0 ≤ i.idle := by
  obtain ⟨_, solvent⟩ := sane.solvent
  exact solvent.idle

/-! ## Prices of requests -/

/-- Whether an operation places no order where a request may not. -/
def Clear (b : Book) : Operation → Prop
  | .insert code side price _ => ∀ i, b.find? code = some i → i.Posed side price
  | .cancel .. => True

theorem clear_cancels {plan : List (Order × Int)} : ∀ op ∈ i.cancels plan, b.Clear op := by
  intro op hop
  obtain ⟨p, -, rfl⟩ := List.mem_map.mp hop
  trivial

theorem clear_insert {side : Side} {price qty : Int} (found : b.find? code = some i)
    (posed : i.Posed side price) : b.Clear (.insert code side price qty) := by
  intro j found'
  obtain rfl : i = j := Option.some.inj (found.symm.trans found')
  exact posed

theorem clear_sellOff (hb : b.WellFormed) (hi : i ∈ b.instruments) :
    ∀ op ∈ i.sellOff.allotment.operations, b.Clear op := by
  intro op hop
  simp only [Instrument.sellOff] at hop
  split at hop
  · cases hop
  · split at hop
    · cases hop
    · obtain rfl := List.mem_singleton.mp hop
      exact clear_insert (hb.find?_eq_some.mpr ⟨hi, rfl⟩) ⟨fun _ => le_rfl, .inr ⟨rfl, rfl⟩⟩

/-- Requests are resolved to orders at prices that a request may have. -/
theorem clear_allot {r : Request} (sane : b.Sane) :
    ∀ op ∈ (b.allot r).allotment.operations, b.Clear op := by
  intro op hop
  cases h : r.action with
  | cancelAll =>
    rw [allot, h] at hop
    obtain ⟨j, -, hop⟩ := List.mem_flatMap.mp hop
    exact clear_cancels op hop
  | sellAll =>
    rw [allot, h] at hop
    simp only [allotSellAll, List.flatMap_map] at hop
    obtain ⟨j, hj, hop⟩ := List.mem_flatMap.mp hop
    exact clear_sellOff sane.wellFormed hj op hop
  | cancel side =>
    rw [allot, h] at hop
    cases found : b.find? r.code with
    | none =>
      rw [found] at hop
      cases hop
    | some j =>
      rw [found] at hop
      simp only [Instrument.allotCancel] at hop
      split at hop
      · cases hop
      · exact clear_cancels op hop
  | place side =>
    have most := placesMost_allot (b := b) h
    unfold PlacesMost at most
    split at most
    next =>
      rw [most] at hop
      cases hop
    next j found =>
      rcases most with ⟨nothing, -⟩ | ⟨q, ops, valid, within, -⟩
      · rw [nothing] at hop
        cases hop
      · rw [ops] at hop
        obtain rfl := List.mem_singleton.mp hop
        exact clear_insert found ⟨within, .inl valid⟩
  | modify side =>
    have most := replacesMost_allot sane.wellFormed sane.idle h
    unfold ReplacesMost at most
    split at most
    next =>
      rw [most] at hop
      cases hop
    next j found =>
      obtain ⟨_, _, -, -, most⟩ := most
      rcases most with ⟨nothing, -⟩ | ⟨q, ops, -, valid, within, -⟩
      · rw [nothing] at hop
        cases hop
      · rw [ops] at hop
        rcases List.mem_append.mp hop with hop | hop
        · exact clear_cancels op hop
        · obtain rfl := List.mem_singleton.mp hop
          exact clear_insert found ⟨within, .inl valid⟩

/-- What an instrument is and what it shows of its market. -/
def venue? (b : Book) (code : String) : Option (Kind × Ladder) :=
  (b.find? code).map fun i => (i.kind, i.ladder)

theorem venue?_set {c : String} (found : b.find? code = some i) (same : i'.code = i.code)
    (kind : i'.kind = i.kind) (ladder : i'.ladder = i.ladder) :
    (b.set i').venue? c = b.venue? c := by
  by_cases here : c = code
  · rw [here, venue?, venue?, find?_set_self found same, found, Option.map_some, kind, ladder,
      Option.map_some]
  · have ne : c ≠ i'.code := fun eq => here (eq.trans (same.trans (code_of_find? found)))
    rw [venue?, venue?, find?_set_ne ne]

/-- Operations of requests leave the market alone. -/
theorem MovesBy.venue? (moves : MovesBy Cause.IsRequest b history b') (c : String) :
    b'.venue? c = b.venue? c := by
  induction moves with
  | refl => rfl
  | snoc _ move meets ih =>
    rw [← ih]
    cases move with
    | quiet => exact meets.elim
    | sweep => exact meets.elim
    | tick => exact meets.elim
    | @place code i side price qty p found _ _ placed =>
      rw [placed_eq found placed]
      exact venue?_set found rfl rfl rfl
    | @cancel code i i' key o qty w found _ withdrawn =>
      obtain ⟨-, -, -, rfl⟩ := Instrument.withdraw_eq_some withdrawn
      exact venue?_set found rfl rfl rfl

theorem Clear.of_venue? {op : Operation} (h : b.Clear op)
    (same : ∀ c, b'.venue? c = b.venue? c) : b'.Clear op := by
  cases op with
  | cancel => trivial
  | insert code side price qty =>
    intro i found
    have here := same code
    rw [Book.venue?, found, Option.map_some] at here
    obtain ⟨j, found', venue⟩ := Option.map_eq_some_iff.mp here.symm
    obtain ⟨kind, ladder⟩ := Prod.mk.inj venue
    obtain ⟨within, onGrid⟩ := h j found'
    simp only [Instrument.Within, ladder] at within
    rw [kind, ladder] at onGrid
    exact ⟨within, onGrid⟩

end Book

end TradingDesk
