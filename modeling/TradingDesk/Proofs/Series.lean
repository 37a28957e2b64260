-- SUMMARY: Series of inputs without requests, and that only the prints that come due in them count.
import TradingDesk.Proofs.Printing

/-!
# Series

Between two ticks that make no request, nothing happens to a book. So what a series of
them does to an instrument that gets no new ladder is what the prints do that come due in
it, wherever one tick ends and the next one begins. The fills of different instruments
change places then, but the account does not depend on their order.
-/

namespace TradingDesk

/-! ## Orders of fills -/

namespace Stats

variable {s : Stats} {fs gs : List Fill}

/-- Statistics do not depend on the order of the fills. -/
theorem recordAll_perm (perm : fs.Perm gs) : s.recordAll fs = s.recordAll gs :=
  have : RightCommutative record := ⟨fun _ _ _ => record_comm⟩
  perm.foldl_eq s

end Stats

section Histories

variable {history history' : List Event}

theorem count_fillsIn {code : String} {f : Fill} :
    (fillsIn code history).count f = (fillsOf history).count (code, f) := by
  rw [fillsIn, List.count_filterMap, List.count]
  congr 1
  funext p
  by_cases here : p.1 = code <;> simp [here, Prod.ext_iff]

/-- Histories in which each instrument has the same fills have the same fills altogether. -/
theorem perm_of_fillsIn (same : ∀ code, fillsIn code history = fillsIn code history') :
    (fillsOf history).Perm (fillsOf history') := by
  rw [List.perm_iff_count]
  intro p
  rw [← count_fillsIn, ← count_fillsIn, same]

end Histories

namespace Instrument

/-- Whether two instruments have the same ladder, holdings and live orders. -/
structure Agrees (i j : Instrument) : Prop where
  ladder : j.ladder = i.ladder
  idle : j.idle = i.idle
  liveOrders : j.liveOrders = i.liveOrders

/-- Instruments that agree with one agree with each other. -/
theorem Agrees.of_common {i j k : Instrument} (first : i.Agrees j) (second : i.Agrees k) :
    j.Agrees k where
  ladder := second.ladder.trans first.ladder.symm
  idle := second.idle.trans first.idle.symm
  liveOrders := second.liveOrders.trans first.liveOrders.symm

theorem ShedsBy.agrees {keep : Key → Bool} {i j : Instrument} (h : ShedsBy keep i j) : i.Agrees j :=
  ⟨h.ladder, h.idle, h.liveOrders⟩

end Instrument

namespace Book

variable {b b' b'' : Book} {code : String} {history history' : List Event} {i : Instrument}
  {prints prints' : List Level} {P : Cause → Prop} {cause : Cause}

/-- Whether two books have the same balance and statistics, and instruments that agree. -/
structure Agrees (b b' : Book) : Prop where
  balance : b'.balance = b.balance
  stats : b'.stats = b.stats
  instruments : ∀ i ∈ b.instruments, ∃ j ∈ b'.find? i.code, i.Agrees j

/-- Where nothing happens, nothing is printed. -/
theorem results_nil (found : b.find? code = some i) : Results (i.printed []) code [] b := by
  rw [Instrument.printed_nil]
  exact ⟨i, _, found, rfl, .of_same rfl rfl rfl rfl rfl⟩

/-- Prints after prints. -/
theorem Results.append (first : Results (i.printed prints) code history b)
    (rest : ∀ j, b.find? code = some j → Results (j.printed prints') code history' b') :
    Results (i.printed (prints ++ prints')) code (history ++ history') b' := by
  obtain ⟨j, _, found, alike⟩ := first
  obtain ⟨k, _, foundThen, alikeThen⟩ := rest j found
  have both := Instrument.printed_append.symm ▸
    alike.append ((alike.sheds.printed prints').trans alikeThen)
  rw [Results, fillsIn_append]
  exact ⟨k, _, foundThen, both⟩

theorem Move.tracked (move : Move b cause history b') {p : String × Fill}
    (h : p ∈ fillsOf history) : p.1 ∈ b.codes := by
  cases move with
  | quiet => cases h
  | sweep => cases h
  | tick found =>
    rw [fillsOf_filled] at h
    obtain ⟨f, -, rfl⟩ := List.mem_map.mp h
    exact code_of_find? found ▸ List.mem_map_of_mem (mem_of_find? found)
  | place => cases h
  | cancel => cases h

/-- Fills are of instruments that the book tracks. -/
theorem MovesBy.tracked (moves : MovesBy P b history b') (hb : b.WellFormed) {p : String × Fill}
    (h : p ∈ fillsOf history) : p.1 ∈ b.codes := by
  induction moves with
  | refl => cases h
  | snoc before move _ ih =>
    rw [fillsOf, List.filterMap_append] at h
    refine (List.mem_append.mp h).elim ih fun here => ?_
    exact (before.run hb).codes ▸ move.tracked here

theorem MovesBy.fillsIn_of_untracked (moves : MovesBy P b history b') (hb : b.WellFormed)
    (untracked : code ∉ b.codes) : fillsIn code history = [] := by
  rw [fillsIn, List.filterMap_eq_nil_iff]
  intro p hp
  refine if_neg fun here => untracked ?_
  rw [← here]
  exact moves.tracked hb hp

end Book

theorem printsOf_append {code : String} {trades trades' : List (Timed Trade)} :
    printsOf code (trades ++ trades') = printsOf code trades ++ printsOf code trades' := by
  simp only [printsOf, List.filter_append, List.map_append]

/-! ## Sessions -/

namespace Session

variable {s t : Session Simulation} {input : Input} {inputs inputs' : List Input} {code : String}
  {i : Instrument}

/-- Whether an input makes no request. -/
def Input.Silent : Input → Prop
  | .applyMsgIn text => (Message.read text).requests = []
  | _ => True

/-- The quotes and the trades that come due in an input. -/
def records (s : Session Simulation) : Input → List (Timed QuoteRecord) × List (Timed Trade)
  | .advance => if s.phase = .idle then s.broker.records s.nextTick else ([], [])
  | _ => ([], [])

/-- The trades that come due in some inputs. -/
def trades (s : Session Simulation) : List Input → List (Timed Trade)
  | [] => []
  | input :: inputs => (s.records input).2 ++ (s.accept input).trades inputs

/-- Whether the instrument of a code gets no new ladder from some inputs: in none of them a
depth record comes due for it, or the last one rebuilds the ladder that it has. -/
def Repeats (code : String) (s : Session Simulation) : List Input → Prop
  | [] => True
  | input :: inputs =>
    (∀ i ∈ s.broker.book.find? code, ∀ d ∈ lastDepth code (s.records input).1,
      d.ladder.regrid i.kind = i.ladder) ∧ (s.accept input).Repeats code inputs

/-- Apart from ticks, an input without requests changes no book. -/
theorem accept_silent (silent : input.Silent) (other : input ≠ .advance) :
    (s.accept input).broker.book = s.broker.book ∧ s.log input = []
      ∧ s.records input = ([], []) := by
  cases input with
  | advance => exact absurd rfl other
  | buildMsgOut =>
    simp only [accept, Session.buildMsgOut, log, records, and_true]
    cases s.outOfTurn .buildMsgOut <;> rfl
  | applyMsgIn text =>
    simp only [Input.Silent] at silent
    simp only [accept, Session.applyMsgIn, log, records, and_true]
    cases s.outOfTurn .applyMsgIn with
    | some e => exact ⟨rfl, rfl⟩
    | none =>
      simp only [silent, Broker.apply, Outcome.lift]
      exact ⟨rfl, rfl⟩
  | interrupt => exact ⟨rfl, rfl, rfl⟩

/-- An input without requests carries out no operation of one. -/
theorem mild_accept (silent : input.Silent) (sane : s.broker.book.Sane) :
    Book.MovesBy (fun cause => ¬cause.IsRequest) s.broker.book (s.log input)
      (s.accept input).broker.book := by
  rcases accept_cases s input with ⟨rfl, idle⟩ | ⟨-, -, same, log⟩ | between
  · have any : s.broker.quotes.Holds (·.Shows fun _ => True) := Tape.holds_of_forall shows_true _
    obtain ⟨broker, log⟩ := advance_inTurn idle
    rw [broker, log]
    exact (Simulation.moves_advance any sane.wellFormed).mono fun _ => And.left
  · rw [same, log]
    exact .refl _
  · obtain ⟨same, log, -⟩ := accept_silent (s := s) silent between
    rw [same, log]
    exact .refl _

theorem results_accept (silent : input.Silent) (sane : s.broker.book.Sane)
    (upToDate : s.broker.book.UpToDate) (found : s.broker.book.find? code = some i)
    (repeats : ∀ d ∈ lastDepth code (s.records input).1, d.ladder.regrid i.kind = i.ladder) :
    Book.Results (i.printed (printsOf code (s.records input).2)) code (s.log input)
      (s.accept input).broker.book := by
  rcases accept_cases s input with ⟨rfl, idle⟩ | ⟨rfl, busy, same, log⟩ | between
  · obtain ⟨broker, log⟩ := advance_inTurn idle
    have drawn : s.records .advance = s.broker.records s.nextTick := if_pos idle
    rw [drawn] at repeats ⊢
    rw [broker, log]
    exact Simulation.results_advance sane upToDate found repeats
  · have drawn : s.records .advance = ([], []) := if_neg busy
    rw [same, log, drawn]
    exact Book.results_nil found
  · obtain ⟨same, log, drawn⟩ := accept_silent (s := s) silent between
    rw [same, log, drawn]
    exact Book.results_nil found

/-- A series of inputs without requests does what the prints do that come due in it. -/
theorem results_run (silent : ∀ input ∈ inputs, input.Silent) (sane : s.broker.book.Sane)
    (upToDate : s.broker.book.UpToDate) (found : s.broker.book.find? code = some i)
    (repeats : s.Repeats code inputs) :
    Book.Results (i.printed (printsOf code (s.trades inputs))) code (s.history inputs)
      (s.run inputs).broker.book := by
  induction inputs generalizing s i with
  | nil => exact Book.results_nil found
  | cons input inputs ih =>
    obtain ⟨here, later⟩ := repeats
    obtain ⟨silentHere, silentLater⟩ := List.forall_mem_cons.mp silent
    have first := results_accept silentHere sane upToDate found (here i found)
    have moves : Book.Moves s.broker.book (s.log input) _ := moves_accept sane
    simp only [trades, history, run, List.foldl_cons, printsOf_append]
    exact first.append fun j foundThen =>
      ih silentLater (moves.sane sane) (moves.upToDate sane upToDate) foundThen later

/-- A series of inputs without requests carries out no operation of one. -/
theorem mild_run (silent : ∀ input ∈ inputs, input.Silent) (sane : s.broker.book.Sane) :
    Book.MovesBy (fun cause => ¬cause.IsRequest) s.broker.book (s.history inputs)
      (s.run inputs).broker.book := by
  induction inputs generalizing s with
  | nil => exact .refl _
  | cons input inputs ih =>
    obtain ⟨silentHere, silentLater⟩ := List.forall_mem_cons.mp silent
    have first := mild_accept silentHere sane
    exact first.trans (ih silentLater (first.sane sane))

/-! ## Prints alone -/

/-- Two series of inputs from one book have the same fills, up to their order, if they give
no instrument a new ladder and each the same prints. -/
theorem perm_of_prints (silent : ∀ input ∈ inputs, input.Silent)
    (silent' : ∀ input ∈ inputs', input.Silent) (same : t.broker.book = s.broker.book)
    (sane : s.broker.book.Sane) (upToDate : s.broker.book.UpToDate)
    (prints : ∀ i ∈ s.broker.book.instruments, s.Repeats i.code inputs ∧ t.Repeats i.code inputs'
      ∧ printsOf i.code (t.trades inputs') = printsOf i.code (s.trades inputs)) :
    (fillsOf (t.history inputs')).Perm (fillsOf (s.history inputs)) := by
  apply perm_of_fillsIn
  intro code
  cases found : s.broker.book.find? code with
  | none =>
    have untracked := Book.find?_eq_none_iff.mp found
    rw [(mild_run silent sane).fillsIn_of_untracked sane.wellFormed untracked]
    rw [← same] at sane untracked
    exact (mild_run silent' sane).fillsIn_of_untracked sane.wellFormed untracked
  | some i =>
    obtain rfl := Book.code_of_find? found
    obtain ⟨repeats, repeats', prints⟩ := prints i (Book.mem_of_find? found)
    obtain ⟨_, _, _, first⟩ := results_run silent sane upToDate found repeats
    rw [← same] at sane upToDate found
    obtain ⟨_, _, _, second⟩ := results_run silent' sane upToDate found repeats'
    rw [prints] at second
    exact second.fills.trans first.fills.symm

/-- What becomes of an instrument that gets no new ladder. -/
theorem prints_run (silent : ∀ input ∈ inputs, input.Silent) (sane : s.broker.book.Sane)
    (upToDate : s.broker.book.UpToDate) (hi : i ∈ s.broker.book.instruments)
    (repeats : s.Repeats i.code inputs) :
    let printed := i.printed (printsOf i.code (s.trades inputs))
    fillsIn i.code (s.history inputs) = printed.fills
      ∧ ∃ j ∈ (s.run inputs).broker.book.find? i.code, printed.instrument.Agrees j := by
  have found := sane.wellFormed.find?_eq_some.mpr ⟨hi, rfl⟩
  obtain ⟨j, _, foundThen, alike⟩ := results_run silent sane upToDate found repeats
  exact ⟨alike.fills, j, foundThen, alike.sheds.agrees⟩

/-- What becomes of the account, whether or not there are new ladders. -/
theorem account_run (silent : ∀ input ∈ inputs, input.Silent) (sane : s.broker.book.Sane) :
    (s.run inputs).broker.book.balance
        = s.broker.book.balance + ((fillsOf (s.history inputs)).map (·.2.cash)).sum
      ∧ (s.run inputs).broker.book.stats
        = s.broker.book.stats.recordAll ((fillsOf (s.history inputs)).map Prod.snd) :=
  have moves := mild_run silent sane
  ⟨moves.cash fun _ => id, (moves.run sane.wellFormed).stats⟩

/-- Two series of inputs from one book lead to the same, if they give no instrument a new
ladder and each the same prints. -/
theorem agrees_of_prints (silent : ∀ input ∈ inputs, input.Silent)
    (silent' : ∀ input ∈ inputs', input.Silent) (same : t.broker.book = s.broker.book)
    (sane : s.broker.book.Sane) (upToDate : s.broker.book.UpToDate)
    (prints : ∀ i ∈ s.broker.book.instruments, s.Repeats i.code inputs ∧ t.Repeats i.code inputs'
      ∧ printsOf i.code (t.trades inputs') = printsOf i.code (s.trades inputs)) :
    (s.run inputs).broker.book.Agrees (t.run inputs').broker.book := by
  have sane' : t.broker.book.Sane := same ▸ sane
  have perm := perm_of_prints silent silent' same sane upToDate prints
  obtain ⟨balance, stats⟩ := account_run silent sane
  obtain ⟨balance', stats'⟩ := account_run silent' sane'
  refine ⟨?_, ?_, fun j hj => ?_⟩
  · rw [balance, balance', same, (perm.map _).sum_eq]
  · rw [stats, stats', same, Stats.recordAll_perm (perm.map _)]
  · have run := (mild_run silent sane).run sane.wellFormed
    have tracked : j.code ∈ s.broker.book.codes := run.codes ▸ List.mem_map_of_mem hj
    obtain ⟨i, hi, code⟩ := List.mem_map.mp tracked
    have foundHere := (run.wellFormed sane.wellFormed).find?_eq_some.mpr ⟨hj, rfl⟩
    obtain ⟨repeats, repeats', prints⟩ := prints i hi
    obtain ⟨-, k, found, first⟩ := prints_run silent sane upToDate hi repeats
    rw [← same] at upToDate hi
    obtain ⟨-, j', found', second⟩ := prints_run silent' sane' upToDate hi repeats'
    rw [prints] at second
    rw [code] at found found'
    obtain rfl : j = k := Option.some.inj (foundHere.symm.trans found)
    exact ⟨j', found', first.of_common second⟩

/-- A series of inputs without requests only prints, where it brings no new ladder. -/
structure OnlyPrints (s : Session Simulation) (inputs : List Input) : Prop where
  /-- Whatever is printed, the other steps of a tick have nothing to do. -/
  still : ∀ i ∈ s.broker.book.instruments, i.ladder.isQuoted = true → ∀ prints,
    (i.tradeFills i.ladder prints).instrument.Still
  /-- An instrument that gets no new ladder is changed as by its prints, one after another,
  and its fills are theirs. -/
  prints : ∀ i ∈ s.broker.book.instruments, s.Repeats i.code inputs →
    let printed := i.printed (printsOf i.code (s.trades inputs))
    fillsIn i.code (s.history inputs) = printed.fills
      ∧ ∃ j ∈ (s.run inputs).broker.book.find? i.code, printed.instrument.Agrees j
  /-- What the instruments add to the balance and the statistics is the cash of their fills
  and the fills themselves. -/
  account : (s.run inputs).broker.book.balance
        = s.broker.book.balance + ((fillsOf (s.history inputs)).map (·.2.cash)).sum
      ∧ (s.run inputs).broker.book.stats
        = s.broker.book.stats.recordAll ((fillsOf (s.history inputs)).map Prod.snd)
  /-- Without any prints, nothing is changed. -/
  nothing : (∀ i ∈ s.broker.book.instruments,
      s.Repeats i.code inputs ∧ printsOf i.code (s.trades inputs) = []) →
    s.broker.book.Agrees (s.run inputs).broker.book
  /-- Another series from the same book that prints the same does the same, in however many
  ticks. -/
  split : ∀ (t : Session Simulation) (inputs' : List Input), (∀ input ∈ inputs', input.Silent) →
    t.broker.book = s.broker.book →
    (∀ i ∈ s.broker.book.instruments, s.Repeats i.code inputs ∧ t.Repeats i.code inputs'
      ∧ printsOf i.code (t.trades inputs') = printsOf i.code (s.trades inputs)) →
    (s.run inputs).broker.book.Agrees (t.run inputs').broker.book

theorem onlyPrints (silent : ∀ input ∈ inputs, input.Silent) (sane : s.broker.book.Sane)
    (upToDate : s.broker.book.UpToDate) : s.OnlyPrints inputs where
  still := fun i hi quoted prints =>
    ((upToDate i hi quoted).tradeFills (sane.wellFormed.sorted i hi) i.ladder prints).still
  prints := fun _ hi => prints_run silent sane upToDate hi
  account := account_run silent sane
  nothing := by
    -- No input at all is a series as well.
    have none : ∀ input ∈ ([] : List Input), input.Silent := fun _ h => absurd h List.not_mem_nil
    intro nothing
    exact @agrees_of_prints s s [] inputs none silent rfl sane upToDate fun i hi =>
      ⟨trivial, nothing i hi⟩
  split := fun _ _ silent' same => agrees_of_prints silent silent' same sane upToDate

/-- At any time of a session, a series of inputs without requests only prints, where it
brings no new ladder: so does a tick with no record for an instrument or one that repeats
its ladder, and it makes no difference over how many ticks the prints are spread. -/
theorem run_onlyPrints {broker : Simulation} {clock : SessionClock} {earlier inputs : List Input}
    {balance : Int} {ts : List Tracked} (opened : broker.book = Book.opening balance ts)
    (silent : ∀ input ∈ inputs, input.Silent) :
    ((start broker clock).run earlier).OnlyPrints inputs := by
  have sane : (start broker clock).broker.book.Sane := sane_start opened
  exact onlyPrints silent ((moves_run sane).sane sane) (run_upToDate opened)

/-- A buy waits behind twenty others. Of two prints, the first one leaves two to it, and the
second one goes to it alone. -/
theorem run_onlyPrints_two :
    let broker := Simulation.start (Book.opening 1000000 [⟨"A", .equity, 0⟩])
      steady.toUTF8.toList "32410 A 9990 22
32410 A 9990 3
".toUTF8.toList 8
    let clock : SessionClock := ⟨32400, 33000, 10⟩
    let s := (start broker clock).run [.advance, .buildMsgOut, .applyMsgIn "b A 9990 10"]
    (fillsOf (s.history [.advance])).map (fun p => (p.1, p.2.price, p.2.qty))
        = [("A", 9990, 2), ("A", 9990, 3)]
      ∧ s.OnlyPrints [.advance] := by
  refine ⟨by decide +kernel, ?_⟩
  exact run_onlyPrints rfl (by simp [Input.Silent])

end Session

end TradingDesk
