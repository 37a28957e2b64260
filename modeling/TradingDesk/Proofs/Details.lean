-- SUMMARY: Whose detail an instrument carries, and what a mirror takes the instrument for.
import TradingDesk.Proofs.Delivery
import TradingDesk.Proofs.Isolation
import TradingDesk.Proofs.Mirrors
import TradingDesk.Proofs.Requests

/-!
# Details

An instrument starts with the blank detail of its kind. Its kind stays as it is, but a tick
takes over the last detail that its records name for it, of whatever kind that is. A block
does not tell kinds: a mirror takes an instrument to be of the kind of its detail. So a mirror
has the kinds of the book, and is written as the same block, as long as no record of the tape
names a detail of another kind.
-/

namespace TradingDesk

/-! ## Labels -/

/-- What an instrument is, and what only instruments of one kind have. -/
structure Label where
  code : String
  kind : Kind
  detail : Detail
  deriving DecidableEq, Repr

namespace Label

variable {l : Label} {quotes quotes' : List (Timed QuoteRecord)}

/-- The label once records have said what they say of the instrument. -/
def informed (l : Label) (quotes : List (Timed QuoteRecord)) : Label :=
  { l with detail := (lastDetail l.code quotes).getD l.detail }

/-- Whether the detail is one that instruments of the kind have. -/
def Fits (l : Label) : Prop := l.detail.kind = l.kind

instance : DecidablePred Fits := fun l => inferInstanceAs (Decidable (l.detail.kind = l.kind))

/-- As a mirror has it: the kind is that of the detail. -/
def byDetail (l : Label) : Label := { l with kind := l.detail.kind }

theorem map_informed_nil {ls : List Label} : ls.map (·.informed []) = ls := List.map_id' ls

theorem informed_append : l.informed (quotes ++ quotes') = (l.informed quotes).informed quotes' := by
  have last : lastDetail l.code (quotes ++ quotes')
      = (lastDetail l.code quotes').or (lastDetail l.code quotes) := by
    simp only [lastDetail, recordsOf, List.map_append, List.filter_append, List.filterMap_append,
      List.getLast?_append]
  simp only [informed, last, Option.getD_or]

theorem exists_of_lastDetail {code : String} {detail : Detail}
    (said : lastDetail code quotes = some detail) :
    ∃ q ∈ quotes, q.record.detailOf code = some detail := by
  obtain ⟨record, about, named⟩ := List.mem_filterMap.mp (List.mem_of_getLast? said)
  obtain ⟨mem, subject⟩ := List.mem_filter.mp about
  obtain ⟨q, hq, rfl⟩ := List.mem_map.mp mem
  exact ⟨q, hq, (if_pos (by simpa using subject)).trans named⟩

/-- Where a detail comes from: nothing is known yet, or some record names it. -/
def Sourced (quotes : List (Timed QuoteRecord)) (l : Label) : Prop :=
  l.detail = l.kind.blankDetail ∨ ∃ q ∈ quotes, q.record.detailOf l.code = some l.detail

theorem sourced_informed (blank : l.detail = l.kind.blankDetail) :
    (l.informed quotes).Sourced quotes := by
  cases said : lastDetail l.code quotes with
  | none =>
    left
    rw [informed, said]
    exact blank
  | some detail =>
    right
    obtain ⟨q, hq, named⟩ := exists_of_lastDetail said
    refine ⟨q, hq, named.trans ?_⟩
    rw [informed, said]
    rfl

theorem Sourced.isLegible (h : l.Sourced quotes)
    (legible : ∀ q ∈ quotes, ∀ d ∈ q.record.detail?, d.isLegible = true) :
    l.detail.isLegible = true := by
  rcases h with blank | ⟨q, hq, named⟩
  · rw [blank]
    cases l.kind <;> decide
  · rw [QuoteRecord.detailOf] at named
    split at named
    · exact legible q hq _ named
    · cases named

/-- An instrument that records name only details of its kind for has one of its kind. -/
theorem Sourced.fits (h : l.Sourced quotes)
    (suits : ∀ q ∈ quotes, ∀ d ∈ q.record.detailOf l.code, d.kind = l.kind) : l.Fits := by
  rcases h with blank | ⟨q, hq, named⟩
  · rw [Fits, blank]
    cases l.kind <;> rfl
  · exact suits q hq _ named

theorem Fits.byDetail (h : l.Fits) : l.byDetail = l := by
  rw [Label.byDetail, h]

end Label

def Instrument.label (i : Instrument) : Label := ⟨i.code, i.kind, i.detail⟩

def Book.labels (b : Book) : List Label := b.instruments.map Instrument.label

/-! ## Matching -/

namespace Instrument

variable {i i' : Instrument} {o : Order} {key : Key} {keys : List Key} {side : Side}
  {price flow : Int} {fillPrice : Option Int} {print top : Level} {initiator : Option Side}
  {market : Ladder} {prints : List Level}

theorem detail_fill {qty : Int} {f : Fill} (filled : i.fill o price qty = some (i', f)) :
    i'.detail = i.detail := by
  obtain ⟨-, -, -, -, -, -, -, rfl⟩ := fill_eq_some filled
  rfl

theorem detail_pop : (i.pop key flow price).matched.instrument.detail = i.detail := by
  simp only [pop]
  cases Orders.find? key i.orders with
  | none => rfl
  | some o =>
    simp only [fill]
    split_ifs <;> rfl

theorem detail_flowLevel :
    (i.flowLevel fillPrice flow keys).matched.instrument.detail = i.detail := by
  induction keys generalizing i with
  | nil => rfl
  | cons key keys ih => exact ih.trans detail_pop

theorem detail_flowLevels {levels : List (List Key)} :
    (i.flowLevels fillPrice flow levels).instrument.detail = i.detail := by
  induction levels generalizing i flow with
  | nil => rfl
  | cons keys levels ih =>
    simp only [flowLevels]
    split
    · rfl
    · exact ih.trans detail_flowLevel

theorem detail_flowThrough : (i.flowThrough keys flow fillPrice).instrument.detail = i.detail :=
  detail_flowLevels

theorem detail_deplete : (i.deplete side top).instrument.detail = i.detail := by
  rw [deplete_eq]
  split
  · rfl
  · exact detail_flowThrough

theorem detail_tradeFills : (i.tradeFills market prints).instrument.detail = i.detail := by
  induction prints generalizing i with
  | nil => rfl
  | cons print prints ih => exact ih.trans (detail_flowThrough.trans detail_flowThrough)

theorem detail_fillWhole : (i.fillWhole key price).instrument.detail = i.detail := by
  simp only [fillWhole]
  cases Orders.find? key i.orders with
  | none => rfl
  | some o =>
    simp only
    cases filled : i.fill o price o.qty with
    | none => rfl
    | some result => exact detail_fill filled

theorem detail_fillAll {gaps : List (Key × Int)} : (i.fillAll gaps).instrument.detail = i.detail := by
  induction gaps generalizing i with
  | nil => rfl
  | cons gap gaps ih => exact ih.trans detail_fillWhole

theorem detail_matchTick {depth : Option Depth} :
    (i.matchTick depth prints).instrument.detail = i.detail := by
  have taken : (i.takeOver depth).detail = i.detail := by cases depth <;> rfl
  rw [matchTick_eq, ← taken]
  split
  · have refreshed : (i.takeOver depth).refreshQueue.detail = (i.takeOver depth).detail := rfl
    exact detail_fillAll.trans (detail_tradeFills.trans
      (detail_deplete.trans (detail_deplete.trans refreshed)))
  · rfl

/-- A tick changes nothing of what an instrument is. -/
theorem label_matchTick {depth : Option Depth} (sorted : Orders.Sorted i.orders) :
    (i.matchTick depth prints).instrument.label = i.label := by
  have trades : (i.takeOver depth).Trades (i.matchTick depth prints).fills _ :=
    trades_matchTick sorted
  rw [label, trades.code, trades.kind, detail_matchTick]
  cases depth <;> rfl

end Instrument

/-! ## Books -/

namespace Book

variable {b b' : Book} {code : String} {i i' : Instrument} {quotes : List (Timed QuoteRecord)}
  {trades : List (Timed Trade)} {history : List Event}

theorem labels_set (hb : b.WellFormed) (found : b.find? code = some i) (same : i'.label = i.label) :
    (b.set i').labels = b.labels :=
  hb.map_set (find?_of_code found (congrArg Label.code same)) same

theorem labels_sweep : b.sweep.labels = b.labels := by
  simp only [labels, Book.sweep, List.map_map]
  rfl

theorem labels_matchAll {is : List Instrument} (found : ∀ i ∈ is, b.find? i.code = some i)
    (codes : (is.map Instrument.code).Nodup) (hb : b.WellFormed) :
    (b.matchAll quotes trades is).book.labels = b.labels := by
  induction is generalizing b with
  | nil => rfl
  | cons i is ih =>
    obtain ⟨apart, codes⟩ := List.nodup_cons.mp codes
    have foundHere := found i List.mem_cons_self
    have sorted := hb.sorted i (mem_of_find? foundHere)
    have move : Move b _ _ _ :=
      .tick foundHere (lastDepth i.code quotes) (printsOf i.code trades)
    refine (ih (fun j hj => ?_) codes ((move.run hb).wellFormed hb)).trans ?_
    · have ne : j.code ≠ i.code := fun same => apart (same ▸ List.mem_map_of_mem hj)
      exact (find?_matched_ne sorted ne).trans (found j (List.mem_cons_of_mem i hj))
    · rw [labels, instruments_postAll]
      exact labels_set hb foundHere (Instrument.label_matchTick sorted)

/-- A tick takes over what its records say of details, and nothing else changes a label. -/
theorem labels_replay (hb : b.WellFormed) :
    (b.replay quotes trades).book.labels = b.labels.map (·.informed quotes) := by
  have observed : (quotes.foldl observe b).labels = b.labels.map (·.informed quotes) := by
    rw [observeAll_eq hb.nodup, labels, labels, List.map_map, List.map_map]
    rfl
  have moves : Moves b [] (quotes.foldl observe b) := moves_observeAll trivial hb
  have hbThen := moves.wellFormed hb
  have matched : ((quotes.foldl observe b).matchAll quotes trades
      (quotes.foldl observe b).instruments).book.labels = (quotes.foldl observe b).labels :=
    labels_matchAll (fun i hi => hbThen.find?_eq_some.mpr ⟨hi, rfl⟩) hbThen.nodup hbThen
  rw [← observed, ← matched]
  simp only [replay]
  split <;> rfl

/-- Operations of requests change no label. -/
theorem MovesBy.labels (moves : MovesBy Cause.IsRequest b history b') (hb : b.WellFormed) :
    b'.labels = b.labels := by
  induction moves with
  | refl => rfl
  | @snoc b' _ _ _ _ moves move meets ih =>
    have hb := moves.wellFormed hb
    rw [← ih]
    cases move with
    | quiet => exact meets.elim
    | sweep => exact meets.elim
    | tick => exact meets.elim
    | place found _ _ placed =>
      rw [placed_eq found placed]
      exact labels_set hb found rfl
    | cancel found _ withdrawn =>
      obtain ⟨-, -, -, rfl⟩ := Instrument.withdraw_eq_some withdrawn
      exact labels_set hb found rfl

end Book

namespace Simulation

variable {s : Simulation} {c : TickContext}

theorem labels_advance (hb : s.book.WellFormed) : (s.advance c).state.book.labels
    = s.book.labels.map (·.informed (s.records c).1) := by
  have turned : (s.turn c.tick).book.labels = s.book.labels := Book.labels_sweep
  have hbThen : (s.turn c.tick).book.WellFormed :=
    (moves_turn (P := fun _ => True) trivial trivial).wellFormed hb
  rw [advance_due.1, records, ← turned]
  cases s.due c with
  | none => exact Label.map_informed_nil.symm
  | some r => exact Book.labels_replay hbThen

theorem holds_records {R : Timed QuoteRecord → Prop} (h : s.quotes.Holds R) :
    ∀ q ∈ (s.records c).1, R q := by
  rw [records]
  cases due : s.due c with
  | none => simp
  | some r => exact holds_due h r due

end Simulation

/-! ## Sessions -/

namespace Session

variable {s : Session Simulation} {input : Input} {inputs : List Input}

/-- The quotes that an input hands over. -/
def quotesOf (s : Session Simulation) : Input → List (Timed QuoteRecord)
  | .advance =>
    match s.outOfTurn .advance with
    | some _ => []
    | none => (s.broker.records s.nextTick).1
  | .buildMsgOut => []
  | .applyMsgIn _ => []
  | .interrupt => []

/-- The quotes that some inputs hand over, in turn. -/
def handed (s : Session Simulation) : List Input → List (Timed QuoteRecord)
  | [] => []
  | input :: inputs => s.quotesOf input ++ (s.accept input).handed inputs

theorem labels_accept (sane : s.broker.book.Sane) : (s.accept input).broker.book.labels
    = s.broker.book.labels.map (·.informed (s.quotesOf input)) := by
  rcases accept_cases s input with ⟨rfl, idle⟩ | ⟨rfl, busy, same, -⟩ | between
  · have inTurn : s.outOfTurn .advance = none := outOfTurn_eq_none.mpr idle
    simp only [quotesOf, inTurn]
    rw [(advance_inTurn idle).1]
    exact Simulation.labels_advance sane.wellFormed
  · obtain ⟨e, outOfTurn⟩ : ∃ e, s.outOfTurn .advance = some e :=
      Option.ne_none_iff_exists'.mp (mt outOfTurn_eq_none.mp busy)
    simp only [quotesOf, outOfTurn, same, Label.map_informed_nil]
  · have silent : s.quotesOf input = [] := by
      cases input with
      | advance => exact absurd rfl between
      | _ => rfl
    rw [silent, Label.map_informed_nil]
    exact (moves_between between sane).labels sane.wellFormed

/-- A session changes nothing of what its instruments are but their details, each of which is
the last one that the records handed over name for it. -/
theorem labels_run (sane : s.broker.book.Sane) : (s.run inputs).broker.book.labels
    = s.broker.book.labels.map (·.informed (s.handed inputs)) := by
  induction inputs generalizing s with
  | nil => exact Label.map_informed_nil.symm
  | cons input inputs ih =>
    have rest : (s.run (input :: inputs)).broker.book.labels = _ := ih ((moves_accept sane).sane sane)
    rw [rest, labels_accept sane, List.map_map]
    exact List.map_congr_left fun _ _ => Label.informed_append.symm

/-- What holds of all records of the quote tape holds of those that are handed over. -/
theorem holds_handed {R : Timed QuoteRecord → Prop} (h : s.broker.quotes.Holds R) :
    ∀ q ∈ s.handed inputs, R q := by
  induction inputs generalizing s with
  | nil => simp [handed]
  | cons input inputs ih =>
    intro q hq
    rcases List.mem_append.mp hq with here | later
    · cases input with
      | advance =>
        simp only [quotesOf] at here
        split at here
        · cases here
        · exact Simulation.holds_records h q here
      | _ => cases here
    · exact ih (holds_accept h) q later

end Session

/-! ## Records -/

namespace Tape

variable {α : Type} {name : String} {a : α} {fs rest : List (List Char)} {q : Timed QuoteRecord}

theorem next_eq_ok {read : List Char → Option α} (h : next name read fs = .ok (a, rest)) :
    ∃ f, fs = f :: rest ∧ read f = some a := by
  cases fs with
  | nil => cases h
  | cons f fs =>
    simp only [next, entry, bind, Except.bind] at h
    cases hread : read f with
    | none =>
      rw [hread] at h
      cases h
    | some b =>
      rw [hread] at h
      cases h
      exact ⟨f, rfl, hread⟩

theorem entry_eq_ok {f : List Char} (h : entry name fs = .ok (f, rest)) : fs = f :: rest := by
  cases fs with
  | nil => cases h
  | cons g fs =>
    cases h
    rfl

theorem isSolid_of_readChar {f : List Char} {c : Char} (field : Text.IsField f)
    (read : Text.readChar f = some c) : Text.isBlank c = false := by
  match f with
  | [d] =>
    obtain rfl := Option.some.inj read
    exact field.solid d List.mem_cons_self
  | [] => cases read
  | _ :: _ :: _ => cases read

/-- A detail that is read from a line can be told from its text. -/
theorem isLegible_of_read {line : List Char} (read : readQuoteLine line = .ok q) :
    ∀ d ∈ q.record.detail?, d.isLegible = true := by
  simp only [readQuoteLine, bind_eq_ok] at read
  obtain ⟨⟨time, afterTime⟩, timed, ⟨tag, afterTag⟩, tagged, ⟨record, rest⟩, recorded, finished⟩ := read
  obtain ⟨_, timeField, -⟩ := next_eq_ok timed
  have tagField : afterTime = tag :: afterTag := entry_eq_ok tagged
  have fields : ∀ f ∈ afterTag, Text.IsField f := by
    intro f hf
    have mem : f ∈ Text.words line := by
      rw [timeField, tagField]
      exact List.mem_cons_of_mem _ (List.mem_cons_of_mem _ hf)
    exact Text.isField_of_mem_words mem
  obtain rfl : ⟨time, record⟩ = q := by
    cases rest with
    | nil => exact Except.ok.inj finished
    | cons => cases finished
  simp only [readTagged] at recorded
  split at recorded
  · simp only [readIndex, bind_eq_ok] at recorded
    obtain ⟨_, -, eq⟩ := recorded
    cases eq
    simp [QuoteRecord.detail?]
  · simp only [readWarrant, bind_eq_ok] at recorded
    obtain ⟨⟨code, afterCode⟩, coded, ⟨callPut, afterCallPut⟩, called, _, -, _, -, eq⟩ := recorded
    cases eq
    simp only [Tape.code, bind_eq_ok] at coded
    obtain ⟨⟨first, afterFirst⟩, codeField, eq⟩ := coded
    cases eq
    obtain ⟨second, callPutField, letter⟩ : ∃ f, afterFirst = f :: afterCallPut
      ∧ Text.readChar f = some callPut := next_eq_ok called
    have field : Text.IsField second := by
      apply fields
      rw [entry_eq_ok codeField, callPutField]
      exact List.mem_cons_of_mem _ List.mem_cons_self
    have solid := isSolid_of_readChar field letter
    simp [QuoteRecord.detail?, Detail.isLegible, solid]
  · simp only [readNav, bind_eq_ok] at recorded
    obtain ⟨_, -, _, -, eq⟩ := recorded
    cases eq
    simp [QuoteRecord.detail?, Detail.isLegible]
  · simp only [readDepth, bind_eq_ok] at recorded
    obtain ⟨_, -, _, -, _, -, _, -, eq⟩ := recorded
    cases eq
    simp [QuoteRecord.detail?]

theorem meets_ofBytes (bytes : List UInt8) : (Entry.ofBytes bytes : Entry QuoteRecord).Meets
    fun q => ∀ d ∈ q.record.detail?, d.isLegible = true := by
  simp only [Entry.ofBytes]
  split
  · trivial
  · split
    · trivial
    · trivial
    · split
      next read => exact isLegible_of_read read
      · trivial

theorem holds_legible {t : Tape QuoteRecord} (unread : t.ahead = none) :
    t.Holds fun q => ∀ d ∈ q.record.detail?, d.isLegible = true where
  ahead := by simp [unread]
  pending := fun bytes _ => meets_ofBytes bytes

/-- A tape hands over none but its own records. -/
theorem holds_left (t : Tape QuoteRecord) : t.Holds (· ∈ records t.left) where
  ahead := by
    intro r hr
    refine List.mem_filterMap.mpr ⟨.record r, ?_, rfl⟩
    rw [left, Option.mem_def.mp hr]
    exact List.mem_append_left _ List.mem_cons_self
  pending := by
    intro bytes hbytes
    cases entry : (Entry.ofBytes bytes : Entry QuoteRecord) with
    | record r =>
      refine List.mem_filterMap.mpr ⟨.record r, ?_, rfl⟩
      rw [left, ← entry]
      exact List.mem_append_right _ (List.mem_map_of_mem hbytes)
    | _ => trivial

end Tape

/-! ## Mirrors -/

/-- As a mirror has it: of the kind of its detail. -/
def Instrument.byDetail (i : Instrument) : Instrument := { i with kind := i.detail.kind }

namespace Book

variable {b : Book}

def byDetail (b : Book) : Book := { b with instruments := b.instruments.map Instrument.byDetail }

theorem labels_byDetail : b.byDetail.labels = b.labels.map Label.byDetail := by
  simp only [labels, byDetail, List.map_map]
  rfl

theorem WellFormed.byDetail (hb : b.WellFormed) : b.byDetail.WellFormed where
  codes := by
    have same : b.byDetail.codes = b.codes := by
      simp only [Book.codes, Book.byDetail, List.map_map]
      rfl
    rw [same]
    exact hb.codes
  sorted := List.forall_mem_map.mpr hb.sorted
  ids := List.forall_mem_map.mpr hb.ids

theorem InWords.byDetail (words : b.InWords) : b.byDetail.InWords where
  tick := words.tick
  balance := words.balance
  totals := words.totals
  slots := words.slots
  instruments := List.forall_mem_map.mpr fun i hi =>
    have h := words.instruments i hi
    ⟨h.avgPrice, h.traded, h.levels, h.detail, h.idle, h.orders⟩

theorem hasWarrants_eq : b.hasWarrants = b.labels.any fun l => l.kind == .warrant := by
  rw [labels, List.any_map]
  rfl

end Book

namespace StateBlock

variable {b m : Book}

theorem rows_byDetail : rowsTelling b b.byDetail = rows b := by
  simp only [rowsTelling, rows, Book.byDetail, List.flatMap_map]
  rfl

theorem Reads.labels {told : Book} (h : Reads told b m) : m.labels = b.labels := by
  rw [Book.labels, h.instruments]
  exact map_of_mirrors mirrors_mirrorAll fun _ _ h => by
    rw [Instrument.label, h.code, h.kind, h.detail, Instrument.label]

theorem Reads.hasWarrants {told : Book} (h : Reads told b m) : m.hasWarrants = b.hasWarrants := by
  rw [Book.hasWarrants_eq, Book.hasWarrants_eq, h.labels]

/-- A mirror is written as the rows of its book, with its own row of the index. -/
theorem Reads.rows {told : Book} (h : Reads told b m) : rows m = rowsTelling m b := by
  have instruments : m.instruments.flatMap instrumentRows = b.instruments.flatMap instrumentRows := by
    rw [h.instruments, List.flatMap_def, List.flatMap_def,
      map_of_mirrors mirrors_mirrorAll fun _ _ => rows_of_mirrors]
  simp only [StateBlock.rows, rowsTelling, headerRow, h.tick, h.balance, h.stats, instruments]

theorem length_indexRow : (indexRow b).length = if b.hasWarrants then 1 else 0 := by
  rw [indexRow]
  split <;> rfl

/-- A block has a line for each of its rows. -/
theorem length_lines_render (legible : ∀ l ∈ b.labels,
    Text.IsField l.code.toList ∧ l.detail.isLegible = true) :
    (Text.lines (render b).toList).length = (rows b).length + 2 := by
  have isLine : ∀ fields ∈ ([opening] :: rows b ++ [[closing]]).map Row.fields,
      Text.IsLine fields := List.forall_mem_map.mpr (isLine_rows (List.forall_mem_map.mp legible))
  have cut := Text.lines_unlines isLine
  rw [List.flatMap_map] at cut
  rw [toList_render]
  refine (congrArg List.length cut).trans ?_
  simp

/-- A mirror is written as the same block if and only if it has warrants where the book has:
without them the index is not told. -/
theorem Reads.render_eq_iff (legible : ∀ l ∈ b.labels,
    Text.IsField l.code.toList ∧ l.detail.isLegible = true) (h : Reads b b.byDetail m) :
    render m = render b ↔ m.hasWarrants = b.hasWarrants := by
  have labels : m.labels = b.labels.map Label.byDetail := h.labels.trans Book.labels_byDetail
  have legibleThere : ∀ l ∈ m.labels, Text.IsField l.code.toList ∧ l.detail.isLegible = true := by
    rw [labels]
    exact List.forall_mem_map.mpr legible
  constructor
  · intro same
    have lengths := congrArg (fun text => (Text.lines text.toList).length) same
    simp only [length_lines_render legible, length_lines_render legibleThere, h.rows,
      ← rows_byDetail, rowsTelling, List.length_append, List.length_cons, length_indexRow] at lengths
    cases there : m.hasWarrants <;> cases here : b.hasWarrants <;> simp [there, here] at lengths ⊢
  · intro same
    have index : indexRow m = indexRow b := by
      rw [indexRow, indexRow, same]
      split
      next some => rw [h.index some]
      next => rfl
    rw [render, render, h.rows, ← rows_byDetail, rowsTelling, rowsTelling, index]

/-- The block of a book is read back as a mirror in which each instrument is of the kind of its
detail. -/
theorem parse_render_byDetail (hb : b.WellFormed) (words : b.InWords) (legible : ∀ l ∈ b.labels,
    Text.IsField l.code.toList ∧ l.detail.isLegible = true) :
    ∃ m, parse (render b) = .ok m ∧ m.labels = b.labels.map Label.byDetail
      ∧ (render m = render b ↔ m.hasWarrants = b.hasWarrants) := by
  have legibleShown : b.byDetail.Legible := List.forall_mem_map.mpr fun i hi =>
    have told := legible i.label (List.mem_map_of_mem hi)
    ⟨told.1, rfl, told.2⟩
  have written := @toList_render b
  rw [← rows_byDetail] at written
  obtain ⟨m, read, reads⟩ := parse_rows hb.byDetail legibleShown words.byDetail written
  exact ⟨m, read, reads.labels.trans Book.labels_byDetail, reads.render_eq_iff legible⟩

end StateBlock

/-! ## Sessions and mirrors -/

theorem Book.mem_labels_opening {balance : Int} {ts : List Tracked} {l : Label}
    (hl : l ∈ (opening balance ts).labels) :
    (∃ t ∈ ts, t.code = l.code) ∧ l.detail = l.kind.blankDetail := by
  obtain ⟨i, hi, rfl⟩ := List.mem_map.mp hl
  have found := ((wellFormed_opening balance ts).find?_eq_some).mpr ⟨hi, rfl⟩
  rw [find?_opening] at found
  obtain ⟨t, ht, rfl⟩ := Option.map_eq_some_iff.mp found
  exact ⟨⟨t, List.mem_of_find?_eq_some ht, rfl⟩, rfl⟩

namespace Session

open StateBlock

/-- The detail of an instrument is the last one that the records handed over name for it, or
the blank one of its kind, and a mirror takes the instrument to be of the kind of its detail.
So each detail is one of its kind, the mirror has the same kinds and is written as the same
block, if the records name none but details of their instruments' kinds. -/
theorem run_details {broker : Simulation} {clock : SessionClock} {inputs : List Input}
    {balance : Int} {ts : List Tracked} (opened : broker.book = Book.opening balance ts)
    (unread : broker.quotes.ahead = none) :
    let s := (start broker clock).run inputs
    let b := s.broker.book
    let handed := (start broker clock).handed inputs
    (∀ q ∈ handed, q ∈ Tape.records broker.quotes.left)
      ∧ b.labels = (Book.opening balance ts).labels.map (·.informed handed)
      ∧ ((∀ q ∈ handed, ∀ l ∈ b.labels, ∀ d ∈ q.record.detailOf l.code, d.kind = l.kind) →
          ∀ l ∈ b.labels, l.Fits)
      ∧ ((∀ t ∈ ts, Text.IsField t.code.toList) → b.InWords →
          ∃ m, parse (render b) = .ok m ∧ m.labels = b.labels.map Label.byDetail
            ∧ (render m = render b ↔ m.hasWarrants = b.hasWarrants)
            ∧ ((∀ l ∈ b.labels, l.Fits) → m.labels = b.labels ∧ render m = render b)) := by
  intro s b handed
  have sane : (start broker clock).broker.book.Sane := sane_start opened
  have labels : b.labels = broker.book.labels.map (·.informed handed) := labels_run sane
  rw [opened] at labels
  have sourced : ∀ l ∈ b.labels, (∃ t ∈ ts, t.code = l.code) ∧ l.Sourced handed := by
    rw [labels]
    refine List.forall_mem_map.mpr fun l hl => ?_
    obtain ⟨tracked, blank⟩ := Book.mem_labels_opening hl
    exact ⟨tracked, Label.sourced_informed blank⟩
  refine ⟨holds_handed (Tape.holds_left _), labels, fun suits l hl => ?_, fun codes words => ?_⟩
  · exact (sourced l hl).2.fits fun q hq => suits q hq l hl
  · have legible : ∀ l ∈ b.labels, Text.IsField l.code.toList ∧ l.detail.isLegible = true := by
      intro l hl
      obtain ⟨⟨t, ht, same⟩, source⟩ := sourced l hl
      exact ⟨same ▸ codes t ht, source.isLegible (holds_handed (Tape.holds_legible unread))⟩
    obtain ⟨m, read, kinds, rendered⟩ :=
      parse_render_byDetail (sane_run sane).wellFormed words legible
    refine ⟨m, read, kinds, rendered, fun fits => ?_⟩
    have same : m.labels = b.labels := by
      rw [kinds]
      exact (List.map_congr_left fun l hl => (fits l hl).byDetail).trans (List.map_id' _)
    refine ⟨same, rendered.mpr ?_⟩
    rw [Book.hasWarrants_eq, Book.hasWarrants_eq, same]

/-- The terms of a warrant and the deviation of a tracker. -/
def detailing : String :=
  "32401 e 57JA01 c 20261217 1 2 3 4 5 6 7 8\n32402 n 069500 -0.5\n32403 k 350.25\n"

/-- A warrant, a tracker and a share, with records of the first two. -/
theorem run_details_suited :
    let broker := Simulation.start (Book.opening 1000000
      [⟨"57JA01", .warrant, 10⟩, ⟨"069500", .tracker, 5⟩, ⟨"005930", .equity, 0⟩])
      detailing.toUTF8.toList [] 20
    let clock : SessionClock := ⟨32400, 33000, 10⟩
    let inputs : List Input := [.advance, .buildMsgOut, .applyMsgIn "b 005930 9990 3"]
    let b := ((start broker clock).run inputs).broker.book
    broker.quotes.ahead = none ∧ ((start broker clock).handed inputs).length = 3
      ∧ ∃ m, parse (render b) = .ok m ∧ m.labels = b.labels ∧ render m = render b := by
  intro broker clock inputs b
  have details := @run_details broker clock inputs 1000000 _ rfl rfl
  have fits : ∀ l ∈ b.labels, l.Fits := details.2.2.1 (by decide +kernel)
  obtain ⟨m, read, -, -, same⟩ := details.2.2.2 (by decide) (by decide +kernel)
  exact ⟨rfl, by decide +kernel, m, read, same fits⟩

/-- A record names the terms of a warrant for a share, which carries them from then on. -/
theorem run_mislabeled :
    let broker := Simulation.start (Book.opening 1000000 [⟨"X", .equity, 0⟩])
      "32405 e X c 20261217 1 2 3 4 5 6 7 8".toUTF8.toList [] 20
    let clock : SessionClock := ⟨32400, 33000, 10⟩
    ∃ l ∈ ((start broker clock).run [.advance]).broker.book.labels,
      l.kind = .equity ∧ l.detail.kind = .warrant := by
  decide +kernel

end Session

end TradingDesk
