-- SUMMARY: What can happen to a book, change by change, and what every change keeps.
import TradingDesk.Book.Valuation
import TradingDesk.Proofs.Account

/-!
# Histories

All that happens to a book is a series of `Step`s: market data and places in queues
change, exhausted orders are swept, an order is placed, filled or canceled. The last
three leave an `Event` in the history. A `Run` is a series of steps with its history;
what one step keeps, a run keeps.
-/

namespace TradingDesk

/-- What a history keeps of an order: how it was placed, filled and canceled. A fill
holds the order as it was before it. -/
inductive Event where
  /-- An order was placed in an instrument that was as given. -/
  | placed (before : Instrument) (order : Order)
  | filled (code : String) (fill : Fill)
  /-- A quantity of an order, given as it was before, was canceled. -/
  | canceled (code : String) (order : Order) (qty : Int)

namespace Book

/-- One change of a book and the event that it is, if it is one. -/
inductive Step : Book → Option Event → Book → Prop
  | observe {b b' : Book} (same : b'.account = b.account) : Step b none b'
  | sweep (b : Book) : Step b none b.sweep
  | place {b : Book} {code : String} {i : Instrument} {side : Side} {price qty : Int}
      {p : Posted Key} (found : b.find? code = some i) (placed : b.insert code side price qty = .ok p) :
      Step b (some (.placed i (i.newOrder b.nextId side price qty))) p.book
  | fill {b : Book} {code : String} {i i' : Instrument} {key : Key} {o : Order} {price qty : Int}
      {f : Fill} (found : b.find? code = some i) (resting : Orders.find? key i.orders = some o)
      (filled : i.fill o price qty = some (i', f)) :
      Step b (some (.filled code f)) ((b.set i').post code f).book
  | cancel {b : Book} {code : String} {i i' : Instrument} {key : Key} {o : Order} {qty : Int}
      {w : Withdrawal} (found : b.find? code = some i) (resting : Orders.find? key i.orders = some o)
      (withdrawn : i.withdraw o qty = some (i', w)) :
      Step b (some (.canceled code o w.qty)) { b.set i' with balance := b.balance + w.release }

/-- A series of steps with its history, each of whose events meets `P` in the book
that it happens to. -/
inductive Run (P : Book → Event → Prop) : Book → List Event → Book → Prop
  | refl (b : Book) : Run P b [] b
  | snoc {b b' b'' : Book} {history : List Event} {e : Option Event} (run : Run P b history b')
      (step : Step b' e b'') (meets : ∀ x ∈ e, P b' x) : Run P b (history ++ e.toList) b''

namespace Run

variable {P Q : Book → Event → Prop} {b b' b'' : Book} {h h' : List Event} {x : Event}

theorem trans (first : Run P b h b') (second : Run P b' h' b'') : Run P b (h ++ h') b'' := by
  induction second with
  | refl => simpa using first
  | snoc _ step meets ih =>
    rw [← List.append_assoc]
    exact ih.snoc step meets

theorem mono (run : Run P b h b') (weaker : ∀ c e, P c e → Q c e) : Run Q b h b' := by
  induction run with
  | refl => exact .refl _
  | snoc _ step meets ih => exact ih.snoc step fun e he => weaker _ e (meets e he)

theorem silent (step : Step b none b') : Run P b [] b' :=
  (Run.refl b).snoc step (by simp)

theorem single (step : Step b (some x) b') (meets : P b x) : Run P b [x] b' :=
  (Run.refl b).snoc step (by simpa using meets)

end Run

/-! ## The book after each step -/

section Steps

variable {b : Book} {code : String} {i i' : Instrument} {key : Key} {o : Order}
  {side : Side} {price qty : Int}

/-- The balance once an order is placed: a buy is paid for at once. -/
def charged (b : Book) (kind : Kind) (side : Side) (price qty : Int) : Int :=
  match side with
  | .buy => b.balance - kind.cost price qty
  | .sell => b.balance

theorem insert_eq_ok {p : Posted Key} (found : b.find? code = some i)
    (h : b.insert code side price qty = .ok p) :
    p.book = { b.set (i.place b.nextId side price qty) with
      balance := b.charged i.kind side price qty, nextId := b.nextId + 1 } := by
  unfold insert at h
  rw [found] at h
  simp only [Except.ok.injEq] at h
  subst h
  cases side <;> rfl

theorem find?_of_insert {p : Posted Key} (found : b.find? code = some i)
    (h : b.insert code side price qty = .ok p) :
    p.book.find? code = some (i.place b.nextId side price qty) := by
  rw [insert_eq_ok found h]
  exact find?_set_self (i := i.place b.nextId side price qty) found rfl

theorem find?_of_insert_ne {p : Posted Key} {c : String} (found : b.find? code = some i)
    (h : b.insert code side price qty = .ok p) (ne : c ≠ code) : p.book.find? c = b.find? c := by
  have hcode : i.code = code := code_of_find? found
  rw [insert_eq_ok found h]
  have frame : (b.set (i.place b.nextId side price qty)).find? c = b.find? c :=
    find?_set_ne fun same => ne (same.trans hcode)
  exact frame

end Steps

/-! ## What each step keeps of the orders -/

section Each

variable {P : Order → Prop} {b b' : Book} {code : String} {i i' : Instrument} {key : Key} {o : Order}
  {n : Int}

/-- What holds of each order of a book. -/
def Each (P : Order → Prop) (b : Book) : Prop := ∀ i ∈ b.instruments, ∀ o ∈ i.orders, P o

theorem Each.of_account (h : b.Each P) (hP : ∀ o, P o.bare ↔ P o) (same : b'.account = b.account) :
    b'.Each P := by
  intro i hi
  obtain ⟨j, hj, eq⟩ := exists_mem_of_account same hi
  exact (Instrument.forall_of_account hP eq).mpr (h j hj)

theorem Each.sweep (h : b.Each P) : b.sweep.Each P := by
  simp only [Each, Book.sweep, List.forall_mem_map]
  intro i hi o ho
  exact h i hi o (List.mem_of_mem_filter ho)

theorem Each.place {side : Side} {price qty : Int} (h : b.Each P) (hb : b.WellFormed)
    (found : b.find? code = some i) (new : P (i.newOrder b.nextId side price qty)) :
    (b.set (i.place b.nextId side price qty)).Each P := by
  have mem := mem_of_find? found
  refine forall_set h ?_
  intro o ho
  rcases (Orders.mem_insert (Instrument.fresh_of_ids (hb.ids i mem) side price qty)).mp ho with rfl | ho
  · exact new
  · exact h i mem o ho

theorem Each.shrink (h : b.Each P) (hb : b.WellFormed) (found : b.find? code = some i)
    (resting : Orders.find? key i.orders = some o)
    (horders : i'.orders = (i.shrinkOrder key n).orders) (new : P o → P (o.shrink i.kind n)) :
    (b.set i').Each P := by
  have mem := mem_of_find? found
  refine forall_set h ?_
  intro p hp
  rw [horders] at hp
  rcases (Instrument.mem_shrinkOrder (hb.sorted i mem) resting).mp hp with rfl | ⟨hp, -⟩
  · exact new (h i mem o (Orders.mem_of_find? resting))
  · exact h i mem p hp

end Each

/-! ## Well-formed books -/

section WellFormed

variable {b b' : Book} {code : String} {i i' : Instrument} {key : Key} {n : Int}

theorem WellFormed.congr (hb : b.WellFormed) (instruments : b'.instruments = b.instruments)
    (nextId : b.nextId ≤ b'.nextId) : b'.WellFormed where
  codes := by
    rw [Book.codes, instruments]
    exact hb.codes
  sorted := instruments ▸ hb.sorted
  ids := by
    intro i hi o ho
    rw [instruments] at hi
    exact (hb.ids i hi o ho).trans_le nextId

theorem WellFormed.place (hb : b.WellFormed) (found : b.find? code = some i) (side : Side)
    (price qty balance : Int) :
    { b.set (i.place b.nextId side price qty) with balance, nextId := b.nextId + 1 }.WellFormed := by
  have mem := mem_of_find? found
  have fresh := Instrument.fresh_of_ids (hb.ids i mem) side price qty
  have raised : { b with nextId := b.nextId + 1 }.WellFormed := hb.congr rfl (Nat.le_succ _)
  refine (raised.set ((hb.sorted i mem).insert fresh) ?_).congr rfl le_rfl
  intro o ho
  rcases (Orders.mem_insert fresh).mp ho with rfl | ho
  · exact Nat.lt_succ_self _
  · exact Nat.lt_succ_of_lt (hb.ids i mem o ho)

/-- An order that shrinks keeps its key. -/
theorem WellFormed.shrink {o : Order} (hb : b.WellFormed) (found : b.find? code = some i)
    (resting : Orders.find? key i.orders = some o)
    (horders : i'.orders = (i.shrinkOrder key n).orders) : (b.set i').WellFormed where
  codes := by
    rw [codes_set]
    exact hb.codes
  sorted := by
    refine forall_set hb.sorted ?_
    rw [horders]
    exact Instrument.sorted_shrinkOrder (hb.sorted i (mem_of_find? found))
  ids := Each.shrink hb.ids hb found resting horders fun old => Order.shrink_id.symm ▸ old

@[simp] theorem codes_sweep : b.sweep.codes = b.codes := by
  simp only [codes, Book.sweep, List.map_map]
  rfl

theorem WellFormed.sweep (hb : b.WellFormed) : b.sweep.WellFormed where
  codes := by
    rw [codes_sweep]
    exact hb.codes
  sorted := by
    simp only [Book.sweep, List.forall_mem_map]
    intro i hi
    exact (hb.sorted i hi).filter
  ids := Each.sweep hb.ids

theorem Step.wellFormed {e : Option Event} (step : Step b e b') (hb : b.WellFormed) :
    b'.WellFormed := by
  cases step with
  | observe same => exact hb.of_account same
  | sweep => exact hb.sweep
  | place found placed =>
    rw [insert_eq_ok found placed]
    exact hb.place found ..
  | @fill _ i i' _ _ _ _ _ found resting filled =>
    obtain ⟨-, -, -, -, -, -, -, after⟩ := Instrument.fill_eq_some filled
    rw [← Orders.key_of_find? resting] at resting
    have kept : (b.set i').WellFormed := hb.shrink found resting (by rw [after])
    exact kept.congr rfl le_rfl
  | @cancel _ i i' _ _ _ _ found resting withdrawn =>
    obtain ⟨-, -, -, after⟩ := Instrument.withdraw_eq_some withdrawn
    rw [← Orders.key_of_find? resting] at resting
    have kept : (b.set i').WellFormed := hb.shrink found resting (by rw [after])
    exact kept.congr rfl le_rfl

/-- What holds of each order and of new ones, and is kept when an order shrinks, holds of each
order after a step. -/
theorem Step.each {P : Order → Prop} {e : Option Event} (step : Step b e b') (hb : b.WellFormed)
    (h : b.Each P) (hP : ∀ o, P o.bare ↔ P o)
    (new : ∀ i id side price qty, e = some (.placed i (i.newOrder id side price qty)) →
      P (i.newOrder id side price qty))
    (shrink : ∀ o kind n, n ≤ o.qty → P o → P (o.shrink kind n)) : b'.Each P := by
  cases step with
  | observe same => exact h.of_account hP same
  | sweep => exact h.sweep
  | place found ok =>
    rw [insert_eq_ok found ok]
    exact Each.place h hb found (new _ _ _ _ _ rfl)
  | @fill _ i i' _ _ _ _ _ found resting filled =>
    obtain ⟨-, -, le, -, -, -, -, after⟩ := Instrument.fill_eq_some filled
    rw [← Orders.key_of_find? resting] at resting
    have kept : (b.set i').Each P := h.shrink hb found resting (by rw [after]) (shrink _ _ _ le)
    exact kept
  | @cancel _ i i' _ o qty _ found resting withdrawn =>
    obtain ⟨-, least, -, after⟩ := Instrument.withdraw_eq_some withdrawn
    have le := least.trans_le (min_le_right qty o.qty)
    rw [← Orders.key_of_find? resting] at resting
    have kept : (b.set i').Each P := h.shrink hb found resting (by rw [after]) (shrink _ _ _ le)
    exact kept

theorem Run.wellFormed {P : Book → Event → Prop} {history : List Event} (run : Run P b history b')
    (hb : b.WellFormed) : b'.WellFormed := by
  induction run with
  | refl => exact hb
  | snoc _ step _ ih => exact step.wellFormed ih

/-- Nothing that happens to a book adds or drops a code. -/
theorem Step.codes {e : Option Event} (step : Step b e b') : b'.codes = b.codes := by
  cases step with
  | observe same => exact codes_of_account same
  | sweep => exact codes_sweep
  | place found placed =>
    rw [insert_eq_ok found placed]
    exact codes_set
  | fill => exact codes_set
  | cancel => exact codes_set

theorem Run.codes {P : Book → Event → Prop} {history : List Event} (run : Run P b history b') :
    b'.codes = b.codes := by
  induction run with
  | refl => rfl
  | snoc _ step _ ih => rw [step.codes, ih]

end WellFormed

end Book

/-! ## Calls -/

/-- The calls by which a book is changed from outside. -/
inductive Command where
  | quote (code : String) (avgPrice traded : Int) (raw : Ladder)
  | sweep
  | insert (code : String) (side : Side) (price qty : Int)
  | trade (code : String) (key : Key) (price qty : Int)
  | cancel (code : String) (key : Key) (qty : Int)

/-- Whether something was booked on an order. -/
def Event.Concerns (code : String) (key : Key) : Event → Prop
  | .placed .. => False
  | .filled c f => c = code ∧ f.order.key = key
  | .canceled c o _ => c = code ∧ o.key = key

namespace Book

/-- The book after a call. A call that fails leaves it as it was. -/
def call (b : Book) : Command → Book
  | .quote code avgPrice traded raw => (b.quote code avgPrice traded raw).toOption.getD b
  | .sweep => b.sweep
  | .insert code side price qty =>
    match b.insert code side price qty with
    | .ok p => p.book
    | .error _ => b
  | .trade code key price qty =>
    match b.trade code key price qty with
    | .ok p => p.book
    | .error _ => b
  | .cancel code key qty =>
    match b.cancel code key qty with
    | .ok p => p.book
    | .error _ => b

/-- The event that a call is, if it is one. -/
def event? (b : Book) : Command → Option Event
  | .quote .. => none
  | .sweep => none
  | .insert code side price qty =>
    (b.find? code).map fun i => .placed i (i.newOrder b.nextId side price qty)
  | .trade code key price qty => do
    let i ← b.find? code
    let o ← Orders.find? key i.orders
    let (_, f) ← i.fill o price qty
    return .filled code f
  | .cancel code key qty => do
    let i ← b.find? code
    let o ← Orders.find? key i.orders
    let (_, w) ← i.withdraw o qty
    return .canceled code o w.qty

/-- The book after some calls, in turn. -/
def calls (b : Book) (cs : List Command) : Book := cs.foldl call b

/-- The history of some calls. -/
def history (b : Book) : List Command → List Event
  | [] => []
  | c :: cs => (b.event? c).toList ++ (b.call c).history cs

section Calls

variable {P : Book → Event → Prop} {b : Book} {c : Command} {cs : List Command}

theorem quote_account {code : String} {avgPrice traded : Int} {raw : Ladder} {b' : Book}
    (hb : b.WellFormed) (h : b.quote code avgPrice traded raw = .ok b') : b'.account = b.account := by
  unfold quote at h
  split at h
  · cases h
  next i found =>
    cases h
    exact hb.account_set found rfl

/-- A fill that is called for is booked on its order, or changes nothing. -/
theorem call_trade (b : Book) (code : String) (key : Key) (price qty : Int) :
    let c := Command.trade code key price qty
    (b.event? c = none ∧ b.call c = b)
      ∨ ∃ e, b.event? c = some e ∧ Step b (some e) (b.call c) ∧ e.Concerns code key := by
  simp only [event?, call, trade]
  cases found : b.find? code with
  | none => exact .inl ⟨rfl, rfl⟩
  | some i =>
    cases resting : Orders.find? key i.orders with
    | none =>
      simp only [Option.bind_eq_bind, Option.bind_some, resting]
      exact .inl ⟨rfl, trivial⟩
    | some o =>
      cases filled : i.fill o price qty with
      | none =>
        simp only [Option.bind_eq_bind, Option.bind_some, resting, filled]
        exact .inl ⟨rfl, trivial⟩
      | some result =>
        obtain ⟨i', f⟩ := result
        simp only [Option.bind_eq_bind, Option.bind_some, resting, filled]
        obtain ⟨-, -, -, order, -⟩ := Instrument.fill_eq_some filled
        refine .inr ⟨_, rfl, .fill found resting filled, rfl, ?_⟩
        rw [order]
        exact Orders.key_of_find? resting

/-- The same of a cancel. -/
theorem call_cancel (b : Book) (code : String) (key : Key) (qty : Int) :
    let c := Command.cancel code key qty
    (b.event? c = none ∧ b.call c = b)
      ∨ ∃ e, b.event? c = some e ∧ Step b (some e) (b.call c) ∧ e.Concerns code key := by
  simp only [event?, call, cancel]
  cases found : b.find? code with
  | none => exact .inl ⟨rfl, rfl⟩
  | some i =>
    cases resting : Orders.find? key i.orders with
    | none =>
      simp only [Option.bind_eq_bind, Option.bind_some, resting]
      exact .inl ⟨rfl, trivial⟩
    | some o =>
      cases withdrawn : i.withdraw o qty with
      | none =>
        simp only [Option.bind_eq_bind, Option.bind_some, resting, withdrawn]
        exact .inl ⟨rfl, trivial⟩
      | some result =>
        obtain ⟨i', w⟩ := result
        simp only [Option.bind_eq_bind, Option.bind_some, resting, withdrawn]
        exact .inr ⟨_, rfl, .cancel found resting withdrawn, rfl, Orders.key_of_find? resting⟩

/-- Orders are placed by inserts alone. -/
theorem eq_insert_of_placed {i : Instrument} {o : Order} (h : Event.placed i o ∈ b.event? c) :
    ∃ code side price qty, c = .insert code side price qty
      ∧ o = i.newOrder b.nextId side price qty := by
  cases c with
  | insert code side price qty =>
    obtain ⟨j, -, eq⟩ := Option.map_eq_some_iff.mp h
    cases eq
    exact ⟨code, side, price, qty, rfl, rfl⟩
  | quote => cases h
  | sweep => cases h
  | trade =>
    simp only [event?, Option.bind_eq_bind, Option.mem_def, Option.bind_eq_some_iff] at h
    obtain ⟨_, _, _, _, _, _, eq⟩ := h
    cases eq
  | cancel =>
    simp only [event?, Option.bind_eq_bind, Option.mem_def, Option.bind_eq_some_iff] at h
    obtain ⟨_, _, _, _, _, _, eq⟩ := h
    cases eq

/-- A call is a run with the event that it is. -/
theorem call_run (hb : b.WellFormed) (meets : ∀ x ∈ b.event? c, P b x) :
    Run P b (b.event? c).toList (b.call c) := by
  cases c with
  | quote code avgPrice traded raw =>
    simp only [call]
    cases h : b.quote code avgPrice traded raw with
    | error => exact .refl b
    | ok b' => exact .silent (.observe (quote_account hb h))
  | sweep => exact .silent (.sweep b)
  | insert code side price qty =>
    simp only [event?] at meets ⊢
    simp only [call]
    cases found : b.find? code with
    | none =>
      simp only [insert, found]
      exact .refl b
    | some i =>
      rw [found] at meets
      cases h : b.insert code side price qty with
      | error => simp [insert, found] at h
      | ok p => exact .single (.place found h) (meets _ rfl)
  | trade code key price qty =>
    rcases b.call_trade code key price qty with ⟨nothing, same⟩ | ⟨e, booked, step, -⟩
    · rw [nothing, same]
      exact .refl b
    · rw [booked] at meets ⊢
      exact .single step (meets e rfl)
  | cancel code key qty =>
    rcases b.call_cancel code key qty with ⟨nothing, same⟩ | ⟨e, booked, step, -⟩
    · rw [nothing, same]
      exact .refl b
    · rw [booked] at meets ⊢
      exact .single step (meets e rfl)

theorem WellFormed.call (hb : b.WellFormed) (c : Command) : (b.call c).WellFormed := by
  have run : Run (fun _ _ => True) _ _ _ := call_run (c := c) hb fun _ _ => trivial
  exact run.wellFormed hb

/-- Calls whose events meet `P` wherever they happen are a run with their history. -/
theorem calls_run (hb : b.WellFormed) (meets : ∀ c ∈ cs, ∀ b, ∀ x ∈ b.event? c, P b x) :
    Run P b (b.history cs) (b.calls cs) := by
  induction cs generalizing b with
  | nil => exact .refl b
  | cons c cs ih =>
    have first : Run P b (b.event? c).toList (b.call c) :=
      call_run hb (meets c List.mem_cons_self b)
    exact first.trans (ih (first.wellFormed hb) fun d hd => meets d (List.mem_cons_of_mem c hd))

end Calls

end Book

end TradingDesk
