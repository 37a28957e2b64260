-- SUMMARY: A live broker offers no more than it holds, but for the sells that it is taking back.
import TradingDesk.Proofs.Relays

/-!
# Commitments

A sell takes what it offers out of the idle holdings. A modified sell is placed on the
strength of what its cancels give back, but a live broker places it at once and books the
cancels when the brokerage confirms them. Until then the idle holdings may be below zero,
by no more than the cancels that are outstanding. No other request over-commits holdings,
however messages, ticks and reports interleave.
-/

namespace TradingDesk

namespace Live

/-! ## Recalls -/

/-- Some recalls once a quantity of an order was canceled. -/
def confirm (key : Key) : Int → List (Key × Int) → List (Key × Int)
  | _, [] => []
  | qty, (k, n) :: recalls =>
    if k = key then (k, n - min n qty) :: confirm key (qty - min n qty) recalls
    else (k, n) :: confirm key qty recalls

/-- The recalls of sells of a code after one more dealing. A modified sell recalls what it
replaces, and a cancel that was booked confirms it. -/
def Entry.recalls (code : String) (recalls : List (Key × Int)) : Entry → List (Key × Int)
  | .placed r _ i _ =>
    if i.code = code then recalls ++ (i.recalled r).map fun p => (p.1.key, p.2) else recalls
  | .booked _ (.canceled c o qty) =>
    if c = code ∧ o.side = .sell then confirm o.key qty recalls else recalls
  | _ => recalls

/-- The recalls of sells of a code that no cancel has confirmed. -/
def recalls (code : String) (history : List Entry) : List (Key × Int) :=
  history.foldl (Entry.recalls code) []

/-- The quantity of some recalls. -/
def due (recalls : List (Key × Int)) : Int := (recalls.map Prod.snd).sum

/-- The quantity that is being recalled of the sells of a code. -/
def outstanding (code : String) (history : List Entry) : Int := due (recalls code history)

section Recalls

variable {key : Key} {qty : Int} {rs : List (Key × Int)} {i : Instrument} {r : Request}

theorem due_nonneg (pos : ∀ p ∈ rs, 0 ≤ p.2) : 0 ≤ due rs := by
  apply List.sum_nonneg
  simpa only [List.forall_mem_map] using pos

theorem due_append {rs' : List (Key × Int)} : due (rs ++ rs') = due rs + due rs' := by
  simp only [due, List.map_append, List.sum_append]

theorem confirm_nonneg (pos : ∀ p ∈ rs, 0 ≤ p.2) (hqty : 0 ≤ qty) :
    ∀ p ∈ confirm key qty rs, 0 ≤ p.2 := by
  induction rs generalizing qty with
  | nil => exact pos
  | cons r rs ih =>
    obtain ⟨first, rest⟩ := List.forall_mem_cons.mp pos
    simp only [confirm]
    split
    · refine List.forall_mem_cons.mpr ⟨?_, ih rest ?_⟩
      · exact sub_nonneg.mpr (min_le_left _ _)
      · exact sub_nonneg.mpr (min_le_right _ _)
    · exact List.forall_mem_cons.mpr ⟨first, ih rest hqty⟩

/-- A cancel confirms no more than its quantity. -/
theorem due_confirm (pos : ∀ p ∈ rs, 0 ≤ p.2) (hqty : 0 ≤ qty) :
    due rs ≤ due (confirm key qty rs) + qty := by
  induction rs generalizing qty with
  | nil => simpa [confirm, due] using hqty
  | cons r rs ih =>
    obtain ⟨first, rest⟩ := List.forall_mem_cons.mp pos
    simp only [due, List.map_cons, List.sum_cons] at ih ⊢
    simp only [confirm]
    split
    · have later := @ih (qty - min r.2 qty) rest (sub_nonneg.mpr (min_le_right _ _))
      simp only [List.map_cons, List.sum_cons]
      omega
    · have later := ih rest hqty
      simp only [List.map_cons, List.sum_cons]
      omega

/-- What a modified sell takes back is what it is backed by. -/
theorem due_recalled :
    due ((i.recalled r).map fun p => (p.1.key, p.2)) = ((i.recalled r).map Prod.snd).sum := by
  simp only [due, List.map_map, Function.comp_def]

theorem recalled_nonneg (sorted : Orders.Sorted i.orders) :
    ∀ p ∈ (i.recalled r).map fun p => (p.1.key, p.2), 0 ≤ p.2 := by
  simp only [List.forall_mem_map, Instrument.recalled]
  split
  · exact fun p hp => ((Instrument.plan_cancelPlan sorted .sell r.price r.qty).parts p hp).1.le
  · simp

end Recalls

/-! ## Holdings below zero -/

/-- No recall is negative, and the idle holdings of an instrument are below zero by no more
than its recalls. -/
structure Backed (b : Book) (rs : String → List (Key × Int)) : Prop where
  pos : ∀ code, ∀ p ∈ rs code, 0 ≤ p.2
  idle : ∀ i ∈ b.instruments, 0 ≤ i.idle + due (rs i.code)

section Backed

variable {b b' : Book} {rs : String → List (Key × Int)} {i i' : Instrument} {code : String}
  {o : Order}

theorem Backed.of_account (backed : Backed b rs) (same : b'.account = b.account) : Backed b' rs where
  pos := backed.pos
  idle := by
    intro i hi
    obtain ⟨j, hj, eq⟩ := Book.exists_mem_of_account same hi
    rw [Instrument.idle_of_account eq, Instrument.code_of_account eq]
    exact backed.idle j hj

theorem Backed.sweep (backed : Backed b rs) : Backed b.sweep rs where
  pos := backed.pos
  idle := by
    simp only [Book.sweep, List.forall_mem_map]
    exact backed.idle

/-- One instrument is replaced, and the recalls of its code may change. -/
theorem Backed.set {rs' : String → List (Key × Int)} (backed : Backed b rs)
    (found : b.find? i.code = some i) (hcode : i'.code = i.code)
    (others : ∀ c, c ≠ i.code → rs' c = rs c) (pos : ∀ p ∈ rs' i.code, 0 ≤ p.2)
    (idle : 0 ≤ i.idle + due (rs i.code) → 0 ≤ i'.idle + due (rs' i.code)) :
    Backed (b.set i') rs' where
  pos := by
    intro c
    by_cases here : c = i.code
    · exact here ▸ pos
    · exact others c here ▸ backed.pos c
  idle := by
    intro j hj
    obtain ⟨k, hk, rfl⟩ := List.mem_map.mp hj
    split
    · rw [hcode]
      exact idle (backed.idle i (Book.mem_of_find? found))
    next other =>
      rw [others k.code fun same => other (by simpa [hcode] using same)]
      exact backed.idle k hk

/-- A sell is backed by what it takes back or by the idle holdings. -/
theorem Backed.place {r : Request} {side : Side} {price qty : Int} {p : Posted Key}
    (backed : Backed b rs) (hb : b.WellFormed) (number : Nat) (found : b.find? code = some i)
    (backs : side = .sell → i.Backs r qty) (ok : b.insert code side price qty = .ok p) :
    Backed p.book fun c =>
      (Entry.placed r number i (i.newOrder b.nextId side price qty)).recalls c (rs c) := by
  have mem := Book.mem_of_find? found
  have recalled := recalled_nonneg (r := r) (hb.sorted i mem)
  rw [Book.insert_eq_ok found ok]
  rw [← Book.code_of_find? found] at found
  have placed : Backed (b.set (i.place b.nextId side price qty)) fun c =>
      (Entry.placed r number i (i.newOrder b.nextId side price qty)).recalls c (rs c) := by
    refine backed.set found rfl (fun c ne => ?_) ?_ fun idle => ?_
    · simp only [Entry.recalls, if_neg (Ne.symm ne)]
    · simp only [Entry.recalls, if_true]
      exact List.forall_mem_append.mpr ⟨backed.pos i.code, recalled⟩
    · have before := due_nonneg (backed.pos i.code)
      have more := due_nonneg recalled
      simp only [Entry.recalls, if_true, due_append]
      cases side with
      | buy =>
        simp only [Instrument.place]
        omega
      | sell =>
        have backs := backs rfl
        simp only [Instrument.place]
        rw [due_recalled] at more ⊢
        unfold Instrument.Backs at backs
        split at backs <;> omega
  exact ⟨placed.pos, placed.idle⟩

/-- A fill gives holdings or takes none that are idle. -/
theorem Backed.fill {price qty : Int} {f : Fill} (backed : Backed b rs)
    (found : b.find? code = some i) (filled : i.fill o price qty = some (i', f)) :
    Backed ((b.set i').post code f).book rs := by
  obtain ⟨pos, -, -, -, -, -, -, after⟩ := Instrument.fill_eq_some filled
  rw [← Book.code_of_find? found] at found
  have kept : Backed (b.set i') rs := by
    refine backed.set found (Instrument.code_of_fill filled) (fun _ _ => rfl) (backed.pos _) ?_
    intro idle
    rw [after]
    cases o.side <;> simp only <;> omega
  exact ⟨kept.pos, kept.idle⟩

/-- A cancel of a sell gives back at least what it confirms. -/
theorem Backed.cancel {qty : Int} {w : Withdrawal} (backed : Backed b rs) (number : Nat)
    (found : b.find? code = some i) (withdrawn : i.withdraw o qty = some (i', w)) :
    Backed { b.set i' with balance := b.balance + w.release } fun c =>
      (Entry.booked number (.canceled code o w.qty)).recalls c (rs c) := by
  obtain ⟨pos, -, -, after⟩ := Instrument.withdraw_eq_some withdrawn
  obtain rfl := Book.code_of_find? found
  have kept : Backed (b.set i') fun c =>
      (Entry.booked number (.canceled i.code o w.qty)).recalls c (rs c) := by
    refine backed.set found (Instrument.code_of_withdraw withdrawn) (fun c ne => ?_) ?_ fun idle => ?_
    · simp only [Entry.recalls, if_neg fun h : i.code = c ∧ o.side = .sell => ne h.1.symm]
    · simp only [Entry.recalls]
      split
      · exact confirm_nonneg (backed.pos i.code) pos.le
      · exact backed.pos i.code
    · rw [after]
      cases side : o.side with
      | buy => simpa [Entry.recalls, side] using idle
      | sell =>
        have confirmed : _ ≤ due (confirm o.key w.qty (rs i.code)) + _ :=
          due_confirm (backed.pos i.code) pos.le
        simp only [Entry.recalls, side, and_self, if_true]
        omega
  exact ⟨kept.pos, kept.idle⟩

variable {β : Type} {l l' : Live β} {h : List Entry} {e : Option Entry}

theorem Move.backed (move : Move l e l') (hb : l.book.WellFormed) (backed : Backed l.book rs) :
    Backed l'.book fun code => e.toList.foldl (Entry.recalls code) (rs code) := by
  cases move with
  | rest account => exact backed.of_account account
  | turn => exact ⟨backed.sweep.pos, backed.sweep.idle⟩
  | @placed _ number _ _ _ _ _ _ found _ _ backs ok => exact backed.place hb number found backs ok
  | asked => exact backed
  | unnumbered => exact backed
  | @booked number _ _ _ _ _ step concerns =>
    cases step with
    | place => exact concerns.elim
    | fill found _ filled => exact backed.fill found filled
    | cancel found _ withdrawn => exact backed.cancel number found withdrawn

theorem Moves.backed (moves : Moves l h l') (fresh : l.Fresh) :
    Backed l'.book fun code => recalls code h := by
  induction moves with
  | refl =>
    obtain ⟨balance, ts, opened⟩ := fresh.book
    rw [opened]
    refine ⟨fun _ => by simp [recalls], fun i hi => ?_⟩
    simpa [recalls, due] using (Book.mem_opening hi).2
  | snoc moves move ih =>
    simp only [recalls, List.foldl_append]
    exact move.backed (moves.wellFormed fresh.wellFormed) ih

/-- Whether a dealing placed a modified sell of a code. -/
def Entry.Recalls (code : String) : Entry → Prop
  | .placed r _ i _ => i.code = code ∧ r.action = .modify .sell
  | _ => False

/-- Nothing is recalled but for modified sells. -/
theorem recalls_eq_nil (none : ∀ e ∈ h, ¬e.Recalls code) : recalls code h = [] := by
  induction h using List.reverseRecOn with
  | nil => rfl
  | append_singleton h e ih =>
    have before := ih fun x hx => none x (List.mem_append_left [e] hx)
    have last := none e (by simp)
    rw [recalls] at before
    simp only [recalls, List.foldl_append, before, List.foldl_cons, List.foldl_nil]
    cases e with
    | placed r _ i _ =>
      simp only [Entry.recalls]
      split
      next here =>
        have plain : r.action ≠ .modify .sell := fun modifies => last ⟨here, modifies⟩
        simp [Instrument.recalled, plain]
      next => rfl
    | asked => rfl
    | unnumbered => rfl
    | booked _ event =>
      cases event with
      | placed => rfl
      | filled => rfl
      | canceled => simp [Entry.recalls, confirm]

end Backed

/-! ## Runs -/

/-- From the connection on, the idle holdings of an instrument are below zero by no more
than the sells of it that are being taken back for modified ones, and not at all when no
sell of it has been modified. -/
theorem run_backed {β : Type} [Brokerage β] {brokerage : β} {gate : Gate} {ts : List Tracked}
    {limit : Nat} {l : Live β} (connected : (connect brokerage gate ts limit).result = .ok l)
    (inputs : List (Input β)) :
    ∀ i ∈ (l.run inputs).book.instruments,
      -outstanding i.code (l.history inputs) ≤ i.idle
        ∧ ((∀ e ∈ l.history inputs, ¬e.Recalls i.code) → 0 ≤ i.idle) := by
  intro i hi
  have fresh := fresh_connect connected
  have backed := (moves_run fresh.wellFormed inputs).backed fresh
  have idle := backed.idle i hi
  refine ⟨by rw [outstanding]; omega, fun none => ?_⟩
  simpa only [recalls_eq_nil none, due, List.map_nil, List.sum_nil, add_zero] using idle

/-- Seven shares are offered, and the offer is modified. -/
def repriced : List (Input ScriptedBrokerage) :=
  [.advance ⟨1, 32410, 50000⟩, .apply "s X 10000 7", .advance ⟨2, 32420, 50000⟩,
    .apply "ms X 10000 0 10050"]

/-- The modified sell is in the book before the cancel that backs it. -/
theorem run_backed_repriced :
    ∃ l, (connect (scripted 1000000 [("X", 7)]) (Gate.ofQuota 10 0) [⟨"X", .equity, 0⟩]
        8).result = .ok l
      ∧ (l.run repriced).book.instruments.map (fun i => (i.code, i.idle)) = [("X", -7)]
      ∧ outstanding "X" (l.history repriced) = 7
      ∧ ∀ i ∈ (l.run repriced).book.instruments,
          -outstanding i.code (l.history repriced) ≤ i.idle := by
  refine ⟨_, rfl, by decide +kernel, by decide +kernel, ?_⟩
  have connected : (connect (scripted 1000000 [("X", 7)]) (Gate.ofQuota 10 0) [⟨"X", .equity, 0⟩]
      8).result = .ok _ := rfl
  exact fun i hi => (run_backed connected repriced i hi).1

/-- When the first offer is filled before its cancel arrives, nothing is held any more, and
the second offer still rests. -/
theorem run_overcommitted :
    ∃ l, (connect (scripted 1000000 [("X", 7)]) (Gate.ofQuota 10 0) [⟨"X", .equity, 0⟩]
        8).result = .ok l
      ∧ let filled := repriced ++ [.send (.fill 101 ⟨10000, 7⟩), .advance ⟨3, 32430, 50000⟩]
        (l.run repriced).book.instruments.map (·.idle) = [-7]
        ∧ (l.run filled).book.instruments.map (·.idle) = [-7]
        ∧ (l.run filled).book.instruments.map (fun i => i.liveOrders.map fun o => (o.side, o.qty))
            = [[(.sell, 7)]] :=
  ⟨_, rfl, by decide +kernel, by decide +kernel, by decide +kernel⟩

end Live

end TradingDesk
