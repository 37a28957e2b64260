-- SUMMARY: To cancel all leaves nothing open, and an account of fills only.
import TradingDesk.Proofs.Cancels
import TradingDesk.Proofs.Origins

/-!
# Unwinding

To cancel all is to cancel all that is open of each order, instrument by instrument. The
cancels of an instrument close ranks in it as they go, but none of them touches what is open
of another order, nor another instrument.

Fills and cancels that were partial have rounded what they set free, but the last part of an
order sets free all that is left. So no cash stays behind where nothing is open, and the
account is what it was opened with and what fills have brought since.
-/

namespace TradingDesk

namespace Instrument

variable {i : Instrument} {kind : Kind} {plan : List (Order × Int)} {o : Order}

/-- The instrument after the cancels of all that is open. -/
def unwound (i : Instrument) : Instrument := i.afterCancels (i.liveOrders.map fun o => (o, o.qty))

theorem qty_closedBy_all (sorted : Orders.Sorted i.orders) (ho : o ∈ i.orders) :
    (closedBy kind (i.liveOrders.map fun o => (o, o.qty)) o).qty ≤ 0 := by
  have plan := plan_all sorted
  rcases lt_or_ge 0 o.qty with live | exhausted
  · have mem : (o, o.qty) ∈ i.liveOrders.map fun o => (o, o.qty) :=
      List.mem_map.mpr ⟨o, mem_liveOrders.mpr ⟨ho, live⟩, rfl⟩
    rw [qty_closedBy_of_mem plan.distinct mem rfl, sub_self]
  · rw [qty_closedBy_exhausted plan sorted ho exhausted]
    exact exhausted

theorem liveOrders_unwound (sorted : Orders.Sorted i.orders) : i.unwound.liveOrders = [] := by
  refine List.eq_nil_iff_forall_not_mem.mpr fun o live => ?_
  obtain ⟨mem, pos⟩ := mem_liveOrders.mp live
  obtain ⟨p, hp, rfl⟩ := List.mem_map.mp mem
  exact not_lt.mpr (qty_closedBy_all sorted hp) pos

end Instrument

/-! ## All cancels -/

namespace Simulation

variable {s s' s'' : Simulation} {ops ops' : List Operation} {is : List Instrument} {i : Instrument}
  {plan : List (Order × Int)} {r : Request} {text : String}

theorem Executes.append (first : Executes s ops s') (second : Executes s' ops' s'') :
    Executes s (ops ++ ops') s'' := by
  induction first with
  | nil => exact second
  | cons done _ ih => exact .cons done (ih second)

theorem Executes.wellFormed (h : Executes s ops s') (hb : s.book.WellFormed) :
    s'.book.WellFormed := by
  induction h with
  | nil => exact hb
  | @cons s s' op ops _ _ ih => exact ih (wellFormed_execute hb op)

/-- Some instruments are unwound, one after the other, and the rest is left alone. -/
structure Unwinds (s : Simulation) (is : List Instrument) (s' : Simulation) : Prop where
  executes : Executes s (is.flatMap fun i => i.cancels (i.liveOrders.map fun o => (o, o.qty))) s'
  stats : s'.book.stats = s.book.stats
  codes : s'.book.codes = s.book.codes
  unwound : ∀ i ∈ is, s'.book.find? i.code = some i.unwound
  others : ∀ code ∉ is.map Instrument.code, s'.book.find? code = s.book.find? code

theorem exists_unwinds (hb : s.book.WellFormed) (codes : (is.map Instrument.code).Nodup)
    (found : ∀ i ∈ is, s.book.find? i.code = some i) : ∃ s', s.Unwinds is s' := by
  induction is generalizing s with
  | nil => exact ⟨s, .nil s, rfl, rfl, List.forall_mem_nil _, fun _ _ => rfl⟩
  | cons i is ih =>
    obtain ⟨apart, codes⟩ := List.nodup_cons.mp codes
    obtain ⟨here, later⟩ := List.forall_mem_cons.mp found
    have sorted := hb.sorted i (Book.mem_of_find? here)
    have first : Executes s (i.cancels (i.liveOrders.map fun o => (o, o.qty)))
        (s.afterCancels i (i.liveOrders.map fun o => (o, o.qty))) :=
      executes_cancels hb here (Instrument.plan_all sorted)
    have others : ∀ code ≠ i.code, (s.book.set i.unwound).find? code = s.book.find? code :=
      fun _ ne => Book.find?_set_ne (i := i.unwound) ne
    have laterThen : ∀ j ∈ is, (s.book.set i.unwound).find? j.code = some j := by
      intro j hj
      rw [others j.code fun same => apart (same ▸ List.mem_map_of_mem hj)]
      exact later j hj
    obtain ⟨s', rest⟩ := ih (first.wellFormed hb) codes laterThen
    refine ⟨s', first.append rest.executes, rest.stats, rest.codes.trans Book.codes_set, ?_, ?_⟩
    · refine List.forall_mem_cons.mpr ⟨?_, rest.unwound⟩
      rw [rest.others i.code apart]
      exact Book.find?_set_self (i := i.unwound) here rfl
    · intro code elsewhere
      have ne : code ≠ i.code := List.ne_of_not_mem_cons elsewhere
      exact (rest.others code (List.not_mem_of_not_mem_cons elsewhere)).trans (others code ne)

/-- What is unwound as a whole has no live order. -/
theorem Unwinds.flat (h : s.Unwinds s.book.instruments s') (hb : s.book.WellFormed) :
    ∀ i ∈ s'.book.instruments, i.liveOrders = [] := by
  intro j hj
  have after : s'.book.find? j.code = some j :=
    (h.executes.wellFormed hb).find?_eq_some.mpr ⟨hj, rfl⟩
  have tracked : j.code ∈ s.book.codes := by
    rw [← h.codes]
    exact List.mem_map_of_mem hj
  obtain ⟨i, hi, same⟩ := List.mem_map.mp tracked
  rw [← same, h.unwound i hi] at after
  rw [← Option.some.inj after]
  exact Instrument.liveOrders_unwound (hb.sorted i hi)

/-! ### The message -/

theorem service_cancelAll (all : r.action = .cancelAll) : (s.service r).operations
    = s.book.instruments.flatMap fun i => i.cancels (i.liveOrders.map fun o => (o, o.qty)) := by
  simp only [service, Book.allot, all]
  rfl

/-- There is something to cancel where there is a live order. -/
theorem isExecuted_cancelAll (all : r.action = .cancelAll) :
    (s.service r).isExecuted = true ↔ ∃ i ∈ s.book.instruments, i.liveOrders ≠ [] := by
  simp [Service.isExecuted, service_cancelAll all, Instrument.cancels]

/-- A message that asks for nothing else is served, whatever is left of the budget. -/
theorem apply_cancelAll (sane : s.book.Sane) (calm : s.interrupted = false)
    (only : (Message.read text).requests = [r]) (all : r.action = .cancelAll) :
    (Broker.apply s text).result = .ok (if ∃ i ∈ s.book.instruments, i.liveOrders ≠ []
        then ⟨1, 1, 0, 0, false⟩ else ⟨1, 0, 1, 0, false⟩)
      ∧ (Broker.apply s text).state = s.serve r := by
  have free : ¬s.Exceeds r := fun exceeds => exceeds.1 all
  have applied := applyAll_cons ⟨1, 0, 0, 0, false⟩ r [] sane calm
  rw [if_neg free] at applied
  simp only [Broker.apply, only]
  refine ⟨congrArg Except.ok (applied.1.trans ?_), applied.2⟩
  change Summary.count _ _ = _
  simp only [Summary.count, isExecuted_cancelAll all]

theorem unwinds_serve (hb : s.book.WellFormed) (all : r.action = .cancelAll) :
    s.Unwinds s.book.instruments (s.serve r) := by
  obtain ⟨s', unwinds⟩ := exists_unwinds hb hb.nodup fun i hi => hb.find?_eq_some.mpr ⟨hi, rfl⟩
  have uncharged : s.charge (s.service r).cost = s := by
    have free : (s.service r).cost = 0 := if_pos all
    rw [free]
    rfl
  have served : s.serve r = s' := by
    rw [serve, uncharged, service_cancelAll all]
    exact (unwinds.executes.done r).2
  rw [served]
  exact unwinds

end Simulation

/-! ## The account -/

namespace Book

variable {balance : Int} {ts : List Tracked} {b : Book} {history : List Event} {i : Instrument}

/-- Cash is in the balance or in escrow. -/
theorem Run.cash (run : Run Placed (opening balance ts) history b) :
    b.balance + b.escrow = balance + b.stats.sold - b.stats.bought - b.stats.fees := by
  have kept := run.principal (wellFormed_opening balance ts) (settled_opening balance ts)
  obtain ⟨cash, stats⟩ := @opening_balance ts balance
  have held : (opening balance ts).escrow = 0 := escrow_opening
  simp only [Book.principal, Stats.cashFlow, cash, stats, held, Stats.blank] at kept
  omega

/-- Shares are idle or offered. -/
theorem Run.holdings (run : Run Placed (opening balance ts) history b) (hi : i ∈ b.instruments) :
    ∃ t, ts.find? (·.code == i.code) = some t
      ∧ i.idle + i.offered = max t.holdings 0 + filledQty .buy i.code history
        - filledQty .sell i.code history := by
  have opened := wellFormed_opening balance ts
  have tracked : i.code ∈ (opening balance ts).codes := by
    rw [← run.codes]
    exact List.mem_map_of_mem hi
  obtain ⟨j, hj, same⟩ := List.mem_map.mp tracked
  have before := opened.find?_eq_some.mpr ⟨hj, same⟩
  have after := (run.wellFormed opened).find?_eq_some.mpr ⟨hi, rfl⟩
  have kept : b.shares i.code = _ := run.shares opened (settled_opening balance ts)
  rw [shares_of_find? after, shares_of_find? before, Instrument.shares] at kept
  rw [find?_opening] at before
  obtain ⟨t, ht, rfl⟩ := Option.map_eq_some_iff.mp before
  have started : (Instrument.ofHoldings t.code t.kind t.holdings).shares = max t.holdings 0 := by
    simp [Instrument.shares, Instrument.offered, Instrument.ofHoldings]
  rw [started] at kept
  exact ⟨t, ht, kept⟩

/-- Where no order is live, none holds anything back. -/
theorem Settled.of_flat (hs : b.Settled) (flat : ∀ i ∈ b.instruments, i.liveOrders = []) :
    ∀ i ∈ b.instruments, ∀ o ∈ i.orders, o.qty = 0 ∧ o.escrow = 0 := by
  intro i hi o ho
  refine (hs i hi o ho).of_not_live fun live => ?_
  have mem : o ∈ i.liveOrders := List.mem_filter.mpr ⟨ho, live⟩
  rw [flat i hi] at mem
  cases mem

/-- Where nothing is open, all the cash is in the balance and all shares are idle. -/
theorem Run.account_of_flat (run : Run Placed (opening balance ts) history b)
    (flat : ∀ i ∈ b.instruments, i.liveOrders = []) :
    (∀ i ∈ b.instruments, ∀ o ∈ i.orders, o.qty = 0 ∧ o.escrow = 0)
      ∧ b.balance = balance + b.stats.sold - b.stats.bought - b.stats.fees
      ∧ ∀ i ∈ b.instruments, ∃ t, ts.find? (·.code == i.code) = some t
        ∧ i.idle = max t.holdings 0 + filledQty .buy i.code history
          - filledQty .sell i.code history := by
  have settled := run.settled (wellFormed_opening balance ts) (settled_opening balance ts)
  have nothing := settled.of_flat flat
  refine ⟨nothing, ?_, fun i hi => ?_⟩
  · have escrow : b.escrow = 0 := by
      refine List.sum_eq_zero (List.forall_mem_map.mpr fun i hi => ?_)
      exact List.sum_eq_zero (List.forall_mem_map.mpr fun o ho => (nothing i hi o ho).2)
    rw [← run.cash, escrow, add_zero]
  · have offered : i.offered = 0 := by
      refine List.sum_eq_zero (List.forall_mem_map.mpr fun o ho => ?_)
      rw [Order.offered, (nothing i hi o ho).1]
      cases o.side <;> rfl
    obtain ⟨t, ht, holdings⟩ := run.holdings hi
    rw [offered, add_zero] at holdings
    exact ⟨t, ht, holdings⟩

end Book

namespace Session

variable {broker : Simulation} {clock : SessionClock} {inputs : List Input} {balance : Int}
  {ts : List Tracked} {text : String} {r : Request}

/-- The history of a session leads from its opening book to where it is. -/
theorem run_placed (opened : broker.book = Book.opening balance ts) :
    Book.Run Book.Placed (Book.opening balance ts) ((start broker clock).history inputs)
      ((start broker clock).run inputs).broker.book := by
  have sane := @sane_start broker clock balance ts opened
  have moves := @moves_run (start broker clock) inputs sane
  rw [← opened]
  exact (moves.run sane.wellFormed).mono fun _ _ => Book.placed_of_sound

/-- In whatever state a session waits for a message, one that only asks to cancel all leaves no
order open, if nobody from outside has raised the flag that calls off what is asked for
(`interrupted_run`). Nothing is held back then: the balance and the idle holdings are what the
account was opened with and what its fills have brought. No instrument is lost. -/
theorem run_unwinds (opened : broker.book = Book.opening balance ts)
    (calm : ((start broker clock).run inputs).broker.interrupted = false)
    (due : ((start broker clock).run inputs).phase = .sent)
    (only : (Message.read text).requests = [r]) (all : r.action = .cancelAll) :
    let s := (start broker clock).run inputs
    let o := s.applyMsgIn text
    let b := o.state.broker.book
    let history := (start broker clock).history (inputs ++ [Input.applyMsgIn text])
    o.result = .ok (if ∃ i ∈ s.broker.book.instruments, i.liveOrders ≠ []
        then ⟨1, 1, 0, 0, false⟩ else ⟨1, 0, 1, 0, false⟩)
      ∧ (∀ i ∈ b.instruments, i.liveOrders = [] ∧ ∀ o ∈ i.orders, o.qty = 0 ∧ o.escrow = 0)
      ∧ b.balance = balance + b.stats.sold - b.stats.bought - b.stats.fees
      ∧ (∀ i ∈ b.instruments, ∃ t, ts.find? (·.code == i.code) = some t
        ∧ i.idle = max t.holdings 0 + filledQty .buy i.code history
          - filledQty .sell i.code history)
      ∧ b.stats = s.broker.book.stats ∧ b.codes = s.broker.book.codes := by
  intro s o b history
  have sane : s.broker.book.Sane := sane_run (sane_start opened)
  obtain ⟨result, state⟩ := Simulation.apply_cancelAll sane calm only all
  obtain ⟨answer, applied⟩ := s.applyMsgIn_inTurn due
  have unwinds := Simulation.unwinds_serve sane.wellFormed all
  have after : b = (s.broker.serve r).book := congrArg Simulation.book (applied.trans state)
  have flat : ∀ i ∈ b.instruments, i.liveOrders = [] := after ▸ unwinds.flat sane.wellFormed
  have run : Book.Run Book.Placed (Book.opening balance ts) history b := by
    have last : ((start broker clock).run (inputs ++ [Input.applyMsgIn text])).broker.book = b :=
      congrArg (fun s : Session Simulation => s.broker.book) List.foldl_append
    rw [← last]
    exact run_placed opened
  obtain ⟨nothing, cash, shares⟩ := run.account_of_flat flat
  exact ⟨answer.trans result, fun i hi => ⟨flat i hi, nothing i hi⟩, cash, shares,
    (congrArg Book.stats after).trans unwinds.stats,
    (congrArg Book.codes after).trans unwinds.codes⟩

/-- A buy that was filled and canceled in part and a later sell, with a budget for one operation
in a tick. -/
theorem run_unwinds_partly :
    let broker := Simulation.start (Book.opening 1000000 [⟨"A", .equity, 7⟩])
      ("32400 A 0 0 0 0 0 0 0 0 0 0 0 10050 9990 0 0 0 0 0 0 0 0 0 0 0 0 0 0 0 0 0 0 50 20"
        ++ " 0 0 0 0 0 0 0 0 0\n").toUTF8.toList
      "32410 A 10000 5\n".toUTF8.toList 1
    let clock : SessionClock := ⟨32400, 33000, 10⟩
    let inputs : List Input := [.advance, .buildMsgOut, .applyMsgIn "b A 10000 8", .advance,
      .buildMsgOut, .applyMsgIn "cb A 10000 1", .advance, .buildMsgOut, .applyMsgIn "s A 10050 3",
      .advance, .buildMsgOut]
    let text := "all\nca"
    let s := (start broker clock).run inputs
    let o := s.applyMsgIn text
    let b := o.state.broker.book
    s.broker.interrupted = false ∧ s.phase = .sent
      ∧ (Message.read text).requests = [Request.cancelAll]
      ∧ s.broker.book.instruments.map
        (fun i => (i.idle, i.liveOrders.map fun o => (o.qty, o.escrow)))
        = [(9, [(2, 20002), (3, 0)])]
      ∧ o.result = .ok ⟨1, 1, 0, 0, false⟩
      ∧ (∀ i ∈ b.instruments, i.liveOrders = [])
      ∧ b.balance = 1000000 + b.stats.sold - b.stats.bought - b.stats.fees
      ∧ b.instruments.map Instrument.idle = [12] := by
  intro broker clock inputs text
  have before : ((start broker clock).run inputs).broker.interrupted = false
      ∧ ((start broker clock).run inputs).phase = .sent
      ∧ ((start broker clock).run inputs).broker.book.instruments.map
        (fun i => (i.idle, i.liveOrders.map fun o => (o.qty, o.escrow)))
        = [(9, [(2, 20002), (3, 0)])] := by decide +kernel
  have after : (((start broker clock).run inputs).applyMsgIn text).result = .ok ⟨1, 1, 0, 0, false⟩
      ∧ (((start broker clock).run inputs).applyMsgIn text).state.broker.book.instruments.map
        Instrument.idle = [12] := by decide +kernel
  have only : (Message.read text).requests = [Request.cancelAll] := by decide +kernel
  obtain ⟨calm, due, resting⟩ := before
  have unwound := @run_unwinds broker clock inputs 1000000 [⟨"A", .equity, 7⟩] text
    Request.cancelAll rfl calm due only rfl
  refine ⟨calm, due, only, resting, after.1, ?_, ?_, after.2⟩
  · exact fun i hi => (unwound.2.1 i hi).1
  · exact unwound.2.2.1

end Session

end TradingDesk
