-- SUMMARY: What becomes of the requests of a message, and what the budget of a tick bounds.
import TradingDesk.Proofs.Sessions

/-!
# Services

A simulation serves the requests of a message in turn, each against the book that the ones
before it left. Whatever a request resolves to can be carried out, so only the budget stops a
message: at the first request that needs more operations than are left in the tick. That one
and all behind it are throttled.
-/

namespace TradingDesk

theorem Message.requests_ofLines {lines : List (List Char)} :
    (ofLines lines).requests = lines.filterMap fun line => (Request.read line).toOption := by
  induction lines with
  | nil => rfl
  | cons line rest ih =>
    rw [ofLines, List.filterMap_cons]
    cases Request.read line with
    | error e => exact ih
    | ok r => exact congrArg (r :: ·) ih

namespace Instrument

variable {i : Instrument} {side : Side} {balance price qty newPrice : Int}

theorem exempt_allotPlace : (i.allotPlace balance side price qty).allotment.exempt = false := by
  simp only [allotPlace, placeUpTo]
  repeat' split
  all_goals rfl

theorem exempt_allotCancel : (i.allotCancel side price qty).allotment.exempt = false := by
  unfold allotCancel
  split <;> rfl

theorem exempt_allotModify :
    (i.allotModify balance side price qty newPrice).allotment.exempt = false := by
  simp only [allotModify, replaceUpTo]
  repeat' split
  all_goals rfl

end Instrument

/-- To cancel all is free of the budget, and no other request is. -/
theorem Book.exempt_allot {b : Book} {r : Request} :
    (b.allot r).allotment.exempt = decide (r.action = .cancelAll) := by
  simp only [allot]
  cases r.action with
  | cancelAll => rfl
  | sellAll => rfl
  | place side =>
    cases b.find? r.code with
    | none => rfl
    | some i => exact Instrument.exempt_allotPlace
  | cancel side =>
    cases b.find? r.code with
    | none => rfl
    | some i => exact Instrument.exempt_allotCancel
  | modify side =>
    cases b.find? r.code with
    | none => rfl
    | some i => exact Instrument.exempt_allotModify

/-! ## Services -/

/-- A request, and what it resolved to when its turn came. -/
structure Service where
  request : Request
  operations : List Operation
  deriving DecidableEq, Repr

namespace Service

/-- Whether there was something to carry out. -/
def isExecuted (v : Service) : Bool := !v.operations.isEmpty

def isDropped (v : Service) : Bool := v.operations.isEmpty

/-- How many operations count against the budget. -/
def cost (v : Service) : Nat :=
  if v.request.action = .cancelAll then 0 else v.operations.length

end Service

namespace Summary

variable {m : Summary} {v : Service} {vs : List Service}

/-- The summary with one more service. -/
def count (m : Summary) (v : Service) : Summary :=
  if v.isExecuted then { m with executed := m.executed + 1 } else { m with dropped := m.dropped + 1 }

theorem throttled_count : (m.count v).throttled = m.throttled := by
  rw [count]
  split <;> rfl

theorem foldl_count : vs.foldl count m = { m with
    executed := m.executed + vs.countP Service.isExecuted
    dropped := m.dropped + vs.countP Service.isDropped } := by
  induction vs generalizing m with
  | nil => rfl
  | cons v vs ih =>
    rw [List.foldl_cons, ih, List.countP_cons, List.countP_cons, count, Service.isExecuted,
      Service.isDropped]
    cases v.operations.isEmpty <;> simp <;> omega

end Summary

namespace Simulation

def service (s : Simulation) (r : Request) : Service := ⟨r, (s.book.allot r).allotment.operations⟩

def charge (s : Simulation) (n : Nat) : Simulation :=
  { s with budget := { s.budget with used := s.budget.used + n } }

/-- Whether a request needs more operations than remain. -/
def Exceeds (s : Simulation) (r : Request) : Prop :=
  r.action ≠ .cancelAll ∧ s.budget.limit - s.budget.used < (s.service r).operations.length

instance (s : Simulation) (r : Request) : Decidable (s.Exceeds r) := inferInstanceAs (Decidable (_ ∧ _))

/-- Operations that are carried out in turn, each with success. -/
inductive Executes : Simulation → List Operation → Simulation → Prop
  | nil (s : Simulation) : Executes s [] s
  | cons {s s' : Simulation} {op : Operation} {ops : List Operation}
    (done : (s.execute op).result = .ok ()) (rest : Executes (s.execute op).state ops s') :
    Executes s (op :: ops) s'

/-- Whether operations that led from `s` to `s'` were applied: each fits the book that it meets,
and the account is then that of the book after all of them. -/
def Applies (s : Simulation) (ops : List Operation) (s' : Simulation) : Prop :=
  ∃ b, Book.Carried s.book ops b ∧ s'.book.account = b.account

/-- Services in turn, each of which fits the budget, is charged to it and carries out all that
its request resolves to. -/
inductive Serves : Simulation → List Service → Simulation → Prop
  | nil (s : Simulation) : Serves s [] s
  | cons {s s' s'' : Simulation} {v : Service} {vs : List Service}
    (resolved : v = s.service v.request) (admitted : ¬s.Exceeds v.request)
      (carried : Executes (s.charge v.cost) v.operations s') (applied : Applies s v.operations s')
      (rest : Serves s' vs s'') :
    Serves s (v :: vs) s''

/-- The simulation after the service of a request. -/
def serve (s : Simulation) (r : Request) : Simulation :=
  (Broker.executeAll r (s.charge (s.service r).cost) (s.service r).operations).2.1

/-- The services of a message's requests, up to the first one that the budget stops. -/
def services (s : Simulation) : List Request → List Service
  | [] => []
  | r :: rs => if s.Exceeds r then [] else s.service r :: (s.serve r).services rs

variable {s s' : Simulation} {r : Request} {rs : List Request} {ops : List Operation}
  {vs : List Service} {throttled : List Request} {m : Summary}

theorem exceeds_iff : s.Exceeds r ↔ s.budget.limit - s.budget.used < (s.service r).cost := by
  have request : (s.service r).request = r := rfl
  rw [Exceeds, Service.cost, request]
  split <;> simp_all

/-! ### What services keep -/

theorem Executes.state (h : Executes s ops s') : s' = { s with book := s'.book } := by
  induction h with
  | nil => rfl
  | cons _ _ ih =>
    rw [ih, execute_state]

theorem Serves.interrupted (h : Serves s vs s') : s'.interrupted = s.interrupted := by
  induction h with
  | nil => rfl
  | cons _ _ carried _ _ ih =>
    rw [ih, carried.state]
    rfl

/-- What services cost is taken out of the budget, which nothing overdraws. -/
theorem Serves.budget (h : Serves s vs s') :
    s'.budget = ⟨s.budget.limit, s.budget.used + (vs.map Service.cost).sum⟩
      ∧ s.budget.used + (vs.map Service.cost).sum ≤ max s.budget.used s.budget.limit := by
  induction h with
  | nil => exact ⟨rfl, le_max_left _ _⟩
  | @cons s s' s'' v vs resolved admitted carried _ rest ih =>
    have charged : s'.budget = ⟨s.budget.limit, s.budget.used + v.cost⟩ := by rw [carried.state]; rfl
    rw [exceeds_iff, ← resolved] at admitted
    rw [charged] at ih
    simp only [List.map_cons, List.sum_cons]
    refine ⟨?_, ?_⟩
    · rw [ih.1, Nat.add_assoc]
    · have := ih.2
      simp only at this
      omega

/-! ### How a message is applied -/

theorem executes_of_done (done : (Broker.executeAll r s ops).1 = .done) :
    Executes s ops (Broker.executeAll r s ops).2.1 := by
  induction ops generalizing s with
  | nil => exact .nil s
  | cons op ops ih =>
    cases result : (Broker.execute s op).result with
    | ok _ =>
      simp only [Broker.executeAll, result] at done ⊢
      exact .cons result (ih done)
    | error e =>
      simp only [Broker.executeAll, result] at done
      split at done <;> cases done

/-- Whatever a request resolves to can be carried out. -/
theorem serve_executes (sane : s.book.Sane) :
    (Broker.executeAll r (s.charge (s.service r).cost) (s.service r).operations).1 = .done
      ∧ Executes (s.charge (s.service r).cost) (s.service r).operations (s.serve r)
      ∧ Applies s (s.service r).operations (s.serve r)
      ∧ (s.serve r).book.Sane := by
  obtain ⟨b, carried⟩ := Book.carried_allot (r := r) sane.wellFormed sane.idle
  obtain ⟨done, moves, account⟩ := moves_executeAll (s := s.charge (s.service r).cost) (r := r)
    sane rfl (Book.clear_allot sane) carried
  exact ⟨done, executes_of_done done, ⟨b, carried, account⟩, moves.sane sane⟩

/-- A request that resolves to operations is admitted where it fits the budget. -/
theorem admission (some : (s.service r).operations ≠ []) :
    ∃ e, (if (s.book.allot r).allotment.exempt then .ok () s
        else s.reserve (s.service r).operations.length)
      = if s.Exceeds r then .fail e s else .ok () (s.charge (s.service r).cost) := by
  have request : (s.service r).request = r := rfl
  have pos := List.length_pos_of_ne_nil some
  rw [Book.exempt_allot]
  by_cases free : r.action = .cancelAll
  · refine ⟨.afterEnd .advance, ?_⟩
    have fits : ¬s.Exceeds r := fun exceeds => exceeds.1 free
    rw [if_pos (decide_eq_true free), if_neg fits, Service.cost, request, if_pos free]
    rfl
  · refine ⟨.budgetExhausted (s.service r).operations.length (s.budget.limit - s.budget.used)
      s.budget.limit, ?_⟩
    have cost : (s.service r).cost = (s.service r).operations.length := by
      rw [Service.cost, request, if_neg free]
    simp only [decide_eq_true_eq, if_neg free, exceeds_iff, cost, reserve, Budget.reserve]
    by_cases fits : s.budget.used + (s.service r).operations.length ≤ s.budget.limit
    · rw [if_pos fits, if_neg (by omega)]
      rfl
    · rw [if_neg fits, if_pos (by omega)]

/-- The next request of a message throttles the rest of it or is served. -/
theorem applyAll_cons (m : Summary) (r : Request) (rs : List Request) (sane : s.book.Sane)
    (calm : s.interrupted = false) :
    if s.Exceeds r then
      (Broker.applyAll m s (r :: rs)).summary = { m with throttled := (r :: rs).length }
        ∧ (Broker.applyAll m s (r :: rs)).broker = s
    else
      (Broker.applyAll m s (r :: rs)).summary
          = (Broker.applyAll (m.count (s.service r)) (s.serve r) rs).summary
        ∧ (Broker.applyAll m s (r :: rs)).broker
          = (Broker.applyAll (m.count (s.service r)) (s.serve r) rs).broker := by
  have here : (s.book.allot r).allotment.operations = (s.service r).operations := rfl
  have book : Broker.book s = s.book := rfl
  have cleared : { s with interrupted := false } = s := by rw [← calm]
  obtain ⟨done, -⟩ := serve_executes (r := r) sane
  by_cases none : (s.service r).operations = []
  · have fits : ¬s.Exceeds r := by
      rw [Exceeds, none]
      exact fun exceeds => absurd exceeds.2 (Nat.not_lt_zero _)
    have served : s.serve r = s := by
      have free : (s.service r).cost = 0 := by
        rw [Service.cost, none]
        split <;> rfl
      rw [serve, free, none]
      rfl
    rw [if_neg fits, served, Summary.count, Service.isExecuted, none]
    simp only [Broker.applyAll, book, here, none]
    exact ⟨rfl, rfl⟩
  · obtain ⟨e, admitted⟩ := admission none
    have nonempty : (s.service r).operations.isEmpty = false :=
      Bool.eq_false_iff.mpr (mt List.isEmpty_iff.mp none)
    rw [Summary.count, Service.isExecuted, nonempty]
    simp only [Broker.applyAll, book, here, nonempty, Broker.takeInterrupt, calm, cleared,
      Broker.reserve, admitted, Bool.false_eq_true, if_false]
    by_cases exceeds : s.Exceeds r
    · simp only [if_pos exceeds]
      exact ⟨rfl, rfl⟩
    · simp only [if_neg exceeds, Outcome.ok, done]
      exact ⟨rfl, rfl⟩

/-- How the requests of a message came out that led from `s` to `s'`: the first ones were served,
and where that was not all of them, the next one exceeded the budget. -/
structure Accounts (s : Simulation) (requests : List Request) (served : List Service)
    (throttled : List Request) (s' : Simulation) : Prop where
  requests : served.map Service.request ++ throttled = requests
  served : Serves s served s'
  stopped : ∀ r ∈ throttled.head?, s'.Exceeds r

theorem Accounts.total (h : s.Accounts rs vs throttled s') :
    vs.countP Service.isExecuted + vs.countP Service.isDropped + throttled.length = rs.length := by
  have kinds := vs.length_eq_countP_add_countP Service.isExecuted
  have dropped : vs.countP (fun v => decide ¬v.isExecuted = true) = vs.countP Service.isDropped :=
    List.countP_congr fun v _ => by simp [Service.isExecuted, Service.isDropped]
  rw [← h.requests, List.length_append, List.length_map, kinds, dropped]

/-- To apply a message is to serve its requests. -/
theorem accounts_applyAll (rs : List Request) (sane : s.book.Sane)
    (calm : s.interrupted = false) (fresh : m.throttled = 0) :
    ∃ throttled, s.Accounts rs (s.services rs) throttled (Broker.applyAll m s rs).broker
      ∧ (Broker.applyAll m s rs).summary
        = { (s.services rs).foldl Summary.count m with throttled := throttled.length } := by
  induction rs generalizing s m with
  | nil =>
    refine ⟨[], ⟨rfl, .nil s, nofun⟩, ?_⟩
    simp only [services, List.foldl_nil, List.length_nil, ← fresh]
    rfl
  | cons r rs ih =>
    have applied := applyAll_cons m r rs sane calm
    by_cases exceeds : s.Exceeds r
    · rw [if_pos exceeds] at applied
      rw [services, if_pos exceeds, applied.1, applied.2]
      refine ⟨r :: rs, ⟨rfl, .nil s, fun _ first => ?_⟩, rfl⟩
      obtain rfl := Option.some.inj first
      exact exceeds
    · rw [if_neg exceeds] at applied
      rw [services, if_neg exceeds, applied.1, applied.2]
      obtain ⟨-, carried, applied, saneThen⟩ := serve_executes (r := r) sane
      have calmThen : (s.serve r).interrupted = false := by
        rw [carried.state]
        exact calm
      obtain ⟨throttled, accounts, summary⟩ :=
        ih saneThen calmThen ((Summary.throttled_count (v := s.service r)).trans fresh)
      exact ⟨throttled, ⟨congrArg (r :: ·) accounts.requests,
        .cons rfl exceeds carried applied accounts.served, accounts.stopped⟩, summary⟩

/-- A message that a calm simulation applies. -/
theorem accounts_apply (text : String) (sane : s.book.Sane) (calm : s.interrupted = false) :
    let requests := (Message.read text).requests
    let served := s.services requests
    ∃ throttled, s.Accounts requests served throttled (Broker.apply s text).state
      ∧ (Broker.apply s text).result = .ok ⟨requests.length, served.countP Service.isExecuted,
          served.countP Service.isDropped, throttled.length, false⟩ := by
  intro requests served
  obtain ⟨throttled, accounts, summary⟩ := accounts_applyAll requests
    (m := ⟨requests.length, 0, 0, 0, false⟩) sane calm rfl
  refine ⟨throttled, accounts, congrArg Except.ok (summary.trans ?_)⟩
  rw [Summary.foldl_count, Nat.zero_add, Nat.zero_add]

/-- A tick begins with a fresh budget and raises no flag. -/
theorem advance_state {c : TickContext} : ∃ book quotes trades report tapesDone,
    (s.advance c).state = ⟨book, quotes, trades, s.budget.reset, s.interrupted, report, tapesDone⟩ := by
  simp only [advance, Outcome.bind]
  split
  · simp only [close]
    split
    · exact ⟨_, _, _, _, _, rfl⟩
    · split <;> exact ⟨_, _, _, _, _, rfl⟩
  · cases ((s.turn c.tick).takeQuotes c.boundary).result with
    | error => exact ⟨_, _, _, _, _, rfl⟩
    | ok quotes =>
      cases (((s.turn c.tick).takeQuotes c.boundary).state.takeTrades c.boundary).result with
      | error => exact ⟨_, _, _, _, _, rfl⟩
      | ok trades =>
        simp only
        obtain ⟨_, _, _, state⟩ := checkTapes_state ((((s.turn c.tick).takeQuotes
          c.boundary).state.takeTrades c.boundary).state.replay quotes trades).state c.tick
        split
        · exact ⟨_, _, _, _, _, rfl⟩
        · exact ⟨_, _, _, _, _, state⟩

end Simulation

/-! ## Sessions -/

namespace Session

variable {s s' : Session Simulation} {input : Input} {inputs : List Input}

/-- What an input makes of a session. A call out of turn is refused. -/
inductive Takes (s : Session Simulation) : Input → Session Simulation → Prop
  | refused {input : Input} (outOfTurn : ∀ text, input = .applyMsgIn text → s.phase ≠ .sent) :
    Takes s input s
  | ticked {tick : Nat} {phase : Phase}
    (counts : tick = s.tick + 1 ∨ tick = s.tick ∧ phase = .idle) :
    Takes s .advance { s with broker := (s.broker.advance s.nextTick).state, tick, phase }
  | told (ready : s.phase = .tickReady) : Takes s .buildMsgOut { s with phase := .sent }
  | answered {text : String} (sent : s.phase = .sent) :
    Takes s (.applyMsgIn text) { s with broker := (Broker.apply s.broker text).state, phase := .idle }
  | raised : Takes s .interrupt { s with broker := s.broker.raise }

theorem takes_advance : s.Takes .advance (s.accept .advance) := by
  simp only [accept, Session.advance]
  cases turn : s.outOfTurn .advance with
  | some e => exact .refused fun _ other => by cases other
  | none =>
    have idle := outOfTurn_eq_none.mp turn
    cases (Broker.advance s.broker s.nextTick).result with
    | ok status => cases status <;> exact .ticked (.inl rfl)
    | error e =>
      simp only
      split
      · exact .ticked (.inl rfl)
      · exact .ticked (.inr ⟨rfl, idle⟩)

theorem takes_accept (s : Session Simulation) (input : Input) : s.Takes input (s.accept input) := by
  cases input with
  | advance => exact takes_advance
  | buildMsgOut =>
    simp only [accept, Session.buildMsgOut]
    cases turn : s.outOfTurn .buildMsgOut with
    | some e => exact .refused fun _ other => by cases other
    | none => exact .told (outOfTurn_eq_none.mp turn)
  | applyMsgIn text =>
    simp only [accept, Session.applyMsgIn]
    cases turn : s.outOfTurn .applyMsgIn with
    | some e =>
      refine .refused fun _ _ sent => ?_
      rw [outOfTurn_eq_none.mpr sent] at turn
      cases turn
    | none => exact .answered (outOfTurn_eq_none.mp turn)
  | interrupt => exact .raised

/-- In its turn, a message is applied by the broker. -/
theorem applyMsgIn_inTurn {text : String} (sent : s.phase = .sent) :
    (s.applyMsgIn text).result = (Broker.apply s.broker text).result
      ∧ (s.applyMsgIn text).state.broker = (Broker.apply s.broker text).state := by
  have inTurn : s.outOfTurn .applyMsgIn = none := outOfTurn_eq_none.mpr sent
  rw [applyMsgIn, inTurn]
  exact ⟨rfl, rfl⟩

/-! ### The budget of a tick -/

/-- The services of an input, which are those of a message in its turn. -/
def services (s : Session Simulation) : Input → List Service
  | .applyMsgIn text =>
    if s.phase = .sent then s.broker.services (Message.read text).requests else []
  | .advance | .buildMsgOut | .interrupt => []

/-- All that is served in the course of some inputs. -/
def served (s : Session Simulation) : List Input → List Service
  | [] => []
  | input :: inputs => s.services input ++ (s.accept input).served inputs

/-- What may still be spent in the tick. -/
def allowance (s : Session Simulation) : Nat :=
  if s.phase = .tickReady ∨ s.phase = .sent then s.broker.budget.limit else 0

namespace Takes

theorem tick_le (takes : s.Takes input s') : s.tick ≤ s'.tick := by
  cases takes with
  | ticked counts =>
    rcases counts with rfl | ⟨rfl, -⟩
    · exact Nat.le_succ s.tick
    · exact le_rfl
  | _ => exact le_rfl

theorem limit (takes : s.Takes input s') : s'.broker.budget.limit = s.broker.budget.limit := by
  cases takes with
  | ticked =>
    obtain ⟨_, _, _, _, _, state⟩ := s.broker.advance_state (c := s.nextTick)
    rw [state]
    rfl
  | answered => exact Simulation.steady_applyAll.limit
  | _ => rfl

/-- Only from outside is the flag of fresh market data ever raised. -/
theorem interrupted (takes : s.Takes input s') (sane : s.broker.book.Sane)
    (calm : s.broker.interrupted = false) (other : input ≠ .interrupt) :
    s'.broker.interrupted = false := by
  cases takes with
  | ticked =>
    obtain ⟨_, _, _, _, _, state⟩ := s.broker.advance_state (c := s.nextTick)
    rw [state]
    exact calm
  | answered =>
    obtain ⟨_, accounts, -⟩ := Simulation.accounts_apply _ sane calm
    exact accounts.served.interrupted.trans calm
  | raised => exact absurd rfl other
  | _ => exact calm

/-- What an input of a tick spends is no longer allowed to the rest of the tick. -/
theorem spends (takes : s.Takes input s') (sane : s.broker.book.Sane)
    (calm : s.broker.interrupted = false) (same : s'.tick = s.tick) :
    ((s.services input).map Service.cost).sum + s'.allowance ≤ s.allowance := by
  cases takes with
  | refused outOfTurn =>
    have nothing : s.services input = [] := by
      cases input with
      | applyMsgIn text => exact if_neg (outOfTurn text rfl)
      | _ => rfl
    rw [nothing]
    exact (Nat.zero_add _).le
  | ticked counts =>
    rcases counts with rfl | ⟨rfl, rfl⟩
    · exact absurd same s.tick.succ_ne_self
    · exact Nat.zero_le _
  | told ready =>
    have whole : s.allowance = s.broker.budget.limit := if_pos (.inl ready)
    rw [whole]
    exact (Nat.zero_add _).le
  | @answered text sent =>
    obtain ⟨_, accounts, -⟩ := Simulation.accounts_apply text sane calm
    have within := accounts.served.budget.2
    have whole : s.allowance = s.broker.budget.limit := if_pos (.inr sent)
    have here : s.services (.applyMsgIn text)
        = s.broker.services (Message.read text).requests := if_pos sent
    rw [here, whole]
    change _ + 0 ≤ _
    omega
  | raised => exact (Nat.zero_add _).le

end Takes

theorem tick_le_run : s.tick ≤ (s.run inputs).tick := by
  induction inputs generalizing s with
  | nil => exact le_rfl
  | cons input inputs ih => exact (s.takes_accept input).tick_le.trans ih

theorem limit_run : (s.run inputs).broker.budget.limit = s.broker.budget.limit := by
  induction inputs generalizing s with
  | nil => rfl
  | cons input inputs ih => exact ih.trans (s.takes_accept input).limit

theorem interrupted_run (sane : s.broker.book.Sane) (calm : s.broker.interrupted = false)
    (unraised : .interrupt ∉ inputs) : (s.run inputs).broker.interrupted = false := by
  induction inputs generalizing s with
  | nil => exact calm
  | cons input inputs ih =>
    have other : input ≠ .interrupt := (List.ne_of_not_mem_cons unraised).symm
    exact ih ((moves_accept sane).sane sane) ((s.takes_accept input).interrupted sane calm other)
      (List.not_mem_of_not_mem_cons unraised)

/-- Between two ticks no more is spent than the budget allows. -/
theorem served_le (sane : s.broker.book.Sane) (calm : s.broker.interrupted = false)
    (unraised : .interrupt ∉ inputs) (same : (s.run inputs).tick = s.tick) :
    ((s.served inputs).map Service.cost).sum ≤ s.allowance := by
  induction inputs generalizing s with
  | nil => exact Nat.zero_le _
  | cons input inputs ih =>
    have takes := s.takes_accept input
    have other : input ≠ .interrupt := (List.ne_of_not_mem_cons unraised).symm
    have first : (s.accept input).tick = s.tick :=
      le_antisymm (tick_le_run.trans same.le) takes.tick_le
    have step := takes.spends sane calm first
    have rest := ih ((moves_accept sane).sane sane) (takes.interrupted sane calm other)
      (List.not_mem_of_not_mem_cons unraised) (same.trans first.symm)
    rw [served, List.map_append, List.sum_append]
    omega

end Session

end TradingDesk
