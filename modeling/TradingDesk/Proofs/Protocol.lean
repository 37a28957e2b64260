-- SUMMARY: The order of a session's calls, and the tick with which it ends.
import Mathlib.Data.Set.Card
import Mathlib.Order.Interval.Finset.Nat
import TradingDesk.Proofs.LostTicks

/-!
# The protocol of a session

A call that is out of turn is refused and changes nothing. Those that are accepted are
`stages`: ticks that are lost, begun, told to the agent and answered by it, in this order, and
the tick after the close. Every tick counts toward the close, a lost one too, so the clock
alone says which advance ends the session.
-/

namespace TradingDesk

/-! ## Ticks until the close -/

namespace SessionClock

variable {c : SessionClock} {n : Nat}

/-- The number of ticks that end by the close. -/
noncomputable def ticks (c : SessionClock) : Nat :=
  {n : Nat | 1 ≤ n ∧ c.opening + n * c.tickSecs ≤ c.closing}.ncard

theorem inside_iff (length : 1 ≤ c.tickSecs) (pos : 1 ≤ n) :
    c.opening + n * c.tickSecs ≤ c.closing ↔ n ≤ (c.closing - c.opening) / c.tickSecs := by
  have secs : 1 ≤ n * c.tickSecs := Nat.mul_pos pos length
  rw [Nat.le_div_iff_mul_le length]
  omega

theorem ticks_eq (length : 1 ≤ c.tickSecs) : c.ticks = (c.closing - c.opening) / c.tickSecs := by
  have set : {n : Nat | 1 ≤ n ∧ c.opening + n * c.tickSecs ≤ c.closing}
      = Finset.Icc 1 ((c.closing - c.opening) / c.tickSecs) := by
    ext n
    rw [Set.mem_ofPred_eq, Finset.coe_Icc, Set.mem_Icc]
    exact and_congr_right fun pos => inside_iff length pos
  rw [ticks, set, Set.ncard_coe_finset, Nat.card_Icc, Nat.add_sub_cancel]

/-- A tick is past the close if it comes after those that end by it. A boundary that is too
large for the clock stays above the close. -/
theorem pastClose_iff (length : 1 ≤ c.tickSecs) (closing : c.closing < Text.maxWord) (pos : 1 ≤ n) :
    TickContext.pastClose ⟨n, c.boundary n, c.closing⟩ = true ↔ c.ticks < n := by
  have inside := inside_iff (c := c) length pos
  rw [← ticks_eq length] at inside
  rw [TickContext.pastClose, decide_eq_true_eq, ← not_le, ← not_le, ← inside]
  simp only [boundary]
  omega

end SessionClock

/-! ## What a tick comes to -/

namespace Simulation

variable {s : Simulation} {c : TickContext} {status : TickStatus}

/-- Whether the report can be written, if one is wanted. -/
def Writable (s : Simulation) : Prop := ∀ file ∈ s.report, file.fault = none

theorem Writable.steady {s' : Simulation} (h : s.Writable) (steady : Steady s s') : s'.Writable := by
  rw [Writable, steady.report]
  exact h

theorem report_checkTapes {tick : Nat} : (s.checkTapes tick).state.report = s.report := by
  obtain ⟨_, _, _, state⟩ := s.checkTapes_state tick
  rw [state]

theorem Writable.close (h : s.Writable) :
    s.close.result = .ok .sessionEnd ∧ s.close.state.Writable := by
  unfold Simulation.close
  split
  next => exact ⟨rfl, h⟩
  next file report =>
    have sound := h file report
    rw [sound]
    refine ⟨rfl, ?_⟩
    rintro _ ⟨rfl⟩
    rfl

/-- A tick before the close that has no records could not be read. -/
theorem exists_error_of_due (inSession : c.pastClose = false) (none : s.due c = none) :
    ∃ e, (s.advance c).result = .error e := by
  cases quotes : (s.quotes.takeUntil c.boundary).result with
  | error e =>
    have taken : ((s.turn c.tick).takeQuotes c.boundary).result = .error e := quotes
    exact ⟨e, by simp only [advance, inSession, Bool.false_eq_true, if_false, Outcome.bind, taken]⟩
  | ok qs =>
    have taken : ((s.turn c.tick).takeQuotes c.boundary).result = .ok qs := quotes
    cases trades : (s.trades.takeUntil c.boundary).result with
    | error e =>
      have takenToo : (((s.turn c.tick).takeQuotes c.boundary).state.takeTrades
          c.boundary).result = .error e := trades
      exact ⟨e, by
        simp only [advance, inSession, Bool.false_eq_true, if_false, Outcome.bind, taken, takenToo]⟩
    | ok ts =>
      have due : s.due c = some (qs, ts) := due_eq_some.mpr ⟨inSession, quotes, trades⟩
      rw [none] at due
      cases due

/-- A tick past the close ends the session, and any other goes on or is lost. -/
theorem Writable.advance (h : s.Writable) :
    (s.advance c).state.Writable
      ∧ if c.pastClose then (s.advance c).result = .ok .sessionEnd
        else (s.advance c).result = .ok .goesOn
          ∨ ∃ e, (s.advance c).result = .error e ∧ e.kind = .replay := by
  cases past : c.pastClose with
  | true =>
    have closed : (s.turn c.tick).close.result = .ok .sessionEnd ∧ _ := Writable.close h
    simp only [Simulation.advance, past, if_true]
    exact ⟨closed.2, closed.1⟩
  | false =>
    simp only [Bool.false_eq_true, if_false]
    cases due : s.due c with
    | some r =>
      obtain ⟨-, quotes, trades⟩ := due_eq_some.mp due
      obtain ⟨result, state⟩ := advance_of_due due
      have looked : ((s.replayed c r).checkTapes c.tick).result = .ok .goesOn :=
        checkTapes_result (Tape.read_takeUntil.ready _ quotes) (Tape.read_takeUntil.ready _ trades)
      refine ⟨?_, .inl (result.trans looked)⟩
      rw [state, Writable, report_checkTapes]
      exact h
    | none =>
      obtain ⟨e, failed⟩ := exists_error_of_due past due
      rcases advance_eq_error failed with ⟨file, report, _, broken, -⟩ | ⟨lost, _, -, state⟩
      · rw [h file report] at broken
        cases broken
      · rw [state]
        exact ⟨h, .inr ⟨e, failed, lost⟩⟩

end Simulation

/-! ## Calls -/

/-- The call that an input is, if it is one. -/
def Session.Input.call? : Session.Input → Option Call
  | .advance => some .advance
  | .buildMsgOut => some .buildMsgOut
  | .applyMsgIn _ => some .applyMsgIn
  | .interrupt => none

/-- What an accepted call was in the course of a session. -/
inductive Stage where
  /-- A tick whose tapes could not be read. -/
  | lost
  | begun
  | told
  | answered
  /-- The tick after the close. -/
  | ended
  deriving DecidableEq, Repr

namespace Stage

/-- Whether the stage is a tick of the clock. -/
def isTick : Stage → Bool
  | lost | begun | ended => true
  | told | answered => false

/-- A tick that is told and answered, after some that were lost. -/
def wholeTick (lost : Nat) : List Stage := List.replicate lost .lost ++ [.begun, .told, .answered]

/-- The stages of the tick that a phase is in. -/
def ofPhase : Phase → List Stage
  | .idle => []
  | .tickReady => [.begun]
  | .sent => [.begun, .told]
  | .ended => [.ended]

/-- Whole ticks, one after another, and the beginning of the next one. -/
def InOrder (phase : Phase) (stages : List Stage) : Prop :=
  ∃ (ticks : List Nat) (lost : Nat),
    stages = ticks.flatMap wholeTick ++ List.replicate lost .lost ++ ofPhase phase

/-- The phase that a stage leads to. -/
inductive Leads : Phase → Stage → Phase → Prop
  | lost : Leads .idle .lost .idle
  | begun : Leads .idle .begun .tickReady
  | told : Leads .tickReady .told .sent
  | answered : Leads .sent .answered .idle
  | ended : Leads .idle .ended .ended

variable {phase phase' : Phase} {stage : Stage} {stages : List Stage} {limit : Nat}

theorem InOrder.snoc (order : InOrder phase stages) (leads : Leads phase stage phase') :
    InOrder phase' (stages ++ [stage]) := by
  obtain ⟨ticks, lost, rfl⟩ := order
  cases leads with
  | lost => exact ⟨ticks, lost + 1, by simp [ofPhase, List.replicate_succ']⟩
  | begun => exact ⟨ticks, lost, by simp [ofPhase]⟩
  | told => exact ⟨ticks, lost, by simp [ofPhase]⟩
  | answered => exact ⟨ticks ++ [lost], 0, by simp [ofPhase, wholeTick]⟩
  | ended => exact ⟨ticks, lost, by simp [ofPhase]⟩

theorem Leads.phase_of_ended (leads : Leads phase .ended phase') : phase' = .ended := by
  cases leads
  rfl

theorem InOrder.phase_of_ended (order : InOrder phase stages) (ended : .ended ∈ stages) :
    phase = .ended := by
  obtain ⟨ticks, lost, rfl⟩ := order
  cases phase with
  | ended => rfl
  | _ => simp [ofPhase, wholeTick] at ended

/-- Of the ticks of a session the one of this number ends it, and no other does. -/
def EndsAt (limit : Nat) (stages : List Stage) : Prop :=
  ∀ n stage, (stages.filter isTick)[n]? = some stage → (stage = .ended ↔ n = limit)

theorem EndsAt.snoc (ends : EndsAt limit stages)
    (next : stage.isTick = true → (stage = .ended ↔ stages.countP isTick = limit)) :
    EndsAt limit (stages ++ [stage]) := by
  intro n found at'
  rw [List.filter_append, List.getElem?_append, ← List.countP_eq_length_filter] at at'
  split at at'
  · exact ends n found at'
  next later =>
    cases tick : stage.isTick with
    | false => simp [tick] at at'
    | true =>
      rw [List.filter_cons_of_pos tick, List.filter_nil, List.getElem?_singleton] at at'
      split at at'
      next first =>
        obtain rfl := Option.some.inj at'
        rw [next tick]
        omega
      next => cases at'

end Stage

namespace Session

variable {s : Session Simulation} {input : Input} {inputs : List Input} {call : Call}
  {stage : Stage} {before : List Stage} {clock : SessionClock}

/-- What a result says that went wrong. -/
def errorOf {α : Type} : Except Error α → Option Error
  | .ok _ => none
  | .error e => some e

/-- What a call fails with, if it does. -/
def failure? (s : Session Simulation) : Input → Option Error
  | .advance => errorOf s.advance.result
  | .buildMsgOut => errorOf s.buildMsgOut.result
  | .applyMsgIn text => errorOf (s.applyMsgIn text).result
  | .interrupt => none

/-- A call is refused: it fails over the state of the session, and nothing changes. -/
def Refuses (s : Session Simulation) (input : Input) : Prop :=
  ∃ e, s.failure? input = some e ∧ e.kind = .invalidState ∧ s.accept input = s

/-- The stage that a call leads to, by its answer. -/
def stage? (s : Session Simulation) : Input → Option Stage
  | .advance =>
    match s.advance.result with
    | .ok .goesOn => some .begun
    | .ok .sessionEnd => some .ended
    | .error e => if e.kind = .replay then some .lost else none
  | .buildMsgOut => if (errorOf s.buildMsgOut.result).isNone then some .told else none
  | .applyMsgIn text => if (errorOf (s.applyMsgIn text).result).isNone then some .answered else none
  | .interrupt => none

/-- The stages that some inputs lead to, in turn. -/
def stages (s : Session Simulation) : List Input → List Stage
  | [] => []
  | input :: inputs => (s.stage? input).toList ++ (s.accept input).stages inputs

theorem refuses_of_outOfTurn (calls : input.call? = some call) (outOfTurn : s.phase ≠ call.phase) :
    s.Refuses input ∧ s.stage? input = none := by
  obtain ⟨e, failed⟩ : ∃ e, s.outOfTurn call = some e :=
    Option.ne_none_iff_exists'.mp (mt outOfTurn_eq_none.mp outOfTurn)
  have kind := kind_of_outOfTurn failed
  cases input with
  | advance =>
    cases calls
    refine ⟨⟨e, ?_, kind, ?_⟩, ?_⟩
    · simp only [failure?, advance, failed]
      rfl
    · simp only [accept, advance, failed]
      rfl
    · simp only [stage?, advance, failed, Outcome.fail, kind]
      rfl
  | buildMsgOut =>
    cases calls
    refine ⟨⟨e, ?_, kind, ?_⟩, ?_⟩
    · simp only [failure?, buildMsgOut, failed]
      rfl
    · simp only [accept, buildMsgOut, failed]
      rfl
    · simp only [stage?, buildMsgOut, failed]
      rfl
  | applyMsgIn text =>
    cases calls
    refine ⟨⟨e, ?_, kind, ?_⟩, ?_⟩
    · simp only [failure?, applyMsgIn, failed]
      rfl
    · simp only [accept, applyMsgIn, failed]
      rfl
    · simp only [stage?, applyMsgIn, failed]
      rfl
  | interrupt => cases calls

/-- What an accepted call comes to. -/
structure Follows (s : Session Simulation) (stage : Stage) (s' : Session Simulation) : Prop where
  leads : Stage.Leads s.phase stage s'.phase
  tick : s'.tick = s.tick + if stage.isTick then 1 else 0
  clock : s'.clock = s.clock
  ends : stage.isTick = true → (stage = .ended ↔ s.nextTick.pastClose = true)

theorem follows_of_inTurn (writable : s.broker.Writable) (calls : input.call? = some call)
    (inTurn : s.phase = call.phase) :
    ∃ stage, s.stage? input = some stage ∧ s.Follows stage (s.accept input) := by
  have accepted : s.outOfTurn call = none := outOfTurn_eq_none.mpr inTurn
  cases input with
  | advance =>
    cases calls
    have outcome := (writable.advance (c := s.nextTick)).2
    cases past : s.nextTick.pastClose with
    | true =>
      rw [past, if_pos rfl] at outcome
      have ended : (Broker.advance s.broker s.nextTick).result = .ok .sessionEnd := outcome
      refine ⟨.ended, by simp only [stage?, advance, accepted, ended], ?_⟩
      simp only [accept, advance, accepted, ended]
      refine ⟨?_, rfl, rfl, fun _ => iff_of_true rfl past⟩
      rw [inTurn]
      exact .ended
    | false =>
      rw [past, if_neg Bool.false_ne_true] at outcome
      rcases outcome with goesOn | ⟨e, failed, lost⟩
      · have begun : (Broker.advance s.broker s.nextTick).result = .ok .goesOn := goesOn
        refine ⟨.begun, by simp only [stage?, advance, accepted, begun], ?_⟩
        simp only [accept, advance, accepted, begun]
        refine ⟨?_, rfl, rfl, fun _ => iff_of_false (by decide) (by simp [past])⟩
        rw [inTurn]
        exact .begun
      · have failed : (Broker.advance s.broker s.nextTick).result = .error e := failed
        refine ⟨.lost, by simp only [stage?, advance, accepted, failed, lost, if_true], ?_⟩
        simp only [accept, advance, accepted, failed, lost, if_true]
        refine ⟨?_, rfl, rfl, fun _ => iff_of_false (by decide) (by simp [past])⟩
        change Stage.Leads s.phase _ s.phase
        rw [inTurn]
        exact .lost
  | buildMsgOut =>
    cases calls
    refine ⟨.told, ?_, ?_⟩
    · simp only [stage?, buildMsgOut, accepted]
      rfl
    · simp only [accept, buildMsgOut, accepted]
      refine ⟨?_, rfl, rfl, fun tick => by cases tick⟩
      rw [inTurn]
      exact .told
  | applyMsgIn text =>
    cases calls
    refine ⟨.answered, ?_, ?_⟩
    · simp only [stage?, applyMsgIn, accepted]
      rfl
    · simp only [accept, applyMsgIn, accepted]
      refine ⟨?_, rfl, rfl, fun tick => by cases tick⟩
      rw [inTurn]
      exact .answered
  | interrupt => cases calls

theorem writable_accept (writable : s.broker.Writable) : (s.accept input).broker.Writable := by
  rcases accept_cases s input with ⟨rfl, idle⟩ | ⟨-, -, same, -⟩ | between
  · rw [(advance_inTurn idle).1]
    exact writable.advance.1
  · rw [same]
    exact writable
  · exact writable.steady (steady_between between)

/-! ## Runs -/

/-- What is true of a session after the stages `before`, as long as its report can be written. -/
structure Keeps (clock : SessionClock) (s : Session Simulation) (before : List Stage) : Prop where
  order : Stage.InOrder s.phase before
  tick : s.tick = before.countP Stage.isTick
  inside : s.phase ≠ .ended → s.tick ≤ clock.ticks
  ends : Stage.EndsAt clock.ticks before
  writable : s.broker.Writable
  clock : s.clock = clock

theorem Keeps.accept (length : 1 ≤ clock.tickSecs) (closing : clock.closing < Text.maxWord)
    (keeps : Keeps clock s before) :
    Keeps clock (s.accept input) (before ++ (s.stage? input).toList) := by
  cases calls : input.call? with
  | none =>
    cases input with
    | interrupt =>
      rw [stage?, Option.toList_none, List.append_nil]
      exact ⟨keeps.order, keeps.tick, keeps.inside, keeps.ends, keeps.writable, keeps.clock⟩
    | _ => cases calls
  | some call =>
    by_cases inTurn : s.phase = call.phase
    · obtain ⟨stage, here, follows⟩ := follows_of_inTurn keeps.writable calls inTurn
      have past : s.nextTick.pastClose = true ↔ clock.ticks < s.tick + 1 := by
        rw [nextTick, keeps.clock]
        exact SessionClock.pastClose_iff length closing (Nat.le_add_left 1 s.tick)
      have running : s.tick ≤ clock.ticks := keeps.inside fun ended => by
        rw [ended] at inTurn
        cases call <;> cases inTurn
      rw [here, Option.toList_some]
      refine ⟨keeps.order.snoc follows.leads, ?_, fun goesOn => ?_, keeps.ends.snoc fun tick => ?_,
        writable_accept keeps.writable, follows.clock.trans keeps.clock⟩
      · rw [follows.tick, keeps.tick, List.countP_append, List.countP_singleton]
      · rw [follows.tick]
        split
        next tick =>
          have notEnded : stage ≠ .ended := fun ended => goesOn (ended ▸ follows.leads).phase_of_ended
          have := mt ((follows.ends tick).trans past).mpr notEnded
          omega
        next => exact running
      · rw [follows.ends tick, past, ← keeps.tick]
        omega
    · obtain ⟨⟨_, _, _, same⟩, nothing⟩ := refuses_of_outOfTurn calls inTurn
      rw [same, nothing, Option.toList_none, List.append_nil]
      exact keeps

theorem Keeps.run (length : 1 ≤ clock.tickSecs) (closing : clock.closing < Text.maxWord)
    (keeps : Keeps clock s before) : Keeps clock (s.run inputs) (before ++ s.stages inputs) := by
  induction inputs generalizing s before with
  | nil =>
    rw [stages, List.append_nil]
    exact keeps
  | cons input inputs ih =>
    rw [stages, ← List.append_assoc]
    exact ih (keeps.accept length closing)

theorem keeps_start {broker : Simulation} (writable : broker.Writable) :
    Keeps clock (start broker clock) [] where
  order := ⟨[], 0, rfl⟩
  tick := rfl
  inside := fun _ => Nat.zero_le _
  ends := nofun
  writable := writable
  clock := rfl

/-- The protocol of a session whose report can be written. A call out of turn or after the end
is refused, any other is accepted and is the next stage in order. Ticks are counted, lost ones
too, and the one that comes after all those that end by the close ends the session, and no
other. From then on every call is refused. -/
theorem run_protocol {broker : Simulation} {clock : SessionClock} {inputs : List Input}
    (length : 1 ≤ clock.tickSecs) (closing : clock.closing < Text.maxWord)
    (writable : broker.Writable) :
    let s := (start broker clock).run inputs
    let stages := (start broker clock).stages inputs
    (∀ input call, input.call? = some call →
        if s.phase = call.phase then (s.stage? input).isSome = true else s.Refuses input)
      ∧ Stage.InOrder s.phase stages
      ∧ s.tick = stages.countP Stage.isTick
      ∧ (∀ n stage, (stages.filter Stage.isTick)[n]? = some stage →
          (stage = .ended ↔ n + 1 = clock.ticks + 1))
      ∧ (.ended ∈ stages → ∀ input call, input.call? = some call → s.Refuses input) := by
  intro s stages
  have keeps : Keeps clock s stages := (keeps_start writable).run length closing
  refine ⟨fun input call calls => ?_, keeps.order, keeps.tick, fun n stage at' => ?_,
    fun ended input call calls => ?_⟩
  · split
    next inTurn =>
      obtain ⟨stage, here, -⟩ := follows_of_inTurn keeps.writable calls inTurn
      rw [here]
      rfl
    next outOfTurn => exact (refuses_of_outOfTurn calls outOfTurn).1
  · rw [keeps.ends n stage at', Nat.add_right_cancel_iff]
  · refine (refuses_of_outOfTurn calls ?_).1
    rw [keeps.order.phase_of_ended ended]
    cases call <;> nofun

/-- Three ticks fit before the close. The quotes fail in the second, so it is lost and the third
too, and yet the fourth advance ends the session; two calls come out of turn. -/
theorem run_protocol_lost :
    let broker := { Simulation.start (Book.opening 1000 [⟨"A", .equity, 10⟩]) [] [] 8 with
      quotes := Tape.ofBytes "quotes" "32415 k 17.5\n".toUTF8.toList (some "device gone") }
    let clock : SessionClock := ⟨32400, 32430, 10⟩
    let inputs : List Input := [.advance, .advance, .buildMsgOut, .applyMsgIn "s A 1000 10",
      .advance, .applyMsgIn "cA", .advance, .advance]
    let s := (start broker clock).run inputs
    1 ≤ clock.tickSecs ∧ clock.closing < Text.maxWord ∧ broker.Writable
      ∧ clock.ticks = 3
      ∧ (start broker clock).stages inputs = [.begun, .told, .answered, .lost, .lost, .ended]
      ∧ s.tick = 4
      ∧ ∀ input call, input.call? = some call → s.Refuses input := by
  intro broker clock inputs s
  have length : 1 ≤ clock.tickSecs := by decide
  have closing : clock.closing < Text.maxWord := by decide
  have writable : broker.Writable := nofun
  have stages : (start broker clock).stages inputs
      = [.begun, .told, .answered, .lost, .lost, .ended] := by decide +kernel
  obtain ⟨-, -, tick, -, refused⟩ := @run_protocol _ _ inputs length closing writable
  rw [stages] at tick refused
  refine ⟨length, closing, writable, ?_, stages, tick, refused (by decide)⟩
  rw [SessionClock.ticks_eq length]
  decide

end Session

end TradingDesk
