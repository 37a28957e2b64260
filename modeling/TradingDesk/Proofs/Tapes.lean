-- SUMMARY: What holds of all records of a tape holds of those that it hands over.
import TradingDesk.Simulation.Basic

/-!
# Records of tapes

A tape hands over the records of its lines, now or later, and no others. So what holds
of each record that can be read from its lines holds of each record of a tick, and it
goes on to hold of the tape when it has moved on, also when reading fails.
-/

namespace TradingDesk

namespace Tape

variable {α : Type} [TapeRecord α] {P : Timed α → Prop} {t : Tape α} {boundary : Nat}

/-- Whether the record of a line meets `P`, if there is one. -/
def Entry.Meets (P : Timed α → Prop) : Entry α → Prop
  | .nothing => True
  | .notText => True
  | .malformed _ => True
  | .record r => P r

instance [DecidablePred P] : DecidablePred (Entry.Meets P)
  | .nothing => .isTrue trivial
  | .notText => .isTrue trivial
  | .malformed _ => .isTrue trivial
  | .record r => inferInstanceAs (Decidable (P r))

/-- What holds of each record that a tape can still hand over. -/
structure Holds (P : Timed α → Prop) (t : Tape α) : Prop where
  ahead : ∀ r ∈ t.ahead, P r
  pending : ∀ bytes ∈ t.pending, (Entry.ofBytes bytes : Entry α).Meets P

instance [DecidablePred P] (t : Tape α) : Decidable (t.Holds P) :=
  decidable_of_iff
    ((∀ r ∈ t.ahead, P r) ∧ ∀ bytes ∈ t.pending, (Entry.ofBytes bytes : Entry α).Meets P)
    ⟨fun h => ⟨h.1, h.2⟩, fun h => ⟨h.ahead, h.pending⟩⟩

theorem holds_of_forall (h : ∀ r, P r) (t : Tape α) : t.Holds P where
  ahead := fun r _ => h r
  pending := by
    intro bytes _
    cases (Entry.ofBytes bytes : Entry α) with
    | record r => exact h r
    | _ => trivial

/-- What is kept of a tape that was read: `P` holds of what it handed over and of the rest. -/
structure Handed (P : Timed α → Prop) (o : Outcome (Tape α) (List (Timed α))) : Prop where
  tape : o.state.Holds P
  records : ∀ rs, o.result = .ok rs → ∀ r ∈ rs, P r

namespace Handed

variable {o : Outcome (Tape α) (List (Timed α))} {r : Timed α}

theorem after (h : Handed P o) (notices : List Notice) : Handed P (o.after notices) :=
  ⟨h.tape, h.records⟩

theorem cons (h : Handed P o) (hr : P r) :
    Handed P { o with result := o.result.map (r :: ·) } where
  tape := h.tape
  records := by
    intro rs ok
    cases result : o.result with
    | error => simp [result, Except.map] at ok
    | ok later =>
      simp only [result, Except.map, Except.ok.injEq] at ok
      subst ok
      exact List.forall_mem_cons.mpr ⟨hr, h.records later result⟩

/-- A tape that hands over nothing. -/
theorem none (h : t.Holds P) : Handed P (.ok [] t) where
  tape := h
  records := by
    rintro _ ⟨rfl⟩ r hr
    cases hr

end Handed

theorem handed_readUntil {name : String} {fault : Option String} {line skipped : Nat}
    {lines : List (List UInt8)}
    (h : ∀ bytes ∈ lines, (Entry.ofBytes bytes : Entry α).Meets P) :
    Handed P (readUntil name boundary fault line skipped lines) := by
  induction lines generalizing line skipped with
  | nil =>
    have rest : ∀ line, (⟨name, [], fault, Option.none, line, skipped⟩ : Tape α).Holds P :=
      fun _ => ⟨by simp, by simp⟩
    cases fault with
    | none => exact .none (rest line)
    | some text => exact ⟨rest (line + 1), fun _ ok => by cases ok⟩
  | cons bytes lines ih =>
    have later : ∀ line skipped, Handed P (readUntil name boundary fault line skipped lines) :=
      fun _ _ => ih fun b hb => h b (List.mem_cons_of_mem bytes hb)
    simp only [readUntil]
    cases entry : (Entry.ofBytes bytes : Entry α) with
    | nothing => exact later ..
    | notText => exact (later ..).after _
    | malformed => exact (later ..).after _
    | record r =>
      have hr := h bytes List.mem_cons_self
      rw [entry] at hr
      simp only
      split
      · exact (later ..).cons hr
      · refine .none ⟨?_, fun b hb => h b (List.mem_cons_of_mem bytes hb)⟩
        rintro _ ⟨rfl⟩
        exact hr

theorem Holds.takeUntil (h : t.Holds P) (boundary : Nat) : Handed P (t.takeUntil boundary) := by
  have later : Handed P (readUntil t.name boundary t.fault t.line t.skipped t.pending) :=
    handed_readUntil h.pending
  simp only [Tape.takeUntil]
  split
  next => exact later
  next r ahead =>
    split
    · exact later.cons (h.ahead r ahead)
    · exact .none h

theorem Holds.isExhausted (h : t.Holds P) : t.isExhausted.state.Holds P := by
  have taken := h.takeUntil 0
  simp only [Tape.isExhausted, Outcome.bind]
  cases (t.takeUntil 0).result with
  | error => exact taken.tape
  | ok => exact taken.tape

end Tape

/-! ## Market depth -/

/-- Whether a record's market depth meets `D`, if it has any. -/
def QuoteRecord.Shows (D : Depth → Prop) : QuoteRecord → Prop
  | .depth _ avgPrice traded ladder => D ⟨avgPrice, traded, ladder⟩
  | .index _ => True
  | .warrant .. => True
  | .nav .. => True

instance {D : Depth → Prop} [DecidablePred D] : DecidablePred (QuoteRecord.Shows D)
  | .depth _ avgPrice traded ladder => inferInstanceAs (Decidable (D ⟨avgPrice, traded, ladder⟩))
  | .index _ => .isTrue trivial
  | .warrant .. => .isTrue trivial
  | .nav .. => .isTrue trivial

def Timed.Shows (D : Depth → Prop) (q : Timed QuoteRecord) : Prop := q.record.Shows D

instance {D : Depth → Prop} [DecidablePred D] : DecidablePred (Timed.Shows D) :=
  fun q => inferInstanceAs (Decidable (q.record.Shows D))

theorem shows_true (q : Timed QuoteRecord) : q.Shows fun _ => True := by
  obtain ⟨_, record⟩ := q
  cases record <;> trivial

theorem shows_lastDepth {D : Depth → Prop} {quotes : List (Timed QuoteRecord)} {code : String}
    (shown : ∀ q ∈ quotes, q.Shows D) : ∀ d ∈ lastDepth code quotes, D d := by
  intro d hd
  obtain ⟨q, hq, found⟩ := List.exists_of_findSome?_eq_some hd
  split at found
  next c avgPrice traded ladder record =>
    split at found
    · cases found
      have here := shown q (List.mem_reverse.mp hq)
      rw [Timed.Shows, record] at here
      exact here
    · cases found
  next => cases found

end TradingDesk
