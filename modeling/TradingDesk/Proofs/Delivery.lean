-- SUMMARY: A tape hands over its records in the order of its lines, each once, as far as it was asked.
import Mathlib.Data.List.TakeWhile
import TradingDesk.Proofs.LostTicks

/-!
# Delivery

A tape that is asked again and again, for the records before some time or whether it has come
to its end, reads ahead by one record each time. `Delivers` says what that comes to in terms
of the tape's lines: those that were passed gave their records and their faults, and all the
others are still there. Asking up to two times is asking once, up to the later of them.
-/

namespace TradingDesk

namespace Tape

variable {α : Type}

/-! ## Lines -/

namespace Entry

def record? : Entry α → Option (Timed α)
  | .record r => some r
  | _ => none

/-- Whether a line can be read neither as a record nor as nothing. -/
def isFaulty : Entry α → Bool
  | .notText => true
  | .malformed _ => true
  | _ => false

/-- Whether a tape that is read up to `boundary` goes on beyond the line. -/
def passes (boundary : Nat) (e : Entry α) : Bool := e.record?.all fun r => decide (r.time < boundary)

variable {e : Entry α} {r : Timed α} {b c : Nat}

theorem passes_of_none (none : e.record? = none) : e.passes b = true := by
  rw [passes, none, Option.all_none]

theorem passes_of_some (some : e.record? = some r) : e.passes b = decide (r.time < b) := by
  rw [passes, some, Option.all_some]

theorem passes_mono (h : b ≤ c) (passed : e.passes b = true) : e.passes c = true := by
  cases record : e.record? with
  | none => exact passes_of_none record
  | some r =>
    rw [passes_of_some record, decide_eq_true_eq] at passed ⊢
    exact passed.trans_le h

end Entry

/-- The records of some lines. -/
def records (es : List (Entry α)) : List (Timed α) := es.filterMap Entry.record?

/-- The lines before record number `n`, counted from zero; all lines if there is none. -/
def linesBefore (n : Nat) : List (Entry α) → List (Entry α)
  | [] => []
  | e :: es =>
    match e.record?, n with
    | none, _ => e :: linesBefore n es
    | some _, 0 => []
    | some _, n + 1 => e :: linesBefore n es

variable {e : Entry α} {es : List (Entry α)} {r : Timed α} {b c : Nat}

theorem records_cons_none (none : e.record? = none) : records (e :: es) = records es :=
  List.filterMap_cons_none none

theorem records_cons_some (some : e.record? = some r) : records (e :: es) = r :: records es :=
  List.filterMap_cons_some some

/-- The records of the lines that are passed are the longest run before the boundary. -/
theorem records_takeWhile :
    records (es.takeWhile (·.passes b)) = (records es).takeWhile fun r => decide (r.time < b) := by
  induction es with
  | nil => rfl
  | cons e es ih =>
    cases record : e.record? with
    | none =>
      rw [List.takeWhile_cons_of_pos (Entry.passes_of_none record), records_cons_none record,
        records_cons_none record, ih]
    | some r =>
      have passes := @Entry.passes_of_some _ _ _ b record
      rw [List.takeWhile_cons, records_cons_some record, List.takeWhile_cons, passes]
      split
      · rw [records_cons_some record, ih]
      · rfl

/-- All lines are passed on the way to a boundary that all their records are before. -/
theorem passes_of_beyond (beyond : ∀ r ∈ records es, r.time < b) : ∀ e ∈ es, e.passes b = true := by
  intro e he
  cases record : e.record? with
  | none => exact Entry.passes_of_none record
  | some r =>
    rw [Entry.passes_of_some record]
    exact decide_eq_true (beyond r (List.mem_filterMap.mpr ⟨e, he, record⟩))

/-- The lines that are passed are those before the first record that they do not hold. -/
theorem linesBefore_length :
    linesBefore (records (es.takeWhile (·.passes b))).length es = es.takeWhile (·.passes b) := by
  induction es with
  | nil => rfl
  | cons e es ih =>
    cases record : e.record? with
    | none =>
      rw [List.takeWhile_cons_of_pos (Entry.passes_of_none record), records_cons_none record]
      simp only [linesBefore, record, ih]
    | some r =>
      have passes := @Entry.passes_of_some _ _ _ b record
      rw [List.takeWhile_cons, passes]
      split
      · rw [records_cons_some record, List.length_cons]
        simp only [linesBefore, record, ih]
      · simp only [records, List.filterMap_nil, List.length_nil, linesBefore, record]

theorem records_append {es' : List (Entry α)} : records (es ++ es') = records es ++ records es' :=
  List.filterMap_append

/-- What is left when nothing is due begins with a record. -/
theorem dropWhile_eq_nil : es.dropWhile (·.passes 0) = [] ↔ records es = [] := by
  induction es with
  | nil => exact iff_of_true rfl rfl
  | cons e es ih =>
    cases record : e.record? with
    | none =>
      rw [List.dropWhile_cons_of_pos (Entry.passes_of_none record), records_cons_none record, ih]
    | some r =>
      rw [List.dropWhile_cons_of_neg (by simp [Entry.passes_of_some record]),
        records_cons_some record]
      simp

/-- Passing lines up to one boundary and then up to another is passing them up to the later. -/
theorem passes_max :
    es.takeWhile (·.passes b) ++ (es.dropWhile (·.passes b)).takeWhile (·.passes c)
        = es.takeWhile (·.passes (max b c))
      ∧ (es.dropWhile (·.passes b)).dropWhile (·.passes c) = es.dropWhile (·.passes (max b c)) := by
  induction es with
  | nil => exact ⟨rfl, rfl⟩
  | cons e es ih =>
    by_cases passed : e.passes b = true
    · have later : e.passes (max b c) = true := Entry.passes_mono (le_max_left b c) passed
      rw [List.takeWhile_cons_of_pos passed, List.dropWhile_cons_of_pos passed,
        List.takeWhile_cons_of_pos later, List.dropWhile_cons_of_pos later, List.cons_append, ih.1]
      exact ⟨rfl, ih.2⟩
    · rw [List.takeWhile_cons_of_neg passed, List.dropWhile_cons_of_neg passed, List.nil_append]
      rcases le_total b c with h | h
      · rw [max_eq_right h]
        exact ⟨rfl, rfl⟩
      · have stuck : ¬e.passes c = true := fun hc => passed (Entry.passes_mono h hc)
        rw [max_eq_left h, List.takeWhile_cons_of_neg stuck, List.takeWhile_cons_of_neg passed,
          List.dropWhile_cons_of_neg stuck, List.dropWhile_cons_of_neg passed]
        exact ⟨rfl, rfl⟩

/-! ## Reading -/

variable [TapeRecord α] {t : Tape α} {skipped : Nat} {o : Outcome (Tape α) (List (Timed α))}

/-- What a tape has not handed over: the record that waits, and the lines not read. -/
def left (t : Tape α) : List (Entry α) :=
  (t.ahead.map Entry.record).toList ++ t.pending.map Entry.ofBytes

/-- What reading the lines `es` up to `boundary` comes to, when `skipped` were faulty before. -/
structure Delivers (boundary : Nat) (es : List (Entry α)) (skipped : Nat)
    (o : Outcome (Tape α) (List (Timed α))) : Prop where
  result : o.result = .ok (records (es.takeWhile (·.passes boundary)))
  left : o.state.left = es.dropWhile (·.passes boundary)
  skipped : o.state.skipped = skipped + (es.takeWhile (·.passes boundary)).countP Entry.isFaulty
  sound : o.state.fault = none

namespace Delivers

/-- A line without a record comes before those that are read after it. -/
theorem cons_none {faults : Nat} (later : Delivers b es (skipped + faults) o)
    (none : e.record? = none) (faulty : faults = if e.isFaulty then 1 else 0)
    (notices : List Notice) : Delivers b (e :: es) skipped (o.after notices) where
  result := by
    rw [List.takeWhile_cons_of_pos (Entry.passes_of_none none), records_cons_none none]
    exact later.result
  left := by
    rw [List.dropWhile_cons_of_pos (Entry.passes_of_none none)]
    exact later.left
  skipped := by
    rw [List.takeWhile_cons_of_pos (Entry.passes_of_none none), List.countP_cons, ← faulty]
    refine later.skipped.trans ?_
    rw [Nat.add_assoc, Nat.add_comm faults]
  sound := later.sound

/-- A record that is due comes before those that are read after it. -/
theorem cons_due (later : Delivers b es skipped o) (due : r.time < b) :
    Delivers b (.record r :: es) skipped { o with result := o.result.map (r :: ·) } := by
  have passed : (Entry.record r).passes b = true := decide_eq_true due
  refine ⟨?_, ?_, ?_, later.sound⟩
  · rw [List.takeWhile_cons_of_pos passed, records_cons_some rfl, later.result]
    rfl
  · rw [List.dropWhile_cons_of_pos passed]
    exact later.left
  · rw [List.takeWhile_cons_of_pos passed, List.countP_cons_of_neg Bool.false_ne_true]
    exact later.skipped

/-- A tape stops at a record that is not due. -/
theorem stop (waits : t.ahead = some r) (notDue : ¬r.time < b) (sound : t.fault = none) :
    Delivers b t.left t.skipped (.ok [] t) := by
  have stuck : ¬(Entry.record r).passes b = true := by simpa [Entry.passes, Entry.record?] using notDue
  have left : t.left = .record r :: t.pending.map Entry.ofBytes := by rw [Tape.left, waits]; rfl
  rw [left]
  refine ⟨?_, ?_, ?_, sound⟩
  · rw [List.takeWhile_cons_of_neg stuck]
    rfl
  · rw [List.dropWhile_cons_of_neg stuck]
    exact left
  · rw [List.takeWhile_cons_of_neg stuck]
    rfl

end Delivers

theorem delivers_readUntil {name : String} {line : Nat} {lines : List (List UInt8)} :
    Delivers b (lines.map (Entry.ofBytes : List UInt8 → Entry α)) skipped
      (readUntil name b none line skipped lines) := by
  induction lines generalizing line skipped with
  | nil => exact ⟨rfl, rfl, rfl, rfl⟩
  | cons bytes lines ih =>
    rw [List.map_cons, readUntil]
    cases (Entry.ofBytes bytes : Entry α) with
    | nothing => exact (@ih (skipped + 0) (line + 1)).cons_none rfl rfl []
    | notText => exact ih.cons_none rfl rfl _
    | malformed => exact ih.cons_none rfl rfl _
    | record r =>
      simp only
      split
      next due => exact ih.cons_due due
      next notDue => exact .stop (t := ⟨name, lines, none, some r, line + 1, skipped⟩) rfl notDue rfl

theorem delivers_takeUntil (sound : t.fault = none) :
    Delivers b t.left t.skipped (t.takeUntil b) := by
  simp only [takeUntil, sound]
  cases waits : t.ahead with
  | none =>
    have left : t.left = t.pending.map Entry.ofBytes := by rw [Tape.left, waits]; rfl
    rw [left]
    exact delivers_readUntil
  | some r =>
    have left : t.left = .record r :: t.pending.map Entry.ofBytes := by rw [Tape.left, waits]; rfl
    simp only
    split
    next due =>
      rw [left]
      exact delivers_readUntil.cons_due due
    next notDue => exact .stop waits notDue sound

/-- Whether a tape has come to its end is whether all its records were handed over. -/
theorem isExhausted_result (sound : t.fault = none) :
    ∃ exhausted, t.isExhausted.result = .ok exhausted
      ∧ (exhausted = true ↔ records t.left = []) := by
  have looked : Delivers 0 t.left t.skipped (t.takeUntil 0) := delivers_takeUntil sound
  have ready := read_takeUntil.ready _ looked.result
  refine ⟨(t.takeUntil 0).state.ahead.isNone, ?_, ?_⟩
  · simp only [isExhausted, Outcome.bind, looked.result]
    rfl
  · rw [← dropWhile_eq_nil, ← looked.left, Tape.left]
    cases ahead : (t.takeUntil 0).state.ahead with
    | some r => simp
    | none =>
      obtain ⟨pending, -⟩ : (t.takeUntil 0).state.pending = [] ∧ _ := by
        simpa [Ready, ahead] using ready
      simp [pending]

/-! ## One call after another -/

/-- What a tape can be asked. -/
inductive Look where
  | takeUntil (boundary : Nat)
  | isExhausted

/-- The time up to which a tape is read; the look at its end asks for no record. -/
def Look.boundary : Look → Nat
  | .takeUntil boundary => boundary
  | .isExhausted => 0

/-- The largest boundary of some calls. -/
def farthest (looks : List Look) : Nat := (looks.map Look.boundary).foldl max 0

def look (t : Tape α) : Look → Outcome (Tape α) (List (Timed α))
  | .takeUntil boundary => t.takeUntil boundary
  | .isExhausted => t.isExhausted.bind fun _ t => .ok [] t

/-- One more call, whose records come after those that were handed over before. -/
def lookOn (o : Outcome (Tape α) (List (Timed α))) (call : Look) :
    Outcome (Tape α) (List (Timed α)) :=
  o.bind fun rs t => { t.look call with result := (t.look call).result.map (rs ++ ·) }

/-- Some calls, one after another, with all the records that they hand over. -/
def lookAll (t : Tape α) (looks : List Look) : Outcome (Tape α) (List (Timed α)) :=
  looks.foldl lookOn (.ok [] t)

theorem delivers_look {call : Look} (sound : t.fault = none) :
    Delivers call.boundary t.left t.skipped (t.look call) := by
  cases call with
  | takeUntil boundary => exact delivers_takeUntil sound
  | isExhausted =>
    have looked : Delivers 0 t.left t.skipped (t.takeUntil 0) := delivers_takeUntil sound
    have nothing : records (t.left.takeWhile (·.passes 0)) = [] := by
      rw [records_takeWhile]
      cases records t.left <;> simp
    have state : (t.look .isExhausted).state = (t.takeUntil 0).state := by
      simp only [look, isExhausted, Outcome.bind, looked.result]
      rfl
    refine ⟨?_, state ▸ looked.left, state ▸ looked.skipped, state ▸ looked.sound⟩
    simp only [look, isExhausted, Outcome.bind, looked.result, Look.boundary, nothing]
    rfl

/-- Reading on up to a boundary is reading up to the later one from the beginning. -/
theorem Delivers.lookOn {call : Look} (h : Delivers b es skipped o) :
    Delivers (max b call.boundary) es skipped (lookOn o call) := by
  have next : Delivers call.boundary o.state.left o.state.skipped (o.state.look call) :=
    delivers_look h.sound
  rw [h.left] at next
  obtain ⟨taken, dropped⟩ := @passes_max _ es b call.boundary
  have result : (Tape.lookOn o call).result = (o.state.look call).result.map
      (records (es.takeWhile (·.passes b)) ++ ·) := by
    simp only [Tape.lookOn, Outcome.bind, h.result]
  have state : (Tape.lookOn o call).state = (o.state.look call).state := by
    simp only [Tape.lookOn, Outcome.bind, h.result]
  refine ⟨?_, ?_, ?_, ?_⟩
  · rw [result, next.result, ← taken, records_append]
    rfl
  · rw [state, next.left, dropped]
  · rw [state, next.skipped, h.skipped, ← taken, List.countP_append, Nat.add_assoc]
  · rw [state, next.sound]

theorem Delivers.foldl_lookOn {looks : List Look} (h : Delivers b es skipped o) :
    Delivers ((looks.map Look.boundary).foldl max b) es skipped (looks.foldl Tape.lookOn o) := by
  induction looks generalizing b o with
  | nil => exact h
  | cons call looks ih => exact ih h.lookOn

theorem delivers_lookAll {looks : List Look} (sound : t.fault = none) (asked : looks ≠ []) :
    Delivers (farthest looks) t.left t.skipped (t.lookAll looks) := by
  cases looks with
  | nil => exact absurd rfl asked
  | cons call looks =>
    have first : Delivers (max 0 call.boundary) t.left t.skipped (Tape.lookOn (.ok [] t) call) := by
      have look : Delivers call.boundary _ _ _ := delivers_look sound
      rw [Nat.zero_max]
      refine ⟨?_, look.left, look.skipped, look.sound⟩
      change (t.look call).result.map ([] ++ ·) = _
      rw [look.result]
      rfl
    exact first.foldl_lookOn

/-- What was handed over and what is left are all records, in their order. -/
theorem records_lookAll (looks : List Look) (sound : t.fault = none) :
    (t.lookAll looks).state.fault = none
      ∧ ∃ delivered, (t.lookAll looks).result = .ok delivered
        ∧ delivered = (records t.left).takeWhile (fun r => decide (r.time < farthest looks))
        ∧ delivered ++ records (t.lookAll looks).state.left = records t.left := by
  by_cases asked : looks = []
  · subst asked
    refine ⟨sound, [], rfl, ?_, rfl⟩
    cases records t.left <;> simp [farthest]
  · have delivers := delivers_lookAll sound asked
    refine ⟨delivers.sound, _, delivers.result, records_takeWhile, ?_⟩
    rw [delivers.left, ← records_append, List.takeWhile_append_dropWhile]

/-- A tape that was asked for a time beyond all its records has come to its end. -/
theorem lookAll_beyond {looks : List Look} (sound : t.fault = none) (asked : looks ≠ [])
    (beyond : ∀ r ∈ records t.left, r.time < farthest looks) :
    (t.lookAll looks).result = .ok (records t.left)
      ∧ (t.lookAll looks).state.skipped = t.skipped + t.left.countP Entry.isFaulty
      ∧ (t.lookAll looks).state.isExhausted.result = .ok true := by
  obtain ⟨result, left, skipped, sound⟩ := delivers_lookAll sound asked
  have passed := passes_of_beyond beyond
  rw [List.takeWhile_eq_self_iff.mpr passed] at result skipped
  have nothing : records (t.lookAll looks).state.left = [] := by
    rw [left, List.dropWhile_eq_nil_iff.mpr passed]
    rfl
  obtain ⟨exhausted, looked, iff⟩ := isExhausted_result sound
  refine ⟨result, skipped, ?_⟩
  rw [looked, iff.mpr nothing]

/-- A sound tape is delivered exactly. Whatever it is asked and in whichever order its times
come, it hands over the longest run of its records that are before the latest time asked for.
Once it was asked anything, its count of lines that were skipped is of those that come before
the first record that waits, and it is exhausted when none does. -/
theorem lookAll_delivers (name : String) (data : List UInt8) (looks : List Look) :
    let entries : List (Entry α) := (splitLines data false).map Entry.ofBytes
    let o := (ofBytes name data none : Tape α).lookAll looks
    let delivered := (records entries).takeWhile fun r => decide (r.time < farthest looks)
    o.result = .ok delivered
      ∧ (looks ≠ [] → o.state.skipped
          = (linesBefore delivered.length entries).countP Entry.isFaulty)
      ∧ ∃ exhausted, o.state.isExhausted.result = .ok exhausted
        ∧ (exhausted = true ↔ delivered = records entries) := by
  intro entries o delivered
  have whole : (ofBytes name data none : Tape α).left = entries := rfl
  have here : (ofBytes name data none : Tape α).fault = none := rfl
  obtain ⟨sound, handed, result, eq, all⟩ := records_lookAll looks here
  rw [whole] at eq all
  obtain rfl : handed = delivered := eq
  refine ⟨result, fun asked => ?_, ?_⟩
  · have delivers := delivers_lookAll here asked
    refine delivers.skipped.trans ?_
    rw [whole, ← linesBefore_length, records_takeWhile]
    exact Nat.zero_add _
  · obtain ⟨exhausted, looked, iff⟩ := isExhausted_result sound
    refine ⟨exhausted, looked, iff.trans ?_⟩
    rw [← all]
    exact List.self_eq_append_right.symm

/-- Two prints are due, a malformed line is passed on the way to the third, and the fourth waits
behind it although its time has come. The bad bytes at the end are not reached. -/
theorem lookAll_delivers_outOfOrder :
    let data := "100 A 10 1\n# noon\n\n105 A 10 2\n110 A\n120 A 10 3\n110 A 10 4\n".toUTF8.toList
      ++ [255, 10]
    let looks : List Look := [.takeUntil 110, .isExhausted, .takeUntil 115]
    let o := (ofBytes "trades" data none : Tape Trade).lookAll looks
    looks ≠ []
      ∧ o.result = .ok [⟨100, ⟨"A", 10, 1⟩⟩, ⟨105, ⟨"A", 10, 2⟩⟩]
      ∧ o.state.skipped = 1
      ∧ o.state.isExhausted.result = .ok false := by
  intro data looks o
  obtain ⟨result, skipped, exhausted, looked, iff⟩ :=
    lookAll_delivers (α := Trade) "trades" data looks
  refine ⟨List.cons_ne_nil _ _, ?_, ?_, ?_⟩
  · refine result.trans (congrArg Except.ok ?_)
    decide +kernel
  · refine (skipped (List.cons_ne_nil _ _)).trans ?_
    decide +kernel
  · rw [looked]
    congr 1
    rw [Bool.eq_false_iff, Ne, iff]
    decide +kernel

end Tape

end TradingDesk
