-- SUMMARY: The records of a tick taken apart by what they are about.
import Mathlib.Data.List.Induction
import TradingDesk.Proofs.Account
import TradingDesk.Simulation.Basic

/-!
# Subjects

A quote record is about the index or about an instrument. Of the records about a subject the
last one of a sort counts, so what a book takes over from the records of a tick depends on the
records about each subject alone, in their order.
-/

namespace TradingDesk

/-! ## Records by their subjects -/

/-- The instrument that a record is about; the index is none. -/
def QuoteRecord.subject : QuoteRecord → Option String
  | .depth code .. => some code
  | .index _ => none
  | .warrant code _ => some code
  | .nav code _ => some code

def QuoteRecord.depth? : QuoteRecord → Option Depth
  | .depth _ avgPrice traded ladder => some ⟨avgPrice, traded, ladder⟩
  | _ => none

def QuoteRecord.detail? : QuoteRecord → Option Detail
  | .warrant _ terms => some (.warrant terms)
  | .nav _ deviation => some (.tracker deviation)
  | _ => none

/-- What a record says of a code apart from its market depth. -/
def QuoteRecord.detailOf (q : QuoteRecord) (code : String) : Option Detail :=
  if q.subject = some code then q.detail? else none

def QuoteRecord.index? : QuoteRecord → Option Binary64
  | .index value => some value
  | _ => none

/-- The records about one subject, in order. -/
def recordsOf (subject : Option String) (quotes : List (Timed QuoteRecord)) : List QuoteRecord :=
  (quotes.map (·.record)).filter fun q => q.subject == subject

/-- The market depth that the records show of a code, in order. -/
def depthsOf (code : String) (quotes : List (Timed QuoteRecord)) : List Depth :=
  (recordsOf (some code) quotes).filterMap QuoteRecord.depth?

/-- What the records say last about a code apart from its market depth. -/
def lastDetail (code : String) (quotes : List (Timed QuoteRecord)) : Option Detail :=
  ((recordsOf (some code) quotes).filterMap QuoteRecord.detail?).getLast?

def lastIndex (quotes : List (Timed QuoteRecord)) : Option Binary64 :=
  ((recordsOf none quotes).filterMap QuoteRecord.index?).getLast?

section Subjects

variable {code : String} {subject : Option String} {quotes : List (Timed QuoteRecord)}
  {q : Timed QuoteRecord}

theorem recordsOf_append : recordsOf subject (quotes ++ [q])
    = recordsOf subject quotes ++ if q.record.subject = subject then [q.record] else [] := by
  by_cases about : q.record.subject = subject <;> simp [recordsOf, about]

theorem lastDepth_eq : lastDepth code quotes = (depthsOf code quotes).getLast? := by
  simp only [lastDepth, depthsOf, recordsOf, List.filterMap_filter, List.filterMap_map,
    List.getLast?_filterMap]
  congr 1
  funext q
  obtain ⟨_, record⟩ := q
  cases record <;> simp [QuoteRecord.subject, QuoteRecord.depth?]

/-- What a record says of a code replaces what the earlier ones said. -/
theorem lastDetail_append : lastDetail code (quotes ++ [q])
    = (q.record.detailOf code).or (lastDetail code quotes) := by
  rw [lastDetail, recordsOf_append, QuoteRecord.detailOf]
  split
  · cases said : q.record.detail? <;> simp [said, lastDetail]
  · simp [lastDetail]

theorem lastIndex_append : lastIndex (quotes ++ [q])
    = q.record.index?.or (lastIndex quotes) := by
  rw [lastIndex, recordsOf_append]
  obtain ⟨_, record⟩ := q
  cases record <;> simp [QuoteRecord.subject, QuoteRecord.index?, lastIndex]

end Subjects

/-- The same records of a tick, with those about each subject in the same order. -/
structure Reordered (r r' : List (Timed QuoteRecord) × List (Timed Trade)) : Prop where
  quotes : ∀ subject, recordsOf subject r'.1 = recordsOf subject r.1
  trades : ∀ code, printsOf code r'.2 = printsOf code r.2

/-- Only the subjects of the records count. -/
theorem reordered_iff {r r' : List (Timed QuoteRecord) × List (Timed Trade)} : Reordered r r'
    ↔ (∀ subject ∈ (r.1 ++ r'.1).map (·.record.subject),
        recordsOf subject r'.1 = recordsOf subject r.1)
      ∧ ∀ code ∈ (r.2 ++ r'.2).map (·.record.code), printsOf code r'.2 = printsOf code r.2 := by
  refine ⟨fun h => ⟨fun subject _ => h.quotes subject, fun code _ => h.trades code⟩, fun h => ?_⟩
  refine ⟨fun subject => ?_, fun code => ?_⟩
  · by_cases mem : subject ∈ (r.1 ++ r'.1).map (·.record.subject)
    · exact h.1 subject mem
    · simp only [List.map_append, List.mem_append, List.mem_map, not_or, not_exists, not_and] at mem
      have none : ∀ qs : List (Timed QuoteRecord), (∀ q ∈ qs, q.record.subject ≠ subject) →
          recordsOf subject qs = [] := by
        intro qs other
        simpa [recordsOf] using other
      rw [none r.1 mem.1, none r'.1 mem.2]
  · by_cases mem : code ∈ (r.2 ++ r'.2).map (·.record.code)
    · exact h.2 code mem
    · simp only [List.map_append, List.mem_append, List.mem_map, not_or, not_exists, not_and] at mem
      have none : ∀ ts : List (Timed Trade), (∀ t ∈ ts, t.record.code ≠ code) →
          printsOf code ts = [] := by
        intro ts other
        simpa [printsOf] using other
      rw [none r.2 mem.1, none r'.2 mem.2]

instance (r r' : List (Timed QuoteRecord) × List (Timed Trade)) : Decidable (Reordered r r') :=
  decidable_of_iff _ reordered_iff.symm

/-- The instrument once records have said what they say of it apart from market depth. -/
def Instrument.informed (i : Instrument) (quotes : List (Timed QuoteRecord)) : Instrument :=
  { i with detail := (lastDetail i.code quotes).getD i.detail }

/-! ## What a book takes over -/

namespace Book

variable {b : Book} {code : String} {quotes : List (Timed QuoteRecord)}

theorem setDetail_eq (nodup : (b.instruments.map Instrument.code).Nodup) {detail : Detail} :
    b.setDetail code detail = { b with
      instruments := b.instruments.map fun i => if i.code = code then { i with detail } else i } := by
  simp only [setDetail]
  cases found : b.find? code with
  | none =>
    have untracked : ∀ i ∈ b.instruments, i.code ≠ code := by simpa [find?] using found
    have untouched : b.instruments = b.instruments.map fun i =>
        if i.code = code then { i with detail } else i :=
      (List.map_id' _).symm.trans (List.map_congr_left fun i hi => (if_neg (untracked i hi)).symm)
    exact congrArg (fun is => { b with instruments := is }) untouched
  | some i =>
    refine congrArg (fun is => { b with instruments := is }) (List.map_congr_left fun j hj => ?_)
    obtain rfl := code_of_find? found
    simp only [beq_iff_eq]
    split
    next same =>
      have foundHere : b.find? i.code = some j := (Keyed.find?_eq_some nodup).mpr ⟨hj, same⟩
      rw [Option.some.inj (found.symm.trans foundHere)]
    · rfl

/-- The book once a record has said what it says apart from market depth. -/
def told (b : Book) (q : QuoteRecord) : Book :=
  { b with
    index := q.index?.getD b.index
    instruments := b.instruments.map fun i =>
      { i with detail := (q.detailOf i.code).getD i.detail } }

theorem told_of_detail (nodup : (b.instruments.map Instrument.code).Nodup) {q : QuoteRecord}
    {detail : Detail} (subject : q.subject = some code) (said : q.detail? = some detail)
    (noIndex : q.index? = none) : b.setDetail code detail = b.told q := by
  rw [setDetail_eq nodup, told, noIndex]
  refine congrArg (fun is => { b with instruments := is }) (List.map_congr_left fun i _ => ?_)
  simp only [QuoteRecord.detailOf, subject, said, Option.some.injEq, eq_comm]
  split <;> rfl

theorem observe_eq (nodup : (b.instruments.map Instrument.code).Nodup) {q : Timed QuoteRecord} :
    b.observe q = b.told q.record := by
  obtain ⟨_, record⟩ := q
  cases record with
  | depth => simp [observe, told, QuoteRecord.index?, QuoteRecord.detailOf, QuoteRecord.detail?]
  | index => simp [observe, told, QuoteRecord.index?, QuoteRecord.detailOf, QuoteRecord.detail?]
  | warrant => exact told_of_detail nodup rfl rfl rfl
  | nav => exact told_of_detail nodup rfl rfl rfl

/-- The index is what the last record about it says, and so is the detail of an instrument. -/
theorem observeAll_eq (nodup : (b.instruments.map Instrument.code).Nodup) :
    quotes.foldl observe b = { b with
      index := (lastIndex quotes).getD b.index
      instruments := b.instruments.map (·.informed quotes) } := by
  induction quotes using List.reverseRecOn with
  | nil =>
    have untouched : b.instruments = b.instruments.map (·.informed []) := (List.map_id' _).symm
    exact congrArg (fun is => { b with instruments := is }) untouched
  | append_singleton quotes q ih =>
    have nodupThen : ((b.instruments.map (·.informed quotes)).map Instrument.code).Nodup := by
      rw [List.map_map]
      exact nodup
    rw [List.foldl_append, ih, List.foldl_cons, List.foldl_nil, observe_eq nodupThen]
    simp only [told, lastIndex_append, Option.getD_or, List.map_map]
    congr 2
    funext i
    simp only [Function.comp_apply, Instrument.informed, lastDetail_append, Option.getD_or]

end Book

end TradingDesk
