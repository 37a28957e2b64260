-- SUMMARY: Depth lines are read back as written, alone and from a tape with other lines between them.
import TradingDesk.Proofs.Delivery
import TradingDesk.Proofs.Streams

/-!
# Depth lines

A depth line has a field for its time, one for its code, and one for each of its amounts, and
the reader takes them off in that order. On a tape its first byte is a digit, so the line is
neither blank nor a comment, and what stands between two line feeds is handed to the reader as
it was written. Lines that hold nothing and malformed ones come to no record.
-/

namespace TradingDesk.Tape

/-! ## Fields -/

section Fields

variable {α : Type} {name : String} {read : List Char → Option α} {f : List Char}
  {fs : List (List Char)} {n : Nat}

theorem next_cons {a : α} (h : read f = some a) : next name read (f :: fs) = .ok (a, fs) := by
  simp only [next, entry, bind, Except.bind, h]

theorem next_amount {n : Int} (h : FitsWord n) :
    next name Text.readSigned ((toString n).toList :: fs) = .ok (n, fs) :=
  next_cons (Text.readSigned_toString h)

theorem vector_succ : vector name read (n + 1) fs = (vector name read n fs).bind fun v =>
    (next name read v.2).bind fun a => .ok (v.1.push a.1, a.2) := rfl

theorem vector_append {write : α → List Char} {v : Vector α n}
    (h : ∀ a ∈ v.toList, read (write a) = some a) :
    vector name read n (v.toList.map write ++ fs) = .ok (v, fs) := by
  induction n generalizing fs with
  | zero =>
    obtain rfl : v = #v[] := Vector.eq_empty
    rfl
  | succ n ih =>
    obtain ⟨w, a, rfl⟩ := v.exists_push
    rw [Vector.toList_push] at h ⊢
    obtain ⟨before, last⟩ := List.forall_mem_append.mp h
    rw [vector_succ, List.map_append, List.append_assoc, ih before]
    simp only [Except.bind, List.map_cons, List.map_nil, List.cons_append, List.nil_append,
      next_cons (last a (List.mem_singleton_self a))]

/-- A tag that is no letter of its own is a code. -/
theorem readTagged_code {code : String} (noTag : code ∉ ["k", "e", "n"]) :
    readTagged code.toList = readDepth code := by
  have other : ∀ c : Char, String.singleton c ∈ ["k", "e", "n"] → code.toList ≠ [c] := by
    intro c tag same
    have spelled : code = String.singleton c := by
      rw [← String.toList_inj, same, String.toList_singleton]
    exact noTag (spelled ▸ tag)
  rw [readTagged, String.ofList_toList]
  · exact other 'k' (by decide)
  · exact other 'e' (by decide)
  · exact other 'n' (by decide)

end Fields

/-! ## Lines -/

/-- A depth record that a line can tell: each number fits its word, and the code is a field of
its own that is no tag. -/
structure DepthEntry where
  time : Nat
  code : String
  avgPrice : Int
  traded : Int
  ladder : Ladder
  time_le : time ≤ Text.maxWord
  isField_code : Text.IsField code.toList
  noTag : code ∉ ["k", "e", "n"]
  fits_avgPrice : FitsWord avgPrice
  fits_traded : FitsWord traded
  fits_levels : ∀ l ∈ ladder.levels.toList, FitsWord l.price ∧ FitsWord l.qty

namespace DepthEntry

variable (d : DepthEntry)

/-- What the line of the record is read as. -/
def quote : Timed QuoteRecord := ⟨d.time, .depth d.code d.avgPrice d.traded d.ladder⟩

def line : String := depthLine d.time d.code d.avgPrice d.traded d.ladder

/-- The fields that follow the code. -/
def amounts : List (List Char) :=
  (toString d.avgPrice).toList :: (toString d.traded).toList
    :: ((d.ladder.levels.map Level.price).toList.map (fun n => (toString n).toList)
      ++ ((d.ladder.levels.map Level.qty).toList.map (fun n => (toString n).toList) ++ []))

def fields : List (List Char) := (toString d.time).toList :: d.code.toList :: d.amounts

theorem toList_line : d.line.toList = Text.join d.fields := by
  rw [line, depthLine, String.toList_intercalate, Text.join]
  congr 1
  simp [fields, amounts, Vector.toList_map, Function.comp_def]

theorem isLine_fields : Text.IsLine d.fields where
  nonempty := List.cons_ne_nil _ _
  fields := by
    simp only [fields, amounts, List.append_nil, List.forall_mem_cons, List.forall_mem_append,
      List.forall_mem_map]
    exact ⟨Text.isField_toString d.time, d.isField_code, Text.isField_toString _,
      Text.isField_toString _, fun _ _ => Text.isField_toString _,
      fun _ _ => Text.isField_toString _⟩

theorem readDepth_amounts : readDepth d.code d.amounts = .ok (d.quote.record, []) := by
  have prices := StateBlock.readSigned_map (f := Level.price) fun l hl => (d.fits_levels l hl).1
  have qtys := StateBlock.readSigned_map (f := Level.qty) fun l hl => (d.fits_levels l hl).2
  simp only [readDepth, amounts, bind, Except.bind, next_amount d.fits_avgPrice,
    next_amount d.fits_traded, vector_append prices, vector_append qtys,
    StateBlock.zipWith_levels, quote]

theorem readQuoteLine_join : readQuoteLine (Text.join d.fields) = .ok d.quote := by
  have time : Tape.time d.fields = .ok (d.time, d.code.toList :: d.amounts) :=
    next_cons (Text.readCount_toString d.time_le)
  simp only [readQuoteLine, Text.words_join d.isLine_fields.fields, time, entry, bind, Except.bind,
    readTagged_code d.noTag, readDepth_amounts, finish]
  rfl

/-- A depth line begins like no comment. -/
theorem head?_join : (Text.join d.fields).head? ≠ some '#' := by
  obtain ⟨c, ds, digits, -⟩ := @Text.exists_digit d.time
  have digit : c.isDigit = true := Text.isDigit_of_mem_toDigits (digits ▸ List.mem_cons_self)
  have first : (Text.join d.fields).head? = some c := by
    rw [fields, Text.toList_toString, digits, amounts, Text.join_cons]
    rfl
  rw [first]
  exact fun comment => Text.ne_of_isDigit digit rfl (Option.some.inj comment)

end DepthEntry

/-! ## Lines of a tape -/

/-- Whether a line of a tape is blank or a comment. -/
def IsIdle (bytes : List UInt8) : Prop :=
  ∃ s, decode bytes = some s ∧ (Text.trim s.toList = [] ∨ (Text.trim s.toList).head? = some '#')

/-- Whether a line of a quote tape is no text, or text that is neither blank nor a comment nor
a line of a record. -/
def IsMalformed (bytes : List UInt8) : Prop :=
  ∀ s, decode bytes = some s →
    Text.trim s.toList ≠ [] ∧ (Text.trim s.toList).head? ≠ some '#'
      ∧ ∃ e, readQuoteLine (Text.trim s.toList) = .error e

/-- A line of a tape that has no records but of market depth. -/
inductive QuoteLine where
  | depth (d : DepthEntry)
  | idle (bytes : List UInt8) (noFeed : 10 ∉ bytes) (idle : IsIdle bytes)
  | malformed (bytes : List UInt8) (noFeed : 10 ∉ bytes) (malformed : IsMalformed bytes)

namespace QuoteLine

def bytes : QuoteLine → List UInt8
  | depth d => Wire.encode d.line
  | idle bytes _ _ => bytes
  | malformed bytes _ _ => bytes

/-- What a tape makes of the line. -/
def entry (line : QuoteLine) : Entry QuoteRecord := .ofBytes line.bytes

def quote? : QuoteLine → Option (Timed QuoteRecord)
  | depth d => some d.quote
  | _ => none

def isMalformed : QuoteLine → Bool
  | malformed .. => true
  | _ => false

/-- Some lines with a line feed between them. -/
def join (lines : List QuoteLine) : List UInt8 := [10].intercalate (lines.map bytes)

/-- The tape of some lines. -/
def tape (name : String) (lines : List QuoteLine) : Tape QuoteRecord := .ofBytes name (join lines) none

end QuoteLine

section Entries

variable {α : Type} [TapeRecord α] {bytes : List UInt8} {s : String}

/-- Text that is neither blank nor a comment is left to the reader. -/
theorem ofBytes_text (text : decode bytes = some s) (notBlank : Text.trim s.toList ≠ [])
    (noComment : (Text.trim s.toList).head? ≠ some '#') :
    (Entry.ofBytes bytes : Entry α) = match TapeRecord.readLine (Text.trim s.toList) with
      | .ok r => .record r
      | .error e => .malformed e := by
  simp only [Entry.ofBytes, text]
  split
  next blank => exact absurd blank notBlank
  next comment => exact absurd (congrArg List.head? comment) noComment
  next => rfl

theorem ofBytes_depth (d : DepthEntry) : Entry.ofBytes (Wire.encode d.line) = .record d.quote := by
  have text : decode (Wire.encode d.line) = some d.line := Wire.fromUTF8_encode
  have trimmed : Text.trim d.line.toList = Text.join d.fields := by
    rw [d.toList_line, d.isLine_fields.trim]
  have read : TapeRecord.readLine (Text.join d.fields) = .ok d.quote := d.readQuoteLine_join
  rw [ofBytes_text text (trimmed ▸ d.isLine_fields.join_ne_nil) (trimmed ▸ d.head?_join), trimmed,
    read]

theorem ofBytes_idle (idle : IsIdle bytes) : (Entry.ofBytes bytes : Entry α) = .nothing := by
  obtain ⟨s, text, blank | comment⟩ := idle
  · simp only [Entry.ofBytes, text, blank]
  · obtain ⟨rest, comment⟩ := List.head?_eq_some_iff.mp comment
    simp only [Entry.ofBytes, text, comment]

theorem ofBytes_malformed (malformed : IsMalformed bytes) :
    (Entry.ofBytes bytes : Entry QuoteRecord) = .notText
      ∨ ∃ e, (Entry.ofBytes bytes : Entry QuoteRecord) = .malformed e := by
  cases text : decode bytes with
  | none => exact .inl (by simp only [Entry.ofBytes, text])
  | some s =>
    obtain ⟨notBlank, noComment, e, unread⟩ := malformed s text
    have unread : (TapeRecord.readLine _ : Except Error (Timed QuoteRecord)) = .error e := unread
    exact .inr ⟨e, by rw [ofBytes_text text notBlank noComment, unread]⟩

end Entries

namespace QuoteLine

variable {line : QuoteLine}

theorem told_entry : line.entry.record? = line.quote? ∧ line.entry.isFaulty = line.isMalformed := by
  cases line with
  | depth d =>
    rw [entry, bytes, ofBytes_depth]
    exact ⟨rfl, rfl⟩
  | idle _ _ idle =>
    rw [entry, bytes, ofBytes_idle idle]
    exact ⟨rfl, rfl⟩
  | malformed _ _ malformed =>
    rcases ofBytes_malformed malformed with eq | ⟨e, eq⟩
    all_goals
      rw [entry, bytes, eq]
      exact ⟨rfl, rfl⟩

theorem feed_notMem_bytes : 10 ∉ line.bytes := by
  cases line with
  | depth d =>
    apply Wire.feed_notMem_encode
    intro feed
    rw [d.toList_line] at feed
    exact absurd (d.isLine_fields.noFeed _ feed) (by decide)
  | idle _ noFeed _ => exact noFeed
  | malformed _ noFeed _ => exact noFeed

end QuoteLine

/-! ## Tapes -/

/-- Lines with a line feed between them are the lines of their tape, but for an empty one at the
end, which a tape has none of. -/
theorem splitLines_intercalate {ls : List (List UInt8)} (noFeed : ∀ l ∈ ls, 10 ∉ l) :
    ∃ rest, ls = splitLines ([10].intercalate ls) false ++ rest ∧ ∀ l ∈ rest, l = [] := by
  by_cases empty : ls = []
  · subst empty
    exact ⟨[], rfl, by simp⟩
  · have cut : Text.pieces (· == 10) ([10].intercalate ls) = ls := by
      refine Text.pieces_intercalate rfl (fun l hl b hb => ?_) empty
      rw [beq_eq_false_iff_ne]
      rintro rfl
      exact noFeed l hl hb
    simp only [splitLines, cut, Bool.false_eq_true, if_false]
    split
    next last =>
      refine ⟨[[]], ?_, by simp⟩
      obtain ⟨before, rfl⟩ := List.getLast?_eq_some_iff.mp last
      rw [List.dropLast_concat]
    next => exact ⟨[], (List.append_nil ls).symm, by simp⟩

namespace QuoteLine

variable {name : String} {lines : List QuoteLine}

/-- A tape has the lines that it was joined from, but perhaps for an empty one at the end. -/
theorem left_tape : ∃ n, lines.map entry = (tape name lines).left ++ List.replicate n .nothing := by
  have noFeed : ∀ l ∈ lines.map bytes, 10 ∉ l := by
    simp only [List.forall_mem_map]
    exact fun line _ => line.feed_notMem_bytes
  obtain ⟨rest, eq, empty⟩ := splitLines_intercalate noFeed
  have left : (tape name lines).left = (splitLines (join lines) false).map Entry.ofBytes := rfl
  have nothing : (Entry.ofBytes [] : Entry QuoteRecord) = .nothing :=
    ofBytes_idle ⟨"", by decide, .inl rfl⟩
  have blank : rest.map (Entry.ofBytes : List UInt8 → Entry QuoteRecord)
      = List.replicate rest.length .nothing := by
    refine List.eq_replicate_iff.mpr ⟨List.length_map _, ?_⟩
    rw [List.forall_mem_map]
    exact fun l hl => empty l hl ▸ nothing
  refine ⟨rest.length, ?_⟩
  rw [left, ← blank, join, ← List.map_append, ← eq, List.map_map]
  rfl

theorem records_left_tape : records (tape name lines).left = lines.filterMap quote? := by
  obtain ⟨n, whole⟩ := @left_tape name lines
  calc records (tape name lines).left
      = records ((tape name lines).left ++ List.replicate n .nothing) := by
        rw [records_append, records, records, List.filterMap_replicate_of_none rfl,
          List.append_nil]
    _ = lines.filterMap (Entry.record? ∘ entry) := by
        rw [← whole, records, List.filterMap_map]
    _ = lines.filterMap quote? := List.filterMap_congr fun line _ => line.told_entry.1

theorem faults_left_tape :
    (tape name lines).left.countP Entry.isFaulty = lines.countP isMalformed := by
  obtain ⟨n, whole⟩ := @left_tape name lines
  calc (tape name lines).left.countP Entry.isFaulty
      = ((tape name lines).left ++ List.replicate n Entry.nothing).countP Entry.isFaulty := by
        rw [List.countP_append, List.countP_replicate]
        rfl
    _ = lines.countP (Entry.isFaulty ∘ entry) := by
        rw [← whole, List.countP_map]
    _ = lines.countP isMalformed :=
        List.countP_congr fun line _ => by rw [Function.comp_apply, line.told_entry.2]

end QuoteLine

end TradingDesk.Tape
