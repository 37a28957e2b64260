-- SUMMARY: Lines of fields: taking apart what was put together, and integers read back as written.
import Mathlib.Data.List.Basic
import TradingDesk.StateBlock.Render
import TradingDesk.Text.Fields
import TradingDesk.Text.Integer

/-!
# Fields

A field is text without blanks that is not empty. Fields with a space between them are
the fields of their line, and lines of fields with a line feed after each are the lines of
their text. An integer is written as a field, and it is read back if it fits its word.
-/

namespace TradingDesk.Text

variable {α : Type} {p : α → Bool} {a : α} {w as : List α} {s : List Char}
  {fields : List (List Char)} {n limit : Nat}

/-! ## Cutting -/

theorem pieces_of_none (none : ∀ a ∈ w, p a = false) : pieces p w = [w] := by
  induction w with
  | nil => rfl
  | cons a w ih =>
    obtain ⟨here, later⟩ := List.forall_mem_cons.mp none
    simp [pieces, here, ih later]

/-- The first piece ends where the first separator stands. -/
theorem pieces_append (none : ∀ a ∈ w, p a = false) (sep : p a = true) :
    pieces p (w ++ a :: as) = w :: pieces p as := by
  induction w with
  | nil => simp [pieces, sep]
  | cons b w ih =>
    obtain ⟨here, later⟩ := List.forall_mem_cons.mp none
    simp [pieces, here, ih later]

/-- Pieces without a separator, put together with one between them, are cut apart again. -/
theorem pieces_intercalate {ws : List (List α)} (sep : p a = true)
    (none : ∀ w ∈ ws, ∀ b ∈ w, p b = false) (nonempty : ws ≠ []) :
    pieces p ([a].intercalate ws) = ws := by
  induction ws with
  | nil => exact absurd rfl nonempty
  | cons w ws ih =>
    obtain ⟨here, later⟩ := List.forall_mem_cons.mp none
    cases ws with
    | nil => simpa [List.intercalate] using pieces_of_none here
    | cons v ws =>
      have first : [a].intercalate (w :: v :: ws) = w ++ a :: [a].intercalate (v :: ws) := by
        simp [List.intercalate]
      rw [first, pieces_append here sep, ih later (List.cons_ne_nil v ws)]

/-- A piece of text that stands by itself between blanks. -/
structure IsField (s : List Char) : Prop where
  nonempty : s ≠ []
  solid : ∀ c ∈ s, isBlank c = false

theorem isField_iff : IsField s ↔ (!s.isEmpty && s.all fun c => !isBlank c) = true := by
  simp only [Bool.and_eq_true, Bool.not_eq_true', List.isEmpty_eq_false_iff, List.all_eq_true]
  exact ⟨fun h => ⟨h.nonempty, h.solid⟩, fun h => ⟨h.1, h.2⟩⟩

instance (s : List Char) : Decidable (IsField s) := decidable_of_iff' _ isField_iff

/-- Some fields with a space between them. -/
def join (fields : List (List Char)) : List Char := [' '].intercalate fields

theorem join_cons {f g : List Char} : join (f :: g :: fields) = f ++ ' ' :: join (g :: fields) := by
  simp [join, List.intercalate]

theorem words_join (h : ∀ f ∈ fields, IsField f) : words (join fields) = fields := by
  cases fields with
  | nil => rfl
  | cons f fields =>
    have cut : pieces isBlank (join (f :: fields)) = f :: fields :=
      pieces_intercalate rfl (fun g hg => (h g hg).solid) (List.cons_ne_nil f fields)
    rw [words, cut, List.filter_eq_self]
    intro g hg
    simpa using (h g hg).nonempty

/-! ## Lines -/

theorem dropWhile_solid (head : ∀ c ∈ s.head?, isBlank c = false) : s.dropWhile isBlank = s := by
  cases s with
  | nil => rfl
  | cons c s => simp [List.dropWhile, head c rfl]

theorem trim_eq (head : ∀ c ∈ s.head?, isBlank c = false)
    (last : ∀ c ∈ s.getLast?, isBlank c = false) : trim s = s := by
  rw [trim, dropWhile_solid head, dropWhile_solid (by rwa [List.head?_reverse]),
    List.reverse_reverse]

/-- A line of fields. -/
structure IsLine (fields : List (List Char)) : Prop where
  nonempty : fields ≠ []
  fields : ∀ f ∈ fields, IsField f

theorem IsLine.tail {f g : List Char} (h : IsLine (f :: g :: fields)) : IsLine (g :: fields) :=
  ⟨List.cons_ne_nil g fields, (List.forall_mem_cons.mp h.fields).2⟩

/-- The line begins with a character of its first field. -/
theorem IsLine.head? (h : IsLine fields) :
    ∃ c, (join fields).head? = some c ∧ isBlank c = false := by
  cases fields with
  | nil => exact absurd rfl h.nonempty
  | cons f fields =>
    have here := h.fields f List.mem_cons_self
    cases f with
    | nil => exact absurd rfl here.nonempty
    | cons c f =>
      refine ⟨c, ?_, here.solid c List.mem_cons_self⟩
      cases fields <;> simp [join, List.intercalate]

theorem IsLine.join_ne_nil (h : IsLine fields) : join fields ≠ [] := by
  obtain ⟨c, first, -⟩ := h.head?
  rintro empty
  rw [empty] at first
  cases first

/-- The line ends with a character of its last field. -/
theorem IsLine.getLast? (h : IsLine fields) :
    ∃ c, (join fields).getLast? = some c ∧ isBlank c = false := by
  induction fields with
  | nil => exact absurd rfl h.nonempty
  | cons f fields ih =>
    cases fields with
    | nil =>
      have here := h.fields f List.mem_cons_self
      have whole : join [f] = f := by
        simp [join, List.intercalate]
      rw [whole, List.getLast?_eq_some_getLast here.nonempty]
      exact ⟨_, rfl, here.solid _ (List.getLast_mem here.nonempty)⟩
    | cons g fields =>
      obtain ⟨c, last, solid⟩ := ih h.tail
      refine ⟨c, ?_, solid⟩
      rw [join_cons, List.getLast?_append_of_ne_nil _ (List.cons_ne_nil _ _),
        List.getLast?_cons_of_ne_nil h.tail.join_ne_nil, last]

theorem IsLine.trim (h : IsLine fields) : trim (join fields) = join fields := by
  obtain ⟨c, first, solid⟩ := h.head?
  obtain ⟨d, last, solid'⟩ := h.getLast?
  apply trim_eq
  · rw [first]
    rintro _ ⟨⟩
    exact solid
  · rw [last]
    rintro _ ⟨⟩
    exact solid'

/-- The line is shown without the line feed at its end. -/
theorem IsLine.trim_feed (h : IsLine fields) : Text.trim (join fields ++ ['\n']) = join fields := by
  obtain ⟨c, first, solid⟩ := h.head?
  have head : ∀ d ∈ (join fields ++ ['\n']).head?, isBlank d = false := by
    rw [List.head?_append, first]
    rintro _ ⟨⟩
    exact solid
  obtain ⟨d, last, solid'⟩ := h.getLast?
  have tail : ∀ c ∈ (join fields).reverse.head?, isBlank c = false := by
    rw [List.head?_reverse, last]
    rintro _ ⟨⟩
    exact solid'
  rw [Text.trim, dropWhile_solid head, List.reverse_append, List.reverse_singleton,
    List.singleton_append, List.dropWhile_cons_of_pos rfl, dropWhile_solid tail,
    List.reverse_reverse]

/-- No field holds a line feed, and neither does the line. -/
theorem IsLine.noFeed (h : IsLine fields) : ∀ c ∈ join fields, (c == '\n') = false := by
  induction fields with
  | nil => exact absurd rfl h.nonempty
  | cons f fields ih =>
    have here : ∀ c ∈ f, (c == '\n') = false := by
      intro c hc
      have solid := (h.fields f List.mem_cons_self).solid c hc
      rw [beq_eq_false_iff_ne]
      rintro rfl
      exact absurd solid (by decide)
    cases fields with
    | nil => simpa [join, List.intercalate] using here
    | cons g fields =>
      rw [join_cons]
      intro c hc
      rcases List.mem_append.mp hc with hc | hc
      · exact here c hc
      · rcases List.mem_cons.mp hc with rfl | hc
        · rfl
        · exact ih h.tail c hc

/-- Lines with a line feed after each are the lines of their text. -/
theorem lines_unlines {rows : List (List (List Char))} (h : ∀ fields ∈ rows, IsLine fields) :
    lines (rows.flatMap fun fields => join fields ++ ['\n']) = rows.map join := by
  induction rows with
  | nil => rfl
  | cons fields rows ih =>
    obtain ⟨here, later⟩ := List.forall_mem_cons.mp h
    have first : (!(join fields).isEmpty) = true := by
      simpa using here.join_ne_nil
    have rest := ih later
    rw [lines] at rest ⊢
    rw [List.flatMap_cons, List.append_assoc, List.singleton_append,
      pieces_append here.noFeed rfl, List.map_cons, here.trim, List.filter_cons, if_pos first, rest,
      List.map_cons]

/-! ## Integers -/

theorem toNat_of_isDigit {c : Char} (h : c.isDigit = true) : 48 ≤ c.toNat ∧ c.toNat ≤ 57 := by
  simp only [Char.isDigit, Bool.and_eq_true, decide_eq_true_eq, ge_iff_le, UInt32.le_iff_toNat_le]
    at h
  exact h

theorem isBlank_of_isDigit {c : Char} (h : c.isDigit = true) : isBlank c = false := by
  have := toNat_of_isDigit h
  simp only [isBlank, Bool.or_eq_false_iff, Bool.and_eq_false_iff, decide_eq_false_iff_not,
    beq_eq_false_iff_ne]
  omega

theorem ne_of_isDigit {c d : Char} (h : c.isDigit = true) (other : d.isDigit = false) : c ≠ d := by
  rintro rfl
  rw [h] at other
  cases other

theorem isDigit_of_mem_toDigits {c : Char} (h : c ∈ Nat.toDigits 10 n) : c.isDigit = true :=
  Nat.isDigit_of_mem_toDigits (by decide) (by decide) h

theorem isField_toDigits : IsField (Nat.toDigits 10 n) where
  nonempty := Nat.toDigits_ne_nil
  solid := fun _ hc => isBlank_of_isDigit (isDigit_of_mem_toDigits hc)

theorem readDigits_toDigits : readDigits (Nat.toDigits 10 n) = some n := by
  have some : (!(Nat.toDigits 10 n).isEmpty && (Nat.toDigits 10 n).all Char.isDigit) = true := by
    simp only [Bool.and_eq_true, Bool.not_eq_true', List.isEmpty_eq_false_iff, List.all_eq_true]
    exact ⟨Nat.toDigits_ne_nil, fun _ => isDigit_of_mem_toDigits⟩
  rw [readDigits, if_pos some]
  exact congrArg _ Nat.ofDigitChars_ten_toDigits

theorem toList_toString : (toString n).toList = Nat.toDigits 10 n := by
  rw [Nat.toString_eq_ofList_toDigits, String.toList_ofList]

/-- Digits begin with no sign. -/
theorem exists_digit : ∃ c ds, Nat.toDigits 10 n = c :: ds ∧ c ≠ '+' ∧ c ≠ '-' := by
  obtain ⟨c, ds, digits⟩ := List.exists_cons_of_ne_nil (@Nat.toDigits_ne_nil n 10)
  have digit : c.isDigit = true := isDigit_of_mem_toDigits (digits ▸ List.mem_cons_self)
  exact ⟨c, ds, digits, ne_of_isDigit digit rfl, ne_of_isDigit digit rfl⟩

theorem readCount_toString (h : n ≤ limit) : readCount limit (toString n).toList = some n := by
  obtain ⟨c, ds, digits, plus, -⟩ := @exists_digit n
  have read : readDigits (c :: ds) = some n := digits ▸ readDigits_toDigits
  rw [toList_toString, digits, readCount]
  · simp [read, h]
  · exact fun r eq => plus (List.cons.inj eq).1

theorem toList_toString_negSucc :
    (toString (Int.negSucc n)).toList = '-' :: Nat.toDigits 10 (n + 1) := by
  change ("-" ++ toString (n + 1)).toList = _
  rw [String.toList_append, toList_toString]
  rfl

theorem isField_toString (n : Int) : IsField (toString n).toList := by
  cases n with
  | ofNat n =>
    change IsField (toString n).toList
    rw [toList_toString]
    exact isField_toDigits
  | negSucc n =>
    rw [toList_toString_negSucc]
    exact ⟨List.cons_ne_nil _ _, List.forall_mem_cons.mpr ⟨rfl, isField_toDigits.solid⟩⟩

/-- A signed amount that fits its word is read back. -/
theorem readSigned_toString {n : Int} (h : minSigned ≤ n ∧ n ≤ maxSigned) :
    readSigned (toString n).toList = some n := by
  cases n with
  | ofNat n =>
    obtain ⟨c, ds, digits, plus, minus⟩ := @exists_digit n
    have read : readDigits (c :: ds) = some n := digits ▸ readDigits_toDigits
    change readSigned (toString n).toList = _
    rw [toList_toString, digits, readSigned]
    · rw [read]
      exact Option.filter_some_pos (decide_eq_true h)
    · exact fun r eq => plus (List.cons.inj eq).1
    · exact fun r eq => minus (List.cons.inj eq).1
  | negSucc n =>
    rw [toList_toString_negSucc, readSigned]
    have value : -Int.ofNat (n + 1) = Int.negSucc n := rfl
    simp only [readDigits_toDigits, Option.map_some, value]
    exact Option.filter_some_pos (decide_eq_true h)

end TradingDesk.Text
