-- SUMMARY: Messages and state blocks sent one after another are received one by one.
import TradingDesk.Proofs.Mirrors
import TradingDesk.Proofs.Requests
import TradingDesk.Wire.Framing

/-!
# Streams

The byte of a line feed stands for nothing else, so the lines of a text are the lines of its
bytes. No line of a request looks blank and none inside a block looks like its end, hence a
message or a block ends where it was written to end, whatever follows it on the stream. What
was sent one after another is received as it was sent.
-/

namespace TradingDesk.Wire

variable {s : Stream} {text before line : String} {lines : List String} {c : Char}
  {b : Book} {rs : List Request}

/-! ## Bytes -/

/-- A text as it is sent. -/
def encode (text : String) : Stream := text.toUTF8.data.toList

theorem encode_eq_flatMap : encode text = text.toList.flatMap String.utf8EncodeChar := by
  rw [encode, String.toUTF8, ← String.utf8Encode_toList, List.utf8Encode]
  simp

theorem encode_append {t : String} : encode (text ++ t) = encode text ++ encode t := by
  simp only [encode_eq_flatMap, String.toList_append, List.flatMap_append]

theorem fromUTF8_encode : String.fromUTF8? ⟨(encode text).toArray⟩ = some text := by
  have valid : text.toUTF8.IsValidUTF8 := text.isValidUTF8
  have same : (⟨(encode text).toArray⟩ : ByteArray) = text.toUTF8 := by
    rw [encode, Array.toArray_toList]
  rw [same, String.fromUTF8?, dif_pos valid]
  rfl

theorem decode_encode : decode (encode text) = .ok text := by
  rw [decode, fromUTF8_encode]

/-- The byte of a line feed stands for a line feed. -/
theorem eq_feed_of_mem (h : 10 ∈ String.utf8EncodeChar c) : c = '\n' := by
  have byte : ∀ n : Nat, 10 = UInt8.ofNat n ↔ n % 256 = 10 := by
    intro n
    rw [← UInt8.toNat_inj]
    simp [eq_comm]
  have feed : c.val.toNat = 10 := by
    unfold String.utf8EncodeChar at h
    simp only at h
    split_ifs at h
    -- A byte of a character that takes several is 128 at least.
    all_goals
      simp only [List.mem_cons, List.not_mem_nil, or_false, byte] at h
      omega
  exact Char.ext (UInt32.toNat_inj.mp feed)

theorem feed_notMem_encode (noFeed : '\n' ∉ line.toList) : 10 ∉ encode line := by
  intro feed
  rw [encode_eq_flatMap] at feed
  obtain ⟨c, hc, h⟩ := List.mem_flatMap.mp feed
  exact noFeed (eq_feed_of_mem h ▸ hc)

/-! ## Lines -/

theorem takeLine_append_feed {l : Stream} (noFeed : 10 ∉ l) :
    takeLine (l ++ 10 :: s) = (l ++ [10], s) := by
  induction l with
  | nil => rfl
  | cons b l ih =>
    rw [List.mem_cons, not_or] at noFeed
    have other : ¬(b == 10) = true := fun same => noFeed.1 (eq_of_beq same).symm
    rw [List.cons_append, takeLine, if_neg other, ih noFeed.2]
    rfl

theorem encode_empty : encode "" = [] := by
  rw [encode_eq_flatMap]
  rfl

theorem encode_feed : encode "\n" = [10] := by
  rw [encode_eq_flatMap]
  rfl

/-- A line is taken off the stream as it was written. -/
theorem takeLine_encode (noFeed : '\n' ∉ line.toList) :
    takeLine (encode (line ++ "\n") ++ s) = (encode (line ++ "\n"), s) := by
  rw [encode_append, encode_feed, List.append_assoc]
  exact takeLine_append_feed (feed_notMem_encode noFeed)

/-- A line as it is shown: not empty, and without blanks at its ends. -/
structure Shown (line : String) : Prop where
  nonempty : line.toList ≠ []
  noFeed : '\n' ∉ line.toList
  trim : Text.trim (line ++ "\n").toList = line.toList

theorem shown_of_isLine {fields : List (List Char)} (h : Text.IsLine fields)
    (spelled : line.toList = Text.join fields) : Shown line where
  nonempty := spelled ▸ h.join_ne_nil
  noFeed := by
    intro feed
    rw [spelled] at feed
    exact absurd (h.noFeed _ feed) (by decide)
  trim := by
    rw [String.toList_append, spelled]
    exact h.trim_feed

theorem unlines_cons :
    StateBlock.unlines (line :: lines) = (line ++ "\n") ++ StateBlock.unlines lines := by
  rw [StateBlock.unlines, List.map_cons, String.join_cons]
  rfl

theorem unlines_append {lines' : List String} :
    StateBlock.unlines (lines ++ lines')
      = StateBlock.unlines lines ++ StateBlock.unlines lines' := by
  rw [StateBlock.unlines, List.map_append, String.join_append]
  rfl

/-! ## Messages -/

theorem readMessageFrom_line (noFeed : '\n' ∉ line.toList) :
    readMessageFrom before (encode (line ++ "\n") ++ s)
      = if (Text.trim (line ++ "\n").toList).isEmpty then ⟨.ok (some before), s⟩
        else readMessageFrom (before ++ (line ++ "\n")) s := by
  have some : encode (line ++ "\n") ++ s ≠ [] := by
    simp [encode_append, encode_feed]
  rw [readMessageFrom, dif_neg some]
  simp only [takeLine_encode noFeed, decode_encode]

/-- Lines that do not look blank belong to the message. -/
theorem readMessageFrom_unlines (shown : ∀ line ∈ lines, Shown line) :
    readMessageFrom before (encode (StateBlock.unlines lines) ++ s)
      = readMessageFrom (before ++ StateBlock.unlines lines) s := by
  induction lines generalizing before with
  | nil => rw [StateBlock.unlines, List.map_nil, String.join_nil, encode_empty, List.nil_append,
      String.append_empty]
  | cons line lines ih =>
    obtain ⟨here, later⟩ := List.forall_mem_cons.mp shown
    have goesOn : ¬(Text.trim (line ++ "\n").toList).isEmpty = true := by
      rw [here.trim, List.isEmpty_iff]
      exact here.nonempty
    rw [unlines_cons, encode_append, List.append_assoc, readMessageFrom_line here.noFeed,
      if_neg goesOn, ih later, String.append_assoc]

/-- A message ends with its blank line, whatever follows. -/
theorem readMessage_render (sayable : ∀ r ∈ rs, r.Sayable) :
    readMessage (encode (Message.render rs) ++ s)
      = ⟨.ok (some (StateBlock.unlines (rs.map Request.render))), s⟩ := by
  have shown : ∀ line ∈ rs.map Request.render, Shown line := by
    intro line hline
    obtain ⟨r, hr, rfl⟩ := List.mem_map.mp hline
    exact shown_of_isLine (sayable r hr).isLine Request.toList_render
  have text : Message.render rs = StateBlock.unlines (rs.map Request.render) ++ ("" ++ "\n") := by
    rw [Message.render, StateBlock.unlines, List.map_map]
    rfl
  rw [text, encode_append, List.append_assoc, readMessage, readMessageFrom_unlines shown,
    readMessageFrom_line List.not_mem_nil, if_pos (by decide), String.empty_append]

/-! ## Blocks -/

theorem isEmpty_append {t : String} (begun : before.isEmpty = false) :
    (before ++ t).isEmpty = false := by
  rw [Bool.eq_false_iff, Ne, String.isEmpty_iff] at begun ⊢
  exact fun none => begun (String.append_eq_empty_iff.mp none).1

theorem readBlockFrom_line (noFeed : '\n' ∉ line.toList) :
    readBlockFrom before (encode (line ++ "\n") ++ s)
      = if before.isEmpty && Text.trim (line ++ "\n").toList != StateBlock.opening.toList then
          ⟨.error (.protocol (.expectedOpening (Text.trim (line ++ "\n").toList))), s⟩
        else if Text.trim (line ++ "\n").toList == StateBlock.closing.toList then
          ⟨.ok (some (before ++ (line ++ "\n"))), s⟩
        else readBlockFrom (before ++ (line ++ "\n")) s := by
  have some : encode (line ++ "\n") ++ s ≠ [] := by
    simp [encode_append, encode_feed]
  rw [readBlockFrom, dif_neg some]
  simp only [takeLine_encode noFeed, decode_encode]

/-- Lines that do not look like the end of a block belong to the block. -/
theorem readBlockFrom_unlines (shown : ∀ line ∈ lines, Shown line)
    (inner : StateBlock.closing ∉ lines) (begun : before.isEmpty = false) :
    readBlockFrom before (encode (StateBlock.unlines lines) ++ s)
      = readBlockFrom (before ++ StateBlock.unlines lines) s := by
  induction lines generalizing before with
  | nil => rw [StateBlock.unlines, List.map_nil, String.join_nil, encode_empty, List.nil_append,
      String.append_empty]
  | cons line lines ih =>
    obtain ⟨here, later⟩ := List.forall_mem_cons.mp shown
    rw [List.mem_cons, not_or] at inner
    have goesOn : ¬(Text.trim (line ++ "\n").toList == StateBlock.closing.toList) = true := by
      rw [here.trim, beq_iff_eq, String.toList_inj]
      exact Ne.symm inner.1
    rw [unlines_cons, encode_append, List.append_assoc, readBlockFrom_line here.noFeed, begun,
      Bool.false_and, if_neg Bool.false_ne_true, if_neg goesOn,
      ih later inner.2 (isEmpty_append begun), String.append_assoc]

/-- The rows inside a block have tags of their own. -/
theorem head?_rows : ∀ r ∈ StateBlock.rows b,
    ∃ tag, r.head? = some tag ∧ tag ≠ StateBlock.closing := by
  intro r hr
  simp only [StateBlock.rows, StateBlock.instrumentRows, List.cons_append, List.mem_cons,
    List.mem_append, List.mem_flatMap, List.not_mem_nil, or_false] at hr
  rcases hr with rfl | rfl | hr | ⟨i, -, rfl | hr | rfl⟩
  · exact ⟨"b", rfl, by decide⟩
  · exact ⟨"s", rfl, by decide⟩
  · rw [StateBlock.indexRow] at hr
    split at hr
    · obtain rfl := List.mem_singleton.mp hr
      exact ⟨"k", rfl, by decide⟩
    · cases hr
  · exact ⟨"d", rfl, by decide⟩
  · rw [StateBlock.detailRow] at hr
    split at hr
    · cases hr
    · obtain rfl := List.mem_singleton.mp hr
      exact ⟨"e", rfl, by decide⟩
    · obtain rfl := List.mem_singleton.mp hr
      exact ⟨"n", rfl, by decide⟩
  · exact ⟨"o", rfl, by decide⟩

/-- A block ends with its closing line, whatever follows. -/
theorem readBlock_render (told : ∀ i ∈ b.instruments,
    Text.IsField i.code.toList ∧ i.detail.isLegible = true) :
    readBlock (encode (StateBlock.render b) ++ s) = ⟨.ok (some (StateBlock.render b)), s⟩ := by
  have spelled : ∀ r : StateBlock.Row, (" ".intercalate r).toList = r.line := by
    intro r
    rw [String.toList_intercalate]
    rfl
  have isLine := StateBlock.isLine_rows told
  have shown : ∀ line ∈ (StateBlock.rows b).map (String.intercalate " "), Shown line := by
    intro line hline
    obtain ⟨r, hr, rfl⟩ := List.mem_map.mp hline
    exact shown_of_isLine (isLine r (by simp [hr])) (spelled r)
  have inner : StateBlock.closing ∉ (StateBlock.rows b).map (String.intercalate " ") := by
    intro closes
    obtain ⟨r, hr, same⟩ := List.mem_map.mp closes
    obtain ⟨tag, first, other⟩ := head?_rows r hr
    exact StateBlock.Row.line_ne (isLine r (by simp [hr])) first rfl other
      (spelled r ▸ congrArg String.toList same)
  have text : StateBlock.render b = (StateBlock.opening ++ "\n")
      ++ (StateBlock.unlines ((StateBlock.rows b).map (String.intercalate " "))
        ++ (StateBlock.closing ++ "\n")) := by
    rw [StateBlock.render, List.cons_append, unlines_cons, unlines_append]
    rfl
  have bytes : encode (StateBlock.render b) ++ s = encode (StateBlock.opening ++ "\n")
      ++ (encode (StateBlock.unlines ((StateBlock.rows b).map (String.intercalate " ")))
        ++ (encode (StateBlock.closing ++ "\n") ++ s)) := by
    rw [text, @encode_append (_ ++ _), @encode_append (StateBlock.unlines _), List.append_assoc,
      List.append_assoc]
  have begun : ("" ++ (StateBlock.opening ++ "\n")).isEmpty = false := by decide
  rw [bytes, readBlock, readBlockFrom_line (by decide), if_neg (by decide), if_neg (by decide),
    readBlockFrom_unlines shown inner begun, readBlockFrom_line (by decide), isEmpty_append begun,
    Bool.false_and, if_neg Bool.false_ne_true, if_pos (by decide), text, String.empty_append,
    String.append_assoc]

/-! ## Streams -/

/-- Whether reading again and again gives some texts and then comes to the end. -/
inductive Reads (read : Stream → Received (Option String)) : Stream → List String → Prop
  | done {s : Stream} (ended : (read s).result = .ok none) : Reads read s []
  | next {s : Stream} {text : String} {texts : List String}
      (first : (read s).result = .ok (some text)) (rest : Reads read (read s).rest texts) :
      Reads read s (text :: texts)

/-- What is written piece by piece is read piece by piece. -/
theorem reads_join {α : Type} {read : Stream → Received (Option String)} {write told : α → String}
    {as : List α} (ended : (read []).result = .ok none)
    (one : ∀ a ∈ as, ∀ s, read (encode (write a) ++ s) = ⟨.ok (some (told a)), s⟩) :
    Reads read (encode (String.join (as.map write))) (as.map told) := by
  induction as with
  | nil => exact .done ended
  | cons a as ih =>
    obtain ⟨here, later⟩ := List.forall_mem_cons.mp one
    have first := here (encode (String.join (as.map write)))
    rw [List.map_cons, String.join_cons, encode_append]
    refine .next (congrArg Received.result first) ?_
    rw [first]
    exact ih later

/-- Messages of requests that lines made, sent one after another, are received one by one and
read as those requests; a request that a line made is read back from its own line; and blocks
of books whose codes and details can be told from their text, sent one after another, are
received one by one. -/
theorem streams_reread :
    (∀ batches : List (List Request), (∀ rs ∈ batches, ∀ r ∈ rs, ∃ line, Request.read line = .ok r) →
      ∃ texts, Reads readMessage (encode (String.join (batches.map Message.render))) texts
        ∧ texts.map Message.read = batches.map fun rs => ⟨rs, []⟩)
    ∧ (∀ line r, Request.read line = .ok r → Request.read r.render.toList = .ok r)
    ∧ ∀ books : List Book, (∀ b ∈ books, ∀ i ∈ b.instruments,
        Text.IsField i.code.toList ∧ i.detail.isLegible = true) →
      Reads readBlock (encode (String.join (books.map StateBlock.render)))
        (books.map StateBlock.render) := by
  refine ⟨fun batches made => ?_, fun line r read => (Request.sayable_of_read read).read_render,
    fun books told => ?_⟩
  · have sayable : ∀ rs ∈ batches, ∀ r ∈ rs, r.Sayable := by
      intro rs hrs r hr
      obtain ⟨line, read⟩ := made rs hrs r hr
      exact Request.sayable_of_read read
    refine ⟨batches.map fun rs => StateBlock.unlines (rs.map Request.render), ?_, ?_⟩
    · refine reads_join ?_ fun rs hrs s => readMessage_render (sayable rs hrs)
      rw [readMessage, readMessageFrom, dif_pos rfl]
    · rw [List.map_map]
      exact List.map_congr_left fun rs hrs => Message.read_unlines (sayable rs hrs)
  · refine reads_join ?_ fun b hb s => readBlock_render (told b hb)
    rw [readBlock, readBlockFrom, dif_pos rfl]
    rfl

/-- Three messages, the second one empty, and a block with a warrant and one without. -/
theorem streams_reread_few :
    let batches : List (List Request) :=
      [[⟨.place .buy, "57JA01", -10, 5, 0⟩, Request.sellAll], [],
        [Request.modify .sell "005930" 9990 0 10050]]
    let books := [(Book.ofBalance 1000000).add "57JA01" .warrant 0, Book.ofBalance 5]
    (∃ texts, Reads readMessage (encode (String.join (batches.map Message.render))) texts
        ∧ texts.map Message.read = batches.map fun rs => ⟨rs, []⟩)
      ∧ Request.read (Request.render ⟨.place .buy, "57JA01", -10, 5, 0⟩).toList
        = .ok ⟨.place .buy, "57JA01", -10, 5, 0⟩
      ∧ Reads readBlock (encode (String.join (books.map StateBlock.render)))
        (books.map StateBlock.render) := by
  have buy : Request.read " b 57JA01 -10 +5 ".toList = .ok ⟨.place .buy, "57JA01", -10, 5, 0⟩ := by
    decide +kernel
  have modify : Request.read "ms 005930 9990 0 10050".toList
      = .ok (Request.modify .sell "005930" 9990 0 10050) := by
    decide +kernel
  refine ⟨streams_reread.1 _ ?_, streams_reread.2.1 _ _ buy, streams_reread.2.2 _ (by decide)⟩
  simp only [List.forall_mem_cons]
  exact ⟨⟨⟨_, buy⟩, ⟨"sa".toList, rfl⟩, by simp⟩, by simp, ⟨⟨_, modify⟩, by simp⟩, by simp⟩

end TradingDesk.Wire
