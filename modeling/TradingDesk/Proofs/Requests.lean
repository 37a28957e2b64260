-- SUMMARY: Requests and messages are read back as they were written.
import TradingDesk.Proofs.Blocks
import TradingDesk.Request.Message

/-!
# Requests

A request that was read off a line has the fields that its action takes, each of which can be
told from its text. Written again it is read back, alone and as a line of a message.
-/

namespace TradingDesk

variable {action : Action} {line field : List Char} {fields : List (List Char)} {name : String}
  {r : Request} {rs : List Request} {n : Int}

/-- What succeeded step by step. -/
theorem bind_eq_ok {ε α β : Type} {x : Except ε α} {f : α → Except ε β} {b : β} :
    x >>= f = .ok b ↔ ∃ a, x = .ok a ∧ f a = .ok b := by
  cases x with
  | error e => exact ⟨fun h => (nomatch h), fun ⟨_, h, _⟩ => (nomatch h)⟩
  | ok a => exact ⟨fun h => ⟨a, rfl, h⟩, fun ⟨_, same, h⟩ => Except.ok.inj same ▸ h⟩

namespace Text

theorem isField_of_mem_words (h : field ∈ words line) : IsField field := by
  have piece : ∀ {s w : List Char}, w ∈ pieces isBlank s → ∀ c ∈ w, isBlank c = false := by
    intro s
    induction s with
    | nil =>
      intro w hw
      obtain rfl := List.mem_singleton.mp hw
      exact fun c hc => absurd hc List.not_mem_nil
    | cons a s ih =>
      intro w hw
      rw [pieces] at hw
      split at hw
      · rcases List.mem_cons.mp hw with rfl | hw
        · exact fun c hc => absurd hc List.not_mem_nil
        · exact ih hw
      next solid =>
        have solid := Bool.eq_false_of_not_eq_true solid
        split at hw
        · obtain rfl := List.mem_singleton.mp hw
          simpa using solid
        next v vs pieces =>
          rcases List.mem_cons.mp hw with rfl | hw
          · exact List.forall_mem_cons.mpr ⟨solid, ih (pieces ▸ List.mem_cons_self)⟩
          · exact ih (pieces ▸ List.mem_cons_of_mem v hw)
  obtain ⟨mem, nonempty⟩ := List.mem_filter.mp h
  exact ⟨by simpa using nonempty, piece mem⟩

theorem fitsWord_of_readSigned (h : readSigned field = some n) : FitsWord n := by
  unfold readSigned at h
  exact of_decide_eq_true (Option.filter_eq_some_iff.mp h).2

end Text

/-! ## Lines -/

namespace Request

/-- The requests that a line can make: the fields that the action takes can be told from
their text, and the others are as a reader leaves them. -/
inductive Sayable : Request → Prop
  | whole {action : Action} (arity : action.arity = 0) : Sayable (ofAction action "" 0 0)
  | order {action : Action} {code : String} {price qty : Int} (arity : action.arity = 3)
      (solid : Text.IsField code.toList) (fitsPrice : FitsWord price) (asks : 0 ≤ qty)
      (fitsQty : FitsWord qty) : Sayable (ofAction action code price qty)
  | change {side : Side} {code : String} {price qty newPrice : Int}
      (solid : Text.IsField code.toList) (fitsPrice : FitsWord price) (asks : 0 ≤ qty)
      (fitsQty : FitsWord qty) (fitsNew : FitsWord newPrice) :
      Sayable (modify side code price qty newPrice)

/-! ### Reading -/

theorem fitsWord_of_readField (h : readField name line field = .ok n) : FitsWord n := by
  unfold readField at h
  split at h
  next read =>
    obtain rfl := Except.ok.inj h
    exact Text.fitsWord_of_readSigned read
  next => cases h

theorem arity_cases (action : Action) :
    action.arity = 0 ∨ action.arity = 3 ∨ ∃ side, action = .modify side := by
  cases action with
  | place side => exact .inr (.inl rfl)
  | cancel side => exact .inr (.inl rfl)
  | modify side => exact .inr (.inr ⟨side, rfl⟩)
  | cancelAll => exact .inl rfl
  | sellAll => exact .inl rfl

theorem sayable_of_ofFields (solid : ∀ f ∈ fields, Text.IsField f)
    (arity : fields.length = action.arity) (h : ofFields action line fields = .ok r) :
    r.Sayable := by
  have named : ∀ {f : List Char}, Text.IsField f → Text.IsField (String.ofList f).toList := by
    intro f hf
    rwa [String.toList_ofList]
  unfold ofFields at h
  split at h
  case h_1 code price qty =>
    simp only [bind_eq_ok] at h
    obtain ⟨p, hp, q, hq, h⟩ := h
    split at h
    · cases h
    next asks =>
      obtain rfl := Except.ok.inj h
      exact .order arity.symm (named (solid code List.mem_cons_self)) (fitsWord_of_readField hp)
        (Int.not_lt.mp asks) (fitsWord_of_readField hq)
  case h_2 code price qty newPrice =>
    obtain ⟨side, rfl⟩ : ∃ side, action = .modify side := by
      rcases arity_cases action with none | three | change
      · exact absurd (arity.trans none) (by simp)
      · exact absurd (arity.trans three) (by simp)
      · exact change
    simp only [bind_eq_ok] at h
    obtain ⟨p, hp, q, hq, n, hn, h⟩ := h
    split at h
    · cases h
    next asks =>
      obtain rfl := Except.ok.inj h
      exact .change (named (solid code List.mem_cons_self)) (fitsWord_of_readField hp)
        (Int.not_lt.mp asks) (fitsWord_of_readField hq) (fitsWord_of_readField hn)
  case h_3 notThree notFour =>
    have none : action.arity = 0 := by
      rcases arity_cases action with none | three | ⟨side, rfl⟩
      · exact none
      · obtain ⟨a, b, c, rfl⟩ := List.length_eq_three.mp (arity.trans three)
        exact absurd rfl (notThree a b c)
      · match fields, arity with
        | [a, b, c, d], _ => exact absurd rfl (notFour a b c d)
    obtain rfl := Except.ok.inj h
    exact .whole none

/-- Whatever a line is read as can be told from a line. -/
theorem sayable_of_read (h : Request.read line = .ok r) : r.Sayable := by
  unfold Request.read at h
  split at h
  · cases h
  next tag fields cut =>
    split at h
    · cases h
    · split at h
      next arity =>
        have solid : ∀ f ∈ fields, Text.IsField f := fun f hf =>
          Text.isField_of_mem_words (cut ▸ List.mem_cons_of_mem tag hf)
        exact sayable_of_ofFields solid arity h
      · cases h

/-! ### Writing -/

/-- What a request is written as: the tag, and as many fields as the action takes. -/
def spelling (r : Request) : List (List Char) :=
  r.action.tag.toList :: [r.code.toList, (toString r.price).toList, (toString r.qty).toList,
    (toString r.newPrice).toList].take r.action.arity

theorem toList_render : r.render.toList = Text.join r.spelling := by
  unfold render spelling
  cases r.action <;> simp [Action.arity, Text.join, List.intercalate, toString]

theorem isField_tag (action : Action) : Text.IsField action.tag.toList := by
  cases action with
  | place side => cases side <;> decide
  | cancel side => cases side <;> decide
  | modify side => cases side <;> decide
  | cancelAll => decide
  | sellAll => decide

theorem Sayable.isLine (h : r.Sayable) : Text.IsLine r.spelling := by
  have numbers : ∀ f ∈ [(toString r.price).toList, (toString r.qty).toList,
      (toString r.newPrice).toList], Text.IsField f := by
    simp only [List.forall_mem_cons]
    exact ⟨Text.isField_toString _, Text.isField_toString _, Text.isField_toString _, by simp⟩
  refine ⟨List.cons_ne_nil _ _, List.forall_mem_cons.mpr ⟨isField_tag _, fun f hf => ?_⟩⟩
  cases h with
  | whole arity =>
    have none : Action.arity (ofAction _ "" 0 0).action = 0 := arity
    rw [none] at hf
    exact absurd hf List.not_mem_nil
  | order _ solid => exact List.forall_mem_cons.mpr ⟨solid, numbers⟩ f (List.mem_of_mem_take hf)
  | change solid => exact List.forall_mem_cons.mpr ⟨solid, numbers⟩ f (List.mem_of_mem_take hf)

/-- What a line made is read back from the line that it is written as. -/
theorem Sayable.read_render (h : r.Sayable) : Request.read r.render.toList = .ok r := by
  have cut : Text.words r.render.toList = r.spelling := by
    rw [toList_render, Text.words_join h.isLine.fields]
  have amount : ∀ {name : String} {n : Int}, FitsWord n →
      readField name r.render.toList (toString n).toList = .ok n := by
    intro name n fits
    rw [readField, Text.readSigned_toString fits]
  unfold Request.read
  simp only [cut, spelling, Action.ofTag?_tag]
  generalize r.render.toList = line at amount
  cases h with
  | whole arity => simp only [ofAction, arity, List.take_zero, List.length_nil, if_true, ofFields]
  | order arity solid fitsPrice asks fitsQty =>
    simp only [ofAction, arity, List.take_succ_cons, List.take_zero, List.length_cons,
      List.length_nil, if_true, ofFields, amount fitsPrice, amount fitsQty, bind, Except.bind,
      if_neg (Int.not_lt.mpr asks), String.ofList_toList, pure, Except.pure]
  | change solid fitsPrice asks fitsQty fitsNew =>
    simp only [modify, Action.arity, List.take_succ_cons, List.take_zero, List.length_cons,
      List.length_nil, if_true, ofFields, amount fitsPrice, amount fitsQty, amount fitsNew, bind,
      Except.bind, if_neg (Int.not_lt.mpr asks), String.ofList_toList, pure, Except.pure]

end Request

/-! ## Messages -/

namespace Message

theorem ofLines_render (sayable : ∀ r ∈ rs, r.Sayable) :
    ofLines (rs.map fun r => r.render.toList) = ⟨rs, []⟩ := by
  induction rs with
  | nil => rfl
  | cons r rs ih =>
    obtain ⟨here, later⟩ := List.forall_mem_cons.mp sayable
    rw [List.map_cons, ofLines, ih later]
    simp only [here.read_render]

/-- Lines of requests, without the blank line at the end, are read as the requests. -/
theorem read_unlines (sayable : ∀ r ∈ rs, r.Sayable) :
    Message.read (StateBlock.unlines (rs.map Request.render)) = ⟨rs, []⟩ := by
  have isLine : ∀ line ∈ rs.map Request.spelling, Text.IsLine line := by
    intro line hline
    obtain ⟨r, hr, rfl⟩ := List.mem_map.mp hline
    exact (sayable r hr).isLine
  have text : (StateBlock.unlines (rs.map Request.render)).toList
      = (rs.map Request.spelling).flatMap fun line => Text.join line ++ ['\n'] := by
    simp only [StateBlock.unlines, String.toList_join, List.map_map, List.flatMap_map,
      Function.comp_apply, String.toList_append, Request.toList_render]
    rfl
  have shown : (rs.map Request.spelling).map Text.join = rs.map fun r => r.render.toList := by
    simp only [List.map_map, Function.comp_def, Request.toList_render]
  rw [Message.read, text, Text.lines_unlines isLine, shown, ofLines_render sayable]

end Message

end TradingDesk
