-- SUMMARY: The book of an account as it is opened, before anything happens to it.
import TradingDesk.Market.Tracked
import TradingDesk.Proofs.Account

/-!
# Opening books

An account is opened with a balance and a list of codes to track. The first entry of
a code counts. Nothing rests in the book yet, and it is well-formed.
-/

namespace TradingDesk

section Insertion

variable {i j : Instrument} {is : List Instrument} {code : String}

private theorem lt_of_not_lt {a b : String} (ne : a ≠ b) (h : ¬a < b) : b < a := by
  by_contra h'
  exact ne (String.le_antisymm (String.not_lt.mp h') (String.not_lt.mp h))

theorem mem_of_mem_insertInstrument (h : j ∈ insertInstrument i is) : j = i ∨ j ∈ is := by
  induction is with
  | nil => simpa [insertInstrument] using h
  | cons k ks ih =>
    simp only [insertInstrument] at h
    split at h
    · exact .inr h
    · split at h
      · simpa using h
      · rcases List.mem_cons.mp h with rfl | h
        · exact .inr List.mem_cons_self
        · exact (ih h).imp_right (List.mem_cons_of_mem k)

theorem codes_insertInstrument (h : (is.map Instrument.code).Pairwise (· < ·)) :
    ((insertInstrument i is).map Instrument.code).Pairwise (· < ·) := by
  induction is with
  | nil => simp [insertInstrument]
  | cons k ks ih =>
    obtain ⟨first, rest⟩ := List.pairwise_cons.mp h
    simp only [insertInstrument, beq_iff_eq]
    split
    next => exact h
    next ne =>
      split
      next lt =>
        refine List.pairwise_cons.mpr ⟨?_, h⟩
        intro c hc
        rcases List.mem_cons.mp hc with rfl | hc
        · exact lt
        · exact String.lt_trans lt (first c hc)
      next notLt =>
        refine List.pairwise_cons.mpr ⟨?_, ih rest⟩
        intro c hc
        obtain ⟨l, hl, rfl⟩ := List.mem_map.mp hc
        rcases mem_of_mem_insertInstrument hl with rfl | hl
        · exact lt_of_not_lt ne notLt
        · exact first l.code (List.mem_map_of_mem hl)

/-- A code that is tracked already stays with its instrument. -/
theorem find?_insertInstrument (h : (is.map Instrument.code).Pairwise (· < ·)) :
    (insertInstrument i is).find? (·.code == code)
      = (is.find? (·.code == code)).or (if i.code = code then some i else none) := by
  induction is with
  | nil => by_cases here : i.code = code <;> simp [insertInstrument, here]
  | cons k ks ih =>
    obtain ⟨first, rest⟩ := List.pairwise_cons.mp h
    simp only [insertInstrument, beq_iff_eq]
    split
    next eq => by_cases here : k.code = code <;> simp [eq, here]
    next ne =>
      split
      next lt =>
        by_cases here : i.code = code
        · -- All codes of the list are greater, so none of them is this one.
          subst here
          have absent : (k :: ks).find? (·.code == i.code) = none := by
            rw [List.find?_eq_none]
            intro l hl eq
            have eq : l.code = i.code := by simpa using eq
            rcases List.mem_cons.mp hl with rfl | hl
            · exact ne eq.symm
            · have := String.lt_trans lt (first l.code (List.mem_map_of_mem hl))
              rw [eq] at this
              exact String.lt_irrefl _ this
          simp [List.find?_cons_of_pos, absent]
        · simp [here]
      next =>
        by_cases there : k.code = code
        · simp [there]
        · simp [there, ih rest]

end Insertion

namespace Book

variable {b : Book} {t : Tracked} {ts : List Tracked} {code : String}

theorem find?_add (hb : b.WellFormed) {kind : Kind} {holdings : Int} {c : String} :
    (b.add c kind holdings).find? code
      = (b.find? code).or (if c = code then some (.ofHoldings c kind holdings) else none) :=
  find?_insertInstrument hb.codes

theorem mem_of_mem_add {kind : Kind} {holdings : Int} {c : String} {i : Instrument}
    (h : i ∈ (b.add c kind holdings).instruments) :
    i = .ofHoldings c kind holdings ∨ i ∈ b.instruments :=
  mem_of_mem_insertInstrument h

theorem WellFormed.add (hb : b.WellFormed) (c : String) (kind : Kind) (holdings : Int) :
    (b.add c kind holdings).WellFormed where
  codes := codes_insertInstrument hb.codes
  sorted := by
    intro i hi
    rcases mem_of_mem_add hi with rfl | hi
    · exact List.Pairwise.nil
    · exact hb.sorted i hi
  ids := by
    intro i hi o ho
    rcases mem_of_mem_add hi with rfl | hi
    · cases ho
    · exact hb.ids i hi o ho

theorem wellFormed_ofBalance (balance : Int) : (ofBalance balance).WellFormed := by
  constructor <;> simp [ofBalance, codes]

/-- The book that tracks further codes. -/
def track (b : Book) (ts : List Tracked) : Book :=
  ts.foldl (fun b t => b.add t.code t.kind t.holdings) b

/-- The book of an account as it is opened. -/
def opening (balance : Int) (ts : List Tracked) : Book := (ofBalance balance).track ts

theorem WellFormed.track (hb : b.WellFormed) : (b.track ts).WellFormed := by
  induction ts generalizing b with
  | nil => exact hb
  | cons t ts ih => exact ih (hb.add ..)

theorem wellFormed_opening (balance : Int) (ts : List Tracked) : (opening balance ts).WellFormed :=
  (wellFormed_ofBalance balance).track

/-- The first entry of a code counts, and less than no holdings count as none. -/
theorem find?_track (hb : b.WellFormed) :
    (b.track ts).find? code = (b.find? code).or
      ((ts.find? (·.code == code)).map fun t => .ofHoldings t.code t.kind t.holdings) := by
  induction ts generalizing b with
  | nil => simp [track]
  | cons t ts ih =>
    have step := ih (hb.add t.code t.kind t.holdings)
    rw [find?_add hb] at step
    simp only [track, List.foldl_cons] at step ⊢
    rw [step, Option.or_assoc]
    congr 1
    by_cases here : t.code = code <;> simp [here]

theorem find?_opening {balance : Int} :
    (opening balance ts).find? code
      = (ts.find? (·.code == code)).map fun t => .ofHoldings t.code t.kind t.holdings := by
  rw [opening, find?_track (wellFormed_ofBalance balance)]
  rfl

theorem opening_balance {balance : Int} :
    (opening balance ts).balance = balance ∧ (opening balance ts).stats = .blank := by
  suffices kept : ∀ b : Book, (b.track ts).balance = b.balance ∧ (b.track ts).stats = b.stats from
    kept (ofBalance balance)
  intro b
  induction ts generalizing b with
  | nil => exact ⟨rfl, rfl⟩
  | cons t ts ih => exact ih (b.add ..)

/-- An instrument of an opening book has no orders, and holdings that are not negative. -/
theorem mem_opening {balance : Int} {i : Instrument} (hi : i ∈ (opening balance ts).instruments) :
    i.orders = [] ∧ 0 ≤ i.idle := by
  have found := ((wellFormed_opening balance ts).find?_eq_some).mpr ⟨hi, rfl⟩
  rw [find?_opening] at found
  obtain ⟨t, -, rfl⟩ := Option.map_eq_some_iff.mp found
  exact ⟨rfl, le_max_right _ _⟩

/-- Nothing is known of the market when an account is opened. -/
theorem ladder_opening {balance : Int} {i : Instrument} (hi : i ∈ (opening balance ts).instruments) :
    i.ladder = .empty := by
  have found := ((wellFormed_opening balance ts).find?_eq_some).mpr ⟨hi, rfl⟩
  rw [find?_opening] at found
  obtain ⟨t, -, rfl⟩ := Option.map_eq_some_iff.mp found
  rfl

/-- A sum to which instruments without orders add nothing is zero in an opening book. -/
theorem total_opening {f : Instrument → Int} (hf : ∀ i, i.orders = [] → f i = 0) (balance : Int)
    (ts : List Tracked) : (opening balance ts).total f = 0 := by
  apply List.sum_eq_zero
  simp only [List.forall_mem_map]
  exact fun i hi => hf i (mem_opening hi).1

end Book

end TradingDesk
