-- SUMMARY: Every double precision number is read back from the text that a state block has for it.
import Mathlib.Data.List.TakeWhile
import TradingDesk.Binary64.Layout
import TradingDesk.Binary64.Read
import TradingDesk.Proofs.Fields
import TradingDesk.Proofs.Rounding

/-!
# Decimals

The numeral of a magnitude lies in its neighbourhood, whether the search for few digits
finds one or not. Written out, its digits and its point denote the same quotient, and the
quotient is rounded to the magnitude. The bounds from which on a reader does not look at the
digits are far beyond all that a magnitude is near to.
-/

namespace TradingDesk

/-! ## Digits -/

namespace Text

variable {ds es : List Char} {c : Char} {n : Nat}

theorem ofDigits_append : ofDigits (ds ++ es) = 10 ^ es.length * ofDigits ds + ofDigits es :=
  (Nat.ofDigitChars_append 0).trans Nat.ofDigitChars_eq_ofDigitChars_zero

theorem ofDigits_cons : ofDigits (c :: ds) = 10 ^ ds.length * digitValue c + ofDigits ds := by
  have first : ofDigits [c] = digitValue c := by simp [ofDigits]
  rw [← first]
  exact @ofDigits_append [c] ds

theorem ofDigits_zeros : ofDigits (List.replicate n '0') = 0 := Nat.ofDigitChars_replicate_zero

theorem digitValue_lt (h : c.isDigit = true) : digitValue c < 10 := by
  have := toNat_of_isDigit h
  change c.toNat - 48 < 10
  omega

theorem digitValue_pos (h : c.isDigit = true) (ne : c ≠ '0') : 0 < digitValue c := by
  have := toNat_of_isDigit h
  have : c.toNat ≠ 48 := fun same => ne (Char.toNat_inj.mp same)
  change 0 < c.toNat - 48
  omega

theorem ofDigits_lt (h : ∀ c ∈ ds, c.isDigit = true) : ofDigits ds < 10 ^ ds.length := by
  induction ds with
  | nil => decide
  | cons c ds ih =>
    obtain ⟨here, later⟩ := List.forall_mem_cons.mp h
    have := Nat.mul_le_mul_left (10 ^ ds.length) (digitValue_lt here)
    have := ih later
    rw [ofDigits_cons, List.length_cons, Nat.pow_succ]
    rw [Nat.mul_succ] at *
    omega

/-- A number without leading zeros. -/
theorem le_ofDigits (h : c.isDigit = true) (ne : c ≠ '0') :
    10 ^ ds.length ≤ ofDigits (c :: ds) := by
  rw [ofDigits_cons]
  exact Nat.le_add_right_of_le (Nat.le_mul_of_pos_right _ (digitValue_pos h ne))

theorem ofDigits_dropZeros : ofDigits (ds.dropWhile (· == '0')) = ofDigits ds := by
  induction ds with
  | nil => rfl
  | cons c ds ih =>
    rw [List.dropWhile_cons]
    split
    next zero =>
      rw [ih, ofDigits_cons, eq_of_beq zero, show digitValue '0' = 0 from rfl]
      omega
    next => rfl

end Text

namespace Binary64

variable {rank num den k : Nat} {tie : Tie} {exponent : Int} {digits : Nat}

/-! ## Numerals -/

/-- Whether a numeral denotes a quotient in the neighbourhood of a magnitude. -/
def Numeral.Reads (n : Numeral) (rank : Nat) : Prop :=
  Near rank (n.digits * 10 ^ n.exponent.toNat) (10 ^ (-n.exponent).toNat)

theorem Near.of_scaled (pos : 0 < k) (near : Near rank (k * num) (k * den)) :
    Near rank num den where
  low := by
    have := near.low
    rw [Nat.mul_left_comm, Nat.mul_assoc] at this
    exact Nat.le_of_mul_le_mul_left this pos
  high := by
    have := near.high
    rw [Nat.mul_left_comm _ k, Nat.mul_assoc] at this
    exact Nat.le_of_mul_le_mul_left this pos
  ends := by
    intro odd
    obtain ⟨low, high⟩ := near.ends odd
    rw [Nat.mul_left_comm, Nat.mul_assoc] at low
    rw [Nat.mul_left_comm _ k, Nat.mul_assoc] at high
    exact ⟨fun same => low (congrArg (k * ·) same), fun same => high (congrArg (k * ·) same)⟩

/-- A last digit that is zero can be left out. -/
theorem Numeral.Reads.shorten {n : Numeral} (h : n.Reads rank) (zero : n.digits % 10 = 0) :
    Numeral.Reads ⟨n.digits / 10, n.exponent + 1⟩ rank := by
  have whole : n.digits = n.digits / 10 * 10 := by omega
  simp only [Reads] at h ⊢
  rw [whole] at h
  by_cases neg : n.exponent < 0
  · have here : n.exponent.toNat = 0 := by omega
    have next : (n.exponent + 1).toNat = 0 := by omega
    have scale : (-n.exponent).toNat = (-(n.exponent + 1)).toNat + 1 := by omega
    rw [here, scale, Nat.pow_succ, Nat.pow_zero, Nat.mul_one] at h
    rw [next, Nat.pow_zero, Nat.mul_one]
    apply Near.of_scaled (k := 10) (by decide)
    rwa [Nat.mul_comm, Nat.mul_comm 10]
  · have scale : (n.exponent + 1).toNat = n.exponent.toNat + 1 := by omega
    have here : (-n.exponent).toNat = 0 := by omega
    have next : (-(n.exponent + 1)).toNat = 0 := by omega
    rw [here, Nat.mul_assoc, ← Nat.pow_succ'] at h
    rwa [next, scale]

theorem reads_of_inside {scale step : Nat} (hscale : scale = Nat.pow 10 (-exponent).toNat)
    (hstep : step = halfUnits * Nat.pow 10 exponent.toNat)
    (h : (if (neighbourhood rank).closed then
        decide ((neighbourhood rank).low * scale ≤ digits * step)
          && decide (digits * step ≤ (neighbourhood rank).high * scale)
      else
        decide ((neighbourhood rank).low * scale < digits * step)
          && decide (digits * step < (neighbourhood rank).high * scale)) = true) :
    Numeral.Reads ⟨digits, exponent⟩ rank := by
  have same : digits * step = digits * 10 ^ exponent.toNat * halfUnits := by
    rw [hstep, Nat.pow_eq, Nat.mul_assoc, Nat.mul_comm halfUnits]
  rw [same, hscale] at h
  by_cases even : rank % 2 = 0
  · have closed : (neighbourhood rank).closed = true := beq_iff_eq.mpr even
    rw [if_pos closed, Bool.and_eq_true, decide_eq_true_eq, decide_eq_true_eq] at h
    exact ⟨h.1, h.2, fun odd => by omega⟩
  · have closed : ¬(neighbourhood rank).closed = true := fun closed => even (beq_iff_eq.mp closed)
    rw [if_neg closed, Bool.and_eq_true, decide_eq_true_eq, decide_eq_true_eq] at h
    exact ⟨h.1.le, h.2.le, fun _ => ⟨h.1.ne, h.2.ne⟩⟩

/-- What the search takes lies in the neighbourhood. -/
theorem reads_onGrid (h : onGrid tie (neighbourhood rank) exponent = some digits) :
    Numeral.Reads ⟨digits, exponent⟩ rank := by
  simp only [onGrid] at h
  split at h
  next below above =>
    obtain rfl := Option.some.inj h
    have readsBelow := reads_of_inside rfl rfl below
    have readsAbove := reads_of_inside rfl rfl above
    split
    · exact readsBelow
    · split
      · exact readsAbove
      · cases tie with
        | away => exact readsAbove
        | even =>
          simp only
          rcases Nat.mod_two_eq_zero_or_one ((neighbourhood rank).value
            * Nat.pow 10 (-exponent).toNat / (halfUnits * Nat.pow 10 exponent.toNat))
            with even | odd
          · rw [even]
            exact readsBelow
          · rw [odd]
            exact readsAbove
  next below _ =>
    obtain rfl := Option.some.inj h
    exact reads_of_inside rfl rfl below
  next _ above =>
    obtain rfl := Option.some.inj h
    exact reads_of_inside rfl rfl above
  next => cases h

/-- The value itself, written out, is a numeral for it. -/
theorem reads_value {n : Neighbourhood} (hn : n = neighbourhood rank) (pos : 0 < rank)
    (hk : halfUnits = Nat.pow 2 k) (he : exponent = -(k : Int)) :
    Numeral.Reads ⟨n.value * Nat.pow 5 k, exponent⟩ rank := by
  subst hn he
  have before : units (rank - 1) < units rank := units_strictMono (by omega)
  have after := units_lt_succ rank
  have low : (neighbourhood rank).low < (neighbourhood rank).value := by
    simp only [neighbourhood]
    omega
  have high : (neighbourhood rank).value < (neighbourhood rank).high := by
    simp only [neighbourhood]
    omega
  have exact : (neighbourhood rank).value * Nat.pow 5 k * 10 ^ (-(k : Int)).toNat * halfUnits
      = (neighbourhood rank).value * 10 ^ k := by
    have whole : (-(k : Int)).toNat = 0 := by omega
    rw [whole, hk, Nat.pow_zero, Nat.mul_one, Nat.mul_assoc, Nat.pow_eq, Nat.pow_eq, ← Nat.mul_pow]
  have low := Nat.mul_lt_mul_of_pos_right low (Nat.pow_pos (n := k) (show 0 < 10 by decide))
  have high := Nat.mul_lt_mul_of_pos_right high (Nat.pow_pos (n := k) (show 0 < 10 by decide))
  rw [← exact] at low high
  have scale : (- -(k : Int)).toNat = k := by omega
  simp only [Numeral.Reads, scale]
  exact ⟨low.le, high.le, fun _ => ⟨low.ne, high.ne⟩⟩

/-- The numeral of a magnitude lies in its neighbourhood, whether or not one of few digits
is found. -/
theorem reads_shortest (pos : 0 < rank) : (shortest tie rank).Reads rank := by
  unfold shortest
  extract_lets n point hit
  cases found : hit with
  | none => apply reads_value rfl pos (by decide +kernel) rfl
  | some r =>
    obtain ⟨i, -, eq⟩ := List.exists_of_findSome?_eq_some found
    obtain ⟨digits, onGrid, rfl⟩ := Option.map_eq_some_iff.mp eq
    have reads := reads_onGrid onGrid
    dsimp only
    split
    next zero => exact reads.shorten (eq_of_beq zero)
    next => exact reads

/-! ## Bounds -/

theorem units_succ_mul (place : Nat) :
    units ((place + 1) * binadeSize) = binadeSize * 2 ^ place := by
  rw [Nat.succ_mul]
  exact units_place (by decide) (.inr le_rfl)

/-- The decimal place of what is near to a magnitude is less than 400 from the point. -/
theorem Numeral.Reads.bounds {n : Numeral} (h : n.Reads rank) (pos : 0 < rank)
    (lt : rank < finiteCount) :
    10 ^ (-n.exponent).toNat ≤ n.digits * 10 ^ (n.exponent.toNat + 400)
      ∧ n.digits * 10 ^ n.exponent.toNat ≤ 10 ^ ((-n.exponent).toNat + 399) := by
  have least : 1 ≤ (neighbourhood rank).low :=
    le_add_left (pos.trans_le (units_strictMono.le_apply))
  have most : (neighbourhood rank).high ≤ halfUnits * 10 ^ 399 := by
    have here : units rank ≤ units finiteCount := units_strictMono.monotone lt.le
    have next : units (rank + 1) ≤ units finiteCount := units_strictMono.monotone lt
    have size : 2 * units finiteCount ≤ halfUnits * 10 ^ 399 := by
      rw [finiteCount, units_succ_mul 2046]
      decide +kernel
    simp only [neighbourhood]
    omega
  have halves : halfUnits ≤ 10 ^ 400 := by decide +kernel
  constructor
  · calc 10 ^ (-n.exponent).toNat
        ≤ (neighbourhood rank).low * 10 ^ (-n.exponent).toNat := Nat.le_mul_of_pos_left _ least
      _ ≤ n.digits * 10 ^ n.exponent.toNat * halfUnits := h.low
      _ ≤ n.digits * 10 ^ n.exponent.toNat * 10 ^ 400 := Nat.mul_le_mul_left _ halves
      _ = n.digits * 10 ^ (n.exponent.toNat + 400) := by rw [Nat.pow_add, Nat.mul_assoc]
  · have le : halfUnits * (n.digits * 10 ^ n.exponent.toNat)
        ≤ halfUnits * 10 ^ ((-n.exponent).toNat + 399) :=
      calc _ = n.digits * 10 ^ n.exponent.toNat * halfUnits := Nat.mul_comm _ _
        _ ≤ (neighbourhood rank).high * 10 ^ (-n.exponent).toNat := h.high
        _ ≤ halfUnits * 10 ^ 399 * 10 ^ (-n.exponent).toNat := Nat.mul_le_mul_right _ most
        _ = _ := by rw [Nat.mul_assoc, ← Nat.pow_add, Nat.add_comm 399]
    exact Nat.le_of_mul_le_mul_left le (by decide +kernel)

/-! ## Text -/

section Text

variable {negative : Bool} {ds es : List Char} {point : Int}

theorem readUnsigned_whole (nonempty : ds ≠ []) (digits : ∀ c ∈ ds, c.isDigit = true) :
    readUnsigned negative ds = some (ofDecimal negative ds 0) := by
  have take : ds.takeWhile Char.isDigit = ds := List.takeWhile_eq_self_iff.mpr digits
  have drop : ds.dropWhile Char.isDigit = [] := List.dropWhile_eq_nil_iff.mpr digits
  simp [readUnsigned, take, drop, nonempty]

theorem readUnsigned_point (nonempty : ds ≠ []) (whole : ∀ c ∈ ds, c.isDigit = true)
    (fraction : ∀ c ∈ es, c.isDigit = true) :
    readUnsigned negative (ds ++ '.' :: es)
      = some (ofDecimal negative (ds ++ es) (-es.length)) := by
  have take : (ds ++ '.' :: es).takeWhile Char.isDigit = ds := by
    rw [List.takeWhile_append_of_pos whole]
    exact List.append_nil ds
  have drop : (ds ++ '.' :: es).dropWhile Char.isDigit = '.' :: es := by
    rw [List.dropWhile_append_of_pos whole]
    rfl
  have takeRest : es.takeWhile Char.isDigit = es := List.takeWhile_eq_self_iff.mpr fraction
  have dropRest : es.dropWhile Char.isDigit = [] := List.dropWhile_eq_nil_iff.mpr fraction
  simp [readUnsigned, take, drop, takeRest, dropRest, nonempty]

/-- What the reader makes of the quotient that digits and an exponent denote, if a magnitude
is near to it. -/
theorem ofDecimal_eq {ds : List Char} {exponent : Int} (digits : ∀ c ∈ ds, c.isDigit = true)
    (pos : 0 < rank) (lt : rank < finiteCount)
    (reads : Numeral.Reads ⟨Text.ofDigits ds, exponent⟩ rank) :
    ofDecimal negative ds exponent = .finite negative ⟨rank, lt⟩ := by
  obtain ⟨small, large⟩ := reads.bounds pos lt
  simp only at small large
  have nonzero : Text.ofDigits ds ≠ 0 := by
    intro zero
    have : 0 < 10 ^ (-exponent).toNat := Nat.pow_pos (by decide)
    rw [zero, Nat.zero_mul] at small
    omega
  -- The digits from the first one on that is not zero give the place of the number.
  obtain ⟨c, es, digitsOf⟩ : ∃ c es, ds.dropWhile (· == '0') = c :: es := by
    apply List.exists_cons_of_ne_nil
    intro none
    apply nonzero
    rw [← Text.ofDigits_dropZeros, none]
    rfl
  have first : c ≠ '0' := by
    have := List.head?_dropWhile_not (· == '0') ds
    simpa [digitsOf] using this
  have isDigit : ∀ d ∈ c :: es, d.isDigit = true := fun d hd =>
    digits d ((List.dropWhile_suffix _).subset (digitsOf ▸ hd))
  have value : Text.ofDigits (c :: es) = Text.ofDigits ds := digitsOf ▸ Text.ofDigits_dropZeros
  have lower := @Text.le_ofDigits es c (isDigit c List.mem_cons_self) first
  have upper := Text.ofDigits_lt isDigit
  rw [value] at lower upper
  have notSmall : ¬((c :: es).length : Int) + exponent < -400 := by
    have := small.trans_lt (Nat.mul_lt_mul_of_pos_right upper (Nat.pow_pos (by decide)))
    rw [← Nat.pow_add, Nat.pow_lt_pow_iff_right (by decide)] at this
    omega
  have notLarge : ¬400 < ((c :: es).length : Int) + exponent := by
    have := (Nat.mul_le_mul_right _ lower).trans large
    rw [← Nat.pow_add, Nat.pow_le_pow_iff_right (by decide)] at this
    rw [List.length_cons]
    omega
  have rounded : rankOfRatio (Text.ofDigits ds * Nat.pow 10 exponent.toNat)
      (Nat.pow 10 (-exponent).toNat) = rank := rankOfRatio_eq (Nat.pow_pos (by decide)) reads
  simp only [ofDecimal, digitsOf]
  rw [if_neg (not_or.mpr ⟨nonzero, notSmall⟩), if_neg notLarge]
  simp only [ofRatio, rounded, dif_pos lt]

/-- Digits with their point are read as the quotient that they denote. -/
theorem readUnsigned_writePositional {n : Nat} {e : Int} (pos : 0 < rank) (lt : rank < finiteCount)
    (reads : Numeral.Reads ⟨n, e⟩ rank) :
    readUnsigned negative (writePositional .block (Nat.toDigits 10 n)
      ((Nat.toDigits 10 n).length + e)) = some (.finite negative ⟨rank, lt⟩) := by
  have nonempty : Nat.toDigits 10 n ≠ [] := Nat.toDigits_ne_nil
  have digits : ∀ c ∈ Nat.toDigits 10 n, c.isDigit = true := fun _ => Text.isDigit_of_mem_toDigits
  have value : Text.ofDigits (Nat.toDigits 10 n) = n := Nat.ofDigitChars_ten_toDigits
  generalize Nat.toDigits 10 n = ds at *
  have zeros : ∀ k, ∀ c ∈ List.replicate k '0', c.isDigit = true := by
    rintro k c hc
    rw [List.eq_of_mem_replicate hc]
    rfl
  simp only [writePositional, Layout.block, Bool.false_eq_true, if_false, List.append_nil]
  by_cases whole : 0 ≤ e
  · -- Zeros up to the point.
    have count : ((ds.length : Int) + e).toNat - ds.length = e.toNat := by omega
    rw [if_pos (by omega), count, readUnsigned_whole (List.append_ne_nil_of_left_ne_nil nonempty _)
      (List.forall_mem_append.mpr ⟨digits, zeros _⟩)]
    refine congrArg some (ofDecimal_eq (List.forall_mem_append.mpr ⟨digits, zeros _⟩) pos lt ?_)
    have scale : (-e).toNat = 0 := by omega
    simp only [Numeral.Reads, scale] at reads
    simp only [Numeral.Reads, Text.ofDigits_append, Text.ofDigits_zeros, List.length_replicate,
      value]
    simpa [Nat.mul_comm] using reads
  · rw [if_neg (by omega)]
    by_cases inside : 0 < (ds.length : Int) + e
    · -- The point among the digits.
      rw [if_pos inside]
      have before : ds.take ((ds.length : Int) + e).toNat ≠ [] := by
        intro none
        exact (List.take_eq_nil_iff.mp none).elim (by omega) nonempty
      have rest : -((ds.drop ((ds.length : Int) + e).toNat).length : Int) = e := by
        rw [List.length_drop]
        omega
      rw [readUnsigned_point before (fun c hc => digits c (List.mem_of_mem_take hc))
        (fun c hc => digits c (List.mem_of_mem_drop hc)), List.take_append_drop, rest]
      exact congrArg some (ofDecimal_eq digits pos lt (value.symm ▸ reads))
    · -- Zeros from the point on.
      rw [if_neg inside]
      have after : ∀ c ∈ List.replicate (-((ds.length : Int) + e)).toNat '0' ++ ds,
          c.isDigit = true := List.forall_mem_append.mpr ⟨zeros _, digits⟩
      have all : ∀ c ∈ ['0'] ++ (List.replicate (-((ds.length : Int) + e)).toNat '0' ++ ds),
          c.isDigit = true := List.forall_mem_append.mpr ⟨zeros 1, after⟩
      have rest : -((List.replicate (-((ds.length : Int) + e)).toNat '0' ++ ds).length : Int)
          = e := by
        rw [List.length_append, List.length_replicate]
        omega
      have read := @readUnsigned_point negative _ _ (List.cons_ne_nil '0' []) (zeros 1) after
      rw [rest] at read
      refine read.trans (congrArg some (ofDecimal_eq all pos lt ?_))
      have zero : Text.ofDigits ['0'] = 0 := rfl
      rw [Text.ofDigits_append, Text.ofDigits_append, Text.ofDigits_zeros, zero, value]
      simpa using reads

/-- Text of digits and points only. -/
structure Plain (text : List Char) : Prop where
  nonempty : text ≠ []
  chars : ∀ c ∈ text, c.isDigit = true ∨ c = '.'

theorem plain_writePositional (nonempty : ds ≠ []) (digits : ∀ c ∈ ds, c.isDigit = true) :
    Plain (writePositional .block ds point) := by
  have zeros : ∀ k, ∀ c ∈ List.replicate k '0', c.isDigit = true ∨ c = '.' := by
    rintro k c hc
    rw [List.eq_of_mem_replicate hc]
    exact .inl rfl
  have digits : ∀ c ∈ ds, c.isDigit = true ∨ c = '.' := fun c hc => .inl (digits c hc)
  simp only [writePositional, Layout.block, Bool.false_eq_true, if_false, List.append_nil]
  split
  · exact ⟨List.append_ne_nil_of_left_ne_nil nonempty _,
      List.forall_mem_append.mpr ⟨digits, zeros _⟩⟩
  · split
    · refine ⟨List.append_ne_nil_of_right_ne_nil _ (List.cons_ne_nil _ _), ?_⟩
      exact List.forall_mem_append.mpr ⟨fun c hc => digits c (List.mem_of_mem_take hc),
        List.forall_mem_cons.mpr ⟨.inr rfl, fun c hc => digits c (List.mem_of_mem_drop hc)⟩⟩
    · refine ⟨List.cons_ne_nil _ _, List.forall_mem_cons.mpr ⟨.inl rfl, ?_⟩⟩
      exact List.forall_mem_cons.mpr ⟨.inr rfl, List.forall_mem_append.mpr ⟨zeros _, digits⟩⟩

theorem plain_writeMagnitude : Plain (writeMagnitude .block rank) := by
  simp only [writeMagnitude]
  split
  · exact plain_writePositional (List.cons_ne_nil _ _) (List.forall_mem_singleton.mpr rfl)
  · exact plain_writePositional Nat.toDigits_ne_nil fun _ => Text.isDigit_of_mem_toDigits

theorem Plain.read {text : List Char} (h : Plain text) : read text = readUnsigned false text := by
  obtain ⟨c, cs, rfl⟩ := List.exists_cons_of_ne_nil h.nonempty
  have unsigned : ∀ d : Char, d.isDigit = false → d ≠ '.' → c ≠ d := by
    rintro d other point rfl
    rcases h.chars c List.mem_cons_self with digit | rfl
    · exact Text.ne_of_isDigit digit other rfl
    · exact point rfl
  rw [Binary64.read]
  · exact fun r eq => unsigned '+' rfl (by decide) (List.cons.inj eq).1
  · exact fun r eq => unsigned '-' rfl (by decide) (List.cons.inj eq).1

theorem Plain.isField {text : List Char} (h : Plain text) : Text.IsField text where
  nonempty := h.nonempty
  solid := by
    intro c hc
    rcases h.chars c hc with digit | rfl
    · exact Text.isBlank_of_isDigit digit
    · rfl

theorem readUnsigned_writeMagnitude (rank : Fin finiteCount) :
    readUnsigned negative (writeMagnitude .block rank) = some (.finite negative rank) := by
  simp only [writeMagnitude]
  split
  next zero =>
    obtain rfl : rank = ⟨0, finiteCount_pos⟩ := Fin.ext zero
    rfl
  next nonzero =>
    exact readUnsigned_writePositional (Nat.pos_of_ne_zero nonzero) rank.isLt
      (reads_shortest (Nat.pos_of_ne_zero nonzero))

theorem toList_positive {rank : Fin finiteCount} :
    (toString (Binary64.finite false rank)).toList = writeMagnitude .block rank :=
  String.toList_ofList

theorem toList_negative {rank : Fin finiteCount} :
    (toString (Binary64.finite true rank)).toList = '-' :: writeMagnitude .block rank :=
  String.toList_ofList

/-- Every number is read back as it was written. -/
theorem read_toString (x : Binary64) : read (toString x).toList = some x := by
  cases x with
  | nan => rfl
  | infinite negative => cases negative <;> rfl
  | finite negative rank =>
    cases negative with
    | false => rw [toList_positive, plain_writeMagnitude.read, readUnsigned_writeMagnitude]
    | true =>
      rw [toList_negative]
      exact readUnsigned_writeMagnitude rank

theorem isField_toString (x : Binary64) : Text.IsField (toString x).toList := by
  cases x with
  | nan => decide
  | infinite negative => cases negative <;> decide
  | finite negative rank =>
    have plain := (@plain_writeMagnitude rank).isField
    cases negative with
    | false =>
      rw [toList_positive]
      exact plain
    | true =>
      rw [toList_negative]
      exact ⟨List.cons_ne_nil _ _, List.forall_mem_cons.mpr ⟨rfl, plain.solid⟩⟩

end Text

end Binary64

end TradingDesk
