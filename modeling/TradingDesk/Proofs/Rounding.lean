-- SUMMARY: Rounding to nearest finds the magnitude whose neighbourhood a quotient lies in.
import Mathlib.Order.Monotone.Basic
import Mathlib.Tactic.Linarith
import Mathlib.Tactic.Ring
import TradingDesk.Binary64.Shortest

/-!
# Rounding

A magnitude is a significand and the place of its last digit, and the next magnitude is one
more at that place. So magnitudes are strictly increasing, their neighbourhoods have no more
than an end in common, and that end belongs to the even one. A quotient is rounded to a
magnitude in whose neighbourhood it lies; hence to any in whose neighbourhood it lies.
-/

namespace TradingDesk.Binary64

variable {rank rank' place digits num den : Nat}

theorem binadeSize_eq : binadeSize = 4503599627370496 := by decide

theorem halfUnits_eq : halfUnits = 2 * Nat.pow 2 1074 := by decide +kernel

/-! ## Magnitudes -/

theorem rank_eq : lastPlace rank * binadeSize + significand rank = rank := by
  have := Nat.div_add_mod rank binadeSize
  simp only [lastPlace, significand, binadeSize_eq] at *
  split <;> omega

theorem significand_lt : significand rank < 2 * binadeSize := by
  have := Nat.mod_lt rank (show 0 < binadeSize by decide)
  simp only [significand, binadeSize_eq] at *
  split <;> omega

/-- Only magnitudes at the least place have fewer digits. -/
theorem normal_of_place : lastPlace rank = 0 ∨ binadeSize ≤ significand rank := by
  simp only [lastPlace, significand, binadeSize_eq]
  split <;> omega

/-- A magnitude by its place and its digits there, which may be one too many. -/
theorem units_place (few : digits ≤ 2 * binadeSize) (normal : place = 0 ∨ binadeSize ≤ digits) :
    units (place * binadeSize + digits) = digits * 2 ^ place := by
  by_cases full : digits = 2 * binadeSize
  · have hplace : lastPlace (place * binadeSize + digits) = place + 1 := by
      simp only [lastPlace, binadeSize_eq] at *
      omega
    have hdigits : significand (place * binadeSize + digits) = binadeSize := by
      simp only [significand, binadeSize_eq] at *
      split <;> omega
    rw [units, hplace, hdigits, full, Nat.pow_eq, Nat.pow_succ]
    ring
  · have hplace : lastPlace (place * binadeSize + digits) = place := by
      simp only [lastPlace, binadeSize_eq] at *
      omega
    have hdigits : significand (place * binadeSize + digits) = digits := by
      simp only [significand, binadeSize_eq] at *
      split <;> omega
    rw [units, hplace, hdigits, Nat.pow_eq]

theorem units_lt_succ (rank : Nat) : units rank < units (rank + 1) := by
  have lt : significand rank < 2 * binadeSize := significand_lt
  have next : units (lastPlace rank * binadeSize + (significand rank + 1))
      = (significand rank + 1) * 2 ^ lastPlace rank :=
    units_place lt (normal_of_place.imp_right Nat.le_succ_of_le)
  rw [← Nat.add_assoc, rank_eq] at next
  rw [next, units, Nat.pow_eq]
  exact Nat.mul_lt_mul_of_pos_right (Nat.lt_succ_self _) (Nat.two_pow_pos _)

theorem units_strictMono : StrictMono units := strictMono_nat_of_lt_succ units_lt_succ

/-! ## Neighbourhoods -/

/-- Whether a quotient lies in the neighbourhood of a magnitude. -/
structure Near (rank num den : Nat) : Prop where
  low : (neighbourhood rank).low * den ≤ num * halfUnits
  high : num * halfUnits ≤ (neighbourhood rank).high * den
  /-- The ends belong to the neighbourhood of an even magnitude only. -/
  ends : rank % 2 = 1 → (neighbourhood rank).low * den ≠ num * halfUnits
    ∧ num * halfUnits ≠ (neighbourhood rank).high * den

theorem Near.le (pos : 0 < den) (near : Near rank num den) (near' : Near rank' num den) :
    rank' ≤ rank := by
  by_contra lt
  have before : units rank ≤ units (rank' - 1) := units_strictMono.monotone (by omega)
  have after : units (rank + 1) ≤ units rank' := units_strictMono.monotone (by omega)
  have ordered : (neighbourhood rank).high * den ≤ (neighbourhood rank').low * den :=
    Nat.mul_le_mul_right den (Nat.add_le_add before after)
  -- The neighbourhoods meet in an end only, so both ranks are even and one follows the other.
  have := near.high
  have := near'.low
  have even : rank % 2 = 0 := by
    have := near.ends
    omega
  have even' : rank' % 2 = 0 := by
    have := near'.ends
    omega
  have meet : (neighbourhood rank).high = (neighbourhood rank').low :=
    Nat.eq_of_mul_eq_mul_right pos (by omega)
  simp only [neighbourhood] at meet
  have next : rank + 1 = rank' := units_strictMono.injective (by omega)
  omega

theorem Near.unique (pos : 0 < den) (near : Near rank num den) (near' : Near rank' num den) :
    rank = rank' :=
  le_antisymm (near'.le pos near) (near.le pos near')

/-! ## Rounding -/

/-- What is nearest is off by half at most, and if it is off by half it is even. -/
structure Rounds (num den n : Nat) : Prop where
  high : 2 * num ≤ 2 * (n * den) + den
  low : 2 * (n * den) ≤ 2 * num + den
  even : n % 2 = 1 → 2 * num ≠ 2 * (n * den) + den ∧ 2 * (n * den) ≠ 2 * num + den

theorem rounds_roundHalfEven (pos : 0 < den) : Rounds num den (roundHalfEven num den) := by
  have split := Nat.div_add_mod' num den
  have := Nat.mod_lt num pos
  simp only [roundHalfEven, Bool.or_eq_true, Bool.and_eq_true, decide_eq_true_eq, beq_iff_eq]
  split
  next down => exact ⟨by omega, by omega, by omega⟩
  next up =>
    have succ : (num / den + 1) * den = num / den * den + den := Nat.succ_mul _ _
    exact ⟨by omega, by omega, by omega⟩

/-- The place that a quotient is rounded at: it has 53 digits before it, or fewer at the least. -/
theorem place_spec (num : Nat) (pos : 0 < den) :
    let place := (num / den).log2 - 52
    num < 2 * binadeSize * (den * 2 ^ place)
      ∧ (place = 0 ∨ binadeSize * (den * 2 ^ place) ≤ num) := by
  intro place
  have size : binadeSize = 2 ^ 52 := by rw [binadeSize, Nat.pow_eq]
  constructor
  · have lt : num / den < 2 ^ (place + 53) :=
      Nat.lt_log2_self.trans_le (Nat.pow_le_pow_right Nat.two_pos (by omega))
    have := (Nat.div_lt_iff_lt_mul pos).mp lt
    rw [size]
    calc num < 2 ^ (place + 53) * den := this
      _ = _ := by ring
  · by_cases least : place = 0
    · exact .inl least
    · right
      have nonzero : num / den ≠ 0 := by
        intro zero
        simp [place, zero] at least
      have le : 2 ^ (place + 52) ≤ num / den := by
        have : place + 52 = (num / den).log2 := by omega
        rw [this]
        exact Nat.log2_self_le nonzero
      have := (Nat.le_div_iff_mul_le pos).mp le
      rw [size]
      calc _ = 2 ^ (place + 52) * den := by ring
        _ ≤ num := this

section Rounded

variable {scaled unit size n : Nat}

/-- Rounding at a place leads to digits there, one too many at most. -/
theorem Rounds.few (rounds : Rounds scaled unit n) (below : scaled < 2 * size * unit) :
    n ≤ 2 * size := by
  by_contra more
  have := Nat.mul_le_mul_right unit (show 2 * size + 1 ≤ n by omega)
  have := rounds.low
  rw [Nat.succ_mul (2 * size)] at *
  omega

theorem Rounds.many (rounds : Rounds scaled unit n) (pos : 0 < unit)
    (above : size * unit ≤ scaled) : size ≤ n := by
  by_contra fewer
  have := Nat.mul_le_mul_right unit (show n + 1 ≤ size by omega)
  have := rounds.high
  rw [Nat.succ_mul] at *
  omega

/-- A quotient that is rounded to a magnitude is not past the upper end of its neighbourhood. -/
theorem Rounds.near_high (rounds : Rounds scaled unit n) (pos : 0 < den)
    (hunit : unit = den * 2 ^ place) (hrank : rank = place * binadeSize + n)
    (below : scaled < 2 * binadeSize * unit) (normal : place = 0 ∨ binadeSize ≤ n) :
    2 * scaled ≤ (units rank + units (rank + 1)) * den
      ∧ (n % 2 = 1 → 2 * scaled ≠ (units rank + units (rank + 1)) * den) := by
  have few := rounds.few below
  have here : units rank = n * 2 ^ place := hrank ▸ units_place few normal
  rcases few.lt_or_eq with more | full
  · have next : units (place * binadeSize + (n + 1)) = (n + 1) * 2 ^ place :=
      units_place more (normal.imp_right Nat.le_succ_of_le)
    rw [← Nat.add_assoc, ← hrank] at next
    have ends : (units rank + units (rank + 1)) * den = 2 * (n * unit) + unit := by
      rw [here, next, hunit]
      ring
    rw [ends]
    exact ⟨rounds.high, fun odd => (rounds.even odd).1⟩
  · -- The next magnitude is farther off, and the quotient is less than this one.
    have here : units rank * den = 2 * binadeSize * unit := by
      rw [here, full, hunit]
      ring
    have next : units rank * den < units (rank + 1) * den :=
      Nat.mul_lt_mul_of_pos_right (units_lt_succ rank) pos
    rw [Nat.add_mul]
    generalize 2 * binadeSize * unit = bound at *
    omega

/-- Nor is it before the lower end. -/
theorem Rounds.near_low (rounds : Rounds scaled unit n) (pos : 0 < den)
    (hunit : unit = den * 2 ^ place) (hrank : rank = place * binadeSize + n)
    (below : scaled < 2 * binadeSize * unit) (above : place = 0 ∨ binadeSize * unit ≤ scaled)
    (normal : place = 0 ∨ binadeSize ≤ n) :
    (units (rank - 1) + units rank) * den ≤ 2 * scaled
      ∧ (n % 2 = 1 → (units (rank - 1) + units rank) * den ≠ 2 * scaled) := by
  have few := rounds.few below
  have here : units rank = n * 2 ^ place := hrank ▸ units_place few normal
  by_cases least : place ≠ 0 ∧ n = binadeSize
  · -- The magnitude before is nearer, but the quotient is no less than this one.
    have here : units rank * den = binadeSize * unit := by
      rw [here, least.2, hunit]
      ring
    have := above.resolve_left least.1
    have positive : 0 < rank := by
      rw [hrank, least.2]
      exact Nat.add_pos_right _ (by decide)
    have before : units (rank - 1) * den < units rank * den :=
      Nat.mul_lt_mul_of_pos_right (units_strictMono (by omega)) pos
    rw [Nat.add_mul]
    generalize binadeSize * unit = bound at *
    omega
  · cases n with
    | zero =>
      have zero : rank = 0 := by
        have := binadeSize_eq
        have : place = 0 := by omega
        rw [hrank, this, Nat.zero_mul]
      have nothing : units 0 = 0 := by
        simp [units, significand]
      simp [zero, nothing]
    | succ n =>
      have before : units (place * binadeSize + n) = n * 2 ^ place :=
        units_place (by omega) (by omega)
      have previous : rank - 1 = place * binadeSize + n := by
        rw [hrank, ← Nat.add_assoc, Nat.add_sub_cancel]
      have ends : (units (rank - 1) + units rank) * den + unit = 2 * ((n + 1) * unit) := by
        rw [here, previous, before, hunit]
        ring
      have := rounds.low
      have := rounds.even
      omega

end Rounded

/-- A quotient lies in the neighbourhood of what it is rounded to. -/
theorem near_rankOfRatio (pos : 0 < den) : Near (rankOfRatio num den) num den := by
  have doubled : num * halfUnits = 2 * (num * Nat.pow 2 1074) :=
    (congrArg (num * ·) halfUnits_eq).trans (Nat.mul_left_comm num 2 (Nat.pow 2 1074))
  rw [rankOfRatio]
  generalize num * Nat.pow 2 1074 = scaled at *
  obtain ⟨below, above⟩ := place_spec scaled pos
  generalize (scaled / den).log2 - 52 = place at *
  have positive : 0 < den * 2 ^ place := Nat.mul_pos pos (Nat.two_pow_pos place)
  have rounds : Rounds scaled (den * 2 ^ place) (roundHalfEven scaled (den * 2 ^ place)) :=
    rounds_roundHalfEven positive
  rw [Nat.pow_eq]
  generalize roundHalfEven scaled (den * 2 ^ place) = n at *
  have parity : (place * binadeSize + n) % 2 = n % 2 := by
    rw [binadeSize_eq]
    omega
  have normal := above.imp_right (rounds.many positive)
  obtain ⟨high, highEnd⟩ := rounds.near_high pos rfl rfl below normal
  obtain ⟨low, lowEnd⟩ := rounds.near_low pos rfl rfl below above normal
  rw [← doubled] at *
  exact ⟨low, high, fun odd => ⟨lowEnd (parity ▸ odd), highEnd (parity ▸ odd)⟩⟩

theorem rankOfRatio_eq (pos : 0 < den) (near : Near rank num den) : rankOfRatio num den = rank :=
  (near_rankOfRatio pos).unique pos near

end TradingDesk.Binary64
