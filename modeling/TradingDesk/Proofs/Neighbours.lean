-- SUMMARY: Steps lead to the neighbouring valid prices, and walks meet every valid price on their way.
import Mathlib.Order.Bounds.Basic
import Mathlib.Order.Interval.Set.Basic
import TradingDesk.Proofs.Grid

/-!
# Neighbours on the grid

A step passes over no valid price. What is left to show is where it ends: one spacing above a
price of the grid is again a price of the grid, also where a new band begins, because each band
begins at a multiple of its spacing. So a step up from any price ends at the least valid price
above it, and a step down at the greatest below it, or at zero where there is none. Everything
else follows from that: the two steps undo each other, and a walk goes from each valid price to
the next one.
-/

namespace TradingDesk

namespace Kind

variable {kind : Kind} {p q : Int} {n : Nat}

/-- The valid prices. -/
def grid (kind : Kind) : Set Int := {p | kind.validPrice p = true}

theorem pos_of_grid (valid : p ∈ kind.grid) : 0 < p := (validPrice_iff.mp valid).1

/-! ## Where steps end -/

/-- A band begins at a multiple of its spacing and of the one before. -/
theorem tickSize_dvd_add (onGrid : kind.tickSize p ∣ p) :
    kind.tickSize (p + kind.tickSize p) ∣ p + kind.tickSize p := by
  cases kind with
  | equity =>
    obtain ⟨tick, band⟩ : ∃ tick, equity.tickSize p = tick := ⟨_, rfl⟩
    rw [band] at onGrid ⊢
    simp only [tickSize] at band ⊢
    split_ifs at band <;> subst band <;> split_ifs <;> omega
  | warrant => exact Int.dvd_add onGrid dvd_rfl
  | tracker => exact Int.dvd_add onGrid dvd_rfl

theorem alignDown_mem (pos : 0 < kind.alignDown p) : kind.alignDown p ∈ kind.grid := by
  refine validPrice_iff.mpr ⟨pos, ?_⟩
  rw [tickSize_alignDown]
  exact dvd_alignDown

theorem tickUp_mem (nonneg : 0 ≤ p) : kind.tickUp p ∈ kind.grid := by
  refine validPrice_iff.mpr ⟨nonneg.trans_lt (kind.lt_tickUp p), ?_⟩
  have band : kind.tickSize (kind.alignDown p) = kind.tickSize p := kind.tickSize_alignDown p
  have onGrid : kind.tickSize (kind.alignDown p) ∣ kind.alignDown p := band ▸ dvd_alignDown
  rw [tickUp_eq nonneg, ← band]
  exact tickSize_dvd_add onGrid

/-- Only a positive price has a valid one below it. -/
theorem pos_of_tickDown (pos : 0 < kind.tickDown p) : 0 < p := by
  by_contra none
  exact pos.ne' (if_pos (not_lt.mp none))

theorem tickDown_mem (pos : 0 < kind.tickDown p) : kind.tickDown p ∈ kind.grid := by
  have aligned : kind.tickDown p = kind.alignDown (p - 1) := tickDown_eq (pos_of_tickDown pos)
  rw [aligned] at pos ⊢
  exact alignDown_mem pos

theorem isLeast_tickUp (nonneg : 0 ≤ p) : IsLeast {q ∈ kind.grid | p < q} (kind.tickUp p) := by
  refine ⟨⟨tickUp_mem nonneg, kind.lt_tickUp p⟩, ?_⟩
  rintro q ⟨valid, above⟩
  exact tickUp_le nonneg valid above

theorem isGreatest_tickDown (pos : 0 < kind.tickDown p) :
    IsGreatest {q ∈ kind.grid | q < p} (kind.tickDown p) := by
  refine ⟨⟨tickDown_mem pos, kind.tickDown_lt (pos_of_tickDown pos)⟩, ?_⟩
  rintro q ⟨valid, below⟩
  exact le_tickDown valid below

theorem grid_below_eq_empty (zero : kind.tickDown p = 0) : {q ∈ kind.grid | q < p} = ∅ := by
  refine Set.eq_empty_of_forall_notMem ?_
  rintro q ⟨valid, below⟩
  have found : q ≤ kind.tickDown p := le_tickDown valid below
  exact not_le.mpr (pos_of_grid valid) (zero ▸ found)

/-! ## Back and forth -/

theorem tickDown_tickUp (onGrid : p = 0 ∨ p ∈ kind.grid) : kind.tickDown (kind.tickUp p) = p := by
  have nonneg : 0 ≤ p := onGrid.elim ge_of_eq fun valid => (pos_of_grid valid).le
  have up : p < kind.tickUp p := kind.lt_tickUp p
  refine le_antisymm (not_lt.mp fun more => ?_) ?_
  · -- Where the step down ends would be a valid price that the step up passed over.
    have between : kind.tickUp p ≤ kind.tickDown (kind.tickUp p) :=
      tickUp_le nonneg (tickDown_mem (nonneg.trans_lt more)) more
    exact not_lt.mpr between (kind.tickDown_lt (nonneg.trans_lt up))
  · rcases onGrid with rfl | valid
    · exact kind.tickDown_nonneg _
    · exact le_tickDown valid up

theorem tickUp_tickDown (valid : p ∈ kind.grid) : kind.tickUp (kind.tickDown p) = p := by
  have nonneg : 0 ≤ kind.tickDown p := kind.tickDown_nonneg p
  have down : kind.tickDown p < p := kind.tickDown_lt (pos_of_grid valid)
  refine le_antisymm (tickUp_le nonneg valid down) (not_lt.mp fun less => ?_)
  have between : kind.tickUp (kind.tickDown p) ≤ kind.tickDown p :=
    le_tickDown (tickUp_mem nonneg) less
  exact not_lt.mpr between (kind.lt_tickUp _)

/-! ## Walks -/

theorem climb_mem (nonneg : 0 ≤ p) (some : 1 ≤ n) : kind.climb n p ∈ kind.grid := by
  obtain ⟨m, rfl⟩ := Nat.exists_eq_add_of_le' some
  rw [climb_succ]
  exact tickUp_mem (nonneg.trans (climb_le (Nat.zero_le m)))

theorem descend_mem (some : 1 ≤ n) (pos : 0 < kind.descend n p) : kind.descend n p ∈ kind.grid := by
  obtain ⟨m, rfl⟩ := Nat.exists_eq_add_of_le' some
  rw [descend_succ] at pos ⊢
  exact tickDown_mem pos

/-- The valid prices on the way up are those that the steps end at. -/
theorem grid_within_climb (nonneg : 0 ≤ p) (n : Nat) :
    {q ∈ kind.grid | p < q ∧ q ≤ kind.climb n p} = (kind.climb · p) '' Set.Icc 1 n := by
  ext q
  constructor
  · rintro ⟨valid, above, within⟩
    obtain ⟨k, hk, met⟩ := (exists_climb valid n nonneg above.le).resolve_right (not_lt.mpr within)
    have started : k ≠ 0 := by
      rintro rfl
      exact above.ne met
    exact ⟨k, ⟨Nat.one_le_iff_ne_zero.mpr started, hk⟩, met⟩
  · rintro ⟨k, ⟨some, hk⟩, rfl⟩
    exact ⟨climb_mem nonneg some, climb_lt some, climb_le hk⟩

/-- The valid prices on the way down are those that the steps end at, until there are none left. -/
theorem grid_within_descend (kind : Kind) (p : Int) (n : Nat) :
    {q ∈ kind.grid | kind.descend n p ≤ q ∧ q < p}
      = {q ∈ (kind.descend · p) '' Set.Icc 1 n | 0 < q} := by
  ext q
  constructor
  · rintro ⟨valid, within, below⟩
    obtain ⟨k, hk, met⟩ := (exists_descend valid n below.le).resolve_right (not_lt.mpr within)
    have started : k ≠ 0 := by
      rintro rfl
      exact below.ne' met
    exact ⟨⟨k, ⟨Nat.one_le_iff_ne_zero.mpr started, hk⟩, met⟩, pos_of_grid valid⟩
  · rintro ⟨⟨k, ⟨some, hk⟩, rfl⟩, pos⟩
    refine ⟨descend_mem some pos, ?_, descend_lt some pos⟩
    rcases lt_or_ge 0 (kind.descend n p) with left | none
    · exact descend_le hk left
    · exact none.trans (le_of_lt pos)

theorem add_le_climb (kind : Kind) (n : Nat) (p : Int) : p + n ≤ kind.climb n p := by
  induction n with
  | zero => exact (Int.add_zero p).le
  | succ n ih =>
    have := kind.lt_climb_succ n p
    omega

theorem descend_add_le (pos : 0 < kind.descend n p) : kind.descend n p + n ≤ p := by
  induction n with
  | zero => exact (Int.add_zero p).le
  | succ n ih =>
    have last : kind.descend (n + 1) p < kind.descend n p := descend_lt n.lt_add_one pos
    have := ih (pos.trans last)
    omega

/-- A walk up meets every valid price in the end. -/
theorem exists_climb_eq (nonneg : 0 ≤ p) (valid : q ∈ kind.grid) (above : p < q) :
    ∃ n, kind.climb n p = q := by
  have far := kind.add_le_climb (q - p).toNat p
  obtain ⟨k, -, met⟩ := (exists_climb valid (q - p).toNat nonneg above.le).resolve_right (by omega)
  exact ⟨k, met⟩

/-- A walk down meets every valid price in the end. -/
theorem exists_descend_eq (valid : q ∈ kind.grid) (below : q < p) :
    ∃ n, kind.descend n p = q := by
  have pos := pos_of_grid valid
  have met := exists_descend valid (p - q).toNat below.le
  refine (met.resolve_right fun beyond => ?_).imp fun k reached => reached.2
  have := descend_add_le (pos.trans beyond)
  omega

/-- From every price, on the grid or off it, a step up leads to the least valid price above and
a step down to the greatest one below, or to zero where there is none. So on valid prices each
step undoes the other, and the step up from zero leads to the least valid price of all and the
step down from there back to zero. A walk of any length, in either direction, goes through all
the valid prices between its ends and through no others, and it comes to each valid price in its
direction if it is long enough. -/
theorem steps_adjacent (kind : Kind) :
    (∀ p, 0 ≤ p → IsLeast {q ∈ kind.grid | p < q} (kind.tickUp p))
      ∧ (∀ p, 0 < p → IsGreatest {q ∈ kind.grid | q < p} (kind.tickDown p)
          ∨ kind.tickDown p = 0 ∧ {q ∈ kind.grid | q < p} = ∅)
      ∧ (∀ p ∈ kind.grid, kind.tickDown (kind.tickUp p) = p ∧ kind.tickUp (kind.tickDown p) = p)
      ∧ IsLeast kind.grid (kind.tickUp 0) ∧ kind.tickDown (kind.tickUp 0) = 0
      ∧ ∀ p, 0 ≤ p →
          (∀ n, {q ∈ kind.grid | p < q ∧ q ≤ kind.climb n p} = (kind.climb · p) '' Set.Icc 1 n
            ∧ {q ∈ kind.grid | kind.descend n p ≤ q ∧ q < p}
                = {q ∈ (kind.descend · p) '' Set.Icc 1 n | 0 < q})
          ∧ (∀ q ∈ kind.grid, p < q → ∃ n, kind.climb n p = q)
          ∧ ∀ q ∈ kind.grid, q < p → ∃ n, kind.descend n p = q := by
  refine ⟨fun p nonneg => isLeast_tickUp nonneg, fun p pos => ?_, fun p valid => ?_, ?_,
    tickDown_tickUp (.inl rfl), fun p nonneg => ⟨fun n => ?_, fun q valid => ?_, fun q valid => ?_⟩⟩
  · rcases (kind.tickDown_nonneg p).lt_or_eq with some | zero
    · exact .inl (isGreatest_tickDown some)
    · exact .inr ⟨zero.symm, grid_below_eq_empty zero.symm⟩
  · exact ⟨tickDown_tickUp (.inr valid), tickUp_tickDown valid⟩
  · refine ⟨tickUp_mem le_rfl, fun q valid => ?_⟩
    exact tickUp_le le_rfl valid (pos_of_grid valid)
  · exact ⟨grid_within_climb nonneg n, kind.grid_within_descend p n⟩
  · exact exists_climb_eq nonneg valid
  · exact exists_descend_eq valid

end Kind

end TradingDesk
