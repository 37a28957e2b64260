-- SUMMARY: With words of 64 bits, steps and walks on the grid are exact up to the last valid price.
import TradingDesk.Proofs.Neighbours
import TradingDesk.Word64.Market

/-!
# Steps with words

A result in range is its own word, so what a desk does with words is what the integers say as
long as all results are in range. A step up is the word for the exact step; it is out of range
where no valid price that is a word lies above. Steps down only ever get nearer to zero, so they
are exact everywhere. What is known of steps and walks on the integers holds with words as well
up to the last valid price.
-/

namespace TradingDesk

/-! ## Words -/

theorem FitsWord.of_between {m n : Int} (h : FitsWord n) (nonneg : 0 ≤ m) (le : m ≤ n) :
    FitsWord m := by
  have : n ≤ 9223372036854775807 := h.2
  exact ⟨by omega, by omega⟩

theorem Kind.tickSize_le (kind : Kind) (p : Int) : kind.tickSize p ≤ 1000 := by
  cases kind with
  | equity =>
    simp only [tickSize]
    split_ifs <;> decide
  | warrant => exact (by decide : (5 : Int) ≤ 1000)
  | tracker => exact (by decide : (5 : Int) ≤ 1000)

namespace Overflow

variable {o : Overflow} {kind : Kind} {n : Nat} {p q : Int}

theorem word_of_fitsWord {r : Int} (h : FitsWord r) : o.word r = some r := by
  obtain ⟨low, high⟩ := h
  cases o with
  | wraps =>
    rw [word, Int.bmod_eq_of_le] <;> omega
  | stops => exact if_pos ⟨low, high⟩

/-- Just above the words there are none, and what wraps around is negative. -/
theorem neg_of_word {r s : Int} (above : 9223372036854775807 < r) (near : r < 18446744073709551616)
    (h : o.word r = some s) : s < 0 := by
  cases o with
  | wraps =>
    simp only [word, Option.some.injEq, Int.bmod_def] at h
    split at h <;> omega
  | stops =>
    have out : ¬FitsWord r := fun range => not_le.mpr above range.2
    simp only [word, if_neg out, reduceCtorEq] at h

/-! ## Steps -/

theorem alignDown_exact (nonneg : 0 ≤ p) (h : FitsWord p) :
    o.alignDown kind p = some (kind.alignDown p) := by
  have word : FitsWord (kind.alignDown p) :=
    h.of_between (kind.alignDown_nonneg p) (Kind.alignDown_le nonneg)
  simp only [alignDown, Kind.alignDown] at word ⊢
  split
  · rfl
  next pos =>
    rw [if_neg pos] at word
    exact word_of_fitsWord word

/-- A step up is the word for the exact one. -/
theorem tickUp_eq_word (nonneg : 0 ≤ p) (h : FitsWord p) :
    o.tickUp kind p = o.word (kind.tickUp p) := by
  simp only [tickUp, alignDown_exact nonneg h, Option.bind_eq_bind, Option.bind_some, Kind.tickUp]
  split <;> rfl

theorem tickUp_exact (nonneg : 0 ≤ p) (h : FitsWord p) (next : FitsWord (kind.tickUp p)) :
    o.tickUp kind p = some (kind.tickUp p) := by
  rw [tickUp_eq_word nonneg h, word_of_fitsWord next]

/-- A step up that leaves the words comes to no price. -/
theorem neg_of_tickUp (nonneg : 0 ≤ p) (h : FitsWord p) (out : ¬FitsWord (kind.tickUp p))
    (up : o.tickUp kind p = some q) : q < 0 := by
  have le : p ≤ 9223372036854775807 := h.2
  have lt : p < kind.tickUp p := kind.lt_tickUp p
  have step : kind.tickUp p = kind.alignDown p + kind.tickSize p := Kind.tickUp_eq nonneg
  have aligned : kind.alignDown p ≤ p := Kind.alignDown_le nonneg
  have size : kind.tickSize p ≤ 1000 := kind.tickSize_le p
  have above : 9223372036854775807 < kind.tickUp p := by
    by_contra within
    exact out ⟨by omega, by omega⟩
  rw [tickUp_eq_word nonneg h] at up
  exact neg_of_word above (by omega) up

theorem fitsWord_tickDown (h : FitsWord p) : FitsWord (kind.tickDown p) := by
  rcases le_or_gt p 0 with none | pos
  · rw [Kind.tickDown, if_pos none]
    decide
  · exact h.of_between (kind.tickDown_nonneg p) (kind.tickDown_lt pos).le

theorem tickDown_exact (h : FitsWord p) : o.tickDown kind p = some (kind.tickDown p) := by
  obtain ⟨low, high⟩ := h
  simp only [tickDown, Kind.tickDown]
  split
  · rfl
  next pos =>
    have size : kind.tickSize (p - 1) ≤ 1000 := kind.tickSize_le (p - 1)
    have size_pos : 0 < kind.tickSize (p - 1) := kind.tickSize_pos (p - 1)
    have below : o.word (p - 1) = some (p - 1) := word_of_fitsWord ⟨by omega, by omega⟩
    have next : o.word (p - kind.tickSize (p - 1)) = some (p - kind.tickSize (p - 1)) :=
      word_of_fitsWord ⟨by omega, by omega⟩
    simp only [alignDown_exact (not_le.mp pos).le ⟨low, high⟩, below, next, Option.bind_eq_bind,
      Option.bind_some]
    split <;> rfl

/-! ## Walks -/

theorem climb_exact (nonneg : 0 ≤ p) (h : FitsWord (kind.climb n p)) :
    o.climb kind n p = some (kind.climb n p) := by
  induction n generalizing p with
  | zero => rfl
  | succ n ih =>
    have up : p < kind.tickUp p := kind.lt_tickUp p
    have upNonneg : 0 ≤ kind.tickUp p := nonneg.trans up.le
    have within : kind.tickUp p ≤ kind.climb n (kind.tickUp p) := Kind.climb_le (Nat.zero_le n)
    have next : FitsWord (kind.tickUp p) := h.of_between upNonneg within
    have step : o.tickUp kind p = some (kind.tickUp p) :=
      tickUp_exact nonneg (next.of_between nonneg up.le) next
    rw [climb, step]
    exact ih upNonneg h

theorem descend_exact (h : FitsWord p) : o.descend kind n p = some (kind.descend n p) := by
  induction n generalizing p with
  | zero => rfl
  | succ n ih =>
    rw [descend, tickDown_exact h]
    exact ih (fitsWord_tickDown h)

/-- A walk that stays within the words does so at each of its steps. -/
theorem fitsWord_climb {m : Nat} (nonneg : 0 ≤ p) (h : FitsWord (kind.climb n p)) (le : m ≤ n) :
    FitsWord (kind.climb m p) :=
  h.of_between (nonneg.trans (Kind.climb_le (Nat.zero_le m))) (Kind.climb_le le)

theorem fitsWord_descend (h : FitsWord p) : FitsWord (kind.descend n p) := by
  induction n with
  | zero => exact h
  | succ n ih => exact Kind.descend_succ kind n p ▸ fitsWord_tickDown ih

theorem image_climb (nonneg : 0 ≤ p) (h : FitsWord (kind.climb n p)) :
    (kind.climb · p) '' Set.Icc 1 n = {q | ∃ m, 1 ≤ m ∧ m ≤ n ∧ o.climb kind m p = some q} := by
  ext q
  constructor
  · rintro ⟨m, ⟨some, le⟩, rfl⟩
    exact ⟨m, some, le, climb_exact nonneg (fitsWord_climb nonneg h le)⟩
  · rintro ⟨m, some, le, met⟩
    rw [climb_exact nonneg (fitsWord_climb nonneg h le)] at met
    exact ⟨m, ⟨some, le⟩, Option.some.inj met⟩

theorem image_descend (h : FitsWord p) :
    (kind.descend · p) '' Set.Icc 1 n
      = {q | ∃ m, 1 ≤ m ∧ m ≤ n ∧ o.descend kind m p = some q} := by
  ext q
  simp only [Set.mem_image, Set.mem_Icc, Set.mem_ofPred_eq, descend_exact h, Option.some.injEq,
    and_assoc]

end Overflow

end TradingDesk
