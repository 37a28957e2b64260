-- SUMMARY: With words of 64 bits, the affordable quantity is exact if one lot more has a cost in range.
import Mathlib.Data.Int.Interval
import Mathlib.Order.Interval.Finset.Nat
import TradingDesk.Proofs.Affordable
import TradingDesk.Proofs.Words

/-!
# Affordable quantities with words

The dearest quantity that the search asks the cost of is one lot above the one that it ends at,
so where that cost is in range the search is the one on the integers. Where costs wrap around
the search may end too late or never; a search that is given up after as many rounds as there
are words would never end, because it has come to some word for the second time.
-/

namespace TradingDesk

namespace Kind

variable {kind : Kind} {price cash m n : Int}

/-- Of less of the same, neither the notional nor the cost goes out of range. -/
theorem fitsWord_cost_of_le (nonneg : 0 ≤ m) (le : m ≤ n) (h : FitsWord (kind.cost price n)) :
    FitsWord (price * m) ∧ FitsWord (kind.cost price m) := by
  obtain ⟨low, high⟩ := h
  rcases le_or_gt 0 price with hp | hp
  · have notional : 0 ≤ price * m := mul_nonneg hp nonneg
    have costs : price * m ≤ kind.cost price m := kind.le_cost price m
    have mono : kind.cost price m ≤ kind.cost price n :=
      kind.cost_mono (mul_le_mul_of_nonneg_left le hp)
    exact ⟨⟨by omega, by omega⟩, by omega, by omega⟩
  · -- There is no fee at a price below zero.
    have free : ∀ k, 0 ≤ k → kind.cost price k = price * k ∧ price * k ≤ 0 := by
      intro k hk
      have notional : price * k ≤ 0 := mul_nonpos_of_nonpos_of_nonneg hp.le hk
      rw [cost, buyFee, if_pos notional, Int.add_zero]
      exact ⟨rfl, notional⟩
    obtain ⟨here, least⟩ := free m nonneg
    obtain ⟨whole, -⟩ := free n (nonneg.trans le)
    have mono : price * n ≤ price * m := mul_le_mul_of_nonpos_left le hp.le
    rw [here]
    exact ⟨⟨by omega, by omega⟩, by omega, by omega⟩

/-- The guess that the search starts from is paid for: its fee is rounded to nearest, and the
whole cash is a whole number. -/
theorem cost_guess_le (pos : 0 < price) (funded : 0 < cash) :
    let guess := kind.roundLot (cash * 100000 / (price * (100000 + commissionRate)))
    0 ≤ guess ∧ kind.cost price guess ≤ cash := by
  intro guess
  have unit : 0 < price * (100000 + commissionRate) := mul_pos pos (by decide)
  have quotient : 0 ≤ cash * 100000 / (price * (100000 + commissionRate)) :=
    Int.ediv_nonneg (by omega) unit.le
  have nonneg : 0 ≤ guess := kind.roundLot_nonneg _
  have le : guess ≤ cash * 100000 / (price * (100000 + commissionRate)) := kind.roundLot_le quotient
  have scaled : guess * (price * (100000 + commissionRate)) ≤ cash * 100000 :=
    (mul_le_mul_of_nonneg_right le unit.le).trans (Int.ediv_mul_le _ unit.ne')
  have notional : guess * (price * (100000 + commissionRate)) = price * guess * 100015 := by
    rw [← mul_assoc, mul_comm guess price]
    rfl
  rw [notional] at scaled
  refine ⟨nonneg, ?_⟩
  simp only [cost, buyFee, chargeRounded, commissionRate]
  split <;> omega

/-- Whether the search for what the cash is enough for stays in range: it ends with the cost of
one lot more. -/
def Searchable (kind : Kind) (price cash : Int) : Prop :=
  0 < price → 0 < cash → FitsWord (kind.cost price (kind.maxAffordable price cash + kind.lot))

instance : Decidable (kind.Searchable price cash) := inferInstanceAs (Decidable (_ → _ → _))

end Kind

namespace Overflow

variable {o : Overflow} {kind : Kind} {price cash qty last : Int} {m n : Nat}

/-! ## Costs -/

theorem cost_exact (notional : FitsWord (price * qty)) (total : FitsWord (kind.cost price qty)) :
    o.cost kind price qty = some (kind.cost price qty) := by
  rw [cost, word_of_fitsWord notional]
  exact word_of_fitsWord total

theorem cost_exact_of_le {whole : Int} (nonneg : 0 ≤ qty) (le : qty ≤ whole)
    (h : FitsWord (kind.cost price whole)) : o.cost kind price qty = some (kind.cost price qty) :=
  have range := Kind.fitsWord_cost_of_le nonneg le h
  cost_exact range.1 range.2

/-! ## The two loops -/

theorem shrinkToCash_exact (nonneg : 0 ≤ qty) (paid : kind.cost price qty ≤ cash)
    (range : FitsWord (kind.cost price qty)) : o.shrinkToCash kind price cash qty = some qty := by
  rw [shrinkToCash, cost_exact_of_le nonneg le_rfl range]
  simp only [if_neg (not_lt.mpr paid), ite_self]

theorem fitsWord_of_cost (pos : 0 < price) (nonneg : 0 ≤ qty) (h : FitsWord (kind.cost price qty)) :
    FitsWord qty := by
  have units : qty ≤ price * qty := le_mul_of_one_le_left nonneg pos
  exact h.of_between nonneg (units.trans (kind.le_cost price qty))

/-- The search upward takes a round for each lot that is missing. -/
theorem growToCash_exact (pos : 0 < price) (nonneg : 0 ≤ qty) (le : qty ≤ last)
    (lots : kind.lot ∣ last - qty) (paid : kind.cost price last ≤ cash)
    (most : cash < kind.cost price (last + kind.lot))
    (range : FitsWord (kind.cost price (last + kind.lot))) (enough : last - qty < n) :
    o.growToCash kind price cash n qty = some last := by
  induction n generalizing qty with
  | zero => omega
  | succ n ih =>
    have lot : 0 < kind.lot := kind.lot_pos
    have more : FitsWord (kind.cost price (qty + kind.lot)) :=
      (Kind.fitsWord_cost_of_le (by omega) (by omega) range).2
    have sum : o.word (qty + kind.lot) = some (qty + kind.lot) :=
      word_of_fitsWord (fitsWord_of_cost pos (by omega) more)
    simp only [growToCash, sum, cost_exact_of_le (by omega) le_rfl more, Option.bind_eq_bind,
      Option.bind_some]
    rcases le.lt_or_eq with less | rfl
    · have step : kind.lot ≤ last - qty := Int.le_of_dvd (by omega) lots
      have affordable : kind.cost price (qty + kind.lot) ≤ cash :=
        (kind.cost_mono (mul_le_mul_of_nonneg_left (by omega) pos.le)).trans paid
      rw [if_pos affordable]
      refine ih (by omega) (by omega) ?_ (by omega)
      have rest : last - (qty + kind.lot) = last - qty - kind.lot := by omega
      exact rest ▸ dvd_sub_self_right.mpr lots
    · rw [if_neg (not_le.mpr most)]

/-! ## Searches that are given up -/

theorem fitsWord_of_word {r s : Int} (h : o.word r = some s) : FitsWord s := by
  cases o with
  | wraps =>
    simp only [word, Option.some.injEq, Int.bmod_def] at h
    split at h <;> exact ⟨by omega, by omega⟩
  | stops =>
    simp only [word] at h
    split at h
    next range => exact Option.some.inj h ▸ range
    · cases h

theorem growToCash_mono (h : o.growToCash kind price cash n qty = some last) (le : n ≤ m) :
    o.growToCash kind price cash m qty = some last := by
  induction n generalizing m qty with
  | zero => cases h
  | succ n ih =>
    obtain ⟨m, rfl⟩ := Nat.exists_eq_add_of_le' (Nat.one_le_of_lt le)
    simp only [growToCash, Option.bind_eq_bind, Option.bind_eq_some_iff] at h ⊢
    obtain ⟨more, sum, cost, costs, rest⟩ := h
    refine ⟨more, sum, cost, costs, ?_⟩
    split at rest
    next room =>
      rw [if_pos room]
      exact ih rest (by omega)
    next done =>
      rw [if_neg done]
      exact rest

/-- Whether the search from `qty` ends at `last` in its `n`-th round. -/
def EndsAt (o : Overflow) (kind : Kind) (price cash last : Int) (n : Nat) (qty : Int) : Prop :=
  o.growToCash kind price cash n qty = some last
    ∧ ∀ m < n, o.growToCash kind price cash m qty ≠ some last

theorem EndsAt.next (h : o.EndsAt kind price cash last (n + 2) qty) :
    ∃ more, FitsWord more ∧ o.EndsAt kind price cash last (n + 1) more := by
  obtain ⟨ends, first⟩ := h
  simp only [growToCash, Option.bind_eq_bind, Option.bind_eq_some_iff] at ends
  obtain ⟨more, sum, cost, costs, rest⟩ := ends
  split at rest
  next room =>
    refine ⟨more, fitsWord_of_word sum, ?_, fun m hm earlier => first (m + 1) (by omega) ?_⟩
    · simpa only [growToCash, Option.bind_eq_bind, Option.bind_eq_some_iff] using rest
    · simp only [growToCash, sum, costs, Option.bind_eq_bind, Option.bind_some, if_pos room, earlier]
  next done =>
    refine absurd ?_ (first 1 (by omega))
    simp only [growToCash, sum, costs, Option.bind_eq_bind, Option.bind_some, if_neg done, rest]

/-- On its way the search comes to words from which each smaller number of rounds is left. -/
theorem EndsAt.exists_word (h : o.EndsAt kind price cash last n qty) (word : FitsWord qty) :
    ∀ m, 1 ≤ m → m ≤ n → ∃ q, FitsWord q ∧ o.EndsAt kind price cash last m q := by
  induction n generalizing qty with
  | zero => omega
  | succ n ih =>
    intro m some le
    rcases le.lt_or_eq with less | rfl
    · obtain ⟨k, rfl⟩ := Nat.exists_eq_add_of_le' (Nat.one_le_of_lt (by omega : 0 < n))
      obtain ⟨more, wordMore, rest⟩ := h.next
      exact ih rest wordMore m some (by omega)
    · exact ⟨qty, word, h⟩

/-- There are no more rounds than words. -/
theorem EndsAt.le (h : o.EndsAt kind price cash last n qty) (word : FitsWord qty) :
    n ≤ 18446744073709551616 := by
  choose! visited fitsWord ends using h.exists_word word
  have apart : Set.InjOn visited (Finset.Icc 1 n) := by
    intro k hk m hm same
    rw [Finset.mem_coe, Finset.mem_Icc] at hk hm
    have atK := ends k hk.1 hk.2
    have atM := ends m hm.1 hm.2
    rw [same] at atK
    rcases lt_trichotomy k m with lt | eq | lt
    · exact absurd atK.1 (atM.2 k lt)
    · exact eq
    · exact absurd atM.1 (atK.2 m lt)
  have within : Set.MapsTo visited (Finset.Icc 1 n)
      (Finset.Icc (-9223372036854775808 : Int) 9223372036854775807) := by
    intro k hk
    rw [Finset.mem_coe, Finset.mem_Icc] at hk ⊢
    exact fitsWord k hk.1 hk.2
  have count := Finset.card_le_card_of_injOn visited within apart
  rw [Nat.card_Icc, Int.card_Icc] at count
  omega

/-- A search that is given up would never end. -/
theorem growToCash_of_ends (word : FitsWord qty)
    (h : o.growToCash kind price cash n qty = some last) :
    o.growToCash kind price cash 18446744073709551616 qty = some last := by
  classical
  have ends : ∃ n, o.growToCash kind price cash n qty = some last := ⟨n, h⟩
  have first : o.EndsAt kind price cash last (Nat.find ends) qty :=
    ⟨Nat.find_spec ends, fun m hm => Nat.find_min ends hm⟩
  exact growToCash_mono first.1 (first.le word)

/-! ## The affordable quantity -/

theorem maxAffordable_exact_words (range : kind.Searchable price cash) :
    o.maxAffordable kind price cash = some (kind.maxAffordable price cash) := by
  by_cases some : 0 < price ∧ 0 < cash
  · obtain ⟨pos, funded⟩ := some
    obtain ⟨nonneg, lots, paid, most⟩ := kind.maxAffordable_spec pos funded
    obtain ⟨guessNonneg, guessPaid⟩ := @Kind.cost_guess_le kind price cash pos funded
    have guessLots : kind.lot ∣ kind.roundLot (cash * 100000 / (price * (100000 + commissionRate))) :=
      kind.lot_dvd_roundLot _
    have lot : 0 < kind.lot := kind.lot_pos
    have top : FitsWord (kind.cost price (kind.maxAffordable price cash + kind.lot)) :=
      range pos funded
    have word : FitsWord (kind.maxAffordable price cash + kind.lot) :=
      fitsWord_of_cost pos (by omega) top
    rw [maxAffordable, if_pos ⟨pos, funded⟩]
    generalize kind.roundLot (cash * 100000 / (price * (100000 + commissionRate))) = guess
      at guessNonneg guessPaid guessLots ⊢
    have le : guess ≤ kind.maxAffordable price cash :=
      kind.le_of_lot_more pos guessLots lots guessPaid most
    have guessRange := (Kind.fitsWord_cost_of_le guessNonneg (by omega) top).2
    have grown : o.growToCash kind price cash 18446744073709551616 guess
        = Option.some (kind.maxAffordable price cash) := by
      have high : kind.maxAffordable price cash + kind.lot ≤ 9223372036854775807 := word.2
      exact growToCash_exact pos guessNonneg le (dvd_sub lots guessLots) paid most top (by omega)
    simp only [shrinkToCash_exact guessNonneg guessPaid guessRange, grown, Option.bind_eq_bind,
      Option.bind_some, max_eq_left nonneg]
  · rw [maxAffordable, if_neg some, kind.maxAffordable_of_nonpos some]

end Overflow

end TradingDesk
