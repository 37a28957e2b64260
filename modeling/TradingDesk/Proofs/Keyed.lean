-- SUMMARY: Lists whose members have distinct keys: finding, replacing and adding up.
import Mathlib.Algebra.BigOperators.Group.List.Basic
import Mathlib.Algebra.Ring.Int.Defs
import Mathlib.Data.List.Nodup

/-!
# Keyed lists

The instruments of a book and the orders of an instrument are lists in which a key
stands for one member. These are the facts about finding a member by its key and
about changing the member that has a key, with what it does to a sum over the list.
-/

namespace TradingDesk.Keyed

variable {α κ : Type} [BEq κ] [LawfulBEq κ] {key : α → κ} {as : List α} {a : α} {k : κ}

/-- The list with the members of a key changed. -/
def modify (key : α → κ) (k : κ) (g : α → α) (as : List α) : List α :=
  as.map fun a => if key a == k then g a else a

theorem find?_eq_some (nodup : (as.map key).Nodup) :
    as.find? (fun a => key a == k) = some a ↔ a ∈ as ∧ key a = k := by
  constructor
  · intro h
    exact ⟨List.mem_of_find?_eq_some h, by simpa using List.find?_some h⟩
  · rintro ⟨mem, rfl⟩
    have isSome : (as.find? fun b => key b == key a).isSome := by
      rw [List.find?_isSome]
      exact ⟨a, mem, by simp⟩
    obtain ⟨b, hb⟩ := Option.isSome_iff_exists.mp isSome
    have keyEq : key b = key a := by simpa using List.find?_some hb
    rw [hb, List.inj_on_of_nodup_map nodup (List.mem_of_find?_eq_some hb) mem keyEq]

/-! ## Changing one member -/

theorem map_modify {β : Type} {f : α → β} {g : α → α} (hg : ∀ a ∈ as, key a = k → f (g a) = f a) :
    (modify key k g as).map f = as.map f := by
  simp only [modify, List.map_map]
  apply List.map_congr_left
  intro a ha
  simp only [Function.comp_apply]
  split
  next h => exact hg a ha (eq_of_beq h)
  next => rfl

theorem modify_of_notMem {g : α → α} (h : ∀ a ∈ as, key a ≠ k) : modify key k g as = as := by
  rw [modify]
  conv_rhs => rw [← List.map_id as]
  apply List.map_congr_left
  intro a ha
  simp [h a ha]

theorem mem_modify {g : α → α} {b : α} (nodup : (as.map key).Nodup) (ha : a ∈ as) (hk : key a = k) :
    b ∈ modify key k g as ↔ b = g a ∨ b ∈ as ∧ key b ≠ k := by
  subst hk
  simp only [modify, List.mem_map]
  constructor
  · rintro ⟨c, hc, rfl⟩
    by_cases h : key c = key a
    · left
      rw [List.inj_on_of_nodup_map nodup hc ha h]
      simp
    · right
      simpa [h] using hc
  · rintro (rfl | ⟨hb, h⟩)
    · exact ⟨a, ha, by simp⟩
    · exact ⟨b, hb, by simp [h]⟩

/-- Changing one member changes a sum by what the member counts for. -/
theorem sum_modify {f : α → Int} {g : α → α} (nodup : (as.map key).Nodup) (ha : a ∈ as)
    (hk : key a = k) :
    ((modify key k g as).map f).sum = (as.map f).sum - f a + f (g a) := by
  subst hk
  induction as with
  | nil => cases ha
  | cons b bs ih =>
    rw [List.map_cons, List.nodup_cons] at nodup
    rcases List.mem_cons.mp ha with rfl | mem
    · have fresh : ∀ b ∈ bs, key b ≠ key a := fun b hb h =>
        nodup.1 (h ▸ List.mem_map_of_mem hb)
      have rest : bs.map (fun b => if key b == key a then g b else b) = bs :=
        modify_of_notMem fresh
      simp only [modify, List.map_cons, beq_self_eq_true, if_true, rest, List.sum_cons]
      omega
    · have ne : key b ≠ key a := fun h => nodup.1 (h ▸ List.mem_map_of_mem mem)
      have := ih nodup.2 mem
      simp only [modify] at this
      simp only [modify, List.map_cons, beq_iff_eq, ne, if_false, List.sum_cons, this]
      omega

private theorem beq_modify {g : α → α} (hg : ∀ a, key a = k → key (g a) = k) (l : κ) :
    (fun a => key a == l) ∘ (fun a => if key a == k then g a else a) = fun a => key a == l := by
  funext b
  simp only [Function.comp_apply]
  split
  next h => rw [hg b (eq_of_beq h), eq_of_beq h]
  next => rfl

theorem find?_modify_self {g : α → α} (hg : ∀ a, key a = k → key (g a) = k)
    (h : as.find? (fun a => key a == k) = some a) :
    (modify key k g as).find? (fun a => key a == k) = some (g a) := by
  have keyEq : key a = k := by simpa using List.find?_some h
  rw [modify, List.find?_map, beq_modify hg, h, Option.map_some, keyEq]
  simp

theorem find?_modify_ne {g : α → α} (hg : ∀ a, key a = k → key (g a) = k) {l : κ} (ne : l ≠ k) :
    (modify key k g as).find? (fun a => key a == l) = as.find? fun a => key a == l := by
  rw [modify, List.find?_map, beq_modify hg]
  cases hb : as.find? fun a => key a == l with
  | none => rfl
  | some b =>
    have keyEq : key b = l := by simpa using List.find?_some hb
    simp [keyEq, ne]

/-! ## Association lists -/

section Lookup

variable {ν : Type} {kvs : List (κ × ν)} {v : ν}

theorem lookup_eq_some (nodup : (kvs.map Prod.fst).Nodup) :
    kvs.lookup k = some v ↔ (k, v) ∈ kvs := by
  induction kvs with
  | nil => simp
  | cons p kvs ih =>
    obtain ⟨k', v'⟩ := p
    rw [List.map_cons, List.nodup_cons] at nodup
    rw [List.lookup_cons, List.mem_cons, Prod.mk.injEq]
    by_cases here : k = k'
    · subst here
      have fresh : (k, v) ∉ kvs := fun mem => nodup.1 (List.mem_map.mpr ⟨(k, v), mem, rfl⟩)
      simp [fresh, eq_comm]
    · have other : (k == k') = false := by simpa using here
      simp only [other, ih nodup.2, here, false_and, false_or]

/-- A member of a list is found in a part of the list if it is in that part. -/
theorem isSome_lookup_filter {keep : κ × ν → Bool} (nodup : (kvs.map Prod.fst).Nodup) {p : κ × ν}
    (mem : p ∈ kvs) : ((kvs.filter keep).lookup p.1).isSome = keep p := by
  have nodupPart : ((kvs.filter keep).map Prod.fst).Nodup :=
    (List.filter_sublist.map Prod.fst).nodup nodup
  rw [Bool.eq_iff_iff, Option.isSome_iff_exists]
  simp only [lookup_eq_some nodupPart, List.mem_filter]
  constructor
  · rintro ⟨v, other, kept⟩
    rwa [List.inj_on_of_nodup_map nodup mem other rfl]
  · exact fun kept => ⟨p.2, mem, kept⟩

end Lookup

end TradingDesk.Keyed
