-- SUMMARY: Lists of orders sorted by key, and what their operations keep.
import TradingDesk.Book.Order
import TradingDesk.Proofs.Keyed

/-!
# Sorted lists of orders

Keys are ordered by price and then by age, and a list of orders is kept sorted by
key, so that no key occurs twice. Inserting an order with a new key, changing an
order under its key and dropping orders keep the list sorted.
-/

namespace TradingDesk

theorem sumOf_eq {α : Type} {f : α → Int} {as : List α} : sumOf f as = (as.map f).sum := by
  induction as with
  | nil => rfl
  | cons a as ih =>
    rw [List.map_cons, List.sum_cons, ← ih]
    rfl

namespace Key

theorem before_iff {a b : Key} :
    a.before b = true ↔ a.price < b.price ∨ a.price = b.price ∧ a.id < b.id := by
  simp [before]

theorem not_before_self (a : Key) : ¬a.before a = true := by
  simp [before_iff]

theorem before_trans {a b c : Key} (hab : a.before b = true) (hbc : b.before c = true) :
    a.before c = true := by
  rw [before_iff] at *
  omega

theorem before_of_not_before {a b : Key} (h : ¬a.before b = true) (ne : a ≠ b) :
    b.before a = true := by
  rw [before_iff] at h ⊢
  by_contra hba
  have price : a.price = b.price := by omega
  have id : a.id = b.id := by omega
  apply ne
  cases a
  cases b
  simp_all

end Key

namespace Orders

variable {o p : Order} {os : List Order} {key : Key}

def Sorted (os : List Order) : Prop := os.Pairwise fun o p => o.key.before p.key = true

theorem Sorted.nodup (h : Sorted os) : (os.map Order.key).Nodup := by
  rw [List.Nodup, List.pairwise_map]
  apply h.imp
  intro o p before eq
  rw [eq] at before
  exact Key.not_before_self _ before

theorem Sorted.eq_of_key (h : Sorted os) (ho : o ∈ os) (hp : p ∈ os) (same : o.key = p.key) : o = p :=
  List.inj_on_of_nodup_map h.nodup ho hp same

theorem Sorted.filter {keep : Order → Bool} (h : Sorted os) : Sorted (os.filter keep) :=
  List.Pairwise.filter keep h

theorem Sorted.map {f : Order → Order} (h : Sorted os) (hf : ∀ o, (f o).key = o.key) :
    Sorted (os.map f) := by
  rw [Sorted, List.pairwise_map]
  simp only [hf]
  exact h

/-! ## Insertion -/

theorem mem_insert (fresh : ∀ q ∈ os, q.key ≠ o.key) : p ∈ insert o os ↔ p = o ∨ p ∈ os := by
  induction os with
  | nil => simp [insert]
  | cons q qs ih =>
    have ne : ¬o.key = q.key := fun h => fresh q List.mem_cons_self h.symm
    simp only [insert, beq_iff_eq, ne, if_false]
    split
    · simp
    · rw [List.mem_cons, List.mem_cons, ih fun r hr => fresh r (List.mem_cons_of_mem q hr)]
      grind

theorem insert_perm (fresh : ∀ q ∈ os, q.key ≠ o.key) : (insert o os).Perm (o :: os) := by
  induction os with
  | nil => exact .refl _
  | cons q qs ih =>
    have ne : ¬o.key = q.key := fun h => fresh q List.mem_cons_self h.symm
    simp only [insert, beq_iff_eq, ne, if_false]
    split
    · exact .refl _
    · exact ((ih fun r hr => fresh r (List.mem_cons_of_mem q hr)).cons q).trans (.swap o q qs)

theorem Sorted.insert (h : Sorted os) (fresh : ∀ q ∈ os, q.key ≠ o.key) :
    Sorted (Orders.insert o os) := by
  induction os with
  | nil => exact List.pairwise_singleton _ _
  | cons q qs ih =>
    have ne : ¬o.key = q.key := fun h => fresh q List.mem_cons_self h.symm
    have freshTail : ∀ r ∈ qs, r.key ≠ o.key := fun r hr => fresh r (List.mem_cons_of_mem q hr)
    obtain ⟨first, rest⟩ := List.pairwise_cons.mp h
    simp only [Orders.insert, beq_iff_eq, ne, if_false]
    split
    next before =>
      refine List.pairwise_cons.mpr ⟨?_, h⟩
      intro r hr
      rcases List.mem_cons.mp hr with rfl | hr
      · exact before
      · exact Key.before_trans before (first r hr)
    next notBefore =>
      refine List.pairwise_cons.mpr ⟨?_, ih rest freshTail⟩
      intro r hr
      rcases (mem_insert freshTail).mp hr with rfl | hr
      · exact Key.before_of_not_before notBefore ne
      · exact first r hr

/-! ## Finding and changing by key -/

theorem find?_eq_some (h : Sorted os) : find? key os = some o ↔ o ∈ os ∧ o.key = key :=
  Keyed.find?_eq_some h.nodup

theorem key_of_find? (h : find? key os = some o) : o.key = key := by
  simpa using List.find?_some h

theorem mem_of_find? (h : find? key os = some o) : o ∈ os := List.mem_of_find?_eq_some h

theorem Sorted.update {f : Order → Order} (h : Sorted os) (hf : ∀ o, (f o).key = o.key) :
    Sorted (update key f os) := by
  apply h.map
  intro o
  split
  · exact hf o
  · rfl

theorem mem_update {f : Order → Order} (h : Sorted os) (ho : find? key os = some o) :
    p ∈ update key f os ↔ p = f o ∨ p ∈ os ∧ p.key ≠ key :=
  Keyed.mem_modify h.nodup (mem_of_find? ho) (key_of_find? ho)

theorem sum_update {f : Order → Order} {g : Order → Int} (h : Sorted os)
    (ho : find? key os = some o) :
    ((update key f os).map g).sum = (os.map g).sum - g o + g (f o) :=
  Keyed.sum_modify h.nodup (mem_of_find? ho) (key_of_find? ho)

theorem find?_update_self {f : Order → Order} (hf : ∀ o, (f o).key = o.key)
    (ho : find? key os = some o) : find? key (update key f os) = some (f o) :=
  Keyed.find?_modify_self (fun o hk => (hf o).trans hk) ho

theorem find?_map {f : Order → Order} (hf : ∀ o, (f o).key = o.key) :
    find? key (os.map f) = (find? key os).map f := by
  simp only [find?, List.find?_map, Function.comp_def, hf]

theorem insert_map {f : Order → Order} (hf : ∀ o, (f o).key = o.key) :
    (insert o os).map f = insert (f o) (os.map f) := by
  induction os with
  | nil => rfl
  | cons p ps ih =>
    simp only [insert, List.map_cons, hf]
    split
    · rfl
    · split
      · rfl
      · rw [List.map_cons, ih]

theorem update_map {f g g' : Order → Order} (hf : ∀ o, (f o).key = o.key)
    (hg : ∀ o, f (g o) = g' (f o)) : (update key g os).map f = update key g' (os.map f) := by
  simp only [update, List.map_map]
  apply List.map_congr_left
  intro o _
  simp only [Function.comp_apply, hf]
  split
  · exact hg o
  · rfl

/-- To change an order twice under its key is to change it once. -/
theorem update_update {f g : Order → Order} (hf : ∀ o, (f o).key = o.key) :
    update key g (update key f os) = update key (fun o => g (f o)) os := by
  simp only [update, List.map_map]
  apply List.map_congr_left
  intro o _
  by_cases here : o.key = key <;> simp [here, hf]

/-- The orders behind some keys. -/
theorem exists_of_keys {P : Order → Prop} {keys : List Key}
    (resting : ∀ key ∈ keys, ∃ o, P o ∧ o.key = key) :
    ∃ os : List Order, keys = os.map Order.key ∧ ∀ o ∈ os, P o := by
  induction keys with
  | nil => exact ⟨[], rfl, nofun⟩
  | cons key keys ih =>
    obtain ⟨⟨o, ho, rfl⟩, rest⟩ := List.forall_mem_cons.mp resting
    obtain ⟨os, rfl, all⟩ := ih rest
    exact ⟨o :: os, rfl, List.forall_mem_cons.mpr ⟨ho, all⟩⟩

end Orders

@[simp] theorem Order.key_shrink {kind : Kind} {o : Order} {n : Int} :
    (o.shrink kind n).key = o.key := by
  unfold shrink
  split <;> rfl

end TradingDesk
