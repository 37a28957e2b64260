-- SUMMARY: What is known of the operations of a request in a book that books them only later.
import TradingDesk.Proofs.Allotment

/-!
# Dispatch

A broker at a market sends the operations of a request out and books them when they are
confirmed, so an operation meets the book without the cancels before it. What a request
resolves to is nevertheless fit to be sent: cancels name live orders, orders have positive
prices and quantities, and a sell offers no more than is idle. Only a modified sell counts
on what its cancels are to give back.
-/

namespace TradingDesk

/-- The code of the instrument that an operation is about. -/
def Operation.code : Operation → String
  | .insert code .. => code
  | .cancel code .. => code

/-- Whether an operation places an order. -/
def Operation.places : Operation → Bool
  | .insert .. => true
  | .cancel .. => false

namespace Instrument

/-- What a modified sell takes back of the sells that it replaces. -/
def recalled (i : Instrument) (r : Request) : List (Order × Int) :=
  if r.action = .modify .sell then i.cancelPlan .sell r.price r.qty else []

/-- Whether a sell of a request is backed: by what the request takes back, if it is a modified
one, and otherwise by the idle holdings. -/
def Backs (i : Instrument) (r : Request) (qty : Int) : Prop :=
  if r.action = .modify .sell then qty ≤ ((i.recalled r).map Prod.snd).sum else qty ≤ i.idle

end Instrument

namespace Book

variable {b b' : Book} {r : Request} {op : Operation} {ops ops' : List Operation} {i : Instrument}
  {side : Side} {price qty : Int} {plan : List (Order × Int)}

/-- What is asked of an operation that is sent out. -/
def Admits (b : Book) (r : Request) : Operation → Prop
  | .insert code side price qty =>
    ∃ i, b.find? code = some i ∧ 0 < price ∧ 0 < qty ∧ (side = .sell → i.Backs r qty)
  | .cancel code key qty => ∃ o, b.order? code key = some o ∧ 0 < qty ∧ qty ≤ o.qty

/-- Operations that can be sent out in turn: what places an order comes after all else that
is about its instrument. -/
structure Sends (b : Book) (r : Request) (ops : List Operation) : Prop where
  admitted : ∀ op ∈ ops, b.Admits r op
  apart : ops.Pairwise fun first later => first.places = true → later.code ≠ first.code

theorem Sends.nil (b : Book) (r : Request) : b.Sends r [] := ⟨by simp, .nil⟩

theorem Sends.single (admits : b.Admits r op) : b.Sends r [op] :=
  ⟨by simpa using admits, List.pairwise_singleton _ _⟩

/-- Operations on different instruments. -/
theorem Sends.append (first : b.Sends r ops) (second : b.Sends r ops')
    (between : ∀ op ∈ ops, op.places = true → ∀ op' ∈ ops', op'.code ≠ op.code) :
    b.Sends r (ops ++ ops') where
  admitted := by
    intro op hop
    rcases List.mem_append.mp hop with hop | hop
    · exact first.admitted op hop
    · exact second.admitted op hop
  apart := by
    refine List.pairwise_append.mpr ⟨first.apart, second.apart, ?_⟩
    exact fun op hop op' hop' places => between op hop places op' hop'

theorem Sends.flatMap {operations : Instrument → List Operation} {is : List Instrument}
    (codes : (is.map Instrument.code).Nodup)
    (about : ∀ i ∈ is, ∀ op ∈ operations i, op.code = i.code)
    (one : ∀ i ∈ is, b.Sends r (operations i)) : b.Sends r (is.flatMap operations) := by
  induction is with
  | nil => exact .nil b r
  | cons i is ih =>
    obtain ⟨apart, codes⟩ := List.nodup_cons.mp codes
    have rest := ih codes (fun j hj => about j (List.mem_cons_of_mem i hj))
      fun j hj => one j (List.mem_cons_of_mem i hj)
    refine (one i List.mem_cons_self).append rest ?_
    intro op hop _ op' hop' same
    obtain ⟨j, hj, hop'⟩ := List.mem_flatMap.mp hop'
    have codeJ := about j (List.mem_cons_of_mem i hj) op' hop'
    have codeI := about i List.mem_cons_self op hop
    refine apart (List.mem_map.mpr ⟨j, hj, ?_⟩)
    rw [← codeJ, ← codeI, same]

/-! ## Cancels -/

theorem mem_cancels (hop : op ∈ i.cancels plan) :
    ∃ o n, (o, n) ∈ plan ∧ op = .cancel i.code o.key n := by
  obtain ⟨part, hpart, rfl⟩ := List.mem_map.mp hop
  exact ⟨part.1, part.2, hpart, rfl⟩

theorem sends_cancels (hb : b.WellFormed) (found : b.find? i.code = some i) (hp : i.Plan plan) :
    b.Sends r (i.cancels plan) where
  admitted := by
    intro op hop
    obtain ⟨o, n, hpart, rfl⟩ := mem_cancels hop
    obtain ⟨pos, le⟩ := hp.parts _ hpart
    refine ⟨o, ?_, pos, le⟩
    rw [order?_eq found]
    exact (Orders.find?_eq_some (hb.sorted i (mem_of_find? found))).mpr ⟨hp.resting _ hpart, rfl⟩
  apart := by
    refine List.pairwise_of_forall_mem_list fun op hop _ _ places => ?_
    obtain ⟨o, n, -, rfl⟩ := mem_cancels hop
    cases places

theorem sends_allotCancel (hb : b.WellFormed) (found : b.find? i.code = some i) :
    b.Sends r (i.allotCancel side price qty).allotment.operations := by
  simp only [Instrument.allotCancel]
  split
  next => exact .nil b r
  next =>
    have plan := Instrument.plan_cancelPlan (hb.sorted i (mem_of_find? found)) side price qty
    exact sends_cancels hb found plan

theorem sends_cancelAll (hb : b.WellFormed) : b.Sends r b.allotCancelAll.allotment.operations := by
  refine Sends.flatMap hb.nodup ?_ ?_
  · intro i _ op hop
    obtain ⟨o, n, -, rfl⟩ := mem_cancels hop
    rfl
  · intro i hi
    exact sends_cancels hb (hb.find?_eq_some.mpr ⟨hi, rfl⟩) (Instrument.plan_all (hb.sorted i hi))

/-! ## Orders -/

/-- A plain order is backed by the cash or by the idle holdings. -/
theorem sends_allowed {cash : Int} {wanted : Option Int} (found : b.find? r.code = some i)
    (plain : r.action ≠ .modify .sell) (pos : 0 < price) (h : qty ∈ i.allowed cash side price wanted) :
    b.Sends r [.insert r.code side price qty] := by
  obtain ⟨hqty, -, covers, -⟩ := h
  refine .single ⟨i, found, pos, hqty, ?_⟩
  rintro rfl
  rw [Instrument.Backs, if_neg plain]
  exact covers

theorem sends_place (h : r.action = .place side) :
    b.Sends r (b.allot r).allotment.operations := by
  have most := placesMost_allot (b := b) h
  unfold PlacesMost at most
  split at most
  next => exact most ▸ .nil b r
  next i found =>
    rcases most with ⟨nothing, -⟩ | ⟨q, ops, valid, -, greatest⟩
    · exact nothing ▸ .nil b r
    · rw [ops]
      exact sends_allowed found (by rw [h]; simp) (Kind.pos_of_validPrice valid) greatest.1

/-- A modified order comes after its cancels, and offers no more than they take back. -/
theorem sends_modify (hb : b.WellFormed) (h : r.action = .modify side)
    (found : b.find? i.code = some i) :
    b.Sends r (i.allotModify b.balance side r.price r.qty r.newPrice).allotment.operations := by
  by_cases impossible : i.cancelPlan side r.price r.qty = []
      ∨ ¬i.kind.validPrice (i.limit side r.newPrice) = true ∨ i.limit side r.newPrice = r.price
  · rw [Instrument.allotModify_of_invalid impossible]
    exact .nil b r
  · obtain ⟨some, valid, other⟩ : _ ≠ [] ∧ i.kind.validPrice (i.limit side r.newPrice) = true
        ∧ i.limit side r.newPrice ≠ r.price := by
      simpa only [not_or, not_not] using impossible
    rw [Instrument.allotModify_of_valid some valid other]
    simp only
    split
    next => exact .nil b r
    next more =>
      obtain ⟨⟨pos, -, le⟩, -⟩ := Kind.isGreatest_roundLot (not_le.mp more)
      have plan := Instrument.plan_cancelPlan (hb.sorted i (mem_of_find? found)) side r.price r.qty
      refine (sends_cancels hb found plan).append (.single ?_) ?_
      · refine ⟨i, found, Kind.pos_of_validPrice valid, pos, ?_⟩
        rintro rfl
        rw [Instrument.Backs, if_pos h, Instrument.recalled, if_pos h]
        exact le
      · intro op hop places
        obtain ⟨o, n, -, rfl⟩ := mem_cancels hop
        cases places

theorem sends_sellAll (hb : b.WellFormed) (h : r.action = .sellAll) :
    b.Sends r b.allotSellAll.allotment.operations := by
  simp only [allotSellAll, List.flatMap_map]
  refine Sends.flatMap hb.nodup ?_ ?_
  · intro i _ op hop
    simp only [Instrument.sellOff] at hop
    split at hop
    next => cases hop
    next =>
      split at hop
      next => cases hop
      next =>
        obtain rfl := List.mem_singleton.mp hop
        rfl
  · intro i hi
    simp only [Instrument.sellOff]
    split
    next => exact .nil b r
    next more =>
      split
      next => exact .nil b r
      next bid =>
        obtain ⟨⟨pos, -, le⟩, -⟩ := Kind.isGreatest_roundLot (not_le.mp more)
        refine .single ⟨i, hb.find?_eq_some.mpr ⟨hi, rfl⟩, not_le.mp bid, pos, fun _ => ?_⟩
        rw [Instrument.Backs, if_neg (by rw [h]; simp)]
        exact le

/-- Whatever is asked, what the request resolves to can be sent out. -/
theorem sends_allot (hb : b.WellFormed) (r : Request) : b.Sends r (b.allot r).allotment.operations := by
  cases h : r.action with
  | place side => exact sends_place h
  | cancelAll =>
    rw [allot, h]
    exact sends_cancelAll hb
  | sellAll =>
    rw [allot, h]
    exact sends_sellAll hb h
  | cancel side =>
    rw [allot, h]
    cases found : b.find? r.code with
    | none => exact .nil b r
    | some i =>
      rw [← code_of_find? found] at found
      exact sends_allotCancel hb found
  | modify side =>
    rw [allot, h]
    cases found : b.find? r.code with
    | none => exact .nil b r
    | some i =>
      rw [← code_of_find? found] at found
      exact sends_modify hb h found

/-! ## Sending in turn -/

theorem Admits.of_find? (admits : b.Admits r op) (same : b'.find? op.code = b.find? op.code) :
    b'.Admits r op := by
  cases op with
  | insert code side price qty =>
    obtain ⟨i, found, h⟩ := admits
    exact ⟨i, same.trans found, h⟩
  | cancel code key qty =>
    obtain ⟨o, resting, h⟩ := admits
    obtain ⟨i, found, resting⟩ := Option.bind_eq_some_iff.mp resting
    have there : b'.find? code = some i := same.trans found
    exact ⟨o, (order?_eq there).trans resting, h⟩

/-- What is left to be sent is so in a book in which no other instrument than that of an
operation that placed an order has changed. -/
theorem Sends.rest (h : b.Sends r (op :: ops)) (same : op.places = false → b' = b)
    (others : ∀ code, code ≠ op.code → b'.find? code = b.find? code) : b'.Sends r ops where
  admitted := by
    intro op' hop
    have admits := h.admitted op' (List.mem_cons_of_mem op hop)
    cases places : op.places with
    | false =>
      rw [same places]
      exact admits
    | true => exact admits.of_find? (others _ ((List.pairwise_cons.mp h.apart).1 op' hop places))
  apart := (List.pairwise_cons.mp h.apart).2

end Book

end TradingDesk
