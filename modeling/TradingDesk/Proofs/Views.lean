-- SUMMARY: What matching an instrument looks at, and that it looks at nothing else.
import TradingDesk.Proofs.Prints

/-!
# Views

Matching looks at the code, the kind, the ladder, the orders, the idle holdings and the marks
of an instrument. Each step of a tick does the same to what it looks at whatever the rest is,
so two instruments that are alike in it are matched alike.
-/

namespace TradingDesk

/-- The instrument without what matching does not look at. -/
def Instrument.core (i : Instrument) : Instrument :=
  { i with avgPrice := 0, traded := 0, detail := .equity }

def Matched.core (m : Matched) : Matched := { m with instrument := m.instrument.core }

@[simp] theorem Matched.core_fills {m : Matched} : m.core.fills = m.fills := rfl

def LevelFlow.core (f : LevelFlow) : LevelFlow := { f with matched := f.matched.core }

/-- Steps in turn do the same if each of them does. -/
theorem Matched.core_andThen {m m' : Matched} {step step' : Instrument → Matched}
    (first : m.core = m') (next : ∀ i : Instrument, (step i).core = step' i.core) :
    (m.andThen step).core = m'.andThen step' := by
  subst first
  have after : step' m.core.instrument = (step m.instrument).core := (next m.instrument).symm
  rw [andThen, andThen, after]
  rfl

namespace Instrument

variable {i : Instrument} {key : Key} {keys : List Key} {side : Side} {price flow : Int}
  {fillPrice : Option Int} {print top : Level} {initiator : Option Side} {market : Ladder}

theorem core_pop : (i.pop key flow price).core = i.core.pop key flow price := by
  have orders : i.core.orders = i.orders := rfl
  simp only [pop, orders]
  cases Orders.find? key i.orders with
  | none => rfl
  | some o =>
    simp only [fill]
    split_ifs <;> rfl

theorem core_flowLevel :
    (i.flowLevel fillPrice flow keys).core = i.core.flowLevel fillPrice flow keys := by
  induction keys generalizing i with
  | nil => rfl
  | cons key keys ih =>
    have rest := ih (i := (i.pop key flow (fillPrice.getD key.price)).matched.instrument)
    have same : (i.pop key flow (fillPrice.getD key.price)).core.matched.instrument
        = (i.pop key flow (fillPrice.getD key.price)).matched.instrument.core := rfl
    simp only [flowLevel, ← core_pop, same, ← rest]
    rfl

theorem core_flowLevels {levels : List (List Key)} :
    (i.flowLevels fillPrice flow levels).core = i.core.flowLevels fillPrice flow levels := by
  induction levels generalizing i flow with
  | nil => rfl
  | cons keys levels ih =>
    simp only [flowLevels]
    split
    · rfl
    · rw [← core_flowLevel]
      exact Matched.core_andThen rfl fun _ => ih

theorem core_flowThrough :
    (i.flowThrough keys flow fillPrice).core = i.core.flowThrough keys flow fillPrice :=
  core_flowLevels

theorem core_deplete : (i.deplete side top).core = i.core.deplete side top := by
  have marks : i.core.marks = i.marks := rfl
  have queue : i.core.topQueue side = i.topQueue side := rfl
  simp only [deplete_eq, marks, queue]
  split
  · rfl
  · exact core_flowThrough

theorem core_tradeFill :
    (i.tradeFill print initiator).core = i.core.tradeFill print initiator := by
  simp only [tradeFill]
  exact Matched.core_andThen core_flowThrough fun _ => core_flowThrough

theorem core_tradeFills {prints : List Level} :
    (i.tradeFills market prints).core = i.core.tradeFills market prints := by
  induction prints generalizing i with
  | nil => rfl
  | cons print prints ih =>
    exact Matched.core_andThen core_tradeFill fun _ => ih

theorem core_fillWhole : (i.fillWhole key price).core = i.core.fillWhole key price := by
  have orders : i.core.orders = i.orders := rfl
  simp only [fillWhole, orders]
  cases Orders.find? key i.orders with
  | none => rfl
  | some o =>
    simp only [fill]
    split_ifs <;> rfl

theorem core_fillAll {gaps : List (Key × Int)} : (i.fillAll gaps).core = i.core.fillAll gaps := by
  induction gaps generalizing i with
  | nil => rfl
  | cons gap gaps ih =>
    exact Matched.core_andThen core_fillWhole fun _ => ih

theorem core_correctGap : i.correctGap.core = i.core.correctGap := core_fillAll

/-- The steps of a tick that come after its quote, in a market on both sides. -/
def serve (i : Instrument) (market : Ladder) (prints : List Level) : Matched :=
  ((((Matched.start i.refreshQueue).andThen (·.deplete .buy i.ladder.bestAsk)).andThen
    (·.deplete .sell i.ladder.bestBid)).andThen (·.tradeFills market prints)).andThen (·.correctGap)

theorem matchTick_eq {depth : Option Depth} {prints : List Level} : i.matchTick depth prints
    = if (i.takeOver depth).ladder.isQuoted then
        (i.takeOver depth).serve (if i.ladder.isQuoted then i.ladder else (i.takeOver depth).ladder)
          prints
      else .start (i.takeOver depth) := by
  cases quoted : (i.takeOver depth).ladder.isQuoted <;> simp [matchTick, quoted, serve]

theorem core_serve {prints : List Level} :
    (i.serve market prints).core = i.core.serve market prints := by
  have refreshed : (Matched.start i.refreshQueue).core = .start i.core.refreshQueue := rfl
  simp only [serve]
  refine Matched.core_andThen (Matched.core_andThen ?_ fun j => ?prints) fun j => ?gap
  case prints => exact core_tradeFills
  case gap => exact core_correctGap
  refine Matched.core_andThen (Matched.core_andThen refreshed fun j => ?buys) fun j => ?sells
  case buys => exact core_deplete
  case sells => exact core_deplete

/-- What matching looks at determines what it does to it. -/
theorem core_matchTick {depth : Option Depth} {prints : List Level} :
    (i.matchTick depth prints).core = (i.core.matchTick depth prints).core := by
  have taken : (i.core.takeOver depth).core = (i.takeOver depth).core := by cases depth <;> rfl
  have ladder : (i.core.takeOver depth).ladder = (i.takeOver depth).ladder := by cases depth <;> rfl
  have before : i.core.ladder = i.ladder := rfl
  simp only [matchTick_eq, ladder, before]
  split
  · rw [core_serve, core_serve, taken]
  · exact congrArg Matched.start taken.symm

end Instrument
end TradingDesk
