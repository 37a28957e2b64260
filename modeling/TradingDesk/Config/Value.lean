-- SUMMARY: The values of a settings file and how its statements build the table.

/-!
# Settings values

A settings file is one table of named values. Its statements build the table from
nothing: a header opens a table, an assignment adds one value. What may be added to
depends on how a table came about, so every table remembers its origin, and a
statement that repeats or contradicts an earlier one fails.
-/

namespace TradingDesk.Config

/-- How a table came about. -/
inductive Origin where
  /-- By a header of its own. -/
  | header
  /-- As a part of a longer header. -/
  | within
  /-- By a dotted name in an assignment. -/
  | dotted
  /-- Written out as a value, which nothing can be added to. -/
  | written
  deriving DecidableEq, Repr

inductive Value where
  | string (s : String)
  | integer (n : Int)
  | float
  | boolean (b : Bool)
  /-- A list; `growing` if headers made it, one table each. -/
  | list (growing : Bool) (items : List Value)
  | table (origin : Origin) (entries : List (String × Value))
  deriving Repr

abbrev Table : Type := List (String × Value)

namespace Table

/-- Replaces or adds the entry of a name. -/
def alter (name : String) (f : Option Value → Option Value) : Table → Option Table
  | [] => (f none).map fun v => [(name, v)]
  | (n, v) :: rest =>
    if n == name then (f (some v)).map fun v => (n, v) :: rest
    else (alter name f rest).map ((n, v) :: ·)

/-- The same on the last table of a list. -/
def alterLast (f : Table → Option Table) : List Value → Option (List Value)
  | [] => none
  | [.table origin entries] => (f entries).map fun es => [.table origin es]
  | v :: vs => (alterLast f vs).map (v :: ·)

/-- Goes through one name of a header, which stands for the last table of a growing list. -/
def enter (f : Table → Option Table) : Option Value → Option Value
  | none => (f []).map (.table .within)
  | some (.table .written _) => none
  | some (.table origin entries) => (f entries).map (.table origin)
  | some (.list true items) => (alterLast f items).map (.list true)
  | some _ => none

/-- Adds to the table that a header has opened. -/
def inside (f : Table → Option Table) : List String → Table → Option Table
  | [], t => f t
  | name :: names, t => alter name (enter (inside f names)) t

def openOne : Option Value → Option Value
  | none => some (.table .header [])
  | some (.table .within entries) => some (.table .header entries)
  | some _ => none

def openNext : Option Value → Option Value
  | none => some (.list true [.table .header []])
  | some (.list true items) => some (.list true (items ++ [.table .header []]))
  | some _ => none

/-- The header of a table (`openOne`) or of the next table of a list (`openNext`). -/
def openHeader (last : Option Value → Option Value) : List String → Table → Option Table
  | [], _ => none
  | [name], t => alter name last t
  | name :: names, t => alter name (enter (openHeader last names)) t

/-- Gives a value to a name, which is dotted if it has several parts. -/
def assign (v : Value) : List String → Table → Option Table
  | [], _ => none
  | [name], t => alter name (fun old => if old.isSome then none else some v) t
  | name :: names, t =>
    let deeper : Option Value → Option Value
      | none => (assign v names []).map (.table .dotted)
      | some (.table .dotted entries) => (assign v names entries).map (.table .dotted)
      | some _ => none
    alter name deeper t

end Table

end TradingDesk.Config
