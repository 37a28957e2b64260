-- SUMMARY: Reading settings files in TOML.
import TradingDesk.Config.Value
import TradingDesk.Text.Integer

/-!
# TOML

The reader takes tables, lists of tables, plain, quoted and dotted names, strings
on one line, numbers, booleans, lists and inline tables. A file is read whole or
not at all. Every function takes text from the left and returns the rest; nested
values are read with as much fuel as the text is long, which always suffices.
-/

namespace TradingDesk.Config.Toml

abbrev Reader (α : Type) : Type := List Char → Option (α × List Char)

/-! ## Blanks -/

def skipBlanks (s : List Char) : List Char :=
  s.dropWhile fun c => c == ' ' || c == '\t'

/-- What may stand in a comment. -/
def isCommentChar (c : Char) : Bool := c == '\t' || ' ' ≤ c

/-- The end of a line, which may hold a comment; the end of the file ends a line too. -/
def endOfLine (s : List Char) : Option (List Char) :=
  let rest := match skipBlanks s with
    | '#' :: r => r.dropWhile isCommentChar
    | r => r
  match rest with
  | [] => some []
  | '\n' :: r => some r
  | '\r' :: '\n' :: r => some r
  | _ => none

/-- Passes over blanks, comments and line ends. -/
def skipLines : Nat → List Char → List Char
  | 0, s => s
  | fuel + 1, s =>
    match skipBlanks s with
    | [] => []
    | c :: r =>
      if c == '#' || c == '\n' || c == '\r' then
        match endOfLine (c :: r) with
        | some rest => skipLines fuel rest
        | none => c :: r
      else c :: r

/-! ## Strings and names -/

def isControl (c : Char) : Bool := (c.toNat < 32 && c != '\t') || c.toNat == 127

def hexDigit (c : Char) : Option Nat :=
  if c.isDigit then some (c.toNat - '0'.toNat)
  else if 'a' ≤ c ∧ c ≤ 'f' then some (c.toNat - 'a'.toNat + 10)
  else if 'A' ≤ c ∧ c ≤ 'F' then some (c.toNat - 'A'.toNat + 10)
  else none

/-- The character whose number is written in hexadecimal digits. -/
def codePoint (digits : List Char) : Option Char := do
  let ds ← digits.mapM hexDigit
  let n := ds.foldl (fun n d => 16 * n + d) 0
  if h : n.isValidChar then some (Char.ofNatAux n h) else none

/-- What follows a backslash. -/
def escaped : Reader Char
  | 'b' :: r => some ('\x08', r)
  | 't' :: r => some ('\t', r)
  | 'n' :: r => some ('\n', r)
  | 'f' :: r => some ('\x0c', r)
  | 'r' :: r => some ('\r', r)
  | '"' :: r => some ('"', r)
  | '\\' :: r => some ('\\', r)
  | 'u' :: r => if r.length < 4 then none else (codePoint (r.take 4)).map fun c => (c, r.drop 4)
  | 'U' :: r => if r.length < 8 then none else (codePoint (r.take 8)).map fun c => (c, r.drop 8)
  | _ => none

/-- The rest of a string after its opening double quote. -/
def basicString : Nat → Reader (List Char)
  | 0, _ => none
  | _ + 1, [] => none
  | _ + 1, '"' :: r => some ([], r)
  | fuel + 1, '\\' :: r => do
    let (c, r) ← escaped r
    let (cs, r) ← basicString fuel r
    some (c :: cs, r)
  | fuel + 1, c :: r =>
    if isControl c then none
    else (basicString fuel r).map fun (cs, r) => (c :: cs, r)

/-- The rest of a string after its opening single quote, in which nothing is escaped. -/
def literalString (s : List Char) : Option (List Char × List Char) :=
  let text := s.takeWhile fun c => c != '\'' && !isControl c
  match s.drop text.length with
  | '\'' :: r => some (text, r)
  | _ => none

def isNameChar (c : Char) : Bool := c.isAlphanum || c == '-' || c == '_'

def simpleName : Reader String
  | '"' :: r => (basicString r.length.succ r).map fun (cs, r) => (String.ofList cs, r)
  | '\'' :: r => (literalString r).map fun (cs, r) => (String.ofList cs, r)
  | s =>
    let name := s.takeWhile isNameChar
    if name.isEmpty then none else some (String.ofList name, s.drop name.length)

/-- A name of one or more parts with dots between them. -/
def name : Nat → Reader (List String)
  | 0, _ => none
  | fuel + 1, s => do
    let (part, r) ← simpleName (skipBlanks s)
    match skipBlanks r with
    | '.' :: r => (name fuel r).map fun (parts, r) => (part :: parts, r)
    | r => some ([part], r)

/-! ## Numbers -/

/-- Digits without the single underscores that may stand between them. -/
def ungroup (isDigit : Char → Bool) : List Char → Option (List Char)
  | [] => none
  | [c] => if isDigit c then some [c] else none
  | c :: '_' :: r => if isDigit c then (ungroup isDigit r).map (c :: ·) else none
  | c :: r => if isDigit c then (ungroup isDigit r).map (c :: ·) else none

/-- Decimal digits of which only a lone one may be a leading zero. -/
def decimalDigits (s : List Char) : Option (List Char) := do
  let ds ← ungroup Char.isDigit s
  match ds with
  | '0' :: _ :: _ => none
  | ds => some ds

def inRange (n : Int) : Option Value :=
  if Text.minSigned ≤ n ∧ n ≤ Text.maxSigned then some (.integer n) else none

def based (base : Nat) (s : List Char) : Option Value := do
  let valid (c : Char) : Bool := (hexDigit c).any fun d => d < base
  let ds ← ungroup valid s
  let ns ← ds.mapM hexDigit
  inRange (ns.foldl (fun n d => base * n + d) 0 : Nat)

def signed (negative : Bool) (s : List Char) : Option Value := do
  let ds ← decimalDigits s
  let n : Int := Text.ofDigits ds
  inRange (if negative then -n else n)

def splitSign : List Char → Bool × List Char
  | '+' :: r => (false, r)
  | '-' :: r => (true, r)
  | r => (false, r)

/-- Whether a text is a float: whole digits and a fraction, an exponent, or both. -/
def isFloat (s : List Char) : Bool :=
  let (_, body) := splitSign s
  if body == ['i', 'n', 'f'] || body == ['n', 'a', 'n'] then true
  else
    let isPart (c : Char) := c.isDigit || c == '_'
    let whole := body.takeWhile isPart
    let afterWhole := body.drop whole.length
    let (fractionOk, rest) := match afterWhole with
      | '.' :: r =>
        let digits := r.takeWhile isPart
        ((ungroup Char.isDigit digits).isSome, r.drop digits.length)
      | r => (true, r)
    let exponentOk := match rest with
      | [] => !afterWhole.isEmpty
      | c :: r => (c == 'e' || c == 'E') && (ungroup Char.isDigit (splitSign r).2).isSome
    (decimalDigits whole).isSome && fractionOk && exponentOk

def number (s : List Char) : Option Value :=
  let whole := match s with
    | '0' :: 'x' :: r => based 16 r
    | '0' :: 'o' :: r => based 8 r
    | '0' :: 'b' :: r => based 2 r
    | _ => let (negative, r) := splitSign s; signed negative r
  match whole with
  | some v => some v
  | none => if isFloat s then some .float else none

/-- A word that is no string, list or table. -/
def word (s : List Char) : Option Value :=
  if s == "true".toList then some (.boolean true)
  else if s == "false".toList then some (.boolean false)
  else number s

def isWordChar (c : Char) : Bool := isNameChar c || c == '+' || c == '.' || c == ':'

/-! ## Values -/

mutual

def value : Nat → Reader Value
  | 0, _ => none
  | fuel + 1, s =>
    match s with
    | '"' :: r => (basicString (fuel + 1) r).map fun (cs, r) => (.string (String.ofList cs), r)
    | '\'' :: r => (literalString r).map fun (cs, r) => (.string (String.ofList cs), r)
    | '[' :: r => (items fuel r).map fun (vs, r) => (.list false vs, r)
    | '\x7b' :: r => (fields fuel [] (skipBlanks r)).map fun (es, r) => (.table .written es, r)
    | s =>
      let w := s.takeWhile isWordChar
      (word w).map fun v => (v, s.drop w.length)

/-- The rest of a list after its opening bracket. -/
def items : Nat → Reader (List Value)
  | 0, _ => none
  | fuel + 1, s =>
    match skipLines s.length s with
    | ']' :: r => some ([], r)
    | s =>
      match value fuel s with
      | none => none
      | some (v, r) =>
        match skipLines r.length r with
        | ',' :: r => (items fuel r).map fun (vs, r) => (v :: vs, r)
        | ']' :: r => some ([v], r)
        | _ => none

/-- The rest of an inline table after its opening brace; `t` holds the entries so far. -/
def fields : Nat → Table → Reader Table
  | 0, _, _ => none
  | fuel + 1, t, s =>
    match s with
    | '\x7d' :: r => if t.isEmpty then some (t, r) else none
    | s =>
      match name s.length s with
      | some (names, '=' :: r) =>
        match value fuel (skipBlanks r) with
        | none => none
        | some (v, r) =>
          match t.assign v names, skipBlanks r with
          | some t, ',' :: r => fields fuel t (skipBlanks r)
          | some t, '\x7d' :: r => some (t, r)
          | _, _ => none
      | _ => none

end

/-! ## Statements -/

/-- The table as far as it was read, and the header that is open. -/
structure Progress where
  root : Table
  header : List String

/-- A header between its brackets, with `close` after it. -/
def header (close : List Char) (last : Option Value → Option Value) (p : Progress) (s : List Char) :
    Option (Progress × List Char) := do
  let (names, r) ← name s.length s
  let root ← p.root.openHeader last names
  if close.isPrefixOf r then some (⟨root, names⟩, r.drop close.length) else none

def statement (p : Progress) (s : List Char) : Option (Progress × List Char) :=
  match s with
  | '[' :: '[' :: r => header [']', ']'] Table.openNext p r
  | '[' :: r => header [']'] Table.openOne p r
  | s => do
    let (names, r) ← name s.length s
    let '=' :: r := r | none
    let (v, r) ← value (r.length + 1) (skipBlanks r)
    let root ← p.root.inside (Table.assign v names) p.header
    some (⟨root, p.header⟩, r)

def statements : Nat → Progress → List Char → Option Table
  | 0, _, _ => none
  | fuel + 1, p, s =>
    match skipLines s.length s with
    | [] => some p.root
    | s => do
      let (p, r) ← statement p s
      let r ← endOfLine r
      statements fuel p r

/-- A byte order mark before the first line is passed over. -/
def read (text : String) : Option Table :=
  let s := match text.toList with
    | '\ufeff' :: r => r
    | r => r
  statements (s.length + 1) ⟨[], []⟩ s

end TradingDesk.Config.Toml
