-- SUMMARY: White space, and how text is cut into lines and into fields.

/-!
# Fields

Every text format of the desk is made of lines, and every line of fields that
stand between white space. White space is the Unicode property of that name,
which holds far more than the characters `Char.isWhitespace` knows.
-/

namespace TradingDesk.Text

/-- The code points of the Unicode property `White_Space`. -/
def isBlank (c : Char) : Bool :=
  let n := c.toNat
  (0x09 ≤ n && n ≤ 0x0d) || n == 0x20 || n == 0x85 || n == 0xa0 || n == 0x1680
    || (0x2000 ≤ n && n ≤ 0x200a) || n == 0x2028 || n == 0x2029 || n == 0x202f
    || n == 0x205f || n == 0x3000

/-- The pieces of a list that stand between the members satisfying `p`. There is
always one piece more than there are such members. -/
def pieces (p : α → Bool) : List α → List (List α)
  | [] => [[]]
  | a :: as =>
    if p a then [] :: pieces p as
    else match pieces p as with
      | [] => [[a]]
      | w :: ws => (a :: w) :: ws

/-- The fields of a text: its maximal runs without a blank. -/
def words (s : List Char) : List (List Char) :=
  (pieces isBlank s).filter (!·.isEmpty)

def trim (s : List Char) : List Char :=
  ((s.dropWhile isBlank).reverse.dropWhile isBlank).reverse

/-- The lines of a text that hold anything, without the blanks at either end. A
carriage return before the line feed is a blank, so it needs no rule of its own. -/
def lines (s : List Char) : List (List Char) :=
  ((pieces (· == '\n') s).map trim).filter (!·.isEmpty)

end TradingDesk.Text
