-- SUMMARY: JSON documents in indented form.

/-!
# Indented JSON

A document is written with one entry a line, two spaces deeper in every object or
list. Numbers come as their text, because the writer of a number decides its form.
-/

namespace TradingDesk.Text

inductive Json where
  | null
  | number (text : String)
  | list (items : List Json)
  | object (fields : List (String × Json))

namespace Json

def int (n : Int) : Json := .number (toString n)

def orNull : Option Json → Json
  | some j => j
  | none => .null

/-- Entries between brackets, one a line; nothing stands between the brackets of an
empty value. -/
def block (opening closing : String) (depth : Nat) (entries : List String) : String :=
  let indent (n : Nat) := "".pushn ' ' (2 * n)
  if entries.isEmpty then opening ++ closing
  else
    let lines := entries.map fun e => indent (depth + 1) ++ e
    opening ++ "\n" ++ ",\n".intercalate lines ++ "\n" ++ indent depth ++ closing

mutual

/-- The text of a value that stands `depth` levels deep. -/
def renderAt (depth : Nat) : Json → String
  | null => "null"
  | number text => text
  | list items => block "[" "]" depth (renderItems (depth + 1) items)
  | object fields => block "\x7b" "\x7d" depth (renderFields (depth + 1) fields)

def renderItems (depth : Nat) : List Json → List String
  | [] => []
  | j :: js => renderAt depth j :: renderItems depth js

def renderFields (depth : Nat) : List (String × Json) → List String
  | [] => []
  | (name, j) :: rest => s!"\"{name}\": {renderAt depth j}" :: renderFields depth rest

end

def render (j : Json) : String := j.renderAt 0

end Json

end TradingDesk.Text
