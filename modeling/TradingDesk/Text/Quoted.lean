-- SUMMARY: Text in double quotes, for messages that repeat what was received.
import TradingDesk.Text.Printable

/-!
# Quoted text

A message repeats foreign text between double quotes, so that blanks, control
characters and lone combining marks in it can be seen. The plain quote needs no
escape; a character that cannot stand for itself is written by its number.
-/

namespace TradingDesk.Text

def escape (c : Char) : List Char :=
  if c == '"' then ['\\', '"']
  else if c == '\\' then ['\\', '\\']
  else if c == '\n' then ['\\', 'n']
  else if c == '\r' then ['\\', 'r']
  else if c == '\t' then ['\\', 't']
  else if c == '\x00' then ['\\', '0']
  else if isPrintable c then [c]
  else "\\u\x7b".toList ++ Nat.toDigits 16 c.toNat ++ ['\x7d']

def quoted (s : List Char) : String :=
  String.ofList ('"' :: s.flatMap escape ++ ['"'])

example : ['"', '\\', '\t', '\x00'].flatMap escape = "\\\"\\\\\\t\\0".toList := by decide +kernel

end TradingDesk.Text
