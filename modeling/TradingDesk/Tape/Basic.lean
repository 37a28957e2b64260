-- SUMMARY: Tapes: recorded market data, read in time order as a session goes on.
import TradingDesk.Outcome
import TradingDesk.Tape.Record

/-!
# Tapes

A tape is read line by line and never back. It looks one record ahead: a record
whose time has not come waits in `ahead`. Blank lines and comments count as lines
but hold nothing; a line that cannot be read is skipped and counted. A tape that
is on a failing medium fails on every read beyond its last whole line.
-/

namespace TradingDesk

structure Tape (α : Type) where
  name : String
  /-- The lines not read yet. -/
  pending : List (List UInt8)
  /-- What reading beyond the pending lines fails with; `none` at the end of a sound tape. -/
  fault : Option String
  ahead : Option (Timed α)
  /-- The number of the last line read. -/
  line : Nat
  skipped : Nat
  deriving DecidableEq

namespace Tape

/-- The lines of a tape's bytes. On a failing medium the last line feed is followed
by the failure, otherwise by a last line, which may be missing. -/
def splitLines (data : List UInt8) (fails : Bool) : List (List UInt8) :=
  let parts := Text.pieces (· == 10) data
  if fails then parts.dropLast
  else match parts.getLast? with
    | some [] => parts.dropLast
    | _ => parts

def ofBytes (name : String) (data : List UInt8) (fault : Option String) : Tape α where
  name := name
  pending := splitLines data fault.isSome
  fault := fault
  ahead := none
  line := 0
  skipped := 0

/-- What a line of a tape holds. -/
inductive Entry (α : Type) where
  | nothing
  | notText
  | malformed (cause : Error)
  | record (r : Timed α)

def decode (bytes : List UInt8) : Option String :=
  String.fromUTF8? ⟨bytes.toArray⟩

def Entry.ofBytes [TapeRecord α] (bytes : List UInt8) : Entry α :=
  match decode bytes with
  | none => .notText
  | some s =>
    match Text.trim s.toList with
    | [] => .nothing
    | '#' :: _ => .nothing
    | text =>
      match TapeRecord.readLine text with
      | .ok r => .record r
      | .error e => .malformed e

/-- Reads on until a record whose time has not come, and hands over those before
it. A failure loses what was read in the same call. -/
def readUntil [TapeRecord α] (name : String) (boundary : Nat) (fault : Option String)
    (line skipped : Nat) : List (List UInt8) → Outcome (Tape α) (List (Timed α))
  | [] =>
    match fault with
    | none => .ok [] ⟨name, [], fault, none, line, skipped⟩
    | some text => .fail (.tapeRead name (line + 1) text) ⟨name, [], fault, none, line + 1, skipped⟩
  | bytes :: rest =>
    match (Entry.ofBytes bytes : Entry α) with
    | .nothing => readUntil name boundary fault (line + 1) skipped rest
    | .notText =>
      (readUntil name boundary fault (line + 1) (skipped + 1) rest).after
        [.lineNotText name (line + 1)]
    | .malformed cause =>
      (readUntil name boundary fault (line + 1) (skipped + 1) rest).after
        [.lineSkipped name (line + 1) cause]
    | .record r =>
      if r.time < boundary then
        let later := readUntil name boundary fault (line + 1) skipped rest
        { later with result := later.result.map (r :: ·) }
      else .ok [] ⟨name, rest, fault, some r, line + 1, skipped⟩

/-- The records before `boundary` that were not handed over yet. -/
def takeUntil [TapeRecord α] (t : Tape α) (boundary : Nat) : Outcome (Tape α) (List (Timed α)) :=
  match t.ahead with
  | none => readUntil t.name boundary t.fault t.line t.skipped t.pending
  | some r =>
    if r.time < boundary then
      let later := readUntil t.name boundary t.fault t.line t.skipped t.pending
      { later with result := later.result.map (r :: ·) }
    else .ok [] t

/-- Whether no record is left. No record is before time zero, so this only looks ahead. -/
def isExhausted [TapeRecord α] (t : Tape α) : Outcome (Tape α) Bool :=
  (t.takeUntil 0).bind fun _ t => .ok t.ahead.isNone t

end Tape

end TradingDesk
