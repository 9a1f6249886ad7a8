import CCompletion.Number.Reader
import CCompletion.Refusal

/-!
Positions as a line and a column, both counted from one, and the cursor that a request names by a
position or by an offset.
-/

namespace CCompletion

structure Position where
  line : Nat
  column : Nat
deriving DecidableEq, Repr

namespace Position

def coordinate? (t : Text) : Option Nat :=
  (Number.ofText t).toInt?.bind fun i => if 1 ≤ i then some i.toNat else none

/-- Reads `line:column`. -/
def parse (t : Text) : Except Refusal Position :=
  match t.splitOn (unit ':') with
  | [line, column] =>
    match coordinate? line, coordinate? column with
    | some l, some c => .ok ⟨l, c⟩
    | _, _ => .error (.invalidPosition t)
  | _ => .error (.invalidPosition t)

def toText (p : Position) : Text :=
  (Number.ofNat p.line).toText ++ unit ':' :: (Number.ofNat p.column).toText

/-- The position at the end of a text. -/
def atEnd (before : Text) : Position :=
  let lines := before.lines
  ⟨lines.length, (lines.getLast?.getD []).length + 1⟩

/-- A negative offset counts from the end of the text. -/
def ofOffset (t : Text) (offset : Int) : Position := atEnd (t.upTo offset)

/-- Where a line starts, the newline after each earlier line counted. -/
def lineOffset (lines : List Text) : Nat := lines.foldr (fun l k => l.length + 1 + k) 0

/-- A column past the end of its line is the end of the line. -/
def toOffset (p : Position) (t : Text) : Except Refusal Nat :=
  match t.lines[p.line - 1]? with
  | none => .error (.invalidPosition p.toText)
  | some line => .ok (lineOffset (t.lines.take (p.line - 1)) + min (p.column - 1) line.length)

end Position

/-- How a request names its cursor. A position wins over an offset; with neither, the cursor stands at the
end. -/
structure CursorRequest where
  position? : Option Text := none
  offset? : Option Number := none

def CursorRequest.resolve (request : CursorRequest) (t : Text) : Except Refusal Int :=
  match request.position?, request.offset? with
  | some position, _ => do
    let p ← Position.parse position
    return (← p.toOffset t)
  | none, some offset =>
    match offset.toInt? with
    | some i => .ok i
    | none => .error (.cursorOutside offset t.length)
  | none, none => .ok t.length

/-- An offset that stands between two units of the text or at one of its ends. -/
def cursorIn (t : Text) (offset : Number) : Except Refusal Nat :=
  match offset.toInt? with
  | some i => if 0 ≤ i ∧ i ≤ t.length then .ok i.toNat else .error (.cursorOutside offset t.length)
  | none => .error (.cursorOutside offset t.length)

end CCompletion
