import CCompletion.Candidate.Basic
import CCompletion.Json.Basic
import CCompletion.Number.Printer
import CCompletion.Number.Reader

/-!
What the fields of a request must be. A scalar of another type is converted where that is harmless: a
number to its text, a text to the integer it writes, a list of one member to that member.
-/

namespace CCompletion.Service

/-- What is asked of a value. -/
inductive Demand where
  | object
  | field (name : Text)
  | string
  | integer
  | notNegative
  | notEmpty
  | listed
  | identifier
deriving DecidableEq

/-- A value that is not what it must be. -/
structure Violation where
  /-- Where the value stands, its field names set apart by slashes. -/
  place : Text
  demand : Demand
deriving DecidableEq

def Demand.text : Demand → Text
  | object => "must be object"
  | field name => Text.ofString "must have required property '" ++ name ++ "'"
  | string => "must be string"
  | integer => "must be integer"
  | notNegative => "must be >= 0"
  | notEmpty => "must NOT have fewer than 1 characters"
  | listed => "must be equal to one of the allowed values"
  | identifier => "must match pattern \"^[A-Za-z_][A-Za-z0-9_]*$\""

def Violation.message (v : Violation) : Text := v.place ++ unit ' ' :: v.demand.text

/-- The member of a list that has only one. -/
def onlyMember : Json → Json
  | .array [v] => v
  | v => v

def text? (v : Json) : Option Text :=
  match onlyMember v with
  | .string t => some t
  | .number n => some n.toText
  | .bool b => some (if b then "true" else "false")
  | .null => some []
  | _ => none

/-- A text counts as the integer that it writes; an infinity passes for one there. -/
def integerOfText? (t : Text) : Option Number :=
  if t = [] then none
  else
    match Number.ofText t with
    | .finite q => if q.den = 1 then some (.finite q) else none
    | .infinite negative => some (.infinite negative)
    | .notANumber => none

def integer? (v : Json) : Option Number :=
  match onlyMember v with
  | .number n => if n.toInt?.isSome then some n else none
  | .bool b => some (.ofNat (if b then 1 else 0))
  | .null => some (.ofNat 0)
  | .string t => integerOfText? t
  | _ => none

def isNegative : Number → Bool
  | .finite q => q < 0
  | .infinite negative => negative
  | .notANumber => false

abbrev Checked (α : Type) := Except Violation α

def entriesAt (place : Text) : Json → Checked (List (Text × Json))
  | .object entries => .ok entries
  | _ => .error ⟨place, .object⟩

/-- Are all fields there? The first that is not is the one complained of. -/
def requireFields (place : Text) (entries : List (Text × Json)) : List Text → Checked Unit
  | [] => .ok ()
  | name :: rest =>
    if (Json.lookup? name entries).isSome then requireFields place entries rest
    else .error ⟨place, .field name⟩

def value (entries : List (Text × Json)) (name : Text) : Json := (Json.lookup? name entries).getD .null

def textAt (place : Text) (v : Json) : Checked Text :=
  match text? v with
  | some t => .ok t
  | none => .error ⟨place, .string⟩

def filledTextAt (place : Text) (v : Json) : Checked Text := do
  let t ← textAt place v
  if t = [] then .error ⟨place, .notEmpty⟩ else return t

def offsetAt (place : Text) (v : Json) : Checked Number :=
  match integer? v with
  | some n => if isNegative n then .error ⟨place, .notNegative⟩ else .ok n
  | none => .error ⟨place, .integer⟩

def kindAt (place : Text) (v : Json) : Checked Kind := do
  let t ← textAt place v
  match Kind.ofName? t with
  | some k => return k
  | none => .error ⟨place, .listed⟩

def candidateAt (place : Text) (v : Json) : Checked Candidate := do
  let entries ← entriesAt place v
  requireFields place entries ["kind", "text"]
  let kind ← kindAt (place ++ "/kind") (value entries "kind")
  let text ← filledTextAt (place ++ "/text") (value entries "text")
  return ⟨kind, text⟩

def identifierAt (place : Text) (t : Text) : Checked Text :=
  if t.isIdentifier then .ok t else .error ⟨place, .identifier⟩

end CCompletion.Service
