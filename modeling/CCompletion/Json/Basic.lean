import CCompletion.Number.Basic
import CCompletion.Text.Class

/-!
JSON values. An object keeps each key once, with the last value written for it; keys that are
numerals come first, in ascending order, the others in the order of their first writing.
-/

namespace CCompletion

inductive Json where
  | null
  | bool (value : Bool)
  | number (value : Number)
  | string (value : Text)
  | array (items : List Json)
  | object (entries : List (Text × Json))

namespace Json

/-- The value written last for a key. -/
def lookup? (key : Text) : List (Text × Json) → Option Json
  | [] => none
  | (k, v) :: rest => (lookup? key rest).orElse fun _ => if k = key then some v else none

/-- Gives `key` the value `v`: in its old place if it has one, else at the end. -/
def put (key : Text) (v : Json) : List (Text × Json) → List (Text × Json)
  | [] => [(key, v)]
  | (k, w) :: rest => if k = key then (k, v) :: rest else (k, w) :: put key v rest

/-- Digits without a leading zero, for a value below 2^32 - 1. -/
def numeralKey? (key : Text) : Option Nat :=
  if key.all isDigit ∧ key ≠ [] ∧ (key.length = 1 ∨ key.head? ≠ some (unit '0')) ∧ key.length ≤ 10 then
    let n := key.foldl (fun acc u => acc * 10 + (u.toNat - 48)) 0
    if n < 0xFFFFFFFF then some n else none
  else none

def keyBefore (a b : Text × Json) : Bool :=
  match numeralKey? a.1, numeralKey? b.1 with
  | some m, some n => m ≤ n
  | some _, none => true
  | none, some _ => false
  | none, none => true

/-- An object from its members in the order in which they were written. -/
def ofMembers (members : List (Text × Json)) : Json :=
  .object ((members.foldl (fun entries m => put m.1 m.2 entries) []).mergeSort keyBefore)

def field? (key : Text) : Json → Option Json
  | .object entries => lookup? key entries
  | _ => none

def ofNat (n : Nat) : Json := .number n

def ofTexts (ts : List Text) : Json := .array (ts.map .string)

end Json
end CCompletion
