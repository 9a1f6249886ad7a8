import CCompletion.Json.Basic
import CCompletion.Number.Reader

/-!
A strict reader of JSON texts. Every call of the three readers below consumes a unit or hands over to
one that does, so three calls for each unit are enough.
-/

namespace CCompletion.Json

def isJsonBlank (u : CodeUnit) : Bool := u == 32 || u == 9 || u == 10 || u == 13

def skipBlanks (t : Text) : Text := t.dropWhile isJsonBlank

/-- The unit that a one-letter escape stands for. -/
def escaped? (u : CodeUnit) : Option CodeUnit :=
  if u = unit '"' ∨ u = unit '\\' ∨ u = unit '/' then some u
  else if u = unit 'b' then some 8
  else if u = unit 'f' then some 12
  else if u = unit 'n' then some 10
  else if u = unit 'r' then some 13
  else if u = unit 't' then some 9
  else none

/-- The rest of a string whose opening quote has been read, with what follows the closing one. -/
def stringBody? (done : Text) : Text → Option (Text × Text)
  | [] => none
  | [u] => if u = unit '"' then some (done.reverse, []) else none
  | u :: v :: rest =>
    if u = unit '"' then some (done.reverse, v :: rest)
    else if u = unit '\\' then
      if v = unit 'u' then
        match rest with
        | a :: b :: c :: d :: more =>
          (Number.nat? 16 [a, b, c, d]).bind fun n => stringBody? (UInt16.ofNat n :: done) more
        | _ => none
      else (escaped? v).bind fun w => stringBody? (w :: done) rest
    else if u < 32 then none
    else stringBody? (u :: done) (v :: rest)

def isNumberUnit (u : CodeUnit) : Bool :=
  isDigit u || u == unit '+' || u == unit '-' || u == unit '.' || u == unit 'e' || u == unit 'E'

/-- Is the text a number as JSON writes it: no plus sign in front, no needless zero, digits on both sides
of the point? -/
def isNumeral (t : Text) : Bool :=
  let magnitude := if t.head? = some (unit '-') then t.drop 1 else t
  let whole := magnitude.takeWhile isDigit
  let rest := magnitude.dropWhile isDigit
  let fractionOk := rest.head? ≠ some (unit '.') || ((rest.drop 1).takeWhile isDigit ≠ [])
  whole ≠ [] && (whole.length = 1 || whole.head? ≠ some (unit '0')) && fractionOk

def numeral? (t : Text) : Option (Json × Text) :=
  let numeral := t.takeWhile isNumberUnit
  let value := Number.ofText numeral
  if isNumeral numeral && value ≠ .notANumber then some (.number value, t.dropWhile isNumberUnit)
  else none

def keyword? (t : Text) : Option (Json × Text) :=
  if (Text.ofString "true").isPrefixOf t then some (.bool true, t.drop 4)
  else if (Text.ofString "false").isPrefixOf t then some (.bool false, t.drop 5)
  else if (Text.ofString "null").isPrefixOf t then some (.null, t.drop 4)
  else none

mutual

/-- A value at the start of the text, with what follows it. -/
def value? : Nat → Text → Option (Json × Text)
  | 0, _ => none
  | fuel + 1, t =>
    match skipBlanks t with
    | [] => none
    | u :: rest =>
      if u = unit '"' then (stringBody? [] rest).map fun (s, more) => (.string s, more)
      else if u = unit '[' then
        match skipBlanks rest with
        | [] => none
        | v :: more =>
          if v = unit ']' then some (.array [], more)
          else (items? fuel (v :: more)).map fun (vs, after) => (.array vs, after)
      else if u = unit '\x7b' then
        match skipBlanks rest with
        | [] => none
        | v :: more =>
          if v = unit '\x7d' then some (.object [], more)
          else (members? fuel (v :: more)).map fun (ms, after) => (ofMembers ms, after)
      else (keyword? (u :: rest)).orElse fun _ => numeral? (u :: rest)

def items? : Nat → Text → Option (List Json × Text)
  | 0, _ => none
  | fuel + 1, t =>
    (value? fuel t).bind fun (v, after) =>
      match skipBlanks after with
      | [] => none
      | u :: rest =>
        if u = unit ',' then (items? fuel rest).map fun (vs, more) => (v :: vs, more)
        else if u = unit ']' then some ([v], rest)
        else none

def members? : Nat → Text → Option (List (Text × Json) × Text)
  | 0, _ => none
  | fuel + 1, t =>
    match skipBlanks t with
    | [] => none
    | q :: keyed =>
      if q ≠ unit '"' then none
      else
        (stringBody? [] keyed).bind fun (key, afterKey) =>
          match skipBlanks afterKey with
          | [] => none
          | c :: valued =>
            if c ≠ unit ':' then none
            else
              (value? fuel valued).bind fun (v, after) =>
                match skipBlanks after with
                | [] => none
                | u :: rest =>
                  if u = unit ',' then (members? fuel rest).map fun (ms, more) => ((key, v) :: ms, more)
                  else if u = unit '\x7d' then some ([(key, v)], rest)
                  else none

end

/-- The value that a whole text holds. -/
def ofText? (t : Text) : Option Json :=
  (value? (3 * t.length + 3) t).bind fun (v, rest) => if skipBlanks rest = [] then some v else none

end CCompletion.Json
