import CCompletion.Json.Basic
import CCompletion.Number.Printer

/-!
The printed form of a JSON value: on one line without blanks, or on lines indented by two blanks a
level. Control units and unpaired surrogates are escaped; a value that is no finite number is `null`.
-/

namespace CCompletion.Json

/-- An escape of four hexadecimal digits. -/
def unitEscape (u : CodeUnit) : Text :=
  let n := u.toNat
  [unit '\\', unit 'u', hexDigit (n / 4096), hexDigit (n / 256 % 16), hexDigit (n / 16 % 16), hexDigit (n % 16)]

def unitText (u : CodeUnit) : Text :=
  if u = unit '"' ∨ u = unit '\\' then [unit '\\', u]
  else if u = 8 then [unit '\\', unit 'b']
  else if u = 12 then [unit '\\', unit 'f']
  else if u = 10 then [unit '\\', unit 'n']
  else if u = 13 then [unit '\\', unit 'r']
  else if u = 9 then [unit '\\', unit 't']
  else if u < 32 then unitEscape u
  else [u]

def escape : Text → Text
  | [] => []
  | [u] => if Text.isHighSurrogate u || Text.isLowSurrogate u then unitEscape u else unitText u
  | u :: v :: rest =>
    if Text.isHighSurrogate u && Text.isLowSurrogate v then u :: v :: escape rest
    else if Text.isHighSurrogate u || Text.isLowSurrogate u then unitEscape u ++ escape (v :: rest)
    else unitText u ++ escape (v :: rest)

def quoted (t : Text) : Text := unit '"' :: escape t ++ [unit '"']

def numberText (n : Number) : Text :=
  match n with
  | .finite _ => n.toText
  | _ => "null"

/-- How the members of a list or an object are set apart at some depth. -/
structure Spacing where
  /-- What opens a line at a depth. -/
  line : Nat → Text
  colon : Text

def Spacing.compact : Spacing := ⟨fun _ => [], ":"⟩

def Spacing.indented : Spacing := ⟨fun depth => newline :: List.replicate (2 * depth) (unit ' '), ": "⟩

/-- Members between brackets; an empty list has no lines. -/
def bracketed (spacing : Spacing) (depth : Nat) (opening closing : CodeUnit) (members : List Text) : Text :=
  if members.isEmpty then [opening, closing]
  else
    opening :: spacing.line (depth + 1) ++
      Text.joinWith (unit ',' :: spacing.line (depth + 1)) members ++ spacing.line depth ++ [closing]

mutual

def print (spacing : Spacing) (depth : Nat) : Json → Text
  | .null => "null"
  | .bool b => if b then "true" else "false"
  | .number n => numberText n
  | .string s => quoted s
  | .array items => bracketed spacing depth (unit '[') (unit ']') (printItems spacing (depth + 1) items)
  | .object entries =>
    bracketed spacing depth (unit '\x7b') (unit '\x7d') (printEntries spacing (depth + 1) entries)

def printItems (spacing : Spacing) (depth : Nat) : List Json → List Text
  | [] => []
  | v :: rest => print spacing depth v :: printItems spacing depth rest

def printEntries (spacing : Spacing) (depth : Nat) : List (Text × Json) → List Text
  | [] => []
  | (k, v) :: rest => (quoted k ++ spacing.colon ++ print spacing depth v) :: printEntries spacing depth rest

end

def compact (v : Json) : Text := print .compact 0 v

def indented (v : Json) : Text := print .indented 0 v

end CCompletion.Json
