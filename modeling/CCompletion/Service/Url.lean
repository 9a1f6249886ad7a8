import CCompletion.Number.Reader
import CCompletion.Text.Bytes
import CCompletion.Text.Class

/-!
Targets of requests: a path, and after a question mark fields written `key=value` with `&` between them.
Bytes that may not stand as they are are written as a percent sign and two hexadecimal digits.
-/

namespace CCompletion

structure Url where
  path : Text
  query : Option Text
deriving DecidableEq

namespace Url

def capitalHexDigit (n : Nat) : CodeUnit := if n < 10 then UInt16.ofNat (48 + n) else UInt16.ofNat (55 + n)

def percentByte (b : UInt8) : Text :=
  [unit '%', capitalHexDigit (b.toNat / 16), capitalHexDigit (b.toNat % 16)]

/-- Writes the bytes of all code points but those that are kept. -/
def encodeExcept (kept : Nat → Bool) (t : Text) : Text :=
  t.toCodePoints.flatMap fun n =>
    if kept n then Text.ofCodePoint n else (Text.codePointBytes n).flatMap percentByte

/-- Writes a field's value; only ASCII letters, digits and underscores are kept. -/
def encodeValue (t : Text) : Text :=
  encodeExcept (fun n => n < 128 && isIdentifierUnit (UInt16.ofNat n)) t

/-- The bytes of a text in which percent signs stand for bytes; nothing when one is not followed by two
hexadecimal digits. -/
def decodedBytes? : Text → Option (List UInt8)
  | [] => some []
  | [u] => if u = unit '%' then none else some (Text.toBytes [u])
  | [u, v] => if u = unit '%' ∨ v = unit '%' then none else some (Text.toBytes [u, v])
  | u :: v :: w :: rest =>
    if u = unit '%' then do
      let n ← Number.nat? 16 [v, w]
      return UInt8.ofNat n :: (← decodedBytes? rest)
    else do
      let more ← decodedBytes? (v :: w :: rest)
      return Text.toBytes [u] ++ more

/-- Reads what `encodeExcept` writes; a text that is no encoding stays as it is. -/
def decode (t : Text) : Text :=
  match decodedBytes? t with
  | some bytes => if (Text.ofBytes bytes).toBytes = bytes then Text.ofBytes bytes else t
  | none => t

def isHarmless (reserved : Text) (n : Nat) : Bool :=
  0x20 < n && n < 0x7F && UInt16.ofNat n ∉ reserved

/-- Goes through the names of a path: a dot is dropped, two dots take back the name before them. -/
def dropDots (done : List Text) : List Text → List Text
  | [] => done.reverse
  | [last] =>
    if last = "." then dropDots ([] :: done) []
    else if last = ".." then dropDots ([] :: done.drop 1) []
    else dropDots (last :: done) []
  | name :: rest =>
    if name = "." then dropDots done rest
    else if name = ".." then dropDots (done.drop 1) rest
    else dropDots (name :: done) rest

/-- The path of a target: from its first slash on, without dots. -/
def cleanPath (t : Text) : Text :=
  let names := (if t.head? = some (unit '/') then t.drop 1 else t).splitOn (unit '/')
  unit '/' :: Text.joinWith "/" (dropDots [] names)

/-- The text before the first unit of a class, and what follows that unit if there is one. -/
def cutAt (p : CodeUnit → Bool) (t : Text) : Text × Option Text :=
  let before := t.takeWhile fun u => !p u
  (before, if before.length < t.length then some (t.drop (before.length + 1)) else none)

/-- A target as it is sent: without the part after a number sign, and with harmless ASCII only. -/
def target (t : Text) : Text :=
  let (whole, _) := cutAt (· == unit '#') t
  let (path, query) := cutAt (· == unit '?') whole
  let sentPath := encodeExcept (isHarmless "\"<>`\x7b\x7d") (cleanPath path)
  match query with
  | some q => sentPath ++ unit '?' :: encodeExcept (isHarmless "\"<>'") q
  | none => sentPath

/-- The parts of a target that has been sent. A semicolon ends the path as a question mark does. -/
def ofTarget (t : Text) : Url :=
  let (path, query) := cutAt (fun u => u == unit '?' || u == unit ';') t
  ⟨decode path, query⟩

def plusToSpace (t : Text) : Text := t.map fun u => if u = unit '+' then unit ' ' else u

/-- The values of a field, one for each time that it is given. -/
def values (u : Url) (key : Text) : List Text :=
  (((u.query.getD []).splitOn (unit '&')).filter (· ≠ [])).filterMap fun field =>
    let (k, v) := cutAt (· == unit '=') field
    if decode (plusToSpace k) = key then some (decode (plusToSpace (v.getD []))) else none

end Url
end CCompletion
