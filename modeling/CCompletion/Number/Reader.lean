import CCompletion.Number.Basic
import CCompletion.Text.Class

/-!
Reading a number from a text: blanks around it are dropped, an empty text is zero, `0x`, `0o` and `0b`
open unsigned integers, and anything else is a decimal with an optional sign and exponent. A text of
any other form is not a number.
-/

namespace CCompletion.Number

def digitValue? (base : Nat) (u : CodeUnit) : Option Nat :=
  let n := u.toNat
  let value :=
    if isDigit u then some (n - 48)
    else if 97 ≤ n ∧ n ≤ 122 then some (n - 87)
    else if 65 ≤ n ∧ n ≤ 90 then some (n - 55)
    else none
  value.filter (· < base)

/-- The value of a run of digits that starts with `acc`. -/
def natFrom? (base : Nat) (acc : Nat) : Text → Option Nat
  | [] => some acc
  | u :: rest => (digitValue? base u).bind fun d => natFrom? base (acc * base + d) rest

def nat? (base : Nat) : Text → Option Nat
  | [] => none
  | t => natFrom? base 0 t

/-- `m * 10 ^ e` rounded. Magnitudes that no double-precision value can have are not computed. -/
def ofDecimal (negative : Bool) (m : Nat) (e : Int) : Number :=
  let size : Int := (Nat.toDigits 10 m).length + e
  if m = 0 ∨ size < -330 then .finite 0
  else if 310 < size then .infinite negative
  else
    let q := scaled m 10 e
    ofRat (if negative then -q else q)

/-- The exponent of a decimal; none at all is zero. -/
def exponent? : Text → Option Int
  | [] => some 0
  | u :: rest =>
    if u = unit 'e' ∨ u = unit 'E' then
      match rest with
      | s :: ds =>
        if s = unit '-' then (nat? 10 ds).map fun n => -(n : Int)
        else if s = unit '+' then (nat? 10 ds).map Int.ofNat
        else (nat? 10 rest).map Int.ofNat
      | [] => none
    else none

/-- Digits with at most one point among them and an optional exponent. -/
def decimal? (negative : Bool) (t : Text) : Option Number := do
  let whole := t.takeWhile isDigit
  let rest := t.dropWhile isDigit
  let (fraction, tail) :=
    match rest with
    | u :: more => if u = unit '.' then (more.takeWhile isDigit, more.dropWhile isDigit) else ([], rest)
    | [] => ([], [])
  let m ← nat? 10 (whole ++ fraction)
  let e ← exponent? tail
  return ofDecimal negative m (e - fraction.length)

def signed? (negative : Bool) (t : Text) : Option Number :=
  if t = Text.ofString "Infinity" then some (.infinite negative) else decimal? negative t

def trimmed? : Text → Option Number
  | [] => some (.finite 0)
  | [u] => decimal? false [u]
  | u :: v :: rest =>
    if u = unit '0' ∧ (v = unit 'x' ∨ v = unit 'X') then (nat? 16 rest).map ofNat
    else if u = unit '0' ∧ (v = unit 'o' ∨ v = unit 'O') then (nat? 8 rest).map ofNat
    else if u = unit '0' ∧ (v = unit 'b' ∨ v = unit 'B') then (nat? 2 rest).map ofNat
    else if u = unit '-' then signed? true (v :: rest)
    else if u = unit '+' then signed? false (v :: rest)
    else signed? false (u :: v :: rest)

def ofText (t : Text) : Number := (trimmed? t.trim).getD .notANumber

end CCompletion.Number
