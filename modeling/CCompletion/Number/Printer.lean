import CCompletion.Number.Basic
import CCompletion.Text.Basic

/-!
The printed form of a number: the fewest decimal digits that read back as the same value, written
positionally from 10^-6 up to, but not including, 10^21 and with an exponent elsewhere.
-/

namespace CCompletion.Number

def digits (n : Nat) : Text := Text.ofChars (Nat.toDigits 10 n)

/-- The least `k` with `q < 10 ^ k`, for a positive `q`. -/
def decimalPoint (q : Rat) : Int :=
  let k : Int := ((Nat.toDigits 10 q.num.natAbs).length : Int) - ((Nat.toDigits 10 q.den).length : Int)
  if q < scaled 1 10 k then k else k + 1

def stripZeros : Nat → Nat → Int → Nat × Int
  | 0, m, e => (m, e)
  | fuel + 1, m, e => if m % 10 = 0 then stripZeros fuel (m / 10) (e + 1) else (m, e)

/-- Of the two neighbours of `q` on the grid of `count` significant digits, the nearer one that reads
back as `q`, as an integer and its decimal exponent. -/
def onGrid? (q : Rat) (point : Int) (count : Nat) : Option (Nat × Int) :=
  let e := point - count
  let below := (q / scaled 1 10 e).floor.toNat
  let reads (m : Nat) : Bool := ofRat (scaled m 10 e) = .finite q
  let nearer := if q - scaled below 10 e ≤ scaled (below + 1) 10 e - q then below else below + 1
  let other := if nearer = below then below + 1 else below
  if reads nearer then some (nearer, e) else if reads other then some (other, e) else none

/-- The shortest decimal that reads back as the positive number `q`. -/
def shortest (q : Rat) : Nat × Int :=
  let point := decimalPoint q
  match (List.range 17).findSome? fun i => onGrid? q point (i + 1) with
  | some (m, e) => stripZeros 20 m e
  | none => (0, 0)

/-- A decimal `m * 10 ^ e` in positional or exponent form. -/
def decimalText (m : Nat) (e : Int) : Text :=
  let ds := digits m
  let point : Int := ds.length + e
  if ds.length ≤ point ∧ point ≤ 21 then ds ++ List.replicate (point - ds.length).toNat (unit '0')
  else if 0 < point ∧ point ≤ 21 then ds.take point.toNat ++ unit '.' :: ds.drop point.toNat
  else if -6 < point ∧ point ≤ 0 then
    Text.ofString "0." ++ List.replicate (-point).toNat (unit '0') ++ ds
  else
    let exponent := point - 1
    let sign := if exponent < 0 then unit '-' else unit '+'
    let significand := if ds.length ≤ 1 then ds else ds.take 1 ++ unit '.' :: ds.drop 1
    significand ++ unit 'e' :: sign :: digits exponent.natAbs

def magnitudeText (q : Rat) : Text :=
  if q.den = 1 ∧ q.num.natAbs ≤ exactLimit then digits q.num.natAbs
  else
    let (m, e) := shortest q
    decimalText m e

def toText : Number → Text
  | .notANumber => "NaN"
  | .infinite negative => if negative then "-Infinity" else "Infinity"
  | .finite q => if q.num < 0 then unit '-' :: magnitudeText (-q) else magnitudeText q

theorem magnitudeText_natCast {n : Nat} (h : n ≤ exactLimit) : magnitudeText ((n : Int) : Rat) = digits n := by
  have hnum : ((n : Int) : Rat).num.natAbs = n := by rw [Rat.num_intCast]; rfl
  have hsmall : ((n : Int) : Rat).num.natAbs ≤ exactLimit := by rw [hnum]; exact h
  unfold magnitudeText
  rw [if_pos ⟨Rat.den_intCast _, hsmall⟩, hnum]

theorem toText_ofNat_of_le {n : Nat} (h : n ≤ exactLimit) : toText (ofNat n) = digits n := by
  have hneg : ¬ ((n : Int) : Rat).num < 0 := by rw [Rat.num_intCast]; omega
  have hn : (n : Int).natAbs ≤ exactLimit := h
  rw [ofNat, ofInt_of_le hn, toText, if_neg hneg, magnitudeText_natCast h]

end CCompletion.Number
