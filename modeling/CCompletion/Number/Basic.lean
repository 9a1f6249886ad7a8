/-!
Numbers of offsets, ports and limits: exact rationals that a double-precision value can hold, two
infinities and a value that is no number. Both zeros are one zero.
-/

namespace CCompletion

inductive Number where
  | notANumber
  | infinite (negative : Bool)
  | finite (value : Rat)
deriving DecidableEq

namespace Number

/-- The quotient rounded to the nearest integer, a half to the even neighbour. -/
def divRoundEven (n d : Nat) : Nat :=
  let q := n / d
  let r := n % d
  if 2 * r < d then q
  else if 2 * r = d then (if q % 2 = 0 then q else q + 1)
  else q + 1

/-- The binary logarithm of `n / d`, rounded down. -/
def floorLog2 (n d : Nat) : Int :=
  let k : Int := (Nat.log2 n : Int) - (Nat.log2 d : Int)
  let below := if 0 ≤ k then n < d * Nat.pow 2 k.toNat else n * Nat.pow 2 (-k).toNat < d
  if below then k - 1 else k

/-- The nearest double-precision value of `n / d` as a significand and a binary exponent: 53 bits, and no
exponent under -1074. -/
def nearestDouble (n d : Nat) : Nat × Int :=
  let e := max (floorLog2 n d - 52) (-1074)
  if 0 ≤ e then (divRoundEven n (d * Nat.pow 2 e.toNat), e)
  else (divRoundEven (n * Nat.pow 2 (-e).toNat) d, e)

/-- The rational `m * base ^ e`. -/
def scaled (m base : Nat) (e : Int) : Rat :=
  if 0 ≤ e then (m * Nat.pow base e.toNat : Nat) else mkRat m (Nat.pow base (-e).toNat)

/-- 2^53. No integer up to it needs rounding. -/
def exactLimit : Nat := 9007199254740992

/-- A rational as a number. Integers up to 2^53 are held exactly, all else is rounded to the nearest
double-precision value. -/
def ofRat (q : Rat) : Number :=
  if q.den = 1 ∧ q.num.natAbs ≤ exactLimit then .finite q
  else
    let (m, e) := nearestDouble q.num.natAbs q.den
    let magnitude := scaled m 2 e
    if (Nat.pow 2 1024 : Rat) ≤ magnitude then .infinite (q.num < 0)
    else .finite (if q.num < 0 then -magnitude else magnitude)

def ofInt (i : Int) : Number := ofRat i

def ofNat (n : Nat) : Number := ofInt n

instance : Coe Nat Number := ⟨ofNat⟩

theorem ofInt_of_le {i : Int} (h : i.natAbs ≤ exactLimit) : ofInt i = .finite i := by
  have hnum : (i : Rat).num.natAbs ≤ exactLimit := by rw [Rat.num_intCast]; exact h
  exact if_pos ⟨Rat.den_intCast _, hnum⟩

def toInt? : Number → Option Int
  | .finite q => if q.den = 1 then some q.num else none
  | _ => none

/-- The sum, rounded; infinities of opposite signs have none. -/
def add : Number → Number → Number
  | .finite a, .finite b => ofRat (a + b)
  | .infinite s, .finite _ => .infinite s
  | .finite _, .infinite s => .infinite s
  | .infinite s, .infinite r => if s = r then .infinite s else .notANumber
  | _, _ => .notANumber

end Number
end CCompletion
