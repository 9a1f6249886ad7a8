import CCompletion.Text.Basic

/-!
Texts as UTF-8 bytes. Reading never fails: every longest run of bytes that could begin a character but
does not finish one stands for one U+FFFD.
-/

namespace CCompletion.Text

def replacement : Nat := 0xFFFD

/-- The bytes of a code point; a surrogate is written as U+FFFD. -/
def codePointBytes (n : Nat) : List UInt8 :=
  if n < 0x80 then [UInt8.ofNat n]
  else if n < 0x800 then [UInt8.ofNat (0xC0 + n / 64), UInt8.ofNat (0x80 + n % 64)]
  else if 0xD800 ≤ n ∧ n ≤ 0xDFFF then [0xEF, 0xBF, 0xBD]
  else if n < 0x10000 then
    [UInt8.ofNat (0xE0 + n / 4096), UInt8.ofNat (0x80 + n / 64 % 64), UInt8.ofNat (0x80 + n % 64)]
  else
    [UInt8.ofNat (0xF0 + n / 262144), UInt8.ofNat (0x80 + n / 4096 % 64), UInt8.ofNat (0x80 + n / 64 % 64),
      UInt8.ofNat (0x80 + n % 64)]

def toBytes (t : Text) : List UInt8 := t.toCodePoints.flatMap codePointBytes

/-- What a byte between characters begins: how many bytes are still owed, the least and the greatest value
of the next one, and the part of the code point that the byte itself holds. -/
structure Lead where
  owed : Nat
  least : UInt8
  greatest : UInt8
  value : Nat

def lead? (b : UInt8) : Option Lead :=
  if b < 0x80 then some ⟨0, 0x80, 0xBF, b.toNat⟩
  else if 0xC2 ≤ b ∧ b ≤ 0xDF then some ⟨1, 0x80, 0xBF, b.toNat - 0xC0⟩
  else if b = 0xE0 then some ⟨2, 0xA0, 0xBF, 0⟩
  else if b = 0xED then some ⟨2, 0x80, 0x9F, 13⟩
  else if 0xE1 ≤ b ∧ b ≤ 0xEF then some ⟨2, 0x80, 0xBF, b.toNat - 0xE0⟩
  else if b = 0xF0 then some ⟨3, 0x90, 0xBF, 0⟩
  else if b = 0xF4 then some ⟨3, 0x80, 0x8F, 4⟩
  else if 0xF1 ≤ b ∧ b ≤ 0xF3 then some ⟨3, 0x80, 0xBF, b.toNat - 0xF0⟩
  else none

/-- The code points of a byte sequence, `state` being the character that has begun, if any. -/
def decode : Option Lead → List UInt8 → List Nat
  | none, [] => []
  | some _, [] => [replacement]
  | none, b :: rest =>
    match lead? b with
    | none => replacement :: decode none rest
    | some l => if l.owed = 0 then l.value :: decode none rest else decode (some l) rest
  | some l, b :: rest =>
    if l.least ≤ b ∧ b ≤ l.greatest then
      let value := l.value * 64 + (b.toNat - 0x80)
      if l.owed ≤ 1 then value :: decode none rest
      else decode (some ⟨l.owed - 1, 0x80, 0xBF, value⟩) rest
    else
      replacement ::
        match lead? b with
        | none => replacement :: decode none rest
        | some next => if next.owed = 0 then next.value :: decode none rest else decode (some next) rest

def ofBytes (bytes : List UInt8) : Text := ofCodePoints (decode none bytes)

end CCompletion.Text
