import CCompletion.Text.Basic

/-!
Classes of code units: blanks, digits and the units of identifiers. Identifiers are ASCII; blanks are
the white space and line separators of Unicode together with the byte order mark.
-/

namespace CCompletion

def isDigit (u : CodeUnit) : Bool := 48 ≤ u && u ≤ 57

def isIdentifierStart (u : CodeUnit) : Bool :=
  (65 ≤ u && u ≤ 90) || (97 ≤ u && u ≤ 122) || u == unit '_'

def isIdentifierUnit (u : CodeUnit) : Bool := isIdentifierStart u || isDigit u

def isBlank (u : CodeUnit) : Bool :=
  (9 ≤ u && u ≤ 13) || u == 32 || u == 0xA0 || u == 0x1680 || (0x2000 ≤ u && u ≤ 0x200A) ||
    u == 0x2028 || u == 0x2029 || u == 0x202F || u == 0x205F || u == 0x3000 || u == 0xFEFF

/-- The digit of a value below 16; those from ten on are small letters. -/
def hexDigit (n : Nat) : CodeUnit := if n < 10 then UInt16.ofNat (48 + n) else UInt16.ofNat (87 + n)

/-- Blanks and the stars of pointer declarators. -/
def isBlankOrStar (u : CodeUnit) : Bool := isBlank u || u == unit '*'

theorem isIdentifierUnit_start {u : CodeUnit} (h : isIdentifierStart u = true) :
    isIdentifierUnit u = true := by
  simp [isIdentifierUnit, h]

theorem isBlank_of_isIdentifierUnit {u : CodeUnit} (h : isIdentifierUnit u = true) : isBlank u = false := by
  have hunderscore : unit '_' = 95 := rfl
  simp only [isIdentifierUnit, isIdentifierStart, isDigit, hunderscore, Bool.or_eq_true, Bool.and_eq_true,
    decide_eq_true_eq, beq_iff_eq, UInt16.le_iff_toNat_le, ← UInt16.toNat_inj, UInt16.reduceToNat] at h
  simp only [isBlank, Bool.or_eq_false_iff, Bool.and_eq_false_iff, decide_eq_false_iff_not,
    beq_eq_false_iff_ne, ne_eq, UInt16.le_iff_toNat_le, ← UInt16.toNat_inj, UInt16.reduceToNat]
  omega

namespace Text

/-- An identifier: a letter or underscore, then letters, digits and underscores. -/
def isIdentifier : Text → Bool
  | [] => false
  | u :: rest => isIdentifierStart u && rest.all isIdentifierUnit

def trimStart (t : Text) : Text := t.dropWhile isBlank

def trimEnd (t : Text) : Text := (t.reverse.dropWhile isBlank).reverse

def trim (t : Text) : Text := trimEnd (trimStart t)

end Text
end CCompletion
