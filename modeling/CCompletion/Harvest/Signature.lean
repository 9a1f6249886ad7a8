import CCompletion.Harvest.Shape
import CCompletion.Source.Mask
import CCompletion.Vocabulary

/-!
Function names: an identifier with a parenthesised list behind it and a brace or a semicolon behind
that, where a word that can be a return type stands before the identifier.
-/

namespace CCompletion.Harvest

/-- What follows the parenthesis that closes a parameter list, whose parameters may hold one level of
parentheses more. -/
def afterParameters? (nested : Bool) : Text → Option Text
  | [] => none
  | u :: rest =>
    if u = unit ')' then (if nested then afterParameters? false rest else some rest)
    else if u = unit '(' then (if nested then none else afterParameters? true rest)
    else if u = unit '\x7b' ∨ u = unit '\x7d' ∨ u = unit ';' then none
    else afterParameters? nested rest

def opensBodyOrEnds (u : CodeUnit) : Bool := u == unit '\x7b' || u == unit ';'

/-- A name, a parameter list and what opens a body or ends a declaration. -/
def signature? (t : Text) : Option (Text × Text) := do
  let (name, afterName) ← Text.identifier? t
  let parameters ← Text.afterUnit? (unit '(') (Text.skipBlanks afterName)
  let afterList ← afterParameters? false parameters
  match Text.skipBlanks afterList with
  | [] => none
  | u :: rest => if opensBodyOrEnds u then some (name, rest) else none

def signatureShape : Shape Text := fun _ t => (signature? t).map (Shape.leaving t)

/-- The word at the end of a text, when a gap of blanks and stars is all that follows it. Digits in front
of the word do not belong to it. -/
def returnType? (before : Text) : Option Text :=
  let backwards := before.reverse
  let word := ((backwards.dropWhile isBlankOrStar).takeWhile isIdentifierUnit).reverse.dropWhile isDigit
  if (backwards.takeWhile isBlankOrStar).isEmpty ∨ word.isEmpty then none else some word

/-- Words that can stand before a call. -/
def statementWords : List Text := Vocabulary.texts ["return", "else", "case", "goto", "do"]

/-- How many units before a name are searched for a return type. -/
def lookBack : Nat := 256

/-- The last `n` units of a text. -/
def lastUnits (n : Nat) (t : Text) : Text := t.drop (t.length - n)

/-- Is the name of a signature that of a function, judged by `window` units before it? -/
def isFunctionName (window : Nat) (masked : Text) (found : Occurrence Text) : Bool :=
  !Vocabulary.isReserved found.value &&
    match returnType? (lastUnits window (masked.take found.position)) with
    | some word => !statementWords.contains word
    | none => false

def functionsWithin (window : Nat) (t : Text) : List Text :=
  let masked := maskNonCode t
  (((signatureShape.occurrences masked).filter (isFunctionName window masked)).map (·.value)).eraseDups

/-- The functions that a text defines or declares, each once, in order. -/
def functions (t : Text) : List Text := functionsWithin lookBack t

end CCompletion.Harvest
