import CCompletion.Harvest.Shape
import CCompletion.Source.Mask
import CCompletion.Vocabulary

/-!
Type names: the tags of structures, unions and enumerations that have a body, and the names that
`typedef` declarations introduce.
-/

namespace CCompletion.Harvest

def tagKeywords : List Text := Vocabulary.texts ["struct", "union", "enum"]

/-- A keyword of a tagged type, its tag, and what follows the tag. -/
def tagged? (inWord : Bool) (t : Text) : Option (Text × Text) := do
  if inWord then none
  let afterKeyword ← Text.afterAny? tagKeywords t
  let tag ← Text.afterRun? isBlank afterKeyword
  Text.identifier? tag

/-- A tagged type with a body. -/
def tagShape : Shape Text := fun inWord t => do
  let (tag, afterTag) ← tagged? inWord t
  let body ← Text.afterUnit? (unit '\x7b') (Text.skipBlanks afterTag)
  return Shape.leaving t (tag, body)

def typedefShape : Shape Unit := fun inWord t =>
  (Text.afterWord? "typedef" inWord t).map fun rest => Shape.leaving t ((), rest)

/-- The part of a declaration before the semicolon that ends it; those in `depth` open braces do not. -/
def declaration? (depth : Nat) : Text → Option Text
  | [] => none
  | u :: rest =>
    if u = unit ';' ∧ depth = 0 then some []
    else
      let inner := if u = unit '\x7b' then depth + 1 else if u = unit '\x7d' then depth - 1 else depth
      (declaration? inner rest).map (u :: ·)

/-- A declaration without its braces and what stands between them. -/
def outsideBraces (depth : Nat) : Text → Text
  | [] => []
  | u :: rest =>
    if u = unit '\x7b' then outsideBraces (depth + 1) rest
    else if u = unit '\x7d' then outsideBraces (depth - 1) rest
    else if depth = 0 then u :: outsideBraces depth rest
    else outsideBraces depth rest

/-- A name alone with its star in parentheses, as in a pointer to a function. -/
def pointerNameShape : Shape Text := fun _ t => do
  let inside ← Text.afterUnit? (unit '(') t
  let starred ← Text.afterUnit? (unit '*') (Text.skipBlanks inside)
  let (name, afterName) ← Text.identifier? (Text.skipBlanks starred)
  let rest ← Text.afterUnit? (unit ')') (Text.skipBlanks afterName)
  return Shape.leaving t (name, rest)

/-- What follows array suffixes and the blanks behind each of them; `inside` says that a bracket is
open. -/
def afterSuffixes (inside : Bool) : Text → Option Text
  | [] => if inside then none else some []
  | u :: rest =>
    if inside then afterSuffixes (u ≠ unit ']') rest
    else if u = unit '[' then (afterSuffixes true rest).orElse fun _ => some (u :: rest)
    else if isBlank u then afterSuffixes false rest
    else some (u :: rest)

/-- A name with nothing but array suffixes between it and the end. -/
def lastNameShape : Shape Text := fun _ t => do
  let (name, afterName) ← Text.identifier? t
  let rest ← afterSuffixes false afterName
  if rest.isEmpty then return (t.length, name) else none

/-- The name that a declaration introduces. -/
def introduced? (declaration : Text) : Option Text :=
  let outside := outsideBraces 0 declaration
  match pointerNameShape.first? outside with
  | some name => some name
  | none => (lastNameShape.first? outside.trimEnd).filter fun name => !Vocabulary.isReserved name

def typedefName? (masked : Text) (found : Occurrence Unit) : Option Text :=
  (declaration? 0 (masked.drop (found.position + found.length))).bind introduced?

/-- The type names of a text, each once: first the tags in order, then the names of typedefs. -/
def typeNames (t : Text) : List Text :=
  let masked := maskNonCode t
  ((tagShape.occurrences masked).map (·.value) ++
    (typedefShape.occurrences masked).filterMap (typedefName? masked)).eraseDups

end CCompletion.Harvest
