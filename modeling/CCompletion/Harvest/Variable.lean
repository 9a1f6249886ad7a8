import CCompletion.Harvest.TypeName
import CCompletion.Text.Alternation

/-!
Declared variables: a name behind a type and a gap of blanks and stars, and the further names of the
same declaration behind commas. A name with a parenthesis behind it is taken for a function when it is
the first of its declaration.
-/

namespace CCompletion.Harvest

structure Declared where
  name : Text
  position : Nat
deriving DecidableEq

def opensList (t : Text) : Bool := (Text.skipBlanks t).head? = some (unit '(')

/-- The first name behind a type, when no parenthesis follows it. -/
def declarator? (afterType : Text) : Option (Text × Text) := do
  let named ← Text.afterRun? isBlankOrStar afterType
  let (name, rest) ← Text.identifier? named
  if opensList rest then none else some (name, named)

/-- Is the end of `word`, with `rest` behind it, the end of a run of identifier units or the start of
one? `inWord` is what stands before the word, for a word of no units. -/
def atWordEdge (inWord : Bool) (word rest : Text) : Bool :=
  ((word.getLast?.map isIdentifierUnit).getD inWord) != Text.startsInWord rest

/-- One of the given types as a word, and the declarator behind it. The first type that fits is taken. -/
def typedShape (types : List Text) : Shape Text := fun inWord t =>
  if inWord = Text.startsInWord t then none
  else
    types.findSome? fun type => do
      let rest ← Text.after? type t
      if atWordEdge inWord type rest then
        return Shape.leaving t (← declarator? rest)
      else none

/-- A tagged type and the declarator behind it. -/
def taggedShape : Shape Text := fun inWord t => do
  let (_, rest) ← tagged? inWord t
  return Shape.leaving t (← declarator? rest)

/-- What follows a run of array suffixes and the blanks around them. A bracket that nothing closes is left
standing. -/
def skipSuffixes (t : Text) : Text := (afterSuffixes false t).getD []

def endsInitializer (u : CodeUnit) : Bool :=
  u == unit ',' || u == unit ';' || u == unit '(' || u == unit ')' || u == unit '\x7b' ||
    u == unit '\x7d'

def skipInitializer (t : Text) : Text :=
  match t with
  | u :: rest => if u = unit '=' then rest.dropWhile fun v => !endsInitializer v else t
  | [] => []

/-- The name behind the comma that follows a declared name, with the text from it on. -/
def next? (t : Text) : Option (Text × Text) := do
  let list ← Text.afterUnit? (unit ',') (skipInitializer (skipSuffixes t))
  let named := list.dropWhile isBlankOrStar
  let (name, _) ← Text.identifier? named
  return (name, named)

/-- The names of a declaration from `name` on, which starts `t` at `position`; reading ends at a reserved
word. The fuel bounds the number of names. -/
def declaredFrom : Nat → Nat → Text → Text → List Declared
  | 0, _, _, _ => []
  | fuel + 1, position, name, t =>
    if Vocabulary.isReserved name then []
    else
      ⟨name, position⟩ ::
        match next? (t.drop name.length) with
        | none => []
        | some (nextName, rest) =>
          declaredFrom fuel (position + (t.length - rest.length)) nextName rest

/-- The declarations of one shape. -/
def declarations (masked : Text) (shape : Shape Text) : List Declared :=
  (shape.occurrences masked).flatMap fun found =>
    let position := found.position + found.length
    declaredFrom masked.length position found.value (masked.drop position)

/-- A table of names: each at the place of its first entry, with the position of its last. -/
abbrev VariableTable := List Declared

def VariableTable.put (entry : Declared) : VariableTable → VariableTable
  | [] => [entry]
  | d :: rest => if d.name = entry.name then entry :: rest else d :: VariableTable.put entry rest

/-- The variables declared before an offset, where its types can be searched for. `knownTypes` are types beside
the builtin ones. -/
def declaredVariables (before : Text) (knownTypes : List Text) : VariableTable :=
  let masked := maskNonCode before
  let found :=
    declarations masked (typedShape (Vocabulary.builtinTypes ++ knownTypes).eraseDups) ++
      declarations masked taggedShape
  (found.mergeSort fun a b => a.position ≤ b.position).foldl (fun table d => table.put d) []

/-- Types that are too long to be searched for together. -/
structure TooLong where
  types : List Text
deriving DecidableEq

def TooLong.message (e : TooLong) : Text :=
  Text.ofString "Invalid regular expression: /\\b(?:" ++ Text.joinWith "|" (e.types.map Text.escaped) ++
    Text.ofString ")\\b[\\s*]+(?=([A-Za-z_]\\w*)\\b(?!\\s*\\())/g: Regular expression too large"

/-- Can variables of these types be searched for, beside those of the builtin ones? -/
def checkTypes (knownTypes : List Text) : Except TooLong Unit :=
  let types := (Vocabulary.builtinTypes ++ knownTypes).eraseDups
  if Text.fits types then .ok () else .error ⟨types⟩

/-- The declared variables. The types are searched for first, and it makes no difference what is in the text when
they are too long. -/
def readVariables (before : Text) (knownTypes : List Text) : Except TooLong VariableTable :=
  (checkTypes knownTypes).map fun _ => declaredVariables before knownTypes

end CCompletion.Harvest
