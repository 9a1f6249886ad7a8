/-!
Texts as sequences of UTF-16 code units. Every offset of the library counts these units, so a cut may
fall between the two halves of a surrogate pair; characters are joined again only when a text is
printed.
-/

namespace CCompletion

abbrev CodeUnit := UInt16

abbrev Text := List CodeUnit

/-- The code unit of a character below U+10000. -/
def unit (c : Char) : CodeUnit := c.val.toUInt16

def newline : CodeUnit := unit '\n'

namespace Text

/-- The one or two code units of a code point. -/
def ofCodePoint (n : Nat) : Text :=
  if n < 0x10000 then [UInt16.ofNat n]
  else
    let offset := n - 0x10000
    [UInt16.ofNat (0xD800 + offset / 0x400), UInt16.ofNat (0xDC00 + offset % 0x400)]

def ofChars (cs : List Char) : Text := cs.flatMap fun c => ofCodePoint c.toNat

def ofString (s : String) : Text := ofChars s.toList

instance : Coe String Text := ⟨ofString⟩

def isHighSurrogate (u : CodeUnit) : Bool := 0xD800 ≤ u && u ≤ 0xDBFF

def isLowSurrogate (u : CodeUnit) : Bool := 0xDC00 ≤ u && u ≤ 0xDFFF

/-- Joins surrogate pairs; a surrogate without its partner stays a code point of its own. -/
def toCodePoints : Text → List Nat
  | [] => []
  | [u] => [u.toNat]
  | u :: v :: rest =>
    if isHighSurrogate u && isLowSurrogate v then
      (0x10000 + (u.toNat - 0xD800) * 0x400 + (v.toNat - 0xDC00)) :: toCodePoints rest
    else u.toNat :: toCodePoints (v :: rest)

def ofCodePoints (points : List Nat) : Text := points.flatMap ofCodePoint

/-- An unpaired surrogate is printed as U+FFFD. -/
def toString (t : Text) : String :=
  String.ofList (t.toCodePoints.map fun n => if 0xD800 ≤ n && n ≤ 0xDFFF then '\uFFFD' else Char.ofNat n)

/-- Does `needle` stand somewhere in the text? -/
def contains (needle : Text) : Text → Bool
  | [] => needle.isEmpty
  | u :: rest => needle.isPrefixOf (u :: rest) || contains needle rest

/-- The offset of the first occurrence of `needle`. -/
def indexOf? (needle : Text) : Text → Option Nat
  | [] => if needle.isEmpty then some 0 else none
  | u :: rest =>
    if needle.isPrefixOf (u :: rest) then some 0 else (indexOf? needle rest).map (· + 1)

/-- The offset of the last occurrence of `needle`. -/
def lastIndexOf? (needle : Text) : Text → Option Nat
  | [] => if needle.isEmpty then some 0 else none
  | u :: rest =>
    match lastIndexOf? needle rest with
    | some i => some (i + 1)
    | none => if needle.isPrefixOf (u :: rest) then some 0 else none

/-- The parts between newlines; always at least one. -/
def lines (t : Text) : List Text := t.splitOn newline

/-- Every part but the last without a carriage return at its end. -/
def dropReturns : List Text → List Text
  | [] => []
  | [last] => [last]
  | part :: rest =>
    (if part.getLast? = some (unit '\r') then part.dropLast else part) :: dropReturns rest

/-- The parts between newlines, each newline with the carriage return before it. -/
def linesWithReturns (t : Text) : List Text := dropReturns t.lines

/-- The offset that `k` names: a negative one counts from the end, one past the end is the end. -/
def place (t : Text) (k : Int) : Nat :=
  if 0 ≤ k then min k.toNat t.length else t.length - (-k).toNat

/-- The part before the offset named by `k`. -/
def upTo (t : Text) (k : Int) : Text := t.take (place t k)

/-- The part from the offset named by `k` on. -/
def since (t : Text) (k : Int) : Text := t.drop (place t k)

/-- In the order of their code units. -/
def sorted (ts : List Text) : List Text := ts.mergeSort fun a b => (compare a b).isLE

def joinWith (separator : Text) (parts : List Text) : Text := separator.intercalate parts

end Text
end CCompletion
