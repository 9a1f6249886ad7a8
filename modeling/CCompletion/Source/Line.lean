import CCompletion.Text.Basic

/-!
The line around an offset. An offset before the text counts as its start, one past the text as its end.
-/

namespace CCompletion

def lineStart (t : Text) (offset : Nat) : Nat :=
  let before := t.take offset
  before.length - (before.reverse.takeWhile (· ≠ newline)).length

def lineEnd (t : Text) (offset : Nat) : Nat :=
  (t.take offset).length + ((t.drop offset).takeWhile (· ≠ newline)).length

/-- The whole line around an offset, without its newline. -/
def currentLine (t : Text) (offset : Nat) : Text :=
  (t.take (lineEnd t offset)).drop (lineStart t offset)

structure LineBounds where
  start : Nat
  stop : Nat
  line : Text

def lineBounds (t : Text) (offset : Int) : LineBounds :=
  ⟨lineStart t offset.toNat, lineEnd t offset.toNat, currentLine t offset.toNat⟩

end CCompletion
