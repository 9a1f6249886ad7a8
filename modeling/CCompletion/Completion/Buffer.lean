import CCompletion.Completion.Insertion
import CCompletion.Source.Position

/-!
A document being edited. The cursor may have been sent outside of the text; edits then take place at the
nearest end.
-/

namespace CCompletion

structure Buffer where
  text : Text
  cursor : Int
deriving DecidableEq

namespace Buffer

/-- A document with the cursor at its end. -/
def ofText (t : Text) : Buffer := ⟨t, t.length⟩

def position (b : Buffer) : Position := Position.ofOffset b.text b.cursor

/-- Puts text where the cursor is, and the cursor behind it. -/
def type (b : Buffer) (t : Text) : Buffer :=
  ⟨b.text.upTo b.cursor ++ t ++ b.text.since b.cursor, b.cursor + t.length⟩

/-- Deletes units before the cursor. -/
def erase (b : Buffer) (count : Nat) : Buffer :=
  let start := max 0 (b.cursor - count)
  ⟨b.text.upTo start ++ b.text.since b.cursor, start⟩

def moveTo (b : Buffer) (request : CursorRequest) : Except Refusal Buffer :=
  (request.resolve b.text).map fun k => { b with cursor := k }

/-- Inserts a candidate in the place of the word before the cursor. -/
def accept (b : Buffer) (c : Candidate) : Except Refusal Buffer :=
  (c.insert b.text (.ofInt b.cursor)).map fun i => ⟨i.text, i.cursor⟩

end Buffer
end CCompletion
