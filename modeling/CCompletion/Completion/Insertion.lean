import CCompletion.Candidate.Basic
import CCompletion.Source.Position
import CCompletion.Source.Word
import CCompletion.Vocabulary

/-!
Inserting a candidate: it replaces the word before the cursor. A function gets an argument list with the
cursor in it, a snippet its template with the cursor behind the first line break that is followed by an
indentation.
-/

namespace CCompletion

structure Inserted where
  text : Text
  cursor : Nat
deriving DecidableEq

namespace Candidate

/-- A line break and one level of indentation. -/
def snippetAnchor : Text := "\n    "

/-- What a candidate inserts, and where in it the cursor goes. -/
def insertion (c : Candidate) : Except Refusal (Text × Nat) :=
  match c.kind with
  | .snippet =>
    match Vocabulary.snippet? c.text with
    | none => .error (.unknownSnippet c.text)
    | some template =>
      match Text.indexOf? snippetAnchor template with
      | some anchor => .ok (template, anchor + snippetAnchor.length)
      | none => .ok (template, template.length)
  | .function => .ok (c.text ++ Text.ofString "()", c.text.length + 1)
  | _ => .ok (c.text, c.text.length)

/-- Puts the candidate in the place of the word before a cursor that stands in the text. -/
def insertAt (c : Candidate) (t : Text) (k : Nat) : Except Refusal Inserted := do
  let before := t.take k
  let start := k - (trailingWord before).length
  let (inserted, cursor) ← c.insertion
  return ⟨t.take start ++ inserted ++ t.drop k, start + cursor⟩

def insert (c : Candidate) (t : Text) (offset : Number) : Except Refusal Inserted := do
  let k ← cursorIn t offset
  c.insertAt t k

end Candidate
end CCompletion
