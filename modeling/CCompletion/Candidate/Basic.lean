import CCompletion.Text.Lowercase

/-!
Candidates: what a completion may insert, with the kind of thing it is.
-/

namespace CCompletion

inductive Kind where
  | keyword
  | type
  | function
  | variable
  | preprocessor
  | header
  | snippet
deriving DecidableEq, Repr

namespace Kind

def all : List Kind := [.keyword, .type, .function, .variable, .preprocessor, .header, .snippet]

def name : Kind → Text
  | .keyword => "keyword"
  | .type => "type"
  | .function => "function"
  | .variable => "variable"
  | .preprocessor => "preprocessor"
  | .header => "header"
  | .snippet => "snippet"

def ofName? (t : Text) : Option Kind := all.find? fun k => k.name = t

/-- The rank of a kind among candidates that are alike in all else. -/
def index (k : Kind) : Nat := all.idxOf k

end Kind

@[ext]
structure Candidate where
  kind : Kind
  text : Text
deriving DecidableEq

namespace Candidate

/-- Lowercase text first; exact text and kind decide only between texts that differ in case alone. -/
def order (a b : Candidate) : Ordering :=
  ((compare a.text.toLower b.text.toLower).then (compare a.text b.text)).then
    (compare a.kind.index b.kind.index)

def ofTexts (kind : Kind) (texts : List Text) : List Candidate := texts.map fun t => ⟨kind, t⟩

/-- What candidates are told apart by: the name of the kind and the text, with a zero between them. -/
def key (c : Candidate) : Text := c.kind.name ++ 0 :: c.text

end Candidate
end CCompletion
