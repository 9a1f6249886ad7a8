import CCompletion.Text.Basic

/-!
Masking: the contents of comments, string literals and character literals become blanks, while
delimiters, newlines and every offset stay. The text is read by an automaton that takes one unit at a
time, or two where a pair has a meaning of its own: the comment delimiters, and a backslash with the
unit it protects.
-/

namespace CCompletion

inductive Quote where
  | double
  | single
deriving DecidableEq, Repr

def Quote.unit : Quote → CodeUnit
  | .double => CCompletion.unit '"'
  | .single => CCompletion.unit '\''

/-- What a text is at some offset. -/
inductive Region where
  | code
  | lineComment
  | blockComment
  | literal (quote : Quote)
deriving DecidableEq, Repr

namespace Region

/-- Newlines stay, all else is blanked. -/
def blanked (u : CodeUnit) : CodeUnit := if u = newline then newline else unit ' '

/-- The pairs that are read together: their masked units and the region after them. -/
def pair? (r : Region) (u v : CodeUnit) : Option (CodeUnit × CodeUnit × Region) :=
  match r with
  | .code =>
    if u = unit '/' ∧ v = unit '/' then some (u, v, .lineComment)
    else if u = unit '/' ∧ v = unit '*' then some (u, v, .blockComment)
    else none
  | .lineComment => none
  | .blockComment => if u = unit '*' ∧ v = unit '/' then some (u, v, .code) else none
  | .literal q => if u = unit '\\' then some (unit ' ', blanked v, .literal q) else none

/-- A unit read alone: its masked unit and the region after it. A newline ends a literal that is still
open. -/
def single (r : Region) (u : CodeUnit) : CodeUnit × Region :=
  match r with
  | .code =>
    (u, if u = Quote.double.unit then .literal .double
        else if u = Quote.single.unit then .literal .single
        else .code)
  | .lineComment => (blanked u, if u = newline then .code else .lineComment)
  | .blockComment => (blanked u, .blockComment)
  | .literal q => if u = q.unit ∨ u = newline then (u, .code) else (unit ' ', .literal q)

/-- The masked form of a text that starts in a region. -/
def mask : Region → Text → Text
  | _, [] => []
  | r, [u] => [(r.single u).1]
  | r, u :: v :: rest =>
    match r.pair? u v with
    | some (a, b, next) => a :: b :: mask next rest
    | none => (r.single u).1 :: mask (r.single u).2 (v :: rest)

/-- The region at the end of a text that starts in a region. -/
def after : Region → Text → Region
  | r, [] => r
  | r, [u] => (r.single u).2
  | r, u :: v :: rest =>
    match r.pair? u v with
    | some (_, _, next) => after next rest
    | none => after (r.single u).2 (v :: rest)

theorem length_mask (r : Region) (t : Text) : (r.mask t).length = t.length := by
  fun_induction mask r t <;> simp_all

end Region

/-- The code of a text: everything that is not code is blanked. -/
def maskNonCode (t : Text) : Text := Region.code.mask t

theorem length_maskNonCode (t : Text) : (maskNonCode t).length = t.length := Region.length_mask _ t

end CCompletion
