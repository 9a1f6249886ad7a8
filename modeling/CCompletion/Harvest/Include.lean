import CCompletion.Source.Context
import CCompletion.Source.Mask

/-!
Included headers. A line counts as an include line by its masked form, so that one in a comment does
not; the name of the header is read from the line itself, since masking blanks a quoted one.
-/

namespace CCompletion.Harvest

def endsTarget (u : CodeUnit) : Bool := u == unit '>' || u == unit '"'

/-- The header named by an include line: what stands between an opening `<` or quote and the next `>` or
quote, whichever of them comes. -/
def target? (line : Text) : Option Text := do
  let directive ← Context.directive? line
  let argument ← Text.after? "include" directive
  let named ← (Text.skipBlanks argument).head?
  if named = unit '<' ∨ named = unit '"' then
    let body := (Text.skipBlanks argument).drop 1
    let header := body.takeWhile fun u => !endsTarget u
    if header.isEmpty ∨ body.length = header.length then none else some header
  else none

/-- The header of a line, given with its masked form. -/
def lineTarget? (masked line : Text) : Option Text :=
  if Context.isIncludeLine masked then target? line else none

/-- The headers that a text includes, each once, in the order of their first lines. -/
def includes (t : Text) : List Text :=
  (List.zipWith lineTarget? (maskNonCode t).lines t.lines).reduceOption.eraseDups

end CCompletion.Harvest
