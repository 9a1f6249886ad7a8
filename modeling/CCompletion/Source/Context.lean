import CCompletion.Source.Line
import CCompletion.Source.Position
import CCompletion.Source.Word
import CCompletion.Text.Leading

/-!
The lexical context of a cursor. The tests are ordered: strings and comments first, then the two kinds
of directive lines, then argument lists, then member access.
-/

namespace CCompletion

inductive Context where
  | string
  | comment
  | includeLine
  | directive
  | arguments
  | member
  | general
deriving DecidableEq, Repr

namespace Context

def name : Context → Text
  | .string => "string"
  | .comment => "comment"
  | .includeLine => "include"
  | .directive => "preprocessor"
  | .arguments => "function-args"
  | .member => "struct-member"
  | .general => "general"

/-- Is an odd number of double quotes open? A quote right after a backslash does not count. -/
def quoteOpen (escaped isOpen : Bool) : Text → Bool
  | [] => isOpen
  | u :: rest =>
    quoteOpen (u == unit '\\') (if u = unit '"' ∧ !escaped then !isOpen else isOpen) rest

def insideString (before : Text) : Bool := quoteOpen false false before

/-- Is the last block comment not closed after its two opening units? -/
def blockCommentOpen (before : Text) : Bool :=
  match Text.lastIndexOf? "/*" before with
  | some i => (Text.indexOf? "*/" (before.drop (i + 2))).isNone
  | none => false

/-- Does the last pair of slashes stand on the last line? -/
def lineCommentOpen (before : Text) : Bool :=
  match Text.lastIndexOf? "//" before with
  | some i => !(before.drop i).contains newline
  | none => false

def insideComment (before : Text) : Bool := blockCommentOpen before || lineCommentOpen before

/-- What follows the hash of a directive line. -/
def directive? (line : Text) : Option Text :=
  (Text.afterUnit? (unit '#') (Text.skipBlanks line)).map Text.skipBlanks

def isDirectiveLine (line : Text) : Bool := (directive? line).isSome

def isIncludeLine (line : Text) : Bool :=
  ((directive? line).bind fun rest => Text.afterWord? "include" false rest).isSome

/-- Going back from the cursor, is a parenthesis met that nothing has closed, before any brace? `depth`
counts the closing ones that wait for their partner. -/
def argumentListOpen (depth : Nat) : Text → Bool
  | [] => false
  | u :: rest =>
    if u = unit ')' then argumentListOpen (depth + 1) rest
    else if u = unit '(' then
      match depth with
      | 0 => true
      | d + 1 => argumentListOpen d rest
    else if u = unit '\x7b' ∨ u = unit '\x7d' then false
    else argumentListOpen depth rest

/-- Does a text, read backwards, start with a dot or an arrow? -/
def endsInAccess : Text → Bool
  | u :: v :: _ => u == unit '.' || (u == unit '>' && v == unit '-')
  | [u] => u == unit '.'
  | [] => false

def memberAccess (before : Text) : Bool :=
  endsInAccess (before.reverse.dropWhile isIdentifierUnit)

/-- The context of the cursor between `before` and the rest of its line. -/
def of (before : Text) (line : Text) : Context :=
  if insideString before then .string
  else if insideComment before then .comment
  else if isIncludeLine line then .includeLine
  else if isDirectiveLine line then .directive
  else if argumentListOpen 0 before.reverse then .arguments
  else if memberAccess before then .member
  else .general

def atCursor (t : Text) (k : Nat) : Context := of (t.take k) (currentLine t k)

end Context

def classify (t : Text) (offset : Number) : Except Refusal Context :=
  (cursorIn t offset).map fun k => Context.atCursor t k

end CCompletion
