import CCompletion.Ignore.Bracket

/-!
Rules of ignore files, one a line. A line is read as glyphs, the glyphs as the pieces of a pattern.

Patterns are matched as expressions that are put together from their text. In these a quoted backslash takes the
quoting from the unit behind it, which then means what it means in an expression: any unit, the start of the
path, a repetition of the backslash, one end of a group, or a bracket that has to be closed. Likewise a backslash
that is left where a range out of order was taken from a bracket quotes what closes it.

For the rest patterns are held to the documented syntax of ignore files, by which a backslash quotes the unit
behind it and no other. So a bar, a dollar sign or a brace behind a quoted backslash stands for itself, though in
an expression it is an alternation, an end or a count. Groups are not formed: one end of a group is taken to lack
the other, and makes the pattern invalid. A boundary between words, which some letters mean behind a backslash,
is not found anywhere.
-/

namespace CCompletion.Ignore

inductive Glyph where
  | slash
  | star
  | query
  | opening
  /-- An opening bracket that has to be closed, and whose ranges have to be in order. -/
  | strictOpening
  | closing
  | plain (u : CodeUnit)
  /-- A unit after a backslash. -/
  | quoted (u : CodeUnit)
  /-- A unit that means what it means in an expression. -/
  | bare (u : CodeUnit)
  /-- Any number of backslashes, or at least one. -/
  | backslashes (wanted : Bool)
deriving DecidableEq

def Glyph.ofUnit (u : CodeUnit) : Glyph :=
  if u = unit '/' then slash
  else if u = unit '*' then star
  else if u = unit '?' then query
  else if u = unit '[' then opening
  else if u = unit ']' then closing
  else plain u

/-- Up to the next closing bracket, slash or wildcard, brackets have to be closed. -/
def strictOpenings : List Glyph → List Glyph
  | [] => []
  | .opening :: gs => .strictOpening :: strictOpenings gs
  | g :: gs =>
    if g ∈ [.slash, .star, .query, .closing, .quoted (unit ']'), .quoted (unit '?')] then g :: gs
    else g :: strictOpenings gs

/-- Does the unit mean something else in an expression than by itself? -/
def isBare (u : CodeUnit) : Bool := [unit '.', unit '^', unit '(', unit ')'].contains u

/-- The glyphs from a quoted unit on, `gs` being those behind it. -/
def quote (u : CodeUnit) (gs : List Glyph) : List Glyph :=
  if u = unit '[' then .quoted u :: strictOpenings gs
  else if u = backslash then
    match gs with
    | .star :: rest => .backslashes false :: rest
    | .opening :: _ => .quoted u :: strictOpenings gs
    | .plain v :: rest =>
      if v = unit '+' then .backslashes true :: rest
      else if isBare v then .quoted u :: .bare v :: rest
      else .quoted u :: gs
    | _ => .quoted u :: gs
  else .quoted u :: gs

/-- The glyphs of a text; nothing for one that ends in a backslash without its unit. A backslash before a
slash stands for itself. -/
def glyphs? : Text → Option (List Glyph)
  | [] => some []
  | [u] => if u = backslash then none else some [.ofUnit u]
  | u :: v :: rest =>
    if u = backslash then
      if v = unit '/' then (glyphs? rest).map fun gs => .quoted backslash :: .slash :: gs
      else (glyphs? rest).map (quote v)
    else (glyphs? (v :: rest)).map fun gs => .ofUnit u :: gs

/-- A class that holds nothing. -/
def nothing : UnitClass := .within []

/-- All units that do not end a line. -/
def lineRanges : List (CodeUnit × CodeUnit) := complementFrom 0 [(10, 10), (13, 13), (0x2028, 0x2029)]

def Glyph.toClass : Glyph → UnitClass
  | slash => .this (unit '/')
  | star | query => .notSlash
  | opening | strictOpening => .this (unit '[')
  | closing => .this (unit ']')
  | plain u => .this u
  | quoted u =>
    match namedRanges? u with
    | some rs => .within rs
    | none =>
      if u = unit '?' ∨ u = unit 'b' ∨ u = unit 'B' ∨ (48 ≤ u ∧ u ≤ 55) then nothing
      else .this ((controlUnit? u).getD u)
  | bare u => if u = unit '.' then .within lineRanges else nothing
  | backslashes _ => .this backslash

/-- The pieces that a glyph is compiled to outside brackets. -/
def Glyph.pieces? : Glyph → Option (List Piece)
  | backslashes wanted => return (if wanted then [.one (.this backslash)] else []) ++ [.many (.this backslash)]
  | bare u => if u = unit '(' ∨ u = unit ')' then none else return [.one (Glyph.bare u).toClass]
  | g => return [.one g.toClass]

/-- Does a star after the glyph, at the end of the pattern, want at least one unit? -/
def Glyph.wantsMore : Glyph → Bool
  | slash => true
  | plain u | quoted u => u == unit '^'
  | _ => false

/-- Does the glyph quote the group that an expression has for any directories? -/
def Glyph.spoils : Glyph → List Glyph → Bool
  | quoted u, .slash :: .star :: .star :: .slash :: _ => u == backslash
  | _, _ => false

/-- The glyph in an expression, inside brackets. -/
def Glyph.source : Glyph → Text
  | slash => [unit '/']
  | star => [unit '*']
  | query => [unit '?']
  | opening | strictOpening => [unit '[']
  | closing => [unit ']']
  | plain u => if List.contains (Text.ofString "$.|+()\x7b^") u then [backslash, u] else [u]
  | quoted u => [backslash, u]
  | bare u => [u]
  | backslashes wanted => [backslash, backslash, if wanted then unit '+' else unit '*']

/-- The bracket with one glyph more. Behind a slash all is taken as it stands, up to a bracket that opens anew. -/
def OpenBracket.read (b : OpenBracket) (g : Glyph) : OpenBracket :=
  match b.pending with
  | some t =>
    if g = .slash then { taken := b.taken ++ t ++ g.source, pending := none }
    else { b with pending := some (t ++ g.source) }
  | none =>
    { taken := b.taken ++ g.source
      pending := if g = .opening ∧ !b.sheltered then some [] else none
      sheltered := g ≠ .slash && (b.sheltered || g = .strictOpening || g = .quoted (unit '[')) }

/-- The pieces of a bracket that is open at the end of the pattern. -/
def OpenBracket.lastPieces? (b : OpenBracket) : Option (List Piece) :=
  if b.pending.isSome then b.class?.map fun c => [.one c] else none

/-- The pieces of a bracket that is open where a star ends the pattern. -/
def OpenBracket.lastStar? (b : OpenBracket) (wantsMore : Bool) : Option (List Piece) :=
  if b.pending.isSome then b.lastPieces?
  else b.closedByWildcard.class?.map fun c => (if wantsMore then [.one c] else []) ++ [.many c]

/-- What a glyph does to a bracket that is open. -/
inductive BracketStep where
  | stays (b : OpenBracket)
  | closes (piece : Option Piece)
  /-- The pattern ends, or is known to be invalid. -/
  | ends (pieces : Option (List Piece))

/-- What a glyph does to the bracket, with some glyphs behind it. -/
def OpenBracket.step (b : OpenBracket) : Glyph → List Glyph → BracketStep
  | .star, [] => .ends (b.lastStar? (b.taken.getLast?.any fun u => u = unit '/' ∨ u = unit '^'))
  | .backslashes false, [] => .ends (b.lastStar? false)
  | .star, [.star] => .ends (b.closedByWildcard.class?.map fun c => [.many c, .many .notSlash])
  | .star, .star :: _ => .stays b
  | .star, _ => .closes (b.closedByWildcard.class?.map .many)
  | .query, _ => .closes (b.closedByWildcard.class?.map .one)
  | .slash, [.star, .star] | .slash, .star :: .star :: .slash :: _ => .ends none
  | .closing, _ =>
    if b.closed.staysOpen then .stays (b.closed.read .closing) else .closes (b.closed.class?.map .one)
  | .quoted u, _ =>
    if u = unit '?' then .closes (b.closedByWildcard.class?.map .one)
    else if u = unit ']' ∧ (b.pending.isSome ∨ b.sheltered) then .closes (b.class?.map .one)
    else .stays (b.read (.quoted u))
  | g, _ => .stays (b.read g)

/-- The pieces and the ending that glyphs stand for, `bracket` being the one that is open. -/
def compile? : Option OpenBracket → List Glyph → Option (List Piece × Ending)
  | none, [] => some ([], .entry)
  | none, [.slash] => some ([], .directory)
  | none, [.slash, .star, .star] => some ([], .inside)
  | none, .slash :: .star :: .star :: .slash :: rest =>
    (compile? none (.slash :: rest)).map fun (ps, e) => (.directories :: ps, e)
  | none, .star :: rest => (compile? none rest).map fun (ps, e) => (.many .notSlash :: ps, e)
  | none, .opening :: rest => compile? (some {}) rest
  | none, .strictOpening :: rest => compile? (some { pending := none, sheltered := true }) rest
  | none, [.backslashes false] => some ([.one nothing], .entry)
  | none, [g, .star] => do
    let ps ← g.pieces?
    let least : List Piece := if g.wantsMore then [.one .notSlash] else []
    return (ps ++ least ++ [.many .notSlash], .entry)
  | none, g :: rest => do
    let first ← if g.spoils rest then none else g.pieces?
    let (ps, e) ← compile? none rest
    return (first ++ ps, e)
  | some b, [] => b.lastPieces?.map fun ps => (ps, .entry)
  | some b, g :: rest =>
    match b.step g rest with
    | .stays b => compile? (some b) rest
    | .closes piece => do
      let p ← piece
      let (ps, e) ← compile? none rest
      return (p :: ps, e)
    | .ends pieces => pieces.map fun ps => (ps, .entry)

/-- A backslash and a star at the end of a pattern do what the star alone does. -/
def unquoteLastStar : List Glyph → List Glyph
  | [] => []
  | [.quoted u] => if u = unit '*' then [.star] else [.quoted u]
  | g :: rest => g :: unquoteLastStar rest

/-- The text without the blanks at its end, unless a backslash quotes the first of them: then one stays. -/
def trimUnquoted (t : Text) : Text :=
  let trimmed := t.trimEnd
  if trimmed.length < t.length ∧ trailingBackslashes trimmed % 2 = 1 then trimmed.dropLast ++ [unit ' ']
  else trimmed

/-- Drops the backslashes that quote blanks, `n` of them having been read; any blank so quoted becomes a
space. -/
def unquoteBlanks (n : Nat) : Text → Text
  | [] => List.replicate n backslash
  | u :: rest =>
    if u = backslash then unquoteBlanks (n + 1) rest
    else if 0 < n ∧ isBlank u then List.replicate (n - n % 2) backslash ++ unit ' ' :: unquoteBlanks 0 rest
    else List.replicate n backslash ++ u :: unquoteBlanks 0 rest

def byteOrderMark : CodeUnit := 0xFEFF

def dropMark (t : Text) : Text := if t.head? = some byteOrderMark then t.drop 1 else t

/-- Does a slash stand anywhere but at the end? -/
def hasInnerSlash (t : Text) : Bool := t.dropLast.contains slash

/-- The pattern that a text stands for; nothing when it is invalid. A slash in it, other than the last unit,
ties it to the top, unless it begins with `**`. -/
def Pattern.ofText? (t : Text) : Option Pattern := do
  let body := unquoteBlanks 0 (trimUnquoted (dropMark t))
  let gs := unquoteLastStar (← glyphs? body)
  match gs with
  | [] => return ⟨.anyLevel, [], .anything⟩
  | .slash :: .star :: .star :: .slash :: rest | .star :: .star :: .slash :: rest =>
    let (ps, e) ← compile? none rest
    return ⟨.anyLevel, ps, e⟩
  | [.slash, .star] => return ⟨.top, [.one .notSlash, .many .notSlash], .entry⟩
  | .slash :: rest =>
    let (ps, e) ← compile? none rest
    return ⟨.top, ps, e⟩
  | _ =>
    let (ps, e) ← compile? none gs
    return ⟨if hasInnerSlash t then .top else .anyLevel, ps, e⟩

structure Rule where
  /-- A negated rule takes back what the rules before it ignore. -/
  negated : Bool
  pattern : Pattern

/-- Does a line hold a rule? Not when it is blank or a comment, or ends in a single backslash. -/
def holdsRule (line : Text) : Bool :=
  !line.all isBlank && line.head? != some (unit '#') && trailingBackslashes line != 1

/-- A backslash before a leading exclamation mark or number sign is dropped. -/
def unquoteFirst (t : Text) : Text :=
  let opened : Text := if (Text.ofString "\\!").isPrefixOf t then t.drop 1 else t
  if (Text.ofString "\\#").isPrefixOf opened then opened.drop 1 else opened

/-- The rule on a line, if it holds one; `some none` stands for a line without a rule, nothing for an invalid
pattern. -/
def Rule.ofLine? (line : Text) : Option (Option Rule) :=
  if !holdsRule line then some none
  else
    let negated := line.head? = some (unit '!')
    (Pattern.ofText? (unquoteFirst (if negated then line.drop 1 else line))).map fun p => some ⟨negated, p⟩

/-- Is a path ignored, its directories apart? The last rule that matches it decides. -/
def verdict (rules : List Rule) (path : Text) : Bool :=
  rules.foldl (fun ignored r => if r.pattern.matches path then !r.negated else ignored) false

/-- Is an entry ignored: by itself or with one of the directories that it lies in? -/
def ignores (rules : List Rule) (route : Route) : Bool :=
  ((List.range (route.length - 1)).any fun i =>
    verdict rules (Route.text (route.take (i + 1)) ++ [slash])) || verdict rules (Route.text route)

/-- A route that no rule can be asked about: its first name is nothing but dots. -/
def isUnaskable (route : Route) : Bool :=
  match route with
  | name :: _ => name.all (· == unit '.')
  | [] => false

end CCompletion.Ignore
