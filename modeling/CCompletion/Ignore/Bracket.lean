import CCompletion.Ignore.Pattern
import CCompletion.Text.Class

/-!
The members that stand between the brackets of a pattern, as they are written in an expression. Two units with a
hyphen between them are a range; some letters after a backslash stand for classes of their own.
-/

namespace CCompletion.Ignore

def backslash : CodeUnit := unit '\\'

/-- The units between ranges that are in ascending order, from `low` on. -/
def complementFrom (low : Nat) : List (CodeUnit × CodeUnit) → List (CodeUnit × CodeUnit)
  | [] => if low ≤ 0xFFFF then [(UInt16.ofNat low, 0xFFFF)] else []
  | (a, b) :: rest =>
    (if low < a.toNat then [(UInt16.ofNat low, a - 1)] else []) ++ complementFrom (b.toNat + 1) rest

def digitRanges : List (CodeUnit × CodeUnit) := [(48, 57)]

def wordRanges : List (CodeUnit × CodeUnit) := [(48, 57), (65, 90), (95, 95), (97, 122)]

def blankRanges : List (CodeUnit × CodeUnit) :=
  [(9, 13), (32, 32), (0xA0, 0xA0), (0x1680, 0x1680), (0x2000, 0x200A), (0x2028, 0x2029), (0x202F, 0x202F),
   (0x205F, 0x205F), (0x3000, 0x3000), (0xFEFF, 0xFEFF)]

/-- The class that a letter stands for after a backslash; a capital stands for all other units. -/
def namedRanges? (u : CodeUnit) : Option (List (CodeUnit × CodeUnit)) :=
  if u = unit 'd' then some digitRanges
  else if u = unit 'D' then some (complementFrom 0 digitRanges)
  else if u = unit 'w' then some wordRanges
  else if u = unit 'W' then some (complementFrom 0 wordRanges)
  else if u = unit 's' then some blankRanges
  else if u = unit 'S' then some (complementFrom 0 blankRanges)
  else none

/-- The control unit that a letter stands for after a backslash. -/
def controlUnit? (u : CodeUnit) : Option CodeUnit :=
  if u = unit 't' then some 9
  else if u = unit 'n' then some 10
  else if u = unit 'v' then some 11
  else if u = unit 'f' then some 12
  else if u = unit 'r' then some 13
  else none

inductive Member where
  | unit (u : CodeUnit)
  /-- A hyphen that may stand between the ends of a range. -/
  | hyphen
  | ranges (rs : List (CodeUnit × CodeUnit))

def Member.ofQuoted (u : CodeUnit) : Member :=
  match namedRanges? u with
  | some rs => .ranges rs
  | none => .unit (if u = CCompletion.unit 'b' then 8 else (controlUnit? u).getD u)

def Member.unit? : Member → Option CodeUnit
  | unit u => some u
  | hyphen => some (CCompletion.unit '-')
  | ranges _ => none

def Member.toRanges : Member → List (CodeUnit × CodeUnit)
  | unit u => [(u, u)]
  | hyphen => [(CCompletion.unit '-', CCompletion.unit '-')]
  | ranges rs => rs

/-- The members in a text. -/
def membersOf : Text → List Member
  | [] => []
  | [u] => [if u = unit '-' then .hyphen else .unit u]
  | u :: v :: rest =>
    if u = backslash then .ofQuoted v :: membersOf rest
    else (if u = unit '-' then .hyphen else .unit u) :: membersOf (v :: rest)

/-- All that the members stand for; nothing where a range is out of order. -/
def rangesOf? : List Member → Option (List (CodeUnit × CodeUnit))
  | [] => some []
  | m :: .hyphen :: n :: rest =>
    match m.unit?, n.unit? with
    | some a, some b => if a ≤ b then (rangesOf? rest).map fun rs => (a, b) :: rs else none
    | _, _ => do return m.toRanges ++ (Member.toRanges .hyphen ++ (n.toRanges ++ (← rangesOf? rest)))
  | m :: rest => do return m.toRanges ++ (← rangesOf? rest)

/-- From `0` to `z`, where a range that is out of order is left out. -/
def isSpanned (u : CodeUnit) : Bool := 48 ≤ u && u ≤ 122

/-- The text without the ranges in it that are out of order. A range is taken to go from one unit to another even
where a backslash quotes one of them. -/
def orderedRanges : Text → Text
  | a :: h :: b :: rest =>
    if h = unit '-' ∧ isSpanned a ∧ isSpanned b then
      if a ≤ b then a :: h :: b :: orderedRanges rest else orderedRanges rest
    else a :: orderedRanges (h :: b :: rest)
  | t => t

/-- The number of backslashes at the end. -/
def trailingBackslashes (t : Text) : Nat := (t.reverse.takeWhile (· == backslash)).length

/-- What is left of the text before a closing bracket: the backslashes at its end are not taken for a part of a
range. -/
def orderedMembers (t : Text) : Text :=
  let n := trailingBackslashes t
  orderedRanges (t.take (t.length - n)) ++ List.replicate n backslash

/-- A bracket that is open: what is read of it as it stands, and what is read behind the bracket that opened last
if ranges out of order are to be left out of that. -/
structure OpenBracket where
  taken : Text := []
  pending : Option Text := some []
  /-- Does a quoted closing bracket close it? -/
  sheltered : Bool := false

namespace OpenBracket

def class? (b : OpenBracket) : Option UnitClass := (rangesOf? (membersOf b.taken)).map .within

/-- The bracket where a closing one is met. -/
def closed (b : OpenBracket) : OpenBracket where
  taken := b.taken ++ (b.pending.map orderedMembers).getD []
  pending := none

/-- The bracket where a wildcard is met: the brackets of its expression close this one. -/
def closedByWildcard (b : OpenBracket) : OpenBracket where
  taken := b.taken ++ b.pending.getD [] ++ Text.ofString "[^/"
  pending := none

/-- Does the bracket stay open because what is left of it ends in a backslash that quotes the closing one? -/
def staysOpen (b : OpenBracket) : Bool := trailingBackslashes b.taken % 2 = 1

end OpenBracket

end CCompletion.Ignore
