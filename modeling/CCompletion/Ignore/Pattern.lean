import CCompletion.Path
import CCompletion.Text.LetterCase

/-!
Patterns of ignore rules and the paths that they match. A path is a route written with slashes; a slash
at its end marks a directory. Letters match in either case.
-/

namespace CCompletion.Ignore

def slash : CodeUnit := unit '/'

/-- The capital of a letter that has a single one. A letter outside ASCII is never taken for one inside. -/
def capital (u : CodeUnit) : CodeUnit :=
  if u < 128 then (if 97 ≤ u ∧ u ≤ 122 then u - 32 else u)
  else ((LetterCase.uppercaseSpans.findSome? fun s => s.shifted? u.toNat).map UInt16.ofNat).getD u

/-- A class of units, of which a pattern wants one or several. -/
inductive UnitClass where
  | this (u : CodeUnit)
  /-- A unit in one of some ranges, both ends included. -/
  | within (ranges : List (CodeUnit × CodeUnit))
  | notSlash

def inRange (u : CodeUnit) (range : CodeUnit × CodeUnit) : Bool :=
  (List.range (range.2.toNat + 1 - range.1.toNat)).any fun i =>
    capital (UInt16.ofNat (range.1.toNat + i)) == capital u

def UnitClass.holds : UnitClass → CodeUnit → Bool
  | this w, u => capital w == capital u
  | within ranges, u => ranges.any (inRange u)
  | notSlash, u => u != slash

inductive Piece where
  | one (c : UnitClass)
  | many (c : UnitClass)
  /-- Any number of directories, each with the slash before its name. -/
  | directories

/-- Where a match may begin. -/
inductive Start where
  | top
  /-- At the top or after any slash. -/
  | anyLevel
deriving DecidableEq

/-- What must be left of the path after the pieces. -/
inductive Ending where
  | anything
  /-- The end, or the slash that marks a directory. -/
  | entry
  /-- The slash that marks a directory. -/
  | directory
  /-- A slash and at least one unit more. -/
  | inside
deriving DecidableEq

def Ending.holds : Ending → Text → Bool
  | anything, _ => true
  | entry, t => t == [] || t == [slash]
  | directory, t => t == [slash]
  | inside, t => t.head? == some slash && 2 ≤ t.length

structure Pattern where
  start : Start
  pieces : List Piece
  ending : Ending

/-- Leaves any number of leading units of a class. -/
def skipMany (c : UnitClass) (next : Text → Bool) : Text → Bool
  | [] => next []
  | u :: rest => next (u :: rest) || (c.holds u && skipMany c next rest)

/-- How far the directory being left has been read. -/
inductive Progress where
  | before
  | slash
  | name

/-- Leaves any number of leading directories. -/
def skipDirectories (next : Text → Bool) : Progress → Text → Bool
  | .slash, [] => false
  | _, [] => next []
  | .before, u :: rest => next (u :: rest) || (u == slash && skipDirectories next .slash rest)
  | .slash, u :: rest => u != slash && skipDirectories next .name rest
  | .name, u :: rest =>
    next (u :: rest) || skipDirectories next (if u == slash then .slash else .name) rest

/-- Do the pieces, and then the ending, match the whole text? -/
def matchPieces (ending : Ending) : List Piece → Text → Bool
  | [], t => ending.holds t
  | .one _ :: _, [] => false
  | .one c :: pieces, u :: rest => c.holds u && matchPieces ending pieces rest
  | .many c :: pieces, t => skipMany c (matchPieces ending pieces) t
  | .directories :: pieces, t => skipDirectories (matchPieces ending pieces) .before t

/-- Does `p` hold of what follows some slash? -/
def afterSomeSlash (p : Text → Bool) : Text → Bool
  | [] => false
  | u :: rest => (u == slash && p rest) || afterSomeSlash p rest

def Pattern.matches (p : Pattern) (path : Text) : Bool :=
  let here := matchPieces p.ending p.pieces
  match p.start with
  | .top => here path
  | .anyLevel => here path || afterSomeSlash here path

end CCompletion.Ignore
