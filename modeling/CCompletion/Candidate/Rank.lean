import CCompletion.Candidate.Basic

/-!
Ranking: candidates that start with what was typed stand before those that only contain it. Case does
not matter for either, and each of the two tiers is sorted.
-/

namespace CCompletion

inductive MatchMode where
  | containing
  | starting
deriving DecidableEq, Repr

namespace Candidate

def startsWith (typed : Text) (c : Candidate) : Bool := typed.toLower.isPrefixOf c.text.toLower

def containsTyped (typed : Text) (c : Candidate) : Bool := Text.contains typed.toLower c.text.toLower

def sorted (cs : List Candidate) : List Candidate := cs.mergeSort fun a b => (order a b).isLE

/-- The first candidate of each key. -/
def distinct (cs : List Candidate) : List Candidate := cs.eraseDupsBy fun a b => a.key == b.key

/-- Those that contain what was typed without starting with it, where that is enough. -/
def others (mode : MatchMode) (typed : Text) (cs : List Candidate) : List Candidate :=
  match mode with
  | .containing => cs.filter fun c => !startsWith typed c && containsTyped typed c
  | .starting => []

/-- The candidates that match what was typed, each once: those that start with it, then, unless only these
are wanted, those that contain it elsewhere. -/
def ranked (mode : MatchMode) (typed : Text) (cs : List Candidate) : List Candidate :=
  sorted ((distinct cs).filter (startsWith typed)) ++ sorted (others mode typed (distinct cs))

end Candidate
end CCompletion
