import CCompletion.Text.Leading

/-!
Shapes and where they occur. A shape looks at a text from some offset on and, if it fits there, says how
many units it takes and what it found. Occurrences are read from left to right and do not overlap: the
first offset at which the shape fits is taken, and reading goes on behind it.
-/

namespace CCompletion

structure Occurrence (α : Type) where
  position : Nat
  length : Nat
  value : α
deriving DecidableEq

/-- The first argument says whether an identifier unit stands right before the text. -/
abbrev Shape (α : Type) := Bool → Text → Option (Nat × α)

namespace Shape

variable {α : Type}

/-- What the shape found is kept with the length of what it left. -/
def leaving (t : Text) (found : α × Text) : Nat × α := (t.length - found.2.length, found.1)

/-- The occurrences in a text that starts at `position`, the first `skip` units of which belong to an
occurrence already read. A fit of no length is none. -/
def occurrencesFrom (shape : Shape α) (inWord : Bool) (position skip : Nat) :
    Text → List (Occurrence α)
  | [] => []
  | u :: rest =>
    match skip with
    | k + 1 => occurrencesFrom shape (isIdentifierUnit u) (position + 1) k rest
    | 0 =>
      match shape inWord (u :: rest) with
      | some (n + 1, a) =>
        ⟨position, n + 1, a⟩ :: occurrencesFrom shape (isIdentifierUnit u) (position + 1) n rest
      | _ => occurrencesFrom shape (isIdentifierUnit u) (position + 1) 0 rest

def occurrences (shape : Shape α) (t : Text) : List (Occurrence α) :=
  occurrencesFrom shape false 0 0 t

/-- What the first fit found. -/
def first? (shape : Shape α) (t : Text) : Option α := (occurrences shape t).head?.map (·.value)

end Shape
end CCompletion
