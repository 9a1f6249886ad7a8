import CCompletion.Candidate.Rank
import CCompletion.Harvest.Include
import CCompletion.Harvest.Signature
import CCompletion.Harvest.Variable
import CCompletion.Source.Context

/-!
What is offered at a cursor: the candidates that its context admits, filtered by the word being typed.
Nothing is offered in strings and comments, nor before anything has been typed.
-/

namespace CCompletion

/-- The names that a project adds to what a document declares. -/
structure Symbols where
  functions : List Text := []
  headers : List Text := []
  types : List Text := []

structure OfferOptions where
  mode : MatchMode := .containing
  /-- At most so many candidates. -/
  limit : Option Number := none

structure Offer where
  context : Context
  typed : Text
  candidates : List Candidate

namespace Offer

/-- The library functions to offer: those of the standard headers included so far, or all of them where
there is none. -/
def libraryFunctions (before : Text) : Except Vocabulary.Unlisted (List Text) :=
  let included := (Harvest.includes before).filter Vocabulary.isStandardHeader
  if included.isEmpty then .ok Vocabulary.allLibraryFunctions else Vocabulary.libraryFunctions included

/-- Everything that may stand in code. -/
def codePool (symbols : Symbols) (before : Text) : Except Vocabulary.Unlisted (List Candidate) := do
  let documentTypes := Harvest.typeNames before
  let declared := Harvest.declaredVariables before (documentTypes ++ symbols.types)
  let library ← libraryFunctions before
  return Candidate.ofTexts .keyword Vocabulary.keywords ++
    Candidate.ofTexts .type Vocabulary.builtinTypes ++
    Candidate.ofTexts .function library ++
    Candidate.ofTexts .function symbols.functions ++
    Candidate.ofTexts .type symbols.types ++
    Candidate.ofTexts .type documentTypes ++
    Candidate.ofTexts .variable (declared.map (·.name)) ++
    Candidate.ofTexts .snippet Vocabulary.snippetNames

def pool (symbols : Symbols) (context : Context) (before : Text) :
    Except Vocabulary.Unlisted (List Candidate) :=
  match context with
  | .includeLine => .ok (Candidate.ofTexts .header (Vocabulary.standardHeaders ++ symbols.headers))
  | .directive => .ok (Candidate.ofTexts .preprocessor Vocabulary.directives)
  | .member => .ok (Candidate.ofTexts .variable Vocabulary.memberNames)
  | _ => codePool symbols before

/-- How many of `count` candidates a limit keeps. Only its whole part counts, and a negative limit leaves
candidates out at the end. -/
def kept (limit : Number) (count : Nat) : Nat :=
  match limit with
  | .notANumber => 0
  | .infinite negative => if negative then 0 else count
  | .finite q =>
    let whole := q.num.tdiv q.den
    if 0 ≤ whole then min whole.toNat count else count - (-whole).toNat

def limited (limit : Option Number) (cs : List Candidate) : List Candidate :=
  match limit with
  | some n => cs.take (kept n cs.length)
  | none => cs

end Offer

/-- Why no offer can be made. -/
inductive OfferError where
  | refused (refusal : Refusal)
  | unlisted (name : Vocabulary.Unlisted)
  | tooLong (types : Harvest.TooLong)

/-- The offer at a cursor that stands in the text. -/
def offerAt (symbols : Symbols) (options : OfferOptions) (t : Text) (k : Nat) :
    Except Vocabulary.Unlisted Offer := do
  let before := t.take k
  let context := Context.atCursor t k
  let typed := trailingWord before
  if context = .string ∨ context = .comment ∨ typed.isEmpty then
    return ⟨context, typed, []⟩
  else
    let pool ← Offer.pool symbols context before
    return ⟨context, typed, Offer.limited options.limit (Candidate.ranked options.mode typed pool)⟩

/-- The offer at a cursor, where the types that variables are looked for behind are not too long. -/
def offer (symbols : Symbols) (options : OfferOptions) (t : Text) (offset : Number) :
    Except OfferError Offer :=
  match cursorIn t offset with
  | .error refusal => .error (.refused refusal)
  | .ok k => (offerAt symbols options t k).mapError .unlisted

/-- Are variables looked for at a cursor? They are when a word of code is being typed. -/
def seeksVariables (t : Text) (k : Nat) : Prop :=
  (Context.atCursor t k = .general ∨ Context.atCursor t k = .arguments) ∧ trailingWord (t.take k) ≠ []

instance (t : Text) (k : Nat) : Decidable (seeksVariables t k) := inferInstanceAs (Decidable (_ ∧ _))

/-- The offer at a cursor. Where variables are looked for, nothing can be offered if the types of the document and of
the project are too long for that. -/
def complete (symbols : Symbols) (options : OfferOptions) (t : Text) (offset : Number) :
    Except OfferError Offer := do
  let k ← (cursorIn t offset).mapError .refused
  if seeksVariables t k then
    (Harvest.checkTypes (Harvest.typeNames (t.take k) ++ symbols.types)).mapError .tooLong
  offer symbols options t offset

end CCompletion
