import CCompletion.Proofs.Completion.Insertion
import CCompletion.Proofs.Text.Alternation

/-!
# What can be searched for

Variables are found behind types, and all types are searched for together. This fails where one of them is too long,
whatever stands in the text. An offer is made wherever no variables are looked for, or their types can be searched
for.
-/

namespace CCompletion

namespace Harvest

variable {knownTypes : List Text} {before rest : Text} {table : VariableTable} {u : CodeUnit}

/-- These types and the builtin ones can be searched for together. -/
def Searchable (knownTypes : List Text) : Prop :=
  Text.fits (Vocabulary.builtinTypes ++ knownTypes).eraseDups = true

theorem checkTypes_of_searchable (h : Searchable knownTypes) : checkTypes knownTypes = .ok () := if_pos h

theorem checkTypes_of_not_searchable (h : ¬Searchable knownTypes) :
    checkTypes knownTypes = .error ⟨(Vocabulary.builtinTypes ++ knownTypes).eraseDups⟩ := if_neg h

/-- Where the variables can be read, they are the declared ones. -/
theorem readVariables_eq_ok_iff :
    readVariables before knownTypes = .ok table ↔
      Searchable knownTypes ∧ table = declaredVariables before knownTypes := by
  rw [readVariables]
  by_cases h : Searchable knownTypes
  · rw [checkTypes_of_searchable h]
    exact ⟨fun heq => ⟨h, (Except.ok.inj heq).symm⟩, fun ⟨_, heq⟩ => congrArg Except.ok heq.symm⟩
  · rw [checkTypes_of_not_searchable h]
    exact iff_of_false nofun fun heq => h heq.1

theorem length_le_of_mem_builtinTypes {type : Text} (h : type ∈ Vocabulary.builtinTypes) :
    type.length ≤ Text.pieceLimit := by
  have hshort : ∀ type ∈ Vocabulary.builtinTypes, type.length ≤ 10 := by decide
  exact Nat.le_trans (hshort type h) (by decide)

theorem searchable_of_length_le (h : ∀ type ∈ knownTypes, type.length ≤ Text.pieceLimit) : Searchable knownTypes := by
  refine Text.fits_of_length_le fun type htype => ?_
  rw [List.mem_eraseDups, List.mem_append] at htype
  exact htype.elim length_le_of_mem_builtinTypes (h type)

/-- A type that is too long stands in the way when it begins like hardly any other. -/
theorem not_searchable_of_few (h : u :: rest ∈ knownTypes)
    (hfew : (Text.behind u (Vocabulary.builtinTypes ++ knownTypes)).length ≤ 2)
    (hlong : Text.pieceLimit ≤ rest.length) : ¬Searchable knownTypes := by
  have hmem : u :: rest ∈ (Vocabulary.builtinTypes ++ knownTypes).eraseDups :=
    List.mem_eraseDups.mpr (List.mem_append_right _ h)
  have hbehind := ((sublist_eraseDups (Vocabulary.builtinTypes ++ knownTypes)).filterMap (Text.afterUnit? u)).length_le
  rw [Searchable, Text.fits_eq_false_of_few hmem (Nat.le_trans hbehind hfew) hlong]
  exact Bool.false_ne_true

end Harvest

open Harvest

variable {symbols : Symbols} {options : OfferOptions} {t : Text} {k : Nat} {offset : Number}

theorem complete_of_not_hasCursor (h : ¬t.HasCursor offset) :
    complete symbols options t offset = .error (.refused (.cursorOutside offset t.length)) := by
  rw [complete, cursorIn_eq_error_iff.mpr ⟨rfl, h⟩]
  rfl

theorem complete_of_searchable (hk : k ≤ t.length)
    (h : seeksVariables t k → Searchable (typeNames (t.take k) ++ symbols.types)) :
    complete symbols options t (.finite k) = offer symbols options t (.finite k) := by
  rw [complete, cursorIn_finite, if_pos hk]
  simp only [bind, Except.bind, Except.mapError]
  split
  · rename_i hseeks
    rw [checkTypes_of_searchable (h hseeks)]
  · rfl

theorem complete_of_not_searchable (hk : k ≤ t.length) (hseeks : seeksVariables t k)
    (h : ¬Searchable (typeNames (t.take k) ++ symbols.types)) :
    complete symbols options t (.finite k) =
      .error (.tooLong ⟨(Vocabulary.builtinTypes ++ (typeNames (t.take k) ++ symbols.types)).eraseDups⟩) := by
  rw [complete, cursorIn_finite, if_pos hk]
  simp only [bind, Except.bind, Except.mapError, if_pos hseeks]
  rw [checkTypes_of_not_searchable h]

end CCompletion
