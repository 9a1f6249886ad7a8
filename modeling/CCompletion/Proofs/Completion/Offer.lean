import CCompletion.Completion.Offer
import CCompletion.Proofs.Candidate.Rank
import CCompletion.Proofs.Harvest.Variable
import CCompletion.Proofs.Index.Contents
import CCompletion.Proofs.Source.Context
import CCompletion.Proofs.Vocabulary

/-!
# What is offered

At each cursor in a text an offer can be made. The functions in it are those that the last scan found in the
project together with those of the library, and of what a project adds only the names matter, not how
they are listed.
-/

namespace CCompletion

namespace Candidate

theorem mem_ofTexts {c : Candidate} {kind : Kind} {texts : List Text} :
    c ∈ ofTexts kind texts ↔ c.kind = kind ∧ c.text ∈ texts := by
  rw [ofTexts, List.mem_map]
  constructor
  · rintro ⟨t, ht, rfl⟩
    exact ⟨rfl, ht⟩
  · rintro ⟨rfl, htext⟩
    exact ⟨c.text, htext, rfl⟩

end Candidate

namespace Offer

open Vocabulary

variable {before n : Text} {symbols symbols' : Symbols} {library : List Text}

/-! ## The functions of the library -/

/-- The library has a function for a cursor behind `before`: a standard header that is included there lists it,
or none is included there and it is listed for any header. -/
def HasLibraryFunction (before n : Text) : Prop :=
  (∃ header ∈ Harvest.includes before, isStandardHeader header = true ∧
      ∃ functions, libraryTable.lookup header = some functions ∧ n ∈ functions) ∨
    (∀ header ∈ Harvest.includes before, ¬isStandardHeader header = true) ∧
      ∃ entry ∈ libraryTable, n ∈ entry.2

theorem mem_listedFunctions {header : Text} :
    n ∈ listedFunctions header ↔ ∃ functions, libraryTable.lookup header = some functions ∧ n ∈ functions := by
  rw [listedFunctions]
  cases libraryTable.lookup header <;> simp

theorem exists_libraryFunctions (before : Text) :
    ∃ library, libraryFunctions before = .ok library ∧ ∀ n, n ∈ library ↔ HasLibraryFunction before n := by
  rw [libraryFunctions]
  -- The whole table counts only where no standard header is included, not where those that are list nothing.
  by_cases hnone : ∀ header ∈ Harvest.includes before, ¬isStandardHeader header = true
  · rw [List.filter_eq_nil_iff.mpr hnone]
    refine ⟨allLibraryFunctions, rfl, fun n => ?_⟩
    rw [allLibraryFunctions, List.mem_flatMap]
    refine ⟨fun h => .inr ⟨hnone, h⟩, ?_⟩
    rintro (⟨header, hheader, hstandard, _⟩ | ⟨_, h⟩)
    · exact absurd hstandard (hnone header hheader)
    · exact h
  · have hsome : ((Harvest.includes before).filter isStandardHeader).isEmpty = false := by
      rw [List.isEmpty_eq_false_iff, ne_eq, List.filter_eq_nil_iff]
      exact hnone
    simp only [hsome, Bool.false_eq_true, if_false]
    refine ⟨_, libraryFunctions_eq fun header hheader => notMem_unlistedNames (List.mem_filter.mp hheader).2,
      fun n => ?_⟩
    simp only [List.mem_flatMap, List.mem_filter, mem_listedFunctions, HasLibraryFunction, hnone, false_and,
      or_false, and_assoc]

/-! ## Pools -/

theorem codePool_eq (h : libraryFunctions before = .ok library) (symbols : Symbols) :
    codePool symbols before = .ok (
      Candidate.ofTexts .keyword keywords ++ Candidate.ofTexts .type builtinTypes ++
      Candidate.ofTexts .function library ++ Candidate.ofTexts .function symbols.functions ++
      Candidate.ofTexts .type symbols.types ++ Candidate.ofTexts .type (Harvest.typeNames before) ++
      Candidate.ofTexts .variable ((Harvest.declaredVariables before
        (Harvest.typeNames before ++ symbols.types)).map (·.name)) ++
      Candidate.ofTexts .snippet snippetNames) := by
  rw [codePool, h]
  rfl

end Offer

variable {symbols symbols' : Symbols} {pool : List Candidate} {t : Text} {k : Nat}

/-- What is offered at a cursor in the text, where these are the candidates of its context. -/
theorem offer_eq (hk : k ≤ t.length)
    (hpool : Offer.pool symbols (Context.atCursor t k) (t.take k) = .ok pool) (options : OfferOptions) :
    offer symbols options t (.finite k) = .ok {
      context := Context.atCursor t k
      typed := wordBefore t k
      candidates :=
        if Context.atCursor t k = .string ∨ Context.atCursor t k = .comment ∨ (wordBefore t k).isEmpty
        then []
        else Offer.limited options.limit (Candidate.ranked options.mode (wordBefore t k) pool) } := by
  have htyped : wordBefore t k = trailingWord (t.take k) := rfl
  rw [offer, cursorIn_finite, if_pos hk]
  simp only [offerAt, hpool, ← htyped]
  split_ifs <;> rfl

end CCompletion
