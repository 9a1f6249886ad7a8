import CCompletion.Proofs.Completion.Insertion
import CCompletion.Proofs.Source.Typing

/-!
# What an offer depends on

Whatever stands below the line of the cursor has no part in what is offered there. The text before the cursor and the
rest of its line are all that the context, the word being typed and the candidates are read from.
-/

namespace CCompletion

variable {s t : Text} {k : Nat}

/-- A cursor can stand at the offset in both texts, and they are the same as far as the end of its line. -/
structure SameThroughLine (s t : Text) (k : Nat) : Prop where
  cursor : k ≤ s.length
  cursor' : k ≤ t.length
  before : s.take k = t.take k
  behind : (s.drop k).takeWhile (· ≠ newline) = (t.drop k).takeWhile (· ≠ newline)

namespace SameThroughLine

theorem currentLine_eq (h : SameThroughLine s t k) : currentLine s k = currentLine t k := by
  rw [CCompletion.currentLine_eq h.cursor, CCompletion.currentLine_eq h.cursor', h.before, h.behind]

theorem atCursor_eq (h : SameThroughLine s t k) : Context.atCursor s k = Context.atCursor t k := by
  show Context.of (s.take k) (currentLine s k) = Context.of (t.take k) (currentLine t k)
  rw [h.before, h.currentLine_eq]

/-- All else that is offered is harvested from the text before the cursor. -/
theorem offerAt_eq (h : SameThroughLine s t k) (symbols : Symbols) (options : OfferOptions) :
    offerAt symbols options s k = offerAt symbols options t k := by
  unfold offerAt
  rw [h.atCursor_eq, h.before]

end SameThroughLine

/-- At the same cursor in two texts that differ only below its line, the context is the same and the same is
offered. -/
theorem offer_local (h : SameThroughLine s t k) (symbols : Symbols) (options : OfferOptions) :
    ∃ context o, classify s (.finite k) = .ok context ∧ classify t (.finite k) = .ok context ∧
      offer symbols options s (.finite k) = .ok o ∧ offer symbols options t (.finite k) = .ok o := by
  obtain ⟨o, ho, _⟩ := exists_offer symbols options h.cursor
  have hsame : offer symbols options s (.finite k) = offer symbols options t (.finite k) := by
    unfold offer
    rw [cursorIn_finite, if_pos h.cursor, cursorIn_finite, if_pos h.cursor']
    show (offerAt symbols options s k).mapError _ = (offerAt symbols options t k).mapError _
    rw [h.offerAt_eq]
  refine ⟨Context.atCursor t k, o, ?_, classify_finite h.cursor', ho, hsame ▸ ho⟩
  rw [classify_finite h.cursor, h.atCursor_eq]

/-- A quote, the end of a comment, a header and a declaration below the line. -/
theorem offer_local_declaration :
    let document : Text := "int value;\nva + 1"
    let edited : Text := "int value;\nva + 1\n\"*/\n#include <math.h>\nint vault;"
    SameThroughLine document edited 13 ∧
    ∃ context o, classify document (.finite (13 : Nat)) = .ok context ∧
      classify edited (.finite (13 : Nat)) = .ok context ∧
      offer {} {} document (.finite (13 : Nat)) = .ok o ∧ offer {} {} edited (.finite (13 : Nat)) = .ok o := by
  intro document edited
  have hsame : SameThroughLine document edited 13 := by
    constructor
    · decide
    · decide
    · decide
    · decide
  exact ⟨hsame, offer_local hsame {} {}⟩

end CCompletion
